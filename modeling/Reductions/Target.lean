/-!
# Target architectures

The closed set of architecture families that a schedule can be asked for, with the names each goes
by.
-/

namespace Reductions

inductive Arch where
  /-- No architecture selected. Nothing can be scheduled for it. -/
  | unknown
  | x86
  | arm
  | nvGpu
  | hygonDcuHip
  | hygonDcuSycl
deriving DecidableEq, Repr, Inhabited

inductive ArchError where
  | unknownArch (text : String)
deriving DecidableEq, Repr

def ArchError.message : ArchError → String
  | unknownArch text => "unknown architecture: " ++ text

namespace Arch

/-- Every family a schedule exists for. -/
def known : List Arch :=
  [x86, arm, nvGpu, hygonDcuHip, hygonDcuSycl]

def all : List Arch :=
  unknown :: known

def name : Arch → String
  | unknown => "unknown"
  | x86 => "x86"
  | arm => "arm"
  | nvGpu => "nvgpu"
  | hygonDcuHip => "hygon-dcu-hip"
  | hygonDcuSycl => "hygon-dcu-sycl"

def label : Arch → String
  | nvGpu => "nv-gpu"
  | arch => arch.name

def aliases : Arch → List String
  | unknown => ["unknown"]
  | x86 => ["x86", "x86_64", "amd64"]
  | arm => ["arm", "arm64", "aarch64"]
  | nvGpu => ["nvgpu", "cuda", "nvptx64"]
  | hygonDcuHip => ["hygon-dcu-hip", "hip"]
  | hygonDcuSycl => ["hygon-dcu-sycl", "sycl"]

def foldCase (text : String) : String :=
  String.ofList (text.toList.map Char.toLower)

/-- The family that a text names. The case of ASCII letters does not count. -/
def parse (text : String) : Except ArchError Arch :=
  match all.find? fun arch => arch.aliases.contains (foldCase text) with
  | some arch => .ok arch
  | none => .error (.unknownArch text)

theorem mem_all (arch : Arch) : arch ∈ all := by
  cases arch <;> decide

theorem mem_known_iff (arch : Arch) : arch ∈ known ↔ arch ≠ unknown := by
  cases arch <;> decide

end Arch

structure Target where
  arch : Arch
deriving DecidableEq, Repr, Inhabited

namespace Target

def unset : Target := ⟨.unknown⟩

def host : Target := ⟨.x86⟩

def parse (text : String) : Except ArchError Target :=
  (Arch.parse text).map Target.mk

def name (t : Target) : String :=
  t.arch.name

end Target

end Reductions
