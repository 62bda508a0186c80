import Reductions.CommandLine.Run

/-!
# The program

Reads the configuration file that the arguments name, if any, runs the program on it and prints the
outcome.
-/

open Reductions

def readConfig (path : String) : IO (Except ReadError String) := do
  match ← (IO.FS.readBinFile path).toBaseIO with
  | .ok bytes =>
    match String.fromUTF8? bytes with
    | some text => return .ok text
    | none => return .error .invalidText
  | .error (.noFileOrDirectory _ _ _) => return .error .notFound
  | .error e => return .error (.system (toString e))

def main (args : List String) : IO UInt32 := do
  let config := match CommandLine.parse args with
    | .ok invocation => invocation.config
    | .error _ => none
  let content ← match config with
    | some path => readConfig path
    | none => pure (.error .notFound)
  let outcome := CommandLine.run (fun _ => content) args
  IO.print outcome.stdout
  IO.eprint outcome.stderr
  return UInt32.ofNat outcome.exitCode
