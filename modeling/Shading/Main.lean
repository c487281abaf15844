import Shading.CommandLine

/-!
# The program

Reads the named files, runs the command line and prints what it leaves.
-/

open Shading

/-- Contents of the files that can be read. -/
def readFiles (paths : List String) : IO (List (String × ByteArray)) :=
  paths.filterMapM fun (path : String) => do
    try
      let contents ← IO.FS.readBinFile path
      return some (path, contents)
    catch _ => return none

/-- The files that the arguments name. -/
def namedFiles (arguments : List String) : List String :=
  match Request.ofArguments arguments with
  | .ok request => request.files
  | .error _ => []

def main (arguments : List String) : IO UInt32 := do
  let stdout ← IO.getStdout
  let color := wantsColor (← IO.getEnv "CLICOLOR_FORCE") (← IO.getEnv "NO_COLOR")
    (← IO.getEnv "CLICOLOR") (← stdout.isTty)
  let files ← readFiles (namedFiles arguments)
  let run := runArguments arguments (fun path => files.lookup path) color
  stdout.putStr run.stdout
  (← IO.getStderr).putStr run.stderr
  return UInt32.ofNat run.code
