import RecordLayout.Command.Run

/-!
# The program

Finds out what stands at the paths that the command line asks for, runs the command over it and puts
the results where they belong.
-/

namespace RecordLayout.Program

/-- The cause of a failed access, by the number of the error. -/
def causeOf (code : UInt32) : FileError.Cause :=
  if code = 20 then .notADirectory else if code = 21 then .isADirectory else .missing

/-- What stands at the end of a path. -/
def probe (path : String) : IO (Except FileError.Cause Standing) := do
  try
    let octets ← IO.FS.readBinFile path
    return .ok (.file (.octets octets.toList))
  catch
    | .noFileOrDirectory .. => return .ok .absent
    | .inappropriateType _ code _ =>
      return if code = 21 then .ok .directory else .error (causeOf code)
    | _ => return .error .missing

/-- What stands at the end of the paths that a command line asks for. -/
def probeAll (words : List String) : IO Files := do
  let found ← (Command.pathsOf words).mapM fun path => return (path, ← probe path)
  return ⟨fun path => ((found.find? fun f => f.1 == path).map (·.2)).getD (.error .missing)⟩

/-- The way to call the program. -/
def callText : String :=
  "usage: " ++ Command.name ++ " [options] path\n"

end RecordLayout.Program

open RecordLayout

/-- Runs the command of the words and gives its exit status. -/
def main (words : List String) : IO UInt32 := do
  match Command.run (← Program.probeAll words) words with
  | .help =>
    IO.print Program.callText
    return 0
  | .usage e =>
    IO.eprint (Program.callText ++ Command.usageLine e ++ "\n")
    return 2
  | .finished status output diagnostics written =>
    IO.eprint diagnostics
    match written with
    | none => IO.print output
    | some path => IO.FS.writeFile path output
    return UInt32.ofNat status.code
  | .aborted fault =>
    let message :=
      match fault with
      | .file e => e.message
      | _ => "the input cannot be processed"
    IO.eprint (Command.faultLine message)
    return 1
