import PlZero.Command.Report

/-!
# The command

Reads the file that the command line names, checks it and prints the report.
-/

namespace PlZero

set_option autoImplicit false

/-- A code of the operating system, which comes with either sign. -/
def unsignedCode (code : UInt32) : UInt32 :=
  if code < 0x80000000 then code else 0 - code

def FileFault.ofError (error : IO.Error) : FileFault :=
  match error with
  | .noFileOrDirectory .. => .notFound
  | .inappropriateType _ code _ =>
    if unsignedCode code = 20 then .notADirectory else .isADirectory
  | .permissionDenied .. => .other "Permission denied (os error 13)"
  | .invalidArgument _ code _ =>
    if unsignedCode code = 36 then .nameTooLong else .other error.toString
  | _ => .other error.toString

def readPath (path : String) : IO (Except Fault String) := do
  match Source.checkPath path with
  | .error fault => return .error fault
  | .ok _ =>
    try
      return Source.decode (← IO.FS.readBinFile path)
    catch error =>
      return .error (.file (.ofError error))

def measure (limit : Nat) (source : String) : IO Command.Times := do
  let begun ← IO.monoMsNow
  let scan ← IO.lazyPure fun _ => Scan.ofSource firstLine source
  let scanned ← IO.monoMsNow
  let _ ← IO.lazyPure fun _ =>
    Parser.result (Parser.parseProgram limit (Parser.start scan.tokens .empty))
  let parsed ← IO.monoMsNow
  return ⟨scanned - begun, parsed - scanned, parsed - begun⟩

def answer (request : Command.Request) : IO Command.Report := do
  match request with
  | .check options =>
    let contents ← readPath options.path
    let times? ← match contents with
      | .ok source =>
        if options.switches.contains .timing then
          some <$> measure options.limit source
        else
          pure none
      | .error _ => pure none
    let report := Command.Report.ofContents options times? contents
    if options.switches.contains .verbose then
      for event in report.events.filter (·.isShownAt .debug) do
        IO.eprintln (event.level.text ++ " " ++ event.message)
    return report
  | other => return Command.Report.ofRequest (fun _ => .ok "") none other

end PlZero

def main (arguments : List String) : IO UInt32 := do
  let report ← PlZero.answer (PlZero.Command.Request.ofArguments arguments)
  for line in report.output do
    IO.println line
  for line in report.errors do
    IO.eprintln line
  return report.exitCode.toUInt32
