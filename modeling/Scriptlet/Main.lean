import Scriptlet.CommandLine.Run

/-!
# The program

Reads the file that is asked for, if any, and carries the request out.
-/

namespace Scriptlet.CommandLine

/-- Why the system does not open a file. A directory opens and is refused only when it is read, without
its name. What has no wording of its own here counts as not found. -/
def OpenError.ofSystem : IO.Error → OpenError
  | .inappropriateType (some _) _ _ => .notDirectory
  | .inappropriateType none _ _ => .isDirectory
  | .invalidArgument _ _ _ => .nameTooLong
  | _ => .notFound

/-- What is read under a name. -/
def readContent (name : String) : IO FileContent := do
  if name.toList.contains '\x00' then return .error .nullInName
  try
    return .ok (← IO.FS.readBinFile name).toList
  catch error => return .error (OpenError.ofSystem error)

/-- The content of the file that a request asks for. -/
def Request.readContent (request : Request) : IO FileContent :=
  match request with
  | .file name _ => CommandLine.readContent name
  | _ => return .error .notFound

/-- Writes a report and gives the exit status. -/
def Report.write (report : Report) : IO UInt32 := do
  IO.print report.stdout
  IO.eprint report.stderr
  match report.ending with
  | .exit status => return status.toUInt32
  | .invalidName =>
    IO.eprintln OpenError.nullInName.reason
    return 1
  | .undecodable cause =>
    IO.eprintln cause.message
    return 1
  | .fault cause =>
    IO.eprintln (cause.message?.getD "maximum recursion depth exceeded")
    return 1

end Scriptlet.CommandLine

open Scriptlet.CommandLine in
def main (arguments : List String) : IO UInt32 := do
  let request := Request.ofArguments arguments
  (request.report Scriptlet.Limits.standard (← request.readContent)).write
