import Scriptlet.CommandLine.FileTree
import Scriptlet.CommandLine.Request
import Scriptlet.Session
import Scriptlet.Text.Utf8

/-!
# Running from the command line

A request is carried out on a source that is given on the command line or read from a file. The report
says what is written to the two outputs and how the run ends.
-/

namespace Scriptlet.CommandLine

/-- How a run ends. -/
inductive Ending where
  | exit (status : Nat)
  /-- What should be the name of the file can be no name. -/
  | invalidName
  /-- The file is not text. -/
  | undecodable (cause : Text.Utf8Fault)
  /-- The source cannot be read or evaluated at all, or its result cannot be written. -/
  | fault (cause : Fault)

/-- The outcome of a run. -/
structure Report where
  ending : Ending
  stdout : String
  stderr : String

/-- Lines of text, each ended by a line feed. -/
def lines (texts : List String) : String := String.join (texts.map (· ++ "\n"))

def usage : String := "usage: hera [-h] [-c SOURCE] [--print-ast] [file]"

def helpText : String :=
  lines [usage, "", "Evaluate a hera program.", "", "positional arguments:",
    "  file         program file to run", "", "options:",
    "  -h, --help   show this help message and exit",
    "  -c SOURCE    program passed in as a string",
    "  --print-ast  print the parsed program instead of running it"]

/-- The lines that tell of syntax errors. -/
def errorLines (errors : List SyntaxError) : String :=
  lines (errors.map fun error => "Parser error: " ++ error.message)

/-- Writes a source in its canonical form. -/
def reportTree (limits : Limits) (source : String) : Report :=
  match parse limits source with
  | .error cause => ⟨.fault cause, "", ""⟩
  | .ok parsed =>
    match parsed.program.renderWithin limits.writing with
    | .error cause => ⟨.fault cause, "", errorLines parsed.errors⟩
    | .ok text =>
      ⟨.exit (if parsed.errors.isEmpty then 0 else 1), lines [text], errorLines parsed.errors⟩

/-- Runs a source. Its value is written unless it is null or absent. -/
def reportRun (limits : Limits) (source : String) : Report :=
  let (outcome, session) := Session.initial.run limits source
  let printed := lines session.store.output.toList
  match outcome with
  | .fault .tooDeep => ⟨.exit 1, printed, lines ["Fatal error: maximum recursion depth exceeded"]⟩
  | .fault cause => ⟨.fault cause, printed, ""⟩
  | .rejected => ⟨.exit 1, printed, errorLines session.errors⟩
  | .value (.error cause) => ⟨.exit 1, printed, lines [(Value.error cause).inspect]⟩
  | .value .null | .value .absent => ⟨.exit 0, printed, ""⟩
  | .value value =>
    match value.inspectWithin limits.writing with
    | .error cause => ⟨.fault cause, printed, ""⟩
    | .ok text => ⟨.exit 0, printed ++ lines [text], ""⟩

/-- Carries a request out on a source. -/
def reportSource (limits : Limits) (source : String) (printTree : Bool) : Report :=
  if printTree then reportTree limits source else reportRun limits source

/-- Carries a request out on a file. -/
def reportFile (limits : Limits) (name : String) (content : FileContent) (printTree : Bool) : Report :=
  match content with
  | .error .nullInName => ⟨.invalidName, "", ""⟩
  | .error cause => ⟨.exit 1, "", lines ["Error: cannot read " ++ name ++ ": " ++ cause.reason]⟩
  | .ok bytes =>
    match Text.decodeUtf8 bytes with
    | .error cause => ⟨.undecodable cause, "", ""⟩
    | .ok cs => reportSource limits (String.ofList (Text.unifyNewlines cs)) printTree

/-- Carries a request out. `content` is what is found under the name of the file that is asked for. -/
def Request.report (limits : Limits) (request : Request) (content : FileContent) : Report :=
  match request with
  | .help => ⟨.exit 0, helpText, ""⟩
  | .misuse error => ⟨.exit 2, "", lines [usage, "hera: error: " ++ error.message]⟩
  | .source text printTree => reportSource limits text printTree
  | .file name printTree => reportFile limits name content printTree

/-- Runs the program with the given arguments on the given files. -/
def run (limits : Limits) (files : String → FileContent) (arguments : List String) : Report :=
  let request := Request.ofArguments arguments
  match request with
  | .file name _ => request.report limits (files name)
  | _ => request.report limits (.error .notFound)

end Scriptlet.CommandLine
