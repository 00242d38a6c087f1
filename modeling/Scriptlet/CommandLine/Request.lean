import Scriptlet.Text.Digit
import Scriptlet.Text.Quoted

/-!
# Reading the command line

The arguments are first sorted into words: options, texts that stand by themselves, and the mark `--`
after which everything is a text. Then the words are taken from left to right. The result is a
`Request`: what the caller wants to be done, or why the arguments make no sense.
-/

namespace Scriptlet.CommandLine

/-- The options. -/
inductive Flag where
  | help
  | source
  | printTree
deriving DecidableEq

namespace Flag

/-- The spellings of all options. -/
def spellings : List (String × Flag) :=
  [("-h", .help), ("--help", .help), ("-c", .source), ("--print-ast", .printTree)]

/-- How usage errors call an option. -/
def title : Flag → String
  | .help => "-h/--help"
  | .source => "-c"
  | .printTree => "--print-ast"

end Flag

/-- Why the arguments make no sense. -/
inductive UsageError where
  | notExactlyOne
  | expectedArgument (flag : Flag)
  | ignoredArgument (flag : Flag) (text : String)
  | ambiguous (text : String) (matching : List String)
  | unrecognized (texts : List String)
deriving DecidableEq

/-- The wording of a usage error. -/
def UsageError.message : UsageError → String
  | .notExactlyOne => "give exactly one of FILE or -c SOURCE"
  | .expectedArgument flag => "argument " ++ flag.title ++ ": expected one argument"
  | .ignoredArgument flag text =>
    "argument " ++ flag.title ++ ": ignored explicit argument " ++ Text.quoted text
  | .ambiguous text matching =>
    "ambiguous option: " ++ text ++ " could match " ++ ", ".intercalate matching
  | .unrecognized texts => "unrecognized arguments: " ++ " ".intercalate texts

/-- One argument. -/
inductive Word where
  | text (content : String)
  /-- The mark after which there are no options. -/
  | separator
  /-- An option that is spelt with two dashes if `isLong`, and the text that stands in the same argument
  after the option's letter or after an equals sign. -/
  | flag (flag : Flag) (isLong : Bool) (attached : Option (List Char))
  /-- What looks like an option and is none. -/
  | unknown (content : String)

/-- Whether all characters are decimal digits. -/
def allDecimal (cs : List Char) : Bool := cs.all Text.isDecimal

/-- Whether an argument is a minus sign and a number, perhaps with a decimal point, perhaps before a
line feed. -/
def isNegativeNumber (cs : List Char) : Bool :=
  match cs with
  | '-' :: number =>
    let number := if number.getLast? = some '\n' then number.dropLast else number
    let whole := number.takeWhile (· != '.')
    match number.dropWhile (· != '.') with
    | [] => !whole.isEmpty && allDecimal whole
    | _ :: fraction => allDecimal whole && !fraction.isEmpty && allDecimal fraction
  | _ => false

/-- The word for what begins with a dash and is no option: negative numbers and texts with a space in
them stand for themselves. -/
def wordOfOther (text : String) : Word :=
  if isNegativeNumber text.toList || text.toList.contains ' ' then .text text else .unknown text

/-- The option whose spelling is exactly the given one. -/
def exactly? (cs : List Char) : Option Flag :=
  (Flag.spellings.find? fun (spelling, _) => spelling.toList == cs).map Prod.snd

/-- The text after the first equals sign. -/
def afterEquals? (cs : List Char) : Option (List Char) :=
  match cs.dropWhile (· != '=') with
  | [] => none
  | _ :: text => some text

/-- Sorts an argument that is not the separator. Options with two dashes may be cut short as long as
only one of them is meant. -/
def wordOf (text : String) : Except UsageError Word :=
  let cs := text.toList
  let name := cs.takeWhile (· != '=')
  let isLong := ['-', '-'].isPrefixOf cs
  match cs with
  | '-' :: second :: rest =>
    match exactly? cs, exactly? name with
    | some flag, _ => .ok (.flag flag isLong none)
    | none, some flag => .ok (.flag flag isLong (afterEquals? cs))
    | none, none =>
      if isLong then
        match Flag.spellings.filter fun (spelling, _) => name.isPrefixOf spelling.toList with
        | [] => .ok (wordOfOther text)
        | [(_, flag)] => .ok (.flag flag true (afterEquals? cs))
        | matching => .error (.ambiguous text (matching.map Prod.fst))
      else
        match exactly? ['-', second] with
        | some flag => .ok (.flag flag false (some rest))
        | none => .ok (wordOfOther text)
  | _ => .ok (.text text)

/-- Sorts all arguments. -/
def wordsOf : List String → Except UsageError (List Word)
  | [] => .ok []
  | "--" :: texts => .ok (.separator :: texts.map .text)
  | text :: texts => do
    let word ← wordOf text
    return word :: (← wordsOf texts)

/-- What the words passed so far have set. The place of the file is taken at most once. -/
structure Settings where
  filePlaceTaken : Bool
  file : Option String
  source : Option String
  printTree : Bool
  unrecognized : List String

namespace Settings

def initial : Settings := ⟨false, none, none, false, []⟩

/-- Puts a text in the place of the file. -/
def takeFile (settings : Settings) (file : Option String) : Settings :=
  { settings with filePlaceTaken := true, file }

def addUnrecognized (settings : Settings) (texts : List String) : Settings :=
  { settings with unrecognized := settings.unrecognized ++ texts }

end Settings

/-- Checks what is attached to the letter of `-h`: more letters of options. The argument of `-c` is what
follows its letter, or else the next word. -/
def checkAfterHelp (following : List Word) : List Char → Except UsageError Unit
  | ['h'] => .ok ()
  | 'h' :: letters => checkAfterHelp following letters
  | ['c'] =>
    match following with
    | .text _ :: _ => .ok ()
    | _ => .error (.expectedArgument .source)
  | 'c' :: _ => .ok ()
  | text => .error (.ignoredArgument .help (String.ofList text))

/-- The source that is attached to `-c`. The mark that ends the options is no source, so it leaves the
source empty. -/
def attachedSource (text : List Char) : String :=
  if text = ['-', '-'] then "" else String.ofList text

/-- Takes the words from left to right. There are no settings if help is asked for. -/
def takeWords (settings : Settings) : List Word → Except UsageError (Option Settings)
  | [] => .ok (some settings)
  | .text text :: words =>
    if settings.filePlaceTaken then takeWords (settings.addUnrecognized [text]) words
    else match words with
      | .separator :: words => takeWords (settings.takeFile (some text)) words
      | words => takeWords (settings.takeFile (some text)) words
  | .separator :: words =>
    if settings.filePlaceTaken then takeWords (settings.addUnrecognized ["--"]) words
    else match words with
      | .text text :: words => takeWords (settings.takeFile (some text)) words
      | words => takeWords (settings.takeFile none) words
  | .unknown text :: words => takeWords (settings.addUnrecognized [text]) words
  | .flag .printTree _ none :: words => takeWords { settings with printTree := true } words
  | .flag .printTree _ (some text) :: _ =>
    .error (.ignoredArgument .printTree (String.ofList text))
  | .flag .source _ (some text) :: words =>
    takeWords { settings with source := some (attachedSource text) } words
  | .flag .source _ none :: words =>
    match words with
    | .text text :: words => takeWords { settings with source := some text } words
    | _ => .error (.expectedArgument .source)
  | .flag .help _ none :: _ => .ok none
  | .flag .help true (some text) :: _ => .error (.ignoredArgument .help (String.ofList text))
  | .flag .help false (some text) :: words =>
    match checkAfterHelp words text with
    | .error error => .error error
    | .ok () => .ok none

/-- What the caller wants. -/
inductive Request where
  | help
  | misuse (error : UsageError)
  | source (text : String) (printTree : Bool)
  | file (name : String) (printTree : Bool)

/-- The request that the settings make. -/
def Settings.request (settings : Settings) : Request :=
  if settings.unrecognized.isEmpty then
    match settings.file, settings.source with
    | none, some text => .source text settings.printTree
    | some name, none => .file name settings.printTree
    | _, _ => .misuse .notExactlyOne
  else .misuse (.unrecognized settings.unrecognized)

/-- Reads the arguments. -/
def Request.ofArguments (arguments : List String) : Request :=
  match wordsOf arguments with
  | .error error => .misuse error
  | .ok words =>
    match takeWords Settings.initial words with
    | .error error => .misuse error
    | .ok none => .help
    | .ok (some settings) => settings.request

end Scriptlet.CommandLine
