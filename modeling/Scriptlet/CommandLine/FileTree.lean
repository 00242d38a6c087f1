/-!
# Files by name

The name of a file is a path: steps with slashes between them, which lead from the working directory,
or from the root if the name begins with a slash. Empty steps and `.` lead nowhere, and `..` leads to
the directory around. A step goes out of a directory only, so a name that goes on after a file, if only
by a slash, names nothing.

A `FileTree` holds the files and directories that are known, and which of them is the working
directory. The directory around the root is the root itself.
-/

namespace Scriptlet.CommandLine

/-- Why no text can be read under a name. -/
inductive OpenError where
  | notFound
  | isDirectory
  | notDirectory
  | nameTooLong
  /-- The name holds U+0000, so that it is no name at all. -/
  | nullInName
deriving DecidableEq

/-- The wording of a failure to open a file. -/
def OpenError.reason : OpenError → String
  | .notFound => "No such file or directory"
  | .isDirectory => "Is a directory"
  | .notDirectory => "Not a directory"
  | .nameTooLong => "File name too long"
  | .nullInName => "embedded null byte"

/-- What is read under a name. -/
abbrev FileContent := Except OpenError (List UInt8)

/-- The text between two slashes of a name. -/
abbrev Step := List Char

/-- The steps of a name. -/
def stepsOf : List Char → List Step
  | [] => [[]]
  | c :: cs =>
    if c = '/' then [] :: stepsOf cs
    else
      match stepsOf cs with
      | [] => [[c]]
      | step :: steps => (c :: step) :: steps

/-- Whether a step leads nowhere. -/
def Step.isIdle (step : Step) : Bool := step == [] || step == ['.']

/-- The number of bytes that a text takes in UTF-8. -/
def byteLength (cs : List Char) : Nat := cs.foldl (fun n c => n + c.utf8Size) 0

/-- The greatest number of bytes in a step. -/
def maxStepLength : Nat := 255

/-- The greatest number of bytes in a name. -/
def maxNameLength : Nat := 4095

/-- Something that has a name. -/
inductive Entry where
  | directory
  | file (bytes : List UInt8)

/-- What is known of the files. The steps from the root to an entry stand in reverse, so that the
directory around it is found by leaving out the first one. -/
structure FileTree where
  /-- The steps to the working directory. -/
  workingDirectory : List Step
  entries : List (List Step × Entry)

namespace FileTree

/-- The steps that lead from a directory to a name, in reverse and on top of those to the directory. -/
def pathFrom (directory : List Step) (name : String) : List Step :=
  ((stepsOf name.toList).filter fun step => !step.isIdle).reverse ++ directory

/-- The tree with the given working directory, entries below it and entries that are named from the
root. -/
def ofNames (workingDirectory : String) (names rootNames : List (String × Entry)) : FileTree :=
  let here := pathFrom [] workingDirectory
  ⟨here, names.map (fun (name, entry) => (pathFrom here name, entry)) ++
    rootNames.map fun (name, entry) => (pathFrom [] name, entry)⟩

/-- What the steps `path` lead to. What something known stands in is a directory. -/
def find? (tree : FileTree) (path : List Step) : Option Entry :=
  match tree.entries.lookup path with
  | some entry => some entry
  | none =>
    let known := tree.workingDirectory :: tree.entries.map Prod.fst
    if known.any fun other => path.isSuffixOf other then some .directory else none

/-- Goes on from the directory to which the steps `path` lead. -/
def walk (tree : FileTree) (path : List Step) : List Step → FileContent
  | [] => .error .isDirectory
  | step :: steps =>
    if step.isIdle then tree.walk path steps
    else if step = ['.', '.'] then tree.walk path.tail steps
    else if maxStepLength < byteLength step then .error .nameTooLong
    else
      match tree.find? (step :: path) with
      | none => .error .notFound
      | some .directory => tree.walk (step :: path) steps
      | some (.file bytes) => if steps.isEmpty then .ok bytes else .error .notDirectory

/-- What is read under a name. -/
def read (tree : FileTree) (name : String) : FileContent :=
  let cs := name.toList
  if cs.contains '\x00' then .error .nullInName
  else if cs.isEmpty then .error .notFound
  else if maxNameLength < byteLength cs then .error .nameTooLong
  else tree.walk (if cs.head? = some '/' then [] else tree.workingDirectory) (stepsOf cs)

end FileTree

end Scriptlet.CommandLine
