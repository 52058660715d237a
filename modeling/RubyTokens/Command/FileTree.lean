import RubyTokens.Command.Path

/-! File trees: texts under names, in directories that exist because they hold something. A command
sees the files of its working directory. Above that there are directories too, of which nothing is
seen but that they are there. A name in a directory, and a path as a whole, have bounded lengths. -/

namespace RubyTokens

/-- Why a file cannot be read or written. -/
inductive FileError where
  | missing
  | isDirectory
  | notADirectory
  | inTheWay
  | nullCharacter
  | longName
  deriving DecidableEq, Repr

def FileError.message : FileError → String
  | .missing => "no such file or directory"
  | .isDirectory => "is a directory"
  | .notADirectory => "not a directory"
  | .inTheWay => "file exists"
  | .nullCharacter => "embedded null byte"
  | .longName => "file name too long"

/-- The most bytes of a name in a directory. -/
def nameLimit : Nat := 255

/-- The most bytes of a path. -/
def pathLimit : Nat := 4095

/-- Whether a path can be asked for at all. -/
def Path.check (p : Path) : Except FileError Unit :=
  if p.text.toList.contains '\x00' then .error .nullCharacter
  else if pathLimit < p.text.utf8ByteSize then .error .longName
  else .ok ()

/-- A place: some directories above the working directory, and from there down. -/
structure Location where
  above : Nat := 0
  parts : List String := []
  deriving DecidableEq, Repr

namespace Location

def child (l : Location) (name : String) : Location := { l with parts := l.parts ++ [name] }

def parent (l : Location) : Location :=
  if l.parts = [] then { l with above := l.above + 1 } else { l with parts := l.parts.dropLast }

end Location

/-- The texts of files under the components of their paths. -/
structure FileTree where
  files : List (List String × String)
  deriving DecidableEq, Repr

namespace FileTree

inductive Node where
  | file (text : String)
  | directory
  deriving DecidableEq, Repr

/-- What stands in a place. -/
def node? (t : FileTree) (l : Location) : Option Node :=
  if l.parts = [] then some .directory
  else if l.above ≠ 0 then none
  else match t.files.lookup l.parts with
    | some text => some (.file text)
    | none => if t.files.any fun f => l.parts.isPrefixOf f.1 then some .directory else none

/-- Follows components from a place; a double dot goes to the directory above. -/
def walk (t : FileTree) (here : Location) : List String → Except FileError Location
  | [] => .ok here
  | part :: rest =>
    match t.node? here with
    | some .directory =>
      if part = ".." then t.walk here.parent rest
      else if nameLimit < part.utf8ByteSize then .error .longName
      else t.walk (here.child part) rest
    | some (.file _) => .error .notADirectory
    | none => .error .missing

/-- What a path leads to. From the root of all files nothing but the root itself is seen. -/
def lookup (t : FileTree) (p : Path) : Except FileError Node := do
  p.check
  if p.root ≠ "" then
    if p.parts = [] then return .directory else throw .missing
  let place ← t.walk {} p.parts
  (t.node? place).elim (throw .missing) pure

def read (t : FileTree) (p : Path) : Except FileError String := do
  match ← t.lookup p with
  | .file text => return text
  | .directory => throw .isDirectory

/-- Follows components as `walk` does, over directories that are made where they are missing. The
places passed are kept, the latest first. A file is in the way of the directory that is to be made
under its name; it is found not to be a directory if it stands before the first of these. -/
def makeWay (t : FileTree) (here : Location) (passed : List Location) :
    List String → Except FileError (Location × List Location)
  | [] => .ok (here, passed)
  | part :: rest =>
    if part = ".." then t.makeWay here.parent passed rest
    else if nameLimit < part.utf8ByteSize then .error .longName
    else
      let next := here.child part
      match t.node? next with
      | some (.file _) =>
        let making := rest = [] ∨ passed.any fun l => t.node? l = none
        .error (if making then .inTheWay else .notADirectory)
      | _ => t.makeWay next (next :: passed) rest

/-- The place of the file that is written under a path. -/
def place (t : FileTree) (p : Path) : Except FileError Location := do
  match p.parts.getLast? with
  | none => throw .isDirectory
  | some name =>
    let directory : Path := { p with parts := p.parts.dropLast }
    directory.check
    if p.root ≠ "" then throw .missing
    let (here, passed) ← t.makeWay {} [] directory.parts
    p.check
    if name = ".." then throw .isDirectory
    if nameLimit < name.utf8ByteSize then throw .longName
    let file := here.child name
    if file ∈ passed ∨ t.node? file = some .directory then throw .isDirectory
    return file

/-- The components of every file and directory below a directory, each once. -/
def namesBelow (t : FileTree) (directory : Location) : List (List String) :=
  let inside := t.files.filterMap fun f =>
    if directory.above = 0 ∧ directory.parts.isPrefixOf f.1 then
      some (f.1.drop directory.parts.length)
    else none
  (inside.flatMap fun parts => (List.range parts.length).map fun i => parts.take (i + 1)).eraseDups

end FileTree

end RubyTokens
