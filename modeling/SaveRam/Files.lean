/-!
# Files

A model of the files that a command can see.  A name is a sequence of parts
between slashes and is followed from the working directory, part by part;
everything it passes through must be a directory.  Names and their parts have a
limited length.  `Files.ofList` places files and directories by name, `Files.read`
gives the content of a file and `Files.write` creates a file or replaces its
content.

Three things are left out.  Where the working directory itself lies is not known, so
a relative and an absolute spelling of one file are different places, and `..` above
the working directory leads to places that no absolute name reaches.  There are no
links, so a place is reached in one way only.  And there are no permissions: every
file can be read and written, and every directory takes new files.
-/

namespace SaveRam

/-- Why a file could not be read or written. -/
inductive FileError where
  /-- There is no file or directory of that name. -/
  | missing
  /-- A part of the name that should be a directory is a file. -/
  | notDirectory
  /-- The name belongs to a directory. -/
  | isDirectory
  /-- The name or one of its parts is longer than a name can be. -/
  | nameTooLong
  /-- The name has a null character, which no name can have. -/
  | nullCharacter
  /-- The content is not UTF-8 text. -/
  | notText
  /-- Anything else the system reports, with its own words. -/
  | other (words : String)
deriving DecidableEq

namespace FileError

/-- The words of the system for an error. -/
def words : FileError → String
  | .missing => "No such file or directory (os error 2)"
  | .notDirectory => "Not a directory (os error 20)"
  | .isDirectory => "Is a directory (os error 21)"
  | .nameTooLong => "File name too long (os error 36)"
  | .nullCharacter => "file name contained an unexpected NUL byte"
  | .notText => "stream did not contain valid UTF-8"
  | .other words => words

/-- The sentence for a file error. -/
def message (e : FileError) : String := s!"I/O error: {e.words}"

end FileError

/-- What a name can stand for. -/
inductive Node where
  | file (content : List UInt8)
  | directory
deriving DecidableEq

/-- A place in the directory tree: the parts of its name, the last part first,
as seen from the working directory.  The root is the single part `/`. -/
abbrev Place := List String

/-- Where the parts of a name are followed from: the root when the name starts with
a slash, and otherwise the working directory. -/
def Place.start (name : String) : Place := if name.startsWith "/" then ["/"] else []

/-- The place reached from a directory by one more part of a name. -/
def Place.step : Place → String → Place
  | p, "" | p, "." => p
  | ["/"], ".." => ["/"]
  | [], ".." => [".."]
  | part :: p, ".." => if part = ".." then ".." :: part :: p else p
  | p, part => part :: p

/-- The files and directories below the working directory. -/
structure Files where
  nodes : List (Place × Node)
deriving DecidableEq

namespace Files

/-- No files at all. -/
def empty : Files := ⟨[]⟩

/-- What is at a place.  The working directory, its parents and the root are
always directories. -/
def node? (fs : Files) (p : Place) : Option Node :=
  if p = ["/"] ∨ ∀ part ∈ p, part = ".." then some .directory else fs.nodes.lookup p

/-- Puts something at a place. -/
def put (fs : Files) (p : Place) (node : Node) : Files :=
  ⟨(p, node) :: fs.nodes.filter fun entry => entry.1 ≠ p⟩

/-- Makes directories of a place and of the places above it, where there is
nothing yet. -/
def makeDirectories (fs : Files) : Place → Files
  | [] => fs
  | part :: p =>
    let fs := fs.makeDirectories p
    if (fs.node? (part :: p)).isSome then fs else fs.put (part :: p) .directory

/-- Puts something under a name and makes the directories that the name passes
through. -/
def add (fs : Files) (name : String) (node : Node) : Files :=
  let p := (name.splitOn "/").foldl Place.step (.start name)
  (fs.makeDirectories p.tail).put p node

/-- The files and directories with the given names, later ones in place of
earlier ones. -/
def ofList (entries : List (String × Node)) : Files :=
  entries.foldl (fun fs (name, node) => fs.add name node) empty

/-! ## Names -/

/-- The length of the longest name in bytes. -/
def maxNameLength : Nat := 4095

/-- The length of the longest part of a name in bytes. -/
def maxPartLength : Nat := 255

/-- What is wrong with a name wherever it leads. -/
def nameError? (name : String) : Option FileError :=
  if name.contains '\x00' then some .nullCharacter
  else if name.isEmpty then some .missing
  else if maxNameLength < name.utf8ByteSize then some .nameTooLong
  else none

/-- Follows parts of a name from a place. -/
def follow (fs : Files) : Place → List String → Except FileError Place
  | p, [] => .ok p
  | p, part :: parts =>
    match fs.node? p with
    | some .directory =>
      if maxPartLength < part.utf8ByteSize then .error .nameTooLong
      else follow fs (p.step part) parts
    | some (.file _) => .error .notDirectory
    | none => .error .missing

/-- The place that the given parts of a name lead to. -/
def resolve (fs : Files) (name : String) (parts : List String) : Except FileError Place :=
  match nameError? name with
  | some e => .error e
  | none => fs.follow (.start name) parts

/-! ## Contents -/

/-- The content of the file with a name. -/
def read (fs : Files) (name : String) : Except FileError (List UInt8) :=
  match fs.resolve name (name.splitOn "/") with
  | .error e => .error e
  | .ok p =>
    match fs.node? p with
    | some (.file content) => .ok content
    | some .directory => .error .isDirectory
    | none => .error .missing

/-- Creates a file with the given content, or replaces the content of the file
that is there.  A name that ends in a slash means a directory, even if there is
none; its last part is not looked at, but what leads there must be a directory. -/
def write (fs : Files) (name : String) (content : List UInt8) : Except FileError Files :=
  let parts := name.splitOn "/"
  let kept := (parts.reverse.dropWhile String.isEmpty).reverse
  if kept.length < parts.length then
    match fs.resolve name (kept.dropLast ++ [""]) with
    | .error e => .error e
    | .ok _ => .error .isDirectory
  else
    match fs.resolve name parts with
    | .error e => .error e
    | .ok p =>
      match fs.node? p with
      | some .directory => .error .isDirectory
      | some (.file _) | none => .ok (fs.put p (.file content))

end Files

end SaveRam
