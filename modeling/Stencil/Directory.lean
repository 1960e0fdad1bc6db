/-!
# Files and directories

The directory that the command line tool runs in, as far as the tool can see it: its files with
their bytes, and directories without anything in them. What lies outside is taken to be empty too. A
file is read as text in UTF-8.

A path is followed part by part. Empty parts and points stay where they are, two points go up, and
nothing lies below a file, so that even a slash behind its name is refused.

Main definitions:

* `Directory.find`: where a path leads;
* `Directory.read`: the text of the file at a path, or why there is none.
-/

namespace Stencil

/-- Why a file cannot be read. -/
inductive ReadFailure where
  | notFound
  /-- The path goes on below a file. -/
  | notDirectory
  | isDirectory
  /-- The bytes are no UTF-8. -/
  | notText
  /-- Anything else, in the words of the system. -/
  | other (reason : String)
deriving DecidableEq, Repr, Inhabited

def ReadFailure.message : ReadFailure → String
  | notFound => "No such file or directory (os error 2)"
  | notDirectory => "Not a directory (os error 20)"
  | isDirectory => "Is a directory (os error 21)"
  | notText => "stream did not contain valid UTF-8"
  | other reason => reason

inductive Entry where
  | file (bytes : ByteArray)
  | directory
deriving Inhabited

/-- A directory with its named entries. -/
structure Directory where
  entries : List (String × Entry)
deriving Inhabited

def textOfBytes (bytes : ByteArray) : Except ReadFailure String :=
  match String.fromUTF8? bytes with
  | some text => .ok text
  | none => .error .notText

namespace Directory

/-- Where a path has led so far. -/
inductive Place where
  | here
  | below
  /-- Somewhere above it. -/
  | outside
  | file (bytes : ByteArray)
deriving Inhabited

def entry? (dir : Directory) (name : String) : Option Entry :=
  (dir.entries.find? fun entry => entry.1 == name).map Prod.snd

def Place.above : Place → Place
  | .below => .here
  | _ => .outside

/-- What a name leads to from a directory. -/
def down (dir : Directory) (name : String) : Place → Except ReadFailure Place
  | .here =>
    match dir.entry? name with
    | some (.file bytes) => .ok (.file bytes)
    | some .directory => .ok .below
    | none => .error .notFound
  | _ => .error .notFound

/-- Goes on by one part of a path. -/
def step (dir : Directory) (place : Place) (part : String) : Except ReadFailure Place :=
  match place with
  | .file _ => .error .notDirectory
  | place =>
    if part = "" ∨ part = "." then .ok place
    else if part = ".." then .ok place.above
    else dir.down part place

/-- The parts of a path between its slashes. -/
def parts (path : List Char) : List (List Char) :=
  match path with
  | [] => [[]]
  | c :: cs =>
    if c = '/' then [] :: parts cs
    else
      match parts cs with
      | [] => [[c]]
      | part :: others => (c :: part) :: others

/-- Where a path leads. One that starts with a slash starts outside. -/
def find (dir : Directory) (path : String) : Except ReadFailure Place :=
  if path.isEmpty then .error .notFound
  else
    let start : Place := if path.toList.head? = some '/' then .outside else .here
    ((parts path.toList).map String.ofList).foldlM dir.step start

def read (dir : Directory) (path : String) : Except ReadFailure String :=
  match dir.find path with
  | .ok (.file bytes) => textOfBytes bytes
  | .ok _ => .error .isDirectory
  | .error failure => .error failure

end Directory

end Stencil
