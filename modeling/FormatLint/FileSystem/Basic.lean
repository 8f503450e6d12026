import FormatLint.Path.Basic

/-!
A file system as a tree. A place is the list of names that leads from the root to a node, without
links; `Node.get?`, `Node.put` and `Node.erase` look up, replace and remove the node at a place.
-/

namespace FormatLint

/-- A regular file. -/
structure FileData where
  content : ByteArray
  /-- The permission bits. -/
  mode : Nat := 0o644
  /-- Whether it was written since the file system was set up. -/
  touched : Bool := false

inductive Node where
  | file (data : FileData)
  /-- Entries with distinct names, in no order that matters. -/
  | dir (entries : List (Bytes × Node))
  | link (target : Path)

/-- The names from the root down to a node. -/
abbrev Place := List Bytes

namespace Node

def isDir : Node → Bool
  | dir _ => true
  | _ => false

def isFile : Node → Bool
  | file _ => true
  | _ => false

def file? : Node → Option FileData
  | file data => some data
  | _ => none

/-- The entry list with `node` under `name`. -/
def setEntry (name : Bytes) (node : Node) : List (Bytes × Node) → List (Bytes × Node)
  | [] => [(name, node)]
  | (k, old) :: rest =>
    if k = name then (k, node) :: rest else (k, old) :: setEntry name node rest

def get? : Place → Node → Option Node
  | [], node => some node
  | name :: rest, dir entries => (entries.lookup name).bind (get? rest)
  | _ :: _, _ => none

/-- The tree with `new` at a place. Missing directories on the way come into being, and below
    a node that is no directory nothing changes. -/
def put (new : Node) : Place → Node → Node
  | [], _ => new
  | name :: rest, dir entries =>
    dir (setEntry name (put new rest ((entries.lookup name).getD (dir []))) entries)
  | _ :: _, other => other

/-- The tree without the node at a place. -/
def erase : Place → Node → Node
  | [], node => node
  | [name], dir entries => dir (entries.filter (·.1 != name))
  | name :: rest, dir entries =>
    match entries.lookup name with
    | some child => dir (setEntry name (erase rest child) entries)
    | none => dir entries
  | _, other => other

end Node

/-- A file system seen from a working directory. -/
structure FileSystem where
  root : Node
  cwd : Path

namespace FileSystem

def get? (fs : FileSystem) (place : Place) : Option Node := Node.get? place fs.root

def put (fs : FileSystem) (place : Place) (node : Node) : FileSystem :=
  { fs with root := Node.put node place fs.root }

def erase (fs : FileSystem) (place : Place) : FileSystem :=
  { fs with root := Node.erase place fs.root }

end FileSystem

end FormatLint
