import FormatLint.FileSystem.Listing
import FormatLint.FileSystem.Resolve
import FormatLint.Glob.Parser
import FormatLint.Path.Normal

/-!
Searching a directory tree: what matches an include glob and no exclude glob. A directory whose
whole content is excluded by a glob of the form `<stem>/**` is not entered; `searchAll` is the same
search without that shortcut.
-/

namespace FormatLint.Selection

structure Query where
  /-- The directory that the globs are relative to. -/
  root : Path
  includes : List String := []
  excludes : List String := []
  /-- Only regular files are found. -/
  filesOnly : Bool := true

/-- What is left of a text after it lost an ending. -/
def dropEnd? (ending text : List Char) : Option (List Char) :=
  if ending.isSuffixOf text then some (text.take (text.length - ending.length)) else none

/-- The glob of the directories of which a glob excludes all content. -/
def subtreeStem? (glob : String) : Option String :=
  let text := glob.toList
  match (dropEnd? "/**/*".toList text).or (dropEnd? "/**".toList text) with
  | some [] => none
  | stem => stem.map String.ofList

/-- The text that globs are matched against: the names with slashes between them. -/
def relativeText (place : Place) : Bytes :=
  Path.unsplit (place.map fun name => Utf8.encode (Utf8.decodeLossy name))

/-- A query with its globs read. -/
structure Matcher where
  includes : List Glob
  excludes : List Glob
  subtrees : List Glob
  filesOnly : Bool

namespace Matcher

def ofQuery (q : Query) : Except Error Matcher := do
  let includes ← Glob.compile q.includes
  let excludes ← Glob.compile q.excludes
  let subtrees ← Glob.compile (q.excludes.filterMap subtreeStem?)
  return { includes, excludes, subtrees, filesOnly := q.filesOnly }

/-- Whether everything below a directory is excluded. -/
def prunes (m : Matcher) (place : Place) : Bool := Glob.anyAccepts m.subtrees (relativeText place)

def selects (m : Matcher) (item : Listed) : Bool :=
  (item.node.isFile || !m.filesOnly) &&
    Glob.anyAccepts m.includes (relativeText item.place) &&
    !Glob.anyAccepts m.excludes (relativeText item.place)

end Matcher

/-- The path of a place below the search root. -/
def pathBelow (root : Path) (place : Place) : Path :=
  place.foldl (fun p name => p.join ⟨name⟩) root

/-- The search with `pruned` as the directories that are not entered. -/
def searchWith (pruned : Matcher → Place → Bool) (fs : FileSystem) (q : Query) :
    Except Error (List Path) := do
  let matcher ← Matcher.ofQuery q
  match Path.absolute? fs.cwd q.root with
  | none => throw (Error.ofFault "resolve search root" q.root .emptyPath)
  | some root =>
    match fs.stat root with
    | .error fault => throw (Error.ofFault "directory traversal" root fault)
    | .ok (_, top) =>
      return ((top.contents (pruned matcher)).filter matcher.selects).map
        fun item => pathBelow root item.place

/-- The absolute paths that a query selects, each once. -/
def search (fs : FileSystem) (q : Query) : Except Error (List Path) :=
  searchWith Matcher.prunes fs q

/-- The search that enters every directory. -/
def searchAll (fs : FileSystem) (q : Query) : Except Error (List Path) :=
  searchWith (fun _ _ => false) fs q

end FormatLint.Selection
