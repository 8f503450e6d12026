import FormatLint.FileSystem.Basic

/-!
Listings of a tree, parents before children: in each directory everything that is no directory, by
name, and then each directory, by name, with all that is below it. Links are listed and not
followed.
-/

namespace FormatLint

/-- A node with the names that lead to it from where the listing starts. -/
structure Listed where
  place : Place
  node : Node

namespace Node

/-- An entry of a directory with what it adds to the listing. -/
structure Branch where
  isDir : Bool
  name : Bytes
  items : List Listed

def bytesLe : Bytes → Bytes → Bool
  | [], _ => true
  | _ :: _, [] => false
  | a :: as, b :: bs => a < b || (a == b && bytesLe as bs)

/-- Files before directories, and then by name. -/
def Branch.le (a b : Branch) : Bool :=
  if a.isDir == b.isDir then bytesLe a.name b.name else !a.isDir

def joinBranches (branches : List Branch) : List Listed :=
  (branches.mergeSort Branch.le).flatMap Branch.items

mutual

/-- What a node at a place adds to the listing; a directory that `pruned` holds of adds nothing. -/
def listing (pruned : Place → Bool) (place : Place) : Node → List Listed
  | .dir entries =>
    if pruned place then []
    else ⟨place, .dir entries⟩ :: joinBranches (branches pruned place entries)
  | other => [⟨place, other⟩]

def branches (pruned : Place → Bool) (place : Place) : List (Bytes × Node) → List Branch
  | [] => []
  | (name, node) :: rest =>
    ⟨node.isDir, name, listing pruned (place ++ [name]) node⟩ :: branches pruned place rest

end

/-- The listing of everything below a node. -/
def contents (pruned : Place → Bool) : Node → List Listed
  | .dir entries => joinBranches (branches pruned [] entries)
  | _ => []

end Node

end FormatLint
