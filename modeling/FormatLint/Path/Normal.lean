import FormatLint.Path.Basic

/-!
Lexical normal forms. `normalize` folds `.` and `..` without looking at a file system, `absolute`
anchors a path at a working directory and keeps its `..`, and `below?` strips a normal prefix.
-/

namespace FormatLint.Path

/-- The text of one component. -/
def componentBytes : Component → Bytes
  | .root => [slash]
  | .here => [dot]
  | .up => [dot, dot]
  | .name n => n

/-- Writes components one after the other, as `join` does. -/
def ofComponents (cs : List Component) : Path :=
  cs.foldl (fun p c => p.join ⟨componentBytes c⟩) ⟨[]⟩

/-- Adds one component to a normal component list, given last first. -/
def fold (stack : List Component) : Component → List Component
  | .here => stack
  | .up =>
    match stack with
    | .name _ :: below => below
    | .root :: _ => stack
    | _ => .up :: stack
  | c => c :: stack

/-- The components of the normal form: `..` only as a leading run of a relative path. -/
def normalComponents (p : Path) : List Component :=
  (p.components.foldl fold []).reverse

/-- Removes `.` and folds `..` into its parent. `..` above the root stays at the root, and a path
    that folds to nothing is `.`. -/
def normalize (p : Path) : Path :=
  let q := ofComponents p.normalComponents
  if q.isEmpty then ⟨[dot]⟩ else q

/-- The path seen from the working directory `cwd`. Doubled slashes and `.` go, `..` and a
    trailing slash stay, and so do exactly two leading slashes. `none` for the empty path. -/
def absolute? (cwd p : Path) : Option Path :=
  if p.isEmpty then none
  else
    let inner := p.components.filter (· != .here)
    let doubled := p.bytes.take 2 = [slash, slash] ∧ p.bytes.take 3 ≠ [slash, slash, slash]
    let start : Path :=
      if p.isAbsolute then (if doubled then ⟨[slash, slash]⟩ else ⟨[]⟩) else cwd
    let steps := if doubled then inner.drop 1 else inner
    let q := steps.foldl (fun q c => q.join ⟨componentBytes c⟩) start
    some (if p.endsInSlash then q.join ⟨[]⟩ else q)

/-- What is left of a component list after a leading part, if it starts with that part. -/
def stripComponents : List Component → List Component → Option (List Component)
  | [], cs => some cs
  | _ :: _, [] => none
  | a :: as, c :: cs => if a = c then stripComponents as cs else none

/-- The path of `file` below `stem`, both normalized first; `none` when it does not lie below. -/
def below? (file stem : Path) : Option Path :=
  (stripComponents stem.normalize.components file.normalize.components).map ofComponents

end FormatLint.Path
