import FormatLint.Proofs.FileSystem.Resolve

/-!
Paths of one file. Without links, a path leads only to the place that it spells, so that different
paths lead to different places.
-/

namespace FormatLint.FileSystem

/-- The place that a path leads to. -/
def place? (fs : FileSystem) (p : Path) : Option Place :=
  match fs.stat p with
  | .ok (place, _) => some place
  | .error _ => none

/-- No link gives a file a second path in the list: different paths lead to different places, and a
    path that leads anywhere does not end in a link. -/
structure Unaliased (fs : FileSystem) (paths : List Path) : Prop where
  apart : ∀ p ∈ paths, ∀ q ∈ paths, ∀ place,
    fs.place? p = some place → fs.place? q = some place → p = q
  direct : ∀ p ∈ paths, ∀ place node,
    fs.resolve true p = .ok (.found place node) → fs.resolve false p = .ok (.found place node)

variable {fs : FileSystem} {p : Path} {place here : Place} {node : Node} {final : Bool} {hops : Nat}
  {names : List Bytes}

theorem place?_iff : fs.place? p = some place ↔ ∃ node, fs.resolve true p = .ok (.found place node) := by
  simp only [← stat_iff, place?]
  split
  · rename_i there node seen
    simp [seen]
  · rename_i fault seen
    simp [seen]

end FormatLint.FileSystem
