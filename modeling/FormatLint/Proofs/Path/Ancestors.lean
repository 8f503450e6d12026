import Mathlib.Data.List.DropRight
import FormatLint.Proofs.Path.Folding

/-!
The way up from an absolute path. Its parent is the path without its last component, the root has no
parent, and from parent to parent the way ends at the root.
-/

namespace FormatLint.Path

variable {p q base : Path}

theorem components_absolute (absolute : p.isAbsolute = true) :
    p.components = .root :: (split p.bytes).filterMap component? := by
  simp [components, absolute]

/-- A relative path adds its components to those of an absolute one. -/
theorem components_join (absolute : base.isAbsolute = true) (relative : p.isAbsolute = false) :
    (base.join p).components = base.components ++ (split p.bytes).filterMap component? := by
  rw [components_absolute (join_isAbsolute absolute p), components_absolute absolute,
    filterMap_join relative, List.cons_append]

theorem components_join_name (absolute : base.isAbsolute = true) {name : Bytes}
    (isName : IsName name) :
    (base.join ⟨name⟩).components = base.components ++ [.name name] := by
  rw [components_join absolute isName.isPart.relative, split_plain name isName.plain,
    List.filterMap_cons_some (component?_name isName), List.filterMap_nil]

theorem length_split_le (bytes : Bytes) : (split bytes).length ≤ bytes.length + 1 := by
  induction bytes with
  | nil => simp [split]
  | cons b rest ih =>
    obtain ⟨part, parts, shape⟩ := List.exists_cons_of_ne_nil (split_ne_nil rest)
    rw [shape] at ih
    rw [split, shape]
    split <;> simp at ih ⊢ <;> omega

theorem length_components_le (absolute : p.isAbsolute = true) :
    p.components.length ≤ p.bytes.length + 1 := by
  obtain ⟨rest, shape⟩ : ∃ rest, p.bytes = slash :: rest :=
    List.head?_eq_some_iff.mp (by simpa [isAbsolute] using absolute)
  have parts := length_split_le rest
  have fewer := List.length_filterMap_le component? (split rest)
  have none : component? [] = none := rfl
  rw [components_absolute absolute, shape, split_slash, List.filterMap_cons_none none]
  simp only [List.length_cons]
  omega

/-- Trimming takes away parts that stand for no component. -/
theorem filterMap_trimParts (parts : List Bytes) :
    (trimParts parts).filterMap component? = parts.filterMap component? := by
  induction parts using List.reverseRecOn with
  | nil => rfl
  | append_singleton parts part ih =>
    cases stands : component? part with
    | none =>
      have shorter : trimParts (parts ++ [part]) = trimParts parts := by simp [trimParts, stands]
      rw [shorter, ih, List.filterMap_append, List.filterMap_cons_none stands]
      simp
    | some c => rw [trimParts_append parts (by simp [stands])]

/-- What is left after trimming ends in a part that stands for a component. -/
theorem trimParts_last {init : List Bytes} {last : Bytes} {parts : List Bytes}
    (trimmed : trimParts parts = init ++ [last]) : ∃ c, component? last = some c := by
  have shape : parts.rdropWhile (fun part => (component? part).isNone) = init ++ [last] := trimmed
  have ends := List.rdropWhile_last_not (fun part => (component? part).isNone) parts
    (by simp [shape])
  simp only [shape, List.getLast_append_singleton] at ends
  exact Option.ne_none_iff_exists'.mp (by simpa using ends)

theorem unsplit_isPrefix (front back : List Bytes) :
    unsplit front <+: unsplit (front ++ back) := by
  by_cases none : back = []
  · simp [none]
  · by_cases empty : front = []
    · simp [empty, unsplit]
    · rw [unsplit_append empty none]
      exact List.prefix_append _ _

theorem trimParts_isPrefix (parts : List Bytes) : trimParts parts <+: parts :=
  List.rdropWhile_prefix _ _

/-- One step up: the path is cut back to where its last component is gone. -/
structure IsParent (q p : Path) : Prop where
  parent : p.parent? = some q
  absolute : q.isAbsolute = true
  cut : q.bytes <+: p.bytes
  components : ∃ last, p.components = q.components ++ [last]

theorem parent?_absolute (absolute : p.isAbsolute = true) :
    p.parent? = none ∧ p.components = [.root] ∨ ∃ q : Path, q.IsParent p := by
  obtain ⟨rest, shape⟩ : ∃ rest, p.bytes = slash :: rest :=
    List.head?_eq_some_iff.mp (by simpa [isAbsolute] using absolute)
  have front : p.splitFront = ([slash], rest) := by simp [splitFront, shape]
  have noPart : component? [] = none := rfl
  have whole : p.components = .root :: (trimParts (split rest)).filterMap component? := by
    rw [components_absolute absolute, shape, split_slash, List.filterMap_cons_none noPart,
      filterMap_trimParts]
  rcases List.eq_nil_or_concat (trimParts (split rest)) with none | ⟨init, last, some⟩
  · refine .inl ⟨?_, by simp [whole, none]⟩
    simp [parent?, front, none, slash, dot]
  · rw [List.concat_eq_append] at some
    refine .inr ⟨⟨slash :: unsplit (trimParts init)⟩, ?_, rfl, ?_, ?_⟩
    · simp [parent?, front, some]
    · have initial : trimParts init <+: split rest :=
        (trimParts_isPrefix init).trans <| (List.prefix_append init [last]).trans <|
          some ▸ trimParts_isPrefix (split rest)
      obtain ⟨back, apart⟩ := initial
      have pieces := unsplit_isPrefix (trimParts init) back
      rw [apart, unsplit_split] at pieces
      simpa [shape] using pieces
    · obtain ⟨c, stands⟩ := trimParts_last some
      refine ⟨c, ?_⟩
      have plain : ∀ part ∈ trimParts init, slash ∉ part := by
        intro part member
        have inside : part ∈ trimParts (split rest) := by
          rw [some]
          exact List.mem_append_left _ ((trimParts_isPrefix init).subset member)
        exact split_plain_mem ((trimParts_isPrefix (split rest)).subset inside)
      have parts : (split (unsplit (trimParts init))).filterMap component? =
          init.filterMap component? := by
        rw [← filterMap_trimParts init]
        by_cases empty : trimParts init = []
        · rw [empty]
          rfl
        · rw [split_unsplit empty plain]
      rw [whole, some, components_absolute rfl, split_slash, List.filterMap_cons_none noPart, parts,
        List.filterMap_append, List.filterMap_cons_some stands]
      rfl

/-- A path and its parents, up to the root. -/
inductive Upward : Path → List Path → Prop where
  | top {p : Path} (root : p.components = [.root]) : Upward p [p]
  | up {p q : Path} {dirs : List Path} (parent : q.IsParent p) (rest : Upward q dirs) :
      Upward p (p :: dirs)

theorem Upward.length_eq {dirs : List Path} (upward : Upward p dirs) :
    dirs.length = p.components.length := by
  induction upward with
  | top root => simp [root]
  | up parent rest ih =>
    obtain ⟨last, whole⟩ := parent.components
    simp [whole, ih]

theorem Upward.absolute {dirs : List Path} (upward : Upward p dirs)
    (absolute : p.isAbsolute = true) : ∀ dir ∈ dirs, dir.isAbsolute = true := by
  induction upward with
  | top root => simpa using absolute
  | up parent rest ih =>
    rw [List.forall_mem_cons]
    exact ⟨absolute, ih parent.absolute⟩

/-- So many parents as there are components are enough to reach the root. -/
theorem upward_ancestorsWithin {n : Nat} (absolute : p.isAbsolute = true)
    (enough : p.components.length ≤ n + 1) : Upward p (ancestorsWithin n p) := by
  induction n generalizing p with
  | zero =>
    rcases parent?_absolute absolute with ⟨-, root⟩ | ⟨q, parent⟩
    · exact .top root
    · obtain ⟨last, whole⟩ := parent.components
      have leading := components_absolute parent.absolute
      simp [whole, leading] at enough
  | succ n ih =>
    rcases parent?_absolute absolute with ⟨none, root⟩ | ⟨q, parent⟩
    · rw [ancestorsWithin, none]
      exact .top root
    · rw [ancestorsWithin, parent.parent]
      refine .up parent (ih parent.absolute ?_)
      obtain ⟨last, whole⟩ := parent.components
      simpa [whole] using enough

theorem upward_ancestors (absolute : p.isAbsolute = true) : Upward p p.ancestors :=
  upward_ancestorsWithin absolute (length_components_le absolute)

end FormatLint.Path
