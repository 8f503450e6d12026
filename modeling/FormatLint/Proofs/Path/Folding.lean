import FormatLint.Proofs.Path.Join

/-!
What folding does to paths that are joined. Components act on a stack, a name by a push and `..` by
a pop where a name is on top, and a list of components acts on every stack as the list that it folds
to does. So a path can be normalized before it is joined to another one or after.
-/

namespace FormatLint.Path

section Stack

variable {a b p : Path} {stack : List Component}

/-- What a list folds to acts on every stack as the list itself. -/
theorem foldl_folded (stack cs : List Component) :
    (cs.foldl fold []).reverse.foldl fold stack = cs.foldl fold stack := by
  induction cs using List.reverseRecOn with
  | nil => rfl
  | append_singleton cs c ih =>
    rw [List.foldl_append, List.foldl_append, List.foldl_cons, List.foldl_nil, List.foldl_cons,
      List.foldl_nil, ← ih]
    generalize cs.foldl fold [] = folded
    cases c with
    | here => rfl
    | root => simp [fold]
    | name n => simp [fold]
    | up =>
      cases folded with
      | nil => rfl
      | cons top below =>
        -- a name on top is taken off again on both sides
        cases top <;> simp [fold]

theorem foldl_normalComponents (p : Path) (stack : List Component) :
    p.normalComponents.foldl fold stack = p.components.foldl fold stack :=
  foldl_folded stack p.components

/-- The parts of a path act on the root, or on what is there already. -/
theorem foldl_components (p : Path) (stack : List Component) :
    p.components.foldl fold stack =
      ((split p.bytes).filterMap component?).foldl fold
        (if p.isAbsolute then .root :: stack else stack) := by
  rw [components]
  by_cases absolute : p.isAbsolute = true
  · simp only [absolute, if_true]
    rfl
  · simp only [absolute, if_false, Bool.false_eq_true]
    split <;> rfl

theorem filterMap_join (relative : b.isAbsolute = false) :
    (split (a.join b).bytes).filterMap component? =
      (split a.bytes).filterMap component? ++ (split b.bytes).filterMap component? := by
  have none : component? [] = none := rfl
  rw [join_relative a relative, lead]
  split
  · rename_i complete
    rcases complete with empty | ends
    · have bare : a.bytes = [] := by simpa [isEmpty] using empty
      rw [bare]
      rfl
    · obtain ⟨front, shape⟩ : ∃ front, a.bytes = front ++ [slash] :=
        List.getLast?_eq_some_iff.mp (by simpa [endsInSlash] using ends)
      have whole : split a.bytes = split front ++ [[]] := by
        rw [shape]
        exact split_append front []
      rw [whole, shape, List.append_assoc, List.singleton_append, split_append]
      simp [none]
  · rw [List.append_assoc, List.singleton_append, split_append, List.filterMap_append]

theorem eq_empty (empty : p.isEmpty = true) : p = ⟨[]⟩ := by
  obtain ⟨bytes⟩ := p
  simpa [isEmpty] using empty

theorem isAbsolute_join (relative : b.isAbsolute = false) :
    (a.join b).isAbsolute = a.isAbsolute := by
  have pieces : a.join b = ⟨lead a ++ b.bytes⟩ := congrArg mk (join_relative a relative)
  cases filled : a.isEmpty with
  | true =>
    rw [pieces, eq_empty filled]
    exact relative
  | false => rw [pieces, lead_isAbsolute filled]

theorem foldl_join (relative : b.isAbsolute = false) (stack : List Component) :
    (a.join b).components.foldl fold stack =
      b.components.foldl fold (a.components.foldl fold stack) := by
  rw [foldl_components, foldl_components a, foldl_components b, filterMap_join relative,
    isAbsolute_join relative, relative, List.foldl_append]
  rfl

end Stack

section Normal

variable {a b p : Path}

theorem components_unsplit {parts : List Bytes} (solid : ∀ part ∈ parts, IsPart part)
    (stand : ∀ part ∈ parts, component? part ≠ none) :
    (⟨unsplit parts⟩ : Path).components = parts.filterMap component? := by
  by_cases none : parts = []
  · rw [none]
    rfl
  · have apart : split (unsplit parts) = parts :=
      split_unsplit none fun part member => (solid part member).plain
    have first : parts.head? ≠ some [dot] := by
      intro leads
      exact stand [dot] (List.mem_of_head? leads) rfl
    simp only [components, apart, unsplit_isAbsolute solid, Bool.false_eq_true, if_false, if_neg first]

theorem components_ups (count : Nat) {names : List Bytes} (proper : ∀ n ∈ names, IsName n) :
    ((Anchor.ups count).path names).components = List.replicate count .up ++ names.map .name := by
  have up : component? [dot, dot] = some .up := rfl
  rw [Anchor.path, components_unsplit (Anchor.ups_solid count proper) (Anchor.ups_stand count proper),
    List.filterMap_append, filterMap_component?_names proper, List.filterMap_replicate_of_some up]

/-- What a path folds to is what its text is made of. -/
theorem components_ofComponents (p : Path) :
    (ofComponents p.normalComponents).components = p.normalComponents := by
  by_cases absolute : p.isAbsolute = true
  · obtain ⟨names, proper, folded⟩ := normalComponents_absolute absolute
    rw [folded, ofComponents_rooted proper, components_rooted proper]
  · obtain ⟨count, names, proper, folded⟩ := normalComponents_relative (by simpa using absolute)
    rw [folded, ofComponents_ups count proper, components_ups count proper]

/-- The normal form is `.`, or it is written from what the path folds to. -/
theorem normalize_cases (p : Path) :
    (p.normalComponents = [] ∧ p.normalize = ⟨[dot]⟩) ∨
      (p.normalComponents ≠ [] ∧ p.normalize = ofComponents p.normalComponents) := by
  have made := components_ofComponents p
  rw [normalize]
  by_cases empty : (ofComponents p.normalComponents).isEmpty = true
  · rw [eq_empty empty] at made ⊢
    exact .inl ⟨made.symm, rfl⟩
  · refine .inr ⟨?_, if_neg empty⟩
    rw [← made]
    exact components_ne_nil (by simpa using empty)

theorem components_normalize (p : Path) :
    p.normalize.components = if p.normalComponents = [] then [.here] else p.normalComponents := by
  rcases normalize_cases p with ⟨nothing, normal⟩ | ⟨some, normal⟩
  · rw [if_pos nothing, normal]
    rfl
  · rw [if_neg some, normal, components_ofComponents]

theorem ofComponents_normalize (p : Path) : ofComponents p.normalize.components = p.normalize := by
  rw [components_normalize]
  rcases normalize_cases p with ⟨nothing, normal⟩ | ⟨some, normal⟩
  · rw [if_pos nothing, normal]
    rfl
  · rw [if_neg some, normal]

theorem foldl_normalize (p : Path) (stack : List Component) :
    p.normalize.components.foldl fold stack = p.components.foldl fold stack := by
  rw [components_normalize, ← foldl_normalComponents p]
  split
  · rename_i nothing
    rw [nothing]
    rfl
  · rfl

theorem normalComponents_normalize (p : Path) : p.normalize.normalComponents = p.normalComponents :=
  congrArg List.reverse (foldl_normalize p [])

theorem normalize_congr (same : a.normalComponents = b.normalComponents) :
    a.normalize = b.normalize := by
  rw [normalize, normalize, same]

theorem normalize_normalize (p : Path) : p.normalize.normalize = p.normalize :=
  normalize_congr (normalComponents_normalize p)

theorem isAbsolute_normalize (p : Path) : p.normalize.isAbsolute = p.isAbsolute := by
  by_cases absolute : p.isAbsolute = true
  · obtain ⟨names, -, normal⟩ := normalize_absolute absolute
    rw [normal, absolute]
    rfl
  · have relative : p.isAbsolute = false := by simpa using absolute
    obtain ⟨count, names, proper, folded⟩ := normalComponents_relative relative
    rw [relative]
    rcases normalize_cases p with ⟨-, normal⟩ | ⟨-, normal⟩
    · rw [normal]
      rfl
    · rw [normal, folded, ofComponents_ups count proper]
      exact unsplit_isAbsolute (Anchor.ups_solid count proper)

theorem here_notMem_normalComponents (p : Path) : .here ∉ p.normalComponents := by
  by_cases absolute : p.isAbsolute = true
  · obtain ⟨names, -, folded⟩ := normalComponents_absolute absolute
    simp [folded]
  · obtain ⟨count, names, -, folded⟩ := normalComponents_relative (by simpa using absolute)
    simp [folded]

theorem normalize_eq_here_iff (p : Path) : p.normalize = ⟨[dot]⟩ ↔ p.normalComponents = [] := by
  rcases normalize_cases p with ⟨nothing, normal⟩ | ⟨some, normal⟩
  · simp [nothing, normal]
  · refine ⟨fun here => ?_, fun nothing => absurd nothing some⟩
    have only : p.normalComponents = [.here] := by
      rw [← components_ofComponents, ← normal, here]
      rfl
    exact absurd (only ▸ List.mem_singleton_self _) (here_notMem_normalComponents p)

theorem isAbsolute_iff_head (p : Path) :
    p.isAbsolute = true ↔ p.components.head? = some .root := by
  have inner : ((split p.bytes).filterMap component?).head? ≠ some .root := by
    intro leads
    obtain ⟨part, inside, stands⟩ := List.mem_filterMap.mp (List.mem_of_head? leads)
    rcases component?_some (split_plain_mem inside) stands with up | ⟨name, isName, -⟩
    · cases up
    · cases isName
  rw [components]
  by_cases absolute : p.isAbsolute = true
  · simp [absolute]
  · simp only [absolute, false_iff, Bool.false_eq_true, if_false]
    split
    · simp
    · exact inner

/-- A relative path acts on what the path that it is joined to folds to. -/
theorem normalComponents_join (relative : b.isAbsolute = false) :
    (a.join b).normalComponents =
      (b.normalComponents.foldl fold a.normalComponents.reverse).reverse := by
  rw [foldl_normalComponents, normalComponents, foldl_join relative, normalComponents,
    List.reverse_reverse]

theorem normalize_join_names {names more : List Bytes} (proper : ∀ n ∈ names, IsName n)
    (below : ∀ n ∈ more, IsName n) (normal : p.normalize = rooted names) :
    (p.join ⟨unsplit more⟩).normalize = rooted (names ++ more) := by
  have all : ∀ n ∈ names ++ more, IsName n := List.forall_mem_append.mpr ⟨proper, below⟩
  have solid : ∀ n ∈ more, IsPart n := fun n member => (below n member).isPart
  have stand : ∀ n ∈ more, component? n ≠ none := fun n member => by
    simp [component?_name (below n member)]
  have folded : p.normalComponents = .root :: names.map .name := by
    rw [← normalComponents_normalize, normal, normalComponents_rooted proper]
  refine normalize_of_rooted all ?_
  rw [normalComponents_join (unsplit_isAbsolute solid), foldl_normalComponents,
    components_unsplit solid stand, filterMap_component?_names below, foldl_fold_names, folded]
  simp

theorem normalize_join (a b : Path) :
    (a.join b).normalize = (a.normalize.join b.normalize).normalize := by
  by_cases absolute : b.isAbsolute = true
  · rw [join, if_pos absolute, join, if_pos ((isAbsolute_normalize b).trans absolute),
      normalize_normalize]
  · have relative : b.isAbsolute = false := by simpa using absolute
    apply normalize_congr
    rw [normalComponents_join relative,
      normalComponents_join ((isAbsolute_normalize b).trans relative), normalComponents_normalize,
      normalComponents_normalize]

end Normal

/-- The normal form of a path is as absolute as the path, is written from its components alone, and
    has `.` only where that is all of it and `..` only in front, where no absolute path has it. It is
    its own normal form, and paths can be normalized before they are joined. -/
theorem normalize_is_normal (p a b : Path) :
    p.normalize.isAbsolute = p.isAbsolute ∧
    ofComponents p.normalize.components = p.normalize ∧
    (.here ∈ p.normalize.components → p.normalize = ofString ".") ∧
    (∃ count rest, p.normalize.components = List.replicate count .up ++ rest ∧ .up ∉ rest ∧
      (p.isAbsolute = true → count = 0)) ∧
    p.normalize.normalize = p.normalize ∧
    (a.join b).normalize = (a.normalize.join b.normalize).normalize := by
  refine ⟨isAbsolute_normalize p, ofComponents_normalize p, ?_, ?_, normalize_normalize p,
    normalize_join a b⟩
  · intro member
    rcases normalize_cases p with ⟨-, normal⟩ | ⟨some, -⟩
    · exact normal
    · rw [components_normalize, if_neg some] at member
      exact absurd member (here_notMem_normalComponents p)
  · rw [components_normalize]
    split
    · exact ⟨0, [.here], rfl, by simp, fun _ => rfl⟩
    · by_cases absolute : p.isAbsolute = true
      · obtain ⟨names, -, folded⟩ := normalComponents_absolute absolute
        exact ⟨0, p.normalComponents, rfl, by simp [folded], fun _ => rfl⟩
      · obtain ⟨count, names, -, folded⟩ := normalComponents_relative (by simpa using absolute)
        exact ⟨count, names.map .name, folded, by simp, fun is => absurd is absolute⟩

end FormatLint.Path
