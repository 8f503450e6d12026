import FormatLint.Path.Normal
import FormatLint.Proofs.Path.Parts

/-!
Normal forms of absolute paths. Made absolute and normalized, a path is a slash and proper names
with slashes between them; its parent is the same without the last name.
-/

namespace FormatLint.Path

/-- A part that names something. -/
structure IsName (part : Bytes) : Prop where
  filled : part ≠ []
  notDot : part ≠ [dot]
  notUp : part ≠ [dot, dot]
  plain : slash ∉ part

theorem split_plain_mem {bytes part : Bytes} (member : part ∈ split bytes) : slash ∉ part := by
  induction bytes generalizing part with
  | nil =>
    obtain rfl : part = [] := by simpa [split] using member
    simp
  | cons b rest ih =>
    rw [split] at member
    split at member
    · rcases List.mem_cons.mp member with rfl | member
      · simp
      · exact ih member
    · rename_i apart
      split at member
      · rename_i none
        exact absurd none (split_ne_nil rest)
      · rename_i first parts parted
        rw [parted] at ih
        rcases List.mem_cons.mp member with rfl | member
        · have inner := ih (List.mem_cons_self)
          simp [Ne.symm apart, inner]
        · exact ih (List.mem_cons_of_mem _ member)

theorem component?_name {part : Bytes} (name : IsName part) :
    component? part = some (.name part) := by
  simp [component?, name.filled, name.notDot, name.notUp]

theorem component?_some {part : Bytes} (plain : slash ∉ part) {c : Component}
    (stands : component? part = some c) : c = .up ∨ ∃ name, c = .name name ∧ IsName name := by
  rw [component?] at stands
  split at stands
  · cases stands
  · rename_i filled
    split at stands
    · cases stands
      exact .inl rfl
    · rename_i notUp
      cases stands
      exact .inr ⟨part, rfl, fun h => filled (.inl h), fun h => filled (.inr h), notUp, plain⟩

/-- The root and names above it, last first. -/
def Stacked (stack : List Component) : Prop :=
  ∃ names : List Bytes, (∀ name ∈ names, IsName name) ∧ stack = names.map .name ++ [.root]

theorem Stacked.fold {stack : List Component} (stacked : Stacked stack) {c : Component}
    (allowed : c = .up ∨ ∃ name, c = .name name ∧ IsName name) : Stacked (fold stack c) := by
  obtain ⟨names, proper, rfl⟩ := stacked
  rcases allowed with rfl | ⟨name, rfl, isName⟩
  · cases names with
    | nil => exact ⟨[], by simp, rfl⟩
    | cons top names =>
      exact ⟨names, fun name member => proper name (List.mem_cons_of_mem _ member), rfl⟩
  · refine ⟨name :: names, ?_, rfl⟩
    intro other member
    rcases List.mem_cons.mp member with rfl | member
    · exact isName
    · exact proper other member

theorem Stacked.foldl {stack : List Component} (stacked : Stacked stack) {parts : List Bytes}
    (plain : ∀ part ∈ parts, slash ∉ part) :
    Stacked ((parts.filterMap component?).foldl Path.fold stack) := by
  induction parts generalizing stack with
  | nil => exact stacked
  | cons part parts ih =>
    have rest : ∀ p ∈ parts, slash ∉ p := fun p member => plain p (List.mem_cons_of_mem _ member)
    cases stands : component? part with
    | none =>
      rw [List.filterMap_cons_none stands]
      exact ih stacked rest
    | some c =>
      rw [List.filterMap_cons_some stands, List.foldl_cons]
      exact ih (stacked.fold (component?_some (plain part List.mem_cons_self) stands)) rest

/-- The path of names below the root. -/
def rooted (names : List Bytes) : Path := ⟨slash :: unsplit names⟩

section Rooted

variable {names : List Bytes} {name : Bytes}

theorem unsplit_getLast? (names : List Bytes) (isName : IsName name) :
    (unsplit (names ++ [name])).getLast? ≠ some slash := by
  have last : name.getLast? ≠ some slash := by
    intro ends
    exact isName.plain (List.mem_of_getLast? ends)
  by_cases none : names = []
  · subst none
    exact last
  · rw [unsplit_append none (by simp), List.getLast?_append, List.getLast?_cons]
    have some : name.getLast? = some (name.getLast isName.filled) :=
      List.getLast?_eq_some_getLast isName.filled
    rw [some] at last
    simpa [unsplit, some] using last

theorem rooted_join (proper : ∀ n ∈ names, IsName n) (isName : IsName name) :
    (rooted names).join ⟨name⟩ = rooted (names ++ [name]) := by
  have relative : ¬ (⟨name⟩ : Path).isAbsolute = true := by
    intro absolute
    have leads : name.head? = some slash := by simpa [isAbsolute] using absolute
    exact isName.plain (List.mem_of_head? leads)
  rw [join, if_neg relative]
  rcases List.eq_nil_or_concat names with rfl | ⟨init, last, rfl⟩
  · simp [rooted, isEmpty, endsInSlash, unsplit]
  · rw [List.concat_eq_append] at proper ⊢
    have lastName := proper last (by simp)
    have ends : ¬ ((rooted (init ++ [last])).isEmpty = true ∨
        (rooted (init ++ [last])).endsInSlash = true) := by
      have filled : unsplit (init ++ [last]) ≠ [] := by
        by_cases none : init = []
        · subst none
          exact lastName.filled
        · rw [unsplit_append none (by simp)]
          simp
      have notSlash := unsplit_getLast? init lastName
      simp only [isEmpty, rooted, endsInSlash, List.isEmpty_cons, Bool.false_eq_true, false_or,
        List.getLast?_cons, List.getLast?_eq_some_getLast filled] at notSlash ⊢
      simpa using notSlash
    have longer : unsplit (init ++ [last] ++ [name]) = unsplit (init ++ [last]) ++ slash :: name :=
      unsplit_append (by simp) (by simp)
    rw [if_neg ends, rooted, rooted, longer]
    rfl

theorem ofComponents_rooted (proper : ∀ n ∈ names, IsName n) :
    ofComponents (.root :: names.map .name) = rooted names := by
  have start : join ⟨[]⟩ ⟨componentBytes .root⟩ = rooted [] := rfl
  have extend (below : List Bytes) (base : List Bytes) (baseProper : ∀ n ∈ base, IsName n)
      (belowProper : ∀ n ∈ below, IsName n) :
      (below.map Component.name).foldl (fun p c => p.join ⟨componentBytes c⟩) (rooted base) =
        rooted (base ++ below) := by
    induction below generalizing base with
    | nil => simp
    | cons name below ih =>
      have isName := belowProper name List.mem_cons_self
      rw [List.map_cons, List.foldl_cons, componentBytes, rooted_join baseProper isName, ih]
      · simp
      · simpa [isName, or_imp, forall_and] using baseProper
      · exact fun n member => belowProper n (List.mem_cons_of_mem _ member)
  rw [ofComponents, List.foldl_cons, start, extend names [] (by simp) proper, List.nil_append]

/-- An absolute path folds to the root and names above it. -/
theorem normalComponents_absolute {p : Path} (absolute : p.isAbsolute = true) :
    ∃ names : List Bytes,
      (∀ name ∈ names, IsName name) ∧ p.normalComponents = .root :: names.map .name := by
  have stacked : Stacked (((split p.bytes).filterMap component?).foldl fold [.root]) :=
    Stacked.foldl ⟨[], by simp, rfl⟩ fun part member => split_plain_mem member
  obtain ⟨names, proper, folded⟩ := stacked
  have first : fold [] .root = [.root] := rfl
  refine ⟨names.reverse, fun name member => proper name (List.mem_reverse.mp member), ?_⟩
  rw [normalComponents, Path.components, if_pos absolute, List.foldl_cons, first, folded]
  simp

theorem normalize_of_rooted {p : Path} {names : List Bytes} (proper : ∀ name ∈ names, IsName name)
    (folded : p.normalComponents = .root :: names.map .name) : p.normalize = rooted names := by
  rw [normalize, folded, ofComponents_rooted proper]
  rfl

/-- The normal form of an absolute path. -/
theorem normalize_absolute {p : Path} (absolute : p.isAbsolute = true) :
    ∃ names, (∀ name ∈ names, IsName name) ∧ p.normalize = rooted names := by
  obtain ⟨names, proper, folded⟩ := normalComponents_absolute absolute
  exact ⟨names, proper, normalize_of_rooted proper folded⟩

theorem trimParts_proper (proper : ∀ n ∈ names, IsName n) : trimParts names = names := by
  rcases List.eq_nil_or_concat names with rfl | ⟨init, last, rfl⟩
  · rfl
  · rw [List.concat_eq_append] at proper ⊢
    simp [trimParts, component?_name (proper last (by simp))]

theorem parent?_rooted (proper : ∀ n ∈ names ++ [name], IsName n) :
    (rooted (names ++ [name])).parent? = some (rooted names) := by
  have apart : split (unsplit (names ++ [name])) = names ++ [name] :=
    split_unsplit (by simp) fun n member => (proper n member).plain
  have front : (rooted (names ++ [name])).splitFront = ([slash], unsplit (names ++ [name])) := rfl
  have init : ∀ n ∈ names, IsName n := fun n member => proper n (List.mem_append_left _ member)
  simp only [parent?, front, apart, trimParts_proper proper, List.dropLast_concat,
    trimParts_proper init]
  simp [rooted]

theorem split_rooted (proper : ∀ n ∈ names, IsName n) (filled : names ≠ []) :
    split (rooted names).bytes = [] :: names := by
  rw [rooted, split_slash, split_unsplit filled fun n member => (proper n member).plain]

end Rooted

theorem join_isAbsolute {base : Path} (absolute : base.isAbsolute = true) (p : Path) :
    (base.join p).isAbsolute = true := by
  rw [join]
  split
  · assumption
  · cases base with
    | mk bytes =>
      cases bytes with
      | nil => cases absolute
      | cons b bytes => split <;> exact absolute

theorem foldl_join_isAbsolute {base : Path} (absolute : base.isAbsolute = true)
    (cs : List Component) :
    (cs.foldl (fun q c => q.join ⟨componentBytes c⟩) base).isAbsolute = true := by
  induction cs generalizing base with
  | nil => exact absolute
  | cons c cs ih => exact ih (join_isAbsolute absolute _)

theorem absolute?_isAbsolute {cwd p : Path} (anchored : cwd.isAbsolute = true) {q : Path}
    (made : absolute? cwd p = some q) : q.isAbsolute = true := by
  rw [absolute?] at made
  split at made
  · cases made
  · simp only [Option.some.injEq] at made
    suffices steps : ∀ doubled : Prop, [Decidable doubled] →
        (List.foldl (fun q c => q.join ⟨componentBytes c⟩)
          (if p.isAbsolute then (if doubled then ⟨[slash, slash]⟩ else ⟨[]⟩) else cwd)
          (if doubled then (p.components.filter (· != .here)).drop 1
            else p.components.filter (· != .here))).isAbsolute = true by
      rw [← made]
      split
      · exact join_isAbsolute (steps _) _
      · exact steps _
    intro doubled decided
    by_cases absolute : p.isAbsolute = true
    · rw [if_pos absolute]
      split
      · exact foldl_join_isAbsolute rfl _
      · -- the first component is the root, which replaces the empty start
        rw [components, if_pos absolute, List.filter_cons_of_pos (by decide), List.foldl_cons]
        exact foldl_join_isAbsolute rfl _
    · rw [if_neg absolute]
      exact foldl_join_isAbsolute anchored _

/-- A path made absolute and normalized. -/
def locate (cwd p : Path) : Path := ((absolute? cwd p).getD p).normalize

end FormatLint.Path
