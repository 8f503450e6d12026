import FormatLint.Proofs.Path.Normal
import Mathlib.Data.List.Induction

/-!
Paths below other paths. The components of a normal absolute path are the root and its names, and
such a path lies below another one exactly if it has the other's components first.
-/

namespace FormatLint.Path

/-- A part that a slash can stand before and after. -/
structure IsPart (part : Bytes) : Prop where
  filled : part ≠ []
  plain : slash ∉ part

theorem IsName.isPart {name : Bytes} (isName : IsName name) : IsPart name :=
  ⟨isName.filled, isName.plain⟩

section Parts

variable {parts more : List Bytes} {part : Bytes}

theorem unsplit_ne_nil (solid : ∀ part ∈ parts, IsPart part) (filled : parts ≠ []) :
    unsplit parts ≠ [] := by
  intro empty
  have same := split_unsplit filled fun part member => (solid part member).plain
  rw [empty] at same
  have first : ([] : Bytes) ∈ parts := by
    rw [← same]
    exact List.mem_singleton_self _
  exact (solid [] first).filled rfl

theorem unsplit_isAbsolute (solid : ∀ part ∈ parts, IsPart part) :
    (⟨unsplit parts⟩ : Path).isAbsolute = false := by
  cases parts with
  | nil => rfl
  | cons part parts =>
    have isPart := solid part List.mem_cons_self
    have first : (unsplit (part :: parts)).head? = part.head? := by
      cases parts with
      | nil => rfl
      | cons next parts =>
        rw [unsplit_cons part (by simp), List.head?_append,
          List.head?_eq_some_head isPart.filled, Option.some_or]
    rw [isAbsolute, first, beq_eq_false_iff_ne]
    intro leads
    exact isPart.plain (List.mem_of_head? leads)

theorem unsplit_endsInSlash (solid : ∀ part ∈ parts, IsPart part) :
    (⟨unsplit parts⟩ : Path).endsInSlash = false := by
  rcases List.eq_nil_or_concat parts with rfl | ⟨init, last, rfl⟩
  · rfl
  · rw [List.concat_eq_append] at solid ⊢
    have isPart := solid last (by simp)
    have ends : (unsplit (init ++ [last])).getLast? = last.getLast? := by
      by_cases none : init = []
      · subst none
        rfl
      · rw [unsplit_append none (by simp), List.getLast?_append, List.getLast?_cons,
          List.getLast?_eq_some_getLast isPart.filled]
        simp [unsplit, List.getLast?_eq_some_getLast isPart.filled]
    rw [endsInSlash, ends, beq_eq_false_iff_ne]
    intro slashed
    exact isPart.plain (List.mem_of_getLast? slashed)

theorem unsplit_join (solid : ∀ part ∈ parts, IsPart part) (below : ∀ part ∈ more, IsPart part)
    (filled : more ≠ []) : join ⟨unsplit parts⟩ ⟨unsplit more⟩ = ⟨unsplit (parts ++ more)⟩ := by
  rw [join, unsplit_isAbsolute below]
  by_cases none : parts = []
  · subst none
    rfl
  · have notEmpty : (⟨unsplit parts⟩ : Path).isEmpty = false := by
      simpa [isEmpty] using unsplit_ne_nil solid none
    rw [notEmpty, unsplit_endsInSlash solid, unsplit_append none filled]
    simp

theorem ofComponents_relative {cs : List Component} (solid : ∀ c ∈ cs, IsPart (componentBytes c)) :
    ofComponents cs = ⟨unsplit (cs.map componentBytes)⟩ := by
  induction cs using List.reverseRecOn with
  | nil => rfl
  | append_singleton cs c ih =>
    have init : ∀ c ∈ cs, IsPart (componentBytes c) :=
      fun c member => solid c (List.mem_append_left _ member)
    have step : ofComponents (cs ++ [c]) = (ofComponents cs).join ⟨unsplit [componentBytes c]⟩ := by
      rw [ofComponents, ofComponents, List.foldl_append]
      rfl
    rw [step, ih init, unsplit_join, List.map_append, List.map_singleton]
    · simpa using init
    · simpa using solid c (by simp)
    · simp

theorem ofComponents_names {names : List Bytes} (proper : ∀ n ∈ names, IsName n) :
    ofComponents (names.map .name) = ⟨unsplit names⟩ := by
  have parts : (names.map Component.name).map componentBytes = names := by
    simp [componentBytes, Function.comp_def]
  rw [ofComponents_relative, parts]
  intro c member
  obtain ⟨n, inside, rfl⟩ := List.mem_map.mp member
  exact (proper n inside).isPart

end Parts

section Rooted

variable {names more : List Bytes}

theorem rooted_endsInSlash (proper : ∀ n ∈ names, IsName n) (filled : names ≠ []) :
    (rooted names).endsInSlash = false := by
  have solid : ∀ n ∈ names, IsPart n := fun n member => (proper n member).isPart
  have inner := unsplit_endsInSlash solid
  have some := List.getLast?_eq_some_getLast (unsplit_ne_nil solid filled)
  simp only [endsInSlash, rooted, List.getLast?_cons, some] at inner ⊢
  simpa using inner

theorem filterMap_component?_names (proper : ∀ n ∈ names, IsName n) :
    names.filterMap component? = names.map .name := by
  induction names with
  | nil => rfl
  | cons name names ih =>
    rw [List.filterMap_cons_some (component?_name (proper name List.mem_cons_self)), List.map_cons,
      ih fun n member => proper n (List.mem_cons_of_mem _ member)]

theorem components_rooted (proper : ∀ n ∈ names, IsName n) :
    (rooted names).components = .root :: names.map .name := by
  by_cases top : names = []
  · subst top
    rfl
  · have absolute : (rooted names).isAbsolute = true := rfl
    rw [components, split_rooted proper top, if_pos absolute, List.filterMap_cons_none rfl,
      filterMap_component?_names proper]

theorem name_injective : Function.Injective Component.name := fun _ _ => Component.name.inj

theorem map_name_injective : Function.Injective (List.map Component.name) :=
  fun _ _ same => (List.map_inj_right fun _ _ equal => name_injective equal).mp same

theorem foldl_fold_names (stack : List Component) (names : List Bytes) :
    (names.map Component.name).foldl fold stack = (names.map Component.name).reverse ++ stack := by
  induction names generalizing stack with
  | nil => rfl
  | cons name names ih =>
    rw [List.map_cons, List.foldl_cons, ih, List.reverse_cons, List.append_assoc]
    rfl

theorem normalComponents_rooted (proper : ∀ n ∈ names, IsName n) :
    (rooted names).normalComponents = .root :: names.map .name := by
  rw [normalComponents, components_rooted proper, List.foldl_cons, foldl_fold_names]
  simp [fold]

theorem normalize_rooted (proper : ∀ n ∈ names, IsName n) :
    (rooted names).normalize = rooted names :=
  normalize_of_rooted proper (normalComponents_rooted proper)

theorem rooted_join_unsplit (proper : ∀ n ∈ names, IsName n) (below : ∀ n ∈ more, IsName n)
    (filled : more ≠ []) : (rooted names).join ⟨unsplit more⟩ = rooted (names ++ more) := by
  have solid : ∀ n ∈ more, IsPart n := fun n member => (below n member).isPart
  rw [join, unsplit_isAbsolute solid]
  by_cases top : names = []
  · subst top
    rfl
  · rw [rooted_endsInSlash proper top, rooted, rooted, unsplit_append top filled]
    simp [isEmpty]

/-- Nothing after a path is a slash at its end. -/
theorem rooted_join_empty (proper : ∀ n ∈ names, IsName n) (filled : names ≠ []) :
    (rooted names).join ⟨unsplit []⟩ = ⟨slash :: unsplit (names ++ [[]])⟩ := by
  rw [join, rooted_endsInSlash proper filled, unsplit_append filled (by simp)]
  simp [isAbsolute, isEmpty, rooted, unsplit]

/-- The components of names after a normal absolute path, of which there may be none. -/
theorem components_rooted_join (proper : ∀ n ∈ names, IsName n) (below : ∀ n ∈ more, IsName n) :
    ((rooted names).join ⟨unsplit more⟩).components = .root :: (names ++ more).map .name := by
  by_cases none : more = []
  · subst none
    by_cases top : names = []
    · subst top
      rfl
    · -- a slash at the end stands for one more part, and an empty part for no component
      have plain : ∀ part ∈ names ++ [[]], slash ∉ part := by
        intro part member
        rcases List.mem_append.mp member with member | member
        · exact (proper part member).plain
        · simp [List.mem_singleton.mp member]
      have absolute : (⟨slash :: unsplit (names ++ [[]])⟩ : Path).isAbsolute = true := rfl
      rw [rooted_join_empty proper top, components, if_pos absolute, split_slash, split_unsplit (by simp) plain,
        List.filterMap_cons_none rfl, List.filterMap_append, filterMap_component?_names proper]
      simp [component?]
  · rw [rooted_join_unsplit proper below none, components_rooted]
    exact List.forall_mem_append.mpr ⟨proper, below⟩

end Rooted

/-- An absolute path with neither `.` nor `..` among its parts. -/
structure Anchored (p : Path) : Prop where
  absolute : p.isAbsolute = true
  straight : ∀ part ∈ split p.bytes, part ≠ [dot] ∧ part ≠ [dot, dot]

section Anchored

variable {names more : List Bytes}

theorem anchored_parts {parts : List Bytes}
    (proper : ∀ part ∈ parts, part = [] ∨ IsName part) : Anchored ⟨slash :: unsplit parts⟩ := by
  refine ⟨rfl, ?_⟩
  intro part member
  have inside : part = [] ∨ part ∈ parts := by
    rw [split_slash, List.mem_cons] at member
    rcases member with first | member
    · exact .inl first
    · by_cases none : parts = []
      · subst none
        exact .inl (List.mem_singleton.mp member)
      · rw [split_unsplit none] at member
        · exact .inr member
        · intro other inside
          rcases proper other inside with empty | isName
          · simp [empty]
          · exact isName.plain
  rcases inside with empty | inside
  · simp [empty]
  · rcases proper part inside with empty | isName
    · simp [empty]
    · exact ⟨isName.notDot, isName.notUp⟩

theorem anchored_rooted (proper : ∀ n ∈ names, IsName n) : (rooted names).Anchored :=
  anchored_parts fun n member => .inr (proper n member)

theorem anchored_rooted_join (proper : ∀ n ∈ names, IsName n) (below : ∀ n ∈ more, IsName n) :
    ((rooted names).join ⟨unsplit more⟩).Anchored := by
  have all : ∀ n ∈ names ++ more, IsName n := List.forall_mem_append.mpr ⟨proper, below⟩
  by_cases none : more = []
  · subst none
    by_cases top : names = []
    · subst top
      exact anchored_rooted proper
    · rw [rooted_join_empty proper top]
      apply anchored_parts
      intro part member
      rcases List.mem_append.mp member with member | member
      · exact .inr (proper part member)
      · exact .inl (List.mem_singleton.mp member)
  · rw [rooted_join_unsplit proper below none]
    exact anchored_rooted all

end Anchored

theorem stripComponents_eq_some {lead cs rest : List Component} :
    stripComponents lead cs = some rest ↔ cs = lead ++ rest := by
  induction lead generalizing cs with
  | nil => simp [stripComponents, eq_comm]
  | cons a lead ih =>
    cases cs with
    | nil => simp [stripComponents]
    | cons c cs =>
      rw [stripComponents]
      split
      · rename_i same
        simp [ih, same]
      · rename_i apart
        simp [Ne.symm apart]

end FormatLint.Path
