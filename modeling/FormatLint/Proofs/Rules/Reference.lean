import FormatLint.Proofs.Text.Lines
import FormatLint.Rules.ModuleRef

/-!
References as texts. What is read is written back as it was, and what is written is read back, so
that `parse` and `display` are inverse between the well-formed references and their texts.
-/

namespace FormatLint

theorem Text.splitOn_eq_splitOnP (p : Char → Bool) (cs : List Char) :
    splitOn p cs = cs.splitOnP p := by
  induction cs using splitOn_induction (p := p) with
  | last part plain => rw [splitOn_plain plain, List.splitOnP_eq_singleton plain]
  | divided part c rest plain divides ih =>
    rw [splitOn_append plain divides, List.splitOnP_append_cons_of_forall_mem plain c divides, ih]

namespace ModuleRef

/-- A text that names a package and, if it has a `#`, members after the first one. -/
inductive IsReference : List Char → Prop where
  | package {name : List Char} (filled : name ≠ []) (unmarked : '#' ∉ name) : IsReference name
  | member {name path : List Char} (filled : name ≠ []) (unmarked : '#' ∉ name)
      (segments : ∀ segment ∈ path.splitOn '.', segment ≠ []) : IsReference (name ++ '#' :: path)

/-- A reference whose parts can be told apart in its text. -/
structure WellFormed (r : ModuleRef) : Prop where
  filled : r.package ≠ ""
  unmarked : '#' ∉ r.package.toList
  segments : ∀ m ∈ r.member, m ≠ "" ∧ '.' ∉ m.toList

section

variable {text : String} {name path : List Char}

theorem no_mark (unmarked : '#' ∉ name) : ∀ c ∈ name, (c != '#') = true := by
  intro c inside
  rw [bne_iff_ne]
  rintro rfl
  exact unmarked inside

theorem parse_package (shape : text.toList = name) (unmarked : '#' ∉ name) :
    parse text =
      if name = [] then .error (Error.referenceWithoutPackage text)
      else .ok ⟨String.ofList name, []⟩ := by
  have before : name.takeWhile (· != '#') = name :=
    List.takeWhile_eq_self_iff.mpr (no_mark unmarked)
  have after : name.dropWhile (· != '#') = [] := List.dropWhile_eq_nil_iff.mpr (no_mark unmarked)
  simp [parse, shape, before, after]

theorem parse_member (shape : text.toList = name ++ '#' :: path) (unmarked : '#' ∉ name) :
    parse text =
      if name = [] then .error (Error.referenceWithoutPackage text)
      else if [] ∈ path.splitOn '.' then .error (Error.referenceWithEmptyMember text)
      else .ok ⟨String.ofList name, (path.splitOn '.').map String.ofList⟩ := by
  have before : (name ++ '#' :: path).takeWhile (· != '#') = name := by
    rw [List.takeWhile_append_of_pos (no_mark unmarked), List.takeWhile_cons_of_neg (by decide),
      List.append_nil]
  have after : (name ++ '#' :: path).dropWhile (· != '#') = '#' :: path := by
    rw [List.dropWhile_append_of_pos (no_mark unmarked), List.dropWhile_cons_of_neg (by decide)]
  have empty : (path.splitOn '.').any List.isEmpty = true ↔ [] ∈ path.splitOn '.' := by simp
  simp only [parse, shape, before, after, Text.splitOn_eq_splitOnP, ← List.splitOn_eq_splitOnP,
    List.isEmpty_iff, empty]

/-- A text has no `#`, or it is taken apart at its first one. -/
theorem mark_cases (text : String) : '#' ∉ text.toList ∨
    ∃ name path, text.toList = name ++ '#' :: path ∧ '#' ∉ name := by
  by_cases marked : '#' ∈ text.toList
  · exact .inr (List.eq_append_cons_of_mem marked)
  · exact .inl marked

theorem isReference_of_parse {r : ModuleRef} (read : parse text = .ok r) :
    IsReference text.toList := by
  rcases mark_cases text with unmarked | ⟨name, path, shape, unmarked⟩
  · rw [parse_package rfl unmarked] at read
    split at read
    · cases read
    · rename_i filled
      exact .package filled unmarked
  · rw [parse_member shape unmarked] at read
    split at read
    · cases read
    · rename_i filled
      split at read
      · cases read
      · rename_i segments
        rw [shape]
        refine .member filled unmarked ?_
        rintro segment inside rfl
        exact segments inside

theorem exists_parse (reference : IsReference text.toList) : ∃ r, parse text = .ok r := by
  generalize shape : text.toList = cs at reference
  cases reference with
  | package filled unmarked =>
    rw [parse_package shape unmarked, if_neg filled]
    exact ⟨_, rfl⟩
  | member filled unmarked segments =>
    rw [parse_member shape unmarked, if_neg filled, if_neg fun inside => segments _ inside rfl]
    exact ⟨_, rfl⟩

end

theorem display_package (package : String) : display ⟨package, []⟩ = package := rfl

theorem toList_display_member (package : String) {member : List String} (named : member ≠ []) :
    (display ⟨package, member⟩).toList =
      package.toList ++ '#' :: ['.'].intercalate (member.map String.toList) := by
  have listed : member.isEmpty = false := by simpa using named
  simp [display, listed, String.toList_intercalate]

theorem display_of_parse {text : String} {r : ModuleRef} (read : parse text = .ok r) :
    r.display = text := by
  rcases mark_cases text with unmarked | ⟨name, path, shape, unmarked⟩
  · rw [parse_package rfl unmarked] at read
    split at read
    · cases read
    · cases read
      rw [display_package, String.ofList_toList]
  · rw [parse_member shape unmarked] at read
    split at read
    · cases read
    · split at read
      · cases read
      · cases read
        apply String.toList_inj.mp
        have named : (path.splitOn '.').map String.ofList ≠ [] := by simp
        rw [toList_display_member _ named, shape, List.map_map]
        simp [Function.comp_def, List.intercalate_splitOn]

theorem WellFormed.parse_display {r : ModuleRef} (formed : r.WellFormed) :
    parse r.display = .ok r := by
  obtain ⟨package, member⟩ := r
  have filled : package.toList ≠ [] := by simpa using formed.filled
  by_cases bare : member = []
  · subst bare
    rw [display_package, parse_package rfl formed.unmarked, if_neg filled, String.ofList_toList]
  · have segments : (['.'].intercalate (member.map String.toList)).splitOn '.' =
        member.map String.toList := by
      refine List.splitOn_intercalate '.' ?_ (by simpa using bare)
      rintro segment inside
      obtain ⟨m, listed, rfl⟩ := List.mem_map.mp inside
      exact (formed.segments m listed).2
    have solid : [] ∉ member.map String.toList := by
      intro inside
      obtain ⟨m, listed, empty⟩ := List.mem_map.mp inside
      exact (formed.segments m listed).1 (String.toList_eq_nil_iff.mp empty)
    rw [parse_member (toList_display_member package bare) formed.unmarked, segments,
      if_neg filled, if_neg solid, String.ofList_toList, List.map_map]
    simp [Function.comp_def]

/-- A text is read exactly when it is a reference; what is read from it is written as it was; and a
    well-formed reference is read back from its text. -/
theorem parse_inverts_display (text : String) :
    ((∃ r, parse text = .ok r) ↔ IsReference text.toList) ∧
    (∀ r, parse text = .ok r → r.display = text) ∧
    ∀ r : ModuleRef, r.WellFormed → parse r.display = .ok r := by
  refine ⟨⟨?_, exists_parse⟩, fun r => display_of_parse, fun r => WellFormed.parse_display⟩
  rintro ⟨r, read⟩
  exact isReference_of_parse read

/-- Members that hold the mark, after a package that holds points. -/
theorem parse_inverts_display_sample :
    parse "a.b#c#d.#" = .ok ⟨"a.b", ["c#d", "#"]⟩ ∧
    display ⟨"a.b", ["c#d", "#"]⟩ = "a.b#c#d.#" ∧
    WellFormed ⟨"a.b", ["c#d", "#"]⟩ ∧
    parse (display ⟨"a.b", ["c#d", "#"]⟩) = .ok ⟨"a.b", ["c#d", "#"]⟩ := by
  have read : parse "a.b#c#d.#" = .ok ⟨"a.b", ["c#d", "#"]⟩ := by decide
  have formed : WellFormed ⟨"a.b", ["c#d", "#"]⟩ := ⟨by decide, by decide, by decide⟩
  obtain ⟨-, written, back⟩ := parse_inverts_display "a.b#c#d.#"
  exact ⟨read, written _ read, formed, back _ formed⟩

end ModuleRef

end FormatLint
