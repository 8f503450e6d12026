import FormatLint.Path.Basic

/-!
The parts of a path between its slashes. `unsplit` takes back what `split` did,
and the other way round on parts that hold no slash; a relative path is joined to another one by its
text.
-/

namespace FormatLint.Path

theorem split_ne_nil (bytes : Bytes) : split bytes ≠ [] := by
  cases bytes with
  | nil => simp [split]
  | cons b rest =>
    rw [split]
    split
    · simp
    · split <;> simp

theorem split_slash (rest : Bytes) : split (slash :: rest) = [] :: split rest := by
  simp [split]

theorem split_append_slash (part rest : Bytes) (plain : slash ∉ part) :
    split (part ++ slash :: rest) = part :: split rest := by
  induction part with
  | nil => exact split_slash rest
  | cons b part ih =>
    rw [List.mem_cons, not_or] at plain
    rw [List.cons_append, split, if_neg (Ne.symm plain.1), ih plain.2]

theorem split_plain (part : Bytes) (plain : slash ∉ part) : split part = [part] := by
  induction part with
  | nil => rfl
  | cons b part ih =>
    rw [List.mem_cons, not_or] at plain
    rw [split, if_neg (Ne.symm plain.1), ih plain.2]

theorem unsplit_cons (part : Bytes) {parts : List Bytes} (filled : parts ≠ []) :
    unsplit (part :: parts) = part ++ slash :: unsplit parts := by
  cases parts with
  | nil => exact absurd rfl filled
  | cons next parts => rfl

theorem unsplit_append {left right : List Bytes} (leftFilled : left ≠ [])
    (rightFilled : right ≠ []) :
    unsplit (left ++ right) = unsplit left ++ slash :: unsplit right := by
  induction left with
  | nil => exact absurd rfl leftFilled
  | cons part left ih =>
    by_cases single : left = []
    · subst single
      exact unsplit_cons part rightFilled
    · rw [List.cons_append, unsplit_cons part (by simp [single]), unsplit_cons part single,
        ih single, List.append_assoc, List.cons_append]

/-- Parts without slashes are what their text splits into. -/
theorem split_unsplit {parts : List Bytes} (filled : parts ≠ [])
    (plain : ∀ part ∈ parts, slash ∉ part) : split (unsplit parts) = parts := by
  induction parts with
  | nil => exact absurd rfl filled
  | cons part parts ih =>
    have first := plain part List.mem_cons_self
    by_cases single : parts = []
    · subst single
      exact split_plain part first
    · rw [unsplit_cons part single, split_append_slash part _ first,
        ih single fun p inside => plain p (List.mem_cons_of_mem _ inside)]

theorem unsplit_split (bytes : Bytes) : unsplit (split bytes) = bytes := by
  induction bytes with
  | nil => rfl
  | cons b bytes ih =>
    obtain ⟨part, parts, shape⟩ := List.exists_cons_of_ne_nil (split_ne_nil bytes)
    rw [split, shape]
    rw [shape] at ih
    split
    · rename_i isSlash
      rw [unsplit_cons [] (by simp), ih, isSlash]
      rfl
    · cases parts with
      | nil => simpa [unsplit] using ih
      | cons next parts =>
        rw [unsplit_cons _ (by simp)] at ih ⊢
        simpa using ih

/-- What follows the last slash. -/
def lastPart (p : Path) : Bytes := ((split p.bytes).getLast?).getD []

theorem split_lastPart (p : Path) : ∃ front, split p.bytes = front ++ [p.lastPart] := by
  have filled := split_ne_nil p.bytes
  refine ⟨(split p.bytes).dropLast, ?_⟩
  rw [lastPart, List.getLast?_eq_some_getLast filled, Option.getD_some,
    List.dropLast_concat_getLast filled]

/-- What stands before the first part of a relative path that is joined to another one. -/
def lead (base : Path) : Bytes :=
  if base.isEmpty ∨ base.endsInSlash then base.bytes else base.bytes ++ [slash]

theorem join_relative (base : Path) {p : Path} (relative : p.isAbsolute = false) :
    (base.join p).bytes = lead base ++ p.bytes := by
  unfold join lead
  rw [relative, if_neg (by simp)]
  split <;> simp

end FormatLint.Path
