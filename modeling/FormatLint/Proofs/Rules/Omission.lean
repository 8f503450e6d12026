import FormatLint.Proofs.Rules.Conflict

/-!
Taking several rules out of an entry, one after the other. The order of the rules shows only in the
order in which the new ones are listed as omitted.
-/

namespace FormatLint.Entry

/-- The list of omitted rules grows at its end, by each new rule where it is first met. -/
theorem omitRules_foldl (rules : List String) (e : Entry) :
    (rules.foldl omitRule e).omitRules =
      e.omitRules ++ (rules.filter fun rule => !e.omitRules.contains rule).eraseDups := by
  induction rules generalizing e with
  | nil => simp
  | cons rule rules ih =>
    rw [List.foldl_cons, ih (e.omitRule rule)]
    by_cases listed : e.omitRules.contains rule = true
    · have same : (e.omitRule rule).omitRules = e.omitRules := by
        rw [omitRule, if_pos listed]
      rw [same, List.filter_cons_of_neg (by simp [List.contains_iff_mem.mp listed])]
    · have grown : (e.omitRule rule).omitRules = e.omitRules ++ [rule] := by
        rw [omitRule, if_neg listed]
      rw [grown, List.filter_cons_of_pos (by simpa using listed), List.eraseDups_cons,
        List.filter_filter, List.append_assoc, List.singleton_append]
      congr 4
      funext other
      by_cases same : other = rule <;> simp [same]

example : (["yoda", "curly", "semi", "curly"].foldl omitRule { omitRules := ["semi"] }).omitRules =
    ["semi", "yoda", "curly"] := by decide

/-- An entry with its rules replaced is the entry once its own rules are put back. -/
theorem eq_of_besideRules {before after : Entry} (frame : after.besideRules = before.besideRules) :
    after = { before with rules := after.rules, omitRules := after.omitRules } := by
  cases before
  cases after
  simp only [besideRules, mk.injEq] at frame ⊢
  simp [frame]

/-- Omitting one rule after another removes exactly these rules from the entry, with the others in
    their order and with their values; lists after the rules that were omitted already each new one
    once, in the order in which they first come; and touches nothing else. In another order the same
    rules are left and the same ones are omitted. -/
theorem omission_of_sequence (e : Entry) (rules : List String) :
    (rules.foldl omitRule e).rules = e.rules.filter (fun m => m.1 ∉ rules) ∧
    (rules.foldl omitRule e).omitRules =
      e.omitRules ++ (rules.filter fun rule => rule ∉ e.omitRules).eraseDups ∧
    rules.foldl omitRule e =
      { e with
        rules := (rules.foldl omitRule e).rules
        omitRules := (rules.foldl omitRule e).omitRules } ∧
    ∀ others : List String, others.Perm rules →
      (others.foldl omitRule e).rules = (rules.foldl omitRule e).rules ∧
      ∀ rule, rule ∈ (others.foldl omitRule e).omitRules ↔
        rule ∈ (rules.foldl omitRule e).omitRules := by
  have omitted := omitted_foldl rules e
  refine ⟨?_, ?_, eq_of_besideRules omitted.frame, ?_⟩
  · simpa using omitted.rules
  · simpa using omitRules_foldl rules e
  · intro others reordered
    have omitted' := omitted_foldl others e
    refine ⟨?_, ?_⟩
    · rw [omitted.rules, omitted'.rules]
      congr 1
      funext m
      simp [reordered.mem_iff]
    · intro rule
      rw [omitted.omitted, omitted'.omitted, reordered.mem_iff]

/-- An entry that sets three rules and omits one of them already. -/
def threeRules : Entry where
  rules := [("semi", .null), ("eqeqeq", .bool true), ("curly", .bool false)]
  omitRules := ["semi"]

theorem omission_of_sequence_sample :
    ["semi", "curly", "curly", "yoda"].Perm ["yoda", "curly", "semi", "curly"] ∧
    (["semi", "curly", "curly", "yoda"].foldl omitRule threeRules).rules =
      (["yoda", "curly", "semi", "curly"].foldl omitRule threeRules).rules := by
  have reordered : ["semi", "curly", "curly", "yoda"].Perm ["yoda", "curly", "semi", "curly"] := by
    decide
  obtain ⟨-, -, -, same⟩ := omission_of_sequence threeRules ["yoda", "curly", "semi", "curly"]
  exact ⟨reordered, (same _ reordered).1⟩

end FormatLint.Entry
