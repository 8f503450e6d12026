import FormatLint.Glob.Basic
import Mathlib.Data.List.Induction

/-!
The texts that a glob stands for. `Token.Stands` says it token by token, without positions or
marks, and the matcher decides exactly this: `accepts_iff`.
-/

namespace FormatLint.Glob

mutual

/-- The texts that one token stands for. -/
def Token.Stands : Token → Bytes → Prop
  | .literal c, text => text = String.utf8EncodeChar c
  | .any, text => ∃ b, b ≠ slash ∧ text = [b]
  | .run, text => slash ∉ text
  | .leading, text => text = [] ∨ ∃ before, text = before ++ [slash]
  | .trailing, text => ∃ after, text = slash :: after
  | .middle, text => text = [slash] ∨ ∃ between, text = slash :: between ++ [slash]
  | .oneOf negated ranges, text => ∃ b, inRanges ranges b ≠ negated ∧ text = [b]
  | .group alternatives, text =>
    if allVoid alternatives then text = [] else StandsAny alternatives text

/-- The texts that tokens stand for one after the other. -/
def Stands : List Token → Bytes → Prop
  | [], text => text = []
  | t :: ts, text => ∃ front back, text = front ++ back ∧ t.Stands front ∧ Stands ts back

def StandsAny : List (List Token) → Bytes → Prop
  | [], _ => False
  | a :: as, text => (isVoid a = false ∧ Stands a text) ∨ StandsAny as text

end

theorem stands_singleton (t : Token) (text : Bytes) : Stands [t] text ↔ t.Stands text := by
  constructor
  · intro found
    obtain ⟨front, back, rfl, here, rfl⟩ := found
    simpa using here
  · intro here
    exact ⟨text, [], by simp, here, rfl⟩

theorem stands_append (left right : List Token) (text : Bytes) :
    Stands (left ++ right) text ↔
      ∃ front back, text = front ++ back ∧ Stands left front ∧ Stands right back := by
  induction left generalizing text with
  | nil =>
    constructor
    · intro stands
      exact ⟨[], text, rfl, rfl, stands⟩
    · intro found
      obtain ⟨front, back, rfl, rfl, stands⟩ := found
      exact stands
  | cons t ts ih =>
    constructor
    · intro found
      obtain ⟨front, rest, rfl, here, stands⟩ := found
      obtain ⟨middle, back, rfl, below, after⟩ := (ih rest).mp stands
      exact ⟨front ++ middle, back, by simp, ⟨front, middle, rfl, here, below⟩, after⟩
    · intro found
      obtain ⟨_, back, rfl, ⟨front, middle, rfl, here, below⟩, after⟩ := found
      exact ⟨front, middle ++ back, by simp, here, (ih _).mpr ⟨middle, back, rfl, below, after⟩⟩

namespace Marks

/-- A match may have reached position `i`. -/
def At (marks : Marks) (i : Nat) : Prop := marks[i]? = some true

theorem nowhere {α : Type} (items : List α) (i : Nat) : ¬ At (items.map fun _ => false) i := by
  rw [At, List.getElem?_map]
  cases items[i]? <;> simp

theorem start_at (subject : Bytes) (i : Nat) : (start subject).At i ↔ i = 0 := by
  cases i with
  | zero => simp [At, start]
  | succ i =>
    have empty : ¬ (start subject).At (i + 1) := nowhere subject i
    simp [empty]

theorem union_at (a b : Marks) (same : a.length = b.length) (i : Nat) :
    (a.union b).At i ↔ a.At i ∨ b.At i := by
  simp only [At, union, List.getElem?_zipWith]
  by_cases inside : i < a.length
  · have inside' : i < b.length := same ▸ inside
    simp [inside, inside']
  · have outside' : ¬ i < b.length := same ▸ inside
    simp [inside, outside']

@[simp] theorem start_length (subject : Bytes) : (start subject).length = subject.length + 1 := by
  simp [start]

@[simp] theorem cross_length (p : UInt8 → Bool) (subject : Bytes) (marks : Marks) :
    (cross p subject marks).length = min subject.length marks.length + 1 := by
  simp [cross]

@[simp] theorem union_length (a b : Marks) : (a.union b).length = min a.length b.length := by
  simp [union]

@[simp] theorem spread_length (p : UInt8 → Bool) (carried : Bool) (subject : Bytes) (marks : Marks) :
    (spread p carried subject marks).length = min (subject.length + 1) marks.length := by
  induction marks generalizing carried subject with
  | nil => simp [spread]
  | cons mark marks ih =>
    cases subject with
    | nil => simp [spread]
    | cons b subject => simp [spread, ih]

theorem cross_at (p : UInt8 → Bool) (before after : Bytes) (marks : Marks) :
    (cross p (before ++ after) marks).At before.length ↔
      ∃ front b, before = front ++ [b] ∧ p b ∧ marks.At front.length := by
  rcases List.eq_nil_or_concat before with rfl | ⟨front, b, rfl⟩
  · simp [At, cross]
  · rw [List.concat_eq_append]
    have step : (cross p (front ++ [b] ++ after) marks).At (front ++ [b]).length ↔
        p b ∧ marks.At front.length := by
      simp only [At, cross, List.length_append, List.length_cons, List.length_nil,
        List.getElem?_cons_succ, List.getElem?_zipWith, List.append_assoc, List.cons_append,
        List.nil_append]
      cases mark : marks[front.length]? <;> simp [and_comm]
    rw [step]
    constructor
    · intro found
      obtain ⟨holds, reached⟩ := found
      exact ⟨front, b, rfl, holds, reached⟩
    · intro found
      obtain ⟨front', b', same, holds, reached⟩ := found
      obtain ⟨rfl, rfl⟩ : front = front' ∧ b = b' := by simpa using same
      exact ⟨holds, reached⟩

/-- With `carried` the spreading starts before the first byte as well. -/
theorem spread_at (p : UInt8 → Bool) (carried : Bool) (before after : Bytes) (marks : Marks)
    (long : (before ++ after).length < marks.length) :
    (spread p carried (before ++ after) marks).At before.length ↔
      (carried = true ∧ ∀ b ∈ before, p b) ∨
        ∃ front back, before = front ++ back ∧ (∀ b ∈ back, p b) ∧ marks.At front.length := by
  induction before generalizing carried marks with
  | nil =>
    obtain ⟨mark, marks, rfl⟩ : ∃ mark rest, marks = mark :: rest := by
      cases marks with
      | nil => simp at long
      | cons mark rest => exact ⟨mark, rest, rfl⟩
    have first : (spread p carried after (mark :: marks)).At 0 ↔ mark = true ∨ carried = true := by
      cases after <;> simp [At, spread]
    have split : (∃ front back : Bytes, [] = front ++ back ∧ (∀ b ∈ back, p b) ∧
        At (mark :: marks) front.length) ↔ mark = true := by
      constructor
      · intro found
        obtain ⟨front, back, same, -, reached⟩ := found
        obtain ⟨rfl, rfl⟩ := List.append_eq_nil_iff.mp same.symm
        simpa [At] using reached
      · intro set
        exact ⟨[], [], rfl, by simp, by simp [At, set]⟩
    simp only [List.nil_append, List.length_nil, first, split, List.not_mem_nil, false_implies,
      implies_true, and_true]
    exact or_comm
  | cons b before ih =>
    obtain ⟨mark, marks, rfl⟩ : ∃ mark rest, marks = mark :: rest := by
      cases marks with
      | nil => simp at long
      | cons mark rest => exact ⟨mark, rest, rfl⟩
    have shorter : (before ++ after).length < marks.length := by simpa using long
    have next := ih ((mark || carried) && p b) marks shorter
    have unfolded : (spread p carried (b :: before ++ after) (mark :: marks)).At
        (b :: before).length ↔
        (spread p ((mark || carried) && p b) (before ++ after) marks).At before.length := by
      simp [At, spread]
    rw [unfolded, next]
    constructor
    · intro either
      rcases either with ⟨reached, all⟩ | ⟨front, back, rfl, all, reached⟩
      · simp only [Bool.and_eq_true, Bool.or_eq_true] at reached
        rcases reached with ⟨set | set, holds⟩
        · exact Or.inr ⟨[], b :: before, rfl, by simpa [holds] using all, by simp [At, set]⟩
        · exact Or.inl ⟨set, by simpa [holds] using all⟩
      · exact Or.inr ⟨b :: front, back, rfl, all, by simpa [At] using reached⟩
    · intro either
      rcases either with ⟨set, all⟩ | ⟨front, back, same, all, reached⟩
      · simp only [List.mem_cons, forall_eq_or_imp] at all
        exact Or.inl ⟨by simp [set, all.1], all.2⟩
      · cases front with
        | nil =>
          obtain rfl : b :: before = back := same
          simp only [List.mem_cons, forall_eq_or_imp] at all
          have set : mark = true := by simpa [At] using reached
          exact Or.inl ⟨by simp [set, all.1], all.2⟩
        | cons c front =>
          obtain ⟨rfl, rfl⟩ : b = c ∧ before = front ++ back := by simpa using same
          exact Or.inr ⟨front, back, rfl, all, by simpa [At] using reached⟩

theorem overSlash_at (before after : Bytes) (marks : Marks) :
    (overSlash (before ++ after) marks).At before.length ↔
      ∃ front, before = front ++ [slash] ∧ marks.At front.length := by
  rw [overSlash, cross_at]
  constructor
  · intro found
    obtain ⟨front, b, rfl, isSlash, reached⟩ := found
    obtain rfl : b = slash := by simpa using isSlash
    exact ⟨front, rfl, reached⟩
  · intro found
    obtain ⟨front, rfl, reached⟩ := found
    exact ⟨front, slash, rfl, by simp, reached⟩

theorem anywhere_at (before after : Bytes) (marks : Marks)
    (long : (before ++ after).length < marks.length) :
    (anywhere (before ++ after) marks).At before.length ↔
      ∃ front back, before = front ++ back ∧ marks.At front.length := by
  simp [anywhere, spread_at _ _ _ _ _ long]

theorem overBytes_at (bytes before after : Bytes) (marks : Marks) :
    (bytes.foldl (fun m b => cross (· == b) (before ++ after) m) marks).At before.length ↔
      ∃ front, before = front ++ bytes ∧ marks.At front.length := by
  induction bytes using List.reverseRecOn generalizing before after with
  | nil => simp
  | append_singleton bytes b ih =>
    rw [List.foldl_append, List.foldl_cons, List.foldl_nil, cross_at]
    constructor
    · intro found
      obtain ⟨middle, c, rfl, same, reached⟩ := found
      obtain rfl : c = b := by simpa using same
      rw [List.append_assoc] at reached
      obtain ⟨front, rfl, start⟩ := (ih middle ([c] ++ after)).mp reached
      exact ⟨front, by simp, start⟩
    · intro found
      obtain ⟨front, rfl, start⟩ := found
      refine ⟨front ++ bytes, b, by simp, by simp, ?_⟩
      have below := (ih (front ++ bytes) ([b] ++ after)).mpr ⟨front, rfl, start⟩
      simpa using below

@[simp] theorem overSlash_length (subject : Bytes) (marks : Marks) :
    (overSlash subject marks).length = min subject.length marks.length + 1 := by
  simp [overSlash]

@[simp] theorem anywhere_length (subject : Bytes) (marks : Marks) :
    (anywhere subject marks).length = min (subject.length + 1) marks.length := by
  simp [anywhere]

theorem overChar_length (c : Char) (subject : Bytes) (marks : Marks)
    (fits : marks.length = subject.length + 1) :
    (overChar c subject marks).length = subject.length + 1 := by
  unfold overChar
  generalize String.utf8EncodeChar c = bytes
  induction bytes generalizing marks with
  | nil => exact fits
  | cons b bytes ih => exact ih _ (by simp [fits])

end Marks

/-- What a step has to satisfy: it keeps the number of marks, and reaches a position from any
    reached position that a text of `stands` divides from it. -/
def Follows (stands : Bytes → Prop) (subject : Bytes) (step : Marks → Marks) : Prop :=
  ∀ marks : Marks, marks.length = subject.length + 1 →
    (step marks).length = subject.length + 1 ∧
    ∀ before after, subject = before ++ after →
      ((step marks).At before.length ↔
        ∃ front back, before = front ++ back ∧ marks.At front.length ∧ stands back)

mutual

theorem Token.step_follows (subject : Bytes) :
    (t : Token) → Follows t.Stands subject (t.step subject)
  | .literal c => by
    intro marks fits
    refine ⟨Marks.overChar_length c subject marks fits, ?_⟩
    intro before after same
    subst same
    rw [Token.step, Marks.overChar, Marks.overBytes_at]
    simp only [Token.Stands]
    constructor
    · intro found
      obtain ⟨front, rfl, reached⟩ := found
      exact ⟨front, _, rfl, reached, rfl⟩
    · intro found
      obtain ⟨front, _, rfl, reached, rfl⟩ := found
      exact ⟨front, rfl, reached⟩
  | .any => by
    intro marks fits
    refine ⟨by simp [Token.step, fits], ?_⟩
    intro before after same
    subst same
    rw [Token.step, Marks.cross_at]
    simp only [Token.Stands]
    constructor
    · intro found
      obtain ⟨front, b, rfl, other, reached⟩ := found
      exact ⟨front, [b], rfl, reached, b, by simpa using other, rfl⟩
    · intro found
      obtain ⟨front, _, rfl, reached, b, other, rfl⟩ := found
      exact ⟨front, b, rfl, by simpa using other, reached⟩
  | .run => by
    intro marks fits
    refine ⟨by simp [Token.step, fits], ?_⟩
    intro before after same
    subst same
    rw [Token.step, Marks.spread_at _ _ _ _ _ (by omega)]
    simp only [Token.Stands, Bool.false_eq_true, false_and, false_or]
    constructor
    · intro found
      obtain ⟨front, back, rfl, other, reached⟩ := found
      exact ⟨front, back, rfl, reached, fun inside => by simpa using other slash inside⟩
    · intro found
      obtain ⟨front, back, rfl, reached, none⟩ := found
      refine ⟨front, back, rfl, ?_, reached⟩
      intro b inside
      simp only [bne_iff_ne, ne_eq]
      intro same
      subst same
      exact none inside
  | .leading => by
    intro marks fits
    refine ⟨by simp [Token.step, fits], ?_⟩
    intro before after same
    subst same
    rw [Token.step, Marks.union_at _ _ (by simp [fits]), Marks.overSlash_at]
    simp only [Token.Stands]
    constructor
    · intro either
      rcases either with reached | ⟨front, rfl, reached⟩
      · exact ⟨before, [], by simp, reached, Or.inl rfl⟩
      · rw [List.append_assoc] at reached
        obtain ⟨front, back, rfl, start⟩ := (Marks.anywhere_at _ _ _ (by simp [fits])).mp reached
        exact ⟨front, back ++ [slash], by simp, start, Or.inr ⟨back, rfl⟩⟩
    · intro found
      rcases found with ⟨front, _, rfl, start, rfl | ⟨back, rfl⟩⟩
      · exact Or.inl (by simpa using start)
      · refine Or.inr ⟨front ++ back, by simp, ?_⟩
        have reached := (Marks.anywhere_at (front ++ back) ([slash] ++ after) marks
          (by simp [fits])).mpr ⟨front, back, rfl, start⟩
        simpa using reached
  | .trailing => by
    intro marks fits
    refine ⟨by simp [Token.step, fits], ?_⟩
    intro before after same
    subst same
    rw [Token.step, Marks.anywhere_at _ _ _ (by simp [fits])]
    simp only [Token.Stands]
    constructor
    · intro found
      obtain ⟨middle, back, rfl, reached⟩ := found
      rw [List.append_assoc] at reached
      obtain ⟨front, rfl, start⟩ := (Marks.overSlash_at _ _ _).mp reached
      exact ⟨front, slash :: back, by simp, start, back, rfl⟩
    · intro found
      obtain ⟨front, _, rfl, start, back, rfl⟩ := found
      refine ⟨front ++ [slash], back, by simp, ?_⟩
      have reached := (Marks.overSlash_at (front ++ [slash]) (back ++ after) marks).mpr
        ⟨front, rfl, start⟩
      simpa using reached
  | .middle => by
    intro marks fits
    refine ⟨by simp [Token.step, fits], ?_⟩
    intro before after same
    subst same
    rw [Token.step, Marks.union_at _ _ (by simp [fits]), Marks.overSlash_at, Marks.overSlash_at]
    simp only [Token.Stands]
    constructor
    · intro either
      rcases either with ⟨front, rfl, start⟩ | ⟨outer, rfl, reached⟩
      · exact ⟨front, [slash], rfl, start, Or.inl rfl⟩
      · rw [List.append_assoc] at reached
        obtain ⟨inner, between, rfl, crossed⟩ :=
          (Marks.anywhere_at _ _ _ (by simp [fits])).mp reached
        rw [List.append_assoc] at crossed
        obtain ⟨front, rfl, start⟩ := (Marks.overSlash_at _ _ _).mp crossed
        exact ⟨front, slash :: between ++ [slash], by simp, start, Or.inr ⟨between, rfl⟩⟩
    · intro found
      rcases found with ⟨front, _, rfl, start, rfl | ⟨between, rfl⟩⟩
      · exact Or.inl ⟨front, rfl, start⟩
      · refine Or.inr ⟨front ++ slash :: between, by simp, ?_⟩
        have crossed := (Marks.overSlash_at (front ++ [slash]) (between ++ ([slash] ++ after))
          marks).mpr ⟨front, rfl, start⟩
        have reached := (Marks.anywhere_at (front ++ slash :: between) ([slash] ++ after)
          (Marks.overSlash (front ++ slash :: between ++ ([slash] ++ after)) marks)
          (by simp [fits])).mpr ⟨front ++ [slash], between, by simp, by simpa using crossed⟩
        simpa using reached
  | .oneOf negated ranges => by
    intro marks fits
    refine ⟨by simp [Token.step, fits], ?_⟩
    intro before after same
    subst same
    rw [Token.step, Marks.cross_at]
    simp only [Token.Stands]
    constructor
    · intro found
      obtain ⟨front, b, rfl, member, reached⟩ := found
      exact ⟨front, [b], rfl, reached, b, by simpa using member, rfl⟩
    · intro found
      obtain ⟨front, _, rfl, reached, b, member, rfl⟩ := found
      exact ⟨front, b, rfl, by simpa using member, reached⟩
  | .group alternatives => by
    intro marks fits
    by_cases void : allVoid alternatives = true
    · refine ⟨by simp [Token.step, void, fits], ?_⟩
      intro before after same
      subst same
      simp only [Token.step, void, if_true, Token.Stands]
      constructor
      · intro reached
        exact ⟨before, [], by simp, reached, rfl⟩
      · intro found
        obtain ⟨front, _, rfl, reached, rfl⟩ := found
        simpa using reached
    · have any := stepAny_follows subject alternatives marks fits
      simpa only [Token.step, void, if_false, Token.Stands, Bool.false_eq_true] using any

theorem steps_follows (subject : Bytes) :
    (ts : List Token) → Follows (Stands ts) subject (steps subject ts)
  | [] => by
    intro marks fits
    refine ⟨by simp [steps, fits], ?_⟩
    intro before after same
    subst same
    simp only [steps, Stands]
    constructor
    · intro reached
      exact ⟨before, [], by simp, reached, rfl⟩
    · intro found
      obtain ⟨front, _, rfl, reached, rfl⟩ := found
      simpa using reached
  | t :: ts => by
    intro marks fits
    obtain ⟨fits', first⟩ := Token.step_follows subject t marks fits
    obtain ⟨fits'', rest⟩ := steps_follows subject ts _ fits'
    refine ⟨fits'', ?_⟩
    intro before after same
    subst same
    rw [steps, rest before after rfl]
    simp only [Stands]
    constructor
    · intro found
      obtain ⟨middle, back, rfl, reached, stands⟩ := found
      obtain ⟨front, between, rfl, start, here⟩ := (first middle (back ++ after) (by simp)).mp reached
      exact ⟨front, between ++ back, by simp, start, between, back, rfl, here, stands⟩
    · intro found
      obtain ⟨front, _, rfl, start, between, back, rfl, here, stands⟩ := found
      refine ⟨front ++ between, back, by simp, ?_, stands⟩
      exact (first (front ++ between) (back ++ after) (by simp)).mpr
        ⟨front, between, rfl, start, here⟩

theorem stepAny_follows (subject : Bytes) :
    (as : List (List Token)) → Follows (StandsAny as) subject (stepAny subject as)
  | [] => by
    intro marks fits
    refine ⟨by simp [stepAny, fits], ?_⟩
    intro before after same
    subst same
    have empty : ¬ Marks.At (marks.map fun _ => false) before.length := Marks.nowhere marks _
    simp only [stepAny, StandsAny, empty, and_false, exists_false]
  | a :: as => by
    intro marks fits
    obtain ⟨fits', rest⟩ := stepAny_follows subject as marks fits
    by_cases void : isVoid a = true
    · refine ⟨by simp [stepAny, void, fits'], ?_⟩
      intro before after same
      subst same
      simp only [stepAny, void, if_true, StandsAny, Bool.true_eq_false, false_and, false_or]
      exact rest before after rfl
    · obtain ⟨fits'', first⟩ := steps_follows subject a marks fits
      refine ⟨by simp [stepAny, void, fits', fits''], ?_⟩
      intro before after same
      subst same
      simp only [stepAny, void, StandsAny]
      rw [if_neg (by simp), Marks.union_at _ _ (by rw [fits', fits'']), first before after rfl,
        rest before after rfl]
      constructor
      · intro either
        rcases either with ⟨front, back, rfl, start, stands⟩ | ⟨front, back, rfl, start, stands⟩
        · exact ⟨front, back, rfl, start, Or.inl ⟨trivial, stands⟩⟩
        · exact ⟨front, back, rfl, start, Or.inr stands⟩
      · intro found
        rcases found with ⟨front, back, rfl, start, ⟨-, stands⟩ | stands⟩
        · exact Or.inl ⟨front, back, rfl, start, stands⟩
        · exact Or.inr ⟨front, back, rfl, start, stands⟩

end

/-- The matcher accepts what the tokens stand for, and everything for a lone `**`. -/
theorem accepts_iff (glob : Glob) (subject : Bytes) :
    glob.accepts subject = true ↔ glob = [.leading] ∨ Stands glob subject := by
  by_cases lone : glob = [.leading]
  · subst lone
    simp [accepts]
  · have unfolded : glob.accepts subject =
        (steps subject glob (Marks.start subject)).getLast?.getD false := by
      unfold accepts
      split
      · contradiction
      · rfl
    obtain ⟨fits, reaches⟩ := steps_follows subject glob (Marks.start subject) (by simp)
    have last : glob.accepts subject = true ↔
        (steps subject glob (Marks.start subject)).At subject.length := by
      rw [unfolded, List.getLast?_eq_getElem?, fits, Nat.add_sub_cancel, Marks.At]
      cases (steps subject glob (Marks.start subject))[subject.length]? <;> simp
    rw [last, reaches subject [] (by simp)]
    simp only [lone, false_or, Marks.start_at]
    constructor
    · intro found
      obtain ⟨front, back, rfl, empty, stands⟩ := found
      obtain rfl := List.length_eq_zero_iff.mp empty
      exact stands
    · intro stands
      exact ⟨[], subject, rfl, rfl, stands⟩

end FormatLint.Glob
