import FormatLint.Proofs.Rules.Layering
import FormatLint.Proofs.Rules.Members

/-!
What settling the conflicts does to any list of layers. One element is edited, in its rules alone,
and an entry in which a conflict is settled is not changed by settling it again.
-/

namespace FormatLint

namespace Members

variable {members : Members} {key k : String} {value : Json}

theorem get?_cons (name : String) (old : Json) (members : Members) (k : String) :
    get? ((name, old) :: members) k = if k = name then some old else get? members k := by
  rw [← List.singleton_append, get?_append, get?_singleton]
  split <;> simp

theorem get?_insert (members : Members) (key : String) (value : Json) (k : String) :
    (members.insert key value).get? k = if k = key then some value else get? members k := by
  induction members with
  | nil => exact get?_cons key value [] k
  | cons m members ih =>
    obtain ⟨name, old⟩ := m
    rw [insert]
    split
    · rename_i same
      subst same
      rw [get?_cons, get?_cons]
      split <;> rfl
    · rename_i apart
      rw [get?_cons, get?_cons, ih]
      by_cases here : k = name
      · rw [if_pos here, if_pos here, if_neg (fun same => apart (here ▸ same))]
      · rw [if_neg here, if_neg here]

/-- A key that has the value already stays where it is. -/
theorem insert_given (given : members.get? key = some value) :
    members.insert key value = members := by
  induction members with
  | nil => cases given
  | cons m members ih =>
    obtain ⟨name, old⟩ := m
    rw [get?_cons] at given
    rw [insert]
    by_cases same : name = key
    · rw [if_pos same.symm] at given
      rw [if_pos same, Option.some.inj given]
    · rw [if_neg (Ne.symm same)] at given
      rw [if_neg same, ih given]

theorem insertAll_cons (members more : Members) (m : String × Json) :
    members.insertAll (m :: more) = (members.insert m.1 m.2).insertAll more := rfl

theorem get?_insertAll_other {more : Members} (other : k ∉ more.map (·.1)) (members : Members) :
    (members.insertAll more).get? k = members.get? k := by
  induction more generalizing members with
  | nil => rfl
  | cons m more ih =>
    rw [List.map_cons, List.mem_cons, not_or] at other
    rw [insertAll_cons, ih other.2, get?_insert, if_neg other.1]

theorem get?_insertAll {more : Members} (distinct : (more.map (·.1)).Nodup)
    {m : String × Json} (member : m ∈ more) (members : Members) :
    (members.insertAll more).get? m.1 = some m.2 := by
  induction more generalizing members with
  | nil => cases member
  | cons first more ih =>
    rw [List.map_cons, List.nodup_cons] at distinct
    rw [insertAll_cons]
    rcases List.mem_cons.mp member with rfl | later
    · rw [get?_insertAll_other distinct.1, get?_insert, if_pos rfl]
    · exact ih distinct.2 later (members.insert first.1 first.2)

theorem insertAll_given {more : Members} (given : ∀ m ∈ more, members.get? m.1 = some m.2) :
    members.insertAll more = members := by
  induction more with
  | nil => rfl
  | cons m more ih =>
    rw [List.forall_mem_cons] at given
    rw [insertAll_cons, insert_given given.1, ih given.2]

theorem mem_keys_insertAll {more : Members} (member : k ∈ (members.insertAll more).map (·.1)) :
    k ∈ members.map (·.1) ∨ k ∈ more.map (·.1) := by
  induction more generalizing members with
  | nil => exact .inl member
  | cons m more ih =>
    rcases ih member with inside | later
    · rcases mem_keys_insert inside with rfl | old
      · exact .inr List.mem_cons_self
      · exact .inl old
    · exact .inr (List.mem_cons_of_mem _ later)

theorem get?_filter (keep : String → Bool) (kept : keep k = true) (members : Members) :
    get? (members.filter fun m => keep m.1) k = members.get? k := by
  rw [get?, List.find?_filter, get?]
  congr 2
  funext m
  by_cases same : m.1 = k
  · simp [same, kept]
  · simp [same]

end Members

namespace Entry

variable {e : Entry} {rule other : String}

theorem omitRule_omitted (unset : rule ∉ e.rules.map (·.1)) (omitted : rule ∈ e.omitRules) :
    e.omitRule rule = e := by
  have listed : e.omitRules.contains rule = true := List.contains_iff_mem.mpr omitted
  rw [omitRule, Members.erase_new unset, listed, if_pos rfl]

theorem mem_omitRule :
    other ∈ (e.omitRule rule).omitRules ↔ other ∈ e.omitRules ∨ other = rule := by
  unfold omitRule
  dsimp only
  split
  · rename_i listed
    have member : rule ∈ e.omitRules := List.contains_iff_mem.mp listed
    constructor
    · exact Or.inl
    · rintro (inside | rfl)
      · exact inside
      · exact member
  · simp

/-- What an entry holds besides its rules. -/
def besideRules (e : Entry) : Entry := { e with rules := [], omitRules := [] }

/-- What omitting one rule after another keeps of an entry, and what it leaves of its rules. -/
structure Omitted (ids : List String) (before after : Entry) : Prop where
  frame : after.besideRules = before.besideRules
  rules : after.rules = before.rules.filter fun m => !ids.contains m.1
  omitted : ∀ rule, rule ∈ after.omitRules ↔ rule ∈ before.omitRules ∨ rule ∈ ids

theorem omitted_foldl (ids : List String) (e : Entry) : Omitted ids e (ids.foldl omitRule e) := by
  induction ids generalizing e with
  | nil => exact ⟨rfl, by simp, by simp⟩
  | cons rule ids ih =>
    have later := ih (e.omitRule rule)
    rw [List.foldl_cons]
    refine ⟨later.frame, ?_, ?_⟩
    · rw [later.rules]
      change (e.rules.erase rule).filter _ = _
      rw [Members.erase, List.filter_filter]
      congr 1
      funext m
      by_cases same : m.1 = rule <;> simp [same]
    · intro other
      rw [later.omitted, mem_omitRule, List.mem_cons, or_assoc]

section

variable {ids : List String} {before after : Entry}

theorem Omitted.unset (omitted : Omitted ids before after) :
    ∀ rule ∈ ids, rule ∉ after.rules.map (·.1) := by
  intro rule member set
  rw [omitted.rules] at set
  obtain ⟨m, kept, rfl⟩ := List.mem_map.mp set
  have apart := (List.mem_filter.mp kept).2
  simp [member] at apart

theorem Omitted.get? (omitted : Omitted ids before after) {k : String} (apart : k ∉ ids) :
    after.rules.get? k = before.rules.get? k := by
  rw [omitted.rules]
  exact Members.get?_filter (fun k => !ids.contains k) (by simpa using apart) _

end

end Entry

namespace Suppression

/-- What holds of the loser's entry once a conflict is settled. -/
structure Settled (row : Suppression) (e : Entry) : Prop where
  unset : ∀ rule ∈ row.omitted, rule ∉ e.rules.map (·.1)
  omitted : ∀ rule ∈ row.omitted, rule ∈ e.omitRules
  replaced : ∀ m ∈ row.replaced, e.rules.get? m.1 = some m.2

/-- A conflict sets each of its rules once, and none that it omits. -/
structure Coherent (row : Suppression) : Prop where
  distinct : (row.replaced.map (·.1)).Nodup
  apart : ∀ rule ∈ row.omitted, rule ∉ row.replaced.map (·.1)

/-- Two conflicts touch no rule in different ways. -/
structure Apart (row other : Suppression) : Prop where
  replaced : ∀ rule ∈ row.replaced.map (·.1), rule ∉ other.replaced.map (·.1)
  omitted : ∀ rule ∈ row.replaced.map (·.1), rule ∉ other.omitted
  kept : ∀ rule ∈ row.omitted, rule ∉ other.replaced.map (·.1)

variable {row other : Suppression} {rows : List Suppression} {e : Entry}

theorem edit_frame (row : Suppression) (e : Entry) :
    (row.edit e).besideRules = e.besideRules :=
  (Entry.omitted_foldl row.omitted e).frame

/-- Settling a conflict once more changes nothing, not even the order of the keys. -/
theorem Settled.edit_eq (settled : row.Settled e) : row.edit e = e := by
  have omitted (rules : List String) (listed : ∀ rule ∈ rules, rule ∈ row.omitted) :
      rules.foldl Entry.omitRule e = e := by
    induction rules with
    | nil => rfl
    | cons rule rules ih =>
      rw [List.forall_mem_cons] at listed
      rw [List.foldl_cons, Entry.omitRule_omitted (settled.unset rule listed.1)
        (settled.omitted rule listed.1), ih listed.2]
  rw [edit, omitted row.omitted fun _ member => member, Members.insertAll_given settled.replaced]

theorem Coherent.settled_edit (coherent : row.Coherent) (e : Entry) : row.Settled (row.edit e) := by
  have omitted := Entry.omitted_foldl row.omitted e
  refine ⟨?_, ?_, ?_⟩
  · intro rule member set
    rcases Members.mem_keys_insertAll set with old | new
    · exact omitted.unset rule member old
    · exact coherent.apart rule member new
  · intro rule member
    exact (omitted.omitted rule).mpr (.inr member)
  · intro m member
    exact Members.get?_insertAll coherent.distinct member _

/-- A conflict that is settled stays so when another one is settled. -/
theorem Settled.edit (settled : row.Settled e) (apart : row.Apart other) :
    row.Settled (other.edit e) := by
  have omitted := Entry.omitted_foldl other.omitted e
  refine ⟨?_, ?_, ?_⟩
  · intro rule member set
    rcases Members.mem_keys_insertAll set with old | new
    · rw [omitted.rules] at old
      obtain ⟨m, kept, rfl⟩ := List.mem_map.mp old
      exact settled.unset m.1 member (List.mem_map_of_mem (List.mem_filter.mp kept).1)
    · exact apart.kept rule member new
  · intro rule member
    exact (omitted.omitted rule).mpr (.inl (settled.omitted rule member))
  · intro m member
    have named := List.mem_map_of_mem (f := (·.1)) member
    have kept := omitted.get? (apart.omitted m.1 named)
    have untouched := Members.get?_insertAll_other (apart.replaced m.1 named)
      (other.omitted.foldl Entry.omitRule e).rules
    rw [Suppression.edit]
    dsimp only
    rw [untouched, kept, settled.replaced m member]

/-- Settles conflicts in one entry. -/
def editAll (rows : List Suppression) (e : Entry) : Entry := rows.foldl (fun e row => row.edit e) e

theorem editAll_frame (rows : List Suppression) (e : Entry) :
    (editAll rows e).besideRules = e.besideRules := by
  induction rows generalizing e with
  | nil => rfl
  | cons row rows ih => exact (ih (row.edit e)).trans (edit_frame row e)

theorem editAll_settled (settled : ∀ row ∈ rows, row.Settled e) : editAll rows e = e := by
  induction rows with
  | nil => rfl
  | cons row rows ih =>
    rw [List.forall_mem_cons] at settled
    rw [editAll, List.foldl_cons, settled.1.edit_eq]
    exact ih settled.2

theorem Settled.editAll (settled : row.Settled e) (apart : ∀ other ∈ rows, row.Apart other) :
    row.Settled (editAll rows e) := by
  induction rows generalizing e with
  | nil => exact settled
  | cons other rows ih =>
    rw [List.forall_mem_cons] at apart
    exact ih (settled.edit apart.1) apart.2

theorem settled_editAll (coherent : ∀ row ∈ rows, row.Coherent) (apart : rows.Pairwise Apart)
    (e : Entry) : ∀ row ∈ rows, row.Settled (editAll rows e) := by
  induction rows generalizing e with
  | nil => simp
  | cons first rows ih =>
    rw [List.forall_mem_cons] at coherent
    rw [List.pairwise_cons] at apart
    intro row member
    rcases List.mem_cons.mp member with rfl | later
    · exact (coherent.1.settled_edit e).editAll apart.1
    · exact ih coherent.2 apart.2 (first.edit e) row later

theorem coherent_table : ∀ row ∈ table, row.Coherent := by
  intro row member
  rcases List.mem_pair.mp member with rfl | rfl
  · exact ⟨by decide, by decide⟩
  · exact ⟨by decide, by decide⟩

theorem apart_table : table.Pairwise Apart := by
  rw [table, List.pairwise_pair]
  exact ⟨by decide, by decide, by decide⟩

/-- Whether an element is a default one of `standard-js`, the loser of every conflict. -/
def givesWay (c : ComposedLayer) : Bool := c.layer == .standardJs && c.isDefault

theorem givesWay_iff {c : ComposedLayer} :
    givesWay c = true ↔ c.layer = .standardJs ∧ c.isDefault = true := by
  rw [givesWay, Bool.and_eq_true, beq_iff_eq]

/-- The conflicts whose winner is among the layers. -/
def triggered (rows : List Suppression) (layers : List ComposedLayer) : List Suppression :=
  rows.filter fun row => layers.any (·.layer == row.winner)

/-- An element after all conflicts with the layers around it are settled in its entry. -/
def settledIn (rows : List Suppression) (layers : List ComposedLayer) (c : ComposedLayer) :
    ComposedLayer :=
  { c with entry := editAll (triggered rows layers) c.entry }

variable {layers before after : List ComposedLayer} {c : ComposedLayer}

theorem editFirst_none (loser : row.loser = .standardJs) (none : ∀ c ∈ layers, givesWay c = false) :
    row.editFirst layers = layers := by
  induction layers with
  | nil => rfl
  | cons c layers ih =>
    rw [List.forall_mem_cons] at none
    have passed : ¬ (c.layer = row.loser ∧ c.isDefault = true) := by
      rw [loser, ← givesWay_iff, none.1]
      exact Bool.false_ne_true
    rw [editFirst, if_neg passed, ih none.2]

theorem editFirst_append (loser : row.loser = .standardJs)
    (passed : ∀ d ∈ before, givesWay d = false) (loses : givesWay c = true) :
    row.editFirst (before ++ c :: after) =
      before ++ { c with entry := row.edit c.entry } :: after := by
  induction before with
  | nil =>
    have found : c.layer = row.loser ∧ c.isDefault = true := by
      rw [loser, ← givesWay_iff]
      exact loses
    rw [List.nil_append, editFirst, if_pos found]
    rfl
  | cons d before ih =>
    rw [List.forall_mem_cons] at passed
    have other : ¬ (d.layer = row.loser ∧ d.isDefault = true) := by
      rw [loser, ← givesWay_iff, passed.1]
      exact Bool.false_ne_true
    rw [List.cons_append, editFirst, if_neg other, ih passed.2]
    rfl

theorem table_losers : ∀ row ∈ table, row.loser = .standardJs := by
  intro row member
  rcases List.mem_pair.mp member with rfl | rfl <;> rfl

theorem foldl_applyRow_none (losers : ∀ row ∈ rows, row.loser = .standardJs)
    (none : ∀ c ∈ layers, givesWay c = false) : rows.foldl applyRow layers = layers := by
  induction rows with
  | nil => rfl
  | cons row rows ih =>
    rw [List.forall_mem_cons] at losers
    have kept : applyRow layers row = layers := by
      rw [applyRow, editFirst_none losers.1 none, ite_self]
    rw [List.foldl_cons, kept, ih losers.2]

/-- Editing an entry makes no layer come or go, so that the conflicts to settle stay the same. -/
theorem triggered_edited (rows : List Suppression) (before after : List ComposedLayer)
    (c : ComposedLayer) (e : Entry) :
    triggered rows (before ++ { c with entry := e } :: after) =
      triggered rows (before ++ c :: after) := by
  simp only [triggered, List.any_append, List.any_cons]

theorem foldl_applyRow_append (losers : ∀ row ∈ rows, row.loser = .standardJs)
    (passed : ∀ d ∈ before, givesWay d = false) (loses : givesWay c = true) :
    rows.foldl applyRow (before ++ c :: after) =
      before ++ settledIn rows (before ++ c :: after) c :: after := by
  induction rows generalizing c with
  | nil => rfl
  | cons row rows ih =>
    rw [List.forall_mem_cons] at losers
    rw [List.foldl_cons, applyRow]
    split
    · rename_i present
      have first : triggered (row :: rows) (before ++ c :: after) =
          row :: triggered rows (before ++ c :: after) := List.filter_cons_of_pos present
      have still : givesWay { c with entry := row.edit c.entry } = true := loses
      rw [editFirst_append losers.1 passed loses, ih losers.2 still, settledIn, triggered_edited,
        settledIn, first]
      rfl
    · rename_i absent
      have skipped : triggered (row :: rows) (before ++ c :: after) =
          triggered rows (before ++ c :: after) := List.filter_cons_of_neg absent
      rw [ih losers.2 loses, settledIn, settledIn, skipped]

/-- The conflicts edit the first default entry of `standard-js`, all of them. -/
theorem apply_append (passed : ∀ d ∈ before, givesWay d = false) (loses : givesWay c = true) :
    apply (before ++ c :: after) = before ++ settledIn table (before ++ c :: after) c :: after :=
  foldl_applyRow_append table_losers passed loses

theorem apply_none (none : ∀ c ∈ layers, givesWay c = false) : apply layers = layers :=
  foldl_applyRow_none table_losers none

theorem findIdx?_givesWay (passed : ∀ d ∈ before, givesWay d = false) (loses : givesWay c = true) :
    (before ++ c :: after).findIdx? givesWay = some before.length := by
  rw [List.findIdx?_append, List.findIdx?_eq_none_iff.mpr passed, List.findIdx?_cons, loses]
  simp

theorem getElem?_other (before after : List ComposedLayer) {c d : ComposedLayer} {i : Nat}
    (apart : i ≠ before.length) : (before ++ c :: after)[i]? = (before ++ d :: after)[i]? := by
  rw [List.getElem?_append, List.getElem?_append]
  split
  · rfl
  · obtain ⟨n, offset⟩ : ∃ n, i - before.length = n + 1 := ⟨i - before.length - 1, by omega⟩
    rw [offset, List.getElem?_cons_succ, List.getElem?_cons_succ]

/-- Either no element can be edited, or the first that can is edited, and no other one. -/
theorem apply_cases (layers : List ComposedLayer) :
    (apply layers = layers ∧ layers.findIdx? givesWay = none) ∨
    ∃ before c after, layers = before ++ c :: after ∧ (∀ d ∈ before, givesWay d = false) ∧
      givesWay c = true ∧ apply layers = before ++ settledIn table layers c :: after := by
  by_cases none : ∀ c ∈ layers, givesWay c = false
  · exact .inl ⟨apply_none none, List.findIdx?_eq_none_iff.mpr none⟩
  · obtain ⟨c, loses⟩ : ∃ c, layers.find? givesWay = some c := by
      rw [← Option.isSome_iff_exists, List.find?_isSome]
      simpa using none
    obtain ⟨held, before, after, rfl, passed⟩ := List.find?_eq_some_iff_append.mp loses
    have passed' : ∀ d ∈ before, givesWay d = false := by simpa using passed
    exact .inr ⟨before, c, after, rfl, passed', held, apply_append passed' held⟩

theorem exists_winner (filled : triggered table layers ≠ []) :
    ∃ c ∈ layers, c.layer = .stylistic ∨ c.layer = .style := by
  obtain ⟨row, member⟩ := List.exists_mem_of_ne_nil _ filled
  obtain ⟨listed, present⟩ := List.mem_filter.mp member
  obtain ⟨c, inside, wins⟩ := List.any_eq_true.mp present
  refine ⟨c, inside, ?_⟩
  rw [beq_iff_eq] at wins
  rcases List.mem_pair.mp listed with rfl | rfl
  · exact .inl wins
  · exact .inr wins

theorem mem_triggered : row ∈ triggered rows layers ↔
    row ∈ rows ∧ ∃ c ∈ layers, c.layer = row.winner := by
  simp [triggered]

theorem settled_triggered (layers : List ComposedLayer) (e : Entry) :
    ∀ row ∈ triggered table layers, row.Settled (editAll (triggered table layers) e) :=
  settled_editAll (fun row member => coherent_table row (List.mem_filter.mp member).1)
    (apart_table.filter _) e

/-- The conflicts are settled for good: once more changes nothing. -/
theorem apply_apply (layers : List ComposedLayer) : apply (apply layers) = apply layers := by
  rcases apply_cases layers with ⟨kept, -⟩ | ⟨before, c, after, shape, passed, loses, edited⟩
  · rw [kept, kept]
  · have still : givesWay (settledIn table layers c) = true := loses
    rw [edited, apply_append passed still]
    simp only [settledIn, triggered_edited, ← shape]
    rw [editAll_settled (settled_triggered layers c.entry)]

/-- Settling the conflicts keeps the length of the list, the layer and the origin of every element
    and what the entries hold besides rules. The entry of the first default `standard-js` element is
    the only one that can change, and it does so only beside `stylistic` or `style`; after that it
    has none of the rules that a present winner takes from it, and omits them all. A second time
    changes nothing. -/
theorem conflicts_edit_first_default (layers : List ComposedLayer) :
    (apply layers).length = layers.length ∧
    (∀ (i : Nat) (old new : ComposedLayer),
      layers[i]? = some old → (apply layers)[i]? = some new →
      new.layer = old.layer ∧ new.isDefault = old.isDefault ∧
      new.entry.besideRules = old.entry.besideRules ∧
      (new.entry ≠ old.entry → layers.findIdx? givesWay = some i ∧
        ∃ c ∈ layers, c.layer = .stylistic ∨ c.layer = .style) ∧
      (layers.findIdx? givesWay = some i → ∀ row ∈ table, (∃ c ∈ layers, c.layer = row.winner) →
        ∀ rule ∈ row.omitted,
          rule ∉ new.entry.rules.map (·.1) ∧ rule ∈ new.entry.omitRules)) ∧
    apply (apply layers) = apply layers := by
  refine ⟨?_, ?_, apply_apply layers⟩
  · rcases apply_cases layers with ⟨kept, -⟩ | ⟨before, c, after, shape, -, -, edited⟩
    · rw [kept]
    · rw [edited, shape]
      simp
  · intro i old new atOld atNew
    rcases apply_cases layers with ⟨kept, nowhere⟩ |
      ⟨before, c, after, shape, passed, loses, edited⟩
    · rw [kept, atOld] at atNew
      cases atNew
      refine ⟨rfl, rfl, rfl, fun changed => absurd rfl changed, ?_⟩
      rw [nowhere]
      exact fun found => nomatch found
    · have place : layers.findIdx? givesWay = some before.length := by
        rw [shape]
        exact findIdx?_givesWay passed loses
      by_cases here : i = before.length
      · rw [shape, here] at atOld
        rw [edited, here] at atNew
        simp only [List.getElem?_append_right (Nat.le_refl _), Nat.sub_self,
          List.getElem?_cons_zero, Option.some.injEq] at atOld atNew
        subst atOld atNew
        refine ⟨rfl, rfl, editAll_frame _ _, ?_, ?_⟩
        · intro changed
          refine ⟨by rw [place, here], exists_winner ?_⟩
          intro none
          rw [settledIn, none] at changed
          exact changed rfl
        · intro _ row listed present rule member
          have settled := settled_triggered layers c.entry row (mem_triggered.mpr ⟨listed, present⟩)
          exact ⟨settled.unset rule member, settled.omitted rule member⟩
      · have same : (apply layers)[i]? = layers[i]? := by
          rw [edited, shape]
          exact getElem?_other before after here
        rw [same, atOld] at atNew
        cases atNew
        refine ⟨rfl, rfl, rfl, fun changed => absurd rfl changed, ?_⟩
        rw [place]
        exact fun found => absurd (Option.some.inj found).symm here

/-- An entry of the user comes before two default ones, and the first of these has rules that it
    must lose and one that it must change. -/
def crowdedLayers : List ComposedLayer := [
  ⟨.standardJs, { rules := [("key-spacing", .null)] }, false⟩,
  ⟨.style, {}, false⟩,
  ⟨.standardJs, {
    rules := [("no-unused-vars", .null), ("key-spacing", .null), ("semi", .null)]
    omitRules := ["key-spacing"] }, true⟩,
  ⟨.standardJs, {}, true⟩]

theorem conflicts_edit_first_default_sample : ∃ new, (apply crowdedLayers)[2]? = some new ∧
    "key-spacing" ∉ new.entry.rules.map (·.1) ∧ "key-spacing" ∈ new.entry.omitRules ∧
    apply (apply crowdedLayers) = apply crowdedLayers := by
  obtain ⟨-, each, again⟩ := conflicts_edit_first_default crowdedLayers
  obtain ⟨new, place⟩ : ∃ new, (apply crowdedLayers)[2]? = some new := ⟨_, rfl⟩
  obtain ⟨-, -, -, -, settled⟩ := each 2 _ new rfl place
  obtain ⟨unset, omitted⟩ := settled (by decide) table[1] (List.getElem_mem _)
    ⟨⟨.style, {}, false⟩, by simp [crowdedLayers], rfl⟩ "key-spacing" (by decide)
  exact ⟨new, place, unset, omitted, again⟩

end Suppression

end FormatLint
