import FormatLint.Json.Basic

/-!
Objects whose keys are distinct at every depth. The operations on members keep them so.
-/

namespace FormatLint

namespace Json

mutual

def distinct : Json → Bool
  | .array items => distinctItems items
  | .object members => decide (members.map (·.1)).Nodup && distinctMembers members
  | _ => true

def distinctItems : List Json → Bool
  | [] => true
  | item :: items => distinct item && distinctItems items

def distinctMembers : List (String × Json) → Bool
  | [] => true
  | (_, value) :: members => distinct value && distinctMembers members

end

theorem distinctItems_iff {items : List Json} :
    distinctItems items = true ↔ ∀ item ∈ items, item.distinct = true := by
  induction items with
  | nil => simp [distinctItems]
  | cons item items ih => simp [distinctItems, ih]

theorem distinctMembers_iff {members : Members} :
    distinctMembers members = true ↔ ∀ m ∈ members, m.2.distinct = true := by
  induction members with
  | nil => simp [distinctMembers]
  | cons m members ih => simp [distinctMembers, ih]

theorem distinct_strings (texts : List String) : (strings texts).distinct = true := by
  rw [strings, distinct, distinctItems_iff]
  intro item member
  obtain ⟨text, -, rfl⟩ := List.mem_map.mp member
  rfl

end Json

namespace Members

/-- The keys are distinct, and so they are within every value. -/
def Distinct (members : Members) : Prop := (Json.object members).distinct = true

variable {members : Members} {key : String} {value : Json}

theorem distinct_iff :
    Distinct members ↔ (members.map (·.1)).Nodup ∧ ∀ m ∈ members, m.2.distinct = true := by
  rw [Distinct, Json.distinct, Bool.and_eq_true, decide_eq_true_iff, Json.distinctMembers_iff]

theorem Distinct.nil : Distinct [] := rfl

theorem mem_insert {m : String × Json} (member : m ∈ members.insert key value) :
    m = (key, value) ∨ m ∈ members := by
  induction members with
  | nil => exact .inl (List.mem_singleton.mp member)
  | cons first members ih =>
    rw [insert] at member
    split at member
    · rename_i same
      rcases List.mem_cons.mp member with rfl | inside
      · exact .inl (by rw [same])
      · exact .inr (List.mem_cons_of_mem _ inside)
    · rcases List.mem_cons.mp member with rfl | inside
      · exact .inr List.mem_cons_self
      · rcases ih inside with new | old
        · exact .inl new
        · exact .inr (List.mem_cons_of_mem _ old)

theorem mem_keys_insert {k : String} (member : k ∈ (members.insert key value).map (·.1)) :
    k = key ∨ k ∈ members.map (·.1) := by
  obtain ⟨m, inside, rfl⟩ := List.mem_map.mp member
  rcases mem_insert inside with rfl | old
  · exact .inl rfl
  · exact .inr (List.mem_map_of_mem old)

theorem nodup_insert (nodup : (members.map (·.1)).Nodup) :
    ((members.insert key value).map (·.1)).Nodup := by
  induction members with
  | nil => simp [insert]
  | cons first members ih =>
    rw [List.map_cons, List.nodup_cons] at nodup
    rw [insert]
    split
    · rw [List.map_cons, List.nodup_cons]
      exact nodup
    · rename_i other
      rw [List.map_cons, List.nodup_cons]
      refine ⟨?_, ih nodup.2⟩
      intro again
      rcases mem_keys_insert again with same | old
      · exact other same
      · exact nodup.1 old

theorem nodup_insertAll (more : Members) (nodup : (members.map (·.1)).Nodup) :
    ((members.insertAll more).map (·.1)).Nodup := by
  induction more generalizing members with
  | nil => exact nodup
  | cons m more ih => exact ih (nodup_insert nodup)

theorem Distinct.insert (distinct : Distinct members) (inside : value.distinct = true) :
    Distinct (members.insert key value) := by
  obtain ⟨nodup, each⟩ := distinct_iff.mp distinct
  refine distinct_iff.mpr ⟨nodup_insert nodup, ?_⟩
  intro m member
  rcases mem_insert member with rfl | old
  · exact inside
  · exact each m old

theorem Distinct.append {more : Members} (first : Distinct members) (second : Distinct more)
    (apart : ∀ k ∈ members.map (·.1), k ∉ more.map (·.1)) : Distinct (members ++ more) := by
  rw [distinct_iff] at first second ⊢
  rw [List.map_append, List.nodup_append]
  refine ⟨⟨first.1, second.1, ?_⟩, ?_⟩
  · intro k inside j member same
    exact apart k inside (same ▸ member)
  · intro m member
    rcases List.mem_append.mp member with inside | inside
    · exact first.2 m inside
    · exact second.2 m inside

theorem erase_new {members : Members} {key : String} (new : key ∉ members.map (·.1)) :
    members.erase key = members := by
  rw [erase, List.filter_eq_self]
  intro m member
  have apart : m.1 ≠ key := by
    intro same
    exact new (same ▸ List.mem_map_of_mem member)
  simpa using apart

theorem insert_new {members : Members} {key : String} (new : key ∉ members.map (·.1))
    (value : Json) : members.insert key value = members ++ [(key, value)] := by
  induction members with
  | nil => rfl
  | cons m members ih =>
    rw [List.map_cons, List.mem_cons, not_or] at new
    rw [insert, if_neg (Ne.symm new.1), ih new.2, List.cons_append]

theorem insertAll_new {members more : Members} (distinct : (more.map (·.1)).Nodup)
    (new : ∀ m ∈ more, m.1 ∉ members.map (·.1)) : members.insertAll more = members ++ more := by
  induction more generalizing members with
  | nil => simp [insertAll]
  | cons m more ih =>
    rw [List.map_cons, List.nodup_cons] at distinct
    have first := insert_new (new m List.mem_cons_self) m.2
    have rest : ∀ other ∈ more, other.1 ∉ (members ++ [m]).map (·.1) := by
      intro other member
      rw [List.map_append, List.mem_append, not_or]
      refine ⟨new other (List.mem_cons_of_mem _ member), ?_⟩
      intro same
      have equal : other.1 = m.1 := by simpa using same
      exact distinct.1 (equal ▸ List.mem_map_of_mem member)
    have after : (members ++ [m]).insertAll more = members ++ [m] ++ more := ih distinct.2 rest
    rw [insertAll, List.foldl_cons]
    rw [List.append_assoc, List.singleton_append] at after
    rw [← after, insertAll]
    exact congrArg (fun start => more.foldl _ start) first

theorem get?_eq_lookup (members : Members) (key : String) :
    members.get? key = members.lookup key := by
  induction members with
  | nil => rfl
  | cons m members ih =>
    obtain ⟨k, v⟩ := m
    by_cases same : k = key
    · simp [get?, same]
    · have apart : (k == key) = false := by simpa using same
      have apart' : (key == k) = false := by simpa using Ne.symm same
      simp only [get?, List.find?_cons, List.lookup_cons, apart, apart']
      exact ih

end Members

end FormatLint
