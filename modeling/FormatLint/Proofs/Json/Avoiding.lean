import FormatLint.Json.Basic

/-!
Values in which no member has a given key, at any depth.
-/

namespace FormatLint.Json

variable {key : String}

mutual

def avoids (key : String) : Json → Bool
  | .array items => avoidsItems key items
  | .object members => avoidsMembers key members
  | _ => true

def avoidsItems (key : String) : List Json → Bool
  | [] => true
  | item :: items => avoids key item && avoidsItems key items

def avoidsMembers (key : String) : List (String × Json) → Bool
  | [] => true
  | (k, value) :: members => k != key && avoids key value && avoidsMembers key members

end

theorem avoids_array_iff {items : List Json} :
    (array items).avoids key = true ↔ ∀ item ∈ items, item.avoids key = true := by
  rw [avoids]
  induction items with
  | nil => simp [avoidsItems]
  | cons item items ih => simp [avoidsItems, ih]

theorem avoids_object_iff {members : Members} :
    (object members).avoids key = true ↔
      key ∉ members.map (·.1) ∧ ∀ m ∈ members, m.2.avoids key = true := by
  rw [avoids]
  induction members with
  | nil => simp [avoidsMembers]
  | cons m members ih =>
    rw [avoidsMembers, Bool.and_eq_true, Bool.and_eq_true, ih, bne_iff_ne, List.map_cons,
      List.mem_cons, not_or, List.forall_mem_cons, ne_comm]
    constructor
    · intro ⟨⟨apart, first⟩, new, rest⟩
      exact ⟨⟨apart, new⟩, first, rest⟩
    · intro ⟨⟨apart, new⟩, first, rest⟩
      exact ⟨⟨apart, first⟩, new, rest⟩

theorem avoids_strings (key : String) (texts : List String) :
    (strings texts).avoids key = true := by
  rw [strings, avoids_array_iff]
  intro item member
  obtain ⟨text, -, rfl⟩ := List.mem_map.mp member
  rfl

end FormatLint.Json
