import FormatLint.Data.Decode
import FormatLint.Proofs.Json.Distinct

/-!
JSON values as data. A value that JSON can hold is read back as it was written, and the members of
an object are its fields.
-/

namespace FormatLint

namespace Json

mutual

/-- A value as what a reader gives to decoding. -/
def datum : Json → Datum
  | .null => .null
  | .bool b => .ofScalar (.bool b)
  | .number (.integer i) => .ofScalar (.integer i)
  | .number (.double x) => .ofScalar (.double x)
  | .string s => .text s
  | .array items => .list (itemData items)
  | .object members => .map (memberData members)

def itemData : List Json → List Datum
  | [] => []
  | item :: items => datum item :: itemData items

def memberData : List (String × Json) → List (Word × Datum)
  | [] => []
  | (key, value) :: members => ({ value := .text key }, datum value) :: memberData members

end

mutual

/-- Integers have 64 bits and doubles are finite. -/
def inRange : Json → Bool
  | .number (.integer i) => decide (-(Int.pow 2 63) ≤ i ∧ i < Int.pow 2 64)
  | .number (.double x) => x.isFinite
  | .array items => inRangeItems items
  | .object members => inRangeMembers members
  | _ => true

def inRangeItems : List Json → Bool
  | [] => true
  | item :: items => inRange item && inRangeItems items

def inRangeMembers : List (String × Json) → Bool
  | [] => true
  | (_, value) :: members => inRange value && inRangeMembers members

end

/-- A value that a JSON text can have: distinct keys, and numbers in range. -/
structure IsValue (json : Json) : Prop where
  distinct : json.distinct = true
  inRange : json.inRange = true

theorem itemData_eq_map (items : List Json) : itemData items = items.map datum := by
  induction items with
  | nil => rfl
  | cons item items ih => rw [itemData, ih, List.map_cons]

theorem memberData_eq_map (members : Members) :
    memberData members = members.map fun m => ({ value := .text m.1 }, m.2.datum) := by
  induction members with
  | nil => rfl
  | cons m members ih => rw [memberData, ih, List.map_cons]

theorem inRangeItems_iff {items : List Json} :
    inRangeItems items = true ↔ ∀ item ∈ items, item.inRange = true := by
  induction items with
  | nil => simp [inRangeItems]
  | cons item items ih => simp [inRangeItems, ih]

theorem inRangeMembers_iff {members : Members} :
    inRangeMembers members = true ↔ ∀ m ∈ members, m.2.inRange = true := by
  induction members with
  | nil => simp [inRangeMembers]
  | cons m members ih => simp [inRangeMembers, ih]

theorem isValue_array {items : List Json} :
    IsValue (.array items) ↔ ∀ item ∈ items, item.IsValue := by
  constructor
  · intro value item member
    exact ⟨distinctItems_iff.mp value.distinct item member,
      inRangeItems_iff.mp value.inRange item member⟩
  · intro each
    exact ⟨distinctItems_iff.mpr fun item member => (each item member).distinct,
      inRangeItems_iff.mpr fun item member => (each item member).inRange⟩

theorem isValue_object {members : Members} :
    IsValue (.object members) ↔ (members.map (·.1)).Nodup ∧ ∀ m ∈ members, m.2.IsValue := by
  constructor
  · intro value
    obtain ⟨keys, inside⟩ := Members.distinct_iff.mp value.distinct
    exact ⟨keys, fun m member => ⟨inside m member, inRangeMembers_iff.mp value.inRange m member⟩⟩
  · rintro ⟨keys, each⟩
    exact ⟨Members.distinct_iff.mpr ⟨keys, fun m member => (each m member).distinct⟩,
      inRangeMembers_iff.mpr fun m member => (each m member).inRange⟩

theorem isNull_datum {json : Json} : json.datum.isNull = true ↔ json = .null := by
  cases json with
  | number n => cases n <;> simp [datum, Datum.isNull, Datum.ofScalar]
  | _ => simp [datum, Datum.isNull, Datum.null, Datum.ofScalar, Datum.text]

end Json

theorem Decoded.ok_bind {α β : Type} (a : α) (f : α → Decoded β) :
    ((.ok a : Decoded α) >>= f) = f a := rfl

theorem mapM_eq_pure {μ : Type → Type} [Monad μ] [LawfulMonad μ] {α β : Type} {f : α → μ β}
    {g : α → β} {items : List α} (each : ∀ item ∈ items, f item = pure (g item)) :
    items.mapM f = pure (items.map g) := by
  induction items with
  | nil => rfl
  | cons item items ih =>
    rw [List.mapM_cons, each item List.mem_cons_self,
      ih fun other member => each other (List.mem_cons_of_mem _ member)]
    simp

theorem View.wordText_text (v : View) (text : String) :
    v.wordText { value := .text text } = some text := by
  cases v <;> rfl

namespace Datum

variable {v : View}

theorem key?_text (v : View) (text : String) : key? v { value := .text text } = .ok text := by
  rw [key?, v.wordText_text]

theorem text?_datum (v : View) (text : String) : (Json.string text).datum.text? v = .ok text := by
  rw [Json.datum, Datum.text, ofScalar, text?, v.wordText_text]

mutual

/-- What JSON can hold comes back from its datum. -/
theorem json?_datum (json : Json) (value : json.IsValue) : json.datum.json? v = .ok json := by
  match json with
  | .null => rfl
  | .bool b => rfl
  | .string s => rfl
  | .number (.integer i) =>
    have range := of_decide_eq_true value.inRange
    simp only [Json.datum, ofScalar, json?, if_pos range]
  | .number (.double x) =>
    have finite : x.isFinite = true := value.inRange
    simp only [Json.datum, ofScalar, json?, finite, if_true]
  | .array items =>
    rw [Json.datum, json?, jsonItems?_data items (Json.isValue_array.mp value)]
  | .object members =>
    obtain ⟨keys, each⟩ := Json.isValue_object.mp value
    rw [Json.datum, json?, jsonEntries?_data members [] keys each]
    rfl

theorem jsonItems?_data (items : List Json) (each : ∀ item ∈ items, item.IsValue) :
    jsonItems? v (Json.itemData items) = .ok items := by
  match items with
  | [] => rfl
  | item :: items =>
    rw [Json.itemData, jsonItems?, json?_datum item (each item List.mem_cons_self),
      jsonItems?_data items fun other member => each other (List.mem_cons_of_mem _ member)]

/-- Members with new keys come after those that are done. -/
theorem jsonEntries?_data (members done : Members) (keys : ((done ++ members).map (·.1)).Nodup)
    (each : ∀ m ∈ members, m.2.IsValue) :
    jsonEntries? v done (Json.memberData members) = .ok (done ++ members) := by
  match members with
  | [] => simp [Json.memberData, jsonEntries?]
  | (key, value) :: members =>
    have new : key ∉ done.map (·.1) := by
      rw [List.map_append, List.nodup_append] at keys
      exact fun member => keys.2.2 key member key (by simp) rfl
    have later : ((done ++ [(key, value)] ++ members).map (·.1)).Nodup := by
      rwa [List.append_assoc]
    rw [Json.memberData, jsonEntries?, key?_text]
    dsimp only
    rw [json?_datum value (each _ List.mem_cons_self)]
    dsimp only
    rw [Members.insert_new new, jsonEntries?_data members _ later fun m member =>
      each m (List.mem_cons_of_mem _ member), List.append_assoc]
    rfl

end

/-- The fields that an object has. -/
def fieldsOf (members : Members) : List (String × Datum) := members.map fun m => (m.1, m.2.datum)

theorem entries?_datum (v : View) (members : Members) :
    (Json.object members).datum.entries? v = .ok (Json.memberData members) := by
  cases v <;> rfl

theorem items?_datum (v : View) (items : List Json) :
    (Json.array items).datum.items? v = .ok (items.map Json.datum) := by
  rw [← Json.itemData_eq_map]
  cases v <;> rfl

theorem fields?_datum (v : View) (members : Members) :
    (Json.object members).datum.fields? v = .ok (fieldsOf members) := by
  rw [fields?, entries?_datum, Json.memberData_eq_map]
  change (members.map _).mapM _ = _
  rw [List.mapM_map]
  refine mapM_eq_pure fun m _ => ?_
  rw [Function.comp_apply]
  dsimp only
  rw [key?_text]
  rfl

theorem members?_datum {members : Members} (value : (Json.object members).IsValue) :
    (Json.object members).datum.members? v = .ok members := by
  obtain ⟨keys, each⟩ := Json.isValue_object.mp value
  rw [members?, entries?_datum]
  exact jsonEntries?_data members [] keys each

/-- The list of what is decoded from some values is the list of the values, if each of them is. -/
theorem list?_datum {decode : Datum → Decoded α} {encode : α → Json} {values : List α}
    (each : ∀ value ∈ values, decode (encode value).datum = .ok value) :
    (Json.array (values.map encode)).datum.list? v decode = .ok values := by
  rw [list?, items?_datum, List.map_map]
  change (values.map _).mapM decode = _
  have decoded : values.mapM (decode ∘ Json.datum ∘ encode) = .ok (values.map id) :=
    mapM_eq_pure each
  rw [List.mapM_map, decoded, List.map_id]

theorem field?_fieldsOf {members : Members} (keys : (members.map (·.1)).Nodup) (name : String) :
    field? (fieldsOf members) name = .ok ((members.get? name).map Json.datum) := by
  induction members with
  | nil => rfl
  | cons m members ih =>
    rw [List.map_cons, List.nodup_cons] at keys
    have rest := ih keys.2
    rw [fieldsOf, List.map_cons, field?]
    by_cases same : m.1 = name
    · -- no other member has the name
      have none : (members.map fun m => (m.1, m.2.datum)).filter (·.1 == name) = [] := by
        rw [List.filter_eq_nil_iff]
        intro field member
        obtain ⟨other, inside, rfl⟩ := List.mem_map.mp member
        have apart : other.1 ≠ name := by
          rintro rfl
          exact keys.1 (same ▸ List.mem_map_of_mem inside)
        simpa using apart
      rw [List.filter_cons_of_pos (by simpa using same), none]
      simp [Members.get?, same]
    · rw [List.filter_cons_of_neg (by simpa using same)]
      have skipped : Members.get? (m :: members) name = Members.get? members name := by
        simp [Members.get?, same]
      rw [skipped]
      exact rest

/-- A field of an object is decoded from the member of its name. -/
theorem fieldOr_fieldsOf {members : Members} (keys : (members.map (·.1)).Nodup) (name : String)
    (fallback : α) (decode : Datum → Decoded α) :
    fieldOr (fieldsOf members) name fallback decode =
      match members.get? name with
      | some json => decode json.datum
      | none => .ok fallback := by
  rw [fieldOr, field?_fieldsOf keys]
  cases members.get? name <;> rfl

theorem option?_datum {decode : Datum → Decoded α} {json : Json} {value : α} (filled : json ≠ .null)
    (decoded : decode json.datum = .ok value) : json.datum.option? decode = .ok (some value) := by
  have notNull : json.datum.isNull = false := by
    rw [← Bool.not_eq_true, Json.isNull_datum]
    exact filled
  rw [option?, notNull, decoded]
  rfl

/-- An optional field that is written as a member comes back. -/
theorem fieldOr_optional {members : Members} (keys : (members.map (·.1)).Nodup) {name : String}
    {value : Option α} {encode : α → Json} {decode : Datum → Decoded α}
    (got : members.get? name = value.map encode)
    (decoded : ∀ a ∈ value, encode a ≠ .null ∧ decode (encode a).datum = .ok a) :
    fieldOr (fieldsOf members) name none (option? decode) = .ok value := by
  rw [fieldOr_fieldsOf keys, got]
  cases value with
  | none => rfl
  | some a =>
    obtain ⟨filled, read⟩ := decoded a rfl
    exact option?_datum filled read

end Datum

end FormatLint
