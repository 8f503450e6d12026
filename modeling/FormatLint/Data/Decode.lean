import FormatLint.Data.Datum

/-!
Decoding: from a datum to a value of the type that is wanted. A `View` says how the datum is
looked at. In a file that is read directly the spelling of a scalar can stand for a text and an
absent value for an empty collection, as far as the format allows it; a value that was held back
while the rest of its map was read has lost both.
-/

namespace FormatLint

inductive DecodeFault where
  | expected (what : String)
  | duplicateField (name : String)
  | missingField (name : String)
  | unknownField (name : String)
  | unusable
  /-- The decoded value was refused. -/
  | refused (reason : String)
deriving DecidableEq

def DecodeFault.message : DecodeFault → String
  | expected what => s!"invalid type: expected {what}"
  | duplicateField name => s!"duplicate field: {name}"
  | missingField name => s!"missing field: {name}"
  | unknownField name => s!"unknown field: {name}"
  | unusable => "value out of range"
  | refused reason => reason

abbrev Decoded := Except DecodeFault

/-- How a datum is looked at. -/
inductive View where
  | json
  | yaml
  | toml
  /-- After it was held back, in any format. -/
  | held
deriving DecidableEq

namespace View

/-- Whether an absent value stands for an empty list or map. -/
def absentIsEmpty : View → Bool
  | yaml => true
  | _ => false

def wordText (v : View) (w : Word) : Option String :=
  let typed := match w.value with
    | .text s => some s
    | _ => none
  if v = held then typed else w.written.or typed

end View

namespace Datum

/-- The datum without the variant names around it. -/
def untagged : Datum → Datum
  | .tagged _ inner => inner.untagged
  | other => other

def isNull : Datum → Bool
  | .scalar w => w.value == .null
  | _ => false

def text? (v : View) : Datum → Decoded String
  | .scalar w =>
    match v.wordText w with
    | some s => .ok s
    | none => .error (.expected "a string")
  | .tagged _ inner => if v = .held then .error .unusable else inner.text? v
  | _ => .error (.expected "a string")

def bool? : Datum → Decoded Bool
  | .scalar ⟨_, .bool b⟩ => .ok b
  | _ => .error (.expected "a boolean")

/-- A natural number below `bound`. -/
def natBelow? (bound : Nat) : Datum → Decoded Nat
  | .scalar ⟨_, .integer (.ofNat n)⟩ => if n < bound then .ok n else .error .unusable
  | _ => .error (.expected "a number")

def items? (v : View) (d : Datum) : Decoded (List Datum) :=
  match (if v = .held then d else d.untagged) with
  | .list items => .ok items
  | other =>
    if v.absentIsEmpty && other.isNull then .ok [] else .error (.expected "a sequence")

def entries? (v : View) (d : Datum) : Decoded (List (Word × Datum)) :=
  match (if v = .held then d else d.untagged) with
  | .map entries => .ok entries
  | other => if v.absentIsEmpty && other.isNull then .ok [] else .error (.expected "a map")

/-- An optional value: null is none. -/
def option? (decode : Datum → Decoded α) (d : Datum) : Decoded (Option α) :=
  if d.isNull then .ok none else (decode d).map some

def list? (v : View) (decode : Datum → Decoded α) (d : Datum) : Decoded (List α) := do
  (← d.items? v).mapM decode

def key? (v : View) (key : Word) : Decoded String :=
  match v.wordText key with
  | some s => .ok s
  | none => .error (.expected "a string key")

mutual

/-- Any value as JSON. Numbers that are not finite become null. -/
def json? (v : View) : Datum → Decoded Json
  | .scalar w =>
    match w.value with
    | .null => .ok .null
    | .bool b => .ok (.bool b)
    | .integer i =>
      if -(Int.pow 2 63) ≤ i ∧ i < Int.pow 2 64 then .ok (.number (.integer i)) else .error .unusable
    | .double x => .ok (if x.isFinite then .number (.double x) else .null)
    | .text s => .ok (.string s)
    | .unusable => .error .unusable
  | .list items =>
    match jsonItems? v items with
    | .ok values => .ok (.array values)
    | .error e => .error e
  | .map entries =>
    match jsonEntries? v [] entries with
    | .ok members => .ok (.object members)
    | .error e => .error e
  | .tagged _ _ => .error .unusable

def jsonItems? (v : View) : List Datum → Decoded (List Json)
  | [] => .ok []
  | item :: items =>
    match json? v item with
    | .error e => .error e
    | .ok value =>
      match jsonItems? v items with
      | .error e => .error e
      | .ok values => .ok (value :: values)

/-- The entries as members after those in `done`; a repeated key keeps its first place and takes
    its last value. -/
def jsonEntries? (v : View) (done : Members) : List (Word × Datum) → Decoded Members
  | [] => .ok done
  | (key, value) :: entries =>
    match key? v key with
    | .error e => .error e
    | .ok name =>
      match json? v value with
      | .error e => .error e
      | .ok json => jsonEntries? v (done.insert name json) entries

end

/-- A map from names to free values. -/
def members? (v : View) (d : Datum) : Decoded Members := do
  jsonEntries? v [] (← d.entries? v)

/-- The entries of a record: its keys as names, in order. -/
def fields? (v : View) (d : Datum) : Decoded (List (String × Datum)) := do
  (← d.entries? v).mapM fun (key, value) => return (← key? v key, value)

/-- The value of a field that a record may hold at most once. -/
def field? (fields : List (String × Datum)) (name : String) : Decoded (Option Datum) :=
  match fields.filter (·.1 == name) with
  | [] => .ok none
  | [(_, value)] => .ok (some value)
  | _ => .error (.duplicateField name)

/-- A field with a value that stands in when it is absent. -/
def fieldOr (fields : List (String × Datum)) (name : String) (fallback : α)
    (decode : Datum → Decoded α) : Decoded α := do
  match ← field? fields name with
  | some value => decode value
  | none => return fallback

/-- The name of a variant that carries nothing. Each format spells it as a text, and each has a
    longer spelling as well. -/
def variant? (v : View) : Datum → Decoded String
  | .tagged tag inner =>
    if v = .yaml && inner.isNull then .ok tag else .error (.expected "a variant")
  | .scalar w =>
    match v.wordText w with
    | some s => .ok s
    | none => .error (.expected "a variant")
  | .map [(key, inner)] =>
    let carriesNothing := match v, inner with
      | .json, inner => inner.isNull
      | .toml, .map entries => entries.isEmpty
      | .toml, .list items => items.isEmpty
      | .held, inner => inner.isNull
      | _, _ => false
    if carriesNothing then key? v key else .error (.expected "a variant")
  | _ => .error (.expected "a variant")

end Datum

end FormatLint
