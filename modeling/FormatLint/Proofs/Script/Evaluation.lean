import FormatLint.Proofs.Json.Avoiding
import FormatLint.Proofs.Json.Distinct
import FormatLint.Proofs.Script.Literal

/-!
What scripts mean. Packages come from outside and are known by their lookups and their own
properties only. A member of an object literal is an own property under its key, and a later key
wins; but the key `__proto__` makes no property. It names the prototype, which a spread does not
copy, and it does nothing where its value can be none. So data that is written as a literal is read
back as it was exactly if it has no such key.
-/

namespace FormatLint.Script

/-- The key that names the prototype in an object literal. -/
def prototypeKey : String := "__proto__"

/-- What a script can ask of the values that packages give it. -/
structure Host (ω : Type) where
  /-- The value under a key, if the lookup does not fail. -/
  member : ω → String → Option ω
  /-- The properties that a spread copies. -/
  own : ω → List (String × ω)
  own_distinct : ∀ w, ((own w).map (·.1)).Nodup
  /-- Whether a value can be a prototype: it is an object, or null. -/
  inheritable : ω → Bool

inductive Value (ω : Type) where
  | foreign (w : ω)
  | null
  | bool (value : Bool)
  /-- A number, known by its numeral. -/
  | number (text : List Char)
  | string (value : String)
  | array (items : List (Value ω))
  /-- An object: the prototype, where it is not the common one, and the own properties in the order
      in which they were made. -/
  | object (prototype : Option (Value ω)) (fields : List (String × Value ω))

abbrev Fields (ω : Type) := List (String × Value ω)

namespace Fields

variable {ω : Type}

/-- Gives a key a value, in its place when it is there. -/
def set (fields : Fields ω) (key : String) (value : Value ω) : Fields ω :=
  match fields with
  | [] => [(key, value)]
  | (k, v) :: rest => if k = key then (k, value) :: rest else (k, v) :: set rest key value

def assign (fields more : Fields ω) : Fields ω :=
  more.foldl (fun acc (key, value) => acc.set key value) fields

def delete (fields : Fields ω) (key : String) : Fields ω := fields.filter (·.1 != key)

/-- A copy of the rules without the given ones. -/
def without (rules : Fields ω) (ids : List String) : Fields ω :=
  ids.foldl delete (assign [] rules)

end Fields

namespace Value

variable {ω : Type}

/-- The fields that a spread copies; `none` where scripts here never spread. -/
def own (host : Host ω) : Value ω → Option (Fields ω)
  | foreign w => some ((host.own w).map fun (key, v) => (key, foreign v))
  | object _ fields => some fields
  | _ => none

def text? : Value ω → Option String
  | string value => some value
  | _ => none

def texts? : Value ω → Option (List String)
  | array items => items.mapM text?
  | _ => none

/-- The value under a key; `none` where scripts here never look one up. -/
def lookup (host : Host ω) (key : String) : Value ω → Option (Value ω)
  | foreign w => (host.member w key).map foreign
  | _ => none

/-- The own property of an object under a key. -/
def property? (key : String) : Value ω → Option (Value ω)
  | object _ fields => List.lookup key fields
  | _ => none

def inheritable (host : Host ω) : Value ω → Bool
  | foreign w => host.inheritable w
  | null | array _ | object _ _ => true
  | _ => false

end Value

/-- An object literal as far as it was read. -/
structure Draft (ω : Type) where
  /-- The value that `__proto__` was given. -/
  prototype : Option (Value ω) := none
  fields : Fields ω := []

namespace Draft

variable {ω : Type}

/-- Adds a member. No literal names its prototype twice. -/
def put (o : Draft ω) (key : String) (value : Value ω) : Option (Draft ω) :=
  if key = prototypeKey then
    if o.prototype.isSome then none else some { o with prototype := some value }
  else some { o with fields := o.fields.set key value }

def putAll (o : Draft ω) (members : Fields ω) : Option (Draft ω) :=
  members.foldlM (fun o (key, value) => o.put key value) o

def spread (o : Draft ω) (fields : Fields ω) : Draft ω :=
  { o with fields := o.fields.assign fields }

def finish (host : Host ω) (o : Draft ω) : Value ω :=
  .object (o.prototype.filter (·.inheritable host)) o.fields

end Draft

/-- The object of a literal with these members, no two of which have one key. -/
def Value.literal {ω : Type} (host : Host ω) (members : Fields ω) : Value ω :=
  Draft.finish host
    { prototype := members.lookup prototypeKey, fields := members.delete prototypeKey }

section

variable {ω : Type} (host : Host ω) (env : String → Option ω)

def word (text : String) : Option (Value ω) :=
  if text = "null" then some .null
  else if text = "true" then some (.bool true)
  else if text = "false" then some (.bool false)
  else (env text).map .foreign

mutual

def Expr.eval : Expr → Option (Value ω)
  | .word text => word env text
  | .number text => some (.number text)
  | .string value => some (.string value)
  | .array items => do return .array (← evalItems items)
  | .object parts => do return (← evalParts {} parts).finish host
  | .member of key => do (← of.eval).lookup host key
  | .call function first second =>
    if function = "omit" then do
      let rules ← (← first.eval).own host
      let ids ← (← second.eval).texts?
      return .object none (Fields.without rules ids)
    else none

def evalItems : List Expr → Option (List (Value ω))
  | [] => some []
  | item :: items => do return (← item.eval) :: (← evalItems items)

def evalParts (o : Draft ω) : List Part → Option (Draft ω)
  | [] => some o
  | .spread value :: parts => do evalParts (o.spread (← (← value.eval).own host)) parts
  | .property key value :: parts => do evalParts (← o.put key.text (← value.eval)) parts

end

end

/-- The values that a module exports, given the packages. No name is bound twice. -/
def Module.eval {ω : Type} (host : Host ω) (modules : String → ω) (m : Module) :
    Option (List (Value ω)) :=
  if ("omit" :: m.imports.map (·.1)).Nodup then
    evalItems host (fun name => (m.imports.lookup name).map modules) m.exports
  else none

namespace Fields

variable {ω : Type} {fields more : Fields ω}

theorem lookup_set (fields : Fields ω) (key : String) (value : Value ω) (k : String) :
    (fields.set key value).lookup k = if k = key then some value else fields.lookup k := by
  induction fields with
  | nil =>
    by_cases same : k = key
    · simp [set, same]
    · have apart : (k == key) = false := by simpa using same
      simp [set, List.lookup_cons, same, apart]
  | cons f fields ih =>
    obtain ⟨j, v⟩ := f
    rw [set]
    split
    · rename_i here
      subst here
      by_cases same : k = j
      · simp [same]
      · have apart : (k == j) = false := by simpa using same
        simp [List.lookup_cons, same, apart]
    · rename_i other
      rw [List.lookup_cons, List.lookup_cons, ih]
      by_cases first : k = j
      · have apart : k ≠ key := fun same => other (first ▸ same)
        simp [first, first ▸ apart]
      · have apart : (k == j) = false := by simpa using first
        simp [apart]

theorem lookup_new {key : String} (new : key ∉ fields.map (·.1)) : fields.lookup key = none := by
  rw [List.lookup_eq_none_iff]
  intro f member
  have apart : key ≠ f.1 := fun same => new (same ▸ List.mem_map_of_mem member)
  simpa using apart

/-- A copy over fields: the later value, else the one that was there. -/
theorem lookup_assign (fields : Fields ω) (distinct : (more.map (·.1)).Nodup) (k : String) :
    (fields.assign more).lookup k = (more.lookup k).or (fields.lookup k) := by
  induction more generalizing fields with
  | nil => rfl
  | cons f more ih =>
    obtain ⟨j, v⟩ := f
    rw [List.map_cons, List.nodup_cons] at distinct
    have rest : (assign fields ((j, v) :: more)).lookup k =
        (more.lookup k).or ((fields.set j v).lookup k) := ih _ distinct.2
    rw [rest, lookup_set, List.lookup_cons]
    by_cases first : k = j
    · simp [first, lookup_new distinct.1]
    · have apart : (k == j) = false := by simpa using first
      simp [first, apart]

theorem set_new {key : String} (value : Value ω) (new : key ∉ fields.map (·.1)) :
    fields.set key value = fields ++ [(key, value)] := by
  induction fields with
  | nil => rfl
  | cons f fields ih =>
    rw [List.map_cons, List.mem_cons, not_or] at new
    rw [set, if_neg (Ne.symm new.1), ih new.2, List.cons_append]

/-- Keys that are new to some fields are new to them when another of these keys is added. -/
theorem new_after {key : String} {value : Value ω} (distinct : key ∉ more.map (·.1))
    (new : ∀ k ∈ ((key, value) :: more).map (·.1), k ∉ fields.map (·.1)) :
    ∀ k ∈ more.map (·.1), k ∉ (fields ++ [(key, value)]).map (·.1) := by
  intro k member
  rw [List.map_append, List.mem_append, not_or]
  refine ⟨new k (List.mem_cons_of_mem _ member), ?_⟩
  intro same
  have equal : k = key := by simpa using same
  exact distinct (equal ▸ member)

theorem assign_new (distinct : (more.map (·.1)).Nodup)
    (new : ∀ k ∈ more.map (·.1), k ∉ fields.map (·.1)) : fields.assign more = fields ++ more := by
  induction more generalizing fields with
  | nil => simp [assign]
  | cons f more ih =>
    obtain ⟨key, value⟩ := f
    rw [List.map_cons, List.nodup_cons] at distinct
    have rest : assign fields ((key, value) :: more) = assign (fields.set key value) more := rfl
    rw [rest, set_new value (new key (by simp)), ih distinct.2 (new_after distinct.1 new),
      List.append_assoc, List.singleton_append]

theorem assign_nil (distinct : (more.map (·.1)).Nodup) : assign [] more = more :=
  assign_new distinct (by simp)

theorem nodup_set {key : String} {value : Value ω} (distinct : (fields.map (·.1)).Nodup) :
    ((fields.set key value).map (·.1)).Nodup := by
  by_cases old : key ∈ fields.map (·.1)
  · have keys : (fields.set key value).map (·.1) = fields.map (·.1) := by
      clear distinct
      induction fields with
      | nil => simp at old
      | cons f fields ih =>
        rw [set]
        split
        · rfl
        · rename_i other
          rcases List.mem_cons.mp old with first | later
          · exact absurd first.symm other
          · rw [List.map_cons, ih later, List.map_cons]
    rw [keys]
    exact distinct
  · rw [set_new value old, List.map_append, List.nodup_append]
    refine ⟨distinct, by simp, ?_⟩
    intro k inside j member same
    have equal : j = key := by simpa using member
    exact old (equal ▸ same ▸ inside)

theorem nodup_assign (distinct : (fields.map (·.1)).Nodup) :
    ((fields.assign more).map (·.1)).Nodup := by
  induction more generalizing fields with
  | nil => exact distinct
  | cons f more ih => exact ih (nodup_set distinct)

theorem lookup_delete (fields : Fields ω) (key k : String) :
    (fields.delete key).lookup k = if k = key then none else fields.lookup k := by
  induction fields with
  | nil => simp [delete]
  | cons f fields ih =>
    obtain ⟨j, v⟩ := f
    rw [delete, List.filter_cons]
    by_cases gone : j = key
    · by_cases same : k = key
      · simpa [gone, same, delete] using ih
      · have apart : (k == j) = false := by simpa [gone] using same
        simpa [gone, same, delete, List.lookup_cons, gone ▸ apart] using ih
    · rw [if_pos (by simpa using gone), List.lookup_cons, List.lookup_cons]
      by_cases first : k = j
      · simp [first, gone]
      · have apart : (k == j) = false := by simpa using first
        simpa [apart, delete] using ih

theorem lookup_without {rules : Fields ω} (distinct : (rules.map (·.1)).Nodup)
    (ids : List String) (k : String) :
    (rules.without ids).lookup k = if k ∈ ids then none else rules.lookup k := by
  rw [without, assign_nil distinct]
  clear distinct
  induction ids generalizing rules with
  | nil => simp
  | cons id ids ih =>
    rw [List.foldl_cons, ih, lookup_delete]
    by_cases later : k ∈ ids
    · simp [later]
    · by_cases here : k = id
      · simp [here]
      · simp [later, here]

theorem nodup_without {rules : Fields ω} (distinct : (rules.map (·.1)).Nodup)
    (ids : List String) : ((rules.without ids).map (·.1)).Nodup := by
  rw [without, assign_nil distinct]
  induction ids generalizing rules with
  | nil => exact distinct
  | cons id ids ih =>
    apply ih
    exact distinct.sublist (List.filter_sublist.map _)

theorem nodup_delete (distinct : (fields.map (·.1)).Nodup) (key : String) :
    ((fields.delete key).map (·.1)).Nodup :=
  distinct.sublist (List.filter_sublist.map _)

theorem not_mem_delete (fields : Fields ω) (key : String) :
    key ∉ (fields.delete key).map (·.1) := by
  simp [delete]

theorem delete_new {key : String} (new : key ∉ fields.map (·.1)) : fields.delete key = fields := by
  rw [delete, List.filter_eq_self]
  intro f member
  have apart : f.1 ≠ key := fun same => new (same ▸ List.mem_map_of_mem member)
  simpa using apart

end Fields

namespace Draft

variable {ω : Type}

theorem put_other {key : String} (other : key ≠ prototypeKey) (o : Draft ω) (value : Value ω) :
    o.put key value = some { o with fields := o.fields.set key value } := by
  rw [put, if_neg other]

theorem putAll_cons (o : Draft ω) (key : String) (value : Value ω) (members : Fields ω) :
    o.putAll ((key, value) :: members) = (o.put key value).bind fun o => o.putAll members := by
  rw [putAll, List.foldlM_cons]
  rfl

/-- Members with new keys: all but the prototype become properties. -/
theorem putAll_new (o : Draft ω) {members : Fields ω} (distinct : (members.map (·.1)).Nodup)
    (new : ∀ k ∈ members.map (·.1), k ∉ o.fields.map (·.1))
    (once : prototypeKey ∈ members.map (·.1) → o.prototype = none) :
    o.putAll members = some {
      prototype := (members.lookup prototypeKey).or o.prototype
      fields := o.fields ++ members.delete prototypeKey } := by
  induction members generalizing o with
  | nil => simp [putAll, Fields.delete]
  | cons m members ih =>
    obtain ⟨key, value⟩ := m
    rw [List.map_cons, List.nodup_cons] at distinct
    rw [putAll_cons]
    by_cases named : key = prototypeKey
    · subst named
      have unset : o.prototype = none := once (by simp)
      have absent : members.lookup prototypeKey = none := Fields.lookup_new distinct.1
      have rest := ih { o with prototype := some value } distinct.2
        (fun k member => new k (List.mem_cons_of_mem _ member))
        (fun again => absurd again distinct.1)
      rw [put, if_pos rfl, unset, Option.isSome_none, if_neg (by decide), Option.bind_some, rest]
      simp [absent, Fields.delete]
    · have apart : (prototypeKey == key) = false := by simpa using Ne.symm named
      have rest := ih { o with fields := o.fields ++ [(key, value)] } distinct.2
        (Fields.new_after distinct.1 new) (fun member => once (List.mem_cons_of_mem _ member))
      rw [put_other named, Option.bind_some, Fields.set_new value (new key (by simp)), rest]
      simp [List.lookup_cons, apart, Fields.delete, named]

/-- A literal with distinct keys is the object of its members. -/
theorem finish_putAll (host : Host ω) {members : Fields ω}
    (distinct : (members.map (·.1)).Nodup) :
    (putAll {} members).map (finish host) = some (.literal host members) := by
  rw [putAll_new {} distinct (by simp) (fun _ => rfl)]
  simp [Value.literal]

end Draft

theorem Value.literal_new {ω : Type} (host : Host ω) {members : Fields ω}
    (new : prototypeKey ∉ members.map (·.1)) :
    Value.literal host members = .object none members := by
  rw [Value.literal, Fields.lookup_new new, Fields.delete_new new]
  rfl

section

variable {ω : Type} (build : Fields ω → Value ω)

mutual

/-- Data as a value, where an object is built of its members in a given way. -/
def Value.ofJson : Json → Value ω
  | .null => .null
  | .bool b => .bool b
  | .number n => .number n.text
  | .string s => .string s
  | .array items => .array (ofJsonItems items)
  | .object members => build (ofJsonMembers members)

def ofJsonItems : List Json → List (Value ω)
  | [] => []
  | item :: items => .ofJson item :: ofJsonItems items

def ofJsonMembers : List (String × Json) → Fields ω
  | [] => []
  | (key, value) :: members => (key, .ofJson value) :: ofJsonMembers members

end

theorem ofJsonMembers_eq_map (members : Members) :
    ofJsonMembers build members = members.map fun m => (m.1, .ofJson build m.2) := by
  induction members with
  | nil => rfl
  | cons m members ih => rw [ofJsonMembers, ih, List.map_cons]

theorem keys_ofJsonMembers (members : Members) :
    (ofJsonMembers build members).map (·.1) = members.map (·.1) := by
  rw [ofJsonMembers_eq_map, List.map_map]
  rfl

theorem nodup_ofJsonMembers {members : Members} (distinct : Members.Distinct members) :
    ((ofJsonMembers build members).map (·.1)).Nodup := by
  rw [keys_ofJsonMembers]
  exact (Members.distinct_iff.mp distinct).1

theorem lookup_ofJsonMembers (members : Members) (key : String) :
    (ofJsonMembers build members).lookup key = (members.get? key).map (.ofJson build) := by
  rw [Members.get?_eq_lookup]
  induction members with
  | nil => rfl
  | cons m members ih =>
    rw [ofJsonMembers, List.lookup_cons, List.lookup_cons]
    cases key == m.1 with
    | true => rfl
    | false => exact ih

end

section

variable {ω : Type} (host : Host ω)

/-- The properties of data that is written as a literal. -/
def literalFields (members : Members) : Fields ω :=
  (ofJsonMembers (.literal host) members).delete prototypeKey

theorem nodup_literalFields {members : Members} (distinct : Members.Distinct members) :
    ((literalFields host members).map (·.1)).Nodup :=
  Fields.nodup_delete (nodup_ofJsonMembers _ distinct) _

theorem lookup_literalFields (members : Members) (key : String) :
    (literalFields host members).lookup key =
      if key = prototypeKey then none else (members.get? key).map (.ofJson (.literal host)) := by
  rw [literalFields, Fields.lookup_delete, lookup_ofJsonMembers]

mutual

/-- Data written as a literal is read as it was exactly if none of its keys names a prototype. -/
theorem ofJson_literal_eq_iff (value : Json) :
    Value.ofJson (.literal host) value = Value.ofJson (.object none) value ↔
      value.avoids prototypeKey = true := by
  match value with
  | .null | .bool _ | .number _ | .string _ => simp [Value.ofJson, Json.avoids]
  | .array items =>
    rw [Value.ofJson, Value.ofJson, Value.array.injEq, ofJsonItems_literal_eq_iff, Json.avoids]
  | .object members =>
    rw [Value.ofJson, Value.ofJson, Json.avoids_object_iff, ← ofJsonMembers_literal_eq_iff]
    constructor
    · intro same
      have fields : literalFields host members = ofJsonMembers (.object none) members :=
        (Value.object.inj same).2
      have new : prototypeKey ∉ members.map (·.1) := by
        rw [← keys_ofJsonMembers (.object none), ← fields]
        exact Fields.not_mem_delete _ _
      rw [literalFields, Fields.delete_new (by rwa [keys_ofJsonMembers])] at fields
      exact ⟨new, fields⟩
    · intro ⟨new, same⟩
      rw [Value.literal_new host (by rwa [keys_ofJsonMembers]), same]

theorem ofJsonItems_literal_eq_iff (items : List Json) :
    ofJsonItems (.literal host) items = ofJsonItems (.object none) items ↔
      Json.avoidsItems prototypeKey items = true := by
  match items with
  | [] => simp [ofJsonItems, Json.avoidsItems]
  | item :: items =>
    rw [ofJsonItems, ofJsonItems, List.cons.injEq, ofJson_literal_eq_iff,
      ofJsonItems_literal_eq_iff, Json.avoidsItems, Bool.and_eq_true]

theorem ofJsonMembers_literal_eq_iff (members : List (String × Json)) :
    ofJsonMembers (.literal host) members = ofJsonMembers (.object none) members ↔
      ∀ m ∈ members, m.2.avoids prototypeKey = true := by
  match members with
  | [] => simp [ofJsonMembers]
  | (key, value) :: members =>
    rw [ofJsonMembers, ofJsonMembers, List.cons.injEq, Prod.mk.injEq, ofJson_literal_eq_iff,
      ofJsonMembers_literal_eq_iff, List.forall_mem_cons]
    simp

end

end

section

variable {ω : Type} (host : Host ω) (env : String → Option ω)

mutual

/-- A literal means the value that it writes. -/
theorem eval_ofJson (value : Json) (distinct : value.distinct = true) :
    (Expr.ofJson value).eval host env = some (.ofJson (.literal host) value) := by
  match value with
  | .null => rfl
  | .bool true => rfl
  | .bool false => rfl
  | .number n => rfl
  | .string s => rfl
  | .array items =>
    rw [Json.distinct] at distinct
    rw [Expr.ofJson, Expr.eval, evalItems_ofItems items distinct]
    rfl
  | .object members =>
    have nodup := nodup_ofJsonMembers (.literal host) distinct
    rw [Json.distinct, Bool.and_eq_true, decide_eq_true_iff] at distinct
    rw [Expr.ofJson, Expr.eval, evalParts_ofMembers members {} distinct.2, Value.ofJson,
      ← Draft.finish_putAll host nodup]
    exact Option.bind_eq_bind ▸ (Option.map_eq_bind ..).symm

theorem evalItems_ofItems (items : List Json) (distinct : Json.distinctItems items = true) :
    evalItems host env (ofItems items) = some (ofJsonItems (.literal host) items) := by
  match items with
  | [] => rfl
  | item :: items =>
    rw [Json.distinctItems, Bool.and_eq_true] at distinct
    rw [ofItems, evalItems, eval_ofJson item distinct.1, evalItems_ofItems items distinct.2]
    rfl

theorem evalParts_ofMembers (members : Members) (o : Draft ω)
    (distinct : Json.distinctMembers members = true) :
    evalParts host env o (ofMembers members) =
      o.putAll (ofJsonMembers (.literal host) members) := by
  match members with
  | [] => rfl
  | (key, value) :: members =>
    rw [Json.distinctMembers, Bool.and_eq_true] at distinct
    rw [ofMembers, evalParts, eval_ofJson value distinct.1, ofJsonMembers, Draft.putAll_cons]
    simp only [Option.bind_eq_bind, Option.bind_some, Key.text]
    congr 1
    funext o
    exact evalParts_ofMembers members o distinct.2

end

theorem evalParts_object {key : Key} (other : key.text ≠ prototypeKey) (o : Draft ω)
    (inner parts : List Part) :
    evalParts host env o (.property key (.object inner) :: parts) =
      (evalParts host env {} inner).bind fun value =>
        evalParts host env { o with fields := o.fields.set key.text (value.finish host) }
          parts := by
  simp only [evalParts, Expr.eval, Option.bind_eq_bind, Option.pure_def, Option.bind_assoc,
    Option.bind_some, Draft.put_other other]

theorem evalParts_literal {members : Members} (distinct : Members.Distinct members)
    (o : Draft ω) (parts : List Part) :
    evalParts host env o (.spread (.ofJson (.object members)) :: parts) =
      evalParts host env (o.spread (literalFields host members)) parts := by
  rw [evalParts, eval_ofJson host env _ distinct]
  rfl

theorem evalParts_append (o : Draft ω) (parts more : List Part) :
    evalParts host env o (parts ++ more) =
      (evalParts host env o parts).bind fun o => evalParts host env o more := by
  induction parts generalizing o with
  | nil => rfl
  | cons part parts ih =>
    cases part with
    | spread value =>
      simp only [List.cons_append, evalParts, Option.bind_eq_bind, ih, Option.bind_assoc]
    | property key value =>
      simp only [List.cons_append, evalParts, Option.bind_eq_bind, ih, Option.bind_assoc]

end

end FormatLint.Script
