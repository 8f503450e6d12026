import FormatLint.Proofs.Json.Embedding
import FormatLint.Proofs.Rules.Members
import FormatLint.Proofs.Rules.Reference

/-!
Entries that are written and read again. What decoding gives, and what composition makes of it, is
decoded from its own JSON form as it was, and keys without a meaning here pass through unchanged.
-/

namespace FormatLint

namespace ModuleRef

/-- The text of a reference is read again as what it is. -/
def Readable (r : ModuleRef) : Prop := parse r.display = .ok r

theorem readable_of_parse {text : String} {r : ModuleRef} (read : parse text = .ok r) :
    r.Readable := by
  rw [Readable, display_of_parse read, read]

variable {v : View}

theorem decode_readable {d : Datum} {r : ModuleRef} (read : decode v d = .ok r) : r.Readable := by
  obtain ⟨text, -, rest⟩ := Decoded.bind_ok read
  cases parsed : parse text with
  | error e =>
    rw [parsed] at rest
    cases rest
  | ok found =>
    rw [parsed] at rest
    cases rest
    exact readable_of_parse parsed

theorem decode_toJson {r : ModuleRef} (readable : r.Readable) :
    decode v r.toJson.datum = .ok r := by
  rw [decode, toJson, Datum.text?_datum, Decoded.ok_bind, readable]
  rfl

/-- A name after all others is added at the end. -/
theorem insertSorted_last {name : String} {value : α} {plugins : List (String × α)}
    (last : ∀ p ∈ plugins, p.1 < name) : insertSorted name value plugins = plugins ++ [(name, value)] := by
  induction plugins with
  | nil => rfl
  | cons p plugins ih =>
    have before := last p List.mem_cons_self
    have apart : name ≠ p.1 := by
      rintro rfl
      exact String.lt_irrefl _ before
    rw [insertSorted, if_neg apart, if_neg (String.lt_asymm before),
      ih fun q member => last q (List.mem_cons_of_mem _ member)]
    rfl

/-- Plugins that stand in order come back in that order. -/
theorem decodeMap_datum {plugins : List (String × ModuleRef)} (ordered : Ordered plugins)
    (readable : ∀ p ∈ plugins, p.2.Readable) :
    decodeMap v (Json.object (plugins.map fun p => (p.1, p.2.toJson))).datum = .ok plugins := by
  have folded (done rest : List (String × ModuleRef)) (ordered : Ordered (done ++ rest))
      (readable : ∀ p ∈ rest, p.2.Readable) :
      (Datum.fieldsOf (rest.map fun p => (p.1, p.2.toJson))).foldlM
        (fun acc (field : String × Datum) => do
          return insertSorted field.1 (← decode v field.2) acc) done =
        (.ok (done ++ rest) : Decoded _) := by
    induction rest generalizing done with
    | nil =>
      rw [List.append_nil]
      rfl
    | cons p rest ih =>
      have last : ∀ q ∈ done, q.1 < p.1 := fun q member =>
        (List.pairwise_append.mp ordered).2.2 q member p List.mem_cons_self
      have step := decode_toJson (v := v) (readable p List.mem_cons_self)
      rw [List.map_cons, Datum.fieldsOf, List.map_cons, List.foldlM_cons, step]
      change (Datum.fieldsOf (rest.map fun p => (p.1, p.2.toJson))).foldlM _
        (insertSorted p.1 p.2 done) = _
      rw [insertSorted_last last, ih (done ++ [(p.1, p.2)]) (by simpa using ordered)
        fun q member => readable q (List.mem_cons_of_mem _ member)]
      simp
  rw [decodeMap, Datum.fields?_datum]
  exact folded [] plugins ordered readable

theorem value_insertSorted {name : String} {value : α} {plugins : List (String × α)}
    {p : String × α} (member : p ∈ insertSorted name value plugins) :
    p.2 = value ∨ p ∈ plugins := by
  fun_induction insertSorted name value plugins with
  | case1 => simp_all
  | case2 v rest =>
    rcases List.mem_cons.mp member with rfl | inside
    · exact .inl rfl
    · exact .inr (List.mem_cons_of_mem _ inside)
  | case3 k v rest apart before =>
    rcases List.mem_cons.mp member with rfl | inside
    · exact .inl rfl
    · exact .inr inside
  | case4 k v rest apart after ih =>
    rcases List.mem_cons.mp member with rfl | inside
    · exact .inr List.mem_cons_self
    · exact (ih inside).imp_right (List.mem_cons_of_mem _)

theorem decodeMap_ok {d : Datum} {plugins : List (String × ModuleRef)}
    (read : decodeMap v d = .ok plugins) :
    Ordered plugins ∧ ∀ p ∈ plugins, p.2.Readable := by
  obtain ⟨fields, -, rest⟩ := Decoded.bind_ok read
  refine Decoded.foldlM_keeps (P := fun done => Ordered done ∧ ∀ p ∈ done, p.2.Readable) ?_
    ⟨List.Pairwise.nil, by simp⟩ rest
  rintro field - before after ⟨ordered, readable⟩ added
  obtain ⟨r, decoded, rest⟩ := Decoded.bind_ok added
  cases rest
  refine ⟨ordered.insertSorted, fun p member => ?_⟩
  rcases value_insertSorted member with same | old
  · rw [same]
    exact decode_readable decoded
  · exact readable p old

end ModuleRef

namespace Members

/-- The members whose keys have no meaning here, in order. -/
def unknown (known : List String) (members : Members) : Members :=
  members.filter fun m => !known.contains m.1

variable {known : List String} {key : String}

theorem unknown_append (members more : Members) :
    unknown known (members ++ more) = unknown known members ++ unknown known more :=
  List.filter_append ..

theorem unknown_optionMember (means : key ∈ known) (value : Option Json) :
    unknown known (optionMember key value) = [] := by
  cases value <;> simp [unknown, optionMember, means]

theorem unknown_objectMember (means : key ∈ known) (members : Members) :
    unknown known (objectMember key members) = [] := by
  rw [objectMember]
  split <;> simp [unknown, means]

theorem unknown_listMember (means : key ∈ known) (items : List Json) :
    unknown known (listMember key items) = [] := by
  rw [listMember]
  split <;> simp [unknown, means]

theorem unknown_self {extra : Members} (apart : ∀ key ∈ extra.map (·.1), key ∉ known) :
    unknown known extra = extra := by
  rw [unknown, List.filter_eq_self]
  intro m member
  simpa using apart m.1 (List.mem_map_of_mem member)

theorem unknown_apart (members : Members) :
    ∀ key ∈ (unknown known members).map (·.1), key ∉ known := by
  intro key member
  obtain ⟨m, inside, rfl⟩ := List.mem_map.mp member
  simpa using (List.mem_filter.mp inside).2

theorem isValue_unknown {members : Members} (value : (Json.object members).IsValue) :
    (Json.object (unknown known members)).IsValue := by
  obtain ⟨keys, each⟩ := Json.isValue_object.mp value
  refine Json.isValue_object.mpr ⟨?_, fun m member => each m (List.mem_of_mem_filter member)⟩
  exact keys.sublist ((List.filter_sublist).map _)

theorem isValue_get? {members : Members} (value : (Json.object members).IsValue) {json : Json}
    (got : members.get? key = some json) : json.IsValue := by
  obtain ⟨m, found, rfl⟩ := Option.map_eq_some_iff.mp got
  exact (Json.isValue_object.mp value).2 m (List.mem_of_find?_eq_some found)

end Members

namespace Datum

variable {v : View} {members : Members} {name : String}

/-- Members without a meaning are passed through as they are. -/
theorem passThrough_fieldsOf {known : List String} (keys : (members.map (·.1)).Nodup)
    (each : ∀ m ∈ Members.unknown known members, m.2.IsValue) :
    passThrough (fieldsOf members) known = .ok (Members.unknown known members) := by
  have folded (done rest : Members) (keys : ((done ++ rest).map (·.1)).Nodup)
      (each : ∀ m ∈ rest, m.2.IsValue) :
      (fieldsOf rest).foldlM (fun acc (field : String × Datum) => do
        return Members.insert acc field.1 (← field.2.json? .held)) done =
        (.ok (done ++ rest) : Decoded Members) := by
    induction rest generalizing done with
    | nil =>
      rw [List.append_nil]
      rfl
    | cons m rest ih =>
      have new : m.1 ∉ done.map (·.1) := by
        rw [List.map_append, List.nodup_append] at keys
        exact fun member => keys.2.2 m.1 member m.1 (by simp) rfl
      rw [fieldsOf, List.map_cons, List.foldlM_cons, json?_datum m.2 (each m List.mem_cons_self)]
      change (fieldsOf rest).foldlM _ (Members.insert done m.1 m.2) = _
      rw [Members.insert_new new, ih (done ++ [(m.1, m.2)]) (by simpa using keys)
        fun other member => each other (List.mem_cons_of_mem _ member)]
      simp
  have filtered : (fieldsOf members).filter (fun f => !known.contains f.1) =
      fieldsOf (Members.unknown known members) := by
    rw [fieldsOf, List.filter_map]
    rfl
  rw [passThrough, filtered]
  exact folded [] _ (keys.sublist ((List.filter_sublist).map _)) each

theorem passThrough_json {known : List String} (value : (Json.object members).IsValue) :
    passThrough (fieldsOf members) known = .ok (Members.unknown known members) := by
  obtain ⟨keys, each⟩ := Json.isValue_object.mp value
  exact passThrough_fieldsOf keys fun m member => each m (List.mem_of_mem_filter member)

/-- A collection that is written as a member unless it is empty comes back. -/
theorem fieldOr_collection (keys : (members.map (·.1)).Nodup) {value : List α} {empty : Bool}
    {json : Json} {decode : Datum → Decoded (List α)}
    (got : members.get? name = if empty then none else some json)
    (nothing : empty = true → value = []) (decoded : decode json.datum = .ok value) :
    fieldOr (fieldsOf members) name [] decode = .ok value := by
  rw [fieldOr_fieldsOf keys, got]
  cases empty with
  | true =>
    rw [nothing rfl]
    rfl
  | false => exact decoded

theorem fieldOr_list (keys : (members.map (·.1)).Nodup) {values : List α} {encode : α → Json}
    {decode : Datum → Decoded α}
    (got : members.get? name =
      if (values.map encode).isEmpty then none else some (.array (values.map encode)))
    (each : ∀ value ∈ values, decode (encode value).datum = .ok value) :
    fieldOr (fieldsOf members) name [] (list? v decode) = .ok values :=
  fieldOr_collection keys got (by simp) (list?_datum each)

theorem fieldOr_members (keys : (members.map (·.1)).Nodup) {given : Members}
    (got : members.get? name = if given.isEmpty then none else some (.object given))
    (value : (Json.object given).IsValue) :
    fieldOr (fieldsOf members) name [] (members? v) = .ok given :=
  fieldOr_collection keys got (by simp) (members?_datum value)

theorem list?_strings (texts : List String) :
    (Json.strings texts).datum.list? v (text? v) = .ok texts :=
  list?_datum fun text _ => text?_datum v text

/-- A JSON value that is taken for a map is an object, or null where that stands for an empty one. -/
theorem entries?_json {json : Json} (value : json.IsValue) {entries : List (Word × Datum)}
    (read : json.datum.entries? v = .ok entries) :
    ∃ members, entries = Json.memberData members ∧ (Json.object members).IsValue := by
  have nothing : (Json.object []).IsValue := ⟨rfl, rfl⟩
  cases json with
  | object members =>
    rw [entries?_datum] at read
    cases read
    exact ⟨members, rfl, value⟩
  | null =>
    cases v <;> cases read
    exact ⟨[], rfl, nothing⟩
  | number n => cases n <;> cases v <;> cases read
  | bool b => cases v <;> cases read
  | string s => cases v <;> cases read
  | array items => cases v <;> cases read

theorem fields?_json {json : Json} (value : json.IsValue) {fields : List (String × Datum)}
    (read : json.datum.fields? v = .ok fields) :
    ∃ members, fields = fieldsOf members ∧ (Json.object members).IsValue := by
  obtain ⟨entries, given, rest⟩ := Decoded.bind_ok read
  obtain ⟨members, rfl, held⟩ := entries?_json value given
  have named : (Json.object members).datum.fields? v = .ok fields := by
    rw [fields?, entries?_datum]
    exact rest
  rw [fields?_datum] at named
  exact ⟨members, (Except.ok.inj named).symm, held⟩

/-- A field of an object is absent, or decoded from a JSON value. -/
theorem fieldOr_json (value : (Json.object members).IsValue) {fallback a : α}
    {decode : Datum → Decoded α}
    (read : fieldOr (fieldsOf members) name fallback decode = .ok a) :
    a = fallback ∨ ∃ json : Json, json.IsValue ∧ decode json.datum = .ok a := by
  rw [fieldOr_fieldsOf (Json.isValue_object.mp value).1] at read
  split at read
  · rename_i json got
    exact .inr ⟨json, Members.isValue_get? value got, read⟩
  · cases read
    exact .inl rfl

theorem members?_json {json : Json} (value : json.IsValue)
    (read : json.datum.members? v = .ok members) : (Json.object members).IsValue := by
  obtain ⟨entries, given, rest⟩ := Decoded.bind_ok read
  obtain ⟨found, rfl, held⟩ := entries?_json value given
  obtain ⟨keys, each⟩ := Json.isValue_object.mp held
  rw [jsonEntries?_data found [] keys each] at rest
  cases rest
  exact held

/-- Free optional values are not null. -/
theorem option?_json {json : Json} {found : Option Json} (value : json.IsValue)
    (read : json.datum.option? (json? v) = .ok found) :
    ∀ other ∈ found, other.IsValue ∧ other ≠ .null := by
  rw [option?] at read
  split at read
  · cases read
    simp
  · rename_i filled
    rw [json?_datum json value] at read
    cases read
    rintro other ⟨⟩
    exact ⟨value, fun null => filled (Json.isNull_datum.mpr null)⟩

theorem fieldOr_members_json (value : (Json.object members).IsValue) {given : Members}
    (read : fieldOr (fieldsOf members) name [] (members? v) = .ok given) :
    (Json.object given).IsValue := by
  rcases fieldOr_json value read with rfl | ⟨json, inner, decoded⟩
  · exact ⟨rfl, rfl⟩
  · exact members?_json inner decoded

theorem fieldOr_option_json (value : (Json.object members).IsValue) {found : Option Json}
    (read : fieldOr (fieldsOf members) name none (option? (json? v)) = .ok found) :
    ∀ json ∈ found, json.IsValue ∧ json ≠ .null := by
  rcases fieldOr_json value read with rfl | ⟨json, inner, decoded⟩
  · simp
  · exact option?_json inner decoded

theorem fieldOr_readable {fields : List (String × Datum)} {refs : List ModuleRef}
    (read : fieldOr fields name [] (list? v (ModuleRef.decode v)) = .ok refs) :
    ∀ r ∈ refs, r.Readable := by
  rcases fieldOr_ok read with rfl | ⟨d, decoded⟩
  · simp
  · intro r member
    obtain ⟨d, decoded⟩ := list?_ok decoded r member
    exact ModuleRef.decode_readable decoded

end Datum

namespace LanguageOptions

/-- Options that are the same when they are written and read. -/
structure Stable (o : LanguageOptions) : Prop where
  ecmaVersion : ∀ json ∈ o.ecmaVersion, json.IsValue ∧ json ≠ .null
  globalPresets : ∀ r ∈ o.globalPresets, r.Readable
  globals : (Json.object o.globals).IsValue
  parserOptions : ∀ json ∈ o.parserOptions, json.IsValue ∧ json ≠ .null
  extra : (Json.object o.extra).IsValue
  extra_unknown : ∀ key ∈ o.extra.map (·.1), key ∉ knownFields

variable {v : View} {o : LanguageOptions}

theorem Stable.formed (stable : o.Stable) : o.Formed where
  ecmaVersion json given := (stable.ecmaVersion json given).1.distinct
  globals := stable.globals.distinct
  parserOptions json given := (stable.parserOptions json given).1.distinct
  extra := stable.extra.distinct
  extra_unknown := stable.extra_unknown

theorem unknown_members (o : LanguageOptions)
    (apart : ∀ key ∈ o.extra.map (·.1), key ∉ knownFields) :
    Members.unknown knownFields o.members = o.extra := by
  simp only [members, Members.unknown_append]
  rw [Members.unknown_optionMember (by decide), Members.unknown_optionMember (by decide),
    Members.unknown_listMember (by decide), Members.unknown_objectMember (by decide),
    Members.unknown_optionMember (by decide), Members.unknown_self apart]
  rfl

/-- The options are what is read from their members. -/
theorem Stable.decode_toJson (stable : o.Stable) : decode v o.toJson.datum = .ok o := by
  have keys : (o.members.map (·.1)).Nodup := (Members.distinct_iff.mp stable.formed.members).1
  have apart (key : String) (known : key ∈ knownFields) : o.extra.get? key = none :=
    stable.formed.get?_extra known
  have sourceType : Datum.fieldOr (Datum.fieldsOf o.members) "sourceType" none
      (Datum.option? (Datum.text? v)) = .ok o.sourceType := by
    have got : o.members.get? "sourceType" = o.sourceType.map .string := by
      simp [members, apart "sourceType" (by decide)]
    exact Datum.fieldOr_optional keys got fun a _ => ⟨by simp, Datum.text?_datum v a⟩
  have ecmaVersion : Datum.fieldOr (Datum.fieldsOf o.members) "ecmaVersion" none
      (Datum.option? (Datum.json? v)) = .ok o.ecmaVersion := by
    have got : o.members.get? "ecmaVersion" = o.ecmaVersion.map id := by
      simp [members, apart "ecmaVersion" (by decide)]
    refine Datum.fieldOr_optional keys got fun json given => ?_
    obtain ⟨value, filled⟩ := stable.ecmaVersion json given
    exact ⟨filled, Datum.json?_datum json value⟩
  have globalPresets : Datum.fieldOr (Datum.fieldsOf o.members) "globalPresets" []
      (Datum.list? v (ModuleRef.decode v)) = .ok o.globalPresets := by
    have got : o.members.get? "globalPresets" = if (o.globalPresets.map ModuleRef.toJson).isEmpty
        then none else some (.array (o.globalPresets.map ModuleRef.toJson)) := by
      simp [members, apart "globalPresets" (by decide)]
    exact Datum.fieldOr_list keys got fun r member =>
      ModuleRef.decode_toJson (stable.globalPresets r member)
  have globals : Datum.fieldOr (Datum.fieldsOf o.members) "globals" [] (Datum.members? v) =
      .ok o.globals := by
    have got : o.members.get? "globals" = if o.globals.isEmpty then none
        else some (.object o.globals) := by
      simp [members, apart "globals" (by decide)]
    exact Datum.fieldOr_members keys got stable.globals
  have parserOptions : Datum.fieldOr (Datum.fieldsOf o.members) "parserOptions" none
      (Datum.option? (Datum.json? v)) = .ok o.parserOptions := by
    have got : o.members.get? "parserOptions" = o.parserOptions.map id := by
      simp [members, apart "parserOptions" (by decide)]
    refine Datum.fieldOr_optional keys got fun json given => ?_
    obtain ⟨value, filled⟩ := stable.parserOptions json given
    exact ⟨filled, Datum.json?_datum json value⟩
  have extra : Datum.passThrough (Datum.fieldsOf o.members) knownFields = .ok o.extra := by
    have passed := unknown_members o stable.extra_unknown
    have each := (Json.isValue_object.mp stable.extra).2
    rw [Datum.passThrough_fieldsOf keys (by rwa [passed]), passed]
  simp only [decode, toJson, Datum.fields?_datum, Decoded.ok_bind, sourceType, ecmaVersion,
    globalPresets, globals, parserOptions, extra]
  rfl

/-- What is read from an object is stable, and keeps the keys without a meaning. -/
theorem decode_object {members : Members} (value : (Json.object members).IsValue)
    (read : decode v (Json.object members).datum = .ok o) :
    o.Stable ∧ o.extra = Members.unknown knownFields members := by
  rw [decode, Datum.fields?_datum, Decoded.ok_bind] at read
  obtain ⟨sourceType, -, read⟩ := Decoded.bind_ok read
  obtain ⟨ecmaVersion, version, read⟩ := Decoded.bind_ok read
  obtain ⟨globalPresets, presets, read⟩ := Decoded.bind_ok read
  obtain ⟨globals, set, read⟩ := Decoded.bind_ok read
  obtain ⟨parserOptions, parsed, read⟩ := Decoded.bind_ok read
  rw [Datum.passThrough_json value, Decoded.ok_bind] at read
  cases read
  refine ⟨⟨Datum.fieldOr_option_json value version, Datum.fieldOr_readable presets,
    Datum.fieldOr_members_json value set, Datum.fieldOr_option_json value parsed,
    Members.isValue_unknown value, Members.unknown_apart members⟩, rfl⟩

theorem decode_json {json : Json} (value : json.IsValue) (read : decode v json.datum = .ok o) :
    o.Stable := by
  obtain ⟨fields, given, rest⟩ := Decoded.bind_ok read
  obtain ⟨members, rfl, held⟩ := Datum.fields?_json value given
  have same : decode v (Json.object members).datum = .ok o := by
    rw [decode, Datum.fields?_datum, Decoded.ok_bind]
    exact rest
  exact (decode_object held same).1

end LanguageOptions

namespace Entry

/-- An entry that is the same when it is written and read. -/
structure Stable (e : Entry) : Prop where
  ordered : ModuleRef.Ordered e.plugins
  plugins : ∀ p ∈ e.plugins, p.2.Readable
  languageOptions : ∀ options ∈ e.languageOptions, options.Stable
  settings : (Json.object e.settings).IsValue
  rulePresets : ∀ r ∈ e.rulePresets, r.Readable
  rules : (Json.object e.rules).IsValue
  extra : (Json.object e.extra).IsValue
  extra_unknown : ∀ key ∈ e.extra.map (·.1), key ∉ knownFields

variable {v : View} {e : Entry}

theorem Stable.formed (stable : e.Stable) : e.Formed where
  plugins := stable.ordered.nodup
  languageOptions options given := (stable.languageOptions options given).formed
  settings := stable.settings.distinct
  rules := stable.rules.distinct
  extra := stable.extra.distinct
  extra_unknown := stable.extra_unknown

theorem unknown_members (e : Entry) (apart : ∀ key ∈ e.extra.map (·.1), key ∉ knownFields) :
    Members.unknown knownFields e.members = e.extra := by
  simp only [members, Members.unknown_append]
  rw [Members.unknown_optionMember (by decide), Members.unknown_optionMember (by decide),
    Members.unknown_optionMember (by decide), Members.unknown_objectMember (by decide),
    Members.unknown_optionMember (by decide), Members.unknown_objectMember (by decide),
    Members.unknown_listMember (by decide), Members.unknown_listMember (by decide),
    Members.unknown_objectMember (by decide), Members.unknown_self apart]
  rfl

/-- The entry is what is read from its members. -/
theorem Stable.decode_toJson (stable : e.Stable) : decode v e.toJson.datum = .ok e := by
  have keys : (e.members.map (·.1)).Nodup := (Members.distinct_iff.mp stable.formed.members).1
  have apart (key : String) (known : key ∈ knownFields) : e.extra.get? key = none :=
    stable.formed.get?_extra known
  have name : Datum.fieldOr (Datum.fieldsOf e.members) "name" none (Datum.option? (Datum.text? v)) =
      .ok e.name := by
    have got : e.members.get? "name" = e.name.map .string := by
      simp [members, apart "name" (by decide)]
    exact Datum.fieldOr_optional keys got fun text _ => ⟨by simp, Datum.text?_datum v text⟩
  have files : Datum.fieldOr (Datum.fieldsOf e.members) "files" none
      (Datum.option? (Datum.list? v (Datum.text? v))) = .ok e.files := by
    have got : e.members.get? "files" = e.files.map Json.strings := by
      simp [members, apart "files" (by decide)]
    exact Datum.fieldOr_optional keys got fun texts _ =>
      ⟨by simp [Json.strings], Datum.list?_strings texts⟩
  have ignores : Datum.fieldOr (Datum.fieldsOf e.members) "ignores" none
      (Datum.option? (Datum.list? v (Datum.text? v))) = .ok e.ignores := by
    have got : e.members.get? "ignores" = e.ignores.map Json.strings := by
      simp [members, apart "ignores" (by decide)]
    exact Datum.fieldOr_optional keys got fun texts _ =>
      ⟨by simp [Json.strings], Datum.list?_strings texts⟩
  have plugins : Datum.fieldOr (Datum.fieldsOf e.members) "plugins" [] (ModuleRef.decodeMap v) =
      .ok e.plugins := by
    have got : e.members.get? "plugins" = if e.plugins.isEmpty then none
        else some (.object (e.plugins.map fun p => (p.1, p.2.toJson))) := by
      simp [members, apart "plugins" (by decide)]
    exact Datum.fieldOr_collection keys got (by simp)
      (ModuleRef.decodeMap_datum stable.ordered stable.plugins)
  have languageOptions : Datum.fieldOr (Datum.fieldsOf e.members) "languageOptions" none
      (Datum.option? (LanguageOptions.decode v)) = .ok e.languageOptions := by
    have got : e.members.get? "languageOptions" =
        e.languageOptions.map LanguageOptions.toJson := by
      simp [members, apart "languageOptions" (by decide)]
    exact Datum.fieldOr_optional keys got fun options given =>
      ⟨by simp [LanguageOptions.toJson], (stable.languageOptions options given).decode_toJson⟩
  have settings : Datum.fieldOr (Datum.fieldsOf e.members) "settings" [] (Datum.members? v) =
      .ok e.settings := by
    have got : e.members.get? "settings" = if e.settings.isEmpty then none
        else some (.object e.settings) := by
      simp [members, apart "settings" (by decide)]
    exact Datum.fieldOr_members keys got stable.settings
  have rulePresets : Datum.fieldOr (Datum.fieldsOf e.members) "rulePresets" []
      (Datum.list? v (ModuleRef.decode v)) = .ok e.rulePresets := by
    have got : e.members.get? "rulePresets" = if (e.rulePresets.map ModuleRef.toJson).isEmpty
        then none else some (.array (e.rulePresets.map ModuleRef.toJson)) := by
      simp [members, apart "rulePresets" (by decide)]
    exact Datum.fieldOr_list keys got fun r member =>
      ModuleRef.decode_toJson (stable.rulePresets r member)
  have omitRules : Datum.fieldOr (Datum.fieldsOf e.members) "omitRules" []
      (Datum.list? v (Datum.text? v)) = .ok e.omitRules := by
    have got : e.members.get? "omitRules" = if (e.omitRules.map Json.string).isEmpty
        then none else some (.array (e.omitRules.map Json.string)) := by
      simp [members, apart "omitRules" (by decide)]
    exact Datum.fieldOr_list keys got fun text _ => Datum.text?_datum v text
  have rules : Datum.fieldOr (Datum.fieldsOf e.members) "rules" [] (Datum.members? v) =
      .ok e.rules := by
    have got : e.members.get? "rules" = if e.rules.isEmpty then none
        else some (.object e.rules) := by
      simp [members, apart "rules" (by decide)]
    exact Datum.fieldOr_members keys got stable.rules
  have extra : Datum.passThrough (Datum.fieldsOf e.members) knownFields = .ok e.extra := by
    have passed := unknown_members e stable.extra_unknown
    have each := (Json.isValue_object.mp stable.extra).2
    rw [Datum.passThrough_fieldsOf keys (by rwa [passed]), passed]
  simp only [decode, toJson, Datum.fields?_datum, Decoded.ok_bind, name, files, ignores, plugins,
    languageOptions, settings, rulePresets, omitRules, rules, extra]
  rfl

/-- What is read from an object is stable, and keeps the keys without a meaning. -/
theorem decode_object {members : Members} (value : (Json.object members).IsValue)
    (read : decode v (Json.object members).datum = .ok e) :
    e.Stable ∧ e.extra = Members.unknown knownFields members := by
  rw [decode, Datum.fields?_datum, Decoded.ok_bind] at read
  obtain ⟨name, -, read⟩ := Decoded.bind_ok read
  obtain ⟨files, -, read⟩ := Decoded.bind_ok read
  obtain ⟨ignores, -, read⟩ := Decoded.bind_ok read
  obtain ⟨plugins, named, read⟩ := Decoded.bind_ok read
  obtain ⟨languageOptions, optioned, read⟩ := Decoded.bind_ok read
  obtain ⟨settings, settled, read⟩ := Decoded.bind_ok read
  obtain ⟨rulePresets, presets, read⟩ := Decoded.bind_ok read
  obtain ⟨omitRules, -, read⟩ := Decoded.bind_ok read
  obtain ⟨rules, ruled, read⟩ := Decoded.bind_ok read
  rw [Datum.passThrough_json value, Decoded.ok_bind] at read
  cases read
  have mapped : ModuleRef.Ordered plugins ∧ ∀ p ∈ plugins, p.2.Readable := by
    rcases Datum.fieldOr_ok named with rfl | ⟨d, decoded⟩
    · exact ⟨List.Pairwise.nil, by simp⟩
    · exact ModuleRef.decodeMap_ok decoded
  have optionsStable : ∀ options ∈ languageOptions, LanguageOptions.Stable options := by
    rcases Datum.fieldOr_json value optioned with rfl | ⟨json, inner, decoded⟩
    · simp
    · intro options given
      exact LanguageOptions.decode_json inner (Datum.option?_ok decoded options given)
  exact ⟨⟨mapped.1, mapped.2, optionsStable, Datum.fieldOr_members_json value settled,
    Datum.fieldOr_readable presets, Datum.fieldOr_members_json value ruled,
    Members.isValue_unknown value, Members.unknown_apart members⟩, rfl⟩

theorem decode_json {json : Json} (value : json.IsValue) (read : decode v json.datum = .ok e) :
    e.Stable := by
  obtain ⟨fields, given, rest⟩ := Decoded.bind_ok read
  obtain ⟨members, rfl, held⟩ := Datum.fields?_json value given
  have same : decode v (Json.object members).datum = .ok e := by
    rw [decode, Datum.fields?_datum, Decoded.ok_bind]
    exact rest
  exact (decode_object held same).1

/-- The entry was decoded from a JSON value. -/
def FromJson (e : Entry) : Prop :=
  ∃ (v : View) (json : Json), json.IsValue ∧ decode v json.datum = .ok e

theorem FromJson.stable (given : e.FromJson) : e.Stable := by
  obtain ⟨v, json, value, read⟩ := given
  exact decode_json value read

end Entry

section Defaults

variable {layer : Layer} {project : Project}

/-- Whether a reference is read again as what it is. -/
def ModuleRef.survives (r : ModuleRef) : Bool :=
  match parse r.display with
  | .ok read => read = r
  | .error _ => false

theorem ModuleRef.readable_of_survives {r : ModuleRef} (survives : r.survives = true) :
    r.Readable := by
  rw [ModuleRef.survives] at survives
  rw [Readable]
  split at survives
  · rename_i read parsed
    rw [parsed, of_decide_eq_true survives]
  · cases survives

theorem Entry.stable_of_parts {e : Entry}
    (ordered : decide (e.plugins.Pairwise fun a b => a.1 < b.1) = true)
    (plugins : e.plugins.all (·.2.survives) = true)
    (options : ∀ options ∈ e.languageOptions, options.Stable)
    (settings : (Json.object e.settings).IsValue) (presets : e.rulePresets.all (·.survives) = true)
    (rules : (Json.object e.rules).IsValue) (extra : e.extra = []) : e.Stable := by
  have none : (Json.object []).IsValue := ⟨rfl, rfl⟩
  have inOrder : e.plugins.Pairwise fun a b => a.1 < b.1 := of_decide_eq_true ordered
  refine ⟨inOrder, ?_, options, settings, ?_, rules, by rwa [extra], by simp [extra]⟩
  · exact fun p member => ModuleRef.readable_of_survives (List.all_eq_true.mp plugins p member)
  · exact fun r member => ModuleRef.readable_of_survives (List.all_eq_true.mp presets r member)

theorem Layer.isValue_reactSettings (project : Project) :
    (Json.object (reactSettings project)).IsValue := by
  rw [reactSettings]
  cases project.usesReact <;> exact ⟨rfl, rfl⟩

theorem Layer.sharedOptions_stable {presets : List ModuleRef}
    (readable : presets.all (·.survives) = true) :
    LanguageOptions.Stable {
      sourceType := some project.sourceType
      ecmaVersion := some (text "latest")
      globalPresets := presets
      parserOptions := some (.object [
        ("sourceType", text project.sourceType),
        ("ecmaFeatures", .object [("jsx", .bool true)])]) } := by
  refine ⟨?_, ?_, ⟨rfl, rfl⟩, ?_, ⟨rfl, rfl⟩, by simp⟩
  · rintro json ⟨⟩
    exact ⟨⟨rfl, rfl⟩, by simp [text]⟩
  · exact fun r member => ModuleRef.readable_of_survives (List.all_eq_true.mp readable r member)
  · rintro json ⟨⟩
    exact ⟨⟨rfl, rfl⟩, by simp⟩

theorem LanguageOptions.stable_presets {presets : List ModuleRef}
    (readable : presets.all (·.survives) = true) :
    LanguageOptions.Stable { globalPresets := presets } :=
  ⟨by simp, fun r member => ModuleRef.readable_of_survives (List.all_eq_true.mp readable r member),
    ⟨rfl, rfl⟩, by simp, ⟨rfl, rfl⟩, by simp⟩

theorem Layer.defaultEntry_stable {e : Entry} (given : layer.defaultEntry project = some e) :
    e.Stable := by
  have settings := isValue_reactSettings project
  cases layer with
  | node =>
    rw [defaultEntry] at given
    split at given
    · cases given
      refine Entry.stable_of_parts rfl rfl ?_ settings rfl ⟨rfl, rfl⟩ rfl
      rintro options ⟨⟩
      exact sharedOptions_stable rfl
    · cases given
  | jsx =>
    cases given
    refine Entry.stable_of_parts rfl rfl ?_ settings rfl ⟨rfl, rfl⟩ rfl
    rintro options ⟨⟩
    exact LanguageOptions.stable_presets rfl
  | test =>
    cases given
    refine Entry.stable_of_parts rfl rfl ?_ ⟨rfl, rfl⟩ rfl ⟨rfl, rfl⟩ rfl
    rintro options ⟨⟩
    exact LanguageOptions.stable_presets rfl
  | _ =>
    cases given
    refine Entry.stable_of_parts rfl rfl ?_ settings rfl ⟨rfl, rfl⟩ rfl
    rintro options ⟨⟩
    exact sharedOptions_stable rfl

theorem RuleSets.givenWay_stable (sets : RuleSets) {e : Entry}
    (given : Layer.standardJs.defaultEntry project = some e) :
    (sets.givenWay project e).Stable := by
  have stable := Layer.defaultEntry_stable given
  have rules : (Json.object (sets.givenWay project e).rules).IsValue := by
    cases given
    rw [givenWay]
    simp only
    split <;> exact ⟨rfl, rfl⟩
  exact ⟨stable.ordered, stable.plugins, stable.languageOptions, stable.settings,
    stable.rulePresets, rules, stable.extra, stable.extra_unknown⟩

theorem RuleSets.layered_stable {sets : RuleSets} {e : Entry}
    (overrides : ∀ replaced ∈ sets.overrides, replaced.2.FromJson)
    (entry : sets.layered project layer = some e) : e.Stable := by
  rw [layered] at entry
  split at entry
  · rename_i replaced found
    cases entry
    obtain ⟨pair, member, rfl⟩ := Option.map_eq_some_iff.mp found
    exact (overrides pair (List.mem_of_find?_eq_some member)).stable
  · split at entry
    · cases entry
    · split at entry
      · rename_i standard
        subst standard
        obtain ⟨default, given, rfl⟩ := Option.map_eq_some_iff.mp entry
        exact sets.givenWay_stable given
      · exact Layer.defaultEntry_stable entry

end Defaults

/-- Every entry that the user supplies was decoded from JSON. -/
structure ComposeOptions.FromJson (options : ComposeOptions) : Prop where
  custom : ∀ entries ∈ options.custom, ∀ e ∈ entries, e.FromJson
  overrides : ∀ sets ∈ options.ruleSets, ∀ replaced ∈ sets.overrides, replaced.2.FromJson
  additional : ∀ sets ∈ options.ruleSets, ∀ e ∈ sets.additional, e.FromJson

/-- A composition is made of stable entries. -/
theorem compose_stable {options : ComposeOptions} {entries : List Entry} (given : options.FromJson)
    (composition : compose options = .ok entries) : ∀ e ∈ entries, e.Stable := by
  rcases compose_cases options with ⟨_, _, -, -, refused⟩ | ⟨_, whole, -, composed⟩ |
    ⟨_, -, -, refused⟩ | ⟨-, -, composed⟩
  · rw [refused] at composition
    cases composition
  · rw [composed] at composition
    cases composition
    exact fun e member => (given.custom _ whole e member).stable
  · rw [refused] at composition
    cases composition
  · rw [composed] at composition
    cases composition
    intro e member
    rcases List.mem_append.mp member with layered | added
    · obtain ⟨layer, -, entry⟩ := List.mem_filterMap.mp layered
      refine RuleSets.layered_stable ?_ entry
      cases sets : options.ruleSets with
      | none => simp
      | some found => exact given.overrides found sets
    · cases sets : options.ruleSets with
      | none => simp [sets] at added
      | some found =>
        rw [sets, Option.getD_some, Option.mem_toList] at added
        exact (given.additional found sets e added).stable

/-- The keys without a meaning are passed through as they were, in their order. -/
theorem LanguageOptions.unknown_decode {v : View} {members : Members} {o : LanguageOptions}
    (value : (Json.object members).IsValue) (read : decode v (Json.object members).datum = .ok o) :
    Members.unknown knownFields o.members = Members.unknown knownFields members := by
  obtain ⟨stable, same⟩ := decode_object value read
  rw [unknown_members o stable.extra_unknown, same]

theorem Entry.unknown_decode {v : View} {members : Members} {e : Entry}
    (value : (Json.object members).IsValue) (read : decode v (Json.object members).datum = .ok e) :
    Members.unknown knownFields e.members = Members.unknown knownFields members := by
  obtain ⟨stable, same⟩ := decode_object value read
  rw [unknown_members e stable.extra_unknown, same]

/-- A composed configuration is read from its JSON form as it was, so that it can be given in place
    of what it was composed of; and of whatever object an entry or its options are read from, the
    keys without a meaning are written again as they stood there. -/
theorem composition_loads_back (options : ComposeOptions) (entries : List Entry)
    (given : options.FromJson) (composition : compose options = .ok entries) :
    Entry.decodeList .json (Json.array (entries.map Entry.toJson)).datum = .ok entries ∧
    (∀ project loaded,
      Entry.decodeList .json (Json.array (entries.map Entry.toJson)).datum = .ok loaded →
      compose { custom := some loaded, project } = .ok entries) ∧
    (∀ v members e, (Json.object members).IsValue →
      Entry.decode v (Json.object members).datum = .ok e →
      Members.unknown Entry.knownFields e.members = Members.unknown Entry.knownFields members) ∧
    ∀ v members o, (Json.object members).IsValue →
      LanguageOptions.decode v (Json.object members).datum = .ok o →
      Members.unknown LanguageOptions.knownFields o.members =
        Members.unknown LanguageOptions.knownFields members := by
  have stable := compose_stable given composition
  have loads : Entry.decodeList .json (Json.array (entries.map Entry.toJson)).datum = .ok entries :=
    Datum.list?_datum fun e member => (stable e member).decode_toJson
  refine ⟨loads, fun project loaded read => ?_, fun _ _ _ => Entry.unknown_decode,
    fun _ _ _ => LanguageOptions.unknown_decode⟩
  rw [loads] at read
  cases read
  rfl

/-- An entry with keys of its own at both levels. -/
def freeEntry : Json := .object [
  ("basePath", .string "src"),
  ("plugins", .object [("b", .string "pkg#member.path"), ("a", .string "other")]),
  ("languageOptions", .object [("ecmaVersion", Json.ofNat 2022), ("parser", .null)]),
  ("weight", .number (.integer (-1)))]

theorem composition_loads_back_sample : ∃ e, Entry.decode .json freeEntry.datum = .ok e ∧
    compose { custom := some [e] } = .ok [e] ∧
    Entry.decodeList .json (Json.array [e.toJson]).datum = .ok [e] := by
  have value : freeEntry.IsValue := ⟨rfl, rfl⟩
  obtain ⟨e, read⟩ : ∃ e, Entry.decode .json freeEntry.datum = .ok e := ⟨_, rfl⟩
  have given : ComposeOptions.FromJson { custom := some [e] } := by
    refine ⟨?_, by simp, by simp⟩
    rintro entries ⟨⟩ other member
    rw [List.mem_singleton.mp member]
    exact ⟨.json, freeEntry, value, read⟩
  obtain ⟨loads, -⟩ := composition_loads_back _ [e] given rfl
  exact ⟨e, read, rfl, loads⟩

end FormatLint
