import FormatLint.Proofs.Json.Avoiding
import FormatLint.Proofs.Rules.Decoding

/-!
The members that an entry is written with: each known field under its own name, and the keys that
were passed through beside them. A key that is no known name can stand in the data of an entry and
among its plugins only.
-/

namespace FormatLint

namespace Members

variable {key k : String}

@[simp]
theorem get?_append (members more : Members) (k : String) :
    get? (members ++ more) k = (members.get? k).or (more.get? k) := by
  rw [get?_eq_lookup, get?_eq_lookup, get?_eq_lookup, List.lookup_append]

theorem get?_eq_none {members : Members} (absent : k ∉ members.map (·.1)) :
    members.get? k = none := by
  rw [get?_eq_lookup, List.lookup_eq_none_iff]
  intro m member
  have apart : k ≠ m.1 := fun same => absent (List.mem_map.mpr ⟨m, member, same.symm⟩)
  simpa using apart

theorem get?_of_mem {members : Members} (distinct : (members.map (·.1)).Nodup)
    {m : String × Json} (member : m ∈ members) : members.get? m.1 = some m.2 := by
  rw [get?_eq_lookup]
  induction members with
  | nil => cases member
  | cons first members ih =>
    rw [List.map_cons, List.nodup_cons] at distinct
    rw [List.lookup_cons]
    rcases List.mem_cons.mp member with rfl | later
    · simp
    · have apart : m.1 ≠ first.1 := fun same => distinct.1 (same ▸ List.mem_map_of_mem later)
      rw [beq_false_of_ne apart]
      exact ih distinct.2 later

theorem get?_singleton (key : String) (value : Json) (k : String) :
    get? [(key, value)] k = if k = key then some value else none := by
  by_cases same : k = key
  · simp [get?, same]
  · simp [get?, same, Ne.symm same]

@[simp]
theorem get?_optionMember (key : String) (value : Option Json) (k : String) :
    get? (optionMember key value) k = if k = key then value else none := by
  cases value with
  | none => simp [optionMember, get?]
  | some json => exact get?_singleton key json k

@[simp]
theorem get?_objectMember (key : String) (members : Members) (k : String) :
    get? (objectMember key members) k =
      if k = key then (if members.isEmpty then none else some (.object members)) else none := by
  rw [objectMember]
  split
  · simp [get?]
  · exact get?_singleton key _ k

@[simp]
theorem get?_listMember (key : String) (items : List Json) (k : String) :
    get? (listMember key items) k =
      if k = key then (if items.isEmpty then none else some (.array items)) else none := by
  rw [listMember]
  split
  · simp [get?]
  · exact get?_singleton key _ k

theorem keys_optionMember (key : String) (value : Option Json) :
    ((optionMember key value).map (·.1)).Sublist [key] := by
  cases value <;> simp [optionMember]

theorem keys_objectMember (key : String) (members : Members) :
    ((objectMember key members).map (·.1)).Sublist [key] := by
  rw [objectMember]
  split <;> simp

theorem keys_listMember (key : String) (items : List Json) :
    ((listMember key items).map (·.1)).Sublist [key] := by
  rw [listMember]
  split <;> simp

theorem distinct_optionMember {value : Option Json} (h : ∀ json ∈ value, json.distinct = true) :
    ∀ m ∈ optionMember key value, m.2.distinct = true := by
  cases value with
  | none => simp [optionMember]
  | some json => simpa [optionMember] using h

theorem distinct_objectMember {members : Members} (h : Distinct members) :
    ∀ m ∈ objectMember key members, m.2.distinct = true := by
  rw [objectMember]
  split
  · simp
  · simp only [List.mem_singleton, forall_eq]
    exact h

theorem distinct_listMember {items : List Json} (h : ∀ item ∈ items, item.distinct = true) :
    ∀ m ∈ listMember key items, m.2.distinct = true := by
  rw [listMember]
  split
  · simp
  · simpa [Json.distinct, Json.distinctItems_iff] using h

@[simp]
theorem avoids_append {members more : Members} :
    (Json.object (members ++ more)).avoids k = true ↔
      (Json.object members).avoids k = true ∧ (Json.object more).avoids k = true := by
  simp only [Json.avoids_object_iff, List.map_append, List.mem_append, not_or, or_imp, forall_and]
  exact and_and_and_comm

theorem avoids_optionMember (other : k ≠ key) {value : Option Json} :
    (Json.object (optionMember key value)).avoids k = true ↔
      ∀ json ∈ value, json.avoids k = true := by
  cases value <;> simp [optionMember, Json.avoids_object_iff, other]

theorem avoids_objectMember (other : k ≠ key) {members : Members} :
    (Json.object (objectMember key members)).avoids k = true ↔
      (Json.object members).avoids k = true := by
  cases members <;> simp [objectMember, Json.avoids_object_iff, other]

theorem avoids_listMember (other : k ≠ key) {items : List Json} :
    (Json.object (listMember key items)).avoids k = true ↔
      ∀ item ∈ items, item.avoids k = true := by
  cases items <;> simp [listMember, Json.avoids_object_iff, Json.avoids_array_iff, other]

/-- Members whose keys come from a list without repetition, before keys that are not in it. -/
theorem distinct_append_unknown {members extra : Members} (known : List String)
    (nodup : known.Nodup) (keys : (members.map (·.1)).Sublist known)
    (values : ∀ m ∈ members, m.2.distinct = true) (passed : Distinct extra)
    (unknown : ∀ k ∈ extra.map (·.1), k ∉ known) : Distinct (members ++ extra) := by
  refine Distinct.append (distinct_iff.mpr ⟨nodup.sublist keys, values⟩) passed ?_
  intro k inside again
  exact unknown k again (keys.subset inside)

end Members

theorem ModuleRef.toJson_distinct (r : ModuleRef) : r.toJson.distinct = true := rfl

theorem ModuleRef.toJson_avoids (r : ModuleRef) (key : String) : r.toJson.avoids key = true := rfl

namespace LanguageOptions

variable {o : LanguageOptions}

theorem Formed.members (formed : o.Formed) : Members.Distinct o.members := by
  apply Members.distinct_append_unknown knownFields (by decide)
  · simp only [List.map_append]
    exact ((((Members.keys_optionMember _ _).append (Members.keys_optionMember _ _)).append
      (Members.keys_listMember _ _)).append (Members.keys_objectMember _ _)).append
      (Members.keys_optionMember _ _)
  · simp only [List.mem_append]
    intro m member
    rcases member with (((source | version) | presets) | globals) | parser
    · refine Members.distinct_optionMember ?_ m source
      simp [Json.distinct]
    · exact Members.distinct_optionMember formed.ecmaVersion m version
    · refine Members.distinct_listMember ?_ m presets
      simp [ModuleRef.toJson_distinct]
    · exact Members.distinct_objectMember formed.globals m globals
    · exact Members.distinct_optionMember formed.parserOptions m parser
  · exact formed.extra
  · exact formed.extra_unknown

theorem Formed.get?_extra (formed : o.Formed) {key : String} (known : key ∈ knownFields) :
    o.extra.get? key = none :=
  Members.get?_eq_none fun inside => formed.extra_unknown key inside known

theorem get?_members_unknown (o : LanguageOptions) {key : String} (unknown : key ∉ knownFields) :
    o.members.get? key = o.extra.get? key := by
  simp only [knownFields, List.mem_cons, List.not_mem_nil, or_false, not_or] at unknown
  simp [members, unknown]

theorem avoids_iff (o : LanguageOptions) {key : String} (unknown : key ∉ knownFields) :
    o.toJson.avoids key = true ↔
      (∀ json ∈ o.ecmaVersion, json.avoids key = true) ∧
        (Json.object o.globals).avoids key = true ∧
        (∀ json ∈ o.parserOptions, json.avoids key = true) ∧
        (Json.object o.extra).avoids key = true := by
  simp only [knownFields, List.mem_cons, List.not_mem_nil, or_false, not_or] at unknown
  obtain ⟨source, version, presets, globals, parser⟩ := unknown
  have texts : ∀ json ∈ o.sourceType.map Json.string, json.avoids key = true := by
    simp [Json.avoids]
  have references : ∀ json ∈ o.globalPresets.map ModuleRef.toJson, json.avoids key = true := by
    simp [ModuleRef.toJson_avoids]
  rw [toJson, members]
  simp only [Members.avoids_append, Members.avoids_optionMember source,
    Members.avoids_optionMember version, Members.avoids_listMember presets,
    Members.avoids_objectMember globals, Members.avoids_optionMember parser]
  simp only [iff_true_intro texts, iff_true_intro references, true_and, and_true, and_assoc]

end LanguageOptions

namespace Entry

variable {e : Entry}

theorem Formed.members (formed : e.Formed) : Members.Distinct e.members := by
  apply Members.distinct_append_unknown knownFields (by decide)
  · simp only [List.map_append]
    exact ((((((((Members.keys_optionMember _ _).append (Members.keys_optionMember _ _)).append
      (Members.keys_optionMember _ _)).append (Members.keys_objectMember _ _)).append
      (Members.keys_optionMember _ _)).append (Members.keys_objectMember _ _)).append
      (Members.keys_listMember _ _)).append (Members.keys_listMember _ _)).append
      (Members.keys_objectMember _ _)
  · simp only [List.mem_append]
    intro m member
    rcases member with (((((((name | files) | ignores) | plugins) | options) | settings) |
      presets) | omitted) | rules
    · refine Members.distinct_optionMember ?_ m name
      simp [Json.distinct]
    · refine Members.distinct_optionMember ?_ m files
      simp [Json.distinct_strings]
    · refine Members.distinct_optionMember ?_ m ignores
      simp [Json.distinct_strings]
    · refine Members.distinct_objectMember ?_ m plugins
      rw [Members.distinct_iff, List.map_map]
      refine ⟨formed.plugins, ?_⟩
      intro plugin member
      obtain ⟨p, -, rfl⟩ := List.mem_map.mp member
      exact p.2.toJson_distinct
    · refine Members.distinct_optionMember ?_ m options
      intro json given
      obtain ⟨o, there, rfl⟩ := Option.map_eq_some_iff.mp given
      exact (formed.languageOptions o there).members
    · exact Members.distinct_objectMember formed.settings m settings
    · refine Members.distinct_listMember ?_ m presets
      simp [ModuleRef.toJson_distinct]
    · refine Members.distinct_listMember ?_ m omitted
      simp [Json.distinct]
    · exact Members.distinct_objectMember formed.rules m rules
  · exact formed.extra
  · exact formed.extra_unknown

theorem Formed.get?_extra (formed : e.Formed) {key : String} (known : key ∈ knownFields) :
    e.extra.get? key = none :=
  Members.get?_eq_none fun inside => formed.extra_unknown key inside known

theorem get?_members_unknown (e : Entry) {key : String} (unknown : key ∉ knownFields) :
    e.members.get? key = e.extra.get? key := by
  simp only [knownFields, List.mem_cons, List.not_mem_nil, or_false, not_or] at unknown
  simp [members, unknown]

theorem avoids_iff (e : Entry) {key : String} (unknown : key ∉ knownFields) :
    e.toJson.avoids key = true ↔
      key ∉ e.plugins.map (·.1) ∧
        (∀ o ∈ e.languageOptions, o.toJson.avoids key = true) ∧
        (Json.object e.settings).avoids key = true ∧ (Json.object e.rules).avoids key = true ∧
        (Json.object e.extra).avoids key = true := by
  simp only [knownFields, List.mem_cons, List.not_mem_nil, or_false, not_or] at unknown
  obtain ⟨name, files, ignores, plugins, options, settings, presets, omitted, rules⟩ := unknown
  have texts : ∀ json ∈ e.name.map Json.string, json.avoids key = true := by simp [Json.avoids]
  have lists (given : Option (List String)) :
      ∀ json ∈ given.map Json.strings, json.avoids key = true := by
    simp [Json.avoids_strings]
  have references : ∀ json ∈ e.rulePresets.map ModuleRef.toJson, json.avoids key = true := by
    simp [ModuleRef.toJson_avoids]
  have ids : ∀ json ∈ e.omitRules.map Json.string, json.avoids key = true := by simp [Json.avoids]
  have namespaces : (Json.object (e.plugins.map fun p => (p.1, p.2.toJson))).avoids key = true ↔
      key ∉ e.plugins.map (·.1) := by
    have values : ∀ m ∈ e.plugins.map fun p => (p.1, p.2.toJson), m.2.avoids key = true := by
      intro m member
      obtain ⟨p, -, rfl⟩ := List.mem_map.mp member
      exact p.2.toJson_avoids key
    rw [Json.avoids_object_iff, List.map_map]
    exact and_iff_left values
  have inner : (∀ json ∈ e.languageOptions.map LanguageOptions.toJson, json.avoids key = true) ↔
      ∀ o ∈ e.languageOptions, o.toJson.avoids key = true := by
    cases e.languageOptions <;> simp
  rw [toJson, members]
  simp only [Members.avoids_append, Members.avoids_optionMember name,
    Members.avoids_optionMember files, Members.avoids_optionMember ignores,
    Members.avoids_objectMember plugins, Members.avoids_optionMember options,
    Members.avoids_objectMember settings, Members.avoids_listMember presets,
    Members.avoids_listMember omitted, Members.avoids_objectMember rules]
  simp only [iff_true_intro texts, iff_true_intro (lists _), iff_true_intro references,
    iff_true_intro ids, inner, true_and, and_true, and_assoc]
  exact and_congr_left fun _ => namespaces

end Entry

end FormatLint
