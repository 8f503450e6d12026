import FormatLint.Proofs.ConfigModule.Translation
import FormatLint.Proofs.Rules.Members
import FormatLint.Proofs.Script.Evaluation

/-!
What the object of an entry holds. The data of an entry is read in one of two ways: as it stands,
where every member is a property, or as literals of a script, where the member `__proto__` is the
prototype. Main statement: an object that holds an entry read as literals holds it as it stands
exactly if no key of the entry is `__proto__`.
-/

namespace FormatLint.ConfigModule

open Script

section

variable {ω : Type} (host : Host ω) (modules : String → ω) (build : Fields ω → Value ω)

/-- The value of a reference: its package, and then its members one after the other. -/
def resolve (r : ModuleRef) : Option ω := r.member.foldlM host.member (modules r.package)

/-- The value that presets give a key: that of the last one that has it. -/
def presetValue (presets : List ModuleRef) (key : String) : Option (Value ω) :=
  presets.reverse.findSome? fun r =>
    (resolve host modules r).bind fun w => ((host.own w).lookup key).map .foreign

/-- Each key once, with its own value or else the one below it. -/
def Overlaid (own : Members) (below : String → Option (Value ω)) (fields : Fields ω) : Prop :=
  (fields.map (·.1)).Nodup ∧ ∀ key,
    fields.lookup key = ((Value.ofJson build (.object own)).property? key).or (below key)

/-- A field that has the namespace of a plugin and the value of its reference. -/
def Binds (plugin : String × ModuleRef) (field : String × Value ω) : Prop :=
  field.1 = plugin.1 ∧ ∃ w, resolve host modules plugin.2 = some w ∧ field.2 = .foreign w

/-- The value of the plugins: nothing, or an object of the values of all references. -/
def DescribesPlugins (plugins : List (String × ModuleRef)) (value : Option (Value ω)) : Prop :=
  if plugins.isEmpty then value = none
  else ∃ fields, value = some (build fields) ∧ List.Forall₂ (Binds host modules) plugins fields

/-- What the rules of an entry lie over: its presets without the rules that it omits. -/
def kept (e : Entry) (key : String) : Option (Value ω) :=
  if key ∈ e.omitRules then none else presetValue host modules e.rulePresets key

/-- The value of the rules of an entry: presets with its own rules over them, or data alone. -/
def DescribesRules (e : Entry) (value : Option (Value ω)) : Prop :=
  if hasRuleExpression e then
    ∃ rules, value = some (.object none rules) ∧ Overlaid build e.rules (kept host modules e) rules
  else value = if e.rules.isEmpty then none else some (.ofJson build (.object e.rules))

structure DescribesOptions (options : LanguageOptions) (fields : Fields ω) : Prop where
  distinct : (fields.map (·.1)).Nodup
  sourceType : fields.lookup "sourceType" = options.sourceType.map .string
  ecmaVersion : fields.lookup "ecmaVersion" = options.ecmaVersion.map (.ofJson build)
  parserOptions : fields.lookup "parserOptions" = options.parserOptions.map (.ofJson build)
  globalPresets : fields.lookup "globalPresets" = none
  globals : ∃ globals, fields.lookup "globals" = some (.object none globals) ∧
    Overlaid build options.globals (presetValue host modules options.globalPresets) globals
  extra : ∀ key, key ∉ LanguageOptions.knownFields →
    fields.lookup key = (Value.ofJson build (.object options.extra)).property? key

/-- The value of the options of an entry, which is there exactly when they are. -/
def DescribesLanguage : Option LanguageOptions → Option (Value ω) → Prop
  | none, value => value = none
  | some options, value => ∃ fields, value = some (.object none fields) ∧
      DescribesOptions host modules build options fields

/-- The properties of the object of an entry, where data that is an object is built of its members
    in a given way. -/
structure Describes (e : Entry) (fields : Fields ω) : Prop where
  distinct : (fields.map (·.1)).Nodup
  name : fields.lookup "name" = e.name.map .string
  files : fields.lookup "files" = e.files.map fun files => .array (files.map .string)
  ignores : fields.lookup "ignores" = e.ignores.map fun ignores => .array (ignores.map .string)
  settings : fields.lookup "settings" =
    if e.settings.isEmpty then none else some (.ofJson build (.object e.settings))
  plugins : DescribesPlugins host modules build e.plugins (fields.lookup "plugins")
  languageOptions :
    DescribesLanguage host modules build e.languageOptions (fields.lookup "languageOptions")
  rules : DescribesRules host modules build e (fields.lookup "rules")
  rulePresets : fields.lookup "rulePresets" = none
  omitRules : fields.lookup "omitRules" = none
  extra : ∀ key, key ∉ Entry.knownFields →
    fields.lookup key = (Value.ofJson build (.object e.extra)).property? key

/-- A value that is the object of an entry. -/
def Means (e : Entry) (value : Value ω) : Prop :=
  ∃ fields, value = .object none fields ∧ Describes host modules build e fields

end

section

variable {ω : Type} {host : Host ω} {modules : String → ω} {fields : Fields ω}

theorem property?_literal (host : Host ω) (members : Members) (key : String) :
    (Value.ofJson (.literal host) (.object members)).property? key =
      if key = prototypeKey then none else (members.get? key).map (.ofJson (.literal host)) :=
  lookup_literalFields host members key

theorem property?_object (members : Members) (key : String) :
    (Value.ofJson (.object none) (.object members) : Value ω).property? key =
      (members.get? key).map (.ofJson (.object none)) :=
  lookup_ofJsonMembers _ members key

theorem ofJson_ne_foreign (value : Json) (w : ω) :
    Value.ofJson (.object none) value ≠ .foreign w := by
  cases value <;> simp [Value.ofJson]

theorem map_ofJson_eq_iff (host : Host ω) (value : Option Json) :
    value.map (Value.ofJson (.literal host)) = value.map (.ofJson (.object none)) ↔
      ∀ json ∈ value, json.avoids prototypeKey = true := by
  cases value with
  | none => simp
  | some json => simp [ofJson_literal_eq_iff]

/-- Over what packages give, data as a literal and as it stands have the same properties exactly if
    they are the same. -/
theorem property?_eq_iff (host : Host ω) {own : Members} (distinct : Members.Distinct own)
    (below : String → Option (Value ω))
    (foreign : ∀ key value, below key = some value → ∃ w, value = .foreign w) :
    (∀ key, ((Value.ofJson (.literal host) (.object own)).property? key).or (below key) =
      ((Value.ofJson (.object none) (.object own)).property? key).or (below key)) ↔
        (Json.object own).avoids prototypeKey = true := by
  constructor
  · intro same
    have found (m : String × Json) (member : m ∈ own) : own.get? m.1 = some m.2 :=
      Members.get?_of_mem (Members.distinct_iff.mp distinct).1 member
    have new : prototypeKey ∉ own.map (·.1) := by
      intro inside
      obtain ⟨m, member, named⟩ := List.mem_map.mp inside
      have given := same m.1
      rw [property?_literal, if_pos named, property?_object, found m member] at given
      obtain ⟨w, value⟩ := foreign m.1 _ given
      exact ofJson_ne_foreign m.2 w value
    refine Json.avoids_object_iff.mpr ⟨new, fun m member => ?_⟩
    have other : m.1 ≠ prototypeKey := fun named => new (named ▸ List.mem_map_of_mem member)
    have given := same m.1
    rw [property?_literal, if_neg other, property?_object, found m member] at given
    exact (ofJson_literal_eq_iff host m.2).mp (Option.some.inj given)
  · intro avoided key
    rw [(ofJson_literal_eq_iff host (.object own)).mpr avoided]

theorem presetValue_foreign {presets : List ModuleRef} {key : String} {value : Value ω}
    (given : presetValue host modules presets key = some value) : ∃ w, value = .foreign w := by
  obtain ⟨r, -, found⟩ := List.exists_of_findSome?_eq_some given
  obtain ⟨v, -, inner⟩ := Option.bind_eq_some_iff.mp found
  obtain ⟨w, -, rfl⟩ := Option.map_eq_some_iff.mp inner
  exact ⟨w, rfl⟩

theorem kept_foreign {e : Entry} {key : String} {value : Value ω}
    (given : kept host modules e key = some value) : ∃ w, value = .foreign w := by
  rw [kept] at given
  split at given
  · cases given
  · exact presetValue_foreign given

theorem overlaid_iff {own : Members} (distinct : Members.Distinct own)
    {below : String → Option (Value ω)}
    (foreign : ∀ key value, below key = some value → ∃ w, value = .foreign w)
    (overlaid : Overlaid (.literal host) own below fields) :
    Overlaid (.object none) own below fields ↔ (Json.object own).avoids prototypeKey = true := by
  rw [← property?_eq_iff host distinct below foreign, Overlaid]
  constructor
  · intro again key
    rw [← overlaid.2, again.2]
  · intro same
    exact ⟨overlaid.1, fun key => by rw [overlaid.2, same]⟩

/-- What is passed through beside known fields. -/
theorem passed_iff {known : List String} {extra : Members} (distinct : Members.Distinct extra)
    (unknown : ∀ key ∈ extra.map (·.1), key ∉ known)
    (passed : ∀ key, key ∉ known →
      fields.lookup key = (Value.ofJson (.literal host) (.object extra)).property? key) :
    (∀ key, key ∉ known →
      fields.lookup key = (Value.ofJson (.object none) (.object extra)).property? key) ↔
        (Json.object extra).avoids prototypeKey = true := by
  rw [← property?_eq_iff host distinct (fun _ => none) (by simp)]
  simp only [Option.or_none]
  constructor
  · intro again key
    by_cases new : key ∈ known
    · have absent := Members.get?_eq_none fun inside => unknown key inside new
      rw [property?_literal, property?_object, absent, Option.map_none, Option.map_none, ite_self]
    · rw [← passed key new, again key new]
  · intro same key new
    rw [passed key new, same]

theorem keys_of_plugins {plugins : List (String × ModuleRef)} {bound : Fields ω}
    (each : List.Forall₂ (Binds host modules) plugins bound) :
    bound.map (·.1) = plugins.map (·.1) := by
  induction each with
  | nil => rfl
  | cons first rest ih => rw [List.map_cons, List.map_cons, first.1, ih]

theorem describesPlugins_iff {plugins : List (String × ModuleRef)} {value : Option (Value ω)}
    (described : DescribesPlugins host modules (.literal host) plugins value) :
    DescribesPlugins host modules (.object none) plugins value ↔
      prototypeKey ∉ plugins.map (·.1) := by
  rw [DescribesPlugins] at described ⊢
  split at described
  · rename_i empty
    rw [if_pos empty, List.isEmpty_iff.mp empty]
    simp [described]
  · rename_i filled
    rw [if_neg filled]
    obtain ⟨bound, rfl, each⟩ := described
    constructor
    · intro again
      obtain ⟨own, same, others⟩ := again
      have fields : bound.delete prototypeKey = own := (Value.object.inj (Option.some.inj same)).2
      rw [← keys_of_plugins others, ← fields]
      exact Fields.not_mem_delete _ _
    · intro new
      rw [← keys_of_plugins each] at new
      exact ⟨bound, by rw [Value.literal_new host new], each⟩

theorem describesOptions_iff {options : LanguageOptions} (formed : options.Formed)
    (described : DescribesOptions host modules (.literal host) options fields) :
    DescribesOptions host modules (.object none) options fields ↔
      options.toJson.avoids prototypeKey = true := by
  obtain ⟨globals, found, overlaid⟩ := described.globals
  have merged := overlaid_iff formed.globals (fun _ _ => presetValue_foreign) overlaid
  have passed := passed_iff formed.extra formed.extra_unknown described.extra
  rw [options.avoids_iff (by decide), ← map_ofJson_eq_iff host, ← map_ofJson_eq_iff host, ← merged,
    ← passed, ← described.ecmaVersion, ← described.parserOptions]
  constructor
  · intro again
    obtain ⟨own, same, laid⟩ := again.globals
    obtain rfl : globals = own := (Value.object.inj (Option.some.inj (found.symm.trans same))).2
    exact ⟨again.ecmaVersion, laid, again.parserOptions, again.extra⟩
  · intro ⟨version, laid, parser, extra⟩
    exact { described with
      ecmaVersion := version, parserOptions := parser, extra
      globals := ⟨globals, found, laid⟩ }

theorem describesLanguage_iff {options : Option LanguageOptions}
    (formed : ∀ o ∈ options, o.Formed) {value : Option (Value ω)}
    (described : DescribesLanguage host modules (.literal host) options value) :
    DescribesLanguage host modules (.object none) options value ↔
      ∀ o ∈ options, o.toJson.avoids prototypeKey = true := by
  cases options with
  | none => simpa [DescribesLanguage] using described
  | some options =>
    obtain ⟨fields, rfl, inner⟩ := described
    have read := describesOptions_iff (formed options rfl) inner
    simp [DescribesLanguage, read]

/-- Settings, or rules that are data alone. -/
theorem object_iff (host : Host ω) (members : Members) {value : Option (Value ω)}
    (described : value =
      if members.isEmpty then none else some (.ofJson (.literal host) (.object members))) :
    (value = if members.isEmpty then none else some (.ofJson (.object none) (.object members))) ↔
      (Json.object members).avoids prototypeKey = true := by
  rw [described, ← ofJson_literal_eq_iff host]
  cases members with
  | nil => simp [Value.ofJson, ofJsonMembers, Value.literal_new host]
  | cons m members => simp

theorem describesRules_iff {e : Entry} (distinct : Members.Distinct e.rules)
    {value : Option (Value ω)} (described : DescribesRules host modules (.literal host) e value) :
    DescribesRules host modules (.object none) e value ↔
      (Json.object e.rules).avoids prototypeKey = true := by
  rw [DescribesRules] at described ⊢
  split at described
  · rename_i written
    obtain ⟨rules, rfl, overlaid⟩ := described
    rw [if_pos written, ← overlaid_iff distinct (fun _ _ => kept_foreign) overlaid]
    constructor
    · intro again
      obtain ⟨own, same, laid⟩ := again
      obtain rfl : rules = own := (Value.object.inj (Option.some.inj same)).2
      exact laid
    · intro laid
      exact ⟨rules, rfl, laid⟩
  · rename_i plain
    rw [if_neg plain]
    exact object_iff host e.rules described

/-- An object that means an entry read as a literal means it as it stands exactly if the entry has
    no key that names a prototype. -/
theorem means_iff {e : Entry} (formed : e.Formed) {value : Value ω}
    (means : Means host modules (.literal host) e value) :
    Means host modules (.object none) e value ↔ e.toJson.avoids prototypeKey = true := by
  obtain ⟨fields, rfl, described⟩ := means
  have plugins := describesPlugins_iff described.plugins
  have options := describesLanguage_iff formed.languageOptions described.languageOptions
  have settings := object_iff host e.settings described.settings
  have rules := describesRules_iff formed.rules described.rules
  have extra := passed_iff formed.extra formed.extra_unknown described.extra
  rw [e.avoids_iff (by decide), ← plugins, ← options, ← settings, ← rules, ← extra]
  constructor
  · intro again
    obtain ⟨own, same, read⟩ := again
    obtain rfl : fields = own := (Value.object.inj same).2
    exact ⟨read.plugins, read.languageOptions, read.settings, read.rules, read.extra⟩
  · intro ⟨plugins, languageOptions, settings, rules, extra⟩
    exact ⟨fields, rfl, { described with plugins, languageOptions, settings, rules, extra }⟩

end

end FormatLint.ConfigModule
