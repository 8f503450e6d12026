import FormatLint.Proofs.Json.Distinct
import FormatLint.Proofs.Rules.Layering

/-!
What decoding promises of an entry: keys are distinct at every depth, and what is passed through
has no known name. The default entries keep the same promise, and so does every composition.
-/

namespace FormatLint

namespace LanguageOptions

structure Formed (o : LanguageOptions) : Prop where
  ecmaVersion : ∀ json ∈ o.ecmaVersion, json.distinct = true
  globals : Members.Distinct o.globals
  parserOptions : ∀ json ∈ o.parserOptions, json.distinct = true
  extra : Members.Distinct o.extra
  extra_unknown : ∀ key ∈ o.extra.map (·.1), key ∉ knownFields

end LanguageOptions

namespace Entry

structure Formed (e : Entry) : Prop where
  plugins : (e.plugins.map (·.1)).Nodup
  languageOptions : ∀ options ∈ e.languageOptions, options.Formed
  settings : Members.Distinct e.settings
  rules : Members.Distinct e.rules
  extra : Members.Distinct e.extra
  extra_unknown : ∀ key ∈ e.extra.map (·.1), key ∉ knownFields

def IsDecoded (e : Entry) : Prop := ∃ v d, decode v d = .ok e

end Entry

/-- Entries that were decoded, or composed of entries that were. -/
inductive Obtained : List Entry → Prop
  | decoded {v : View} {d : Datum} {entries : List Entry}
      (read : Entry.decodeList v d = .ok entries) : Obtained entries
  | composed {options : ComposeOptions} {entries : List Entry}
      (custom : ∀ given ∈ options.custom, ∀ e ∈ given, e.IsDecoded)
      (overrides : ∀ sets ∈ options.ruleSets, ∀ replaced ∈ sets.overrides, replaced.2.IsDecoded)
      (additional : ∀ sets ∈ options.ruleSets, ∀ e ∈ sets.additional, e.IsDecoded)
      (composition : compose options = .ok entries) : Obtained entries

section

variable {α β : Type} {v : View}

theorem Decoded.bind_ok {a : Decoded α} {f : α → Decoded β} {value : β}
    (h : a >>= f = .ok value) : ∃ x, a = .ok x ∧ f x = .ok value := by
  cases a with
  | error e => cases h
  | ok x => exact ⟨x, rfl, h⟩

/-- What every step of a fold keeps, the fold keeps. -/
theorem Decoded.foldlM_keeps {P : β → Prop} {f : β → α → Decoded β} {items : List α}
    {before after : β} (step : ∀ x ∈ items, ∀ b c, P b → f b x = .ok c → P c) (start : P before)
    (fold : items.foldlM f before = .ok after) : P after := by
  induction items generalizing before with
  | nil =>
    cases fold
    exact start
  | cons x items ih =>
    rw [List.foldlM_cons] at fold
    obtain ⟨next, first, rest⟩ := Decoded.bind_ok fold
    exact ih (fun y member => step y (List.mem_cons_of_mem _ member))
      (step x List.mem_cons_self before next start first) rest

namespace Datum

mutual

theorem json?_distinct (d : Datum) {json : Json} (read : json? v d = .ok json) :
    json.distinct = true := by
  match d with
  | .scalar w =>
    rw [json?] at read
    split at read
    · cases read
      rfl
    · cases read
      rfl
    · split at read
      · cases read
        rfl
      · cases read
    · cases read
      split <;> rfl
    · cases read
      rfl
    · cases read
  | .list items =>
    rw [json?] at read
    split at read
    · rename_i values itemsRead
      cases read
      rw [Json.distinct, Json.distinctItems_iff]
      exact jsonItems?_distinct items itemsRead
    · cases read
  | .map entries =>
    rw [json?] at read
    split at read
    · rename_i members entriesRead
      cases read
      exact jsonEntries?_distinct entries Members.Distinct.nil entriesRead
    · cases read
  | .tagged _ _ => simp [json?] at read

theorem jsonItems?_distinct (items : List Datum) {values : List Json}
    (read : jsonItems? v items = .ok values) : ∀ json ∈ values, json.distinct = true := by
  match items with
  | [] =>
    cases read
    simp
  | item :: items =>
    rw [jsonItems?] at read
    split at read
    · cases read
    · rename_i value first
      split at read
      · cases read
      · rename_i values rest
        cases read
        intro json member
        rcases List.mem_cons.mp member with rfl | inside
        · exact json?_distinct item first
        · exact jsonItems?_distinct items rest json inside

theorem jsonEntries?_distinct (entries : List (Word × Datum)) {done members : Members}
    (distinct : Members.Distinct done) (read : jsonEntries? v done entries = .ok members) :
    Members.Distinct members := by
  match entries with
  | [] =>
    cases read
    exact distinct
  | (key, value) :: entries =>
    rw [jsonEntries?] at read
    split at read
    · cases read
    · split at read
      · cases read
      · rename_i json valueRead
        exact jsonEntries?_distinct entries
          (distinct.insert (json?_distinct value valueRead)) read

end

theorem members?_distinct {d : Datum} {members : Members} (read : d.members? v = .ok members) :
    Members.Distinct members := by
  obtain ⟨entries, -, rest⟩ := Decoded.bind_ok read
  exact jsonEntries?_distinct entries Members.Distinct.nil rest

theorem fieldOr_ok {fields : List (String × Datum)} {name : String} {fallback value : α}
    {decode : Datum → Decoded α} (read : fieldOr fields name fallback decode = .ok value) :
    value = fallback ∨ ∃ d, decode d = .ok value := by
  obtain ⟨found, -, rest⟩ := Decoded.bind_ok read
  cases found with
  | none =>
    cases rest
    exact .inl rfl
  | some d => exact .inr ⟨d, rest⟩

theorem option?_ok {decode : Datum → Decoded α} {d : Datum} {value : Option α}
    (read : option? decode d = .ok value) : ∀ a ∈ value, decode d = .ok a := by
  rw [option?] at read
  split at read
  · cases read
    simp
  · cases inner : decode d with
    | error e => simp [inner, Except.map] at read
    | ok a =>
      rw [inner] at read
      cases read
      simp

theorem passThrough_ok {fields : List (String × Datum)} {known : List String} {members : Members}
    (read : passThrough fields known = .ok members) :
    Members.Distinct members ∧ ∀ key ∈ members.map (·.1), key ∉ known := by
  refine Decoded.foldlM_keeps ?_ ⟨Members.Distinct.nil, by simp⟩ read
    (P := fun members => Members.Distinct members ∧ ∀ key ∈ members.map (·.1), key ∉ known)
  intro field member before after kept added
  obtain ⟨distinct, unknown⟩ := kept
  obtain ⟨json, valueRead, rest⟩ := Decoded.bind_ok added
  cases rest
  refine ⟨distinct.insert (json?_distinct field.2 valueRead), ?_⟩
  intro key inside
  rcases Members.mem_keys_insert inside with rfl | old
  · have passed := (List.mem_filter.mp member).2
    simpa using passed
  · exact unknown key old

theorem list?_ok {decode : Datum → Decoded α} {d : Datum} {values : List α}
    (read : list? v decode d = .ok values) : ∀ a ∈ values, ∃ d, decode d = .ok a := by
  obtain ⟨items, -, rest⟩ := Decoded.bind_ok read
  clear read
  induction items generalizing values with
  | nil =>
    cases rest
    simp
  | cons item items ih =>
    rw [List.mapM_cons] at rest
    obtain ⟨first, firstRead, rest⟩ := Decoded.bind_ok rest
    obtain ⟨others, othersRead, rest⟩ := Decoded.bind_ok rest
    cases rest
    intro a member
    rcases List.mem_cons.mp member with rfl | inside
    · exact ⟨item, firstRead⟩
    · exact ih othersRead a inside

end Datum

namespace ModuleRef

/-- The names stand in order, and so each of them once. -/
def Ordered (plugins : List (String × α)) : Prop := plugins.Pairwise fun a b => a.1 < b.1

theorem mem_insertSorted {name : String} {value : α} {plugins : List (String × α)}
    {p : String × α} (member : p ∈ insertSorted name value plugins) :
    p.1 = name ∨ ∃ q ∈ plugins, q.1 = p.1 := by
  fun_induction insertSorted name value plugins with
  | case1 =>
    rw [List.mem_singleton.mp member]
    exact .inl rfl
  | case2 v rest =>
    rcases List.mem_cons.mp member with rfl | inside
    · exact .inl rfl
    · exact .inr ⟨p, List.mem_cons_of_mem _ inside, rfl⟩
  | case3 k v rest apart before =>
    rcases List.mem_cons.mp member with rfl | inside
    · exact .inl rfl
    · exact .inr ⟨p, inside, rfl⟩
  | case4 k v rest apart after ih =>
    rcases List.mem_cons.mp member with rfl | inside
    · exact .inr ⟨_, List.mem_cons_self, rfl⟩
    · rcases ih inside with new | old
      · exact .inl new
      · obtain ⟨q, inside, same⟩ := old
        exact .inr ⟨q, List.mem_cons_of_mem _ inside, same⟩

theorem Ordered.insertSorted {name : String} {value : α} {plugins : List (String × α)}
    (ordered : Ordered plugins) : Ordered (insertSorted name value plugins) := by
  fun_induction ModuleRef.insertSorted name value plugins with
  | case1 => exact List.pairwise_singleton _ _
  | case2 v rest =>
    obtain ⟨first, others⟩ := List.pairwise_cons.mp ordered
    exact List.pairwise_cons.mpr ⟨first, others⟩
  | case3 k v rest apart before =>
    obtain ⟨first, others⟩ := List.pairwise_cons.mp ordered
    refine List.pairwise_cons.mpr ⟨?_, ordered⟩
    intro p member
    rcases List.mem_cons.mp member with rfl | inside
    · exact before
    · exact String.lt_trans before (first p inside)
  | case4 k v rest apart after ih =>
    obtain ⟨first, others⟩ := List.pairwise_cons.mp ordered
    refine List.pairwise_cons.mpr ⟨?_, ih others⟩
    intro p member
    rcases mem_insertSorted member with new | old
    · rw [new]
      exact Std.lt_of_le_of_ne (String.not_lt.mp after) (Ne.symm apart)
    · obtain ⟨q, inside, same⟩ := old
      rw [← same]
      exact first q inside

theorem Ordered.nodup {plugins : List (String × α)} (ordered : Ordered plugins) :
    (plugins.map (·.1)).Nodup := by
  rw [List.Nodup, List.pairwise_map]
  refine ordered.imp ?_
  intro a b before same
  rw [same] at before
  exact String.lt_irrefl _ before

theorem decodeMap_nodup {d : Datum} {plugins : List (String × ModuleRef)}
    (read : decodeMap v d = .ok plugins) : (plugins.map (·.1)).Nodup := by
  obtain ⟨fields, -, rest⟩ := Decoded.bind_ok read
  apply Ordered.nodup
  refine Decoded.foldlM_keeps ?_ List.Pairwise.nil rest
  intro field _ before after ordered added
  obtain ⟨r, -, rest⟩ := Decoded.bind_ok added
  cases rest
  exact ordered.insertSorted

end ModuleRef

theorem LanguageOptions.decode_formed {d : Datum} {options : LanguageOptions}
    (read : LanguageOptions.decode v d = .ok options) : options.Formed := by
  obtain ⟨fields, -, read⟩ := Decoded.bind_ok read
  obtain ⟨sourceType, -, read⟩ := Decoded.bind_ok read
  obtain ⟨ecmaVersion, version, read⟩ := Decoded.bind_ok read
  obtain ⟨globalPresets, -, read⟩ := Decoded.bind_ok read
  obtain ⟨globals, set, read⟩ := Decoded.bind_ok read
  obtain ⟨parserOptions, parsed, read⟩ := Decoded.bind_ok read
  obtain ⟨extra, passed, read⟩ := Decoded.bind_ok read
  cases read
  obtain ⟨distinct, unknown⟩ := Datum.passThrough_ok passed
  refine ⟨?_, ?_, ?_, distinct, unknown⟩
  · intro json given
    rcases Datum.fieldOr_ok version with rfl | ⟨d, decoded⟩
    · cases given
    · exact Datum.json?_distinct d (Datum.option?_ok decoded json given)
  · rcases Datum.fieldOr_ok set with rfl | ⟨d, decoded⟩
    · exact Members.Distinct.nil
    · exact Datum.members?_distinct decoded
  · intro json given
    rcases Datum.fieldOr_ok parsed with rfl | ⟨d, decoded⟩
    · cases given
    · exact Datum.json?_distinct d (Datum.option?_ok decoded json given)

theorem Entry.decode_formed {d : Datum} {e : Entry} (read : Entry.decode v d = .ok e) :
    e.Formed := by
  obtain ⟨fields, -, read⟩ := Decoded.bind_ok read
  obtain ⟨name, -, read⟩ := Decoded.bind_ok read
  obtain ⟨files, -, read⟩ := Decoded.bind_ok read
  obtain ⟨ignores, -, read⟩ := Decoded.bind_ok read
  obtain ⟨plugins, named, read⟩ := Decoded.bind_ok read
  obtain ⟨languageOptions, optioned, read⟩ := Decoded.bind_ok read
  obtain ⟨settings, settled, read⟩ := Decoded.bind_ok read
  obtain ⟨rulePresets, -, read⟩ := Decoded.bind_ok read
  obtain ⟨omitRules, -, read⟩ := Decoded.bind_ok read
  obtain ⟨rules, ruled, read⟩ := Decoded.bind_ok read
  obtain ⟨extra, passed, read⟩ := Decoded.bind_ok read
  cases read
  obtain ⟨distinct, unknown⟩ := Datum.passThrough_ok passed
  refine ⟨?_, ?_, ?_, ?_, distinct, unknown⟩
  · rcases Datum.fieldOr_ok named with rfl | ⟨d, decoded⟩
    · exact List.nodup_nil
    · exact ModuleRef.decodeMap_nodup decoded
  · intro options given
    rcases Datum.fieldOr_ok optioned with rfl | ⟨d, decoded⟩
    · cases given
    · exact LanguageOptions.decode_formed (Datum.option?_ok decoded options given)
  · rcases Datum.fieldOr_ok settled with rfl | ⟨d, decoded⟩
    · exact Members.Distinct.nil
    · exact Datum.members?_distinct decoded
  · rcases Datum.fieldOr_ok ruled with rfl | ⟨d, decoded⟩
    · exact Members.Distinct.nil
    · exact Datum.members?_distinct decoded

theorem Entry.IsDecoded.formed {e : Entry} (decoded : e.IsDecoded) : e.Formed := by
  obtain ⟨v, d, read⟩ := decoded
  exact decode_formed read

end

section

variable {layer : Layer} {project : Project}

theorem Layer.reactSettings_distinct (project : Project) :
    Members.Distinct (reactSettings project) := by
  rw [reactSettings]
  cases project.usesReact <;> rfl

theorem Layer.sharedOptions_formed (presets : List ModuleRef) :
    LanguageOptions.Formed {
      sourceType := some project.sourceType
      ecmaVersion := some (text "latest")
      globalPresets := presets
      parserOptions := some (.object [
        ("sourceType", text project.sourceType),
        ("ecmaFeatures", .object [("jsx", .bool true)])]) } := by
  refine ⟨?_, rfl, ?_, rfl, by simp⟩
  · intro json given
    cases given
    rfl
  · intro json given
    cases given
    rfl

theorem LanguageOptions.formed_presets (presets : List ModuleRef) :
    LanguageOptions.Formed { globalPresets := presets } :=
  ⟨by simp, rfl, by simp, rfl, by simp⟩

theorem Entry.formed_of_parts {e : Entry} (plugins : decide (e.plugins.map (·.1)).Nodup = true)
    (options : ∀ options ∈ e.languageOptions, options.Formed)
    (settings : Members.Distinct e.settings) (rules : Members.Distinct e.rules)
    (extra : e.extra = []) : e.Formed := by
  refine ⟨of_decide_eq_true plugins, options, settings, rules, ?_, ?_⟩
  · rw [extra]
    exact Members.Distinct.nil
  · rw [extra]
    simp

theorem Layer.defaultEntry_formed {e : Entry} (given : layer.defaultEntry project = some e) :
    e.Formed := by
  have settings := reactSettings_distinct project
  cases layer with
  | node =>
    rw [defaultEntry] at given
    split at given
    · cases given
      refine Entry.formed_of_parts rfl ?_ settings rfl rfl
      intro options member
      cases member
      exact sharedOptions_formed _
    · cases given
  | jsx =>
    cases given
    refine Entry.formed_of_parts rfl ?_ settings rfl rfl
    intro options member
    cases member
    exact LanguageOptions.formed_presets _
  | test =>
    cases given
    refine Entry.formed_of_parts rfl ?_ rfl rfl rfl
    intro options member
    cases member
    exact LanguageOptions.formed_presets _
  | _ =>
    cases given
    refine Entry.formed_of_parts rfl ?_ settings rfl rfl
    intro options member
    cases member
    exact sharedOptions_formed _

theorem RuleSets.givenWay_formed (sets : RuleSets) {e : Entry}
    (given : Layer.standardJs.defaultEntry project = some e) :
    (sets.givenWay project e).Formed := by
  have formed := Layer.defaultEntry_formed given
  have rules : Members.Distinct (sets.givenWay project e).rules := by
    cases given
    rw [givenWay]
    simp only
    split <;> rfl
  exact ⟨formed.plugins, formed.languageOptions, formed.settings, rules, formed.extra,
    formed.extra_unknown⟩

theorem RuleSets.layered_formed {sets : RuleSets} {e : Entry}
    (overrides : ∀ replaced ∈ sets.overrides, replaced.2.IsDecoded)
    (entry : sets.layered project layer = some e) : e.Formed := by
  rw [layered] at entry
  split at entry
  · rename_i replaced found
    cases entry
    obtain ⟨pair, member, rfl⟩ := Option.map_eq_some_iff.mp found
    exact (overrides pair (List.mem_of_find?_eq_some member)).formed
  · split at entry
    · cases entry
    · split at entry
      · rename_i standard
        subst standard
        obtain ⟨default, given, rfl⟩ := Option.map_eq_some_iff.mp entry
        exact sets.givenWay_formed given
      · exact Layer.defaultEntry_formed entry

/-- What was decoded or composed keeps the promise of decoding. -/
theorem Obtained.formed {entries : List Entry} (obtained : Obtained entries) :
    ∀ e ∈ entries, e.Formed := by
  cases obtained with
  | decoded read =>
    intro e member
    obtain ⟨d, decoded⟩ := Datum.list?_ok read e member
    exact Entry.decode_formed decoded
  | @composed options _ custom overrides additional composition =>
    rcases compose_cases options with ⟨given, sets, -, -, refused⟩ | ⟨given, whole, -, composed⟩ |
      ⟨layer, -, -, refused⟩ | ⟨-, -, composed⟩
    · rw [refused] at composition
      cases composition
    · rw [composed] at composition
      cases composition
      intro e member
      exact (custom _ whole e member).formed
    · rw [refused] at composition
      cases composition
    · rw [composed] at composition
      cases composition
      intro e member
      rcases List.mem_append.mp member with layered | added
      · obtain ⟨layer, -, entry⟩ := List.mem_filterMap.mp layered
        refine RuleSets.layered_formed ?_ entry
        cases sets : options.ruleSets with
        | none => simp
        | some given => exact overrides given sets
      · cases sets : options.ruleSets with
        | none => simp [sets] at added
        | some given =>
          rw [sets, Option.getD_some, Option.mem_toList] at added
          exact (additional given sets e added).formed

end

end FormatLint
