import FormatLint.Proofs.ConfigModule.Description
import FormatLint.Proofs.Text.Utf8

/-!
What the configuration means as a script. Main statement: the module imports each package once, and
it exports one object for every entry, with the entry's data, the values of its references, and its
presets merged under its own rules and globals. The data is read as literals, so that the object is
that of the entry as it stands exactly if no key of the entry is `__proto__`.
-/

namespace FormatLint.ConfigModule

open Script

section

variable {ω : Type} (host : Host ω) (modules : String → ω)

/-- A result that is there exactly when the references have values, and what then holds of it. -/
structure Yields {α : Type} (references : List ModuleRef) (result : Option α) (P : α → Prop) :
    Prop where
  isSome : result.isSome = true ↔ ∀ r ∈ references, (resolve host modules r).isSome = true
  holds : ∀ a, result = some a → P a

end

namespace Yields

variable {ω α β : Type} {host : Host ω} {modules : String → ω} {references more : List ModuleRef}
  {result : Option α} {P : α → Prop}

theorem pure {a : α} (h : P a) : Yields host modules [] (some a) P :=
  ⟨by simp, fun _ same => Option.some.inj same ▸ h⟩

theorem imp {Q : α → Prop} (first : Yields host modules references result P)
    (h : ∀ a, P a → Q a) : Yields host modules references result Q :=
  ⟨first.isSome, fun a same => h a (first.holds a same)⟩

theorem bind {f : α → Option β} {Q : β → Prop} (first : Yields host modules references result P)
    (second : ∀ a, P a → Yields host modules more (f a) Q) :
    Yields host modules (references ++ more) (result.bind f) Q := by
  constructor
  · simp only [List.mem_append, or_imp, forall_and, ← first.isSome]
    cases result with
    | none => simp
    | some a => simp [(second a (first.holds a rfl)).isSome]
  · intro b same
    obtain ⟨a, found, rest⟩ := Option.bind_eq_some_iff.mp same
    exact (second a (first.holds a found)).holds b rest

theorem next {f : α → Option β} {Q : β → Prop} (first : Yields host modules references result P)
    (second : ∀ a, P a → ∃ b, f a = some b ∧ Q b) :
    Yields host modules references (result.bind f) Q := by
  have whole : Yields host modules (references ++ []) (result.bind f) Q := by
    refine first.bind fun a h => ?_
    obtain ⟨b, same, holds⟩ := second a h
    rw [same]
    exact pure holds
  rwa [List.append_nil] at whole

end Yields

theorem bindingName_injective {m n : Nat} (same : bindingName m = bindingName n) : m = n := by
  apply Utf8.numeral_injective
  rw [← String.toList_inj] at same ⊢
  simpa [bindingName] using same

/-- No word of the language is the name of a binding. -/
theorem bindingName_ne {index : Nat} {text : String} (other : text.toList.head? ≠ some 'm') :
    bindingName index ≠ text := by
  intro same
  rw [← same] at other
  simp [bindingName] at other

def bindings (start : Nat) (table : Imports) : List (String × String) :=
  table.mapIdx fun index package => (bindingName (start + index), package)

theorem bindings_cons (start : Nat) (package : String) (table : Imports) :
    bindings start (package :: table) =
      (bindingName start, package) :: bindings (start + 1) table := by
  simp only [bindings, List.mapIdx_cons, Nat.add_zero, Nat.add_comm 1, Nat.add_assoc]

theorem lookup_bindings {table : Imports} {package : String} (known : package ∈ table)
    (start : Nat) :
    (bindings start table).lookup (bindingName (start + table.idxOf package)) = some package := by
  induction table generalizing start with
  | nil => cases known
  | cons first table ih =>
    rw [bindings_cons]
    by_cases here : first = package
    · simp [here]
    · have later : package ∈ table := by
        rcases List.mem_cons.mp known with same | inside
        · exact absurd same.symm here
        · exact inside
      have apart :
          (bindingName (start + (table.idxOf package + 1)) == bindingName start) = false := by
        rw [beq_eq_false_iff_ne]
        intro same
        have := bindingName_injective same
        omega
      rw [List.idxOf_cons_ne _ here, List.lookup_cons, apart]
      have rest := ih later (start + 1)
      rwa [Nat.add_assoc, Nat.add_comm 1] at rest

theorem bound_from {table : Imports} {start : Nat} {name : String}
    (bound : name ∈ (bindings start table).map (·.1)) :
    ∃ index, start ≤ index ∧ name = bindingName index := by
  induction table generalizing start with
  | nil => simp [bindings] at bound
  | cons first table ih =>
    rw [bindings_cons, List.map_cons] at bound
    rcases List.mem_cons.mp bound with rfl | inside
    · exact ⟨start, Nat.le_refl _, rfl⟩
    · obtain ⟨index, later, same⟩ := ih inside
      exact ⟨index, by omega, same⟩

theorem nodup_bindings (table : Imports) (start : Nat) :
    ((bindings start table).map (·.1)).Nodup := by
  induction table generalizing start with
  | nil => exact List.nodup_nil
  | cons first table ih =>
    rw [bindings_cons, List.map_cons, List.nodup_cons]
    refine ⟨?_, ih (start + 1)⟩
    intro again
    obtain ⟨index, later, same⟩ := bound_from again
    have := bindingName_injective same
    omega

def scope {ω : Type} (modules : String → ω) (table : Imports) (name : String) : Option ω :=
  ((bindings 0 table).lookup name).map modules

section

variable {ω : Type} {host : Host ω} {modules : String → ω} {table : Imports}

theorem word_bindingName (index : Nat) :
    word (scope modules table) (bindingName index) =
      (scope modules table (bindingName index)).map .foreign := by
  rw [word, if_neg (bindingName_ne (by decide)), if_neg (bindingName_ne (by decide)),
    if_neg (bindingName_ne (by decide))]

theorem eval_lookups (env : String → Option ω) (keys : List String) (e : Expr) :
    (keys.foldl Expr.member e).eval host env =
      (e.eval host env).bind fun v => keys.foldlM (fun v key => v.lookup host key) v := by
  induction keys generalizing e with
  | nil => simp
  | cons key keys ih =>
    rw [List.foldl_cons, ih, Expr.eval]
    simp only [Option.bind_eq_bind, Option.bind_assoc, List.foldlM_cons]

theorem foldlM_lookup (host : Host ω) (keys : List String) (w : ω) :
    keys.foldlM (fun v key => v.lookup host key) (Value.foreign w) =
      (keys.foldlM host.member w).map .foreign := by
  induction keys generalizing w with
  | nil => rfl
  | cons key keys ih =>
    rw [List.foldlM_cons, List.foldlM_cons, Value.lookup]
    cases host.member w key with
    | none => rfl
    | some inner => exact ih inner

/-- A reference has the value that it resolves to. -/
theorem eval_reference {r : ModuleRef} (known : r.package ∈ table) :
    (reference table r).eval host (scope modules table) =
      (resolve host modules r).map .foreign := by
  have bound := lookup_bindings known 0
  rw [Nat.zero_add] at bound
  rw [reference, eval_lookups, Expr.eval, word_bindingName, scope, bound]
  exact foldlM_lookup host r.member (modules r.package)

def foreignFields (host : Host ω) (w : ω) : Fields ω :=
  (host.own w).map fun (key, v) => (key, .foreign v)

theorem nodup_foreignFields (host : Host ω) (w : ω) :
    ((foreignFields host w).map (·.1)).Nodup := by
  rw [foreignFields, List.map_map]
  exact host.own_distinct w

theorem lookup_foreignFields (host : Host ω) (w : ω) (key : String) :
    (foreignFields host w).lookup key = ((host.own w).lookup key).map .foreign := by
  rw [foreignFields]
  induction host.own w with
  | nil => rfl
  | cons field fields ih =>
    rw [List.map_cons, List.lookup_cons, List.lookup_cons]
    cases key == field.1 with
    | true => rfl
    | false => exact ih

theorem presetValue_cons (host : Host ω) (modules : String → ω) (r : ModuleRef)
    (presets : List ModuleRef) (key : String) :
    presetValue host modules (r :: presets) key = (presetValue host modules presets key).or
      ((resolve host modules r).bind fun w => ((host.own w).lookup key).map .foreign) := by
  rw [presetValue, presetValue, List.reverse_cons, List.findSome?_append]
  simp

/-- A spread of a package's value copies its own properties over the fields before it. -/
theorem evalParts_spread {r : ModuleRef} (known : r.package ∈ table) (o : Draft ω)
    (parts : List Part) :
    evalParts host (scope modules table) o (.spread (reference table r) :: parts) =
      (resolve host modules r).bind fun w =>
        evalParts host (scope modules table) (o.spread (foreignFields host w)) parts := by
  rw [evalParts, eval_reference known]
  cases resolve host modules r <;> rfl

theorem yields_resolve (host : Host ω) (modules : String → ω) (r : ModuleRef) :
    Yields host modules [r] (resolve host modules r)
      (fun w => resolve host modules r = some w) :=
  ⟨by simp, fun _ same => same⟩

/-- Presets are merged in order, over the fields before them. -/
theorem yields_spreads {presets : List ModuleRef} (known : ∀ r ∈ presets, r.package ∈ table)
    (o : Draft ω) (distinct : (o.fields.map (·.1)).Nodup) :
    Yields host modules presets
      (evalParts host (scope modules table) o (spreads table presets))
      (fun merged => merged.prototype = o.prototype ∧ (merged.fields.map (·.1)).Nodup ∧
        ∀ key, merged.fields.lookup key =
          (presetValue host modules presets key).or (o.fields.lookup key)) := by
  induction presets generalizing o with
  | nil => exact Yields.pure ⟨rfl, distinct, fun key => rfl⟩
  | cons r presets ih =>
    rw [spreads, List.map_cons, evalParts_spread (known r List.mem_cons_self)]
    refine Yields.bind (yields_resolve host modules r) ?_
    intro w resolved
    have rest := ih (fun s member => known s (List.mem_cons_of_mem _ member))
      (o.spread (foreignFields host w)) (Fields.nodup_assign distinct)
    refine rest.imp ?_
    intro merged described
    obtain ⟨prototype, nodup, lookups⟩ := described
    refine ⟨prototype, nodup, fun key => ?_⟩
    rw [lookups, Draft.spread, Fields.lookup_assign _ (nodup_foreignFields host w),
      lookup_foreignFields, presetValue_cons, resolved, Option.or_assoc]
    rfl

/-- An object of references is made of their values, once all of these are known. -/
theorem evalParts_bindings (env : String → Option ω) (plugins : List (String × ModuleRef))
    (o : Draft ω) :
    evalParts host env o (plugins.map fun (k, r) => .property (.quoted k) (reference table r)) =
      (plugins.mapM fun p => ((reference table p.2).eval host env).map (p.1, ·)).bind o.putAll := by
  induction plugins generalizing o with
  | nil => rfl
  | cons plugin plugins ih =>
    obtain ⟨key, r⟩ := plugin
    rw [List.map_cons, evalParts, List.mapM_cons]
    simp only [Option.bind_eq_bind, Option.bind_map, Option.bind_assoc, ih]
    congr 1
    funext value
    rw [Option.bind_comm]
    simp only [Function.comp_apply, Option.bind_assoc, Option.pure_def, Option.bind_some,
      Draft.putAll_cons, Key.text]

/-- The values of references under their namespaces. -/
theorem yields_bindings {plugins : List (String × ModuleRef)}
    (known : ∀ p ∈ plugins, p.2.package ∈ table) :
    Yields host modules (plugins.map (·.2))
      (plugins.mapM fun p => ((reference table p.2).eval host (scope modules table)).map (p.1, ·))
      (List.Forall₂ (Binds host modules) plugins) := by
  induction plugins with
  | nil => exact Yields.pure .nil
  | cons plugin plugins ih =>
    obtain ⟨key, r⟩ := plugin
    have rest := ih fun p member => known p (List.mem_cons_of_mem _ member)
    rw [List.mapM_cons, eval_reference (known (key, r) List.mem_cons_self), Option.map_map,
      Option.bind_eq_bind, Option.bind_map]
    refine Yields.bind (yields_resolve host modules r) ?_
    intro w resolved
    refine rest.next ?_
    intro bound others
    exact ⟨_, rfl, .cons ⟨rfl, w, resolved, rfl⟩ others⟩

def setIf (fields : Fields ω) (key : String) : Option (Value ω) → Fields ω
  | none => fields
  | some value => fields.set key value

theorem lookup_setIf (fields : Fields ω) (key : String) (value : Option (Value ω)) (k : String) :
    (setIf fields key value).lookup k =
      if k = key then value.or (fields.lookup k) else fields.lookup k := by
  cases value with
  | none => simp [setIf]
  | some value => simp [setIf, Fields.lookup_set]

theorem nodup_setIf {fields : Fields ω} (distinct : (fields.map (·.1)).Nodup) (key : String)
    (value : Option (Value ω)) : ((setIf fields key value).map (·.1)).Nodup := by
  cases value with
  | none => exact distinct
  | some value => exact Fields.nodup_set distinct

theorem yields_pluginParts {plugins : List (String × ModuleRef)}
    (known : ∀ p ∈ plugins, p.2.package ∈ table) (distinct : (plugins.map (·.1)).Nodup)
    (o : Draft ω) :
    Yields host modules (plugins.map (·.2))
      (evalParts host (scope modules table) o (pluginParts table plugins))
      (fun out => ∃ value, out = { o with fields := setIf o.fields "plugins" value } ∧
        DescribesPlugins host modules (.literal host) plugins value) := by
  simp only [pluginParts, DescribesPlugins]
  split
  · rename_i empty
    rw [List.isEmpty_iff.mp empty]
    exact Yields.pure ⟨none, rfl, by simp⟩
  · rw [evalParts_object _ _ (by decide), evalParts_bindings, Option.bind_assoc]
    refine (yields_bindings known).next ?_
    intro bound each
    have nodup : (bound.map (·.1)).Nodup := (keys_of_plugins each).symm ▸ distinct
    have made := Draft.finish_putAll host nodup
    obtain ⟨last, put, finished⟩ := Option.map_eq_some_iff.mp made
    rw [put, Option.bind_some, finished]
    exact ⟨_, rfl, some (.literal host bound), rfl, bound, rfl, each⟩

theorem overlaid_assign {own : Members} (distinct : Members.Distinct own) {fields : Fields ω}
    {below : String → Option (Value ω)} (nodup : (fields.map (·.1)).Nodup)
    (lookups : ∀ key, fields.lookup key = below key) :
    Overlaid (.literal host) own below (fields.assign (literalFields host own)) := by
  refine ⟨Fields.nodup_assign nodup, fun key => ?_⟩
  rw [Fields.lookup_assign _ (nodup_literalFields host distinct), lookups]
  rfl

theorem yields_globals {presets : List ModuleRef} (known : ∀ r ∈ presets, r.package ∈ table)
    {globals : Members} (distinct : Members.Distinct globals) :
    Yields host modules presets
      (evalParts host (scope modules table) {}
        (spreads table presets ++ [.spread (literal globals)]))
      (fun merged => merged.prototype = none ∧
        Overlaid (.literal host) globals (presetValue host modules presets) merged.fields) := by
  have merged : Yields host modules presets _ _ := yields_spreads known {} (by simp)
  rw [evalParts_append]
  refine merged.next ?_
  intro o described
  obtain ⟨prototype, nodup, lookups⟩ := described
  rw [literal, evalParts_literal _ _ distinct]
  refine ⟨_, rfl, prototype, overlaid_assign distinct nodup fun key => ?_⟩
  rw [lookups]
  simp

theorem texts?_strings (build : Fields ω → Value ω) (texts : List String) :
    (Value.ofJson build (Json.strings texts)).texts? = some texts := by
  rw [Json.strings, Value.ofJson, Value.texts?]
  induction texts with
  | nil => rfl
  | cons text texts ih =>
    rw [List.map_cons, ofJsonItems, List.mapM_cons, ih]
    rfl

theorem yields_omit {e : Entry} (known : ∀ r ∈ e.rulePresets, r.package ∈ table) :
    Yields host modules e.rulePresets
      ((Expr.call "omit" (.object (spreads table e.rulePresets))
        (.ofJson (Json.strings e.omitRules))).eval host (scope modules table))
      (fun value => ∃ fields, value = .object none fields ∧ (fields.map (·.1)).Nodup ∧
        ∀ key, fields.lookup key = kept host modules e key) := by
  have merged : Yields host modules e.rulePresets _ _ := yields_spreads known {} (by simp)
  have ids := eval_ofJson host (scope modules table) _ (Json.distinct_strings e.omitRules)
  rw [Expr.eval, if_pos rfl, Expr.eval, ids]
  simp only [Option.bind_eq_bind, Option.pure_def, Option.bind_assoc, Option.bind_some, Value.own,
    Draft.finish, texts?_strings]
  refine merged.next ?_
  intro o described
  obtain ⟨-, nodup, lookups⟩ := described
  refine ⟨_, rfl, _, rfl, Fields.nodup_without nodup _, fun key => ?_⟩
  rw [Fields.lookup_without nodup, lookups, kept]
  simp

theorem yields_ruleParts {e : Entry} (known : ∀ r ∈ e.rulePresets, r.package ∈ table)
    (distinct : Members.Distinct e.rules) (o : Draft ω) :
    Yields host modules e.rulePresets
      (evalParts host (scope modules table) o (ruleParts table e))
      (fun out => ∃ value, out = { o with fields := setIf o.fields "rules" value } ∧
        if hasRuleExpression e then ∃ rules, value = some (.object none rules) ∧
          Overlaid (.literal host) e.rules (kept host modules e) rules
        else value = none) := by
  rw [ruleParts]
  split
  · rename_i written
    rw [evalParts_object _ _ (by decide), evalParts]
    simp only [Option.bind_eq_bind, Option.bind_assoc]
    refine (yields_omit known).next ?_
    intro value described
    obtain ⟨base, rfl, nodup, lookups⟩ := described
    rw [Value.own, Option.bind_some, literal, evalParts_literal _ _ distinct, Draft.spread,
      Draft.spread, Fields.assign_nil nodup]
    exact ⟨_, rfl, _, rfl, _, rfl, overlaid_assign distinct nodup lookups⟩
  · rename_i plain
    have none : e.rulePresets = [] ∧ e.omitRules = [] := by
      simpa [hasRuleExpression] using plain
    rw [none.1]
    exact Yields.pure ⟨Option.none, rfl, rfl⟩

theorem formed_plainOptions {options : LanguageOptions} (formed : options.Formed) :
    LanguageOptions.Formed { options with globalPresets := [], globals := [] } :=
  ⟨formed.ecmaVersion, Members.Distinct.nil, formed.parserOptions, formed.extra,
    formed.extra_unknown⟩

theorem describesOptions_set {options : LanguageOptions} (formed : options.Formed)
    {globals : Fields ω} (overlaid : Overlaid (.literal host) options.globals
      (presetValue host modules options.globalPresets) globals) :
    DescribesOptions host modules (.literal host) options
      (Fields.set (literalFields host { options with globalPresets := [], globals := [] }.members)
        "globals" (.object none globals)) := by
  have unknown (key : String) (known : key ∈ LanguageOptions.knownFields) :
      options.extra.get? key = none := formed.get?_extra known
  have source := unknown "sourceType" (by decide)
  have version := unknown "ecmaVersion" (by decide)
  have parser := unknown "parserOptions" (by decide)
  have presets := unknown "globalPresets" (by decide)
  have data (key : String) (apart : key ≠ "globals") :
      (Fields.set (literalFields host { options with globalPresets := [], globals := [] }.members)
        "globals" (.object none globals)).lookup key =
          (Value.ofJson (.literal host) (.object
            { options with globalPresets := [], globals := [] }.members)).property? key := by
    rw [Fields.lookup_set, if_neg apart]
    rfl
  constructor
  case distinct =>
    exact Fields.nodup_set (nodup_literalFields host (formed_plainOptions formed).members)
  case globals => exact ⟨globals, by simp [Fields.lookup_set], overlaid⟩
  case extra =>
    intro key other
    have apart : key ≠ "globals" := by
      intro same
      exact other (same ▸ by decide)
    rw [data key apart, property?_literal, property?_literal,
      LanguageOptions.get?_members_unknown _ other]
  all_goals
    rw [data _ (by decide), property?_literal, if_neg (by decide)]
    simp [LanguageOptions.members, source, version, parser, presets, Value.ofJson,
      Function.comp_def]

theorem yields_optionParts {options : Option LanguageOptions}
    (known : ∀ r ∈ (options.map (·.globalPresets)).getD [], r.package ∈ table)
    (formed : ∀ o ∈ options, o.Formed) (o : Draft ω) :
    Yields host modules ((options.map (·.globalPresets)).getD [])
      (evalParts host (scope modules table) o (optionParts table options))
      (fun out => ∃ value, out = { o with fields := setIf o.fields "languageOptions" value } ∧
        DescribesLanguage host modules (.literal host) options value) := by
  cases options with
  | none => exact Yields.pure ⟨none, rfl, rfl⟩
  | some options =>
    have own := formed options rfl
    have plain := (formed_plainOptions own).members
    rw [optionParts, evalParts_object _ _ (by decide), literal, evalParts_literal _ _ plain,
      evalParts_object _ _ (by decide), Draft.spread,
      Fields.assign_nil (nodup_literalFields host plain), Option.bind_assoc]
    refine (yields_globals known own.globals).next ?_
    intro globals described
    obtain ⟨prototype, overlaid⟩ := described
    rw [Draft.finish, prototype]
    exact ⟨_, rfl, _, rfl, _, rfl, describesOptions_set own overlaid⟩

theorem formed_plainPart {e : Entry} (formed : e.Formed) : (plainPart e).Formed := by
  refine ⟨List.nodup_nil, by simp [plainPart], formed.settings, ?_, formed.extra,
    formed.extra_unknown⟩
  rw [plainPart]
  simp only
  split
  · exact Members.Distinct.nil
  · exact formed.rules

theorem ofJson_strings (build : Fields ω → Value ω) (texts : List String) :
    Value.ofJson build (Json.strings texts) = .array (texts.map .string) := by
  rw [Json.strings, Value.ofJson]
  congr 1
  induction texts with
  | nil => rfl
  | cons text texts ih => rw [List.map_cons, ofJsonItems, ih, List.map_cons, Value.ofJson]

/-- The fields of an entry: its data, with the values that are written apart from it. -/
def complete (data : Fields ω) (plugins options rules : Option (Value ω)) : Fields ω :=
  setIf (setIf (setIf data "plugins" plugins) "languageOptions" options) "rules" rules

section

variable {data : Fields ω} {plugins options rules : Option (Value ω)}

theorem lookup_complete {key : String} (apart : key ∉ ["plugins", "languageOptions", "rules"]) :
    (complete data plugins options rules).lookup key = data.lookup key := by
  simp only [List.mem_cons, List.not_mem_nil, or_false, not_or] at apart
  simp only [complete, lookup_setIf, apart, if_false]

theorem lookup_complete_plugins :
    (complete data plugins options rules).lookup "plugins" =
      plugins.or (data.lookup "plugins") := by
  simp [complete, lookup_setIf]

theorem lookup_complete_options :
    (complete data plugins options rules).lookup "languageOptions" =
      options.or (data.lookup "languageOptions") := by
  simp [complete, lookup_setIf]

theorem lookup_complete_rules :
    (complete data plugins options rules).lookup "rules" = rules.or (data.lookup "rules") := by
  simp [complete, lookup_setIf]

end

theorem describes_complete {e : Entry} (formed : e.Formed)
    {plugins options rules : Option (Value ω)}
    (named : DescribesPlugins host modules (.literal host) e.plugins plugins)
    (optioned : DescribesLanguage host modules (.literal host) e.languageOptions options)
    (ruled : if hasRuleExpression e then ∃ given, rules = some (.object none given) ∧
        Overlaid (.literal host) e.rules (kept host modules e) given
      else rules = none) :
    Describes host modules (.literal host) e
      (complete (literalFields host (plainPart e).members) plugins options rules) := by
  have unknown (key : String) (known : key ∈ Entry.knownFields) : e.extra.get? key = none :=
    formed.get?_extra known
  have data (key : String) (other : key ≠ prototypeKey) :
      (literalFields host (plainPart e).members).lookup key =
        ((plainPart e).members.get? key).map (.ofJson (.literal host)) := by
    rw [lookup_literalFields, if_neg other]
  constructor
  case distinct =>
    exact nodup_setIf (nodup_setIf (nodup_setIf
      (nodup_literalFields host (formed_plainPart formed).members) _ _) _ _) _ _
  case name =>
    rw [lookup_complete (by decide), data _ (by decide)]
    simp [Entry.members, plainPart, unknown "name" (by decide), Value.ofJson, Function.comp_def]
  case files =>
    rw [lookup_complete (by decide), data _ (by decide)]
    simp [Entry.members, plainPart, unknown "files" (by decide), ofJson_strings, Function.comp_def]
  case ignores =>
    rw [lookup_complete (by decide), data _ (by decide)]
    simp [Entry.members, plainPart, unknown "ignores" (by decide), ofJson_strings,
      Function.comp_def]
  case settings =>
    have written : (plainPart e).members.get? "settings" =
        if e.settings.isEmpty then none else some (.object e.settings) := by
      simp [Entry.members, plainPart, unknown "settings" (by decide)]
    rw [lookup_complete (by decide), data _ (by decide), written]
    split <;> rfl
  case plugins =>
    have absent : (plainPart e).members.get? "plugins" = none := by
      simp [Entry.members, plainPart, unknown "plugins" (by decide)]
    rw [lookup_complete_plugins, data _ (by decide), absent, Option.map_none, Option.or_none]
    exact named
  case languageOptions =>
    have absent : (plainPart e).members.get? "languageOptions" = none := by
      simp [Entry.members, plainPart, unknown "languageOptions" (by decide)]
    rw [lookup_complete_options, data _ (by decide), absent, Option.map_none, Option.or_none]
    exact optioned
  case rules =>
    rw [lookup_complete_rules, data _ (by decide), DescribesRules]
    split at ruled
    · rename_i expression
      obtain ⟨given, rfl, overlaid⟩ := ruled
      rw [if_pos expression]
      exact ⟨given, rfl, overlaid⟩
    · rename_i plain
      have written : (plainPart e).members.get? "rules" =
          if e.rules.isEmpty then none else some (.object e.rules) := by
        simp [Entry.members, plainPart, plain, unknown "rules" (by decide)]
      rw [if_neg plain, ruled, written, Option.none_or]
      split <;> rfl
  case rulePresets =>
    rw [lookup_complete (by decide), data _ (by decide)]
    simp [Entry.members, plainPart, unknown "rulePresets" (by decide)]
  case omitRules =>
    rw [lookup_complete (by decide), data _ (by decide)]
    simp [Entry.members, plainPart, unknown "omitRules" (by decide)]
  case extra =>
    intro key other
    have apart : key ∉ ["plugins", "languageOptions", "rules"] := by
      intro member
      have included : ["plugins", "languageOptions", "rules"] ⊆ Entry.knownFields := by decide
      exact other (included member)
    rw [lookup_complete apart, lookup_literalFields, property?_literal,
      Entry.get?_members_unknown _ other]
    rfl

theorem yields_entry {e : Entry} (formed : e.Formed)
    (known : ∀ r ∈ e.references, r.package ∈ table) :
    Yields host modules e.references ((entryExpr table e).eval host (scope modules table))
      (Means host modules (.literal host) e) := by
  have plain := (formed_plainPart formed).members
  have plugins : ∀ p ∈ e.plugins, p.2.package ∈ table := by
    intro p member
    apply known
    simp only [Entry.references, List.mem_append]
    exact .inl (.inl (List.mem_map_of_mem member))
  have options : ∀ r ∈ (e.languageOptions.map (·.globalPresets)).getD [], r.package ∈ table := by
    intro r member
    apply known
    simp only [Entry.references, List.mem_append]
    exact .inl (.inr member)
  have presets : ∀ r ∈ e.rulePresets, r.package ∈ table := by
    intro r member
    apply known
    simp only [Entry.references, List.mem_append]
    exact .inr member
  rw [entryExpr, Expr.eval, List.cons_append, List.cons_append, literal,
    evalParts_literal _ _ plain, Draft.spread, Fields.assign_nil (nodup_literalFields host plain),
    evalParts_append, evalParts_append, Option.bind_eq_bind, Option.bind_assoc, Option.bind_assoc,
    Entry.references, List.append_assoc]
  -- the three parts are evaluated one after the other, each over the fields of those before it
  refine (yields_pluginParts plugins formed.plugins _).bind ?_
  intro first described
  obtain ⟨named, rfl, asPlugins⟩ := described
  refine (yields_optionParts options formed.languageOptions _).bind ?_
  intro second described
  obtain ⟨optioned, rfl, asOptions⟩ := described
  refine (yields_ruleParts presets formed.rules _).next ?_
  intro third described
  obtain ⟨ruled, rfl, asRules⟩ := described
  exact ⟨_, rfl, _, rfl, describes_complete formed asPlugins asOptions asRules⟩

theorem yields_entries {entries : List Entry} (formed : ∀ e ∈ entries, e.Formed)
    (known : ∀ e ∈ entries, ∀ r ∈ e.references, r.package ∈ table) :
    Yields host modules (entries.flatMap Entry.references)
      (evalItems host (scope modules table) (entries.map (entryExpr table)))
      (List.Forall₂ (fun e value => Means host modules (.literal host) e value ∧
        (Means host modules (.object none) e value ↔ e.toJson.avoids prototypeKey = true))
        entries) := by
  induction entries with
  | nil => exact Yields.pure .nil
  | cons e entries ih =>
    have own : e.Formed := formed e List.mem_cons_self
    have first : Yields host modules _ _ _ := yields_entry own (known e List.mem_cons_self)
    have rest := ih (fun e member => formed e (List.mem_cons_of_mem _ member))
      (fun e member => known e (List.mem_cons_of_mem _ member))
    rw [List.map_cons, evalItems, List.flatMap_cons, Option.bind_eq_bind]
    refine first.bind ?_
    intro value means
    rw [Option.bind_eq_bind]
    refine rest.next ?_
    intro values others
    exact ⟨_, rfl, .cons ⟨means, means_iff own means⟩ others⟩

end

theorem script_imports (entries : List Entry) :
    (script entries).imports = bindings 0 (packages entries) := by
  simp [script, bindings]

theorem packages_bindings (start : Nat) (table : Imports) :
    (bindings start table).map (·.2) = table := by
  induction table generalizing start with
  | nil => rfl
  | cons package table ih => rw [bindings_cons, List.map_cons, ih]

theorem names_bindings (table : Imports) :
    (bindings 0 table).map (·.1) =
      (List.range (bindings 0 table).length).map fun index => "m" ++ toString index := by
  apply List.ext_getElem
  · simp
  · intro index bound _
    simp [bindings, bindingName]

/-- What a module says of a configuration. Its objects hold the entries with their data as it stands
    exactly where no key names a prototype. -/
structure Exports {ω : Type} (host : Host ω) (modules : String → ω) (entries : List Entry)
    (m : Module) : Prop where
  names : m.imports.map (·.1) =
    (List.range m.imports.length).map fun index => "m" ++ toString index
  once : (m.imports.map (·.2)).Nodup
  needed : ∀ package, package ∈ m.imports.map (·.2) ↔
    ∃ e ∈ entries, ∃ r ∈ e.references, r.package = package
  evaluates : (m.eval host modules).isSome = true ↔
    ∀ e ∈ entries, ∀ r ∈ e.references, (resolve host modules r).isSome = true
  objects : ∀ values, m.eval host modules = some values →
    List.Forall₂ (fun e value => Means host modules (.literal host) e value ∧
      (Means host modules (.object none) e value ↔ e.toJson.avoids prototypeKey = true))
      entries values

/-- The text of a configuration is a module whose objects mean its entries, each as it stands unless
    it has a key that names a prototype. -/
theorem render_means_entries {ω : Type} (host : Host ω) (modules : String → ω)
    {entries : List Entry} (obtained : Obtained entries) :
    ∃ m, Module.parse? (render entries) = some m ∧ Exports host modules entries m := by
  refine ⟨script entries, parse?_render entries, ?_⟩
  have imports := script_imports entries
  have unbound : ("omit" :: (script entries).imports.map (·.1)).Nodup := by
    rw [imports, List.nodup_cons]
    refine ⟨?_, nodup_bindings _ 0⟩
    intro bound
    obtain ⟨index, -, same⟩ := bound_from bound
    exact bindingName_ne (by decide) same.symm
  have evaluated : (script entries).eval host modules =
      evalItems host (scope modules (packages entries)) (script entries).exports := by
    rw [Module.eval, if_pos unbound, imports]
    rfl
  have known : ∀ e ∈ entries, ∀ r ∈ e.references, r.package ∈ packages entries :=
    fun e inside r member => mem_packages.mpr ⟨e, inside, r, member, rfl⟩
  have yields : Yields host modules _ _ _ := yields_entries obtained.formed known
  constructor
  · rw [imports]
    exact names_bindings _
  · rw [imports, packages_bindings]
    exact nodup_packages entries
  · intro package
    rw [imports, packages_bindings]
    exact mem_packages
  · rw [evaluated, script, yields.isSome]
    constructor
    · intro resolved e inside r member
      exact resolved r (List.mem_flatMap.mpr ⟨e, inside, member⟩)
    · intro resolved r member
      obtain ⟨e, inside, member⟩ := List.mem_flatMap.mp member
      exact resolved e inside r member
  · rw [evaluated]
    exact yields.holds

/-- Packages whose values are data. -/
def dataHost : Host Json where
  member value key :=
    match value with
    | .object members => Members.get? members key
    | _ => none
  own value :=
    match value with
    | .object members => Members.insertAll [] members
    | _ => []
  own_distinct value := by
    split
    · exact Members.nodup_insertAll _ List.nodup_nil
    · exact List.nodup_nil
  inheritable value :=
    match value with
    | .null | .array _ | .object _ => true
    | _ => false

def sampleModules (package : String) : Json :=
  if package = "plugin-n" then .object [("rules", .object [
    ("n/a", .string "error"), ("n/b", .string "error")])]
  else .object [("inner", .object [])]

/-- A configuration whose references share a package, with a name that must be escaped and a key
    that names a prototype. -/
def sampleEntries : List Entry := [
  { name := some "a \"quoted\"\nname"
    plugins := [("c", ⟨"plugin-c", ["inner"]⟩), ("n", ⟨"plugin-n", []⟩)]
    rulePresets := [⟨"plugin-n", ["rules"]⟩]
    omitRules := ["n/b"]
    rules := [("n/a", .string "off")] },
  { settings := [("__proto__", .object []), ("react", .object [])]
    extra := [("linterOptions", .object [])] }]

def sampleDatum : Datum :=
  let key (name : String) : Word := { value := .text name }
  .list [
    .map [
      (key "name", .text "a \"quoted\"\nname"),
      (key "plugins", .map [(key "n", .text "plugin-n"), (key "c", .text "plugin-c#inner")]),
      (key "rulePresets", .list [.text "plugin-n#rules"]),
      (key "omitRules", .list [.text "n/b"]),
      (key "rules", .map [(key "n/a", .text "off")])],
    .map [
      (key "linterOptions", .map []),
      (key "settings", .map [(key "__proto__", .map []), (key "react", .map [])])]]

theorem render_means_entries_sample :
    Obtained sampleEntries ∧ sampleEntries.map (·.toJson.avoids prototypeKey) = [true, false] ∧
      ∃ m, Module.parse? (render sampleEntries) = some m ∧
        Exports dataHost sampleModules sampleEntries m ∧
        (m.eval dataHost sampleModules).isSome = true := by
  have read : Entry.decodeList .json sampleDatum = .ok sampleEntries := rfl
  have obtained : Obtained sampleEntries := .decoded read
  obtain ⟨m, parsed, exported⟩ := render_means_entries dataHost sampleModules obtained
  refine ⟨obtained, by decide, m, parsed, exported, exported.evaluates.mpr ?_⟩
  decide

/-- An entry with a key that is passed through, and that names a prototype in a literal. -/
def prototypeEntry : Entry := { extra := [("__proto__", .object [("a", .bool true)])] }

/-- The object of such an entry is empty, as if nothing had been passed through. -/
theorem prototype_is_lost :
    Obtained [prototypeEntry] ∧
      ∃ m, Module.parse? (render [prototypeEntry]) = some m ∧
        m.eval dataHost sampleModules = some [.object none []] ∧
        ¬ Means dataHost sampleModules (.object none) prototypeEntry (.object none []) := by
  have read : Entry.decodeList .json (.list [.map [
      ({ value := .text "__proto__" }, .map [({ value := .text "a" }, .ofScalar (.bool true))])]]) =
        .ok [prototypeEntry] := rfl
  refine ⟨.decoded read, _, parse?_render _, rfl, ?_⟩
  intro means
  obtain ⟨fields, same, described⟩ := means
  obtain rfl : [] = fields := (Value.object.inj same).2
  have passed := described.extra "__proto__" (by decide)
  cases passed

end FormatLint.ConfigModule
