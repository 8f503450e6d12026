import FormatLint.Engine.ConfigModule
import FormatLint.Proofs.Script.Literal
import Mathlib.Data.List.Forall2

/-!
The configuration as a script. References are numbered as they are first met, and a number does
not change when more packages come; so every entry can be read with the imports of the whole
module. Main statement: the text of the module is read as the script that is defined here.
-/

namespace FormatLint

/-- Every reference of an entry, in the order in which it is written. -/
def Entry.references (e : Entry) : List ModuleRef :=
  e.plugins.map (·.2) ++ (e.languageOptions.map (·.globalPresets)).getD [] ++ e.rulePresets

namespace ConfigModule

open Script

def add (imports : Imports) (r : ModuleRef) : Imports :=
  if r.package ∈ imports then imports else imports ++ [r.package]

def register (imports : Imports) (references : List ModuleRef) : Imports :=
  references.foldl add imports

/-- The packages of a configuration in the order in which they are first met. -/
def packages (entries : List Entry) : Imports := register [] (entries.flatMap Entry.references)

section

variable {imports table : Imports} {r : ModuleRef}

theorem add_extends (imports : Imports) (r : ModuleRef) : imports <+: add imports r := by
  rw [add]
  split
  · exact List.prefix_rfl
  · exact List.prefix_append _ _

theorem mem_add {p : String} : p ∈ add imports r ↔ p ∈ imports ∨ p = r.package := by
  rw [add]
  split
  · rename_i known
    constructor
    · exact .inl
    · intro either
      rcases either with old | rfl
      · exact old
      · exact known
  · simp

theorem nodup_add (nodup : imports.Nodup) : (add imports r).Nodup := by
  rw [add]
  split
  · exact nodup
  · rename_i new
    rw [List.nodup_append]
    refine ⟨nodup, by simp, ?_⟩
    intro a inside b member same
    have equal : b = r.package := by simpa using member
    exact new (equal ▸ same ▸ inside)

@[simp]
theorem register_nil (imports : Imports) : register imports [] = imports := rfl

@[simp]
theorem register_cons (imports : Imports) (r : ModuleRef) (rs : List ModuleRef) :
    register imports (r :: rs) = register (add imports r) rs := rfl

theorem register_append (imports : Imports) (rs more : List ModuleRef) :
    register imports (rs ++ more) = register (register imports rs) more :=
  List.foldl_append

theorem register_extends (imports : Imports) (rs : List ModuleRef) :
    imports <+: register imports rs := by
  induction rs generalizing imports with
  | nil => exact List.prefix_rfl
  | cons r rs ih => exact (add_extends imports r).trans (ih (add imports r))

theorem mem_register {p : String} {rs : List ModuleRef} :
    p ∈ register imports rs ↔ p ∈ imports ∨ ∃ r ∈ rs, r.package = p := by
  induction rs generalizing imports with
  | nil => simp
  | cons r rs ih =>
    rw [register_cons, ih, mem_add, or_assoc]
    simp [eq_comm]

theorem nodup_register (nodup : imports.Nodup) (rs : List ModuleRef) :
    (register imports rs).Nodup := by
  induction rs generalizing imports with
  | nil => exact nodup
  | cons r rs ih => exact ih (nodup_add nodup)

theorem nodup_packages (entries : List Entry) : (packages entries).Nodup :=
  nodup_register List.nodup_nil _

theorem mem_packages {entries : List Entry} {p : String} :
    p ∈ packages entries ↔ ∃ e ∈ entries, ∃ r ∈ e.references, r.package = p := by
  rw [packages, mem_register]
  simp only [List.not_mem_nil, false_or, List.mem_flatMap]
  constructor
  · intro found
    obtain ⟨r, ⟨e, inside, member⟩, same⟩ := found
    exact ⟨e, inside, r, member, same⟩
  · intro found
    obtain ⟨e, inside, r, member, same⟩ := found
    exact ⟨r, ⟨e, inside, member⟩, same⟩

/-- The number of a package stays when packages are added. -/
theorem idxOf_extends {p : String} (extended : imports <+: table) (known : p ∈ imports) :
    table.idxOf p = imports.idxOf p := by
  obtain ⟨more, rfl⟩ := extended
  rw [List.idxOf_append, if_pos known]

def bindingName (index : Nat) : String := "m" ++ toString index

def referenceText (table : Imports) (r : ModuleRef) : String :=
  bindingName (table.idxOf r.package) ++
    String.join (r.member.map fun m => "[" ++ Json.quoted m ++ "]")

theorem expression_eq (imports : Imports) (r : ModuleRef) :
    expression imports r = (referenceText (add imports r) r, add imports r) := by
  cases found : imports.findIdx? (· == r.package) with
  | some i =>
    have index := (List.findIdx?_eq_some_iff_findIdx_eq.mp found)
    have known : r.package ∈ imports := by
      rw [← List.idxOf_lt_length_iff, List.idxOf, index.2]
      exact index.1
    have number : imports.idxOf r.package = i := index.2
    simp only [expression, found, add, if_pos known, referenceText, bindingName, number]
  | none =>
    have new : r.package ∉ imports := by
      intro known
      have absent := List.findIdx?_eq_none_iff.mp found r.package known
      simp at absent
    have number : (imports ++ [r.package]).idxOf r.package = imports.length := by
      rw [List.idxOf_append, if_neg new]
      simp
    simp only [expression, found, add, if_neg new, referenceText, bindingName, number]

theorem referenceText_extends (extended : add imports r <+: table) :
    referenceText (add imports r) r = referenceText table r := by
  rw [referenceText, referenceText, idxOf_extends extended (mem_add.mpr (.inr rfl))]

end

theorem expressions_eq {imports table : Imports} {rs : List ModuleRef}
    (extended : register imports rs <+: table) :
    expressions imports rs = (rs.map (referenceText table), register imports rs) := by
  induction rs generalizing imports with
  | nil => rfl
  | cons r rs ih =>
    -- the packages that come later do not change the number of this one
    have first := referenceText_extends ((register_extends (add imports r) rs).trans extended)
    rw [expressions, expression_eq]
    simp only [ih extended, first, List.map_cons, register_cons]

theorem expressions_imports (imports : Imports) (rs : List ModuleRef) :
    (expressions imports rs).2 = register imports rs := by
  rw [expressions_eq List.prefix_rfl]

/-- Text that is read as an expression, or as a part of an object. -/
def Writes (text : String) (e : Expr) : Prop := Reads text.toList e.tokens

def WritesPart (text : String) (part : Part) : Prop := Reads text.toList part.tokens

def reference (table : Imports) (r : ModuleRef) : Expr :=
  r.member.foldl .member (.word (bindingName (table.idxOf r.package)))

theorem tokens_lookups (e : Expr) (keys : List String) :
    (keys.foldl Expr.member e).tokens =
      e.tokens ++ keys.flatMap fun key => [.mark '[', .text key, .mark ']'] := by
  induction keys generalizing e with
  | nil => simp
  | cons key keys ih =>
    rw [List.foldl_cons, ih]
    simp [Expr.tokens]

theorem closed_lookups (keys : List String) :
    Closed (String.join (keys.map fun m => "[" ++ Json.quoted m ++ "]")).toList
      (keys.flatMap fun key => [.mark '[', .text key, .mark ']']) := by
  induction keys with
  | nil => exact Closed.nil
  | cons key keys ih =>
    have lookup : Closed ('[' :: (Json.quote key ++ [']'])) [.mark '[', .text key, .mark ']'] :=
      (Closed.quote key).reads.between _ _ (by decide) (by decide) (by decide)
    have whole := lookup.append ih
    simpa [Json.quoted] using whole

def isWord : List Char → Bool
  | [] => false
  | c :: rest => isWordStart c && rest.all isWordPart

theorem reads_word {text : String} (word : isWord text.toList = true) :
    Reads text.toList [.word text] := by
  cases chars : text.toList with
  | nil => simp [isWord, chars] at word
  | cons c rest =>
    rw [chars, isWord, Bool.and_eq_true] at word
    have whole := Reads.word word.1 word.2
    rwa [← chars, String.ofList_toList, chars] at whole

theorem reads_bindingName (index : Nat) :
    Reads (bindingName index).toList [.word (bindingName index)] := by
  apply reads_word
  have digits : (toString index).toList.all isWordPart = true := by
    rw [List.all_eq_true]
    intro c member
    rw [Nat.toString_eq_repr, Nat.toList_repr] at member
    simp [isWordPart, Nat.isDigit_of_mem_toDigits (by decide) (by decide) member]
  have written : (bindingName index).toList = 'm' :: (toString index).toList := by
    simp [bindingName]
  rw [written, isWord, digits]
  rfl

theorem writes_reference (table : Imports) (r : ModuleRef) :
    Writes (referenceText table r) (reference table r) := by
  rw [Writes, reference, tokens_lookups, referenceText, String.toList_append]
  cases keys : r.member with
  | nil => simpa [Expr.tokens] using reads_bindingName (table.idxOf r.package)
  | cons key rest =>
    have lookups := closed_lookups (key :: rest)
    obtain ⟨q, written⟩ : ∃ q, (String.join ((key :: rest).map
        fun m => "[" ++ Json.quoted m ++ "]")).toList = '[' :: q := by
      rw [List.map_cons, String.join_cons]
      exact ⟨_, by simp; rfl⟩
    rw [written] at lookups ⊢
    exact ((reads_bindingName _).append (by decide) lookups).reads

theorem writes_members (value : Members) : Writes (members value) (.ofJson (.object value)) := by
  have whole := reads_chars (.object value)
  simpa [Writes, members, Json.compact] using whole

theorem WritesPart.spread {text : String} {e : Expr} (h : Writes text e) :
    WritesPart (spread text) (.spread e) := by
  have dots : Closed ['.', '.', '.'] [.mark '.', .mark '.', .mark '.'] :=
    Closed.of_run fun _ => rfl
  have whole := dots.append_reads h
  simpa [WritesPart, ConfigModule.spread, Part.tokens] using whole

theorem writesPart_quoted (key : String) {text : String} {e : Expr} (h : Writes text e) :
    WritesPart (Json.quoted key ++ ": " ++ text) (.property (.quoted key) e) := by
  have colon : Closed [':', ' '] [.mark ':'] := Closed.of_run fun _ => rfl
  have whole := ((Closed.quote key).append colon).append_reads h
  simpa [WritesPart, Json.quoted, Part.tokens, Key.token] using whole

theorem writesPart_bare {key label text : String} {e : Expr} (word : isWord key.toList = true)
    (labelled : label.toList = key.toList ++ [':', ' ']) (h : Writes text e) :
    WritesPart (label ++ text) (.property (.bare key) e) := by
  have colon : Closed [':', ' '] [.mark ':'] := Closed.of_run fun _ => rfl
  have whole := (reads_word word).append_reads (by decide) (colon.append_reads h)
  rw [WritesPart, String.toList_append, labelled]
  simpa [Part.tokens, Key.token] using whole

theorem reads_parts {texts : List String} {parts : List Part}
    (written : List.Forall₂ WritesPart texts parts) :
    Reads (String.intercalate ", " texts).toList (partTokens parts) := by
  induction written with
  | nil => exact Closed.nil.reads
  | @cons text part texts parts first rest ih =>
    cases rest with
    | nil =>
      rw [String.intercalate_singleton]
      exact first
    | @cons next nextPart texts parts second rest =>
      have whole := first.comma (Closed.blank.append_reads ih)
      rw [String.intercalate_cons_cons, partTokens_cons]
      simpa using whole

theorem writes_braces {texts : List String} {parts : List Part}
    (written : List.Forall₂ WritesPart texts parts) : Writes (braces texts) (.object parts) := by
  have inside := (reads_parts written).append (c := ' ') (by decide) Closed.blank
  have whole := (Closed.blank.append inside).reads.between '{' '}' (by decide) (by decide)
    (by decide)
  simpa [Writes, braces, Expr.tokens] using whole.reads

def spreads (table : Imports) (references : List ModuleRef) : List Part :=
  references.map fun r => .spread (reference table r)

def literal (value : Members) : Expr := .ofJson (.object value)

def pluginParts (table : Imports) (plugins : List (String × ModuleRef)) : List Part :=
  if plugins.isEmpty then []
  else
    [.property (.bare "plugins")
      (.object (plugins.map fun (k, r) => .property (.quoted k) (reference table r)))]

def optionParts (table : Imports) : Option LanguageOptions → List Part
  | none => []
  | some options =>
    let plain := { options with globalPresets := [], globals := [] }
    [.property (.bare "languageOptions") (.object [
      .spread (literal plain.members),
      .property (.bare "globals")
        (.object (spreads table options.globalPresets ++ [.spread (literal options.globals)]))])]

def ruleParts (table : Imports) (e : Entry) : List Part :=
  if hasRuleExpression e then
    [.property (.bare "rules") (.object [
      .spread (.call "omit" (.object (spreads table e.rulePresets))
        (.ofJson (Json.strings e.omitRules))),
      .spread (literal e.rules)])]
  else []

def entryExpr (table : Imports) (e : Entry) : Expr :=
  .object (.spread (literal (plainPart e).members) :: pluginParts table e.plugins ++
    optionParts table e.languageOptions ++ ruleParts table e)

/-- The script that a configuration is written as. -/
def script (entries : List Entry) : Module where
  imports := (packages entries).mapIdx fun index package => (bindingName index, package)
  exports := entries.map (entryExpr (packages entries))

section

variable {imports table : Imports}

theorem writesPart_spreads (table : Imports) (rs : List ModuleRef) :
    List.Forall₂ WritesPart ((rs.map (referenceText table)).map spread) (spreads table rs) := by
  induction rs with
  | nil => exact .nil
  | cons r rs ih => exact .cons (.spread (writes_reference table r)) ih

theorem renderPlugins_imports (imports : Imports) (plugins : List (String × ModuleRef)) :
    (renderPlugins imports plugins).2 = register imports (plugins.map (·.2)) := by
  rw [renderPlugins]
  split
  · rename_i empty
    rw [List.isEmpty_iff.mp empty]
    rfl
  · exact expressions_imports _ _

theorem writesPart_renderPlugins {plugins : List (String × ModuleRef)}
    (extended : register imports (plugins.map (·.2)) <+: table) :
    List.Forall₂ WritesPart (renderPlugins imports plugins).1 (pluginParts table plugins) := by
  have bindings : List.Forall₂ WritesPart
      (List.zipWith (fun (k, _) text => Json.quoted k ++ ": " ++ text) plugins
        ((plugins.map (·.2)).map (referenceText table)))
      (plugins.map fun (k, r) => .property (.quoted k) (reference table r)) := by
    clear extended
    induction plugins with
    | nil => exact .nil
    | cons plugin plugins ih =>
      exact .cons (writesPart_quoted plugin.1 (writes_reference table plugin.2)) ih
  rw [renderPlugins, pluginParts]
  split
  · exact .nil
  · rw [expressions_eq extended]
    exact .cons (writesPart_bare (by decide) (by decide) (writes_braces bindings)) .nil

theorem renderLanguageOptions_imports (imports : Imports) (options : Option LanguageOptions) :
    (renderLanguageOptions imports options).2 =
      register imports ((options.map (·.globalPresets)).getD []) := by
  cases options with
  | none => rfl
  | some options => exact expressions_imports _ _

theorem writesPart_renderLanguageOptions {options : Option LanguageOptions}
    (extended : register imports ((options.map (·.globalPresets)).getD []) <+: table) :
    List.Forall₂ WritesPart (renderLanguageOptions imports options).1
      (optionParts table options) := by
  cases options with
  | none => exact .nil
  | some options =>
    have globals := writes_braces (List.rel_append (writesPart_spreads table options.globalPresets)
      (.cons (.spread (writes_members options.globals)) .nil))
    have texts : expressions imports options.globalPresets =
        (options.globalPresets.map (referenceText table), _) := expressions_eq extended
    rw [renderLanguageOptions, texts]
    refine .cons (writesPart_bare (by decide) (by decide) (writes_braces
      (.cons (.spread (writes_members _)) (.cons ?_ .nil)))) .nil
    exact writesPart_bare (by decide) (by decide) globals

theorem renderRules_imports (imports : Imports) (e : Entry) :
    (renderRules imports e).2 = register imports e.rulePresets := by
  rw [renderRules]
  split
  · exact expressions_imports _ _
  · rename_i plain
    have none : e.rulePresets = [] := by
      have both : e.rulePresets = [] ∧ e.omitRules = [] := by
        simpa [hasRuleExpression] using plain
      exact both.1
    rw [none]
    rfl

theorem writes_omit {rules ids : String} {first second : Expr} (wrote : Writes rules first)
    (listed : Writes ids second) :
    Writes ("omit(" ++ rules ++ ", " ++ ids ++ ")") (.call "omit" first second) := by
  have opened : Closed "omit(".toList [.word "omit", .mark '('] := Closed.of_run fun _ => rfl
  have comma : Closed [',', ' '] [.mark ','] := Closed.of_run fun _ => rfl
  have closed : Closed [')'] [.mark ')'] := Closed.mark (by decide)
  have arguments := (wrote.append (by decide) comma).append_reads listed
  have whole := (opened.append (arguments.append (by decide) closed)).reads
  simpa [Writes, Expr.tokens] using whole

theorem writesPart_renderRules {e : Entry} (extended : register imports e.rulePresets <+: table) :
    List.Forall₂ WritesPart (renderRules imports e).1 (ruleParts table e) := by
  rw [renderRules, ruleParts]
  split
  · have ids : Writes (Json.strings e.omitRules).compact (.ofJson (Json.strings e.omitRules)) := by
      simpa [Writes, Json.compact] using reads_chars (Json.strings e.omitRules)
    have kept := writes_omit (writes_braces (writesPart_spreads table e.rulePresets)) ids
    rw [expressions_eq extended]
    exact .cons (writesPart_bare (by decide) (by decide) (writes_braces
      (.cons (.spread kept) (.cons (.spread (writes_members e.rules)) .nil)))) .nil
  · exact .nil

theorem renderEntry_imports (imports : Imports) (e : Entry) :
    (renderEntry imports e).2 = register imports e.references := by
  rw [renderEntry]
  simp only [renderRules_imports, renderLanguageOptions_imports, renderPlugins_imports]
  rw [Entry.references, register_append, register_append]

theorem writes_renderEntry {e : Entry} (extended : register imports e.references <+: table) :
    Writes (renderEntry imports e).1 (entryExpr table e) := by
  rw [Entry.references, register_append, register_append] at extended
  have options := (register_extends _ e.rulePresets).trans extended
  have plugins := (register_extends _ _).trans options
  rw [renderEntry, entryExpr]
  apply writes_braces
  refine .cons (.spread (writes_members _)) ?_
  apply List.rel_append
  · apply List.rel_append
    · exact writesPart_renderPlugins plugins
    · rw [renderPlugins_imports]
      exact writesPart_renderLanguageOptions options
  · rw [renderLanguageOptions_imports, renderPlugins_imports]
    exact writesPart_renderRules extended

theorem renderEntries_imports (imports : Imports) (entries : List Entry) :
    (renderEntries imports entries).2 = register imports (entries.flatMap Entry.references) := by
  induction entries generalizing imports with
  | nil => rfl
  | cons e entries ih =>
    rw [renderEntries]
    simp only [ih, renderEntry_imports]
    rw [List.flatMap_cons, register_append]

theorem writes_renderEntries {entries : List Entry}
    (extended : register imports (entries.flatMap Entry.references) <+: table) :
    List.Forall₂ Writes (renderEntries imports entries).1 (entries.map (entryExpr table)) := by
  induction entries generalizing imports with
  | nil => exact .nil
  | cons e entries ih =>
    rw [List.flatMap_cons, register_append] at extended
    rw [renderEntries, List.map_cons]
    refine .cons (writes_renderEntry ((register_extends _ _).trans extended)) ?_
    rw [renderEntry_imports]
    exact ih extended

end

theorem closed_importLine (index : Nat) (package : String) :
    Closed (importLine index package).toList
      (Module.importTokens (bindingName index, package)) := by
  have opened : Closed "import ".toList [.word "import"] := Closed.of_run fun _ => rfl
  have between : Closed [' ', 'f', 'r', 'o', 'm', ' '] [.word "from"] := Closed.of_run fun _ => rfl
  have binding := (reads_bindingName index).append (by decide) between
  have whole := opened.append (binding.append ((Closed.quote package).append Closed.newline))
  simpa [importLine, bindingName, Module.importTokens, Json.quoted] using whole

theorem closed_importLines (table : Imports) (number : Nat → Nat) :
    Closed (String.join (table.mapIdx fun index => importLine (number index))).toList
      ((table.mapIdx fun index package => (bindingName (number index), package)).flatMap
        Module.importTokens) := by
  induction table generalizing number with
  | nil => exact Closed.nil
  | cons package table ih =>
    have whole := (closed_importLine (number 0) package).append (ih fun index => number (index + 1))
    simpa [List.mapIdx_cons] using whole

theorem closed_itemLines {texts : List String} {items : List Expr}
    (written : List.Forall₂ Writes texts items) :
    Closed (String.join (texts.map fun text => "  " ++ text ++ ",\n")).toList
      (items.flatMap Module.itemLine) := by
  induction written with
  | nil => exact Closed.nil
  | @cons text item texts items first rest ih =>
    have blanks : Closed [' ', ' '] [] := Closed.of_run fun _ => rfl
    have ending : Closed [',', '\n'] [.mark ',', .newline] := Closed.of_run fun _ => rfl
    have line := blanks.append (first.append (by decide) ending)
    have whole := line.append ih
    simpa [Module.itemLine] using whole

set_option maxRecDepth 2000 in
theorem closed_omitHelper : Closed omitHelper.toList Module.omitDefinition :=
  Closed.of_run fun _ => rfl

theorem closed_render (entries : List Entry) :
    Closed (render entries).toList (script entries).tokens := by
  have imports := closed_importLines (packages entries) id
  have numbered : (renderEntries [] entries).2 = packages entries :=
    renderEntries_imports [] entries
  have items : Closed _ ((entries.map (entryExpr (packages entries))).flatMap Module.itemLine) :=
    closed_itemLines (writes_renderEntries List.prefix_rfl)
  have head : Closed header.toList [.newline] := Closed.of_run fun _ => rfl
  have line : Closed "\n".toList [.newline] := Closed.newline
  have opened : Closed "\nexport default [\n".toList
      [.newline, .word "export", .word "default", .mark '[', .newline] :=
    Closed.of_run fun _ => rfl
  have ending : Closed "]\n".toList [.mark ']', .newline] := Closed.of_run fun _ => rfl
  have whole := head.append (imports.append (line.append (closed_omitHelper.append
    (opened.append (items.append ending)))))
  simp only [render, numbered, String.toList_append, List.append_assoc]
  exact whole

/-- The text of a configuration is read as its script. -/
theorem parse?_render (entries : List Entry) :
    Module.parse? (render entries) = some (script entries) :=
  Module.parse?_of_tokens (closed_render entries).tokens?

end ConfigModule

end FormatLint
