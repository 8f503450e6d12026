import FormatLint.Proofs.Json.Distinct
import FormatLint.Rules.Compose
import Mathlib.Data.List.Basic

/-!
What a composition is made of. Each layer has the user's entry, the default one or none, in the
order of the layers; only the default entry of `standard-js` gives way, to the layers whose rules
conflict with it and which are there.
-/

namespace FormatLint

namespace RuleSets

/-- Whether a layer has an entry in the composition. -/
def Present (sets : RuleSets) (project : Project) (layer : Layer) : Prop :=
  (sets.override? layer).isSome = true ∨
    layer ∉ sets.disable ∧ (layer = .node → project.declaresNodeEngine = true)

instance (sets : RuleSets) (project : Project) (layer : Layer) :
    Decidable (sets.Present project layer) :=
  inferInstanceAs (Decidable (_ ∨ _))

/-- The default entry of `standard-js` beside the layers that it gives way to. -/
def givenWay (sets : RuleSets) (project : Project) (e : Entry) : Entry :=
  let stylistic := ["block-spacing", "eol-last", "no-trailing-spaces"]
  let style := ["brace-style", "comma-dangle", "key-spacing", "operator-linebreak",
    "space-before-function-paren"]
  { e with
    omitRules := e.omitRules
      ++ (if sets.Present project .stylistic then stylistic else [])
      ++ (if sets.Present project .style then style else [])
    rules := e.rules
      ++ (if sets.Present project .style then
          [("no-unused-vars", .array [.string "error", .object [("varsIgnorePattern", .string "React")]])]
        else []) }

/-- The entry of a layer in the composition. -/
def layered (sets : RuleSets) (project : Project) (layer : Layer) : Option Entry :=
  match sets.override? layer with
  | some entry => some entry
  | none =>
    if layer ∈ sets.disable ∨ layer = .node ∧ project.declaresNodeEngine = false then none
    else if layer = .standardJs then (layer.defaultEntry project).map (sets.givenWay project)
    else layer.defaultEntry project

end RuleSets

theorem Layer.mem_all (layer : Layer) : layer ∈ Layer.all := by
  cases layer <;> decide

theorem Layer.defaultEntry_isSome (layer : Layer) (project : Project) :
    (layer.defaultEntry project).isSome = true ↔
      (layer = .node → project.declaresNodeEngine = true) := by
  cases layer with
  | node => cases declared : project.declaresNodeEngine <;> simp [defaultEntry, declared]
  | _ => simp [defaultEntry]

theorem Layer.canDisable_eq_false {layer : Layer} :
    layer.canDisable = false ↔ layer = .base ∨ layer = .jsx ∨ layer = .test := by
  cases layer <;> decide

/-- Rules that an entry does not mention are added to those that it omits. -/
theorem Entry.omitRules_new {rules : List String} {e : Entry} (distinct : rules.Nodup)
    (new : ∀ rule ∈ rules, rule ∉ e.omitRules ∧ rule ∉ e.rules.map (·.1)) :
    rules.foldl omitRule e = { e with omitRules := e.omitRules ++ rules } := by
  induction rules generalizing e with
  | nil => simp
  | cons rule rules ih =>
    rw [List.nodup_cons] at distinct
    obtain ⟨notOmitted, notSet⟩ := new rule List.mem_cons_self
    have first : e.omitRule rule = { e with omitRules := e.omitRules ++ [rule] } := by
      have missing : e.omitRules.contains rule = false := by simpa using notOmitted
      rw [omitRule, Members.erase_new notSet, missing]
      rfl
    rw [List.foldl_cons, first, ih distinct.2]
    · simp
    · intro other member
      obtain ⟨free, unset⟩ := new other (List.mem_cons_of_mem _ member)
      refine ⟨?_, unset⟩
      simp only [List.mem_append, List.mem_singleton, not_or]
      refine ⟨free, ?_⟩
      intro same
      exact distinct.1 (same ▸ member)

namespace Suppression

/-- An entry that mentions none of the rules of a conflict gains them. -/
theorem edit_new {row : Suppression} {e : Entry} (distinct : row.omitted.Nodup)
    (new : ∀ rule ∈ row.omitted, rule ∉ e.omitRules ∧ rule ∉ e.rules.map (·.1))
    (distinctSet : (row.replaced.map (·.1)).Nodup)
    (newSet : ∀ m ∈ row.replaced, m.1 ∉ e.rules.map (·.1)) :
    row.edit e = { e with
      omitRules := e.omitRules ++ row.omitted
      rules := e.rules ++ row.replaced } := by
  rw [edit, Entry.omitRules_new distinct new]
  simp only [Members.insertAll_new distinctSet newSet]

/-- The part of a layer after a conflict is settled. -/
def settle (row : Suppression) (present : Bool) (c : ComposedLayer) : ComposedLayer :=
  if present = true ∧ c.layer = row.loser ∧ c.isDefault = true then
    { c with entry := row.edit c.entry }
  else c

theorem settle_new {row : Suppression} {e : Entry} (present : Bool) (distinct : row.omitted.Nodup)
    (new : ∀ rule ∈ row.omitted, rule ∉ e.omitRules ∧ rule ∉ e.rules.map (·.1))
    (distinctSet : (row.replaced.map (·.1)).Nodup)
    (newSet : ∀ m ∈ row.replaced, m.1 ∉ e.rules.map (·.1)) :
    row.settle present ⟨row.loser, e, true⟩ =
      ⟨row.loser, { e with
        omitRules := e.omitRules ++ (if present then row.omitted else [])
        rules := e.rules ++ (if present then row.replaced else []) }, true⟩ := by
  cases present with
  | false => simp [settle]
  | true => simp [settle, edit_new distinct new distinctSet newSet]

/-- The part of a layer after conflicts are settled, given which layers are there. -/
def settleRows (rows : List Suppression) (present : Layer → Bool) (c : ComposedLayer) :
    ComposedLayer :=
  rows.foldl (fun c row => row.settle (present row.winner) c) c

def settleAll : (Layer → Bool) → ComposedLayer → ComposedLayer := settleRows table

variable {row : Suppression} {layers : List Layer} {f : Layer → Option ComposedLayer}

theorem settle_layer (row : Suppression) (present : Bool) (c : ComposedLayer) :
    (row.settle present c).layer = c.layer := by
  rw [settle]
  split <;> rfl

/-- Each layer has one part, so that the first one is the only one. -/
theorem editFirst_filterMap (labelled : ∀ layer c, f layer = some c → c.layer = layer)
    (distinct : layers.Nodup) :
    row.editFirst (layers.filterMap f) =
      layers.filterMap fun layer => (f layer).map (row.settle true) := by
  induction layers with
  | nil => rfl
  | cons layer layers ih =>
    rw [List.nodup_cons] at distinct
    cases part : f layer with
    | none =>
      rw [List.filterMap_cons_none part, List.filterMap_cons_none (by rw [part]; rfl), ih distinct.2]
    | some c =>
      have label := labelled layer c part
      rw [List.filterMap_cons_some part, editFirst,
        List.filterMap_cons_some (b := row.settle true c) (by rw [part]; rfl), settle]
      by_cases loses : c.layer = row.loser ∧ c.isDefault = true
      · rw [if_pos loses, if_pos ⟨rfl, loses⟩]
        congr 1
        -- the layers that follow are others, and none of them loses
        apply List.filterMap_congr
        intro other member
        cases later : f other with
        | none => rfl
        | some d =>
          have apart : d.layer ≠ row.loser := by
            intro same
            have labels := labelled other d later
            apply distinct.1
            rw [← label, loses.1, ← same, labels]
            exact member
          rw [Option.map_some, settle, if_neg (fun both => apart both.2.1)]
      · rw [if_neg loses, if_neg (fun both => loses both.2), ih distinct.2]

theorem applyRow_filterMap (labelled : ∀ layer c, f layer = some c → c.layer = layer) :
    applyRow (Layer.all.filterMap f) row =
      Layer.all.filterMap fun layer => (f layer).map (row.settle (f row.winner).isSome) := by
  have winner : (Layer.all.filterMap f).any (·.layer == row.winner) = (f row.winner).isSome := by
    rw [Bool.eq_iff_iff, List.any_eq_true, Option.isSome_iff_exists]
    constructor
    · intro found
      obtain ⟨c, member, same⟩ := found
      obtain ⟨layer, -, part⟩ := List.mem_filterMap.mp member
      have label : row.winner = layer := by
        rw [← labelled layer c part]
        exact (beq_iff_eq.mp same).symm
      exact ⟨c, label ▸ part⟩
    · intro found
      obtain ⟨c, part⟩ := found
      exact ⟨c, List.mem_filterMap.mpr ⟨row.winner, Layer.mem_all _, part⟩,
        by simp [labelled row.winner c part]⟩
  rw [applyRow, winner]
  cases (f row.winner).isSome with
  | true =>
    rw [if_pos rfl]
    exact editFirst_filterMap labelled (by decide)
  | false =>
    have kept : row.settle false = id := by
      funext c
      simp [settle]
    simp [kept]

/-- Conflicts are settled for every layer on its own. -/
theorem foldl_applyRow (rows : List Suppression)
    (labelled : ∀ layer c, f layer = some c → c.layer = layer) :
    rows.foldl applyRow (Layer.all.filterMap f) =
      Layer.all.filterMap fun layer =>
        (f layer).map fun c => settleRows rows (fun winner => (f winner).isSome) c := by
  induction rows generalizing f with
  | nil => simp [settleRows]
  | cons row rows ih =>
    have relabelled : ∀ layer c, (f layer).map (row.settle (f row.winner).isSome) = some c →
        c.layer = layer := by
      intro layer c part
      obtain ⟨d, before, rfl⟩ := Option.map_eq_some_iff.mp part
      rw [settle_layer, labelled layer d before]
    rw [List.foldl_cons, applyRow_filterMap labelled, ih relabelled]
    apply List.filterMap_congr
    intro layer member
    cases f layer with
    | none => rfl
    | some c => simp only [settleRows, Option.map_some, Option.isSome_map, List.foldl_cons]

end Suppression

section

variable {sets : RuleSets} {project : Project} {layer : Layer}

theorem composeLayer_layer {c : ComposedLayer} (part : composeLayer sets project layer = some c) :
    c.layer = layer := by
  rw [composeLayer] at part
  split at part
  · cases part
    rfl
  · split at part
    · cases part
    · obtain ⟨entry, -, rfl⟩ := Option.map_eq_some_iff.mp part
      rfl

theorem composeLayer_isSome :
    (composeLayer sets project layer).isSome = true ↔ sets.Present project layer := by
  rw [composeLayer, RuleSets.Present, ← Layer.defaultEntry_isSome]
  cases sets.override? layer with
  | some entry => simp
  | none =>
    by_cases disabled : layer ∈ sets.disable
    · simp [disabled]
    · simp [disabled]

/-- The default entry of `standard-js` beside the layers that it loses to. -/
theorem standardJs_settled {entry : Entry}
    (standard : Layer.standardJs.defaultEntry project = some entry) :
    (Suppression.settleAll (fun winner => (composeLayer sets project winner).isSome)
      ⟨.standardJs, entry, true⟩).entry = sets.givenWay project entry := by
  have present (winner : Layer) : (composeLayer sets project winner).isSome =
      decide (sets.Present project winner) := by
    rw [Bool.eq_iff_iff, composeLayer_isSome, decide_eq_true_iff]
  have omitted : entry.omitRules = ["indent", "indent-binary-ops", "quote-props"] := by
    cases standard
    rfl
  have set : entry.rules.map (·.1) = ["no-var", "object-shorthand"] := by
    cases standard
    rfl
  clear standard
  rw [Suppression.settleAll, Suppression.settleRows, Suppression.table, List.foldl_cons,
    List.foldl_cons, List.foldl_nil, present, present]
  -- neither conflict names a rule that the entry or the other conflict mentions
  rw [Suppression.settle_new _ (by decide) (by rw [omitted, set]; decide) (by decide)
    (by rw [set]; decide)]
  rw [Suppression.settle_new _ (by decide)
    (by simp only [List.map_append, omitted, set]
        cases decide (sets.Present project .stylistic) <;> decide) (by decide)
    (by simp only [List.map_append, set]
        cases decide (sets.Present project .stylistic) <;> decide)]
  simp [RuleSets.givenWay, Layer.errorWith, Layer.error]

/-- The entry of a layer after all conflicts. -/
theorem composed_entry (sets : RuleSets) (project : Project) (layer : Layer) :
    ((composeLayer sets project layer).map
      (Suppression.settleAll fun winner => (composeLayer sets project winner).isSome)).map (·.entry) =
      sets.layered project layer := by
  rw [composeLayer, RuleSets.layered]
  cases sets.override? layer with
  | some entry =>
    -- an entry of the user is no default one, and no conflict touches it
    simp [Suppression.settleAll, Suppression.settleRows, Suppression.table, Suppression.settle]
  | none =>
    by_cases disabled : layer ∈ sets.disable
    · simp [disabled]
    · have kept : sets.disable.contains layer = false := by simpa using disabled
      simp only [kept, Bool.false_eq_true, if_false, disabled, false_or]
      by_cases gated : layer = .node ∧ project.declaresNodeEngine = false
      · simp [gated.1, gated.2, Layer.defaultEntry]
      · rw [if_neg gated]
        by_cases standard : layer = .standardJs
        · subst standard
          cases entry : Layer.standardJs.defaultEntry project with
          | none => cases entry
          | some entry' => simp [standardJs_settled entry]
        · rw [if_neg standard]
          cases layer.defaultEntry project with
          | none => rfl
          | some entry =>
            simp [Suppression.settleAll, Suppression.settleRows, Suppression.table,
              Suppression.settle, standard]

theorem compose_layers (sets : RuleSets) (project : Project) :
    (Suppression.apply (Layer.all.filterMap (composeLayer sets project))).map (·.entry) =
      Layer.all.filterMap (sets.layered project) := by
  rw [Suppression.apply, Suppression.foldl_applyRow _ fun _ _ => composeLayer_layer,
    List.map_filterMap]
  apply List.filterMap_congr
  intro layer member
  exact composed_entry sets project layer

theorem layered_isSome (sets : RuleSets) (project : Project) (layer : Layer) :
    (sets.layered project layer).isSome = true ↔ sets.Present project layer := by
  rw [← composed_entry, Option.isSome_map, Option.isSome_map, composeLayer_isSome]

/-- The layers that must stay and are disabled. -/
theorem find?_disable (sets : Option RuleSets) :
    ((sets.getD {}).disable.find? (!·.canDisable)).isSome = true ↔
      ∃ given, sets = some given ∧
        ∃ layer ∈ given.disable, layer = .base ∨ layer = .jsx ∨ layer = .test := by
  cases sets with
  | none => simp
  | some given =>
    simp only [Option.getD_some, List.find?_isSome, Option.some.injEq, exists_eq_left',
      Bool.not_eq_true', Layer.canDisable_eq_false]

/-- The four ways a composition goes. -/
theorem compose_cases (options : ComposeOptions) :
    (∃ custom sets, options.custom = some custom ∧ options.ruleSets = some sets ∧
      compose options = .error Error.bothConfigurations) ∨
    (∃ custom, options.custom = some custom ∧ options.ruleSets = none ∧
      compose options = .ok custom) ∨
    (∃ layer, options.custom = none ∧
      (options.ruleSets.getD {}).disable.find? (!·.canDisable) = some layer ∧
      compose options = .error (Error.layerNotDisabled layer.name)) ∨
    (options.custom = none ∧ (options.ruleSets.getD {}).disable.find? (!·.canDisable) = none ∧
      compose options = .ok
        (Layer.all.filterMap ((options.ruleSets.getD {}).layered options.project) ++
          (options.ruleSets.getD {}).additional.toList)) := by
  rw [compose]
  cases custom : options.custom with
  | some entries =>
    cases sets : options.ruleSets with
    | some given => exact .inl ⟨entries, given, rfl, rfl, rfl⟩
    | none => exact .inr (.inl ⟨entries, rfl, rfl, rfl⟩)
  | none =>
    cases found : (options.ruleSets.getD {}).disable.find? (!·.canDisable) with
    | some layer => exact .inr (.inr (.inl ⟨layer, rfl, rfl, by simp only [found]⟩))
    | none => exact .inr (.inr (.inr ⟨rfl, rfl, by simp only [found, compose_layers]⟩))

end

/-- A composition is refused, is the custom configuration, or has each layer's entry in order and
    then the additional one. -/
theorem compose_is_layering (options : ComposeOptions) :
    ((∃ message hint, compose options = .error (.argumentInvalid message hint)) ↔
      options.custom.isSome = true ∧ options.ruleSets.isSome = true ∨
      options.custom = none ∧ ∃ sets, options.ruleSets = some sets ∧
        ∃ layer ∈ sets.disable, layer = .base ∨ layer = .jsx ∨ layer = .test) ∧
    (∀ e, compose options = .error e → ∃ message hint, e = .argumentInvalid message hint) ∧
    (∀ custom, options.custom = some custom → options.ruleSets = none →
      compose options = .ok custom) ∧
    (options.custom = none →
      (¬ ∃ sets, options.ruleSets = some sets ∧
        ∃ layer ∈ sets.disable, layer = .base ∨ layer = .jsx ∨ layer = .test) →
      compose options = .ok
        (Layer.all.filterMap ((options.ruleSets.getD {}).layered options.project) ++
          (options.ruleSets.getD {}).additional.toList)) ∧
    ∀ layer, ((options.ruleSets.getD {}).layered options.project layer).isSome = true ↔
      (options.ruleSets.getD {}).Present options.project layer := by
  rw [← find?_disable]
  rcases compose_cases options with ⟨custom, sets, given, both, composed⟩ |
    ⟨custom, given, noSets, composed⟩ | ⟨layer, noCustom, found, composed⟩ |
    ⟨noCustom, allowed, composed⟩
  · rw [composed, given, both]
    refine ⟨⟨fun _ => .inl ⟨rfl, rfl⟩, fun _ => ⟨_, _, rfl⟩⟩, ?_, ?_, ?_, layered_isSome _ _⟩
    · intro e refused
      cases refused
      exact ⟨_, _, rfl⟩
    · intro custom _ noSets
      cases noSets
    · intro noCustom
      cases noCustom
  · rw [composed, given, noSets]
    refine ⟨?_, ?_, ?_, ?_, layered_isSome _ _⟩
    · simp
    · intro e refused
      cases refused
    · intro other same _
      rw [Option.some.inj same]
    · intro noCustom
      cases noCustom
  · rw [composed, noCustom, found]
    refine ⟨⟨fun _ => .inr ⟨rfl, rfl⟩, fun _ => ⟨_, _, rfl⟩⟩, ?_, ?_, ?_, layered_isSome _ _⟩
    · intro e refused
      cases refused
      exact ⟨_, _, rfl⟩
    · intro custom given
      cases given
    · intro _ allowed
      exact absurd rfl allowed
  · rw [composed, noCustom, allowed]
    refine ⟨?_, ?_, ?_, fun _ _ => rfl, layered_isSome _ _⟩
    · simp
    · intro e refused
      cases refused
    · intro custom given
      cases given

end FormatLint
