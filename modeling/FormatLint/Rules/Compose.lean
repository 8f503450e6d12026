import FormatLint.Rules.Suppression

/-!
Composition of the lint configuration: a custom configuration as it is, or the layers as the rule
sets adjust them.
-/

namespace FormatLint

/-- Adjustments to the default layers. -/
structure RuleSets where
  /-- Layers left out entirely. -/
  disable : List Layer := []
  /-- An entry after every layer. -/
  additional : Option Entry := none
  /-- Entries in place of the default ones, in composition order of their layers. -/
  overrides : List (Layer × Entry) := []

namespace RuleSets

def override? (r : RuleSets) (layer : Layer) : Option Entry :=
  (r.overrides.find? (·.1 == layer)).map (·.2)

/-- The entries by layer, with the last one given for each, in composition order. -/
def ordered (given : List (Layer × Entry)) : List (Layer × Entry) :=
  Layer.all.filterMap fun layer => given.reverse.find? (·.1 == layer)

def decodeLayer (name : String) : Decoded Layer :=
  match Layer.ofName? name with
  | some layer => .ok layer
  | none => .error (.refused s!"unknown variant: {name}")

def decode (v : View) (d : Datum) : Decoded RuleSets := do
  let fields ← d.fields? v
  let disable ← Datum.fieldOr fields "disable" []
    (Datum.list? v fun item => do decodeLayer (← item.variant? v))
  let additional ← Datum.fieldOr fields "additional" none (Datum.option? (Entry.decode v))
  let given ← (fields.filter (fun f => f.1 != "disable" && f.1 != "additional")).mapM
    fun (name, value) => return (← decodeLayer name, ← Entry.decode .held value)
  return { disable, additional, overrides := ordered given }

def toJson (r : RuleSets) : Json :=
  .object (listMember "disable" (r.disable.map (.string ·.name))
    ++ optionMember "additional" (r.additional.map Entry.toJson)
    ++ r.overrides.map fun (layer, e) => (layer.name, e.toJson))

end RuleSets

structure ComposeOptions where
  /-- A complete configuration in place of every layer. -/
  custom : Option (List Entry) := none
  ruleSets : Option RuleSets := none
  project : Project := {}

/-- The part that a layer has in the composition: the user's entry, the default one, or none. -/
def composeLayer (ruleSets : RuleSets) (project : Project) (layer : Layer) :
    Option ComposedLayer :=
  match ruleSets.override? layer with
  | some entry => some ⟨layer, entry, false⟩
  | none =>
    if ruleSets.disable.contains layer then none
    else (layer.defaultEntry project).map fun entry => ⟨layer, entry, true⟩

def compose (options : ComposeOptions) : Except Error (List Entry) :=
  match options.custom, options.ruleSets with
  | some _, some _ => .error Error.bothConfigurations
  | some custom, none => .ok custom
  | none, ruleSets =>
    let ruleSets := ruleSets.getD {}
    match ruleSets.disable.find? (!·.canDisable) with
    | some layer => .error (Error.layerNotDisabled layer.name)
    | none =>
      let layers := Layer.all.filterMap (composeLayer ruleSets options.project)
      .ok ((Suppression.apply layers).map (·.entry) ++ ruleSets.additional.toList)

end FormatLint
