/-!
The layers of the default configuration, in the order in which they are composed.
-/

namespace FormatLint

inductive Layer where
  | baseRecommended
  | stylistic
  | standardJs
  | style
  | smells
  | complexity
  | efficiency
  | debug
  | node
  | jsdoc
  | base
  | jsx
  | test
deriving DecidableEq

namespace Layer

/-- Every layer, in composition order: later entries win. -/
def all : List Layer :=
  [baseRecommended, stylistic, standardJs, style, smells, complexity, efficiency, debug, node,
    jsdoc, base, jsx, test]

def name : Layer → String
  | baseRecommended => "base-recommended"
  | stylistic => "stylistic"
  | standardJs => "standard-js"
  | style => "style"
  | smells => "smells"
  | complexity => "complexity"
  | efficiency => "efficiency"
  | debug => "debug"
  | node => "node"
  | jsdoc => "jsdoc"
  | base => "base"
  | jsx => "jsx"
  | test => "test"

/-- The layer of a name; `standardjs` is accepted as well. -/
def ofName? (text : String) : Option Layer :=
  if text = "standardjs" then some standardJs else all.find? (·.name == text)

/-- The last three layers can be replaced but not left out. -/
def canDisable : Layer → Bool
  | base | jsx | test => false
  | _ => true

end Layer

end FormatLint
