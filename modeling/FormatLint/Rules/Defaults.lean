import FormatLint.Rules.Entry
import FormatLint.Rules.Layer
import FormatLint.Rules.Project
import FormatLint.Selection.PatternText

/-!
The default entry of every layer, as a function of the project.
-/

namespace FormatLint.Layer

/-- The kinds of statements that padding rules tell apart. -/
def statementKinds : List String :=
  ["block", "block-like", "break", "case", "cjs-export", "cjs-import", "class", "const",
    "continue", "debugger", "default", "directive", "do", "empty", "export", "expression", "for",
    "function", "if", "iife", "import", "let", "multiline-block-like", "multiline-const",
    "multiline-expression", "multiline-let", "multiline-var", "return", "singleline-const",
    "singleline-let", "singleline-var", "switch", "throw", "try", "var", "while", "with"]

/-- Every kind of statement but the excluded ones, in order. -/
def statementKindsExcept (excluded : List String) : List String :=
  statementKinds.filter (!excluded.contains ·)

def text (s : String) : Json := .string s

def error : Json := .string "error"

def off : Json := .string "off"

/-- A rule at the level of an error, with its options. -/
def errorWith (options : List Json) : Json := .array (error :: options)

def allFiles : List String := ["**/*" ++ Selection.extensionGroup Selection.sourceExtensions]

def reactSettings (project : Project) : Members :=
  [("react", .object (if project.usesReact then [("version", text "detect")] else []))]

/-- What most layers share: every source file, the project's source type, the latest syntax with
    JSX, and the React settings. -/
def sharedEntry (layer : Layer) (project : Project) : Entry where
  name := some ("fandl/" ++ layer.name)
  files := some allFiles
  languageOptions := some {
    sourceType := some project.sourceType
    ecmaVersion := some (text "latest")
    parserOptions := some (.object [
      ("sourceType", text project.sourceType),
      ("ecmaFeatures", .object [("jsx", .bool true)])]) }
  settings := reactSettings project

def stylisticPlugin : List (String × ModuleRef) :=
  [("@stylistic", { package := "@stylistic/eslint-plugin" })]

def bracketRules : Members := [
  ("@stylistic/brace-style",
    errorWith [text "stroustrup", .object [("allowSingleLine", .bool true)]]),
  ("@stylistic/key-spacing", errorWith [.object [
    ("align", text "colon"), ("afterColon", .bool true), ("beforeColon", .bool true)]]),
  ("@stylistic/quotes", errorWith [text "single", .object [
    ("allowTemplateLiterals", .bool true), ("avoidEscape", .bool true)]]),
  ("@stylistic/arrow-parens", errorWith [text "always"]),
  ("@stylistic/array-bracket-newline", errorWith [text "consistent"]),
  ("@stylistic/array-element-newline", errorWith [text "consistent"]),
  ("@stylistic/comma-dangle", errorWith [text "always-multiline"]),
  ("@stylistic/function-call-argument-newline", errorWith [text "consistent"]),
  ("@stylistic/function-call-spacing", errorWith [text "never"]),
  ("@stylistic/function-paren-newline", errorWith [text "consistent"])]

def bodyAndParameters : Json :=
  .object [("body", Json.ofNat 1), ("parameters", Json.ofNat 1)]

def indentRules : Members := [
  ("@stylistic/indent", errorWith [Json.ofNat 2, .object [
    ("ArrayExpression", Json.ofNat 1),
    ("CallExpression", .object [("arguments", Json.ofNat 1)]),
    ("flatTernaryExpressions", .bool false),
    ("FunctionDeclaration", bodyAndParameters),
    ("FunctionExpression", bodyAndParameters),
    ("ignoreComments", .bool false),
    ("ignoredNodes", Json.strings [
      "TSUnionType",
      "TSIntersectionType",
      "TSTypeParameterInstantiation",
      "FunctionExpression > .params[decorators.length > 0]",
      "FunctionExpression > .params > :matches(Decorator, :not(:first-child))"]),
    ("ImportDeclaration", Json.ofNat 1),
    ("MemberExpression", Json.ofNat 1),
    ("ObjectExpression", Json.ofNat 1),
    ("offsetTernaryExpressions", .bool true),
    ("outerIIFEBody", Json.ofNat 1),
    ("SwitchCase", Json.ofNat 1),
    ("VariableDeclarator", Json.ofNat 4)]])]

/-- A blank line between statements of two kinds. -/
def blankLineBetween (before after : Json) : Json :=
  .object [("blankLine", text "always"), ("prev", before), ("next", after)]

def paddingRule : Json :=
  let notExport := Json.strings (statementKindsExcept ["cjs-export", "export"])
  errorWith [
    blankLineBetween (text "*") (text "class"),
    blankLineBetween notExport (text "export"),
    blankLineBetween notExport (text "cjs-export"),
    blankLineBetween (text "import") (Json.strings (statementKindsExcept ["import"])),
    blankLineBetween (text "cjs-import") (Json.strings (statementKindsExcept
      ["cjs-import", "const", "let", "singleline-const", "singleline-let", "singleline-var",
        "var"])),
    blankLineBetween (text "*") (text "return")]

def lineRules : Members := [
  ("@stylistic/linebreak-style", errorWith [text "unix"]),
  ("@stylistic/max-statements-per-line", errorWith [.object [("max", Json.ofNat 2)]]),
  ("@stylistic/operator-linebreak", errorWith [text "before", .object [
    ("overrides", .object [("=", text "after"), ("-=", text "after"), ("+=", text "after")])]]),
  ("@stylistic/padding-line-between-statements", paddingRule),
  ("@stylistic/semi-style", errorWith [text "first"]),
  ("@stylistic/space-before-function-paren", errorWith [.object [
    ("anonymous", text "always"), ("asyncArrow", text "always"), ("named", text "never")]]),
  ("@stylistic/switch-colon-spacing", errorWith [.object [
    ("after", .bool true), ("before", .bool false)]]),
  ("yoda", errorWith [text "never"])]

/-- A limit that counts neither blank lines nor comments. -/
def lineLimit (count : Nat) : Json :=
  errorWith [.object [
    ("max", Json.ofNat count), ("skipBlankLines", .bool true), ("skipComments", .bool true)]]

def nodeEntry (project : Project) : Entry :=
  let shared := sharedEntry .node project
  { shared with
    plugins := [("n", { package := "eslint-plugin-n" })]
    rulePresets := [⟨"eslint-plugin-n", ["configs", "flat/recommended", "rules"]⟩]
    rules := [
      ("n/no-unsupported-features/es-syntax", off),
      ("n/prefer-promises/dns", error),
      ("n/prefer-promises/fs", error),
      ("n/no-missing-import", errorWith [.object [
        ("tryExtensions", Json.strings Selection.sourceExtensions)]])]
    languageOptions := shared.languageOptions.map fun options =>
      { options with globalPresets := [⟨"globals", ["node"]⟩] } }

/-- The default entry of a layer; `none` when the layer does not apply to the project. -/
def defaultEntry (layer : Layer) (project : Project) : Option Entry :=
  let shared := sharedEntry layer project
  match layer with
  | baseRecommended => some { shared with
      rulePresets := [⟨"@eslint/js", ["configs", "recommended", "rules"]⟩] }
  | stylistic => some { shared with
      plugins := stylisticPlugin
      rulePresets := [⟨"@stylistic/eslint-plugin", ["configs", "recommended", "rules"]⟩]
      omitRules := ["@stylistic/indent-binary-ops"] }
  | standardJs => some { shared with
      rulePresets := [⟨"eslint-config-standard", ["rules"]⟩]
      omitRules := ["indent", "indent-binary-ops", "quote-props"]
      rules := [
        ("no-var", error),
        ("object-shorthand", .array [text "warn", text "properties"])] }
  | style => some { shared with
      plugins := stylisticPlugin
      rules := bracketRules ++ indentRules ++ lineRules }
  | smells => some { shared with
      rules := ["no-lonely-if", "no-return-assign", "no-shadow", "no-extra-label",
        "no-label-var", "no-invalid-this", "no-unreachable-loop", "no-extra-bind",
        "consistent-return", "default-case-last", "eqeqeq"].map fun rule => (rule, error) }
  | complexity => some { shared with
      rules := [
        ("complexity", errorWith [Json.ofNat 20]),
        ("max-depth", errorWith [Json.ofNat 4]),
        ("max-lines", lineLimit 300),
        ("max-lines-per-function", lineLimit 50)] }
  | efficiency => some { shared with
      rules := [("no-await-in-loop", error), ("require-await", error)] }
  | debug => some { shared with
      rules := [("no-debugger", error), ("no-console", error), ("no-alert", error)] }
  | node => if project.declaresNodeEngine then some (nodeEntry project) else none
  | jsdoc => some { shared with
      ignores := some [
        "**/index" ++ Selection.extensionGroup Selection.sourceExtensions,
        "**/__tests__/**/*",
        "**/*.test.*"]
      plugins := [("jsdoc", { package := "eslint-plugin-jsdoc" })]
      rulePresets := [⟨"eslint-plugin-jsdoc", ["configs", "flat/recommended-error", "rules"]⟩]
      rules := [
        ("jsdoc/require-description", error),
        ("jsdoc/no-defaults", off),
        ("jsdoc/check-tag-names", errorWith [.object [
          ("definedTags", Json.strings ["category"])]])] }
  | base => some { shared with
      plugins := [
        ("import", { package := "eslint-plugin-import" }),
        ("n", { package := "eslint-plugin-n" }),
        ("promise", { package := "eslint-plugin-promise" })]
      rules := [("import/export", off)] }
  | jsx => some {
      name := some ("fandl/" ++ layer.name)
      files := some ["**/*" ++ Selection.extensionGroup Selection.jsxExtensions]
      languageOptions := some { globalPresets := [⟨"globals", ["browser"]⟩] }
      settings := reactSettings project }
  | test => some {
      name := some ("fandl/" ++ layer.name)
      files := some [
        "**/__tests__/**",
        "**/*.test" ++ Selection.extensionGroup Selection.sourceExtensions]
      languageOptions := some { globalPresets := [⟨"globals", ["jest"]⟩] }
      rules := [("max-lines-per-function", off)] }

end FormatLint.Layer
