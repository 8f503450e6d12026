import FormatLint.Proofs.Script.Lexing

/-!
Scripts that export a list of expressions, read one token at a time with a stack of what is open.
Main statement: the tokens of an expression are read back as that expression.
-/

namespace FormatLint.Script

/-- A property name as it is written. -/
inductive Key where
  | quoted (text : String)
  | bare (text : String)
deriving DecidableEq

namespace Key

def text : Key → String
  | quoted text => text
  | bare text => text

def token : Key → Token
  | quoted text => .text text
  | bare text => .word text

end Key

mutual

inductive Expr where
  /-- A binding, or `null`, `true` or `false`. -/
  | word (text : String)
  | number (text : List Char)
  | string (value : String)
  | array (items : List Expr)
  | object (parts : List Part)
  | member (of : Expr) (key : String)
  | call (function : String) (first second : Expr)

inductive Part where
  | spread (value : Expr)
  | property (key : Key) (value : Expr)

end

mutual

def Expr.tokens : Expr → List Token
  | .word text => [.word text]
  | .number text => [.number text]
  | .string value => [.text value]
  | .array items => .mark '[' :: (itemTokens items ++ [.mark ']'])
  | .object parts => .mark '{' :: (partTokens parts ++ [.mark '}'])
  | .member of key => of.tokens ++ [.mark '[', .text key, .mark ']']
  | .call function first second =>
    .word function :: .mark '(' :: (first.tokens ++ .mark ',' :: (second.tokens ++ [.mark ')']))

def itemTokens : List Expr → List Token
  | [] => []
  | [item] => item.tokens
  | item :: items => item.tokens ++ .mark ',' :: itemTokens items

def Part.tokens : Part → List Token
  | .spread value => .mark '.' :: .mark '.' :: .mark '.' :: value.tokens
  | .property key value => key.token :: .mark ':' :: value.tokens

def partTokens : List Part → List Token
  | [] => []
  | [part] => part.tokens
  | part :: parts => part.tokens ++ .mark ',' :: partTokens parts

end

theorem itemTokens_cons (item next : Expr) (items : List Expr) :
    itemTokens (item :: next :: items) = item.tokens ++ .mark ',' :: itemTokens (next :: items) :=
  rfl

theorem partTokens_cons (part next : Part) (parts : List Part) :
    partTokens (part :: next :: parts) = part.tokens ++ .mark ',' :: partTokens (next :: parts) :=
  rfl

/-- What is open around an expression. Items and parts stand with the last one first. -/
inductive Frame where
  | items (before : List Expr)
  | spread (before : List Part)
  | property (before : List Part) (key : Key)
  | index (of : Expr)
  | first (function : String)
  | second (function : String) (first : Expr)

inductive Control where
  /-- An expression must follow. -/
  | value
  /-- An item or the end of the array. -/
  | item (before : List Expr)
  /-- A part or the end of the object. -/
  | part (before : List Part)
  | dot (before : List Part)
  | dots (before : List Part)
  | colon (before : List Part) (key : Key)
  /-- An expression that may go on with a lookup or a call. -/
  | done (e : Expr)

structure Parser where
  control : Control
  stack : List Frame

namespace Parser

def start (stack : List Frame) : Token → Option Parser
  | .word text => some ⟨.done (.word text), stack⟩
  | .number text => some ⟨.done (.number text), stack⟩
  | .text value => some ⟨.done (.string value), stack⟩
  | .mark '[' => some ⟨.item [], stack⟩
  | .mark '{' => some ⟨.part [], stack⟩
  | _ => none

/-- Goes on after an expression, or closes the frame that it stands in. -/
def close (e : Expr) (stack : List Frame) (c : Char) : Option Parser :=
  match c, e, stack with
  | '[', _, _ => some ⟨.value, .index e :: stack⟩
  | '(', .word function, _ => some ⟨.value, .first function :: stack⟩
  | ',', _, .items before :: stack => some ⟨.item (e :: before), stack⟩
  | ']', _, .items before :: stack => some ⟨.done (.array (e :: before).reverse), stack⟩
  | ',', _, .spread before :: stack => some ⟨.part (.spread e :: before), stack⟩
  | '}', _, .spread before :: stack =>
    some ⟨.done (.object (.spread e :: before).reverse), stack⟩
  | ',', _, .property before key :: stack => some ⟨.part (.property key e :: before), stack⟩
  | '}', _, .property before key :: stack =>
    some ⟨.done (.object (.property key e :: before).reverse), stack⟩
  | ']', .string key, .index of :: stack => some ⟨.done (.member of key), stack⟩
  | ',', _, .first function :: stack => some ⟨.value, .second function e :: stack⟩
  | ')', _, .second function first :: stack => some ⟨.done (.call function first e), stack⟩
  | _, _, _ => none

def step (s : Parser) (token : Token) : Option Parser :=
  if token = .newline then some s
  else
    match s.control, token with
    | .value, _ => start s.stack token
    | .item before, .mark ']' => some { s with control := .done (.array before.reverse) }
    | .item before, _ => start (.items before :: s.stack) token
    | .part before, .mark '}' => some { s with control := .done (.object before.reverse) }
    | .part before, .mark '.' => some { s with control := .dot before }
    | .part before, .word text => some { s with control := .colon before (.bare text) }
    | .part before, .text text => some { s with control := .colon before (.quoted text) }
    | .dot before, .mark '.' => some { s with control := .dots before }
    | .dots before, .mark '.' => some ⟨.value, .spread before :: s.stack⟩
    | .colon before key, .mark ':' => some ⟨.value, .property before key :: s.stack⟩
    | .done e, .mark c => close e s.stack c
    | _, _ => none

def run (s : Parser) (tokens : List Token) : Option Parser := tokens.foldlM step s

end Parser

namespace Parser

variable {s t : Parser} {token : Token} {rest : List Token}

theorem run_cons (h : s.step token = some t) : s.run (token :: rest) = t.run rest := by
  rw [run, List.foldlM_cons, h]
  rfl

@[simp]
theorem run_newline (s : Parser) (rest : List Token) : s.run (.newline :: rest) = s.run rest :=
  run_cons (by simp [step])

end Parser

/-- Where an item may start, the first token of an expression starts one. -/
theorem Expr.run_item (e : Expr) (before : List Expr) (stack : List Frame) (rest : List Token) :
    Parser.run ⟨.item before, stack⟩ (e.tokens ++ rest) =
      Parser.run ⟨.value, .items before :: stack⟩ (e.tokens ++ rest) := by
  cases e with
  | member of key =>
    rw [tokens, List.append_assoc]
    exact of.run_item before stack _
  | _ => rfl

def Part.value : Part → Expr
  | .spread value => value
  | .property _ value => value

def Part.frame (before : List Part) : Part → Frame
  | .spread _ => .spread before
  | .property key _ => .property before key

theorem Part.close_comma (part : Part) (before : List Part) (stack : List Frame) :
    Parser.step ⟨.done part.value, part.frame before :: stack⟩ (.mark ',') =
      some ⟨.part (part :: before), stack⟩ := by
  cases part <;> rfl

theorem Part.close_brace (part : Part) (before : List Part) (stack : List Frame) :
    Parser.step ⟨.done part.value, part.frame before :: stack⟩ (.mark '}') =
      some ⟨.done (.object (part :: before).reverse), stack⟩ := by
  cases part <;> rfl

mutual

/-- The tokens of an expression are read as that expression, whatever is open around it. -/
theorem Expr.run_tokens (e : Expr) (stack : List Frame) (rest : List Token) :
    Parser.run ⟨.value, stack⟩ (e.tokens ++ rest) = Parser.run ⟨.done e, stack⟩ rest := by
  cases e with
  | word text => rfl
  | number text => rfl
  | string value => rfl
  | array items =>
    have opened : Parser.step ⟨.value, stack⟩ (.mark '[') = some ⟨.item [], stack⟩ := rfl
    rw [Expr.tokens, List.cons_append, List.append_assoc, Parser.run_cons opened]
    exact run_itemTokens items [] stack rest
  | object parts =>
    have opened : Parser.step ⟨.value, stack⟩ (.mark '{') = some ⟨.part [], stack⟩ := rfl
    rw [Expr.tokens, List.cons_append, List.append_assoc, Parser.run_cons opened]
    exact run_partTokens parts [] stack rest
  | member of key =>
    rw [Expr.tokens, List.append_assoc, of.run_tokens stack]
    rfl
  | call function first second =>
    have opened : Parser.run ⟨.value, stack⟩ (.word function :: .mark '(' ::
          (first.tokens ++ .mark ',' :: (second.tokens ++ [.mark ')'])) ++ rest) =
        Parser.run ⟨.value, .first function :: stack⟩
          (first.tokens ++ .mark ',' :: (second.tokens ++ .mark ')' :: rest)) := by
      simp only [List.cons_append, List.append_assoc, List.nil_append]
      rfl
    have between : Parser.step ⟨.done first, .first function :: stack⟩ (.mark ',') =
        some ⟨.value, .second function first :: stack⟩ := by
      cases first <;> rfl
    have closed : Parser.step ⟨.done second, .second function first :: stack⟩ (.mark ')') =
        some ⟨.done (.call function first second), stack⟩ := by
      cases second <;> rfl
    rw [Expr.tokens, opened, first.run_tokens, Parser.run_cons between, second.run_tokens,
      Parser.run_cons closed]

theorem run_itemTokens (items before : List Expr) (stack : List Frame) (rest : List Token) :
    Parser.run ⟨.item before, stack⟩ (itemTokens items ++ .mark ']' :: rest) =
      Parser.run ⟨.done (.array (before.reverse ++ items)), stack⟩ rest := by
  match items with
  | [] =>
    rw [List.append_nil]
    rfl
  | [item] =>
    have closed : Parser.step ⟨.done item, .items before :: stack⟩ (.mark ']') =
        some ⟨.done (.array (item :: before).reverse), stack⟩ := by
      cases item <;> rfl
    rw [itemTokens, item.run_item, item.run_tokens, Parser.run_cons closed]
    simp
  | item :: next :: items =>
    have between : Parser.step ⟨.done item, .items before :: stack⟩ (.mark ',') =
        some ⟨.item (item :: before), stack⟩ := by
      cases item <;> rfl
    rw [itemTokens_cons, List.append_assoc, item.run_item, item.run_tokens, List.cons_append,
      Parser.run_cons between, run_itemTokens (next :: items)]
    simp

theorem Part.run_tokens (part : Part) (before : List Part) (stack : List Frame)
    (rest : List Token) : Parser.run ⟨.part before, stack⟩ (part.tokens ++ rest) =
      Parser.run ⟨.done part.value, part.frame before :: stack⟩ rest := by
  cases part with
  | spread value =>
    have opened : Parser.run ⟨.part before, stack⟩ ((Part.spread value).tokens ++ rest) =
        Parser.run ⟨.value, .spread before :: stack⟩ (value.tokens ++ rest) := rfl
    rw [opened, value.run_tokens]
    rfl
  | property key value =>
    have opened : Parser.run ⟨.part before, stack⟩ ((Part.property key value).tokens ++ rest) =
        Parser.run ⟨.value, .property before key :: stack⟩ (value.tokens ++ rest) := by
      cases key <;> rfl
    rw [opened, value.run_tokens]
    rfl

theorem run_partTokens (parts before : List Part) (stack : List Frame) (rest : List Token) :
    Parser.run ⟨.part before, stack⟩ (partTokens parts ++ .mark '}' :: rest) =
      Parser.run ⟨.done (.object (before.reverse ++ parts)), stack⟩ rest := by
  match parts with
  | [] =>
    rw [List.append_nil]
    rfl
  | [part] =>
    rw [partTokens, part.run_tokens, Parser.run_cons (part.close_brace before stack)]
    simp
  | part :: next :: parts =>
    rw [partTokens_cons, List.append_assoc, part.run_tokens, List.cons_append,
      Parser.run_cons (part.close_comma before stack), run_partTokens (next :: parts)]
    simp

end

/-- A script that binds packages and exports a list. -/
structure Module where
  /-- Each binding with the package that it stands for. -/
  imports : List (String × String)
  exports : List Expr

namespace Module

/-- The imports at the beginning, one a line, and what comes after them. -/
def readImports : List Token → List (String × String) × List Token
  | .newline :: rest => readImports rest
  | .word "import" :: .word name :: .word "from" :: .text package :: .newline :: rest =>
    let (imports, rest) := readImports rest
    ((name, package) :: imports, rest)
  | rest => ([], rest)

/-- The definition of `omit`, a copy of its first argument without the keys in the second. -/
def omitDefinition : List Token :=
  [.word "const", .word "omit", .mark '=', .mark '(', .word "rules", .mark ',', .word "ids",
    .mark ')', .mark '=', .mark '>', .mark '{', .newline,
    .word "const", .word "copy", .mark '=', .mark '{', .mark '.', .mark '.', .mark '.',
    .word "rules", .mark '}', .newline,
    .word "for", .mark '(', .word "const", .word "id", .word "of", .word "ids", .mark ')',
    .word "delete", .word "copy", .mark '[', .word "id", .mark ']', .newline,
    .word "return", .word "copy", .newline,
    .mark '}', .newline]

def readOmit (tokens : List Token) : Option (List Token) :=
  if omitDefinition <+: tokens then some (tokens.drop omitDefinition.length) else none

def readExport : List Token → Option (List Expr)
  | .newline :: rest => readExport rest
  | .word "export" :: .word "default" :: rest =>
    match Parser.run ⟨.value, []⟩ rest with
    | some ⟨.done (.array items), []⟩ => some items
    | _ => none
  | _ => none

def parse? (text : String) : Option Module := do
  let (imports, rest) := readImports (← tokens? text.toList)
  return { imports, exports := ← readExport (← readOmit rest) }

def importTokens (binding : String × String) : List Token :=
  [.word "import", .word binding.1, .word "from", .text binding.2, .newline]

def itemLine (item : Expr) : List Token := item.tokens ++ [.mark ',', .newline]

def tokens (m : Module) : List Token :=
  .newline :: (m.imports.flatMap importTokens ++ .newline :: (omitDefinition ++ .newline ::
    .word "export" :: .word "default" :: .mark '[' :: .newline ::
      (m.exports.flatMap itemLine ++ [.mark ']', .newline])))

theorem readImports_lines (imports : List (String × String)) (rest : List Token) :
    readImports (imports.flatMap importTokens ++ rest) =
      (imports ++ (readImports rest).1, (readImports rest).2) := by
  induction imports with
  | nil => rfl
  | cons binding imports ih =>
    rw [List.flatMap_cons, List.append_assoc, importTokens]
    simp only [List.cons_append, List.nil_append, readImports, ih]

theorem run_itemLines (items before : List Expr) (rest : List Token) :
    Parser.run ⟨.item before, []⟩ (items.flatMap itemLine ++ rest) =
      Parser.run ⟨.item (items.reverse ++ before), []⟩ rest := by
  induction items generalizing before with
  | nil => rfl
  | cons item items ih =>
    have closed : Parser.step ⟨.done item, [.items before]⟩ (.mark ',') =
        some ⟨.item (item :: before), []⟩ := by
      cases item <;> rfl
    rw [List.flatMap_cons, itemLine, List.append_assoc, List.append_assoc, item.run_item,
      item.run_tokens, List.cons_append, Parser.run_cons closed, List.cons_append,
      Parser.run_newline, List.nil_append, ih]
    simp

/-- A text with the tokens of a module is read as that module. -/
theorem parse?_of_tokens {m : Module} {text : String} (read : tokens? text.toList = some m.tokens) :
    parse? text = some m := by
  have imports : readImports m.tokens = (m.imports, omitDefinition ++ .newline ::
      .word "export" :: .word "default" :: .mark '[' :: .newline ::
        (m.exports.flatMap itemLine ++ [.mark ']', .newline])) := by
    rw [tokens, readImports, readImports_lines]
    simp [readImports, omitDefinition]
  have exported : Parser.run ⟨.value, []⟩ (.mark '[' :: .newline ::
      (m.exports.flatMap itemLine ++ [.mark ']', .newline])) =
        some ⟨.done (.array m.exports), []⟩ := by
    have opened : Parser.step ⟨.value, []⟩ (.mark '[') = some ⟨.item [], []⟩ := rfl
    have closed : Parser.step ⟨.item (m.exports.reverse ++ []), []⟩ (.mark ']') =
        some ⟨.done (.array (m.exports.reverse ++ []).reverse), []⟩ := rfl
    rw [Parser.run_cons opened, Parser.run_newline, run_itemLines, Parser.run_cons closed,
      Parser.run_newline, List.append_nil, List.reverse_reverse]
    rfl
  rw [parse?, read]
  simp [imports, readOmit, readExport, exported]

end Module

end FormatLint.Script
