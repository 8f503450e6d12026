import FormatLint.Json.Printer

/-!
The tokens of a script, read one character at a time. Blanks and comments are left out; the end of
a line is a token, because it ends a statement.
-/

namespace FormatLint.Script

inductive Token where
  | word (text : String)
  | number (text : List Char)
  | text (value : String)
  | mark (c : Char)
  | newline
deriving DecidableEq

def isLetter (c : Char) : Bool := 'a' ≤ c && c ≤ 'z' || 'A' ≤ c && c ≤ 'Z'

def isWordStart (c : Char) : Bool := isLetter c || c == '_' || c == '$'

def isWordPart (c : Char) : Bool := isWordStart c || c.isDigit

def isNumberPart (c : Char) : Bool := c.isDigit || ['.', 'e', 'E', '+', '-'].contains c

def isMark (c : Char) : Bool :=
  ['{', '}', '[', ']', '(', ')', ',', ':', '.', '=', '>'].contains c

def isDigits (cs : List Char) : Bool := !cs.isEmpty && cs.all Char.isDigit

def isExponent : List Char → Bool
  | [] => true
  | 'e' :: '+' :: digits => isDigits digits
  | 'e' :: '-' :: digits => isDigits digits
  | 'e' :: digits => isDigits digits
  | _ => false

def isFraction : List Char → Bool
  | '.' :: rest =>
    isDigits (rest.takeWhile Char.isDigit) && isExponent (rest.dropWhile Char.isDigit)
  | rest => isExponent rest

def isUnsigned (cs : List Char) : Bool :=
  isDigits (cs.takeWhile Char.isDigit) && isFraction (cs.dropWhile Char.isDigit)

/-- Whether a number is written out: digits, and after them a fraction or an exponent or both. -/
def isNumeral : List Char → Bool
  | '-' :: cs => isUnsigned cs
  | cs => isUnsigned cs

/-- What the character after a backslash stands for. -/
def unescape (c : Char) : Option Char :=
  [('"', '"'), ('\\', '\\'), ('/', '/'), ('b', '\x08'), ('t', '\t'), ('n', '\n'), ('f', '\x0C'),
    ('r', '\r')].lookup c

def hexValue? (c : Char) : Option Nat :=
  if c.isDigit then some (c.toNat - 48)
  else if 'a' ≤ c ∧ c ≤ 'f' then some (c.toNat - 87)
  else if 'A' ≤ c ∧ c ≤ 'F' then some (c.toNat - 55)
  else none

/-- Where in a token the reading stands. What was read of it is kept with its last character
    first. -/
inductive Mode where
  | idle
  | word (read : List Char)
  | number (read : List Char)
  | text (read : List Char)
  | escape (read : List Char)
  /-- Inside a character that is given by four hexadecimal digits. -/
  | code (count value : Nat) (read : List Char)
  | slash
  | comment

/-- The tokens so far stand with the last one first. -/
structure Lexer where
  mode : Mode
  out : List Token

namespace Lexer

def start (out : List Token) (c : Char) : Option Lexer :=
  if c = ' ' then some ⟨.idle, out⟩
  else if c = '\n' then some ⟨.idle, .newline :: out⟩
  else if c = '"' then some ⟨.text [], out⟩
  else if c = '/' then some ⟨.slash, out⟩
  else if isWordStart c then some ⟨.word [c], out⟩
  else if c.isDigit || c == '-' then some ⟨.number [c], out⟩
  else if isMark c then some ⟨.idle, .mark c :: out⟩
  else none

def step (s : Lexer) (c : Char) : Option Lexer :=
  match s.mode with
  | .idle => start s.out c
  | .word read =>
    if isWordPart c then some { s with mode := .word (c :: read) }
    else start (.word (String.ofList read.reverse) :: s.out) c
  | .number read =>
    if isNumberPart c then some { s with mode := .number (c :: read) }
    else if isWordPart c || !isNumeral read.reverse then none
    else start (.number read.reverse :: s.out) c
  | .text read =>
    if c = '"' then some ⟨.idle, .text (String.ofList read.reverse) :: s.out⟩
    else if c = '\\' then some { s with mode := .escape read }
    else if c = '\n' ∨ c = '\r' then none
    else some { s with mode := .text (c :: read) }
  | .escape read =>
    if c = 'u' then some { s with mode := .code 0 0 read }
    else (unescape c).map fun d => { s with mode := .text (d :: read) }
  | .code count value read =>
    (hexValue? c).bind fun digit =>
      let value := 16 * value + digit
      if count < 3 then some { s with mode := .code (count + 1) value read }
      else if value.isValidChar then some { s with mode := .text (Char.ofNat value :: read) }
      else none
  | .slash => if c = '/' then some { s with mode := .comment } else none
  | .comment => if c = '\n' then some ⟨.idle, .newline :: s.out⟩ else some s

def run (s : Lexer) (text : List Char) : Option Lexer := text.foldlM step s

end Lexer

/-- The tokens of a text. Its last line must be ended. -/
def tokens? (text : List Char) : Option (List Token) := do
  match ← Lexer.run ⟨.idle, []⟩ text with
  | ⟨.idle, out⟩ => some out.reverse
  | _ => none

/-- A character that no word and no number goes on with. -/
def Separates (c : Char) : Prop := isWordPart c = false ∧ isNumberPart c = false

instance (c : Char) : Decidable (Separates c) := inferInstanceAs (Decidable (_ ∧ _))

/-- The text has these tokens, whatever follows. -/
def Closed (text : List Char) (tokens : List Token) : Prop :=
  ∀ out rest, Lexer.run ⟨.idle, out⟩ (text ++ rest) =
    Lexer.run ⟨.idle, tokens.reverse ++ out⟩ rest

/-- The text has these tokens if what follows does not go on with the last one. -/
def Reads (text : List Char) (tokens : List Token) : Prop :=
  ∀ out c rest, Separates c → Lexer.run ⟨.idle, out⟩ (text ++ c :: rest) =
    Lexer.run ⟨.idle, tokens.reverse ++ out⟩ (c :: rest)

namespace Lexer

variable {s t : Lexer} {c : Char} {text rest : List Char}

@[simp]
theorem run_nil (s : Lexer) : s.run [] = some s := rfl

theorem run_cons (h : s.step c = some t) : s.run (c :: rest) = t.run rest := by
  rw [run, List.foldlM_cons, h]
  rfl

theorem run_append (s : Lexer) (text rest : List Char) :
    s.run (text ++ rest) = (s.run text).bind (·.run rest) := by
  rw [run, List.foldlM_append]
  rfl

theorem run_first (h : s.run text = some t) : s.run (text ++ rest) = t.run rest := by
  rw [run_append, h]
  rfl

/-- A token grows by the characters that go on with it. -/
theorem run_grow (mode : List Char → Mode) (out : List Token) {part : Char → Bool}
    (grows : ∀ read c, part c = true → step ⟨mode read, out⟩ c = some ⟨mode (c :: read), out⟩)
    (parts : text.all part = true) (read : List Char) :
    run ⟨mode read, out⟩ text = some ⟨mode (text.reverse ++ read), out⟩ := by
  induction text generalizing read with
  | nil => rfl
  | cons c text ih =>
    rw [List.all_cons, Bool.and_eq_true] at parts
    rw [run_cons (grows read c parts.1), ih parts.2]
    simp

theorem hexValue?_hexDigit {n : Nat} (small : n < 16) :
    hexValue? (Number.hexDigit n) = some n := by
  revert n
  decide

/-- A character of a quoted text is read back from the way it is written. -/
theorem run_escapeChar (c : Char) (read : List Char) (out : List Token) :
    run ⟨.text read, out⟩ (Json.escapeChar c) = some ⟨.text (c :: read), out⟩ := by
  unfold Json.escapeChar
  split
  case h_8 _ noQuote noBackslash _ _ noLine _ noReturn =>
    by_cases control : c.toNat < 32
    -- two zeros, and then the two digits of a number below 32
    · have high : hexValue? (Number.hexDigit (c.toNat / 16)) = some (c.toNat / 16) :=
        hexValue?_hexDigit (by omega)
      have low : hexValue? (Number.hexDigit (c.toNat % 16)) = some (c.toNat % 16) :=
        hexValue?_hexDigit (by omega)
      have zero : hexValue? '0' = some 0 := by decide
      have value : 16 * (c.toNat / 16) + c.toNat % 16 = c.toNat := Nat.div_add_mod _ _
      have valid : c.toNat.isValidChar := c.valid
      rw [if_pos control]
      simp [run, step, zero, high, low, value, valid, Char.ofNat_toNat]
    · rw [if_neg control]
      have raw : ¬ (c = '\n' ∨ c = '\r') := by
        intro either
        rcases either with line | line
        · exact noLine line
        · exact noReturn line
      simp only [run, List.foldlM_cons, List.foldlM_nil, step]
      rw [if_neg noQuote, if_neg noBackslash, if_neg raw]
      rfl
  -- the characters with an escape of their own
  all_goals rfl

theorem run_quotedPart (text read : List Char) (out : List Token) :
    run ⟨.text read, out⟩ (text.flatMap Json.escapeChar) =
      some ⟨.text (text.reverse ++ read), out⟩ := by
  induction text generalizing read with
  | nil => rfl
  | cons c text ih =>
    rw [List.flatMap_cons, run_first (run_escapeChar c read out), ih]
    simp

end Lexer

section

variable {p q : List Char} {ts us : List Token} {c : Char}

theorem Closed.nil : Closed [] [] := fun _ _ => rfl

theorem Closed.tokens? (closed : Closed p ts) : tokens? p = some ts := by
  have whole := closed [] []
  rw [List.append_nil, List.append_nil] at whole
  rw [Script.tokens?, whole]
  simp

theorem Closed.append (first : Closed p ts) (second : Closed q us) :
    Closed (p ++ q) (ts ++ us) := by
  intro out rest
  rw [List.append_assoc, first, second]
  simp

theorem Closed.reads (closed : Closed p ts) : Reads p ts :=
  fun out c rest _ => closed out (c :: rest)

theorem Closed.append_reads (first : Closed p ts) (second : Reads q us) :
    Reads (p ++ q) (ts ++ us) := by
  intro out c rest separates
  rw [List.append_assoc, first, second _ _ _ separates]
  simp

theorem Reads.append (first : Reads p ts) (separates : Separates c) (second : Closed (c :: q) us) :
    Closed (p ++ c :: q) (ts ++ us) := by
  intro out rest
  rw [List.append_assoc, List.cons_append, first _ _ _ separates, ← List.cons_append, second]
  simp

theorem Reads.append_reads (first : Reads p ts) (separates : Separates c)
    (second : Reads (c :: q) us) : Reads (p ++ c :: q) (ts ++ us) := by
  intro out d rest ends
  rw [List.append_assoc, List.cons_append, first _ _ _ separates, ← List.cons_append,
    second _ _ _ ends]
  simp

theorem Closed.of_run (h : ∀ out, Lexer.run ⟨.idle, out⟩ p = some ⟨.idle, ts.reverse ++ out⟩) :
    Closed p ts :=
  fun out _ => Lexer.run_first (h out)

theorem Closed.blank : Closed [' '] [] := Closed.of_run fun _ => rfl

theorem Closed.newline : Closed ['\n'] [.newline] := Closed.of_run fun _ => rfl

theorem Closed.mark (mark : isMark c = true) : Closed [c] [.mark c] := by
  apply Closed.of_run
  intro out
  have member := List.contains_iff_mem.mp mark
  simp only [List.mem_cons, List.not_mem_nil, or_false] at member
  rcases member with rfl | rfl | rfl | rfl | rfl | rfl | rfl | rfl | rfl | rfl | rfl <;> rfl

/-- A quoted text is one token with that text, whatever characters it has. -/
theorem Closed.quote (text : String) : Closed (Json.quote text) [.text text] := by
  apply Closed.of_run
  intro out
  have opened : Lexer.step ⟨.idle, out⟩ '"' = some ⟨.text [], out⟩ := rfl
  rw [Json.quote, List.cons_append, Lexer.run_cons opened,
    Lexer.run_first (Lexer.run_quotedPart text.toList [] out)]
  simp [Lexer.run, Lexer.step]

theorem Lexer.run_end {s : Lexer} {out : List Token} (rest : List Char)
    (h : s.step c = start out c) : s.run (c :: rest) = run ⟨.idle, out⟩ (c :: rest) := by
  have again : step ⟨.idle, out⟩ c = start out c := rfl
  rw [run, List.foldlM_cons, h, ← again]
  rfl

theorem Lexer.run_start {out : List Token} {rest : List Char} {s : Lexer}
    (h : start out c = some s) : run ⟨.idle, out⟩ (c :: rest) = s.run rest :=
  run_cons h

theorem Lexer.start_word (out : List Token) (word : isWordStart c = true) :
    start out c = some ⟨.word [c], out⟩ := by
  have apart (d : Char) (other : isWordStart d = false) : c ≠ d := by
    intro same
    rw [same, other] at word
    cases word
  simp [start, word, apart ' ' (by decide), apart '\n' (by decide), apart '"' (by decide),
    apart '/' (by decide)]

theorem Reads.word (start : isWordStart c = true) (parts : p.all isWordPart = true) :
    Reads (c :: p) [.word (String.ofList (c :: p))] := by
  intro out d rest separates
  have grown := Lexer.run_grow .word out (fun read c part => by simp [Lexer.step, part]) parts [c]
  rw [List.cons_append, Lexer.run_start (Lexer.start_word out start), Lexer.run_first grown]
  apply Lexer.run_end
  simp [Lexer.step, separates.1]

theorem isWordStart_of_isDigit (digit : c.isDigit = true) : isWordStart c = false := by
  rw [← Bool.not_eq_true]
  intro word
  simp only [isWordStart, Bool.or_eq_true, beq_iff_eq] at word
  rcases word with (letter | rfl) | rfl
  · simp only [Char.isDigit, Bool.and_eq_true, decide_eq_true_eq] at digit
    have low : c ≤ '9' := digit.2
    have above : '9' < c := by
      simp only [isLetter, Bool.or_eq_true, Bool.and_eq_true, decide_eq_true_eq] at letter
      rcases letter with small | capital
      · exact Std.lt_of_lt_of_le (by decide) small.1
      · exact Std.lt_of_lt_of_le (by decide) capital.1
    exact Std.not_lt.mpr low above
  · exact absurd digit (by decide)
  · exact absurd digit (by decide)

theorem Lexer.start_number (out : List Token) (number : c.isDigit = true ∨ c = '-') :
    start out c = some ⟨.number [c], out⟩ := by
  rcases number with digit | rfl
  · have apart (d : Char) (other : d.isDigit = false) : c ≠ d := by
      intro same
      rw [same, other] at digit
      cases digit
    simp [start, digit, isWordStart_of_isDigit digit, apart ' ' (by decide),
      apart '\n' (by decide), apart '"' (by decide), apart '/' (by decide)]
  · rfl

theorem isNumberPart_of_isDigits (digits : isDigits p = true) : p.all isNumberPart = true := by
  rw [isDigits, Bool.and_eq_true] at digits
  rw [List.all_eq_true]
  intro c member
  simp [isNumberPart, List.all_eq_true.mp digits.2 c member]

theorem isNumberPart_of_isExponent (h : isExponent p = true) : p.all isNumberPart = true := by
  unfold isExponent at h
  split at h
  · rfl
  · simpa [isNumberPart] using isNumberPart_of_isDigits h
  · simpa [isNumberPart] using isNumberPart_of_isDigits h
  · simpa [isNumberPart] using isNumberPart_of_isDigits h
  · cases h

theorem isNumberPart_of_isFraction (h : isFraction p = true) : p.all isNumberPart = true := by
  unfold isFraction at h
  split at h
  · rename_i rest
    rw [Bool.and_eq_true] at h
    have whole : rest.all isNumberPart = true := by
      rw [← List.takeWhile_append_dropWhile (p := Char.isDigit) (l := rest), List.all_append,
        isNumberPart_of_isDigits h.1, isNumberPart_of_isExponent h.2]
      rfl
    simpa [isNumberPart] using whole
  · exact isNumberPart_of_isExponent h

theorem isNumberPart_of_isUnsigned (h : isUnsigned p = true) : p.all isNumberPart = true := by
  rw [isUnsigned, Bool.and_eq_true] at h
  rw [← List.takeWhile_append_dropWhile (p := Char.isDigit) (l := p), List.all_append,
    isNumberPart_of_isDigits h.1, isNumberPart_of_isFraction h.2]
  rfl

theorem exists_digit_of_isUnsigned (h : isUnsigned p = true) :
    ∃ c q, p = c :: q ∧ c.isDigit = true := by
  cases p with
  | nil => cases h
  | cons c q =>
    refine ⟨c, q, rfl, ?_⟩
    cases digit : c.isDigit with
    | true => rfl
    | false => simp [isUnsigned, isDigits, digit] at h

theorem exists_start_of_isNumeral (h : isNumeral p = true) :
    ∃ c q, p = c :: q ∧ (c.isDigit = true ∨ c = '-') ∧ q.all isNumberPart = true := by
  unfold isNumeral at h
  split at h
  · exact ⟨_, _, rfl, .inr rfl, isNumberPart_of_isUnsigned h⟩
  · obtain ⟨c, q, rfl, digit⟩ := exists_digit_of_isUnsigned h
    have parts := isNumberPart_of_isUnsigned h
    rw [List.all_cons, Bool.and_eq_true] at parts
    exact ⟨c, q, rfl, .inl digit, parts.2⟩

theorem Reads.number (numeral : isNumeral p = true) : Reads p [.number p] := by
  obtain ⟨c, q, rfl, start, parts⟩ := exists_start_of_isNumeral numeral
  intro out d rest separates
  have grown := Lexer.run_grow .number out (fun read c part => by simp [Lexer.step, part]) parts [c]
  rw [List.cons_append, Lexer.run_start (Lexer.start_number out start), Lexer.run_first grown]
  apply Lexer.run_end
  simp [Lexer.step, separates.1, separates.2, numeral]

end

end FormatLint.Script
