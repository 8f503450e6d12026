import FormatLint.Proofs.Script.Parsing

/-!
JSON as script: written on one line, a value has the tokens of the expression that stands for it.
-/

namespace FormatLint

namespace Script

variable {digits rest : List Char}

def Stops (rest : List Char) : Prop := ∀ c ∈ rest.head?, c.isDigit = false

theorem isDigits_iff : isDigits digits = true ↔ digits ≠ [] ∧ ∀ c ∈ digits, c.isDigit = true := by
  simp [isDigits]

theorem takeWhile_digits (all : isDigits digits = true) (stops : Stops rest) :
    (digits ++ rest).takeWhile Char.isDigit = digits := by
  rw [List.takeWhile_append_of_pos (isDigits_iff.mp all).2]
  cases rest with
  | nil => simp
  | cons c rest => simp [stops c rfl]

theorem dropWhile_digits (all : isDigits digits = true) (stops : Stops rest) :
    (digits ++ rest).dropWhile Char.isDigit = rest := by
  rw [List.dropWhile_append_of_pos (isDigits_iff.mp all).2]
  cases rest with
  | nil => rfl
  | cons c rest => simp [stops c rfl]

theorem isUnsigned_append (all : isDigits digits = true) (stops : Stops rest)
    (fraction : isFraction rest = true) : isUnsigned (digits ++ rest) = true := by
  rw [isUnsigned, takeWhile_digits all stops, dropWhile_digits all stops, all, fraction]
  rfl

theorem isFraction_append (all : isDigits digits = true) (stops : Stops rest)
    (exponent : isExponent rest = true) : isFraction ('.' :: (digits ++ rest)) = true := by
  rw [isFraction, takeWhile_digits all stops, dropWhile_digits all stops, all, exponent]
  rfl

theorem Stops.nil : Stops [] := by
  intro c member
  cases member

theorem isFraction_digits (all : isDigits digits = true) : isFraction ('.' :: digits) = true := by
  have whole := isFraction_append all Stops.nil rfl
  rwa [List.append_nil] at whole

theorem isUnsigned_digits (all : isDigits digits = true) : isUnsigned digits = true := by
  have whole := isUnsigned_append all Stops.nil rfl
  rwa [List.append_nil] at whole

theorem isNumeral_of_isUnsigned {cs : List Char} (h : isUnsigned cs = true) :
    isNumeral cs = true := by
  obtain ⟨c, q, rfl, digit⟩ := exists_digit_of_isUnsigned h
  unfold isNumeral
  split
  · rename_i same
    cases same
    cases digit
  · exact h

theorem isDigits_toDigits (n : Nat) : isDigits (Nat.toDigits 10 n) = true := by
  rw [isDigits_iff]
  refine ⟨?_, fun c member => Nat.isDigit_of_mem_toDigits (by decide) (by decide) member⟩
  intro empty
  have size := Nat.length_toDigits_pos (b := 10) (n := n)
  rw [empty] at size
  cases size

end Script

namespace Number

open Script

variable {digits : List Char}

theorem isUnsigned_positional (all : isDigits digits = true) (exponent : Int) :
    isUnsigned (positional digits exponent) = true := by
  obtain ⟨filled, each⟩ := isDigits_iff.mp all
  have zeros (count : Nat) : ∀ c ∈ List.replicate count '0', c.isDigit = true := by
    intro c member
    rw [(List.mem_replicate.mp member).2]
    rfl
  cases exponent with
  | ofNat e =>
    have whole : isDigits (digits ++ List.replicate e '0') = true := by
      rw [isDigits_iff]
      refine ⟨by simp [filled], fun c member => ?_⟩
      rcases List.mem_append.mp member with inside | inside
      · exact each c inside
      · exact zeros e c inside
    exact isUnsigned_append whole (by simp [Stops]) (by decide)
  | negSucc e =>
    rw [positional]
    split
    · have places : isDigits (List.replicate (e + 1 - digits.length) '0' ++ digits) = true := by
        rw [isDigits_iff]
        refine ⟨by simp [filled], fun c member => ?_⟩
        rcases List.mem_append.mp member with inside | inside
        · exact zeros _ c inside
        · exact each c inside
      have zero : isDigits ['0'] = true := by decide
      have whole := isUnsigned_append zero (by simp [Stops]) (isFraction_digits places)
      simpa using whole
    · rename_i long
      have whole : isDigits (digits.take (digits.length - (e + 1))) = true := by
        rw [isDigits_iff]
        refine ⟨?_, fun c member => each c (List.mem_of_mem_take member)⟩
        rw [ne_eq, List.take_eq_nil_iff]
        simp only [filled, or_false]
        omega
      have places : isDigits (digits.drop (digits.length - (e + 1))) = true := by
        rw [isDigits_iff]
        refine ⟨?_, fun c member => each c (List.mem_of_mem_drop member)⟩
        rw [ne_eq, List.drop_eq_nil_iff]
        omega
      exact isUnsigned_append whole (by simp [Stops]) (isFraction_digits places)

theorem isUnsigned_scientific (all : isDigits digits = true) (exponent : Int) :
    isUnsigned (scientific digits exponent) = true := by
  unfold scientific
  generalize exponent + digits.length - 1 = top
  have power : isExponent ('e' :: (if top < 0 then '-' else '+') ::
      Nat.toDigits 10 top.natAbs) = true := by
    split <;> exact isDigits_toDigits _
  have stops : Stops ('e' :: (if top < 0 then '-' else '+') :: Nat.toDigits 10 top.natAbs) := by
    intro c member
    cases member
    rfl
  obtain ⟨filled, each⟩ := isDigits_iff.mp all
  match digits, filled with
  | [d], _ => exact isUnsigned_append all stops power
  | d :: e :: rest, _ =>
    have first : isDigits [d] = true := isDigits_iff.mpr ⟨by simp, by simpa using each d (by simp)⟩
    have others : isDigits (e :: rest) = true :=
      isDigits_iff.mpr ⟨by simp, fun c member => each c (List.mem_cons_of_mem _ member)⟩
    have whole := isUnsigned_append first (by simp [Stops]) (isFraction_append others stops power)
    simpa using whole

/-- Every number is written as a numeral. -/
theorem isNumeral_text (n : Number) : isNumeral n.text = true := by
  match n with
  | integer (.ofNat n) => exact isNumeral_of_isUnsigned (isUnsigned_digits (isDigits_toDigits n))
  | integer (.negSucc n) => exact isUnsigned_digits (isDigits_toDigits (n + 1))
  | double x =>
    have body : ∃ cs, isUnsigned cs = true ∧
        doubleText x = (if x.isNegative then ['-'] else []) ++ cs := by
      rw [doubleText]
      generalize Decimal.shortest (if x.isNegative then x.negate else x) = d
      split
      · exact ⟨['0', '.', '0'], by decide, rfl⟩
      · refine ⟨_, ?_, rfl⟩
        split
        · exact isUnsigned_positional (isDigits_toDigits _) _
        · exact isUnsigned_scientific (isDigits_toDigits _) _
    obtain ⟨cs, unsigned, written⟩ := body
    rw [text, written]
    cases x.isNegative with
    | true => exact unsigned
    | false => exact isNumeral_of_isUnsigned unsigned

end Number

namespace Script

mutual

def Expr.ofJson : Json → Expr
  | .null => .word "null"
  | .bool true => .word "true"
  | .bool false => .word "false"
  | .number n => .number n.text
  | .string s => .string s
  | .array items => .array (ofItems items)
  | .object members => .object (ofMembers members)

def ofItems : List Json → List Expr
  | [] => []
  | item :: items => .ofJson item :: ofItems items

def ofMembers : List (String × Json) → List Part
  | [] => []
  | (key, value) :: members => .property (.quoted key) (.ofJson value) :: ofMembers members

end

theorem Reads.comma {p q : List Char} {ts us : List Token} (first : Reads p ts)
    (second : Reads q us) : Reads (p ++ ',' :: q) (ts ++ .mark ',' :: us) :=
  first.append_reads (by decide) ((Closed.mark (by decide)).append_reads second)

theorem Reads.between {p : List Char} {ts : List Token} (inside : Reads p ts) (before after : Char)
    (opened : isMark before = true) (closed : isMark after = true) (separates : Separates after) :
    Closed (before :: (p ++ [after])) (.mark before :: (ts ++ [.mark after])) :=
  (Closed.mark opened).append (inside.append separates (Closed.mark closed))

mutual

/-- A JSON value is read as the expression that it is. -/
theorem reads_chars (value : Json) : Reads value.chars (Expr.ofJson value).tokens := by
  match value with
  | .null => exact Reads.word (by decide) (by decide)
  | .bool true => exact Reads.word (by decide) (by decide)
  | .bool false => exact Reads.word (by decide) (by decide)
  | .number n => exact Reads.number n.isNumeral_text
  | .string s => exact (Closed.quote s).reads
  | .array items =>
    exact ((reads_itemChars items).between _ _ (by decide) (by decide) (by decide)).reads
  | .object members =>
    exact ((reads_memberChars members).between _ _ (by decide) (by decide) (by decide)).reads

theorem reads_itemChars (items : List Json) :
    Reads (Json.itemChars items) (itemTokens (ofItems items)) := by
  match items with
  | [] => exact Closed.nil.reads
  | [item] => exact reads_chars item
  | item :: next :: items =>
    exact (reads_chars item).comma (reads_itemChars (next :: items))

theorem reads_memberChars (members : List (String × Json)) :
    Reads (Json.memberChars members) (partTokens (ofMembers members)) := by
  have property (key : String) {p : List Char} {ts : List Token} (value : Reads p ts) :
      Reads (Json.quote key ++ ':' :: p) (.text key :: .mark ':' :: ts) :=
    (Closed.quote key).append_reads ((Closed.mark (by decide)).append_reads value)
  match members with
  | [] => exact Closed.nil.reads
  | [(key, value)] => exact property key (reads_chars value)
  | (key, value) :: next :: members =>
    exact (property key (reads_chars value)).comma (reads_memberChars (next :: members))

end

end Script

end FormatLint
