import FormatLint.Json.Printer
import FormatLint.Json.Reader
import FormatLint.Proofs.Json.Embedding
import FormatLint.Proofs.Text.Utf8

/-!
What the printer writes on one line, the reader reads. This covers the values whose numbers are
integers of 64 bits and that do not reach the nesting limit (`read_compact`).
-/

namespace FormatLint.Json

/-! ### Quoted text -/

theorem readQuoted_byte {b : UInt8} (quote : b ≠ 0x22) (backslash : b ≠ 0x5C) (printed : ¬ b < 0x20)
    (taken : Option Bytes) (rest : Bytes) :
    readQuoted taken (b :: rest) = readQuoted (taken.map (b :: ·)) rest := by
  rw [readQuoted, if_neg printed]
  · exact quote
  all_goals intros; contradiction

theorem readQuoted_bytes {bytes : Bytes}
    (plain : ∀ b ∈ bytes, b ≠ 0x22 ∧ b ≠ 0x5C ∧ ¬ b < 0x20) (taken rest : Bytes) :
    readQuoted (some taken) (bytes ++ rest) = readQuoted (some (bytes.reverse ++ taken)) rest := by
  induction bytes generalizing taken with
  | nil => rfl
  | cons b bytes ih =>
    obtain ⟨quote, backslash, printed⟩ := plain b List.mem_cons_self
    rw [List.cons_append, readQuoted_byte quote backslash printed, Option.map_some,
      ih fun other inside => plain other (List.mem_cons_of_mem b inside)]
    simp

theorem readQuoted_short {b value : UInt8} (short : b ≠ 0x75) (stands : plainEscape b = some value)
    (taken : Option Bytes) (rest : Bytes) :
    readQuoted taken (0x5C :: b :: rest) = readQuoted (taken.map (value :: ·)) rest := by
  rw [readQuoted, stands]
  intro a c d e after same
  exact absurd same short

theorem readQuoted_unit {a b c d : UInt8} {unit : Nat} (stands : hex4 a b c d = some unit)
    (alone : unit < 0xD800) (taken : Option Bytes) (rest : Bytes) :
    readQuoted taken (0x5C :: 0x75 :: a :: b :: c :: d :: rest) =
      readQuoted (taken.map ((String.utf8EncodeChar (Char.ofNat unit)).reverse ++ ·)) rest := by
  rw [readQuoted, stands]
  simp [alone]

theorem hexValue_hexDigit {n : Nat} (small : n < 16) :
    String.utf8EncodeChar (Number.hexDigit n) = [UInt8.ofNat (Number.hexDigit n).toNat] ∧
      hexValue (UInt8.ofNat (Number.hexDigit n).toNat) = some n := by
  revert n
  decide

theorem readQuoted_control {c : Char} (control : c.toNat < 32) (taken rest : Bytes) :
    readQuoted (some taken)
        (['\\', 'u', '0', '0', Number.hexDigit (c.toNat / 16),
          Number.hexDigit (c.toNat % 16)].flatMap String.utf8EncodeChar ++ rest) =
      readQuoted (some ((String.utf8EncodeChar c).reverse ++ taken)) rest := by
  obtain ⟨high, highValue⟩ := hexValue_hexDigit (n := c.toNat / 16) (by omega)
  obtain ⟨low, lowValue⟩ := hexValue_hexDigit (n := c.toNat % 16) (by omega)
  have zero : hexValue 0x30 = some 0 := by decide
  have whole : c.toNat / 16 * 16 + c.toNat % 16 = c.toNat := by omega
  have unit : hex4 0x30 0x30 (UInt8.ofNat (Number.hexDigit (c.toNat / 16)).toNat)
      (UInt8.ofNat (Number.hexDigit (c.toNat % 16)).toNat) = some c.toNat := by
    simp [hex4, zero, highValue, lowValue, whole]
  have read := readQuoted_unit unit (by omega) (some taken) rest
  rw [Char.ofNat_toNat] at read
  rw [← Option.map_some, ← read]
  simp only [List.flatMap_cons, List.flatMap_nil, high, low]
  rfl

theorem readQuoted_printed {c : Char} (quote : c ≠ '"') (backslash : c ≠ '\\')
    (printed : ¬ c.toNat < 32) (taken rest : Bytes) :
    readQuoted (some taken) ([c].flatMap String.utf8EncodeChar ++ rest) =
      readQuoted (some ((String.utf8EncodeChar c).reverse ++ taken)) rest := by
  rw [List.flatMap_singleton]
  refine readQuoted_bytes (fun b inside => ?_) taken rest
  have code (small : b < 0x80) : c.toNat = b.toNat := Utf8.ascii_of_mem_encodeChar inside small
  refine ⟨?_, ?_, fun control => printed ?_⟩
  · rintro rfl
    exact quote (Char.toNat_inj.mp (code (by decide)))
  · rintro rfl
    exact backslash (Char.toNat_inj.mp (code (by decide)))
  · rw [code (UInt8.lt_trans control (by decide))]
    exact control

/-- A character is read back from the way it is written. -/
theorem readQuoted_escapeChar (c : Char) (taken rest : Bytes) :
    readQuoted (some taken) ((escapeChar c).flatMap String.utf8EncodeChar ++ rest) =
      readQuoted (some ((String.utf8EncodeChar c).reverse ++ taken)) rest := by
  unfold escapeChar
  split
  case h_8 quote backslash _ _ _ _ _ =>
    split
    · rename_i control
      exact readQuoted_control control taken rest
    · rename_i printed
      exact readQuoted_printed quote backslash printed taken rest
  -- the characters that have a short escape
  all_goals exact readQuoted_short (by decide) rfl (some taken) rest

theorem readQuoted_text (cs : List Char) (taken rest : Bytes) :
    readQuoted (some taken)
        ((cs.flatMap escapeChar).flatMap String.utf8EncodeChar ++ 0x22 :: rest) =
      .ok (some (taken.reverse ++ cs.flatMap String.utf8EncodeChar), rest) := by
  induction cs generalizing taken with
  | nil =>
    rw [List.flatMap_nil, List.flatMap_nil, List.nil_append, readQuoted]
    simp
  | cons c cs ih =>
    rw [List.flatMap_cons, List.flatMap_append, List.append_assoc, readQuoted_escapeChar, ih]
    simp

theorem textScalar_encode (text : String) : textScalar (some (Utf8.encode text)) = .text text := by
  rw [textScalar, Option.bind_some, Utf8.decode?_encode]

/-! ### Integers -/

/-- What may follow a value. -/
inductive Ends : Bytes → Prop where
  | document : Ends []
  | comma (rest : Bytes) : Ends (0x2C :: rest)
  | bracket (rest : Bytes) : Ends (0x5D :: rest)
  | brace (rest : Bytes) : Ends (0x7D :: rest)

theorem takeDigits_ends {rest : Bytes} (ends : Ends rest) : takeDigits rest = ([], rest) := by
  cases ends <;> rfl

/-- A digit is written as the byte of its value. -/
theorem isDigit_encodeChar {c : Char} (digit : c.isDigit = true) :
    ∃ b, String.utf8EncodeChar c = [b] ∧ isDigit b = true ∧ digitValue b = c.toNat - 48 := by
  obtain ⟨b, single, same, low, high⟩ := Utf8.encodeChar_digit digit
  refine ⟨b, single, ?_, congrArg (· - 48) same⟩
  simp only [isDigit, Bool.and_eq_true, decide_eq_true_eq, UInt8.le_iff_toNat_le, same]
  exact ⟨low, high⟩

theorem takeDigits_digits {cs : List Char} (digits : ∀ c ∈ cs, c.isDigit = true) {rest : Bytes}
    (ends : Ends rest) :
    takeDigits (cs.flatMap String.utf8EncodeChar ++ rest) = (cs.map (·.toNat - 48), rest) := by
  induction cs with
  | nil => exact takeDigits_ends ends
  | cons c cs ih =>
    obtain ⟨b, single, digit, value⟩ := isDigit_encodeChar (digits c List.mem_cons_self)
    have later := ih fun other inside => digits other (List.mem_cons_of_mem c inside)
    obtain ⟨taken, left⟩ := Prod.mk.inj later
    rw [List.flatMap_cons, single, List.singleton_append, List.cons_append, takeDigits,
      List.takeWhile_cons_of_pos digit, List.dropWhile_cons_of_pos digit, List.map_cons,
      List.map_cons, taken, left, value]

theorem le_ofDigitChars (cs : List Char) (n : Nat) : n ≤ Nat.ofDigitChars 10 cs n := by
  induction cs generalizing n with
  | nil => exact Nat.le_refl n
  | cons c cs ih =>
    rw [Nat.ofDigitChars_cons]
    have grown := ih (10 * n + (c.toNat - '0'.toNat))
    omega

theorem absorb_digits (cs : List Char) (n : Nat) (fits : Nat.ofDigitChars 10 cs n < Nat.pow 2 64) :
    Numeral.absorb n (cs.map (·.toNat - 48)) = (Nat.ofDigitChars 10 cs n, []) := by
  induction cs generalizing n with
  | nil => rfl
  | cons c cs ih =>
    rw [Nat.ofDigitChars_cons, Nat.mul_comm] at fits ⊢
    have next := le_ofDigitChars cs (n * 10 + (c.toNat - '0'.toNat))
    rw [List.map_cons, Numeral.absorb]
    exact (if_pos (Nat.lt_of_le_of_lt next fits)).trans (ih _ fits)

/-- The digits of a number, the highest first. -/
def digitsOf (n : Nat) : List Nat := (Nat.toDigits 10 n).map (·.toNat - 48)

theorem digitsOf_ne_nil (n : Nat) : digitsOf n ≠ [] := by
  rw [digitsOf, ne_eq, List.map_eq_nil_iff]
  exact Nat.toDigits_ne_nil

/-- Only zero starts with a zero. -/
theorem head?_digitsOf {n : Nat} (positive : 0 < n) : (digitsOf n).head? ≠ some 0 := by
  induction n using Nat.strongRecOn with
  | ind n ih =>
    by_cases small : n < 10
    · have each : ∀ d < 10, 0 < d → (Nat.digitChar d).toNat - 48 ≠ 0 := by decide
      rw [digitsOf, Nat.toDigits_of_lt_base small]
      simpa using each n small positive
    · have front := ih (n / 10) (by omega) (by omega)
      rw [digitsOf, Nat.toDigits_of_base_le (by decide) (by omega), List.map_append]
      change (digitsOf (n / 10) ++ _).head? ≠ some 0
      cases shape : digitsOf (n / 10) with
      | nil => exact absurd shape (digitsOf_ne_nil _)
      | cons d ds => simpa [shape] using front

theorem digitsOf_unpadded (n : Nat) :
    ((digitsOf n).head? == some 0 && decide (1 < (digitsOf n).length)) = false := by
  rcases Nat.eq_zero_or_pos n with rfl | positive
  · rfl
  · simp [head?_digitsOf positive]

theorem absorb_digitsOf {n : Nat} (fits : n < Nat.pow 2 64) :
    Numeral.absorb 0 (digitsOf n) = (n, []) := by
  have absorbed := absorb_digits (Nat.toDigits 10 n) 0
  rw [Nat.ofDigitChars_ten_toDigits] at absorbed
  exact absorbed fits

/-- The digits of a number are read as those of a whole number. -/
theorem readNumber_toDigits (negative : Bool) (n : Nat) {rest : Bytes} (ends : Ends rest) :
    readNumber negative ((Nat.toDigits 10 n).flatMap String.utf8EncodeChar ++ rest) =
      .ok (Numeral.value ⟨negative, digitsOf n, none, none⟩, rest) := by
  have digits : ∀ c ∈ Nat.toDigits 10 n, c.isDigit = true :=
    fun c => Nat.isDigit_of_mem_toDigits (by decide) (by decide)
  have taken : takeDigits ((Nat.toDigits 10 n).flatMap String.utf8EncodeChar ++ rest) =
      (digitsOf n, rest) := takeDigits_digits digits ends
  have filled : (digitsOf n).isEmpty = false := by simp [digitsOf_ne_nil]
  rw [readNumber, taken]
  simp only [filled, digitsOf_unpadded]
  cases ends <;> rfl

theorem value_natural {n : Nat} (fits : n < Nat.pow 2 64) :
    Numeral.value ⟨false, digitsOf n, none, none⟩ = .integer n := by
  simp [Numeral.value, absorb_digitsOf fits]

theorem value_negative {n : Nat} (positive : 0 < n) (fits : n ≤ Nat.pow 2 63) :
    Numeral.value ⟨true, digitsOf n, none, none⟩ = .integer (-(n : Int)) := by
  have small : ¬ (n = 0 || Nat.pow 2 63 < n) = true := by
    simp only [Bool.or_eq_true, decide_eq_true_eq, not_or, Nat.not_lt]
    exact ⟨Nat.pos_iff_ne_zero.mp positive, fits⟩
  simp only [Numeral.value, absorb_digitsOf (Nat.lt_of_le_of_lt fits (by decide))]
  simp [small]

/-! ### Values -/

mutual

/-- Whether the value is read back from its text where `room` lists and objects may still be nested:
    its numbers are integers of 64 bits. -/
def readable (room : Nat) : Json → Bool
  | .number (.integer i) => decide (-(Int.pow 2 63) ≤ i ∧ i < Int.pow 2 64)
  | .number (.double _) => false
  | .array items => decide (0 < room) && readableItems (room - 1) items
  | .object members => decide (0 < room) && readableMembers (room - 1) members
  | _ => true

def readableItems (room : Nat) : List Json → Bool
  | [] => true
  | item :: items => readable room item && readableItems room items

def readableMembers (room : Nat) : List (String × Json) → Bool
  | [] => true
  | (_, value) :: members => readable room value && readableMembers room members

end

theorem readable_array {room : Nat} {items : List Json} :
    (array items).readable (room + 1) = true ↔ ∀ item ∈ items, item.readable room = true := by
  have each : readableItems room items = true ↔ ∀ item ∈ items, item.readable room = true := by
    induction items with
    | nil => simp [readableItems]
    | cons item items ih => simp [readableItems, ih]
  simpa [readable] using each

theorem readable_object {room : Nat} {members : Members} :
    (object members).readable (room + 1) = true ↔ ∀ m ∈ members, m.2.readable room = true := by
  have each : readableMembers room members = true ↔ ∀ m ∈ members, m.2.readable room = true := by
    induction members with
    | nil => simp [readableMembers]
    | cons m members ih => simp [readableMembers, ih]
  simpa [readable] using each

theorem readable_ofNat {n : Nat} (fits : n < Nat.pow 2 64) (room : Nat) :
    (ofNat n).readable room = true := by
  have high : (n : Int) < Int.pow 2 64 := Int.ofNat_lt.mpr fits
  have low : -(Int.pow 2 63) ≤ (n : Int) := Int.le_trans (by decide) (Int.natCast_nonneg n)
  rw [ofNat, readable]
  exact decide_eq_true ⟨low, high⟩

theorem skipSpace_cons {b : UInt8} (solid : isSpace b = false) (rest : Bytes) :
    skipSpace (b :: rest) = b :: rest := by
  rw [skipSpace, List.dropWhile_cons_of_neg (by simp [solid])]

theorem skipSpace_ends {rest : Bytes} (ends : Ends rest) : skipSpace rest = rest := by
  cases ends <;> rfl

theorem digit_toDigits (n : Nat) :
    ∃ b tail, (Nat.toDigits 10 n).flatMap String.utf8EncodeChar = b :: tail ∧ isDigit b = true := by
  cases shape : Nat.toDigits 10 n with
  | nil => exact absurd shape Nat.toDigits_ne_nil
  | cons c cs =>
    have inside : c ∈ Nat.toDigits 10 n := by rw [shape]; exact List.mem_cons_self
    obtain ⟨b, single, digit⟩ :=
      isDigit_encodeChar (Nat.isDigit_of_mem_toDigits (by decide) (by decide) inside)
    exact ⟨b, cs.flatMap String.utf8EncodeChar, by rw [List.flatMap_cons, single]; rfl, digit.1⟩

theorem ne_of_digit {b c : UInt8} (digit : isDigit b = true) (other : isDigit c = false) :
    b ≠ c := by
  rintro rfl
  rw [other] at digit
  cases digit

theorem isSpace_digit {b : UInt8} (digit : isDigit b = true) : isSpace b = false := by
  rw [← Bool.not_eq_true]
  intro blank
  simp only [isSpace, Bool.or_eq_true, beq_iff_eq] at blank
  rcases blank with ((same | same) | same) | same <;> exact ne_of_digit digit (by decide) same

theorem readValue_digit {b : UInt8} (digit : isDigit b = true) {tail rest : Bytes} {value : Scalar}
    (number : readNumber false (b :: tail) = .ok (value, rest)) (depth fuel : Nat) :
    readValue depth (fuel + 1) (b :: tail) = .ok (.ofScalar value, rest) := by
  have apart {c : UInt8} {after : Bytes} (other : isDigit c = false) : b :: tail ≠ c :: after :=
    fun same => ne_of_digit digit other (List.cons.inj same).1
  rw [readValue, skipSpace_cons (isSpace_digit digit)]
  split
  · rename_i same
    cases same
  · rename_i same
    exact absurd same (apart (by decide))
  · rename_i same
    exact absurd same (apart (by decide))
  · rename_i same
    exact absurd same (apart (by decide))
  · rename_i same
    cases same
    have unsigned : b ≠ 0x2D := ne_of_digit digit (by decide)
    rw [if_neg (by simpa using unsigned), if_pos digit, number]

theorem readValue_minus {tail rest : Bytes} {value : Scalar}
    (number : readNumber true tail = .ok (value, rest)) (depth fuel : Nat) :
    readValue depth (fuel + 1) (0x2D :: tail) = .ok (.ofScalar value, rest) := by
  rw [readValue, skipSpace_cons (by decide)]
  simp [number]

theorem readValue_integer {i : Int} (range : -(Int.pow 2 63) ≤ i ∧ i < Int.pow 2 64)
    {rest : Bytes} (ends : Ends rest) (depth fuel : Nat) :
    readValue depth (fuel + 1) ((Number.integer i).text.flatMap String.utf8EncodeChar ++ rest) =
      .ok (.ofScalar (.integer i), rest) := by
  cases i with
  | ofNat n =>
    obtain ⟨b, tail, front, digit⟩ := digit_toDigits n
    have number := readNumber_toDigits false n ends
    rw [value_natural (Int.ofNat_lt.mp range.2)] at number
    rw [Number.text, front, List.cons_append] at *
    exact readValue_digit digit number depth fuel
  | negSucc n =>
    have fits : n + 1 ≤ Nat.pow 2 63 := by
      have low := range.1
      have power : Int.pow 2 63 = (Nat.pow 2 63 : Nat) := rfl
      omega
    have number := readNumber_toDigits true (n + 1) ends
    rw [value_negative (Nat.succ_pos n) fits] at number
    exact readValue_minus number depth fuel

theorem readQuoted_quote (text : String) (rest : Bytes) :
    readQuoted (some []) ((text.toList.flatMap escapeChar).flatMap String.utf8EncodeChar ++
      0x22 :: rest) = .ok (some (Utf8.encode text), rest) :=
  readQuoted_text text.toList [] rest

theorem encode_quote (text : String) (rest : Bytes) :
    (quote text).flatMap String.utf8EncodeChar ++ rest =
      0x22 :: ((text.toList.flatMap escapeChar).flatMap String.utf8EncodeChar ++ 0x22 :: rest) := by
  rw [quote, List.flatMap_append, List.append_assoc]
  rfl

/-- A value starts with a byte that is neither blank nor the end of a list. -/
theorem front_chars {json : Json} {room : Nat} (fine : json.readable room = true) :
    ∃ b tail, json.chars.flatMap String.utf8EncodeChar = b :: tail ∧ isSpace b = false ∧
      b ≠ 0x5D := by
  cases json with
  | null => exact ⟨0x6E, [0x75, 0x6C, 0x6C], rfl, rfl, by decide⟩
  | bool b =>
    cases b with
    | true => exact ⟨0x74, [0x72, 0x75, 0x65], rfl, rfl, by decide⟩
    | false => exact ⟨0x66, [0x61, 0x6C, 0x73, 0x65], rfl, rfl, by decide⟩
  | number n =>
    cases n with
    | double x => simp [readable] at fine
    | integer i =>
      cases i with
      | negSucc n => exact ⟨0x2D, _, rfl, rfl, by decide⟩
      | ofNat n =>
        obtain ⟨b, tail, front, digit⟩ := digit_toDigits n
        exact ⟨b, tail, front, isSpace_digit digit, ne_of_digit digit (by decide)⟩
  | string s => exact ⟨0x22, _, rfl, rfl, by decide⟩
  | array items => exact ⟨0x5B, _, rfl, rfl, by decide⟩
  | object members => exact ⟨0x7B, _, rfl, rfl, by decide⟩

theorem length_chars_pos {json : Json} {room : Nat} (fine : json.readable room = true) :
    0 < json.chars.length := by
  obtain ⟨b, tail, front, -⟩ := front_chars fine
  cases shape : json.chars with
  | nil => simp [shape] at front
  | cons c cs => exact Nat.succ_pos _

theorem readValue_bracket {b : UInt8} (solid : isSpace b = false) (filled : b ≠ 0x5D)
    {depth fuel : Nat} {tail rest : Bytes} {items : List Datum}
    (read : readItems (depth + 1) fuel (b :: tail) = .ok (items, rest)) :
    readValue depth (fuel + 1) (0x5B :: b :: tail) = .ok (ofItems (depth + 1) items, rest) := by
  rw [readValue, skipSpace_cons (by decide)]
  simp only [skipSpace_cons solid]
  split
  · rename_i same
    exact absurd (List.cons.inj same).1 filled
  · rw [read]

theorem readValue_brace {depth fuel : Nat} {tail rest : Bytes} {entries : List (Word × Datum)}
    (read : readMembers (depth + 1) fuel (0x22 :: tail) = .ok (entries, rest)) :
    readValue depth (fuel + 1) (0x7B :: 0x22 :: tail) =
      .ok (ofMembers (depth + 1) entries, rest) := by
  rw [readValue, skipSpace_cons (by decide)]
  simp [skipSpace_cons (show isSpace 0x22 = false from rfl), read]

theorem ofItems_shallow {depth : Nat} (shallow : depth < nestingLimit) (items : List Datum) :
    ofItems depth items = .list items :=
  if_neg (Nat.not_le.mpr shallow)

theorem ofMembers_shallow {depth : Nat} (shallow : depth < nestingLimit) (members : Members) :
    ofMembers depth (memberData members) = .map (memberData members) := by
  have named : (memberData members).any (·.1.value == .unusable) = false := by
    rw [memberData_eq_map, List.any_map, List.any_eq_false]
    intro m _
    simp
  rw [ofMembers, named, Bool.or_false]
  exact if_neg (by simpa using shallow)

theorem readItems_last {depth fuel : Nat} {text rest : Bytes} {item : Datum}
    (read : readValue depth fuel text = .ok (item, 0x5D :: rest)) :
    readItems depth (fuel + 1) text = .ok ([item], rest) := by
  rw [readItems, read]
  simp [skipSpace_ends (.bracket rest)]

theorem readItems_more {depth fuel : Nat} {text more rest : Bytes} {item : Datum}
    {items : List Datum} (read : readValue depth fuel text = .ok (item, 0x2C :: more))
    (others : readItems depth fuel more = .ok (items, rest)) :
    readItems depth (fuel + 1) text = .ok (item :: items, rest) := by
  rw [readItems, read]
  simp [skipSpace_ends (.comma more), others]

theorem readMembers_last {depth fuel : Nat} {text rest : Bytes} {value : Datum} (key : String)
    (read : readValue depth fuel text = .ok (value, 0x7D :: rest)) :
    readMembers depth (fuel + 1) ((quote key).flatMap String.utf8EncodeChar ++ 0x3A :: text) =
      .ok ([({ value := .text key }, value)], rest) := by
  rw [encode_quote, readMembers, skipSpace_cons (by decide)]
  simp [readQuoted_quote, textScalar_encode, skipSpace_cons (show isSpace 0x3A = false from rfl),
    read, skipSpace_ends (.brace rest)]

theorem readMembers_more {depth fuel : Nat} {text more rest : Bytes} {value : Datum}
    {entries : List (Word × Datum)} (key : String)
    (read : readValue depth fuel text = .ok (value, 0x2C :: more))
    (others : readMembers depth fuel more = .ok (entries, rest)) :
    readMembers depth (fuel + 1) ((quote key).flatMap String.utf8EncodeChar ++ 0x3A :: text) =
      .ok (({ value := .text key }, value) :: entries, rest) := by
  rw [encode_quote, readMembers, skipSpace_cons (by decide)]
  simp [readQuoted_quote, textScalar_encode, skipSpace_cons (show isSpace 0x3A = false from rfl),
    read, skipSpace_ends (.comma more), others]

theorem itemChars_more (item next : Json) (items : List Json) :
    itemChars (item :: next :: items) = item.chars ++ ',' :: itemChars (next :: items) := rfl

theorem memberChars_more (key : String) (value : Json) (next : String × Json) (members : Members) :
    memberChars ((key, value) :: next :: members) =
      quote key ++ ':' :: value.chars ++ ',' :: memberChars (next :: members) := rfl

theorem front_itemChars {item : Json} {room : Nat} (fine : item.readable room = true)
    (items : List Json) :
    ∃ b tail, (itemChars (item :: items)).flatMap String.utf8EncodeChar = b :: tail ∧
      isSpace b = false ∧ b ≠ 0x5D := by
  obtain ⟨b, tail, front, solid, inside⟩ := front_chars fine
  obtain ⟨more, parted⟩ : ∃ more, itemChars (item :: items) = item.chars ++ more := by
    cases items with
    | nil => exact ⟨[], by rw [itemChars, List.append_nil]⟩
    | cons next items => exact ⟨_, itemChars_more item next items⟩
  refine ⟨b, tail ++ more.flatMap String.utf8EncodeChar, ?_, solid, inside⟩
  rw [parted, List.flatMap_append, front]
  rfl

theorem front_memberChars (member : String × Json) (members : Members) :
    ∃ tail, (memberChars (member :: members)).flatMap String.utf8EncodeChar = 0x22 :: tail := by
  cases members with
  | nil => exact ⟨_, rfl⟩
  | cons next members => exact ⟨_, rfl⟩

-- By induction on the value. Every step of the reader takes a byte or goes one level in, so that
-- twice the length of the text is fuel enough; items without their brackets need one step more.
mutual

/-- The text of a value is read back as the value, whatever comes after it. -/
theorem readValue_chars (json : Json) {room : Nat} (depth fuel : Nat) {rest : Bytes}
    (fine : json.readable room = true) (shallow : depth + room < nestingLimit)
    (enough : 2 * json.chars.length ≤ fuel) (ends : Ends rest) :
    readValue depth fuel (json.chars.flatMap String.utf8EncodeChar ++ rest) =
      .ok (json.datum, rest) := by
  have filled := length_chars_pos fine
  obtain ⟨fuel, rfl⟩ : ∃ n, fuel = n + 1 := ⟨fuel - 1, by omega⟩
  match json with
  | .null => rfl
  | .bool true => rfl
  | .bool false => rfl
  | .number (.integer i) => exact readValue_integer (of_decide_eq_true fine) ends depth fuel
  | .number (.double x) => simp [readable] at fine
  | .string s =>
    rw [chars, encode_quote, readValue, skipSpace_cons (by decide)]
    simp [readQuoted_quote, textScalar_encode]
    rfl
  | .array [] =>
    have deep : 0 < room := by simpa [readable, readableItems] using fine
    have empty : readValue depth (fuel + 1) (0x5B :: 0x5D :: rest) =
        .ok (ofItems (depth + 1) [], rest) := rfl
    rw [ofItems_shallow (by omega)] at empty
    exact empty
  | .array (item :: items) =>
    obtain ⟨deep, inner⟩ : 0 < room ∧ readableItems (room - 1) (item :: items) = true := by
      simpa [readable] using fine
    rw [chars, List.length_append, List.length_cons] at enough
    have read := readItems_chars (item :: items) (List.cons_ne_nil _ _) (depth + 1) fuel rest inner
      (by omega) (by omega)
    rw [readableItems, Bool.and_eq_true] at inner
    obtain ⟨b, tail, front, solid, inside⟩ := front_itemChars inner.1 items
    rw [front] at read
    have whole := readValue_bracket solid inside read
    rw [ofItems_shallow (by omega)] at whole
    rw [chars, List.flatMap_append, List.append_assoc, List.flatMap_cons, front]
    exact whole
  | .object [] =>
    have deep : 0 < room := by simpa [readable, readableMembers] using fine
    have empty : readValue depth (fuel + 1) (0x7B :: 0x7D :: rest) =
        .ok (ofMembers (depth + 1) (memberData []), rest) := rfl
    rw [ofMembers_shallow (by omega)] at empty
    exact empty
  | .object (member :: members) =>
    obtain ⟨deep, inner⟩ : 0 < room ∧ readableMembers (room - 1) (member :: members) = true := by
      simpa [readable] using fine
    rw [chars, List.length_append, List.length_cons] at enough
    have read := readMembers_chars (member :: members) (List.cons_ne_nil _ _) (depth + 1) fuel rest
      inner (by omega) (by omega)
    obtain ⟨tail, front⟩ := front_memberChars member members
    rw [front] at read
    have whole := readValue_brace read
    rw [ofMembers_shallow (by omega)] at whole
    rw [chars, List.flatMap_append, List.append_assoc, List.flatMap_cons, front]
    exact whole

theorem readItems_chars (items : List Json) (filled : items ≠ []) {room : Nat} (depth fuel : Nat)
    (rest : Bytes) (fine : readableItems room items = true) (shallow : depth + room < nestingLimit)
    (enough : 2 * (itemChars items).length + 1 ≤ fuel) :
    readItems depth fuel ((itemChars items).flatMap String.utf8EncodeChar ++ 0x5D :: rest) =
      .ok (itemData items, rest) := by
  obtain ⟨fuel, rfl⟩ : ∃ n, fuel = n + 1 := ⟨fuel - 1, by omega⟩
  match items with
  | [] => exact absurd rfl filled
  | [item] =>
    rw [readableItems, Bool.and_eq_true] at fine
    rw [itemChars] at enough ⊢
    exact readItems_last (readValue_chars item depth fuel fine.1 shallow (by omega) (.bracket rest))
  | item :: next :: items =>
    rw [readableItems, Bool.and_eq_true] at fine
    rw [itemChars_more, List.length_append, List.length_cons] at enough
    rw [itemChars_more, List.flatMap_append, List.append_assoc]
    exact readItems_more (readValue_chars item depth fuel fine.1 shallow (by omega) (.comma _))
      (readItems_chars (next :: items) (List.cons_ne_nil _ _) depth fuel rest fine.2 shallow
        (by omega))

theorem readMembers_chars (members : Members) (filled : members ≠ []) {room : Nat}
    (depth fuel : Nat) (rest : Bytes) (fine : readableMembers room members = true)
    (shallow : depth + room < nestingLimit)
    (enough : 2 * (memberChars members).length + 1 ≤ fuel) :
    readMembers depth fuel ((memberChars members).flatMap String.utf8EncodeChar ++ 0x7D :: rest) =
      .ok (memberData members, rest) := by
  obtain ⟨fuel, rfl⟩ : ∃ n, fuel = n + 1 := ⟨fuel - 1, by omega⟩
  match members with
  | [] => exact absurd rfl filled
  | [(key, value)] =>
    rw [readableMembers, Bool.and_eq_true] at fine
    rw [memberChars, List.length_append, List.length_cons] at enough
    rw [memberChars, List.flatMap_append, List.append_assoc]
    exact readMembers_last key
      (readValue_chars value depth fuel fine.1 shallow (by omega) (.brace rest))
  | (key, value) :: next :: members =>
    rw [readableMembers, Bool.and_eq_true] at fine
    simp only [memberChars_more, List.length_append, List.length_cons] at enough
    simp only [memberChars_more, List.flatMap_append, List.flatMap_cons, List.append_assoc]
    exact readMembers_more key
      (readValue_chars value depth fuel fine.1 shallow (by omega) (.comma _))
      (readMembers_chars (next :: members) (List.cons_ne_nil _ _) depth fuel rest fine.2 shallow
        (by omega))

end

theorem length_le_encode (cs : List Char) :
    cs.length ≤ (cs.flatMap String.utf8EncodeChar).length := by
  induction cs with
  | nil => exact Nat.le_refl 0
  | cons c cs ih =>
    have own := c.utf8Size_pos
    rw [List.flatMap_cons, List.length_append, String.length_utf8EncodeChar, List.length_cons]
    omega

/-- A value on one line is read back, unless it is nested too deep or has a number that is no
    integer of 64 bits. -/
theorem read_compact {json : Json} {room : Nat} (fine : json.readable room = true)
    (shallow : room < nestingLimit) : read (Utf8.encode json.compact) = .ok json.datum := by
  have text : Utf8.encode json.compact = json.chars.flatMap String.utf8EncodeChar ++ [] := by
    rw [compact, Utf8.encode, String.toList_ofList, List.append_nil]
  have bytes := length_le_encode json.chars
  rw [read, text, readValue_chars json 0 _ fine (by omega) _ .document]
  · rfl
  · simp only [List.append_nil]
    omega

end FormatLint.Json
