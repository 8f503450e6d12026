import FormatLint.Text.Utf8

/-!
UTF-8 round trips.
-/

namespace FormatLint.Utf8

theorem encode_eq_bytes (text : String) : encode text = text.toByteArray.data.toList := by
  rw [← String.utf8Encode_toList]
  simp [encode, List.utf8Encode]

theorem encode_of_decode {bytes : Bytes} {text : String} (read : decode? bytes = some text) :
    encode text = bytes := by
  unfold decode? String.fromUTF8? at read
  split at read
  · cases read
    rw [encode_eq_bytes]
    rfl
  · cases read

theorem decode?_encode (text : String) : decode? (encode text) = some text := by
  have bytes : (⟨(encode text).toArray⟩ : ByteArray) = text.toByteArray := by
    rw [encode_eq_bytes]
  rw [decode?, bytes, String.fromUTF8?]
  simp [text.isValidUTF8]
  rfl

theorem read?_toUTF8 (text : String) : read? text.toUTF8 = some text := by
  rw [read?, String.fromUTF8?]
  simp [text.isValidUTF8]
  rfl

theorem decodeLossy_encode (text : String) : decodeLossy (encode text) = text := by
  rw [decodeLossy, decode?_encode]

/-- Bytes that are well formed survive a lossy reading. -/
theorem encode_decodeLossy {bytes : Bytes} (wellFormed : (decode? bytes).isSome = true) :
    encode (decodeLossy bytes) = bytes := by
  obtain ⟨text, read⟩ := Option.isSome_iff_exists.mp wellFormed
  rw [decodeLossy, read]
  exact encode_of_decode read

theorem encode_append (a b : String) : encode (a ++ b) = encode a ++ encode b := by
  simp [encode]

theorem encode_injective {a b : String} (same : encode a = encode b) : a = b := by
  rw [encode_eq_bytes, encode_eq_bytes] at same
  apply String.toByteArray_inj.mp
  apply ByteArray.ext
  exact Array.toList_inj.mp same

/-- A digit is a byte of its own. -/
theorem encodeChar_digit {c : Char} (digit : c.isDigit = true) :
    ∃ b : UInt8, String.utf8EncodeChar c = [b] ∧ b.toNat = c.toNat ∧ 48 ≤ c.toNat ∧
      c.toNat ≤ 57 := by
  obtain ⟨low, high⟩ : 48 ≤ c.val ∧ c.val ≤ 57 := by simpa [Char.isDigit] using digit
  have small : c.toNat ≤ 57 := high
  have large : 48 ≤ c.toNat := low
  have single : c.utf8Size = 1 := by
    rw [Char.utf8Size_eq_one_iff]
    exact Nat.le_trans small (by decide)
  refine ⟨c.val.toUInt8, String.utf8EncodeChar_eq_singleton single, ?_, large, small⟩
  rw [UInt32.toNat_toUInt8]
  exact Nat.mod_eq_of_lt (Nat.lt_of_le_of_lt small (by decide))

/-- The bytes of a numeral are digits. -/
theorem encode_numeral {n : Nat} {b : UInt8} (member : b ∈ encode (toString n)) :
    0x30 ≤ b ∧ b ≤ 0x39 := by
  rw [encode, Nat.toString_eq_repr, Nat.toList_repr] at member
  obtain ⟨c, digit, inside⟩ := List.mem_flatMap.mp member
  have isDigit := Nat.isDigit_of_mem_toDigits (by decide) (by decide) digit
  obtain ⟨byte, single, same, large, small⟩ := encodeChar_digit isDigit
  rw [single, List.mem_singleton] at inside
  subst inside
  rw [UInt8.le_iff_toNat_le, UInt8.le_iff_toNat_le, same]
  exact ⟨large, small⟩

/-- A byte below 0x80 is a character of its own. -/
theorem ascii_of_mem_encodeChar {c : Char} {b : UInt8} (inside : b ∈ String.utf8EncodeChar c)
    (small : b < 0x80) : c.toNat = b.toNat := by
  have bound : b.toNat < 128 := small
  unfold String.utf8EncodeChar at inside
  simp only at inside
  have high (n : Nat) (large : 128 ≤ n ∧ n < 256) : b ≠ UInt8.ofNat n := by
    intro same
    rw [same, UInt8.toNat_ofNat'] at bound
    omega
  split at inside
  · rw [List.mem_singleton] at inside
    rw [inside, UInt8.toNat_ofNat', Nat.mod_eq_of_lt (by omega)]
    rfl
  · -- every byte of a longer character is at least 0x80
    false_or_by_contra
    simp only [apply_ite (b ∈ ·), List.mem_cons, List.not_mem_nil, or_false] at inside
    split at inside
    · rcases inside with same | same <;> exact high _ (by omega) same
    · split at inside
      · rcases inside with same | same | same <;> exact high _ (by omega) same
      · rcases inside with same | same | same | same <;> exact high _ (by omega) same

theorem numeral_injective {m n : Nat} (same : toString m = toString n) : m = n := by
  have digits : Nat.toDigits 10 m = Nat.toDigits 10 n := by
    have lists := congrArg String.toList same
    simpa only [Nat.toString_eq_repr, Nat.toList_repr] using lists
  rw [← Nat.ofDigitChars_ten_toDigits (n := m), digits, Nat.ofDigitChars_ten_toDigits]

end FormatLint.Utf8
