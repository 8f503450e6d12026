import FormatLint.Text.Utf8
import FormatLint.Text.Width

/-!
Names in messages: in double quotes, with an escape for everything that would not show as itself.
-/

namespace FormatLint.Text

/-- Characters that leave no mark: controls, separators other than the space, invisible and
    private characters. -/
def invisibleRanges : Array (Nat × Nat) := #[
  (0x0, 0x1F), (0x7F, 0xA0), (0xAD, 0xAD), (0x600, 0x605), (0x61C, 0x61C), (0x6DD, 0x6DD),
  (0x70F, 0x70F), (0x890, 0x891), (0x8E2, 0x8E2), (0x1680, 0x1680), (0x180E, 0x180E),
  (0x2000, 0x200F), (0x2028, 0x202F), (0x205F, 0x206F), (0x3000, 0x3000), (0xE000, 0xF8FF),
  (0xFEFF, 0xFEFF), (0xFFF0, 0xFFFB), (0xFFFE, 0xFFFF), (0x110BD, 0x110BD), (0x110CD, 0x110CD),
  (0x13430, 0x1343F), (0x1BCA0, 0x1BCA3), (0x1D173, 0x1D17A), (0xE0000, 0xE0FFF),
  (0xF0000, 0x10FFFF)]

def lowerHex (n : Nat) : String := String.ofList (Nat.toDigits 16 n)

def upperHexPair (b : UInt8) : String :=
  let digit (n : Nat) : Char := (Nat.digitChar n).toUpper
  String.ofList [digit (b.toNat / 16), digit (b.toNat % 16)]

def escapeChar (c : Char) : String :=
  if c = '\x00' then "\\0"
  else if c = '\t' then "\\t"
  else if c = '\n' then "\\n"
  else if c = '\r' then "\\r"
  else if c = '"' ∨ c = '\'' ∨ c = '\\' then String.ofList ['\\', c]
  else if inTable invisibleRanges c.toNat ∨ charWidth c = 0 then
    "\\u\x7b" ++ lowerHex c.toNat ++ "\x7d"
  else String.ofList [c]

/-- Bytes as text with escapes; a byte that is not UTF-8 shows its value. -/
def escapeBytes : Bytes → String
  | [] => ""
  | lead :: rest =>
    let (c, taken) := Utf8.front lead rest
    let shown :=
      if (String.utf8EncodeChar c) = lead :: rest.take taken then escapeChar c
      else String.join ((lead :: rest.take taken).map fun b => "\\x" ++ upperHexPair b)
    shown ++ escapeBytes (rest.drop taken)
termination_by bytes => bytes.length
decreasing_by simp only [List.length_drop, List.length_cons]; omega

def quoted (bytes : Bytes) : String := "\"" ++ escapeBytes bytes ++ "\""

end FormatLint.Text
