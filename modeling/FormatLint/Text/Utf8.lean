/-!
Text as UTF-8 bytes. `encode` writes a text, `decode?` reads one back and refuses bytes that are
not well formed, and `decodeLossy` reads any bytes, with U+FFFD for each broken front.
-/

namespace FormatLint

/-- A byte string: a path, a file name, the subject of a glob. -/
abbrev Bytes := List UInt8

namespace Utf8

def encode (text : String) : Bytes :=
  text.toList.flatMap String.utf8EncodeChar

def decode? (bytes : Bytes) : Option String :=
  String.fromUTF8? ⟨bytes.toArray⟩

/-- The number of bytes that a lead byte announces after itself, with the range that the first of
    them must lie in; `none` for a byte that starts no character. -/
def tails (lead : UInt8) : Option (Nat × UInt8 × UInt8) :=
  if lead < 0xC2 then none
  else if lead ≤ 0xDF then some (1, 0x80, 0xBF)
  else if lead = 0xE0 then some (2, 0xA0, 0xBF)
  else if lead = 0xED then some (2, 0x80, 0x9F)
  else if lead ≤ 0xEF then some (2, 0x80, 0xBF)
  else if lead = 0xF0 then some (3, 0x90, 0xBF)
  else if lead ≤ 0xF3 then some (3, 0x80, 0xBF)
  else if lead = 0xF4 then some (3, 0x80, 0x8F)
  else none

/-- How many of the expected tail bytes stand at the front of `rest`. -/
def tailRun : Nat → UInt8 → UInt8 → Bytes → Nat
  | 0, _, _, _ => 0
  | _, _, _, [] => 0
  | n + 1, lo, hi, b :: rest =>
    if lo ≤ b ∧ b ≤ hi then 1 + tailRun n 0x80 0xBF rest else 0

/-- The code point of a lead byte that has `count` tail bytes. -/
def codePoint (lead : UInt8) (count : Nat) (tail : Bytes) : Nat :=
  (tail.take count).foldl (fun value b => value * 64 + b.toNat % 64)
    (lead.toNat % Nat.pow 2 (6 - count))

/-- The character at the front of a non-empty byte string and how many bytes after the first one
    it takes. A broken front gives U+FFFD and takes the bytes that were well formed so far. -/
def front (lead : UInt8) (rest : Bytes) : Char × Nat :=
  if lead < 0x80 then (Char.ofNat lead.toNat, 0)
  else
    match tails lead with
    | none => ('\uFFFD', 0)
    | some (count, lo, hi) =>
      let seen := tailRun count lo hi rest
      if seen = count then (Char.ofNat (codePoint lead count rest), count) else ('\uFFFD', seen)

def lossyChars : Bytes → List Char
  | [] => []
  | lead :: rest =>
    let (c, taken) := front lead rest
    c :: lossyChars (rest.drop taken)
termination_by bytes => bytes.length
decreasing_by simp only [List.length_drop, List.length_cons]; omega

/-- Reads any bytes. Text that is well formed comes back as it was written. -/
def decodeLossy (bytes : Bytes) : String :=
  match decode? bytes with
  | some text => text
  | none => String.ofList (lossyChars bytes)

/-- A file's bytes as text, `none` when they are not well formed. -/
def read? (content : ByteArray) : Option String := String.fromUTF8? content

/-- A program's output as text, with U+FFFD for each broken front. -/
def readLossy (content : ByteArray) : String :=
  match String.fromUTF8? content with
  | some text => text
  | none => String.ofList (lossyChars content.toList)

end Utf8

end FormatLint
