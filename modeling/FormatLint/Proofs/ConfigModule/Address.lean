import FormatLint.Engine.FileUrl
import FormatLint.Proofs.Script.Lexing
import FormatLint.Proofs.Text.Utf8
import Mathlib

/-!
The addresses of config modules. An address is percent-encoded, and decoding it gives the path with
slashes for its backslashes; so modules are told apart as far as their paths differ by more than
that (`address_of_path`).
-/

namespace FormatLint.FileUrl

/-- The bytes that percent-encoded text stands for, `none` if an escape is not complete. -/
def percentDecode : List Char → Option Bytes
  | [] => some []
  | '%' :: high :: low :: rest => do
    let value := 16 * (← Script.hexValue? high) + (← Script.hexValue? low)
    return UInt8.ofNat value :: (← percentDecode rest)
  | c :: rest => if c = '%' then none else (percentDecode rest).map (String.utf8EncodeChar c ++ ·)

/-- Letters and digits and `-`, `.`, `_` and `~`. -/
def isUnreserved (c : Char) : Bool := c.isAlphanum || ['-', '.', '_', '~'].contains c

def isUpperHex (c : Char) : Bool := c.isDigit || 'A' ≤ c && c ≤ 'F'

/-- Text of unreserved characters, slashes, colons and percent escapes. -/
inductive IsEncoded : List Char → Prop where
  | nil : IsEncoded []
  | plain {c : Char} {rest : List Char} (plain : isUnreserved c = true ∨ c = '/' ∨ c = ':')
      (encoded : IsEncoded rest) : IsEncoded (c :: rest)
  | escape {high low : Char} {rest : List Char} (isHigh : isUpperHex high = true)
      (isLow : isUpperHex low = true) (encoded : IsEncoded rest) :
      IsEncoded ('%' :: high :: low :: rest)

def backslash : UInt8 := 0x5C

/-- The path with a slash in the place of every backslash. -/
def slashed (p : Path) : Path := ⟨p.bytes.map fun b => if b = backslash then Path.slash else b⟩

/-- A plain byte is written as its character, and that is no percent sign. -/
structure PlainByte (b : UInt8) : Prop where
  bytes : String.utf8EncodeChar (Char.ofNat b.toNat) = [b]
  unmarked : Char.ofNat b.toNat ≠ '%'
  encoded : isUnreserved (Char.ofNat b.toNat) = true ∨ Char.ofNat b.toNat = '/' ∨
    Char.ofNat b.toNat = ':'

theorem plainByte (b : UInt8) (plain : isPlain b = true) : PlainByte b := by
  have each : ∀ n < 256, isPlain (UInt8.ofNat n) = true →
      String.utf8EncodeChar (Char.ofNat n) = [UInt8.ofNat n] ∧ Char.ofNat n ≠ '%' ∧
        (isUnreserved (Char.ofNat n) = true ∨ Char.ofNat n = '/' ∨ Char.ofNat n = ':') := by
    decide +kernel
  have found := each b.toNat b.toNat_lt
  rw [UInt8.ofNat_toNat] at found
  obtain ⟨bytes, unmarked, encoded⟩ := found plain
  exact ⟨bytes, unmarked, encoded⟩

theorem hexValue?_upperHex {n : Nat} (small : n < 16) :
    Script.hexValue? (upperHex n) = some n := by
  revert n
  decide

theorem isUpperHex_upperHex {n : Nat} (small : n < 16) : isUpperHex (upperHex n) = true := by
  revert n
  decide

theorem percentDecode_other {c : Char} (other : c ≠ '%') (rest : List Char) :
    percentDecode (c :: rest) = (percentDecode rest).map (String.utf8EncodeChar c ++ ·) := by
  rw [percentDecode, if_neg other]
  intro high low rest' same
  exact absurd same other

theorem percentDecode_encodeByte (b : UInt8) (rest : List Char) :
    percentDecode (encodeByte b ++ rest) = (percentDecode rest).map (b :: ·) := by
  have bound : b.toNat < 256 := b.toNat_lt
  rw [encodeByte]
  split
  · rename_i plain
    have itself := plainByte b plain
    rw [List.singleton_append, percentDecode_other itself.unmarked, itself.bytes]
    rfl
  · have high := hexValue?_upperHex (n := b.toNat / 16) (by omega)
    have low := hexValue?_upperHex (n := b.toNat % 16) (by omega)
    have value : 16 * (b.toNat / 16) + b.toNat % 16 = b.toNat := Nat.div_add_mod _ _
    simp only [List.cons_append, List.nil_append, percentDecode, high, low, Option.bind_eq_bind,
      Option.bind_some, value, UInt8.ofNat_toNat]
    cases percentDecode rest <;> rfl

theorem percentDecode_encodeBytes (bytes : Bytes) :
    percentDecode (bytes.flatMap encodeByte) = some bytes := by
  induction bytes with
  | nil => rfl
  | cons b bytes ih =>
    rw [List.flatMap_cons, percentDecode_encodeByte, ih]
    rfl

theorem isEncoded_encodeByte (b : UInt8) {rest : List Char} (encoded : IsEncoded rest) :
    IsEncoded (encodeByte b ++ rest) := by
  have bound : b.toNat < 256 := b.toNat_lt
  rw [encodeByte]
  split
  · rename_i plain
    exact .plain (plainByte b plain).encoded encoded
  · exact .escape (isUpperHex_upperHex (by omega)) (isUpperHex_upperHex (by omega)) encoded

theorem isEncoded_encodeBytes (bytes : Bytes) : IsEncoded (bytes.flatMap encodeByte) := by
  induction bytes with
  | nil => exact .nil
  | cons b bytes ih =>
    rw [List.flatMap_cons]
    exact isEncoded_encodeByte b ih

/-- Only a backslash has the byte of one. -/
theorem encodeChar_slashed (c : Char) :
    String.utf8EncodeChar (if c == '\\' then '/' else c) =
      (String.utf8EncodeChar c).map fun b => if b = backslash then Path.slash else b := by
  by_cases same : c = '\\'
  · subst same
    decide
  · have others : ∀ b ∈ String.utf8EncodeChar c, (if b = backslash then Path.slash else b) = b := by
      intro b inside
      apply if_neg
      rintro rfl
      have code : c.toNat = 0x5C := Utf8.ascii_of_mem_encodeChar inside (by decide)
      exact same (Char.toNat_inj.mp code)
    rw [List.map_congr_left others, List.map_id', if_neg (by simpa using same)]

theorem head?_of_isAbsolute {cs : List Char}
    (absolute : (cs.flatMap String.utf8EncodeChar).head? = some Path.slash) :
    cs.head? = some '/' := by
  cases cs with
  | nil => cases absolute
  | cons c cs =>
    have size : 0 < (String.utf8EncodeChar c).length := by
      rw [String.length_utf8EncodeChar]
      exact c.utf8Size_pos
    have inside : Path.slash ∈ String.utf8EncodeChar c := by
      cases shape : String.utf8EncodeChar c with
      | nil => simp [shape] at size
      | cons b rest =>
        rw [List.flatMap_cons, shape, List.cons_append, List.head?_cons] at absolute
        rw [Option.some.inj absolute]
        exact List.mem_cons_self
    have code : c.toNat = '/'.toNat := Utf8.ascii_of_mem_encodeChar inside (by decide)
    rw [List.head?_cons, Char.toNat_inj.mp code]

/-- What follows the scheme are the bytes of the slashed path, encoded one by one. -/
theorem ofPath_eq {p : Path} (absolute : p.isAbsolute = true)
    (utf8 : ∃ text, p = Path.ofString text) :
    ofPath p = "file://" ++ String.ofList ((slashed p).bytes.flatMap encodeByte) := by
  obtain ⟨text, rfl⟩ := utf8
  have shown : (Path.ofString text).display = text := Utf8.decodeLossy_encode text
  have bytes : (text.toList.map fun c => if c == '\\' then '/' else c).flatMap
      String.utf8EncodeChar = (slashed (Path.ofString text)).bytes := by
    rw [slashed, Path.ofString, Utf8.encode, List.map_flatMap, List.flatMap_map]
    congr 1
    funext c
    exact encodeChar_slashed c
  have rooted : (text.toList.map fun c => if c == '\\' then '/' else c).head? = some '/' := by
    have first := head?_of_isAbsolute (eq_of_beq absolute)
    rw [List.head?_map, first]
    rfl
  simp only [ofPath, shown, rooted, bytes]
  rfl

theorem IsEncoded.after {front rest : List Char}
    (plain : ∀ c ∈ front, isUnreserved c = true ∨ c = '/' ∨ c = ':') (encoded : IsEncoded rest) :
    IsEncoded (front ++ rest) := by
  induction front with
  | nil => exact encoded
  | cons c front ih =>
    rw [List.forall_mem_cons] at plain
    exact .plain plain.1 (ih plain.2)

theorem slashed_eq_self_iff (p : Path) : slashed p = p ↔ backslash ∉ p.bytes := by
  constructor
  · intro same inside
    rw [← same, slashed] at inside
    obtain ⟨b, -, is⟩ := List.mem_map.mp inside
    split at is
    · exact absurd is (by decide)
    · rename_i other
      exact other is
  · intro absent
    have kept : ∀ b ∈ p.bytes, (if b = backslash then Path.slash else b) = b := by
      intro b inside
      apply if_neg
      rintro rfl
      exact absent inside
    rw [slashed, List.map_congr_left kept, List.map_id']

theorem quoted_injective {a b : String} (same : Json.quoted a = Json.quoted b) : a = b := by
  have quotes : Json.quote a = Json.quote b := String.ofList_injective same
  have first := (Script.Closed.quote a).tokens?
  rw [quotes, (Script.Closed.quote b).tokens?] at first
  simpa using first.symm

theorem renderReexport_eq_iff (p q : Path) :
    ConfigModule.renderReexport p = ConfigModule.renderReexport q ↔ ofPath p = ofPath q := by
  constructor
  · intro same
    have texts := congrArg String.toList same
    simp only [ConfigModule.renderReexport, String.toList_append] at texts
    have quotes := List.append_cancel_left (List.append_cancel_right texts)
    exact quoted_injective (String.toList_injective quotes)
  · intro same
    rw [ConfigModule.renderReexport, ConfigModule.renderReexport, same]

section

variable {p q : Path}

theorem ofPath_eq_iff (absolute : p.isAbsolute = true) (utf8 : ∃ text, p = Path.ofString text)
    (absolute' : q.isAbsolute = true) (utf8' : ∃ text, q = Path.ofString text) :
    ofPath p = ofPath q ↔ slashed p = slashed q := by
  rw [ofPath_eq absolute utf8, ofPath_eq absolute' utf8']
  constructor
  · intro same
    have texts := congrArg String.toList same
    simp only [String.toList_append, String.toList_ofList] at texts
    have decoded := congrArg percentDecode (List.append_cancel_left texts)
    rw [percentDecode_encodeBytes, percentDecode_encodeBytes] at decoded
    exact congrArg Path.mk (Option.some.inj decoded)
  · intro same
    rw [same]

end

/-- The address of an absolute path whose name is text is the scheme and then percent-encoded text,
    and what is decoded from it is the path with slashes for its backslashes. So it is the path if,
    and only if, that has no backslash, and the modules that pass on two files are the same exactly
    when their paths are the same up to that. -/
theorem address_of_path (p : Path) (absolute : p.isAbsolute = true)
    (utf8 : ∃ text, p = Path.ofString text) :
    ∃ encoded, ofPath p = "file://" ++ encoded ∧
      percentDecode encoded.toList = some (slashed p).bytes ∧
      (percentDecode encoded.toList = some p.bytes ↔ backslash ∉ p.bytes) ∧
      IsEncoded (ofPath p).toList ∧
      ∀ q : Path, q.isAbsolute = true → (∃ text, q = Path.ofString text) →
        (ConfigModule.renderReexport p = ConfigModule.renderReexport q ↔
          slashed p = slashed q) := by
  have address := ofPath_eq absolute utf8
  refine ⟨_, address, ?_, ?_, ?_, ?_⟩
  · rw [String.toList_ofList, percentDecode_encodeBytes]
  · rw [String.toList_ofList, percentDecode_encodeBytes, ← slashed_eq_self_iff]
    constructor
    · intro same
      exact congrArg Path.mk (Option.some.inj same)
    · intro same
      rw [same]
  · have scheme : ∀ c ∈ ['f', 'i', 'l', 'e', ':', '/', '/'],
        isUnreserved c = true ∨ c = '/' ∨ c = ':' := by
      simp [isUnreserved]
    simp only [address, String.toList_append, String.toList_ofList]
    exact (isEncoded_encodeBytes _).after scheme
  · intro q absolute' utf8'
    rw [renderReexport_eq_iff, ofPath_eq_iff absolute utf8 absolute' utf8']

theorem address_of_path_sample :
    percentDecode "/a%20b/%C3%A9%25.mjs".toList = some (Utf8.encode "/a b/é%.mjs") ∧
    ConfigModule.renderReexport (Path.ofString "/a b/é%.mjs") ≠
      ConfigModule.renderReexport (Path.ofString "/a%20b/é%.mjs") := by
  obtain ⟨encoded, address, -, itself, -, apart⟩ :=
    address_of_path (Path.ofString "/a b/é%.mjs") (by decide) ⟨_, rfl⟩
  have written : ofPath (Path.ofString "/a b/é%.mjs") = "file://" ++ "/a%20b/%C3%A9%25.mjs" := by
    cbv
  have same : encoded.toList = "/a%20b/%C3%A9%25.mjs".toList := by
    have texts := congrArg String.toList (address.symm.trans written)
    rw [String.toList_append, String.toList_append] at texts
    exact List.append_cancel_left texts
  rw [← same, ne_eq, apart (Path.ofString "/a%20b/é%.mjs") (by decide) ⟨_, rfl⟩]
  exact ⟨itself.mpr (by decide), by decide⟩

/-- A backslash is part of a name, but the address has a slash for it: it is that of another file,
    and so is the module. -/
theorem backslash_names_another_file :
    let p := Path.ofString "/a\\b"
    let q := Path.ofString "/a/b"
    p ≠ q ∧ p.isAbsolute = true ∧ q.isAbsolute = true ∧ ofPath p = "file://" ++ "/a/b" ∧
      percentDecode "/a/b".toList = some q.bytes ∧
      ConfigModule.renderReexport p = ConfigModule.renderReexport q := by
  refine ⟨by decide, by decide, by decide, ?_, by decide, ?_⟩
  · cbv
  · cbv

end FormatLint.FileUrl
