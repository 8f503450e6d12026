import FormatLint.Proofs.Glob.Subtree
import FormatLint.Proofs.Path.Join
import FormatLint.Proofs.Text.Utf8
import FormatLint.Text.Blank

/-!
Globs whose text is literal but for a `**/` before it and a `/**` after it. Reading such a text
never fails, and the glob matches the paths in which the literal segments stand in a row: anywhere
or only at the front, at the end or only before it (`accepts_literal_iff`).
-/

namespace FormatLint

namespace Glob

/-- The characters that are no literals outside of groups. -/
def isWild (c : Char) : Bool := ['*', '?', '[', '{', '}', '\\'].contains c

/-- Literal text is read character by character. -/
theorem readFrom_literals {cs : List Char} (literal : ∀ c ∈ cs, isWild c = false)
    (tokens : List Token) (previous : Option Char) (rest : List Char) :
    ∃ last, readFrom (.text previous) ⟨[], tokens⟩ (cs ++ rest) =
      readFrom (.text last) ⟨[], (cs.map .literal).reverse ++ tokens⟩ rest := by
  induction cs generalizing tokens previous with
  | nil => exact ⟨previous, rfl⟩
  | cons c cs ih =>
    rw [List.forall_mem_cons] at literal
    have step : readFrom (.text previous) ⟨[], tokens⟩ (c :: cs ++ rest) =
        readFrom (.text (some c)) ⟨[], .literal c :: tokens⟩ (cs ++ rest) := by
      by_cases comma : c = ','
      · subst comma
        simp [readFrom, Reading.nextAlternative, Reading.push]
      · refine readFrom_literal ⟨[], tokens⟩ previous c _ ?_
        have other := literal.1
        simp only [isWild, isSpecial, List.contains_eq_mem, List.mem_cons, List.not_mem_nil,
          or_false, decide_eq_false_iff_not, not_or] at other ⊢
        simp [other, comma]
    obtain ⟨last, below⟩ := ih literal.2 (.literal c :: tokens) (some c)
    refine ⟨last, ?_⟩
    rw [step, below]
    simp

/-- A text as part of a glob: at any depth if it floats, and with everything below it or not. -/
def globText (floating below : Bool) (cs : List Char) : List Char :=
  (if floating then "**/".toList else []) ++ cs ++ (if below then "/**".toList else [])

def literalGlob (floating below : Bool) (cs : List Char) : Glob :=
  (if floating then [.leading] else []) ++ cs.map .literal ++ (if below then [.trailing] else [])

theorem readFrom_floating (rest : List Char) :
    readFrom (.text none) {} ("**/".toList ++ rest) =
      readFrom (.text (some '/')) ⟨[], [.leading]⟩ rest := by
  simp [readFrom, Reading.push]

theorem parse_literal {cs : List Char} (literal : ∀ c ∈ cs, isWild c = false)
    (floating below : Bool) :
    parse (String.ofList (globText floating below cs)) = .ok (literalGlob floating below cs) := by
  have finish (tokens : List Token) (previous : Option Char) :
      readFrom (.text previous) ⟨[], tokens⟩ (if below then "/**".toList else []) =
        .ok ⟨[], (if below then [.trailing] else []) ++ tokens⟩ := by
    cases below with
    | false => simp [readFrom, Reading.inGroup]
    | true =>
      have slash := readFrom_literal ⟨[], tokens⟩ previous '/' ['*', '*'] (by decide)
      simp [slash, readFrom, startsSegment, Reading.inGroup, Reading.merge, Reading.push]
  have body (tokens : List Token) (previous : Option Char) :
      readFrom (.text previous) ⟨[], tokens⟩ (cs ++ if below then "/**".toList else []) =
        .ok ⟨[], (if below then [.trailing] else []) ++
          ((cs.map .literal).reverse ++ tokens)⟩ := by
    obtain ⟨last, read⟩ := readFrom_literals literal tokens previous
      (if below then "/**".toList else [])
    exact read.trans (finish _ last)
  refine parse_eq_ok.mpr ⟨⟨[], (literalGlob floating below cs).reverse⟩, ?_, by simp⟩
  rw [String.toList_ofList, globText, List.append_assoc]
  cases floating with
  | false =>
    refine (body [] none).trans ?_
    cases below <;> simp [literalGlob]
  | true =>
    refine (readFrom_floating _).trans ((body [.leading] (some '/')).trans ?_)
    cases below <;> simp [literalGlob]

/-- The bytes of a text. -/
abbrev bytesOf (cs : List Char) : Bytes := cs.flatMap String.utf8EncodeChar

theorem stands_literals (cs : List Char) (text : Bytes) :
    Stands (cs.map .literal) text ↔ text = bytesOf cs := by
  induction cs generalizing text with
  | nil => rfl
  | cons c cs ih =>
    simp only [List.map_cons, Stands, Token.Stands, ih, List.flatMap_cons]
    constructor
    · rintro ⟨_, _, rfl, rfl, rfl⟩
      rfl
    · intro whole
      exact ⟨_, _, whole, rfl, rfl⟩

theorem slash_notMem_bytesOf {cs : List Char} (plain : '/' ∉ cs) : slash ∉ bytesOf cs := by
  intro inside
  obtain ⟨c, member, byte⟩ := List.mem_flatMap.mp inside
  have same : c.toNat = 0x2F := Utf8.ascii_of_mem_encodeChar byte (by decide)
  have isSlash : c = '/' := Char.toNat_inj.mp same
  exact plain (isSlash ▸ member)

theorem bytesOf_ne_nil {cs : List Char} (filled : cs ≠ []) : bytesOf cs ≠ [] := by
  obtain ⟨c, rest, rfl⟩ := List.exists_cons_of_ne_nil filled
  simp [bytesOf]

/-- Names with slashes between them are written as the path with these segments. -/
theorem bytesOf_joinWith (names : List (List Char)) :
    bytesOf (Text.joinWith ['/'] names) = Path.unsplit (names.map bytesOf) := by
  induction names with
  | nil => rfl
  | cons name names ih =>
    cases names with
    | nil => rfl
    | cons next names =>
      rw [Text.joinWith, List.map_cons, Path.unsplit_cons _ (by simp), ← ih]
      · simp [bytesOf, Path.slash]
        rfl
      · simp

/-- What may stand before and after the literal part of a match. -/
theorem stands_literalGlob (floating below : Bool) (cs : List Char) (text : Bytes) :
    Stands (literalGlob floating below cs) text ↔
      ∃ front back, text = front ++ bytesOf cs ++ back ∧
        (front = [] ∨ floating = true ∧ ∃ above, front = above ++ [slash]) ∧
        (below = false ∧ back = [] ∨ below = true ∧ ∃ after, back = slash :: after) := by
  have before (front : Bytes) : Stands (if floating then [.leading] else []) front ↔
      front = [] ∨ floating = true ∧ ∃ above, front = above ++ [slash] := by
    cases floating with
    | false => simp [Stands]
    | true => simp [stands_singleton, Token.Stands]
  have behind (back : Bytes) : Stands (if below then [.trailing] else []) back ↔
      below = false ∧ back = [] ∨ below = true ∧ ∃ after, back = slash :: after := by
    cases below with
    | false => simp [Stands]
    | true => simp [stands_singleton, Token.Stands]
  simp only [literalGlob, stands_append, stands_literals, before, behind]
  constructor
  · rintro ⟨_, back, rfl, ⟨front, _, rfl, ahead, rfl⟩, after⟩
    exact ⟨front, back, rfl, ahead, after⟩
  · rintro ⟨front, back, rfl, ahead, after⟩
    exact ⟨_, back, rfl, ⟨front, _, rfl, ahead, rfl⟩, after⟩

/-- The glob of literal segments matches the paths that have these segments in a row: right at the
    front unless it floats, and at the end or before it, depending on whether it takes in what lies
    below. -/
theorem accepts_literal_iff {names : List (List Char)} (filled : names ≠ [])
    (plain : ∀ name ∈ names, name ≠ [] ∧ '/' ∉ name) (floating below : Bool) (path : Bytes) :
    (literalGlob floating below (Text.joinWith ['/'] names)).accepts path = true ↔
      ∃ above rest, Path.split path = above ++ names.map bytesOf ++ rest ∧
        (floating = false → above = []) ∧ (rest = [] ↔ below = false) := by
  have several : literalGlob floating below (Text.joinWith ['/'] names) ≠ [.leading] := by
    obtain ⟨name, names, rfl⟩ := List.exists_cons_of_ne_nil filled
    obtain ⟨c, cs, rfl⟩ := List.exists_cons_of_ne_nil (plain name List.mem_cons_self).1
    cases names <;> cases floating <;> simp [literalGlob, Text.joinWith]
  have segments : Path.split (Path.unsplit (names.map bytesOf)) = names.map bytesOf := by
    refine Path.split_unsplit (by simpa using filled) ?_
    intro part member
    obtain ⟨name, inside, rfl⟩ := List.mem_map.mp member
    exact slash_notMem_bytesOf (plain name inside).2
  rw [accepts_iff, or_iff_right several, stands_literalGlob, bytesOf_joinWith]
  constructor
  · rintro ⟨front, back, rfl, ahead, behind⟩
    have tail : ∃ rest, Path.split (Path.unsplit (names.map bytesOf) ++ back) =
        names.map bytesOf ++ rest ∧ (rest = [] ↔ below = false) := by
      rcases behind with ⟨last, rfl⟩ | ⟨deeper, after, rfl⟩
      · exact ⟨[], by simpa using segments, by simp [last]⟩
      · refine ⟨Path.split after, ?_, by simp [deeper, Path.split_ne_nil]⟩
        have divided := Path.split_append (Path.unsplit (names.map bytesOf)) after
        rw [segments] at divided
        exact divided
    obtain ⟨rest, shape, ends⟩ := tail
    rcases ahead with rfl | ⟨floats, above, rfl⟩
    · exact ⟨[], rest, by simpa using shape, fun _ => rfl, ends⟩
    · refine ⟨Path.split above, rest, ?_, by simp [floats], ends⟩
      rw [List.append_assoc _ _ rest, ← shape, ← Path.split_append]
      simp [Path.slash, slash]
  · rintro ⟨above, rest, shape, anchored, ends⟩
    have named : names.map bytesOf ≠ [] := by simpa using filled
    have tail : ∃ back, Path.unsplit (names.map bytesOf ++ rest) =
          Path.unsplit (names.map bytesOf) ++ back ∧
        (below = false ∧ back = [] ∨ below = true ∧ ∃ after, back = slash :: after) := by
      by_cases last : rest = []
      · exact ⟨[], by simp [last], .inl ⟨ends.mp last, rfl⟩⟩
      · refine ⟨slash :: Path.unsplit rest, Path.unsplit_append named last, .inr ⟨?_, _, rfl⟩⟩
        exact eq_true_of_ne_false fun here => last (ends.mpr here)
    obtain ⟨back, whole, behind⟩ := tail
    have written : path = Path.unsplit (above ++ (names.map bytesOf ++ rest)) := by
      rw [← List.append_assoc, ← shape, Path.unsplit_split]
    by_cases first : above = []
    · exact ⟨[], back, by simpa [first, whole] using written, .inl rfl, behind⟩
    · refine ⟨Path.unsplit above ++ [slash], back, ?_, .inr ⟨?_, _, rfl⟩, behind⟩
      · rw [written, Path.unsplit_append first (by simp [filled]), whole]
        simp [Path.slash, slash]
      · exact eq_true_of_ne_false fun fixed => first (anchored fixed)

end Glob

end FormatLint
