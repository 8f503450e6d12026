import FormatLint.Proofs.Glob.Literal
import FormatLint.Proofs.Selection.Search
import FormatLint.Selection.PatternText

/-!
Globs for files of given extensions, at any depth or below one directory. The group of extensions at
the end of such a glob can be read, and the glob matches the paths whose last segment ends with one
of the extensions (`extension_globs_match`).
-/

namespace FormatLint

namespace Path

theorem lastPart_plain (p : Path) : slash ∉ p.lastPart := by
  obtain ⟨front, shape⟩ := split_lastPart p
  have inside : p.lastPart ∈ split p.bytes := by simp [shape]
  exact split_plain_mem inside

theorem lastPart_eq {part : Bytes} (plain : slash ∉ part) {front : Bytes}
    (ahead : front = [] ∨ ∃ above, front = above ++ [slash]) :
    (⟨front ++ part⟩ : Path).lastPart = part := by
  have single := split_plain part plain
  rcases ahead with rfl | ⟨above, rfl⟩
  · simp [lastPart, single]
  · simp [lastPart, split_append, single]

/-- A path is its last part, with nothing before it or with a slash at the end of what is. -/
theorem eq_append_lastPart (p : Path) :
    ∃ front, p.bytes = front ++ p.lastPart ∧ (front = [] ∨ ∃ above, front = above ++ [slash]) := by
  obtain ⟨parts, shape⟩ := split_lastPart p
  have whole : p.bytes = unsplit (parts ++ [p.lastPart]) := by rw [← shape, unsplit_split]
  by_cases single : parts = []
  · exact ⟨[], by simpa [single, unsplit] using whole, .inl rfl⟩
  · refine ⟨unsplit parts ++ [slash], ?_, .inr ⟨_, rfl⟩⟩
    rw [whole, unsplit_append single (by simp)]
    simp [unsplit]

end Path

namespace Glob

section Reading

/-- Characters without a meaning of their own are read one by one, inside a group or not. -/
theorem readFrom_solid {cs : List Char} (solid : ∀ c ∈ cs, isSpecial c = false)
    (opened : List Opened) (tokens : List Token) (previous : Option Char) (rest : List Char) :
    ∃ last, readFrom (.text previous) ⟨opened, tokens⟩ (cs ++ rest) =
      readFrom (.text last) ⟨opened, (cs.map .literal).reverse ++ tokens⟩ rest := by
  induction cs generalizing tokens previous with
  | nil => exact ⟨previous, rfl⟩
  | cons c cs ih =>
    rw [List.forall_mem_cons] at solid
    obtain ⟨last, below⟩ := ih solid.2 (.literal c :: tokens) (some c)
    refine ⟨last, ?_⟩
    rw [List.cons_append, readFrom_literal _ previous c _ solid.1, Reading.push, below]
    simp

/-- The alternatives of a group are read one after the other, up to the end of the group. -/
theorem readFrom_alternatives {texts : List (List Char)} (filled : texts ≠ [])
    (solid : ∀ text ∈ texts, ∀ c ∈ text, isSpecial c = false) (before : List Token)
    (finished : List (List Token)) (previous : Option Char) (rest : List Char) :
    readFrom (.text previous) ⟨[⟨before, finished⟩], []⟩
        ([','].intercalate texts ++ '}' :: rest) =
      readFrom (.text (some '}'))
        ⟨[], .group (finished.reverse ++ texts.map (·.map .literal)) :: before⟩ rest := by
  induction texts generalizing finished previous with
  | nil => exact absurd rfl filled
  | cons text texts ih =>
    rw [List.forall_mem_cons] at solid
    cases texts with
    | nil =>
      obtain ⟨last, read⟩ :=
        readFrom_solid solid.1 [⟨before, finished⟩] [] previous ('}' :: rest)
      rw [List.intercalate_singleton, read]
      simp [readFrom, Reading.closeGroup?]
    | cons next texts =>
      obtain ⟨last, read⟩ := readFrom_solid solid.1 [⟨before, finished⟩] [] previous
        (',' :: ([','].intercalate (next :: texts) ++ '}' :: rest))
      have comma : readFrom (.text last) ⟨[⟨before, finished⟩], (text.map .literal).reverse ++ []⟩
          (',' :: ([','].intercalate (next :: texts) ++ '}' :: rest)) =
          readFrom (.text (some ',')) ⟨[⟨before, text.map .literal :: finished⟩], []⟩
            ([','].intercalate (next :: texts) ++ '}' :: rest) := by
        simp [readFrom, Reading.nextAlternative]
      have whole : [','].intercalate (text :: next :: texts) ++ '}' :: rest =
          text ++ ',' :: ([','].intercalate (next :: texts) ++ '}' :: rest) := by
        simp [List.intercalate_cons_cons]
      rw [whole, read, comma, ih (by simp) solid.2]
      simp

end Reading

section Language

variable {texts : List (List Char)}

theorem isVoid_literals (text : List Char) : isVoid (text.map .literal) = text.isEmpty := by
  cases text <;> rfl

theorem standsAny_iff (alternatives : List (List Token)) (text : Bytes) :
    StandsAny alternatives text ↔ ∃ a ∈ alternatives, isVoid a = false ∧ Stands a text := by
  induction alternatives with
  | nil => simp [StandsAny]
  | cons a alternatives ih => simp [StandsAny, ih]

/-- A group of texts that are not empty stands for these texts. -/
theorem stands_group (filled : texts ≠ []) (solid : ∀ text ∈ texts, text ≠ []) (text : Bytes) :
    (Token.group (texts.map (·.map .literal))).Stands text ↔ ∃ t ∈ texts, text = bytesOf t := by
  have some : allVoid (texts.map (·.map .literal)) = false := by
    obtain ⟨first, rest, rfl⟩ := List.exists_cons_of_ne_nil filled
    have visible := solid first List.mem_cons_self
    simp [allVoid, isVoid_literals, visible]
  rw [Token.Stands, if_neg (by simp [some]), standsAny_iff]
  constructor
  · rintro ⟨_, member, -, stands⟩
    obtain ⟨t, inside, rfl⟩ := List.mem_map.mp member
    exact ⟨t, inside, (stands_literals t text).mp stands⟩
  · rintro ⟨t, inside, whole⟩
    refine ⟨_, List.mem_map_of_mem inside, ?_, (stands_literals t text).mpr whole⟩
    simp [isVoid_literals, solid t inside]

/-- A star before a group stands for the names that end with one of its texts. -/
theorem stands_ending (filled : texts ≠ []) (solid : ∀ text ∈ texts, text ≠ [] ∧ '/' ∉ text)
    (name : Bytes) :
    Stands [.run, .group (texts.map (·.map .literal))] name ↔
      slash ∉ name ∧ ∃ t ∈ texts, bytesOf t <:+ name := by
  have visible : ∀ text ∈ texts, text ≠ [] := fun text inside => (solid text inside).1
  rw [← List.singleton_append, stands_append]
  simp only [stands_singleton, stands_group filled visible]
  constructor
  · rintro ⟨front, _, rfl, plain, t, inside, rfl⟩
    refine ⟨?_, t, inside, List.suffix_append _ _⟩
    rw [List.mem_append, not_or]
    exact ⟨plain, slash_notMem_bytesOf (solid t inside).2⟩
  · rintro ⟨plain, t, inside, front, rfl⟩
    exact ⟨front, _, rfl, fun slashed => plain (List.mem_append_left _ slashed), t, inside, rfl⟩

/-- At any depth, the last segment has to end with one of the texts. -/
theorem stands_anywhere (filled : texts ≠ []) (solid : ∀ text ∈ texts, text ≠ [] ∧ '/' ∉ text)
    (path : Path) :
    Stands [.leading, .run, .group (texts.map (·.map .literal))] path.bytes ↔
      ∃ t ∈ texts, bytesOf t <:+ path.lastPart := by
  rw [← List.singleton_append, stands_append]
  simp only [stands_singleton, stands_ending filled solid]
  constructor
  · rintro ⟨front, name, whole, ahead, plain, ending⟩
    obtain ⟨bytes⟩ := path
    obtain rfl : bytes = front ++ name := whole
    rwa [Path.lastPart_eq plain ahead]
  · intro ending
    obtain ⟨front, whole, ahead⟩ := path.eq_append_lastPart
    exact ⟨front, _, whole, ahead, path.lastPart_plain, ending⟩

/-- `/**/` is a slash and then whatever `**/` stands for. -/
theorem stands_middle (tokens : List Token) (text : Bytes) :
    Stands (.middle :: tokens) text ↔
      ∃ rest, text = slash :: rest ∧ Stands (.leading :: tokens) rest := by
  constructor
  · rintro ⟨_, back, rfl, rfl | ⟨between, rfl⟩, stands⟩
    · exact ⟨back, rfl, [], back, rfl, .inl rfl, stands⟩
    · exact ⟨between ++ [slash] ++ back, by simp, _, back, rfl, .inr ⟨between, rfl⟩, stands⟩
  · rintro ⟨_, rfl, _, back, rfl, rfl | ⟨before, rfl⟩, stands⟩
    · exact ⟨[slash], back, rfl, .inl rfl, stands⟩
    · exact ⟨slash :: before ++ [slash], back, by simp, .inr ⟨before, rfl⟩, stands⟩

/-- Below a directory, there has to be a segment after that of the directory as well. -/
theorem stands_below (filled : texts ≠ []) (solid : ∀ text ∈ texts, text ≠ [] ∧ '/' ∉ text)
    (directory : List Char) (plain : '/' ∉ directory) (path : Path) :
    Stands (directory.map .literal ++ [.middle, .run, .group (texts.map (·.map .literal))])
        path.bytes ↔
      (∃ t ∈ texts, bytesOf t <:+ path.lastPart) ∧ 1 < (Path.split path.bytes).length ∧
        (Path.split path.bytes).head? = some (bytesOf directory) := by
  have unslashed := slash_notMem_bytesOf plain
  have deeper (tail : Bytes) (whole : path.bytes = bytesOf directory ++ slash :: tail) :
      Path.split path.bytes = bytesOf directory :: Path.split tail ∧
        path.lastPart = (⟨tail⟩ : Path).lastPart := by
    have parted : Path.split path.bytes = bytesOf directory :: Path.split tail := by
      rw [whole]
      exact Path.split_append_slash _ tail unslashed
    refine ⟨parted, ?_⟩
    rw [Path.lastPart, Path.lastPart, parted, List.getLast?_cons_of_ne_nil (Path.split_ne_nil tail)]
  rw [stands_append]
  simp only [stands_literals, stands_middle]
  constructor
  · rintro ⟨_, _, whole, rfl, tail, rfl, stands⟩
    obtain ⟨parted, last⟩ := deeper tail whole
    have several := List.length_pos_of_ne_nil (Path.split_ne_nil tail)
    rw [last, parted]
    exact ⟨(stands_anywhere filled solid ⟨tail⟩).mp stands, by simpa using several, rfl⟩
  · rintro ⟨ending, several, first⟩
    obtain ⟨rest, shape⟩ := List.head?_eq_some_iff.mp first
    have more : rest ≠ [] := by
      rintro rfl
      simp [shape] at several
    have whole : path.bytes = bytesOf directory ++ slash :: Path.unsplit rest := by
      rw [← Path.unsplit_split path.bytes, shape, Path.unsplit_cons _ more]
      rfl
    rw [(deeper _ whole).2] at ending
    exact ⟨_, _, whole, rfl, _, rfl, (stands_anywhere filled solid ⟨_⟩).mpr ending⟩

end Language

/-- What can be an extension in a group: a text without slashes, commas and characters that mean
    something in globs. -/
structure IsExtension (text : String) : Prop where
  filled : text ≠ ""
  plain : ∀ c ∈ text.toList, c ∉ ['/', ',', '*', '?', '[', ']', '{', '}', '\\']

/-- The tokens of a group of extensions. -/
def extensionToken (extensions : List String) : Token :=
  .group (extensions.map fun e => e.toList.map .literal)

section Extensions

variable {extensions : List String}

theorem IsExtension.solid {text : String} (isExtension : IsExtension text) :
    ∀ c ∈ text.toList, isSpecial c = false := by
  intro c member
  have plain := isExtension.plain c member
  simp only [List.mem_cons, List.not_mem_nil, or_false, not_or] at plain
  simp [isSpecial, plain]

theorem readFrom_extensions (filled : extensions ≠ [])
    (proper : ∀ e ∈ extensions, IsExtension e) (tokens : List Token) :
    readFrom (.text (some '/')) ⟨[], tokens⟩
        ('*' :: (Selection.extensionGroup extensions).toList) =
      .ok ⟨[], extensionToken extensions :: .run :: tokens⟩ := by
  have solid : ∀ text ∈ extensions.map String.toList, ∀ c ∈ text, isSpecial c = false := by
    intro text member
    obtain ⟨e, inside, rfl⟩ := List.mem_map.mp member
    exact (proper e inside).solid
  have group : (Selection.extensionGroup extensions).toList =
      '{' :: ([','].intercalate (extensions.map String.toList) ++ ['}']) := by
    simp [Selection.extensionGroup, String.toList_intercalate]
  have opening : readFrom (.text (some '*')) ⟨[], .run :: tokens⟩
      ('{' :: ([','].intercalate (extensions.map String.toList) ++ ['}'])) =
      readFrom (.text (some '{')) ⟨[⟨.run :: tokens, []⟩], []⟩
        ([','].intercalate (extensions.map String.toList) ++ ['}']) := by
    simp [readFrom, Reading.openGroup]
  rw [group, readFrom_star _ _ _ (by simp), Reading.push, opening,
    readFrom_alternatives (by simpa using filled) solid]
  simp [readFrom, Reading.inGroup, extensionToken, Function.comp_def]

/-- The tokens of the glob for the files of some extensions, at any depth. -/
theorem parse_anywhere (filled : extensions ≠ []) (proper : ∀ e ∈ extensions, IsExtension e) :
    parse ("**/*" ++ Selection.extensionGroup extensions) =
      .ok [.leading, .run, extensionToken extensions] := by
  have text : ("**/*" ++ Selection.extensionGroup extensions).toList =
      "**/".toList ++ '*' :: (Selection.extensionGroup extensions).toList := by simp
  refine parse_eq_ok.mpr ⟨⟨[], [extensionToken extensions, .run, .leading]⟩, ?_, rfl⟩
  rw [text, readFrom_floating, readFrom_extensions filled proper]

/-- The tokens of the glob for the files of some extensions below a directory. -/
theorem parse_below (filled : extensions ≠ []) (proper : ∀ e ∈ extensions, IsExtension e)
    (directory : String) (solid : ∀ c ∈ directory.toList, isSpecial c = false) :
    parse (directory ++ "/**/*" ++ Selection.extensionGroup extensions) =
      .ok (directory.toList.map .literal ++ [.middle, .run, extensionToken extensions]) := by
  have text : (directory ++ "/**/*" ++ Selection.extensionGroup extensions).toList =
      directory.toList ++ '/' :: '*' :: '*' :: '/' :: '*' ::
        (Selection.extensionGroup extensions).toList := by simp
  refine parse_eq_ok.mpr ⟨⟨[], extensionToken extensions :: .run :: .middle ::
    (directory.toList.map .literal).reverse⟩, ?_, by simp⟩
  obtain ⟨last, read⟩ := readFrom_solid solid [] [] none
    ('/' :: '*' :: '*' :: '/' :: '*' :: (Selection.extensionGroup extensions).toList)
  have segment (tokens : List Token) (rest : List Char) :
      readFrom (.text last) ⟨[], tokens⟩ ('/' :: '*' :: '*' :: '/' :: rest) =
        readFrom (.text (some '/')) ⟨[], .middle :: tokens⟩ rest := by
    rw [readFrom_literal _ last '/' _ (by decide)]
    simp [readFrom, startsSegment, Reading.push, Reading.merge]
  rw [text, read, List.append_nil, segment, readFrom_extensions filled proper]

theorem texts_solid (proper : ∀ e ∈ extensions, IsExtension e) :
    ∀ text ∈ extensions.map String.toList, text ≠ [] ∧ '/' ∉ text := by
  intro text member
  obtain ⟨e, inside, rfl⟩ := List.mem_map.mp member
  refine ⟨by simpa using (proper e inside).filled, fun slashed => ?_⟩
  exact (proper e inside).plain _ slashed List.mem_cons_self

theorem extensionToken_eq (extensions : List String) :
    extensionToken extensions =
      .group ((extensions.map String.toList).map (·.map .literal)) := by
  rw [extensionToken, List.map_map]
  rfl

theorem accepts_extension_iff (filled : extensions ≠ []) (proper : ∀ e ∈ extensions, IsExtension e)
    (path : Path) :
    Glob.accepts [.leading, .run, extensionToken extensions] path.bytes = true ↔
      ∃ e ∈ extensions, Utf8.encode e <:+ path.lastPart := by
  have several : [Token.leading, .run, extensionToken extensions] ≠ [.leading] := by simp
  rw [accepts_iff, or_iff_right several, extensionToken_eq,
    stands_anywhere (by simpa using filled) (texts_solid proper)]
  simp [Utf8.encode]

theorem accepts_extension_below_iff (filled : extensions ≠ [])
    (proper : ∀ e ∈ extensions, IsExtension e) (directory : String)
    (plain : '/' ∉ directory.toList) (path : Path) :
    Glob.accepts (directory.toList.map .literal ++ [.middle, .run, extensionToken extensions])
        path.bytes = true ↔
      (∃ e ∈ extensions, Utf8.encode e <:+ path.lastPart) ∧
        1 < (Path.split path.bytes).length ∧
        (Path.split path.bytes).head? = some (Utf8.encode directory) := by
  have several : directory.toList.map .literal ++ [.middle, .run, extensionToken extensions] ≠
      [.leading] := by
    intro lone
    have length := congrArg List.length lone
    simp at length
  rw [accepts_iff, or_iff_right several, extensionToken_eq,
    stands_below (by simpa using filled) (texts_solid proper) _ plain]
  simp [Utf8.encode]

end Extensions

/-- A group of extensions after `**/*` makes a glob for the paths whose last segment ends with one
    of the extensions. After `src/**/*` the first segment has to be `src` as well, and not the last
    one. -/
theorem extension_globs_match (extensions : List String) (filled : extensions ≠ [])
    (proper : ∀ e ∈ extensions, IsExtension e) :
    ∃ anywhere below : Glob,
      compile ["**/*" ++ Selection.extensionGroup extensions] = .ok [anywhere] ∧
      compile ["src/**/*" ++ Selection.extensionGroup extensions] = .ok [below] ∧
      ∀ path : Path,
        (anyAccepts [anywhere] path.bytes = true ↔
          ∃ e ∈ extensions, Utf8.encode e <:+ path.lastPart) ∧
        (anyAccepts [below] path.bytes = true ↔
          (∃ e ∈ extensions, Utf8.encode e <:+ path.lastPart) ∧
            1 < (Path.split path.bytes).length ∧
            (Path.split path.bytes).head? = some (Utf8.encode "src")) := by
  have readAnywhere := parse_anywhere filled proper
  have readBelow := parse_below filled proper "src" (by simp [isSpecial])
  refine ⟨_, _, compile_cons.mpr ⟨_, [], readAnywhere, rfl, rfl⟩,
    compile_cons.mpr ⟨_, [], readBelow, rfl, rfl⟩, fun path => ⟨?_, ?_⟩⟩
  · rw [anyAccepts, List.any_cons, List.any_nil, Bool.or_false, accepts_extension_iff filled proper]
  · rw [anyAccepts, List.any_cons, List.any_nil, Bool.or_false,
      accepts_extension_below_iff filled proper "src" (by decide)]

/-- `src/a.d.ts` ends with both extensions, and `src.ts` lies in no directory. -/
theorem extension_globs_match_sample :
    ∃ anywhere below : Glob,
      compile ["**/*" ++ Selection.extensionGroup [".ts", ".d.ts"]] = .ok [anywhere] ∧
      compile ["src/**/*" ++ Selection.extensionGroup [".ts", ".d.ts"]] = .ok [below] ∧
      anyAccepts [anywhere] (Utf8.encode "src/a.d.ts") = true ∧
      anyAccepts [below] (Utf8.encode "src/a.d.ts") = true ∧
      anyAccepts [anywhere] (Utf8.encode "src.ts") = true ∧
      anyAccepts [below] (Utf8.encode "src.ts") = false := by
  obtain ⟨anywhere, below, readAnywhere, readBelow, matched⟩ :=
    extension_globs_match [".ts", ".d.ts"] (by simp) (by
      simp only [List.forall_mem_cons, List.not_mem_nil, false_implies, implies_true, and_true]
      exact ⟨⟨by simp, by simp⟩, ⟨by simp, by simp⟩⟩)
  have nested := matched (Path.ofString "src/a.d.ts")
  have single := matched (Path.ofString "src.ts")
  refine ⟨anywhere, below, readAnywhere, readBelow, nested.1.mpr ?_, nested.2.mpr ?_,
    single.1.mpr ?_, ?_⟩
  · exact ⟨".d.ts", by simp, by decide⟩
  · exact ⟨⟨".d.ts", by simp, by decide⟩, by decide, by decide⟩
  · exact ⟨".ts", by simp, by decide⟩
  · rw [← Bool.not_eq_true]
    intro accepted
    exact absurd (single.2.mp accepted).2.1 (by decide)

end Glob

end FormatLint
