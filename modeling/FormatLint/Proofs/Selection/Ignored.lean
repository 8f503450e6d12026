import FormatLint.Proofs.Glob.Literal
import FormatLint.Proofs.Selection.Negation
import FormatLint.Proofs.Selection.Search
import Mathlib

/-!
What the patterns of an ignore file exclude. Below an excluded path everything is excluded, whatever
the patterns are (`ignored_below`). Patterns of literal names exclude the paths in which their names
stand in a row, and a file of such patterns those that one of them excludes
(`literal_file_excludes`).
-/

namespace FormatLint

namespace Glob

theorem anyAccepts_compile {texts : List String} {globs : List Glob}
    (compiled : compile texts = .ok globs) (subject : Bytes) :
    anyAccepts globs subject = true ↔
      ∃ text ∈ texts, ∃ glob, parse text = .ok glob ∧ glob.accepts subject = true := by
  rw [anyAccepts_iff]
  constructor
  · rintro ⟨glob, member, accepted⟩
    obtain ⟨text, listed, read⟩ := compile_mem compiled member
    exact ⟨text, listed, glob, read, accepted⟩
  · rintro ⟨text, listed, glob, read, accepted⟩
    obtain ⟨glob', member, read'⟩ := mem_compile compiled listed
    rw [read] at read'
    cases read'
    exact ⟨glob, member, accepted⟩

end Glob

namespace Selection

open Glob (slash globText)

theorem mem_patternGlobs {lines : List IgnoreLine} {glob : List Char} :
    glob ∈ patternGlobs lines ↔ ∃ line, .pattern line ∈ lines ∧ glob ∈ lineGlobs line := by
  simp only [patternGlobs, List.mem_flatMap, List.mem_filterMap]
  constructor
  · rintro ⟨line, ⟨stands, listed, same⟩, member⟩
    cases stands with
    | pattern other =>
      cases same
      exact ⟨_, listed, member⟩
    | nothing => cases same
    | negated other => cases same
  · rintro ⟨line, listed, member⟩
    exact ⟨line, ⟨_, listed, rfl⟩, member⟩

/-- The globs of a line are those of one base: what is below it, and for most lines the base
    itself, which ends in a slash only if the line is empty. -/
theorem lineGlobs_base (line : List Char) :
    ∃ base, lineGlobs line = [base ++ "/**".toList] ∨
      lineGlobs line = [base, base ++ "/**".toList] ∧
        (base = "**/".toList ∨ base.getLast? ≠ some '/') := by
  unfold lineGlobs
  simp only
  cases directory : line.getLast? == some '/' with
  | true => exact ⟨_, .inl (if_pos rfl)⟩
  | false =>
    refine ⟨_, .inr ⟨if_neg (by simp), ?_⟩⟩
    have noSlash : line.getLast? ≠ some '/' := by simpa using directory
    simp only [Bool.false_eq_true, if_false]
    by_cases empty : line = []
    · subst empty
      exact .inl rfl
    · have filled : line.dropWhile (· == '/') ≠ [] := by
        intro none
        have all := List.dropWhile_eq_nil_iff.mp none _ (List.getLast_mem empty)
        exact noSlash (by rw [List.getLast?_eq_some_getLast empty, eq_of_beq all])
      have last : (line.dropWhile (· == '/')).getLast? ≠ some '/' := by
        obtain ⟨slashes, shape⟩ := List.dropWhile_suffix (l := line) (· == '/')
        rw [← shape, List.getLast?_append_of_ne_nil _ filled] at noSlash
        exact noSlash
      refine .inr ?_
      split
      · exact last
      · rw [List.getLast?_append_of_ne_nil _ filled]
        exact last

/-- What lies below an excluded path is excluded, whatever the text of the ignore file is, as long
    as it can be read and its globs can be compiled. -/
theorem ignored_below (policy : NegationPolicy) (sink after : Sink) (text : String)
    (texts : List String) (globs : List Glob)
    (read : ignoreGlobs policy sink text = (.ok texts, after))
    (compiled : Glob.compile texts = .ok globs) (path below : Bytes)
    (excluded : Glob.anyAccepts globs path = true) :
    Glob.anyAccepts globs (path ++ slash :: below) = true := by
  rw [Glob.anyAccepts_compile compiled] at excluded ⊢
  obtain rfl := ignoreGlobs_ok read
  obtain ⟨_, listed, glob, parsed, accepted⟩ := excluded
  obtain ⟨chars, member, rfl⟩ := List.mem_map.mp listed
  obtain ⟨line, stands, given⟩ := mem_patternGlobs.mp member
  -- another glob of the same line takes over if the one at hand does not reach below
  have listed' {other : List Char} (beside : other ∈ lineGlobs line) :
      String.ofList other ∈ (patternGlobs (ignoreLines text)).map String.ofList :=
    List.mem_map_of_mem (mem_patternGlobs.mpr ⟨line, stands, beside⟩)
  obtain ⟨base, shape | ⟨shape, ending⟩⟩ := lineGlobs_base line
  · rw [shape, List.mem_singleton] at given
    subst given
    exact ⟨_, listed, glob, parsed, Glob.accepts_deeper parsed accepted below⟩
  · rw [shape, List.mem_pair] at given
    rcases given with rfl | rfl
    · rcases ending with rfl | noSlash
      · have lone : glob = [.leading] := by
          have whole : Glob.parse (String.ofList "**/".toList) = .ok [.leading] := by cbv
          rw [whole] at parsed
          exact (Except.ok.inj parsed).symm
        exact ⟨_, listed, glob, parsed, by rw [lone]; rfl⟩
      · obtain ⟨deeper, parsed', reaches⟩ := Glob.accepts_below .all noSlash parsed
        exact ⟨_, listed' (by simp [shape]), deeper, parsed', reaches path below accepted⟩
    · exact ⟨_, listed, glob, parsed, Glob.accepts_deeper parsed accepted below⟩

theorem ignored_below_sample :
    ∃ globs, ignoreGlobs .strict {} "a[bc]*\n" = (.ok ["**/a[bc]*", "**/a[bc]*/**"], {}) ∧
      Glob.compile ["**/a[bc]*", "**/a[bc]*/**"] = .ok globs ∧
      Glob.anyAccepts globs (Utf8.encode "d/acc") = true ∧
      Glob.anyAccepts globs (Utf8.encode "d/acc" ++ slash :: Utf8.encode "e") = true := by
  have read : ignoreGlobs .strict {} "a[bc]*\n" = (.ok ["**/a[bc]*", "**/a[bc]*/**"], {}) := by cbv
  have compiled : Glob.compile ["**/a[bc]*", "**/a[bc]*/**"] =
      .ok [[.leading, .literal 'a', .oneOf false [('b', 'b'), ('c', 'c')], .run],
        [.leading, .literal 'a', .oneOf false [('b', 'b'), ('c', 'c')], .run, .trailing]] := by cbv
  have excluded : Glob.anyAccepts
      [[.leading, .literal 'a', .oneOf false [('b', 'b'), ('c', 'c')], .run],
        [.leading, .literal 'a', .oneOf false [('b', 'b'), ('c', 'c')], .run, .trailing]]
      (Utf8.encode "d/acc") = true := by cbv
  exact ⟨_, read, compiled, excluded,
    ignored_below .strict {} {} "a[bc]*\n" _ _ read compiled _ _ excluded⟩

/-- The globs of a line whose slashes at its two ends are known. -/
theorem lineGlobs_eq (rooted directoryOnly : Bool) {body : List Char} (filled : body ≠ [])
    (first : body.head? ≠ some '/') (last : body.getLast? ≠ some '/')
    (shallow : "**/".toList.isPrefixOf body = false) :
    lineGlobs ((if rooted then ['/'] else []) ++ body ++ (if directoryOnly then ['/'] else [])) =
      (if directoryOnly then [] else [globText (!(rooted || body.contains '/')) false body]) ++
        [globText (!(rooted || body.contains '/')) true body] := by
  have ends : (((if rooted then ['/'] else []) ++ body ++
      (if directoryOnly then ['/'] else [])).getLast? == some '/') = directoryOnly := by
    cases directoryOnly with
    | true => simp
    | false => simp [List.getLast?_append_of_ne_nil _ filled, last]
  have pattern : (if directoryOnly then ((if rooted then ['/'] else []) ++ body ++
        (if directoryOnly then ['/'] else [])).dropLast
      else (if rooted then ['/'] else []) ++ body ++ (if directoryOnly then ['/'] else [])) =
      (if rooted then ['/'] else []) ++ body := by
    cases directoryOnly <;> simp
  have stripped : ((if rooted then ['/'] else []) ++ body).dropWhile (· == '/') = body := by
    obtain ⟨c, rest, rfl⟩ := List.exists_cons_of_ne_nil filled
    have other : c ≠ '/' := by simpa using first
    cases rooted <;> simp [other]
  have divided : ((if rooted then ['/'] else []) ++ body).contains '/' =
      (rooted || body.contains '/') := by cases rooted <;> simp
  unfold lineGlobs
  simp only [ends, pattern, stripped, divided, shallow, Bool.or_false]
  cases rooted || body.contains '/' <;> cases directoryOnly <;> simp [globText]

/-- The characters with a meaning of their own in patterns. -/
def isMetacharacter (c : Char) : Bool := ['*', '?', '[', ']', '{', '}', '\\'].contains c

/-- A name in which every character stands for itself. -/
structure LiteralName where
  chars : List Char
  filled : chars ≠ []
  plain : ∀ c ∈ chars, c ≠ '/' ∧ c ≠ '\n' ∧ isMetacharacter c = false

/-- A pattern of literal names with slashes between them. -/
structure LiteralPattern where
  /-- A slash before the first name. -/
  rooted : Bool
  segments : List LiteralName
  /-- A slash after the last name. -/
  directoryOnly : Bool
  filled : segments ≠ []

namespace LiteralPattern

def body (p : LiteralPattern) : List Char := Text.joinWith ['/'] (p.segments.map (·.chars))

def text (p : LiteralPattern) : List Char :=
  (if p.rooted then ['/'] else []) ++ p.body ++ (if p.directoryOnly then ['/'] else [])

/-- The names as they occur in paths. -/
def names (p : LiteralPattern) : List Bytes :=
  p.segments.map fun name => Utf8.encode (String.ofList name.chars)

def Anchored (p : LiteralPattern) : Prop := p.rooted = true ∨ 1 < p.segments.length

/-- A pattern excludes the paths in which its names stand in a row: at the front if it is anchored,
    and before the last segment if it is for directories only. -/
def Excludes (p : LiteralPattern) (path : List Bytes) : Prop :=
  ∃ above below, path = above ++ p.names ++ below ∧ (p.Anchored → above = []) ∧
    (p.directoryOnly = true → below ≠ [])

theorem body_plain (p : LiteralPattern) {c : Char} (member : c ∈ p.body) :
    c ≠ '\n' ∧ isMetacharacter c = false := by
  rcases Text.mem_joinWith member with between | ⟨part, inside, found⟩
  · rw [List.mem_singleton] at between
    subst between
    exact ⟨by decide, by decide⟩
  · obtain ⟨name, -, rfl⟩ := List.mem_map.mp inside
    exact (name.plain c found).2

theorem chars_filled (p : LiteralPattern) : ∀ part ∈ p.segments.map (·.chars), part ≠ [] := by
  intro part inside
  obtain ⟨name, -, rfl⟩ := List.mem_map.mp inside
  exact name.filled

/-- The names that a body starts and ends with hold no slash. -/
theorem body_ends (p : LiteralPattern) :
    p.body ≠ [] ∧ p.body.head? ≠ some '/' ∧ p.body.getLast? ≠ some '/' := by
  obtain ⟨⟨_, first, starts⟩, _, last, ends⟩ :=
    Text.joinWith_ends ['/'] (by simpa using p.filled) p.chars_filled
  obtain ⟨front, -, rfl⟩ := List.mem_map.mp first
  obtain ⟨back, -, rfl⟩ := List.mem_map.mp last
  refine ⟨?_, ?_, ?_⟩
  · intro empty
    rw [body] at empty
    rw [empty, List.head?_nil] at starts
    exact front.filled (List.head?_eq_none_iff.mp starts.symm)
  · intro slash
    rw [body, starts] at slash
    exact (front.plain _ (List.mem_of_head? slash)).1 rfl
  · intro slash
    rw [body, ends] at slash
    exact (back.plain _ (List.mem_of_getLast? slash)).1 rfl

theorem body_contains_slash (p : LiteralPattern) :
    p.body.contains '/' = true ↔ 1 < p.segments.length := by
  rw [List.contains_iff_mem, body]
  obtain ⟨name, names, shape⟩ := List.exists_cons_of_ne_nil p.filled
  rw [shape]
  cases names with
  | nil =>
    simp only [List.map_cons, List.map_nil, Text.joinWith, List.length_singleton, Nat.lt_irrefl,
      iff_false]
    exact fun inside => (name.plain _ inside).1 rfl
  | cons next names => simp [Text.joinWith]

/-- Whether the globs of the pattern match at any depth. -/
def floating (p : LiteralPattern) : Bool := !(p.rooted || p.body.contains '/')

theorem floating_eq_false (p : LiteralPattern) : p.floating = false ↔ p.Anchored := by
  rw [floating, Bool.not_eq_false', Bool.or_eq_true, p.body_contains_slash]
  rfl

theorem mem_lineGlobs (p : LiteralPattern) {text : List Char} :
    text ∈ lineGlobs p.text ↔
      ∃ below, text = globText p.floating below p.body ∧ (p.directoryOnly = true → below = true) := by
  obtain ⟨filled, first, last⟩ := p.body_ends
  have shallow : "**/".toList.isPrefixOf p.body = false := by
    rw [← Bool.not_eq_true, List.isPrefixOf_iff_prefix]
    intro stars
    have member : '*' ∈ p.body := stars.subset (by simp)
    have plain := (p.body_plain member).2
    simp [isMetacharacter] at plain
  rw [LiteralPattern.text, lineGlobs_eq p.rooted p.directoryOnly filled first last shallow]
  cases p.directoryOnly <;> simp [floating]

theorem parse_text (p : LiteralPattern) (floating below : Bool) :
    Glob.parse (String.ofList (globText floating below p.body)) =
      .ok (Glob.literalGlob floating below p.body) := by
  refine Glob.parse_literal (fun c member => ?_) floating below
  have plain := (p.body_plain member).2
  simp only [isMetacharacter, Glob.isWild, List.contains_eq_mem, List.mem_cons, List.not_mem_nil,
    or_false, decide_eq_false_iff_not, not_or] at plain ⊢
  simp [plain]

theorem accepts_iff (p : LiteralPattern) (floating below : Bool) (path : Bytes) :
    (Glob.literalGlob floating below p.body).accepts path = true ↔
      ∃ above rest, Path.split path = above ++ p.names ++ rest ∧ (floating = false → above = []) ∧
        (rest = [] ↔ below = false) := by
  have named : p.names = (p.segments.map (·.chars)).map Glob.bytesOf := by
    simp [names, Utf8.encode]
  rw [body, named]
  refine Glob.accepts_literal_iff (by simpa using p.filled) ?_ floating below path
  intro part inside
  refine ⟨p.chars_filled part inside, ?_⟩
  obtain ⟨name, -, rfl⟩ := List.mem_map.mp inside
  exact fun slash => (name.plain _ slash).1 rfl

/-- The globs of a literal pattern match the paths that the pattern excludes. -/
theorem excludes_iff (p : LiteralPattern) (path : Bytes) :
    (∃ text ∈ lineGlobs p.text, ∃ glob, Glob.parse (String.ofList text) = .ok glob ∧
        glob.accepts path = true) ↔ p.Excludes (Path.split path) := by
  constructor
  · rintro ⟨_, given, glob, read, accepted⟩
    obtain ⟨below, rfl, deeper⟩ := p.mem_lineGlobs.mp given
    rw [p.parse_text] at read
    cases read
    obtain ⟨above, rest, shape, anchored, ends⟩ := (p.accepts_iff _ below path).mp accepted
    refine ⟨above, rest, shape, fun fixed => anchored (p.floating_eq_false.mpr fixed), ?_⟩
    intro directory last
    rw [deeper directory] at ends
    cases ends.mp last
  · rintro ⟨above, rest, shape, anchored, deeper⟩
    refine ⟨globText p.floating (!rest.isEmpty) p.body, p.mem_lineGlobs.mpr ⟨_, rfl, ?_⟩, _,
      p.parse_text _ _, (p.accepts_iff _ _ path).mpr ⟨above, rest, shape, ?_, by simp⟩⟩
    · intro directory
      simpa using deeper directory
    · exact fun fixed => anchored (p.floating_eq_false.mp fixed)

end LiteralPattern

/-- A line of an ignore file whose patterns are literal. -/
inductive LiteralLine where
  | comment (rest : List Char) (whole : '\n' ∉ rest)
  | blank (line : List Char) (blanks : ∀ c ∈ line, Text.isBlank c = true) (whole : '\n' ∉ line)
  | pattern (p : LiteralPattern)
      (solid : ∀ c, p.text.getLast? = some c → Text.isBlank c = false)
      (unmarked : p.text.head? ≠ some '#' ∧ p.text.head? ≠ some '!')

def LiteralLine.text : LiteralLine → List Char
  | .comment rest _ => '#' :: rest
  | .blank line _ _ => line
  | .pattern p _ _ => p.text

def LiteralLine.pattern? : LiteralLine → Option LiteralPattern
  | .pattern p _ _ => some p
  | _ => none

theorem LiteralPattern.text_filled (p : LiteralPattern) : p.text ≠ [] := by
  simp [LiteralPattern.text, p.body_ends.1]

namespace LiteralLine

theorem whole (line : LiteralLine) : '\n' ∉ line.text := by
  cases line with
  | comment rest whole => simpa [text] using whole
  | blank line blanks whole => exact whole
  | pattern p solid unmarked =>
    have body : '\n' ∉ p.body := fun inside => (p.body_plain inside).1 rfl
    cases rooted : p.rooted <;> cases directory : p.directoryOnly <;>
      simp [text, LiteralPattern.text, rooted, directory, body]

/-- A pattern line is taken as it is, any other line stands for nothing. -/
theorem ofText_eq (line : LiteralLine) :
    IgnoreLine.ofText line.text =
      match line.pattern? with
      | some p => .pattern p.text
      | none => .nothing := by
  cases line with
  | comment rest whole =>
    unfold IgnoreLine.ofText
    simp only [text, Text.trimEnd_cons (show Text.isBlank '#' = false by decide)]
    simp [pattern?]
  | blank line blanks whole =>
    unfold IgnoreLine.ofText
    simp [text, pattern?, Text.trimEnd_eq_nil.mpr blanks, Text.trimStart]
  | pattern p solid unmarked =>
    have visible : (Text.trimStart p.text).isEmpty = false := by
      rw [List.isEmpty_eq_false_iff]
      intro blanks
      have all := List.dropWhile_eq_nil_iff.mp blanks _ (List.getLast_mem p.text_filled)
      rw [solid _ (List.getLast?_eq_some_getLast p.text_filled)] at all
      cases all
    have unescaped : p.text.head? ≠ some '\\' := by
      cases rooted : p.rooted with
      | true => simp [LiteralPattern.text, rooted]
      | false =>
        intro escape
        rw [LiteralPattern.text, rooted, if_neg (by simp), List.nil_append,
          List.head?_append_of_ne_nil _ p.body_ends.1] at escape
        have plain := (p.body_plain (List.mem_of_head? escape)).2
        simp [isMetacharacter] at plain
    unfold IgnoreLine.ofText
    simp only [text, pattern?, Text.trimEnd_solid solid, visible, Bool.false_eq_true, if_false]
    split
    · simp_all
    · simp_all
    · simp_all
    · rfl

theorem stands_iff (line : LiteralLine) (item : IgnoreLine) :
    item = IgnoreLine.ofText line.text ∧ item ≠ .nothing ↔
      ∃ p, line.pattern? = some p ∧ item = .pattern p.text := by
  rw [ofText_eq]
  cases line.pattern? with
  | none => simp
  | some p =>
    constructor
    · rintro ⟨rfl, -⟩
      exact ⟨p, rfl, rfl⟩
    · rintro ⟨_, same, rfl⟩
      cases same
      exact ⟨rfl, by simp⟩

end LiteralLine

inductive LineEnd where
  | feed
  | returnFeed

def LineEnd.text : LineEnd → List Char
  | .feed => ['\n']
  | .returnFeed => ['\r', '\n']

/-- Lines with their ends, and perhaps a last line without one. -/
structure LiteralFile where
  ended : List (LiteralLine × LineEnd)
  last : Option LiteralLine

namespace LiteralFile

def text (file : LiteralFile) : List Char :=
  file.ended.flatMap (fun (line, ending) => line.text ++ ending.text) ++
    file.last.elim [] LiteralLine.text

def patterns (file : LiteralFile) : List LiteralPattern :=
  (file.ended.map (·.1) ++ file.last.toList).filterMap LiteralLine.pattern?

theorem lines_ended (line : LiteralLine) (ending : LineEnd) (rest : List Char) :
    (Text.lines (line.text ++ ending.text ++ rest)).map IgnoreLine.ofText =
      IgnoreLine.ofText line.text :: (Text.lines rest).map IgnoreLine.ofText := by
  cases ending with
  | feed =>
    have divided := Text.lines_feed line.whole rest
    have same := IgnoreLine.ofText_congr (Text.trimEnd_dropReturn line.text)
    simp [LineEnd.text, divided, same]
  | returnFeed =>
    have whole : '\n' ∉ line.text ++ ['\r'] := by simp [line.whole]
    have divided := Text.lines_feed whole rest
    have same := IgnoreLine.ofText_congr ((Text.trimEnd_dropReturn (line.text ++ ['\r'])).trans
      (Text.trimEnd_append_blank line.text (by decide)))
    rw [List.append_assoc, List.singleton_append] at divided
    simp [LineEnd.text, divided, same]

theorem mem_lines_last (line : LiteralLine) (item : IgnoreLine) :
    item ∈ (Text.lines line.text).map IgnoreLine.ofText ∧ item ≠ .nothing ↔
      item = IgnoreLine.ofText line.text ∧ item ≠ .nothing := by
  by_cases empty : line.text = []
  · have nothing : IgnoreLine.ofText [] = .nothing := by decide
    rw [empty, nothing]
    simp
  · rw [Text.lines_last line.whole empty]
    simp

/-- What a file stands for are its patterns. -/
theorem mem_ignoreLines (file : LiteralFile) (item : IgnoreLine) :
    item ∈ ignoreLines (String.ofList file.text) ∧ item ≠ .nothing ↔
      ∃ p ∈ file.patterns, item = .pattern p.text := by
  rcases file with ⟨ended, last⟩
  rw [ignoreLines, String.toList_ofList]
  induction ended with
  | nil =>
    cases last with
    | none => simp [text, patterns]
    | some line =>
      have same := (mem_lines_last line item).trans (line.stands_iff item)
      simpa [text, patterns, List.mem_filterMap] using same
  | cons first ended ih =>
    obtain ⟨line, ending⟩ := first
    have here := line.stands_iff item
    have divided : text ⟨(line, ending) :: ended, last⟩ =
        line.text ++ ending.text ++ text ⟨ended, last⟩ := by simp [text]
    have patterned : patterns ⟨(line, ending) :: ended, last⟩ =
        line.pattern?.toList ++ patterns ⟨ended, last⟩ := by
      cases found : line.pattern? <;> simp [patterns, found]
    rw [divided, lines_ended, List.mem_cons, or_and_right, here, ih, patterned]
    simp only [List.mem_append, Option.mem_toList, or_and_right, exists_or]

end LiteralFile

/-- A file of literal patterns, comments and blank lines is read under either policy without a
    warning, and its globs match exactly the paths that one of its patterns excludes. -/
theorem literal_file_excludes (file : LiteralFile) (policy : NegationPolicy) (sink : Sink) :
    ∃ texts globs, ignoreGlobs policy sink (String.ofList file.text) = (.ok texts, sink) ∧
      Glob.compile texts = .ok globs ∧
      ∀ path : Path, Glob.anyAccepts globs path.bytes = true ↔
        ∃ p ∈ file.patterns, p.Excludes (Path.split path.bytes) := by
  have stands := file.mem_ignoreLines
  have clean : negatedLines (ignoreLines (String.ofList file.text)) = [] := by
    refine List.filterMap_eq_nil_iff.mpr ?_
    intro item member
    cases item with
    | nothing => rfl
    | pattern line => rfl
    | negated line =>
      obtain ⟨p, -, same⟩ := (stands (.negated line)).mp ⟨member, by simp⟩
      cases same
  have listed (text : List Char) : text ∈ patternGlobs (ignoreLines (String.ofList file.text)) ↔
      ∃ p ∈ file.patterns, text ∈ lineGlobs p.text := by
    rw [mem_patternGlobs]
    constructor
    · rintro ⟨line, member, given⟩
      obtain ⟨p, inside, same⟩ := (stands (.pattern line)).mp ⟨member, by simp⟩
      cases same
      exact ⟨p, inside, given⟩
    · rintro ⟨p, inside, given⟩
      exact ⟨p.text, ((stands _).mpr ⟨p, inside, rfl⟩).1, given⟩
  obtain ⟨globs, compiled⟩ : ∃ globs, Glob.compile
      ((patternGlobs (ignoreLines (String.ofList file.text))).map String.ofList) = .ok globs := by
    refine Glob.compile_of_parse ?_
    intro _ member
    obtain ⟨text, given, rfl⟩ := List.mem_map.mp member
    obtain ⟨p, -, mine⟩ := (listed text).mp given
    obtain ⟨below, rfl, -⟩ := p.mem_lineGlobs.mp mine
    exact ⟨_, p.parse_text _ _⟩
  refine ⟨_, globs, ignoreGlobs_clean policy sink clean, compiled, ?_⟩
  intro path
  rw [Glob.anyAccepts_compile compiled]
  simp only [← LiteralPattern.excludes_iff, List.mem_map, listed]
  constructor
  · rintro ⟨_, ⟨text, ⟨p, inside, mine⟩, rfl⟩, matched⟩
    exact ⟨p, inside, text, mine, matched⟩
  · rintro ⟨p, inside, text, mine, matched⟩
    exact ⟨_, ⟨text, ⟨p, inside, mine⟩, rfl⟩, matched⟩

example :
    LiteralFile.text ⟨[(.comment ['q'] (by simp), .returnFeed)],
      some (.pattern ⟨true, [⟨['q'], by simp, by simp [isMetacharacter]⟩,
        ⟨['a'], by simp, by simp [isMetacharacter]⟩], true, by simp⟩
        (by intro c last; cases last; decide) (by simp [LiteralPattern.text]))⟩ =
      "#q\r\n/q/a/".toList := by decide

end Selection

end FormatLint
