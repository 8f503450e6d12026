import FormatLint.Proofs.Glob.Wild
import FormatLint.Proofs.Selection.Ignored

/-!
Ignore patterns that start with a backslash. The backslash goes, and what follows it is read as a
glob: that is the name itself if it holds no wild character, and never otherwise.
-/

namespace FormatLint.Selection

open Glob (slash globText bytesOf isWild)

theorem ignoreLines_escaped {name : List Char} (whole : '\n' ∉ name)
    (solid : ∀ c, name.getLast? = some c → Text.isBlank c = false) :
    ignoreLines (String.ofList ('\\' :: name)) = [.pattern name] := by
  have single : '\n' ∉ '\\' :: name := by simpa using whole
  have trimmed : Text.trimEnd ('\\' :: name) = '\\' :: name := by
    rw [Text.trimEnd_cons (by decide), Text.trimEnd_solid solid]
  have visible : (Text.trimStart ('\\' :: name)).isEmpty = false := by
    simp [Text.trimStart, Text.isBlank]
  rw [ignoreLines, String.toList_ofList, Text.lines_last single (by simp), List.map_singleton,
    IgnoreLine.ofText]
  simp only [trimmed, visible, Bool.false_eq_true, if_false]

/-- The globs of a single name. -/
theorem lineGlobs_name {name : List Char} (filled : name ≠ []) (plain : '/' ∉ name) :
    lineGlobs name = [globText true false name, globText true true name] := by
  have ends (c : Option Char) (found : ∀ d, c = some d → d ∈ name) : c ≠ some '/' :=
    fun slash => plain (found _ slash)
  have shallow : "**/".toList.isPrefixOf name = false := by
    rw [← Bool.not_eq_true, List.isPrefixOf_iff_prefix]
    intro stars
    exact plain (stars.subset (by simp))
  have globs := lineGlobs_eq false false filled (ends _ fun _ => List.mem_of_head?)
    (ends _ fun _ => List.mem_of_getLast?) shallow
  simpa [plain] using globs

/-- The characters of a name, taken as literals, match it wherever it stands in a path. -/
theorem name_excludes {name : List Char} (filled : name ≠ []) (plain : '/' ∉ name) (path : Bytes) :
    Glob.anyAccepts [Glob.literalGlob true false name, Glob.literalGlob true true name] path = true ↔
      bytesOf name ∈ Path.split path := by
  have each (below : Bool) : (Glob.literalGlob true below name).accepts path = true ↔
      ∃ above rest, Path.split path = above ++ [bytesOf name] ++ rest ∧
        (rest = [] ↔ below = false) := by
    have matched := Glob.accepts_literal_iff (List.cons_ne_nil name [])
      (by simpa using ⟨filled, plain⟩) true below path
    simpa [Text.joinWith] using matched
  simp only [Glob.anyAccepts, List.any_cons, List.any_nil, Bool.or_false, Bool.or_eq_true, each]
  constructor
  · rintro (⟨above, rest, shape, -⟩ | ⟨above, rest, shape, -⟩)
    · rw [shape]
      simp
    · rw [shape]
      simp
  · intro member
    obtain ⟨above, rest, shape⟩ := List.append_of_mem member
    have shape' : Path.split path = above ++ [bytesOf name] ++ rest := by simpa using shape
    by_cases last : rest = []
    · exact .inl ⟨above, rest, shape', by simp [last]⟩
    · exact .inr ⟨above, rest, shape', by simp [last]⟩

/-- Globs of a name that match exactly the paths with this name in them are those of a literal
    name. -/
theorem literal_of_name_excludes {name : List Char} (filled : name ≠ []) (plain : '/' ∉ name)
    {first second : Glob}
    (readFirst : Glob.parse (String.ofList (globText true false name)) = .ok first)
    (readSecond : Glob.parse (String.ofList (globText true true name)) = .ok second)
    (exactly : ∀ path : Bytes, Glob.anyAccepts [first, second] path = true ↔
      bytesOf name ∈ Path.split path) :
    ∀ c ∈ name, isWild c = false := by
  have noSlash := Glob.slash_notMem_bytesOf plain
  have single : bytesOf name ∈ Path.split (bytesOf name) := by
    rw [Path.split_plain _ noSlash]
    exact List.mem_singleton_self _
  -- neither glob matches everything, since neither matches the empty path
  have several (glob : Glob) (member : glob ∈ [first, second]) : glob ≠ [.leading] := by
    intro lone
    have empty := (exactly []).mp (Glob.anyAccepts_iff.mpr ⟨glob, member, by rw [lone]; rfl⟩)
    rw [Path.split, List.mem_singleton] at empty
    exact Glob.bytesOf_ne_nil filled empty
  obtain ⟨glob, member, accepted⟩ := Glob.anyAccepts_iff.mp ((exactly (bytesOf name)).mpr single)
  have itself : Glob.Stands glob (bytesOf name) :=
    ((Glob.accepts_iff _ _).mp accepted).resolve_left (several glob member)
  rcases List.mem_pair.mp member with rfl | rfl
  · by_contra wild
    simp only [not_forall, Bool.not_eq_false] at wild
    obtain ⟨c, inside, isWild⟩ := wild
    obtain ⟨other, stands, plain', differs⟩ :=
      Glob.wild_not_alone plain ⟨c, inside, isWild⟩ readFirst itself
    have found := (exactly other).mp
      (Glob.anyAccepts_iff.mpr ⟨glob, member, (Glob.accepts_iff _ _).mpr (.inr stands)⟩)
    rw [Path.split_plain _ plain', List.mem_singleton] at found
    exact differs found.symm
  · -- the second glob matches only paths with a slash in them
    obtain ⟨front, rfl⟩ := (Glob.parse_all_below readSecond).resolve_left (several glob member)
    obtain ⟨before, _, shape, -, behind⟩ := (Glob.stands_append _ _ _).mp itself
    obtain ⟨after, rfl⟩ := (Glob.stands_singleton _ _).mp behind
    rw [shape] at noSlash
    simp at noSlash

/-- A backslash before a name is dropped, and the globs are those of the name. They can be compiled
    and match exactly the paths with this name among their segments if, and only if, no character of
    the name is wild. -/
theorem escaped_name_literal_iff (policy : NegationPolicy) (sink : Sink) (name : String)
    (filled : name ≠ "") (plain : '/' ∉ name.toList) (whole : '\n' ∉ name.toList)
    (solid : ∀ c, name.toList.getLast? = some c → Text.isBlank c = false) :
    ∃ texts, ignoreGlobs policy sink ("\\" ++ name) = (.ok texts, sink) ∧
      ((∃ globs, Glob.compile texts = .ok globs ∧
          ∀ path : Path, Glob.anyAccepts globs path.bytes = true ↔
            Utf8.encode name ∈ Path.split path.bytes) ↔
        ∀ c ∈ name.toList, isWild c = false) := by
  have named : name.toList ≠ [] := by simpa using filled
  have escaped : "\\" ++ name = String.ofList ('\\' :: name.toList) := by
    apply String.toList_injective
    simp
  have lines : ignoreLines ("\\" ++ name) = [.pattern name.toList] := by
    rw [escaped, ignoreLines_escaped whole solid]
  have globs : patternGlobs (ignoreLines ("\\" ++ name)) =
      [globText true false name.toList, globText true true name.toList] := by
    rw [lines, patternGlobs_pattern, lineGlobs_name named plain]
    rfl
  refine ⟨_, ignoreGlobs_clean policy sink (by rw [lines]; rfl), ?_⟩
  rw [globs]
  constructor
  · rintro ⟨compiled, read, exactly⟩
    obtain ⟨first, _, readFirst, below, rfl⟩ := Glob.compile_cons.mp read
    obtain ⟨second, _, readSecond, none, rfl⟩ := Glob.compile_cons.mp below
    cases none
    exact literal_of_name_excludes named plain readFirst readSecond fun path => exactly ⟨path⟩
  · intro literal
    have read (below : Bool) := Glob.parse_literal literal true below
    refine ⟨[Glob.literalGlob true false name.toList, Glob.literalGlob true true name.toList], ?_,
      fun path => name_excludes named plain path.bytes⟩
    simp [Glob.compile, read]

theorem escaped_name_literal_iff_sample :
    ∃ texts globs, ignoreGlobs .strict {} "\\#notes" = (.ok texts, {}) ∧
      Glob.compile texts = .ok globs ∧
      ∀ path : Path, Glob.anyAccepts globs path.bytes = true ↔
        Utf8.encode "#notes" ∈ Path.split path.bytes := by
  obtain ⟨texts, read, exactly⟩ := escaped_name_literal_iff .strict {} "#notes" (by simp)
    (by simp) (by simp) (by simp [Text.isBlank])
  obtain ⟨globs, compiled, matched⟩ := exactly.mpr (by simp [isWild])
  exact ⟨texts, globs, read, compiled, matched⟩

/-- A star after a backslash is still a star: the path `a` is excluded. -/
theorem escaped_star_is_wild :
    ∃ globs, ignoreGlobs .strict {} "\\*" = (.ok ["**/*", "**/*/**"], {}) ∧
      Glob.compile ["**/*", "**/*/**"] = .ok globs ∧
      Glob.anyAccepts globs (Utf8.encode "a") = true ∧
      Utf8.encode "*" ∉ Path.split (Utf8.encode "a") := by
  refine ⟨[[.leading, .run], [.leading, .run, .trailing]], ?_, ?_, ?_, ?_⟩
  · cbv
  · cbv
  · decide
  · decide

end FormatLint.Selection
