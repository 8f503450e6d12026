import FormatLint.Selection.Search
import FormatLint.Proofs.FileSystem.Listing
import FormatLint.Proofs.Path.Parts
import FormatLint.Proofs.Text.Utf8

/-!
The parts of a search: reading lists of globs, the text that a place is matched by, and the paths
that the places of a listing have.
-/

namespace FormatLint

namespace Glob

theorem compile_cons {text : String} {texts : List String} {globs : List Glob} :
    compile (text :: texts) = .ok globs ↔
      ∃ glob rest, parse text = .ok glob ∧ compile texts = .ok rest ∧ globs = glob :: rest := by
  rw [compile]
  cases read : parse text with
  | error fault => simp
  | ok glob =>
    cases below : compile texts with
    | error e => simp
    | ok rest => simp [eq_comm]

theorem compile_mem {texts : List String} {globs : List Glob} (compiled : compile texts = .ok globs)
    {glob : Glob} (member : glob ∈ globs) : ∃ text ∈ texts, parse text = .ok glob := by
  induction texts generalizing globs with
  | nil =>
    cases compiled
    cases member
  | cons text texts ih =>
    obtain ⟨first, rest, read, below, rfl⟩ := compile_cons.mp compiled
    rcases List.mem_cons.mp member with rfl | member
    · exact ⟨text, List.mem_cons_self, read⟩
    · obtain ⟨other, inside, read⟩ := ih below member
      exact ⟨other, List.mem_cons_of_mem _ inside, read⟩

theorem mem_compile {texts : List String} {globs : List Glob} (compiled : compile texts = .ok globs)
    {text : String} (member : text ∈ texts) : ∃ glob ∈ globs, parse text = .ok glob := by
  induction texts generalizing globs with
  | nil => cases member
  | cons first texts ih =>
    obtain ⟨glob, rest, read, below, rfl⟩ := compile_cons.mp compiled
    rcases List.mem_cons.mp member with rfl | member
    · exact ⟨glob, List.mem_cons_self, read⟩
    · obtain ⟨other, inside, read⟩ := ih below member
      exact ⟨other, List.mem_cons_of_mem _ inside, read⟩

theorem compile_of_parse {texts : List String}
    (readable : ∀ text ∈ texts, ∃ glob, parse text = .ok glob) :
    ∃ globs, compile texts = .ok globs := by
  induction texts with
  | nil => exact ⟨[], rfl⟩
  | cons text texts ih =>
    obtain ⟨glob, read⟩ := readable text List.mem_cons_self
    obtain ⟨globs, below⟩ := ih fun t inside => readable t (List.mem_cons_of_mem _ inside)
    exact ⟨glob :: globs, compile_cons.mpr ⟨glob, globs, read, below, rfl⟩⟩

theorem anyAccepts_iff {globs : List Glob} {subject : Bytes} :
    anyAccepts globs subject = true ↔ ∃ glob ∈ globs, glob.accepts subject = true := by
  simp [anyAccepts]

end Glob

namespace Selection

/-- The globs of a query are read one list after the other. -/
theorem ofQuery_iff {q : Query} {m : Matcher} : Matcher.ofQuery q = .ok m ↔
    Glob.compile q.includes = .ok m.includes ∧ Glob.compile q.excludes = .ok m.excludes ∧
      Glob.compile (q.excludes.filterMap subtreeStem?) = .ok m.subtrees ∧
      m.filesOnly = q.filesOnly := by
  obtain ⟨includes, excludes, subtrees, filesOnly⟩ := m
  rw [Matcher.ofQuery]
  cases Glob.compile q.includes with
  | error e => simp [bind, Except.bind]
  | ok readIn =>
    cases Glob.compile q.excludes with
    | error e => simp [bind, Except.bind]
    | ok readEx =>
      cases Glob.compile (q.excludes.filterMap subtreeStem?) with
      | error e => simp [bind, Except.bind]
      | ok readSub => simp [bind, Except.bind, pure, Except.pure, eq_comm]

theorem relativeText_append {place below : Place} (placed : place ≠ []) (inside : below ≠ []) :
    relativeText (place ++ below) = relativeText place ++ Glob.slash :: relativeText below := by
  unfold relativeText
  rw [List.map_append]
  exact Path.unsplit_append (by simpa using placed) (by simpa using inside)

/-- Places whose names are UTF-8 are matched by their names as they are. -/
theorem relativeText_eq_unsplit {place : Place}
    (utf8 : ∀ name ∈ place, (Utf8.decode? name).isSome = true) :
    relativeText place = Path.unsplit place := by
  have same : place.map (fun name => Utf8.encode (Utf8.decodeLossy name)) = place := by
    rw [List.map_congr_left fun name inside => Utf8.encode_decodeLossy (utf8 name inside),
      List.map_id']
  rw [relativeText, same]

theorem join_name (base : Path) {name : Bytes} (plain : Path.slash ∉ name) :
    (base.join ⟨name⟩).bytes = Path.lead base ++ name := by
  refine base.join_relative ?_
  cases name with
  | nil => rfl
  | cons b rest =>
    have other : b ≠ Path.slash := fun same => plain (same ▸ List.mem_cons_self)
    simpa [Path.isAbsolute] using other

theorem lead_of_name {base : Path} {front name : Bytes} (shape : base.bytes = front ++ name)
    (filled : name ≠ []) (plain : Path.slash ∉ name) : Path.lead base = base.bytes ++ [Path.slash] := by
  have last : base.bytes.getLast? = some (name.getLast filled) := by
    rw [shape, List.getLast?_append, List.getLast?_eq_getLast_of_ne_nil filled]
    rfl
  have other : name.getLast filled ≠ Path.slash := by
    intro same
    exact plain (same ▸ List.getLast_mem filled)
  have some : base.bytes ≠ [] := by simp [shape, filled]
  simp [Path.lead, Path.isEmpty, Path.endsInSlash, last, other, some]

theorem pathBelow_bytes (root : Path) {place : Place} (placed : place ≠ [])
    (proper : ∀ name ∈ place, name ≠ [] ∧ Path.slash ∉ name) :
    (pathBelow root place).bytes = Path.lead root ++ Path.unsplit place := by
  induction place generalizing root with
  | nil => exact absurd rfl placed
  | cons name place ih =>
    obtain ⟨filled, plain⟩ := proper name List.mem_cons_self
    have joined := join_name root plain
    have rest : ∀ other ∈ place, other ≠ [] ∧ Path.slash ∉ other :=
      fun other inside => proper other (List.mem_cons_of_mem _ inside)
    by_cases last : place = []
    · subst last
      exact joined
    · have below := ih (root.join ⟨name⟩) last rest
      rw [lead_of_name joined filled plain, joined] at below
      rw [Path.unsplit_cons name last]
      simpa [pathBelow] using below

/-- Different places below a root have different paths. -/
theorem pathBelow_injective (root : Path) {place other : Place} (placed : place ≠ [])
    (placed' : other ≠ []) (proper : ∀ name ∈ place, name ≠ [] ∧ Path.slash ∉ name)
    (proper' : ∀ name ∈ other, name ≠ [] ∧ Path.slash ∉ name)
    (same : pathBelow root place = pathBelow root other) : place = other := by
  have bytes : Path.lead root ++ Path.unsplit place = Path.lead root ++ Path.unsplit other := by
    rw [← pathBelow_bytes root placed proper, ← pathBelow_bytes root placed' proper', same]
  have texts : Path.unsplit place = Path.unsplit other := List.append_cancel_left bytes
  rw [← Path.split_unsplit placed fun name inside => (proper name inside).2, texts,
    Path.split_unsplit placed' fun name inside => (proper' name inside).2]

end Selection

end FormatLint
