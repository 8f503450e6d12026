import FormatLint.Proofs.FileSystem.Update
import FormatLint.Proofs.Selection.Pruning
import Mathlib

/-!
Exclude globs that match nothing. Such a glob still acts through its stem, which is read on its own:
it leaves a search as it was exactly if the stem can be read and matches no directory on the way to
what was found. The stem of a plain glob never does when only files are looked for.
-/

namespace FormatLint

namespace Node

/-- An item is reached if nothing at or above it is pruned, where only directories can be. -/
theorem reached_iff {pruned : Place → Bool} {item : Listed} (placed : item.place ≠ []) :
    reached pruned (item.place.take 1) item = true ↔
      ∀ front back, item.place = front ++ back → front ≠ [] →
        (back = [] → item.node.isDir = true) → pruned front = false := by
  have way (node : Node) (place below : Place) :
      entered pruned node place below = true ↔ ∀ front back, below = front ++ back →
        (back = [] → node.isDir = true) → pruned (place ++ front) = false := by
    induction below generalizing place with
    | nil =>
      simp only [entered, Bool.not_eq_true', Bool.and_eq_false_iff, List.nil_eq_append_iff]
      constructor
      · intro open' front back split last
        rw [split.1, List.append_nil]
        exact open'.resolve_left (by simp [last split.2])
      · intro open'
        by_cases directory : node.isDir = true
        · exact .inr (by simpa using open' [] [] ⟨rfl, rfl⟩ fun _ => directory)
        · exact .inl (by simpa using directory)
    | cons name below ih =>
      simp only [entered, Bool.and_eq_true, Bool.not_eq_true', ih]
      constructor
      · intro open' front back split last
        rcases List.cons_eq_append_iff.mp split with ⟨rfl, rfl⟩ | ⟨deeper, rfl, rfl⟩
        · simpa using open'.1
        · simpa using open'.2 deeper back rfl last
      · intro open'
        refine ⟨by simpa using open' [] (name :: below) rfl (by simp), ?_⟩
        intro front back split last
        simpa using open' (name :: front) back (by simp [split]) last
  obtain ⟨name, rest, shape⟩ := List.exists_cons_of_ne_nil placed
  rw [reached, shape]
  simp only [List.take_succ_cons, List.take_zero, List.length_singleton, List.drop_succ_cons,
    List.drop_zero, way]
  constructor
  · intro open' front back split started last
    rcases List.cons_eq_append_iff.mp split with ⟨rfl, -⟩ | ⟨deeper, rfl, rfl⟩
    · exact absurd rfl started
    · exact open' deeper back rfl last
  · intro open' front back split last
    exact open' (name :: front) back (by simp [split]) (by simp) last

end Node

namespace Glob

theorem compile_append {texts more : List String} {globs : List Glob}
    (compiled : compile texts = .ok globs) :
    compile (texts ++ more) = (compile more).map (globs ++ ·) := by
  induction texts generalizing globs with
  | nil =>
    cases compiled
    rw [List.nil_append]
    cases compile more <;> rfl
  | cons text texts ih =>
    obtain ⟨glob, rest, read, below, rfl⟩ := compile_cons.mp compiled
    rw [List.cons_append, compile, read, ih below]
    cases compile more <;> rfl

end Glob

namespace Selection

/-- The query with one more exclude glob. -/
def Query.excluding (q : Query) (pattern : String) : Query :=
  { q with excludes := q.excludes ++ [pattern] }

/-- A glob matches a directory at a place or above it. -/
def Crossed (top : Node) (glob : Glob) (place : Place) : Prop :=
  ∃ front back entries, place = front ++ back ∧ front ≠ [] ∧
    top.get? front = some (.dir entries) ∧ glob.accepts (relativeText front) = true

section

variable {q : Query} {m : Matcher} {pattern : String} {glob short : Glob} {top : Node}

/-- What a matcher finds in a tree. -/
def Matcher.found (m : Matcher) (top : Node) : List Listed :=
  (top.contents m.prunes).filter m.selects

/-- One more exclude glob, with what its stem is read as. -/
theorem ofQuery_excluding (matcher : Matcher.ofQuery q = .ok m)
    (read : Glob.parse pattern = .ok glob) :
    Matcher.ofQuery (q.excluding pattern) =
      (Glob.compile (subtreeStem? pattern).toList).map fun more =>
        { m with excludes := m.excludes ++ [glob], subtrees := m.subtrees ++ more } := by
  have single : Glob.compile [pattern] = .ok [glob] := by simp [Glob.compile, read]
  have stems : (q.excludes ++ [pattern]).filterMap subtreeStem? =
      q.excludes.filterMap subtreeStem? ++ (subtreeStem? pattern).toList := by
    rw [List.filterMap_append, List.filterMap_cons]
    cases subtreeStem? pattern <;> rfl
  obtain ⟨readIn, readEx, readSub, filesOnly⟩ := ofQuery_iff.mp matcher
  have whole : Glob.compile (q.excludes ++ [pattern]) = .ok (m.excludes ++ [glob]) := by
    rw [Glob.compile_append readEx, single]
    rfl
  cases compiled : Glob.compile (subtreeStem? pattern).toList with
  | ok more =>
    refine ofQuery_iff.mpr ⟨readIn, whole, ?_, filesOnly⟩
    rw [Query.excluding, stems, Glob.compile_append readSub, compiled]
    rfl
  | error e =>
    simp [Matcher.ofQuery, Query.excluding, stems, readIn, whole, Glob.compile_append readSub,
      compiled, bind, Except.bind, Except.map]

theorem ofQuery_filesOnly (matcher : Matcher.ofQuery q = .ok m) : m.filesOnly = q.filesOnly :=
  (ofQuery_iff.mp matcher).2.2.2

/-- A glob that matches nothing takes away what its stem cuts off, and nothing else. -/
theorem found_excluding (named : top.WellNamed) (more : List Glob)
    (unmatched : ∀ place node, place ≠ [] → top.get? place = some node →
      glob.accepts (relativeText place) = false) :
    Matcher.found { m with excludes := m.excludes ++ [glob], subtrees := m.subtrees ++ more } top =
      (m.found top).filter fun item =>
        Node.reached (fun place => Glob.anyAccepts more (relativeText place))
          (item.place.take 1) item := by
  simp only [Matcher.found]
  rw [Node.contents_eq_filter, Node.contents_eq_filter m.prunes, List.filter_filter,
    List.filter_filter, List.filter_filter]
  apply List.filter_congr
  intro item member
  obtain ⟨placed, held⟩ := (Node.mem_contents named item).mp member
  have selects : Matcher.selects
      { m with excludes := m.excludes ++ [glob], subtrees := m.subtrees ++ more } item =
        m.selects item := by
    simp [Matcher.selects, Glob.anyAccepts, unmatched _ _ placed held]
  have reached : Node.reached (Matcher.prunes
      { m with excludes := m.excludes ++ [glob], subtrees := m.subtrees ++ more })
        (item.place.take 1) item =
      (Node.reached (fun place => Glob.anyAccepts more (relativeText place))
          (item.place.take 1) item &&
        Node.reached m.prunes (item.place.take 1) item) := by
    rw [Bool.eq_iff_iff, Bool.and_eq_true, Node.reached_iff placed, Node.reached_iff placed,
      Node.reached_iff placed]
    simp only [Matcher.prunes, Glob.anyAccepts, List.any_append, Bool.or_eq_false_iff]
    constructor
    · intro both
      exact ⟨fun front back split started last => (both front back split started last).2,
        fun front back split started last => (both front back split started last).1⟩
    · intro both front back split started last
      exact ⟨both.2 front back split started last, both.1 front back split started last⟩
  rw [selects, reached]
  cases m.selects item <;> simp

theorem reached_iff_not_crossed {item : Listed} (placed : item.place ≠ [])
    (held : top.get? item.place = some item.node) :
    Node.reached (fun place => Glob.anyAccepts [short] (relativeText place))
        (item.place.take 1) item = true ↔ ¬ Crossed top short item.place := by
  rw [Node.reached_iff placed]
  simp only [Glob.anyAccepts, List.any_cons, List.any_nil, Bool.or_false]
  constructor
  · intro open' crossed
    obtain ⟨front, back, entries, split, started, directory, accepted⟩ := crossed
    rw [open' front back split started] at accepted
    · cases accepted
    · intro here
      rw [split, here, List.append_nil, directory] at held
      rw [← Option.some.inj held]
      rfl
  · intro clear front back split started last
    by_contra accepted
    refine clear ⟨front, back, ?_⟩
    have directory : ∃ entries, top.get? front = some (.dir entries) := by
      cases back with
      | nil =>
        rw [split, List.append_nil] at held
        cases node : item.node with
        | dir entries => exact ⟨entries, node ▸ held⟩
        | file data => simp [node, Node.isDir] at last
        | link target => simp [node, Node.isDir] at last
      | cons name back =>
        rw [split, Node.get?_append] at held
        obtain ⟨node, there, below⟩ := Option.bind_eq_some_iff.mp held
        obtain ⟨entries, child, rfl, -⟩ := Node.get?_cons_some below
        exact ⟨entries, there⟩
    obtain ⟨entries, there⟩ := directory
    exact ⟨entries, split, started, there, by simpa using accepted⟩

section Search

variable {fs : FileSystem} {root : Path} {here : Place}

theorem search_eq (located : Path.absolute? fs.cwd q.root = some root)
    (seen : fs.stat root = .ok (here, top)) (matcher : Matcher.ofQuery q = .ok m) :
    search fs q = .ok ((m.found top).map fun item => pathBelow root item.place) :=
  searchWith_eq matcher located seen

/-- The answer stays the same if every item that was found is still reached. -/
theorem search_excluding_iff (located : Path.absolute? fs.cwd q.root = some root)
    (seen : fs.stat root = .ok (here, top)) (named : top.WellNamed)
    (matcher : Matcher.ofQuery q = .ok m) (read : Glob.parse pattern = .ok glob)
    {more : List Glob} (compiled : Glob.compile (subtreeStem? pattern).toList = .ok more)
    (unmatched : ∀ place node, place ≠ [] → top.get? place = some node →
      glob.accepts (relativeText place) = false) :
    search fs (q.excluding pattern) = search fs q ↔
      ∀ item ∈ m.found top,
        Node.reached (fun place => Glob.anyAccepts more (relativeText place))
          (item.place.take 1) item = true := by
  have extended := ofQuery_excluding matcher read
  rw [compiled, Except.map] at extended
  have later : search fs (q.excluding pattern) = _ := search_eq located seen extended
  rw [later, search_eq located seen matcher, found_excluding named more unmatched, Except.ok.injEq]
  constructor
  · intro same
    -- what is left has the same length, so that nothing was left out
    have length := congrArg List.length same
    rw [List.length_map, List.length_map] at length
    exact List.length_filter_eq_length_iff.mp length
  · intro kept
    rw [List.filter_eq_self.mpr kept]

theorem found_held (named : top.WellNamed) {item : Listed} (member : item ∈ m.found top) :
    item.place ≠ [] ∧ top.get? item.place = some item.node := by
  have inside := List.mem_of_mem_filter member
  rw [Node.contents_eq_filter] at inside
  exact (Node.mem_contents named item).mp (List.mem_of_mem_filter inside)

end Search

end

/-- A glob that matches no path of the tree, added to the exclude globs of a query, leaves its
    answer as it was exactly if the stem that is cut from it can be read and matches no directory at
    or above anything that the query finds. A plain glob has such a stem if only files are found. -/
theorem unmatched_exclude_changes_nothing_iff (fs : FileSystem) (q : Query) (m : Matcher)
    (root : Path) (here : Place) (top : Node) (pattern : String) (glob : Glob)
    (located : Path.absolute? fs.cwd q.root = some root) (seen : fs.stat root = .ok (here, top))
    (named : top.WellNamed) (matcher : Matcher.ofQuery q = .ok m)
    (read : Glob.parse pattern = .ok glob)
    (unmatched : ∀ place node, place ≠ [] → top.get? place = some node →
      glob.accepts (relativeText place) = false) :
    ∃ places : List Place,
      search fs q = .ok (places.map (pathBelow root)) ∧
      (search fs (q.excluding pattern) = search fs q ↔
        ∀ stem, subtreeStem? pattern = some stem →
          ∃ short, Glob.parse stem = .ok short ∧ ∀ place ∈ places, ¬ Crossed top short place) ∧
      (Plain pattern → q.filesOnly = true →
        search fs (q.excluding pattern) = search fs q) := by
  have answer : search fs q = .ok (((m.found top).map (·.place)).map (pathBelow root)) := by
    rw [search, searchWith_eq matcher located seen, List.map_map]
    rfl
  have exactly : search fs (q.excluding pattern) = search fs q ↔
      ∀ stem, subtreeStem? pattern = some stem → ∃ short, Glob.parse stem = .ok short ∧
        ∀ place ∈ (m.found top).map (·.place), ¬ Crossed top short place := by
    cases cut : subtreeStem? pattern with
    | none =>
      have compiled : Glob.compile (subtreeStem? pattern).toList = .ok [] := by rw [cut]; rfl
      rw [search_excluding_iff located seen named matcher read compiled unmatched]
      constructor
      · intro kept stem given
        cases given
      · intro clear item member
        refine (Node.reached_iff (found_held named member).1).mpr ?_
        intros
        rfl
    | some stem =>
      cases readStem : Glob.parse stem with
      | error fault =>
        have failed : search fs (q.excluding pattern) ≠ search fs q := by
          have extended := ofQuery_excluding matcher read
          simp only [cut, Option.toList_some, Glob.compile, readStem, Except.map] at extended
          rw [answer, search, searchWith, extended]
          simp [bind, Except.bind]
        simpa [readStem] using failed
      | ok short =>
        have compiled : Glob.compile (subtreeStem? pattern).toList = .ok [short] := by
          simp [cut, Glob.compile, readStem]
        rw [search_excluding_iff located seen named matcher read compiled unmatched]
        simp only [Option.some.injEq, forall_eq', readStem, Except.ok.injEq, exists_eq_left',
          List.forall_mem_map]
        refine forall₂_congr fun item member => ?_
        obtain ⟨placed, held⟩ := found_held named member
        exact reached_iff_not_crossed placed held
  refine ⟨(m.found top).map (·.place), answer, exactly, ?_⟩
  intro plain filesOnly
  refine exactly.mpr ?_
  intro stem cut
  obtain ⟨short, readStem, below⟩ := subtreeStem?_accepts plain read cut
  refine ⟨short, readStem, ?_⟩
  intro place member crossed
  obtain ⟨item, inside, rfl⟩ := List.mem_map.mp member
  obtain ⟨front, back, entries, split, started, directory, accepted⟩ := crossed
  obtain ⟨placed, held⟩ := found_held named inside
  have isFile : item.node.isFile = true := by
    have selected := (List.mem_filter.mp inside).2
    simp only [Matcher.selects, ofQuery_filesOnly matcher, filesOnly, Bool.not_true, Bool.or_false,
      Bool.and_eq_true] at selected
    exact selected.1.1
  have deeper : back ≠ [] := by
    intro here
    rw [split, here, List.append_nil, directory] at held
    rw [← Option.some.inj held] at isFile
    cases isFile
  -- below a match of the stem the glob itself would have matched the file
  have excluded := below (relativeText front) (relativeText back) accepted
  rw [← relativeText_append started deeper, ← split, unmatched _ _ placed held] at excluded
  cases excluded

/-- Whether a glob matches nothing can be read off the listing. -/
theorem unmatched_of_contents {top : Node} {glob : Glob} (named : top.WellNamed)
    (none : (top.contents fun _ => false).all (fun item =>
      !glob.accepts (relativeText item.place)) = true) (place : Place) (node : Node)
    (placed : place ≠ []) (held : top.get? place = some node) :
    glob.accepts (relativeText place) = false := by
  have listed := (Node.mem_contents named ⟨place, node⟩).mpr ⟨placed, held⟩
  simpa using List.all_eq_true.mp none _ listed

theorem unmatched_exclude_changes_nothing_sample :
    search ⟨sampleTree, ⟨[0x2F]⟩⟩
        (Query.excluding { root := ⟨[0x2F]⟩, includes := ["**"] } "x/**") =
      search ⟨sampleTree, ⟨[0x2F]⟩⟩ { root := ⟨[0x2F]⟩, includes := ["**"] } := by
  have seen : FileSystem.stat ⟨sampleTree, ⟨[0x2F]⟩⟩ ⟨[0x2F]⟩ = .ok ([], sampleTree) := by cbv
  have matcher : Matcher.ofQuery { root := ⟨[0x2F]⟩, includes := ["**"] } =
      .ok ⟨[[.leading]], [], [], true⟩ := by cbv
  have read : Glob.parse "x/**" = .ok [.literal 'x', .trailing] := by cbv
  obtain ⟨places, -, -, same⟩ := unmatched_exclude_changes_nothing_iff ⟨sampleTree, ⟨[0x2F]⟩⟩
    { root := ⟨[0x2F]⟩, includes := ["**"] } _ ⟨[0x2F]⟩ [] sampleTree "x/**" _ (by decide) seen
    sampleTree_wellNamed matcher read (unmatched_of_contents sampleTree_wellNamed (by cbv))
  exact same ⟨by decide, by decide⟩ rfl

/-- A directory `d` with a file in it. -/
def nestedTree : Node := .dir [([0x64], .dir [([0x61], .file { content := .empty })])]

theorem nestedTree_wellNamed : nestedTree.WellNamed := by
  refine .dir (by decide) ?_
  simp only [List.forall_mem_cons, List.not_mem_nil, false_implies, implies_true, and_true]
  refine ⟨by decide, .dir (by decide) ?_⟩
  simpa using ⟨by decide, .file _⟩

/-- The glob `**//**` matches no path of the tree, but its stem `**/` matches every directory. -/
theorem unmatched_exclude_drops_all :
    (∃ glob, Glob.parse "**//**" = .ok glob ∧
      ∀ place node, place ≠ [] → nestedTree.get? place = some node →
        glob.accepts (relativeText place) = false) ∧
    search ⟨nestedTree, ⟨[0x2F]⟩⟩ { root := ⟨[0x2F]⟩, includes := ["**"] } =
      .ok [⟨[0x2F, 0x64, 0x2F, 0x61]⟩] ∧
    search ⟨nestedTree, ⟨[0x2F]⟩⟩
      (Query.excluding { root := ⟨[0x2F]⟩, includes := ["**"] } "**//**") = .ok [] := by
  refine ⟨⟨[.leading, .trailing], ?_, ?_⟩, ?_, ?_⟩
  · cbv
  · exact unmatched_of_contents nestedTree_wellNamed (by cbv)
  · cbv
  · cbv

end Selection

end FormatLint
