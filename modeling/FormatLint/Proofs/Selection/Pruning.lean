import FormatLint.Proofs.Glob.Subtree
import FormatLint.Proofs.Selection.Search

/-!
Directories that a search does not enter. A glob `<stem>/**` or `<stem>/**/*` excludes everything
below what its stem matches, so leaving such directories out changes nothing: the search finds the
files that an include glob and no exclude glob matches, all of them and in order.
-/

namespace FormatLint.Selection

theorem dropEnd?_eq_some {ending text stem : List Char} (cut : dropEnd? ending text = some stem) :
    text = stem ++ ending := by
  unfold dropEnd? at cut
  split at cut
  · rename_i isEnd
    cases cut
    obtain ⟨front, shape⟩ := List.isSuffixOf_iff_suffix.mp isEnd
    rw [← shape]
    simp
  · cases cut

theorem subtreeStem?_eq_some {glob stem : String} (cut : subtreeStem? glob = some stem) :
    ∃ more, Glob.Ending more ∧ glob.toList = stem.toList ++ '/' :: more := by
  unfold subtreeStem? at cut
  simp only at cut
  split at cut
  · cases cut
  · rename_i shape
    cases long : dropEnd? "/**/*".toList glob.toList with
    | some front =>
      simp only [long, Option.some_or, Option.map_some, Option.some.injEq] at cut
      refine ⟨['*', '*', '/', '*'], .named, ?_⟩
      rw [← cut, String.toList_ofList]
      exact dropEnd?_eq_some long
    | none =>
      rw [long, Option.none_or] at cut
      obtain ⟨front, short, same⟩ := Option.map_eq_some_iff.mp cut
      refine ⟨['*', '*'], .all, ?_⟩
      rw [← same, String.toList_ofList]
      exact dropEnd?_eq_some short

/-- An exclude pattern without doubled slashes and without escapes. -/
def Plain (pattern : String) : Prop :=
  ¬ ['/', '/'] <:+: pattern.toList ∧ '\\' ∉ pattern.toList

/-- The stem of a plain pattern can be read, and what lies below a match of it is a match of the
    pattern. -/
theorem subtreeStem?_accepts {pattern stem : String} {glob : Glob} (plain : Plain pattern)
    (read : Glob.parse pattern = .ok glob) (cut : subtreeStem? pattern = some stem) :
    ∃ short, Glob.parse stem = .ok short ∧ ∀ place below, short.accepts place = true →
      glob.accepts (place ++ Glob.slash :: below) = true := by
  obtain ⟨more, ending, shape⟩ := subtreeStem?_eq_some cut
  have whole : pattern = String.ofList (stem.toList ++ '/' :: more) := by
    rw [← shape, String.ofList_toList]
  have noEscape : '\\' ∉ stem.toList := by
    intro inside
    exact plain.2 (shape ▸ List.mem_append_left _ inside)
  have noSlash : stem.toList.getLast? ≠ some '/' := by
    intro last
    obtain ⟨front, isLast⟩ := List.getLast?_eq_some_iff.mp last
    apply plain.1
    exact ⟨front, more, by rw [shape, isLast]; simp⟩
  rw [whole] at read
  obtain ⟨short, readStem⟩ := Glob.parse_stem ending noEscape read
  obtain ⟨glob', readWhole, accepts⟩ := Glob.accepts_below ending noSlash readStem
  rw [read] at readWhole
  cases readWhole
  exact ⟨short, by simpa using readStem, accepts⟩

section

variable {q : Query} {includes excludes : List Glob}

/-- The globs of a query whose patterns can be read; the stems need no condition of their own. -/
theorem ofQuery_eq (compiledIn : Glob.compile q.includes = .ok includes)
    (compiledEx : Glob.compile q.excludes = .ok excludes) (plain : ∀ p ∈ q.excludes, Plain p) :
    ∃ subtrees, Glob.compile (q.excludes.filterMap subtreeStem?) = .ok subtrees ∧
      Matcher.ofQuery q = .ok ⟨includes, excludes, subtrees, q.filesOnly⟩ := by
  have readable : ∀ stem ∈ q.excludes.filterMap subtreeStem?, ∃ glob, Glob.parse stem = .ok glob := by
    intro stem member
    obtain ⟨pattern, inside, cut⟩ := List.mem_filterMap.mp member
    obtain ⟨glob, -, read⟩ := Glob.mem_compile compiledEx inside
    obtain ⟨short, readStem, -⟩ := subtreeStem?_accepts (plain pattern inside) read cut
    exact ⟨short, readStem⟩
  obtain ⟨subtrees, compiledSub⟩ := Glob.compile_of_parse readable
  exact ⟨subtrees, compiledSub, ofQuery_iff.mpr ⟨compiledIn, compiledEx, compiledSub, rfl⟩⟩

/-- Everything below a pruned directory is excluded. -/
theorem excluded_below {subtrees : List Glob} (compiledEx : Glob.compile q.excludes = .ok excludes)
    (compiledSub : Glob.compile (q.excludes.filterMap subtreeStem?) = .ok subtrees)
    (plain : ∀ p ∈ q.excludes, Plain p) {place below : Place} (placed : place ≠ [])
    (inside : below ≠ []) (pruned : Glob.anyAccepts subtrees (relativeText place) = true) :
    Glob.anyAccepts excludes (relativeText (place ++ below)) = true := by
  obtain ⟨short, member, accepted⟩ := Glob.anyAccepts_iff.mp pruned
  obtain ⟨stem, listed, readStem⟩ := Glob.compile_mem compiledSub member
  obtain ⟨pattern, given, cut⟩ := List.mem_filterMap.mp listed
  obtain ⟨glob, compiled, read⟩ := Glob.mem_compile compiledEx given
  obtain ⟨short', readStem', accepts⟩ := subtreeStem?_accepts (plain pattern given) read cut
  rw [readStem] at readStem'
  cases readStem'
  refine Glob.anyAccepts_iff.mpr ⟨glob, compiled, ?_⟩
  rw [relativeText_append placed inside]
  exact accepts _ _ accepted

/-- A file that a pruned search does not reach is not selected. -/
theorem selects_reached {m : Matcher} (filesOnly : m.filesOnly = true)
    (below : ∀ place rest : Place, place ≠ [] → rest ≠ [] → m.prunes place = true →
      Glob.anyAccepts m.excludes (relativeText (place ++ rest)) = true)
    {item : Listed} (placed : item.place ≠ []) (selected : m.selects item = true) :
    Node.reached m.prunes (item.place.take 1) item = true := by
  false_or_by_contra
  rename_i unreached
  have blocked : Node.entered m.prunes item.node (item.place.take 1)
      (item.place.drop (item.place.take 1).length) = false := by
    simpa [Node.reached] using unreached
  obtain ⟨front, back, split, pruned, last⟩ := Node.exists_pruned blocked
  have whole : item.place = (item.place.take 1 ++ front) ++ back := by
    rw [List.append_assoc, ← split]
    cases shape : item.place with
    | nil => exact absurd shape placed
    | cons name rest => simp
  simp only [Matcher.selects, filesOnly, Bool.not_true, Bool.or_false, Bool.and_eq_true,
    Bool.not_eq_true'] at selected
  obtain ⟨⟨isFile, -⟩, notExcluded⟩ := selected
  have deeper : back ≠ [] := by
    intro here
    have isDir := last here
    cases node : item.node <;> simp [node, Node.isFile, Node.isDir] at isFile isDir
  have started : item.place.take 1 ++ front ≠ [] := by
    cases shape : item.place with
    | nil => exact absurd shape placed
    | cons name rest => simp
  have excluded := below _ back started deeper pruned
  rw [← whole, notExcluded] at excluded
  cases excluded

/-- What both searches of a tree come to. -/
theorem searchWith_eq {pruned : Matcher → Place → Bool} {fs : FileSystem} {m : Matcher}
    {root : Path} {here : Place} {top : Node} (matcher : Matcher.ofQuery q = .ok m)
    (located : Path.absolute? fs.cwd q.root = some root) (found : fs.stat root = .ok (here, top)) :
    searchWith pruned fs q = .ok (((top.contents (pruned m)).filter m.selects).map
      fun item => pathBelow root item.place) := by
  simp [searchWith, matcher, located, found, bind, Except.bind, pure, Except.pure]

/-- Leaving out excluded directories does not change what is found. -/
theorem contents_filter_selects {top : Node} (named : top.WellNamed)
    (compiledIn : Glob.compile q.includes = .ok includes)
    (compiledEx : Glob.compile q.excludes = .ok excludes) (plain : ∀ p ∈ q.excludes, Plain p)
    (filesOnly : q.filesOnly = true) {m : Matcher} (matcher : Matcher.ofQuery q = .ok m) :
    (top.contents m.prunes).filter m.selects =
      (top.contents fun _ => false).filter m.selects := by
  obtain ⟨subtrees, compiledSub, same⟩ := ofQuery_eq compiledIn compiledEx plain
  rw [matcher] at same
  cases same
  rw [Node.contents_eq_filter, List.filter_filter]
  apply List.filter_congr
  intro item member
  have placed := ((Node.mem_contents named item).mp member).1
  by_cases selected : Matcher.selects ⟨includes, excludes, subtrees, q.filesOnly⟩ item = true
  · rw [selected, Bool.true_and]
    refine selects_reached filesOnly ?_ placed selected
    intro place rest started deeper pruned
    exact excluded_below compiledEx compiledSub plain started deeper pruned
  · simp [selected]

theorem selects_iff {m : Matcher} (filesOnly : m.filesOnly = true) (item : Listed)
    (utf8 : ∀ name ∈ item.place, (Utf8.decode? name).isSome = true) :
    m.selects item = true ↔
      (∃ data, item.node = .file data) ∧
      (∃ glob ∈ m.includes, glob.accepts (Path.unsplit item.place) = true) ∧
      ¬ ∃ glob ∈ m.excludes, glob.accepts (Path.unsplit item.place) = true := by
  have isFile : item.node.isFile = true ↔ ∃ data, item.node = .file data := by
    cases item.node <;> simp [Node.isFile]
  simp only [Matcher.selects, relativeText_eq_unsplit utf8, filesOnly, Bool.not_true,
    Bool.or_false, Bool.and_eq_true, Bool.not_eq_true', ← isFile, ← Glob.anyAccepts_iff,
    Bool.not_eq_true, and_assoc]

end

/-- The search finds every regular file of the tree that an include glob and no exclude glob
    matches, each once and in files-first depth-first order, and nothing else. -/
theorem search_finds_unpruned (fs : FileSystem) (q : Query) (root : Path) (here : Place) (top : Node)
    (includes excludes : List Glob) (filesOnly : q.filesOnly = true)
    (located : Path.absolute? fs.cwd q.root = some root) (found : fs.stat root = .ok (here, top))
    (directory : top.isDir = true) (named : top.WellNamed)
    (utf8 : top.EveryName fun name => (Utf8.decode? name).isSome = true)
    (compiledIn : Glob.compile q.includes = .ok includes)
    (compiledEx : Glob.compile q.excludes = .ok excludes)
    (plain : ∀ p ∈ q.excludes, Plain p) :
    search fs q = searchAll fs q ∧
    ∃ places : List Place,
      search fs q = .ok (places.map (pathBelow root)) ∧
      (places.map (pathBelow root)).Nodup ∧
      places.Pairwise top.Precedes ∧
      ∀ place, place ∈ places ↔
        (∃ data, top.get? place = some (.file data)) ∧
        (∃ glob ∈ includes, glob.accepts (Path.unsplit place) = true) ∧
        ¬ ∃ glob ∈ excludes, glob.accepts (Path.unsplit place) = true := by
  obtain ⟨subtrees, compiledSub, matcher⟩ := ofQuery_eq compiledIn compiledEx plain
  let m : Matcher := ⟨includes, excludes, subtrees, q.filesOnly⟩
  have pruned : search fs q = _ := searchWith_eq matcher located found
  have full : searchAll fs q = _ := searchWith_eq matcher located found
  rw [contents_filter_selects named compiledIn compiledEx plain filesOnly matcher] at pruned
  refine ⟨pruned.trans full.symm, ((top.contents fun _ => false).filter m.selects).map (·.place),
    ?_, ?_, ?_, ?_⟩
  · rw [pruned, List.map_map]
    rfl
  · rw [List.map_map, List.Nodup, List.pairwise_map]
    refine ((Node.contents_pairwise named).filter _).imp_of_mem ?_
    intro x y memberX memberY before same
    obtain ⟨placedX, foundX⟩ := (Node.mem_contents named x).mp (List.mem_of_mem_filter memberX)
    obtain ⟨placedY, foundY⟩ := (Node.mem_contents named y).mp (List.mem_of_mem_filter memberY)
    have equal := pathBelow_injective root placedX placedY (named.proper _ _ foundX)
      (named.proper _ _ foundY) same
    exact Node.Precedes.irrefl (equal ▸ before)
  · rw [List.pairwise_map]
    exact (Node.contents_pairwise named).filter _
  · intro place
    rw [List.mem_map]
    constructor
    · intro listed
      obtain ⟨item, member, rfl⟩ := listed
      obtain ⟨inside, selected⟩ := List.mem_filter.mp member
      obtain ⟨-, node⟩ := (Node.mem_contents named item).mp inside
      obtain ⟨⟨data, isFile⟩, matched⟩ :=
        (selects_iff filesOnly item (utf8 item.place item.node node)).mp selected
      exact ⟨⟨data, isFile ▸ node⟩, matched⟩
    · intro wanted
      obtain ⟨⟨data, node⟩, matched⟩ := wanted
      have placed : place ≠ [] := by
        intro start
        rw [start, Node.get?_nil] at node
        cases node
        simp [Node.isDir] at directory
      refine ⟨⟨place, .file data⟩, List.mem_filter.mpr ⟨?_, ?_⟩, rfl⟩
      · exact (Node.mem_contents named _).mpr ⟨placed, node⟩
      · exact (selects_iff filesOnly _ (utf8 place _ node)).mpr ⟨⟨data, rfl⟩, matched⟩

/-- A directory `d` with a file in it, a file `a` and a link `l` to the directory. -/
def sampleTree : Node :=
  .dir [([0x64], .dir [([0x61], .file { content := .empty })]),
    ([0x61], .file { content := .empty }), ([0x6C], .link ⟨[0x64]⟩)]

theorem sampleTree_names {p : Bytes → Prop} (d : p [0x64]) (a : p [0x61]) (l : p [0x6C]) :
    sampleTree.EveryName p := by
  refine .dir ?_
  simp only [List.forall_mem_cons, List.not_mem_nil, false_implies, implies_true, and_true]
  exact ⟨⟨d, .dir (by simpa using ⟨a, .file _ _⟩)⟩, ⟨a, .file _ _⟩, ⟨l, .link _ _⟩⟩

theorem sampleTree_wellNamed : sampleTree.WellNamed := by
  refine .dir (by decide) ?_
  simp only [List.forall_mem_cons, List.not_mem_nil, false_implies, implies_true, and_true]
  refine ⟨⟨by decide, .dir (by decide) ?_⟩, ⟨by decide, .file _⟩, ⟨by decide, .link _⟩⟩
  simpa using ⟨by decide, .file _⟩

theorem search_finds_unpruned_sample :
    ∃ places : List Place,
      search ⟨sampleTree, ⟨[0x2F]⟩⟩ { root := ⟨[0x2F]⟩, includes := ["**"], excludes := ["d/**"] } =
        .ok (places.map (pathBelow ⟨[0x2F]⟩)) ∧
      [[0x61]] ∈ places ∧ [[0x64], [0x61]] ∉ places := by
  have found : FileSystem.stat ⟨sampleTree, ⟨[0x2F]⟩⟩ ⟨[0x2F]⟩ = .ok ([], sampleTree) := by
    simp [FileSystem.stat, FileSystem.resolve, FileSystem.follow, FileSystem.get?, Node.get?,
      sampleTree, Path.join, Path.isAbsolute, Path.isEmpty, Path.split, Path.slash, pathLimit,
      bind, Except.bind, pure, Except.pure]
  have readAll : Glob.compile ["**"] = .ok [[.leading]] := by
    simp [Glob.compile, Glob.parse, Glob.readFrom, Glob.Reading.inGroup]
  have readBelow : Glob.compile ["d/**"] = .ok [[.literal 'd', .trailing]] := by
    simp [Glob.compile, Glob.parse, Glob.readFrom, Glob.Reading.inGroup, Glob.Reading.merge,
      Glob.startsSegment]
  obtain ⟨-, places, answer, -, -, holds⟩ := search_finds_unpruned ⟨sampleTree, ⟨[0x2F]⟩⟩
    { root := ⟨[0x2F]⟩, includes := ["**"], excludes := ["d/**"] } ⟨[0x2F]⟩ [] sampleTree
    [[.leading]] [[.literal 'd', .trailing]] rfl (by decide) found rfl sampleTree_wellNamed
    (sampleTree_names (by decide) (by decide) (by decide)) readAll readBelow
    (by simp only [List.forall_mem_cons, List.not_mem_nil, false_implies, implies_true, and_true]
        exact ⟨by decide, by decide⟩)
  refine ⟨places, answer, ?_, ?_⟩
  · rw [holds]
    exact ⟨⟨_, rfl⟩, ⟨_, List.mem_cons_self, rfl⟩, by decide⟩
  · rw [holds]
    intro wanted
    exact wanted.2.2 ⟨_, List.mem_cons_self, by decide⟩

end FormatLint.Selection
