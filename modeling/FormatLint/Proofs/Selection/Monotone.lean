import FormatLint.Proofs.Selection.Unmatched

/-!
Searches with more and with fewer globs. More exclude globs drop more paths and keep a search out of
more directories, fewer include globs select fewer paths, and what is still found comes in the same
order. So only the sets of globs count, and neither their order nor how often they are given.
-/

namespace FormatLint

namespace Node

section

variable {narrow wide : Place → Bool}

/-- What is reached where more directories are pruned is reached where fewer are. -/
theorem entered_mono (looser : ∀ place, wide place = true → narrow place = true) {node : Node}
    {place below : Place} (way : entered narrow node place below = true) :
    entered wide node place below = true := by
  have open' (at' : Place) (unpruned : narrow at' = false) : wide at' = false := by
    rw [Bool.eq_false_iff]
    intro pruned
    rw [looser at' pruned] at unpruned
    cases unpruned
  induction below generalizing place with
  | nil =>
    simp only [entered, Bool.not_eq_true', Bool.and_eq_false_iff] at way ⊢
    exact way.imp_right (open' place)
  | cons name below ih =>
    simp only [entered, Bool.and_eq_true, Bool.not_eq_true'] at way ⊢
    exact ⟨open' place way.1, ih way.2⟩

theorem contents_sublist (looser : ∀ place, wide place = true → narrow place = true)
    (top : Node) : (top.contents narrow).Sublist (top.contents wide) := by
  rw [contents_eq_filter narrow, contents_eq_filter wide]
  exact List.monotone_filter_right _ fun item => entered_mono looser

end

end Node

namespace Glob

variable {texts more : List String} {globs wider : List Glob}

theorem compile_subset (fewer : texts ⊆ more) (compiled : compile texts = .ok globs)
    (compiled' : compile more = .ok wider) : globs ⊆ wider := by
  intro glob member
  obtain ⟨text, inside, read⟩ := compile_mem compiled member
  obtain ⟨other, member', read'⟩ := mem_compile compiled' (fewer inside)
  rw [read] at read'
  cases read'
  exact member'

theorem anyAccepts_mono (fewer : globs ⊆ wider) {subject : Bytes}
    (accepted : anyAccepts globs subject = true) : anyAccepts wider subject = true := by
  obtain ⟨glob, member, accepts⟩ := anyAccepts_iff.mp accepted
  exact anyAccepts_iff.mpr ⟨glob, fewer member, accepts⟩

/-- Texts among those of a list that can be read can be read. -/
theorem compile_fewer (fewer : texts ⊆ more) (compiled : compile more = .ok wider) :
    ∃ globs, compile texts = .ok globs :=
  compile_of_parse fun _ inside =>
    let ⟨glob, _, read⟩ := mem_compile compiled (fewer inside)
    ⟨glob, read⟩

end Glob

namespace Selection

section

variable {m n : Matcher} {q r : Query}

theorem Matcher.found_sublist (includes : m.includes ⊆ n.includes)
    (excludes : n.excludes ⊆ m.excludes) (subtrees : n.subtrees ⊆ m.subtrees)
    (filesOnly : m.filesOnly = n.filesOnly) (top : Node) : (m.found top).Sublist (n.found top) := by
  have entered : (top.contents m.prunes).Sublist (top.contents n.prunes) :=
    Node.contents_sublist (fun _ => Glob.anyAccepts_mono subtrees) top
  have selects (item : Listed) (selected : m.selects item = true) : n.selects item = true := by
    simp only [Matcher.selects, Bool.and_eq_true, Bool.not_eq_true', filesOnly] at selected ⊢
    obtain ⟨⟨kind, included⟩, kept⟩ := selected
    refine ⟨⟨kind, Glob.anyAccepts_mono includes included⟩, ?_⟩
    rw [Bool.eq_false_iff] at kept ⊢
    exact fun excluded => kept (Glob.anyAccepts_mono excludes excluded)
  exact (entered.filter _).trans (List.monotone_filter_right _ selects)

theorem ofQuery_sublist (matcher : Matcher.ofQuery q = .ok m) (matcher' : Matcher.ofQuery r = .ok n)
    (includes : q.includes ⊆ r.includes) (excludes : r.excludes ⊆ q.excludes)
    (filesOnly : q.filesOnly = r.filesOnly) (top : Node) : (m.found top).Sublist (n.found top) := by
  obtain ⟨readIn, readEx, readSub, kind⟩ := ofQuery_iff.mp matcher
  obtain ⟨readIn', readEx', readSub', kind'⟩ := ofQuery_iff.mp matcher'
  refine Matcher.found_sublist (Glob.compile_subset includes readIn readIn')
    (Glob.compile_subset excludes readEx' readEx) (Glob.compile_subset ?_ readSub' readSub)
    (by rw [kind, kind', filesOnly]) top
  exact List.filterMap_subset _ excludes

/-- A search that succeeds read its globs, and found its root. -/
theorem search_ok {fs : FileSystem} {found : List Path} (ran : search fs q = .ok found) :
    ∃ m root here top, Matcher.ofQuery q = .ok m ∧ Path.absolute? fs.cwd q.root = some root ∧
      fs.stat root = .ok (here, top) ∧
      found = (m.found top).map fun item => pathBelow root item.place := by
  cases matcher : Matcher.ofQuery q with
  | error e => simp [search, searchWith, matcher, bind, Except.bind] at ran
  | ok m =>
    cases located : Path.absolute? fs.cwd q.root with
    | none => simp [search, searchWith, matcher, located, bind, Except.bind, throw, throwThe,
        MonadExceptOf.throw] at ran
    | some root =>
      cases seen : fs.stat root with
      | error fault => simp [search, searchWith, matcher, located, seen, bind, Except.bind, throw,
          throwThe, MonadExceptOf.throw] at ran
      | ok both =>
        obtain ⟨here, top⟩ := both
        rw [search_eq located seen matcher] at ran
        exact ⟨m, root, here, top, rfl, rfl, seen, (Except.ok.inj ran).symm⟩

/-- A search whose globs are among those of a search that succeeds can read them too. -/
theorem search_fewer {fs : FileSystem} {found : List Path} (same : q.root = r.root)
    (includes : q.includes ⊆ r.includes) (excludes : q.excludes ⊆ r.excludes)
    (ran : search fs r = .ok found) : ∃ others, search fs q = .ok others := by
  obtain ⟨n, root, here, top, matcher, located, seen, -⟩ := search_ok ran
  obtain ⟨readIn, readEx, readSub, -⟩ := ofQuery_iff.mp matcher
  obtain ⟨globsIn, compiledIn⟩ := Glob.compile_fewer includes readIn
  obtain ⟨globsEx, compiledEx⟩ := Glob.compile_fewer excludes readEx
  obtain ⟨globsSub, compiledSub⟩ :=
    Glob.compile_fewer (List.filterMap_subset subtreeStem? excludes) readSub
  have matcher' : Matcher.ofQuery q = .ok ⟨globsIn, globsEx, globsSub, q.filesOnly⟩ :=
    ofQuery_iff.mpr ⟨compiledIn, compiledEx, compiledSub, rfl⟩
  exact ⟨_, search_eq (same ▸ located) seen matcher'⟩

theorem search_sublist {fs : FileSystem} {narrow wide : List Path} (same : q.root = r.root)
    (filesOnly : q.filesOnly = r.filesOnly) (includes : q.includes ⊆ r.includes)
    (excludes : r.excludes ⊆ q.excludes) (ran : search fs q = .ok narrow)
    (ran' : search fs r = .ok wide) : narrow.Sublist wide := by
  obtain ⟨m, root, here, top, matcher, located, seen, rfl⟩ := search_ok ran
  obtain ⟨n, root', here', top', matcher', located', seen', rfl⟩ := search_ok ran'
  rw [same, located'] at located
  cases located
  rw [seen'] at seen
  cases seen
  exact (ofQuery_sublist matcher matcher' includes excludes filesOnly top).map _

/-- Queries that differ in the order of their globs and in how often these are given have one
    answer. -/
theorem search_same {fs : FileSystem} {found : List Path} (same : q.root = r.root)
    (filesOnly : q.filesOnly = r.filesOnly) (includes : ∀ glob, glob ∈ q.includes ↔ glob ∈ r.includes)
    (excludes : ∀ glob, glob ∈ q.excludes ↔ glob ∈ r.excludes) (ran : search fs q = .ok found) :
    search fs r = .ok found := by
  have inTo : q.includes ⊆ r.includes := fun _ => (includes _).mp
  have inFrom : r.includes ⊆ q.includes := fun _ => (includes _).mpr
  have exTo : q.excludes ⊆ r.excludes := fun _ => (excludes _).mp
  have exFrom : r.excludes ⊆ q.excludes := fun _ => (excludes _).mpr
  obtain ⟨others, ran'⟩ := search_fewer same.symm inFrom exFrom ran
  -- each of the two answers is a part of the other
  have part := search_sublist same filesOnly inTo exFrom ran ran'
  have whole := search_sublist same.symm filesOnly.symm inFrom exTo ran' ran
  rw [ran', part.antisymm whole]

end

/-- With fewer include globs and more exclude globs a search finds a part of what it finds without,
    in the same order. Lists of the same globs, in any order and given any number of times, have the
    same answer. -/
theorem search_monotone (fs : FileSystem) (root : Path) (filesOnly : Bool)
    (includes includes' excludes excludes' : List String) :
    (includes ⊆ includes' → excludes ⊆ excludes' → ∀ narrow wide,
      search fs { root, includes, excludes := excludes', filesOnly } = .ok narrow →
      search fs { root, includes := includes', excludes, filesOnly } = .ok wide →
      narrow.Sublist wide) ∧
    ((∀ glob, glob ∈ includes ↔ glob ∈ includes') → (∀ glob, glob ∈ excludes ↔ glob ∈ excludes') →
      ∀ found, search fs { root, includes, excludes, filesOnly } = .ok found ↔
        search fs { root, includes := includes', excludes := excludes', filesOnly } = .ok found) := by
  refine ⟨?_, ?_⟩
  · intro fewer more narrow wide ran ran'
    refine search_sublist ?_ ?_ ?_ ?_ ran ran'
    · rfl
    · rfl
    · exact fewer
    · exact more
  · intro sameIn sameEx found
    constructor
    · exact search_same rfl rfl sameIn sameEx
    · exact search_same rfl rfl (fun glob => (sameIn glob).symm) fun glob => (sameEx glob).symm

/-- Excluding what lies below `d` leaves the file `a` of two, and naming a glob twice and last
    changes nothing. -/
theorem search_monotone_sample :
    (∃ narrow wide,
      search ⟨sampleTree, ⟨[0x2F]⟩⟩
        { root := ⟨[0x2F]⟩, includes := ["**"], excludes := ["d/**"] } = .ok narrow ∧
      search ⟨sampleTree, ⟨[0x2F]⟩⟩
        { root := ⟨[0x2F]⟩, includes := ["a", "**"], excludes := [] } = .ok wide ∧
      narrow.Sublist wide ∧ narrow.length = 1 ∧ wide.length = 2) ∧
    (search ⟨sampleTree, ⟨[0x2F]⟩⟩ { root := ⟨[0x2F]⟩, includes := ["a", "**"] } =
        .ok [⟨[0x2F, 0x61]⟩, ⟨[0x2F, 0x64, 0x2F, 0x61]⟩] ↔
      search ⟨sampleTree, ⟨[0x2F]⟩⟩ { root := ⟨[0x2F]⟩, includes := ["**", "a", "**"] } =
        .ok [⟨[0x2F, 0x61]⟩, ⟨[0x2F, 0x64, 0x2F, 0x61]⟩]) := by
  have narrow : search ⟨sampleTree, ⟨[0x2F]⟩⟩
      { root := ⟨[0x2F]⟩, includes := ["**"], excludes := ["d/**"] } = .ok [⟨[0x2F, 0x61]⟩] := by cbv
  have wide : search ⟨sampleTree, ⟨[0x2F]⟩⟩
      { root := ⟨[0x2F]⟩, includes := ["a", "**"], excludes := [] } =
        .ok [⟨[0x2F, 0x61]⟩, ⟨[0x2F, 0x64, 0x2F, 0x61]⟩] := by cbv
  refine ⟨⟨_, _, narrow, wide, ?_, rfl, rfl⟩, ?_⟩
  · exact (search_monotone _ _ _ ["**"] ["a", "**"] [] ["d/**"]).1 (by simp) (by simp) _ _ narrow wide
  · exact (search_monotone _ _ _ ["a", "**"] ["**", "a", "**"] [] []).2
      (fun glob => by simp only [List.mem_cons, List.not_mem_nil, or_false]; tauto) (by simp) _

end Selection

end FormatLint
