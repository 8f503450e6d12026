import FormatLint.Proofs.Path.Below

/-!
Paths after paths. A normal path is an anchor, which is the root, the working directory or a number
of steps up, and names after it; a name after such a path is one more name, and its parent is the
path without it.
-/

namespace FormatLint.Path

section Join

variable {base p q : Path} {part : Bytes}

theorem split_append (left right : Bytes) :
    split (left ++ slash :: right) = split left ++ split right := by
  induction left with
  | nil => exact split_slash right
  | cons b left ih =>
    rw [List.cons_append, split, split, ih]
    split
    · rfl
    · cases parted : split left with
      | nil => exact absurd parted (split_ne_nil left)
      | cons first parts => rfl

theorem IsPart.relative (isPart : IsPart part) : (⟨part⟩ : Path).isAbsolute = false := by
  have single : ∀ other ∈ [part], IsPart other := by simpa using isPart
  exact unsplit_isAbsolute single

/-- Whether a slash is missing at the end is seen at the end. -/
theorem lead_of_append {front : Bytes} (filled : p.isEmpty = false)
    (shape : q.bytes = front ++ p.bytes) : lead q = front ++ lead p := by
  have some : p.bytes ≠ [] := by simpa [isEmpty] using filled
  have whole : q.isEmpty = false := by simp [isEmpty, shape, some]
  have ends : q.endsInSlash = p.endsInSlash := by
    rw [endsInSlash, endsInSlash, shape, List.getLast?_append,
      List.getLast?_eq_some_getLast some, Option.some_or]
  rw [lead, lead, whole, filled, ends, shape]
  split <;> simp

theorem lead_isAbsolute (filled : p.isEmpty = false) (more : Bytes) :
    (⟨lead p ++ more⟩ : Path).isAbsolute = p.isAbsolute := by
  obtain ⟨bytes⟩ := p
  cases bytes with
  | nil => cases filled
  | cons b rest =>
    rw [lead]
    split <;> rfl

/-- A path is joined to another one piece by piece. -/
theorem join_join (filled : p.isEmpty = false) (relative : q.isAbsolute = false) :
    base.join (p.join q) = (base.join p).join q := by
  have pieces : p.join q = ⟨lead p ++ q.bytes⟩ := congrArg mk (p.join_relative relative)
  have later := lead_isAbsolute filled q.bytes
  rw [← pieces] at later
  by_cases absolute : p.isAbsolute = true
  · rw [join, if_pos (later.trans absolute)]
    congr 1
    rw [join, if_pos absolute]
  · have notAbsolute : p.isAbsolute = false := by simpa using absolute
    have whole := lead_of_append filled (base.join_relative notAbsolute)
    calc base.join (p.join q) = ⟨lead base ++ (p.join q).bytes⟩ :=
          congrArg mk (base.join_relative (later.trans notAbsolute))
      _ = ⟨lead (base.join p) ++ q.bytes⟩ := by rw [pieces, whole, List.append_assoc]
      _ = (base.join p).join q := congrArg mk ((base.join p).join_relative relative).symm

theorem join_filled (base : Path) (filled : p.isEmpty = false) : (base.join p).isEmpty = false := by
  have some : p.bytes ≠ [] := by simpa [isEmpty] using filled
  rw [join]
  split
  · exact filled
  · split <;> simp [isEmpty, some]

/-- The last part of a path is what was joined to it. -/
theorem split_join (filled : base.isEmpty = false) (isPart : IsPart part) :
    ∃ parts, split (base.join ⟨part⟩).bytes = parts ++ [part] ∧
      (split base.bytes = parts ∨ split base.bytes = parts ++ [[]]) := by
  have single := split_plain part isPart.plain
  rw [base.join_relative isPart.relative, lead, filled]
  by_cases ends : base.endsInSlash = true
  · obtain ⟨front, shape⟩ : ∃ front, base.bytes = front ++ [slash] :=
      List.getLast?_eq_some_iff.mp (by simpa [endsInSlash] using ends)
    refine ⟨split front, ?_, .inr ?_⟩
    · rw [if_pos (.inr ends), shape, List.append_assoc, List.singleton_append, split_append, single]
    · rw [shape, split_append]
      rfl
  · refine ⟨split base.bytes, ?_, .inl rfl⟩
    rw [if_neg (by simpa using ends), List.append_assoc, List.singleton_append, split_append, single]

end Join

section Parent

variable {parts : List Bytes} {part : Bytes}

theorem trimParts_append (parts : List Bytes) (stands : component? part ≠ none) :
    trimParts (parts ++ [part]) = parts ++ [part] := by
  have some : (component? part).isNone = false := by
    rwa [Option.isNone_eq_false_iff, Option.isSome_iff_ne_none]
  simp [trimParts, some]

theorem trimParts_solid (stand : ∀ part ∈ parts, component? part ≠ none) :
    trimParts parts = parts := by
  rcases List.eq_nil_or_concat parts with rfl | ⟨init, last, rfl⟩
  · rfl
  · rw [List.concat_eq_append] at stand ⊢
    exact trimParts_append init (stand last (by simp))

theorem splitFront_relative {p : Path} (relative : p.isAbsolute = false)
    (first : (split p.bytes).head? ≠ some [dot]) : p.splitFront = ([], p.bytes) := by
  obtain ⟨bytes⟩ := p
  cases bytes with
  | nil => rfl
  | cons b rest =>
    have noSlash : b ≠ slash := by simpa [isAbsolute] using relative
    have noDot : ¬ (b = dot ∧ (rest = [] ∨ rest.head? = some slash)) := by
      rintro ⟨rfl, rfl | leads⟩
      · exact first rfl
      · obtain ⟨tail, rfl⟩ := List.head?_eq_some_iff.mp leads
        refine first ?_
        have parted := split_append_slash [dot] tail (by decide)
        rw [List.singleton_append] at parted
        rw [parted]
        rfl
    simp only [splitFront, if_neg noSlash, if_neg noDot]

/-- The parent of a relative path whose parts all stand for components. -/
theorem parent?_unsplit (solid : ∀ other ∈ parts ++ [part], IsPart other)
    (stand : ∀ other ∈ parts ++ [part], component? other ≠ none) :
    (⟨unsplit (parts ++ [part])⟩ : Path).parent? = some ⟨unsplit parts⟩ := by
  have apart : split (unsplit (parts ++ [part])) = parts ++ [part] :=
    split_unsplit (by simp) fun other member => (solid other member).plain
  have front : (⟨unsplit (parts ++ [part])⟩ : Path).splitFront = ([], unsplit (parts ++ [part])) := by
    refine splitFront_relative (unsplit_isAbsolute solid) ?_
    rw [apart]
    intro leads
    exact stand [dot] (List.mem_of_head? leads) rfl
  simp only [parent?, front, apart, trimParts_solid stand, List.dropLast_concat,
    trimParts_solid fun other member => stand other (List.mem_append_left _ member)]
  simp

end Parent

/-- Where a normal path starts. -/
inductive Anchor where
  | root
  /-- `.` -/
  | here
  /-- So many steps up. -/
  | ups (count : Nat)

namespace Anchor

/-- The path of names after an anchor. -/
def path : Anchor → List Bytes → Path
  | root, names => rooted names
  | here, names => ⟨unsplit ([dot] :: names)⟩
  | ups count, names => ⟨unsplit (List.replicate count [dot, dot] ++ names)⟩

variable {a : Anchor} {names more : List Bytes} {name : Bytes}

theorem here_solid (proper : ∀ n ∈ names, IsName n) : ∀ part ∈ [dot] :: names, IsPart part := by
  intro part member
  rcases List.mem_cons.mp member with rfl | member
  · exact ⟨by decide, by decide⟩
  · exact (proper part member).isPart

theorem ups_solid (count : Nat) (proper : ∀ n ∈ names, IsName n) :
    ∀ part ∈ List.replicate count [dot, dot] ++ names, IsPart part := by
  intro part member
  rcases List.mem_append.mp member with member | member
  · rw [List.eq_of_mem_replicate member]
    exact ⟨by decide, by decide⟩
  · exact (proper part member).isPart

theorem ups_stand (count : Nat) (proper : ∀ n ∈ names, IsName n) :
    ∀ part ∈ List.replicate count [dot, dot] ++ names, component? part ≠ none := by
  intro part member
  rcases List.mem_append.mp member with member | member
  · rw [List.eq_of_mem_replicate member]
    decide
  · simp [component?_name (proper part member)]

theorem path_join (proper : ∀ n ∈ names, IsName n) (below : ∀ n ∈ more, IsName n)
    (filled : more ≠ []) : (a.path names).join ⟨unsplit more⟩ = a.path (names ++ more) := by
  have solid : ∀ n ∈ more, IsPart n := fun n member => (below n member).isPart
  cases a with
  | root => exact rooted_join_unsplit proper below filled
  | here => exact unsplit_join (here_solid proper) solid filled
  | ups count =>
    have joined := unsplit_join (ups_solid count proper) solid filled
    rwa [List.append_assoc] at joined

theorem path_join_name (proper : ∀ n ∈ names, IsName n) (isName : IsName name) :
    (a.path names).join ⟨name⟩ = a.path (names ++ [name]) :=
  path_join proper (by simpa using isName) (List.cons_ne_nil name [])

theorem path_append_filled (proper : ∀ n ∈ names, IsName n) (below : ∀ n ∈ more, IsName n)
    (filled : (a.path names).isEmpty = false) : (a.path (names ++ more)).isEmpty = false := by
  by_cases none : more = []
  · rwa [none, List.append_nil]
  · have some := unsplit_ne_nil (fun n member => (below n member).isPart) none
    rw [← path_join proper below none]
    exact join_filled _ (by simpa [isEmpty] using some)

theorem path_parent? (proper : ∀ n ∈ names ++ [name], IsName n) :
    (a.path (names ++ [name])).parent? = some (a.path names) := by
  cases a with
  | root => exact parent?_rooted proper
  | ups count =>
    have solid := ups_solid count proper
    have stand := ups_stand count proper
    rw [← List.append_assoc] at solid stand
    have parent := parent?_unsplit solid stand
    rwa [List.append_assoc] at parent
  | here =>
    have plain : ∀ part ∈ [] :: (names ++ [name]), slash ∉ part := by
      intro part member
      rcases List.mem_cons.mp member with rfl | member
      · simp
      · exact (proper part member).plain
    have front : (here.path (names ++ [name])).splitFront = ([dot], unsplit ([] :: (names ++ [name]))) := by
      rw [path, unsplit_cons _ (by simp), unsplit_cons _ (by simp)]
      rfl
    have isName : component? name ≠ none := by simp [component?_name (proper name (by simp))]
    have whole : trimParts ([] :: (names ++ [name])) = [] :: names ++ [name] :=
      trimParts_append ([] :: names) isName
    -- without names before it, the slash at the front goes with the last name
    have shorter : [dot] ++ unsplit (trimParts ([] :: names)) = unsplit ([dot] :: names) := by
      rcases List.eq_nil_or_concat names with rfl | ⟨init, last, rfl⟩
      · rfl
      · rw [List.concat_eq_append] at proper ⊢
        have isLast : component? last ≠ none := by simp [component?_name (proper last (by simp))]
        have filled : init ++ [last] ≠ [] := by simp
        have kept : trimParts ([] :: (init ++ [last])) = [] :: (init ++ [last]) :=
          trimParts_append ([] :: init) isLast
        rw [kept, unsplit_cons [] filled, unsplit_cons [dot] filled]
        rfl
    simp only [parent?, front, split_unsplit (List.cons_ne_nil _ _) plain, whole,
      List.dropLast_concat, shorter]
    simp [path]

theorem path_parent?_ups (count : Nat) :
    ((ups (count + 1)).path []).parent? = some ((ups count).path []) := by
  have none : ∀ n ∈ ([] : List Bytes), IsName n := by simp
  have solid := ups_solid (count + 1) none
  have stand := ups_stand (count + 1) none
  simp only [List.append_nil, List.replicate_succ'] at solid stand
  simpa [path, List.replicate_succ'] using parent?_unsplit solid stand

end Anchor

theorem lead_ends (base : Path) : lead base = [] ∨ ∃ front, lead base = front ++ [slash] := by
  rw [lead]
  split
  · rename_i complete
    rcases complete with empty | ends
    · exact .inl (by simpa [isEmpty] using empty)
    · exact .inr (List.getLast?_eq_some_iff.mp (by simpa [endsInSlash] using ends))
  · exact .inr ⟨base.bytes, rfl⟩

/-- A path of steps up ends in one, whatever it is joined to. -/
theorem split_join_ups (base : Path) (count : Nat) :
    ∃ parts, split (base.join ((Anchor.ups (count + 1)).path [])).bytes = parts ++ [[dot, dot]] := by
  have last (front : Bytes) : split (front ++ slash :: [dot, dot]) = split front ++ [[dot, dot]] :=
    split_append front [dot, dot]
  have none : ∀ n ∈ ([] : List Bytes), IsName n := by simp
  have relative : ((Anchor.ups (count + 1)).path []).isAbsolute = false :=
    unsplit_isAbsolute (Anchor.ups_solid (count + 1) none)
  have text : ((Anchor.ups (count + 1)).path []).bytes =
      unsplit (List.replicate count [dot, dot] ++ [[dot, dot]]) := by
    rw [Anchor.path, List.append_nil, List.replicate_succ']
  rw [base.join_relative relative, text]
  by_cases single : List.replicate count [dot, dot] = []
  · rw [single]
    rcases lead_ends base with empty | ⟨front, ends⟩
    · exact ⟨[], by rw [empty]; rfl⟩
    · exact ⟨split front, by rw [ends, List.append_assoc]; exact last front⟩
  · rw [unsplit_append single (by simp), ← List.append_assoc]
    exact ⟨_, last _⟩

/-- Names after a path are its last parts, and without names there is an empty one. -/
theorem split_join_unsplit {base : Path} (filled : base.isEmpty = false) :
    ∃ parts, ∀ names, (∀ n ∈ names, IsName n) →
      split (base.join ⟨unsplit names⟩).bytes = parts ++ if names = [] then [[]] else names := by
  have some : lead base ≠ [] := by
    have given : base.bytes ≠ [] := by simpa [isEmpty] using filled
    rw [lead]
    split <;> simp [given]
  rcases lead_ends base with empty | ⟨front, ends⟩
  · exact absurd empty some
  · refine ⟨split front, fun names proper => ?_⟩
    have relative : (⟨unsplit names⟩ : Path).isAbsolute = false :=
      unsplit_isAbsolute fun n member => (proper n member).isPart
    rw [base.join_relative relative, ends, List.append_assoc, List.singleton_append, split_append]
    congr 1
    split
    · rename_i none
      rw [none]
      rfl
    · rename_i given
      exact split_unsplit given fun n member => (proper n member).plain

theorem components_ne_nil {p : Path} (filled : p.isEmpty = false) : p.components ≠ [] := by
  rw [components]
  by_cases absolute : p.isAbsolute = true
  · simp [absolute]
  · obtain ⟨first, parts, parted⟩ := List.exists_cons_of_ne_nil (split_ne_nil p.bytes)
    by_cases here : first = [dot]
    · simp [absolute, parted, here]
    · -- the first part of a relative path is not empty
      have some : first ≠ [] := by
        intro empty
        obtain ⟨bytes⟩ := p
        cases bytes with
        | nil => cases filled
        | cons b rest =>
          have noSlash : b ≠ slash := by simpa [isAbsolute] using absolute
          simp only [split, if_neg noSlash] at parted
          split at parted
          · cases parted
            cases empty
          · cases parted
            cases empty
      have stands : ∃ c, component? first = Option.some c := by
        rw [component?, if_neg (by simp [some, here])]
        split <;> simp
      obtain ⟨c, stands⟩ := stands
      simp [absolute, parted, here, List.filterMap_cons_some stands]

/-- Steps up and names above them, last first. -/
def Climbing (stack : List Component) : Prop :=
  ∃ (count : Nat) (names : List Bytes), (∀ n ∈ names, IsName n) ∧
    stack = names.map .name ++ List.replicate count .up

theorem Climbing.fold {stack : List Component} (climbing : Climbing stack) {c : Component}
    (allowed : c = .up ∨ ∃ name, c = .name name ∧ IsName name) : Climbing (fold stack c) := by
  obtain ⟨count, names, proper, rfl⟩ := climbing
  rcases allowed with rfl | ⟨name, rfl, isName⟩
  · cases names with
    | nil =>
      refine ⟨count + 1, [], by simp, ?_⟩
      cases count <;> rfl
    | cons top names =>
      exact ⟨count, names, fun n member => proper n (List.mem_cons_of_mem _ member), rfl⟩
  · refine ⟨count, name :: names, ?_, rfl⟩
    intro other member
    rcases List.mem_cons.mp member with rfl | member
    · exact isName
    · exact proper other member

theorem Climbing.foldl {stack : List Component} (climbing : Climbing stack) {cs : List Component}
    (allowed : ∀ c ∈ cs, c = .up ∨ ∃ name, c = .name name ∧ IsName name) :
    Climbing (cs.foldl Path.fold stack) := by
  induction cs generalizing stack with
  | nil => exact climbing
  | cons c cs ih =>
    rw [List.foldl_cons]
    exact ih (climbing.fold (allowed c List.mem_cons_self))
      fun other member => allowed other (List.mem_cons_of_mem _ member)

theorem normalComponents_relative {p : Path} (relative : p.isAbsolute = false) :
    ∃ (count : Nat) (names : List Bytes), (∀ n ∈ names, IsName n) ∧
      p.normalComponents = List.replicate count .up ++ names.map .name := by
  have allowed : ∀ c ∈ (split p.bytes).filterMap component?,
      c = .up ∨ ∃ name, c = .name name ∧ IsName name := by
    intro c member
    obtain ⟨part, inside, stands⟩ := List.mem_filterMap.mp member
    exact component?_some (split_plain_mem inside) stands
  have start : Climbing [] := ⟨0, [], by simp, rfl⟩
  obtain ⟨count, names, proper, folded⟩ := start.foldl allowed
  have components : p.components.foldl fold [] = ((split p.bytes).filterMap component?).foldl fold [] := by
    rw [Path.components, relative]
    simp only [Bool.false_eq_true, if_false]
    split <;> rfl
  refine ⟨count, names.reverse, fun n member => proper n (List.mem_reverse.mp member), ?_⟩
  rw [normalComponents, components, folded]
  simp

/-- Steps up and names after them, written one after the other. -/
theorem ofComponents_ups (count : Nat) {names : List Bytes} (proper : ∀ n ∈ names, IsName n) :
    ofComponents (List.replicate count .up ++ names.map .name) = (Anchor.ups count).path names := by
  have parts : (List.replicate count Component.up ++ names.map Component.name).map componentBytes =
      List.replicate count [dot, dot] ++ names := by
    rw [List.map_append, List.map_replicate, List.map_map]
    congr 1
    exact List.map_id names
  have solid := Anchor.ups_solid count proper
  rw [ofComponents_relative, parts]
  · rfl
  · rw [← parts] at solid
    exact List.forall_mem_map.mp solid

theorem normalize_form (p : Path) : ∃ (a : Anchor) (names : List Bytes),
    (∀ n ∈ names, IsName n) ∧ p.normalize = a.path names ∧ p.normalize.isEmpty = false := by
  by_cases absolute : p.isAbsolute = true
  · obtain ⟨names, proper, normal⟩ := normalize_absolute absolute
    exact ⟨.root, names, proper, normal, by rw [normal]; rfl⟩
  · obtain ⟨count, names, proper, components⟩ :=
      normalComponents_relative (by simpa using absolute)
    rw [normalize, components, ofComponents_ups count proper]
    by_cases empty : ((Anchor.ups count).path names).isEmpty = true
    · refine ⟨.here, [], by simp, ?_⟩
      simp only [if_pos empty]
      exact ⟨rfl, rfl⟩
    · refine ⟨.ups count, names, proper, ?_⟩
      simp only [if_neg empty]
      exact ⟨trivial, by simpa using empty⟩

end FormatLint.Path
