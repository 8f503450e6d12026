import FormatLint.Proofs.FileSystem.Resolve

/-!
What stands at each place of a tree: a file with its data, a directory or a link. To change one
entry of a directory that has nothing below it changes the outline at one place, and a file system
grows when directories come to stand where nothing was.
-/

namespace FormatLint

namespace Node

/-- A node without what is below it. -/
inductive Outline where
  | file (data : FileData)
  | dir
  | link (target : Path)

def Outline.kind : Outline → Kind
  | file _ => .file
  | dir => .dir
  | link target => .link target

def outline : Node → Outline
  | file data => .file data
  | dir _ => .dir
  | link target => .link target

def outlineAt (top : Node) (place : Place) : Option Outline := (top.get? place).map outline

/-- The entry of a name has nothing below it. -/
def Bare (entries : List (Bytes × Node)) (name : Bytes) : Prop :=
  ∀ next rest, (entries.lookup name).bind (get? (next :: rest)) = none

section

variable {top node : Node} {place dir : Place} {name other : Bytes}
  {entries more : List (Bytes × Node)} {data : FileData}

theorem kind_outline (node : Node) : node.outline.kind = node.kind := by
  cases node <;> rfl

theorem kindAt_eq_outlineAt (top : Node) (place : Place) :
    top.kindAt place = (top.outlineAt place).map Outline.kind := by
  rw [kindAt, outlineAt, Option.map_map]
  congr 1
  funext node
  exact (kind_outline node).symm

theorem outlineAt_of_get? (held : top.get? place = some node) :
    top.outlineAt place = some node.outline := by
  rw [outlineAt, held, Option.map_some]

theorem outlineAt_file : top.outlineAt place = some (.file data) ↔
    top.get? place = some (.file data) := by
  rw [outlineAt, Option.map_eq_some_iff]
  constructor
  · intro held
    obtain ⟨node, found, shape⟩ := held
    cases node with
    | file other =>
      cases shape
      exact found
    | dir entries => cases shape
    | link target => cases shape
  · intro found
    exact ⟨_, found, rfl⟩

theorem outlineAt_dir : top.outlineAt place = some .dir ↔
    ∃ entries, top.get? place = some (.dir entries) := by
  rw [outlineAt, Option.map_eq_some_iff]
  constructor
  · intro held
    obtain ⟨node, found, shape⟩ := held
    cases node with
    | dir entries => exact ⟨entries, found⟩
    | file data => cases shape
    | link target => cases shape
  · intro held
    obtain ⟨entries, found⟩ := held
    exact ⟨_, found, rfl⟩

theorem outlineAt_none : top.outlineAt place = none ↔ top.get? place = none := by
  rw [outlineAt, Option.map_eq_none_iff]

/-- What has something below it is a directory. -/
theorem outlineAt_above {rest : Place} (below : top.outlineAt (place ++ name :: rest) ≠ none) :
    top.outlineAt place = some .dir := by
  rw [outlineAt_dir]
  rw [Ne, outlineAt_none, get?_append] at below
  obtain ⟨node, found⟩ := Option.ne_none_iff_exists'.mp below
  obtain ⟨node, held, inner⟩ := Option.bind_eq_some_iff.mp found
  obtain ⟨entries, child, rfl, -⟩ := get?_cons_some inner
  exact ⟨entries, held⟩

theorem bare_of_get?_nil (flat : ∀ node, entries.lookup name = some node →
    ∀ next rest, node.get? (next :: rest) = none) : Bare entries name := by
  intro next rest
  cases held : entries.lookup name with
  | none => rfl
  | some node => exact flat node held next rest

theorem bare_free (free : entries.lookup name = none) : Bare entries name := by
  apply bare_of_get?_nil
  intro node held
  rw [free] at held
  cases held

theorem bare_file (held : entries.lookup name = some (.file data)) : Bare entries name := by
  apply bare_of_get?_nil
  intro node found next rest
  rw [held] at found
  cases found
  rfl

/-- A directory with other entries differs only below the names whose entries differ. -/
theorem outlineAt_put_dir (held : top.get? dir = some (.dir entries))
    (same : ∀ other, other ≠ name → more.lookup other = entries.lookup other)
    (apart : ¬ dir ++ [name] <+: place) :
    (put (.dir more) dir top).outlineAt place = top.outlineAt place := by
  induction dir generalizing top place with
  | nil =>
    rw [get?_nil] at held
    cases held
    cases place with
    | nil => rfl
    | cons first place =>
      have differs : first ≠ name := by
        rintro rfl
        exact apart ⟨place, rfl⟩
      rw [put, outlineAt, outlineAt, get?_cons_dir, get?_cons_dir, same first differs]
  | cons first dir ih =>
    obtain ⟨siblings, child, rfl, there, inner⟩ := get?_cons_some held
    cases place with
    | nil => rfl
    | cons next place =>
      rw [put_cons_dir, there, Option.getD_some, outlineAt, outlineAt, get?_cons_dir, get?_cons_dir]
      by_cases equal : next = first
      · subst equal
        rw [lookup_setEntry_self, there, Option.bind_some, Option.bind_some]
        refine ih inner ?_
        rintro ⟨rest, split⟩
        exact apart ⟨rest, by rw [List.cons_append, List.cons_append, split]⟩
      · rw [lookup_setEntry_other equal]

/-- A directory with another entry that has nothing below it, in the place of such an entry. -/
theorem outlineAt_put_entry (held : top.get? dir = some (.dir entries))
    (same : ∀ other, other ≠ name → more.lookup other = entries.lookup other)
    (before : Bare entries name) (after : Bare more name) (place : Place) :
    (put (.dir more) dir top).outlineAt place =
      if place = dir ++ [name] then (more.lookup name).map outline else top.outlineAt place := by
  by_cases inside : dir ++ [name] <+: place
  · obtain ⟨rest, rfl⟩ := inside
    have now := get?_put_self held (.dir more)
    rw [List.append_assoc, outlineAt, outlineAt, get?_append, get?_append, now, held]
    cases rest with
    | nil =>
      rw [if_pos (by simp), Option.bind_some]
      simp only [List.singleton_append, get?_cons_dir]
      cases more.lookup name <;> simp
    | cons next rest =>
      rw [if_neg (by simp), Option.bind_some, Option.bind_some]
      simp only [List.singleton_append, get?_cons_dir]
      rw [before, after]
  · rw [outlineAt_put_dir held same inside, if_neg]
    rintro rfl
    exact inside ⟨[], List.append_nil _⟩

theorem lookup_filter_self (entries : List (Bytes × Node)) (name : Bytes) :
    (entries.filter (·.1 != name)).lookup name = none := by
  rw [List.lookup_eq_none_iff]
  intro e member
  have apart := (List.mem_filter.mp member).2
  simpa [bne, Bool.beq_comm] using apart

theorem lookup_filter_other (apart : other ≠ name) :
    (entries.filter (·.1 != name)).lookup other = entries.lookup other := by
  induction entries with
  | nil => rfl
  | cons e entries ih =>
    by_cases same : e.1 = name
    · rw [List.filter_cons_of_neg (by simp [same]), ih, List.lookup_cons,
        beq_false_of_ne (same ▸ apart)]
    · rw [List.filter_cons_of_pos (by simpa using same), List.lookup_cons, List.lookup_cons, ih]

end

end Node

namespace FileSystem

open Node (Outline)

def outlineAt (fs : FileSystem) (place : Place) : Option Outline := fs.root.outlineAt place

variable {fs wide : FileSystem} {place dir : Place} {name : Bytes} {entries : List (Bytes × Node)}
  {data : FileData} {node : Node}

theorem get?_put_child (held : fs.get? dir = some (.dir entries)) (new : Node) :
    (fs.put (dir ++ [name]) new).get? (dir ++ [name]) = some new := by
  have grown := Node.get?_put_self held (.dir (Node.setEntry name new entries))
  simp only [get?, put]
  rw [Node.put_child held, Node.get?_child grown, Node.lookup_setEntry_self]

/-- A file or a new directory comes to stand where nothing or a file was. -/
theorem outlineAt_put_child (held : fs.get? dir = some (.dir entries))
    (before : Node.Bare entries name) (new : Node)
    (flat : ∀ next rest, new.get? (next :: rest) = none) (place : Place) :
    (fs.put (dir ++ [name]) new).outlineAt place =
      if place = dir ++ [name] then some new.outline else fs.outlineAt place := by
  have set := Node.lookup_setEntry_self entries name new
  simp only [outlineAt, put]
  rw [Node.put_child held, Node.outlineAt_put_entry held
    (fun other apart => Node.lookup_setEntry_other apart) before, set, Option.map_some]
  apply Node.bare_of_get?_nil
  intro other found
  rw [set] at found
  cases found
  exact flat

theorem outlineAt_erase_child (held : fs.get? dir = some (.dir entries))
    (before : Node.Bare entries name) (place : Place) :
    (fs.erase (dir ++ [name])).outlineAt place =
      if place = dir ++ [name] then none else fs.outlineAt place := by
  have gone := Node.lookup_filter_self entries name
  simp only [outlineAt, erase]
  rw [Node.erase_append held, Node.outlineAt_put_entry held
    (fun other apart => Node.lookup_filter_other apart) before (Node.bare_free gone), gone,
    Option.map_none]

theorem kindAt_eq_outlineAt (fs : FileSystem) (place : Place) :
    fs.kindAt place = (fs.outlineAt place).map Outline.kind :=
  Node.kindAt_eq_outlineAt fs.root place

/-- Paths lead to the same places in file systems of one outline. -/
theorem resolve_outline {final : Bool} {p : Path} (same : wide.outlineAt = fs.outlineAt)
    (seen : wide.cwd = fs.cwd) :
    (wide.resolve final p).map spot = (fs.resolve final p).map spot := by
  refine resolve_congr ?_ seen
  funext place
  rw [kindAt_eq_outlineAt, kindAt_eq_outlineAt, same]

/-- Results that lead to one spot are faults, misses or finds of one place. -/
theorem spot_cases {left right : Except SystemFault Target}
    (same : left.map spot = right.map spot) :
    (∃ fault, left = .error fault ∧ right = .error fault) ∨
    (∃ dir name, left = .ok (.absent dir name) ∧ right = .ok (.absent dir name)) ∨
    ∃ place node other, left = .ok (.found place node) ∧ right = .ok (.found place other) := by
  cases left with
  | error fault =>
    cases right with
    | error other =>
      cases same
      exact .inl ⟨fault, rfl, rfl⟩
    | ok target => cases same
  | ok target =>
    cases right with
    | error other => cases same
    | ok other =>
      have spots : spot target = spot other := Except.ok.inj same
      cases target with
      | absent dir name =>
        cases other with
        | absent dir' name' =>
          cases spots
          exact .inr (.inl ⟨dir, name, rfl, rfl⟩)
        | found place node => cases spots
      | found place node =>
        cases other with
        | absent dir' name' => cases spots
        | found place' node' =>
          cases spots
          exact .inr (.inr ⟨place, node, node', rfl, rfl⟩)

/-- Directories that `made` holds of have come to stand where nothing was, and all else is as it
    was. -/
structure Grows (fs wide : FileSystem) (made : Place → Prop) : Prop where
  seen : wide.cwd = fs.cwd
  each : ∀ place, wide.outlineAt place = fs.outlineAt place ∨
    fs.outlineAt place = none ∧ wide.outlineAt place = some .dir ∧ made place

namespace Grows

variable {mid : FileSystem} {made more : Place → Prop}

theorem refl (fs : FileSystem) (made : Place → Prop) : fs.Grows fs made :=
  ⟨rfl, fun _ => .inl rfl⟩

theorem mono (grows : fs.Grows wide made) (wider : ∀ place, made place → more place) :
    fs.Grows wide more := by
  refine ⟨grows.seen, fun place => ?_⟩
  rcases grows.each place with same | ⟨free, now, new⟩
  · exact .inl same
  · exact .inr ⟨free, now, wider place new⟩

theorem trans (first : fs.Grows mid made) (second : mid.Grows wide made) :
    fs.Grows wide made := by
  refine ⟨second.seen.trans first.seen, fun place => ?_⟩
  rcases second.each place with same | ⟨free, now, new⟩
  · rw [same]
    exact first.each place
  · rcases first.each place with same | ⟨-, taken, -⟩
    · exact .inr ⟨same ▸ free, now, new⟩
    · rw [taken] at free
      cases free

theorem larger (grows : fs.Grows wide made) : fs.Extends wide := by
  intro place kind held
  rw [Node.kindAt_eq_outlineAt] at held ⊢
  rcases grows.each place with same | ⟨free, -⟩
  · rw [← held]
    exact congrArg (Option.map Outline.kind) same
  · have free' : fs.root.outlineAt place = none := free
    rw [free'] at held
    cases held

/-- What stood at a place stands there still. -/
theorem kept (grows : fs.Grows wide made) {o : Outline} (held : fs.outlineAt place = some o) :
    wide.outlineAt place = some o := by
  rcases grows.each place with same | ⟨free, -⟩
  · rw [same, held]
  · rw [free] at held
    cases held

end Grows

end FileSystem

end FormatLint
