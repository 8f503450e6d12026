import FormatLint.Proofs.FileSystem.Tree

/-!
Changes at one place of a tree. A change inside a directory is a change of its entry list, and two
changes at one place are as good as the later one.
-/

namespace FormatLint.Node

section Entries

variable {entries : List (Bytes × Node)} {name other : Bytes} {node : Node}

theorem lookup_setEntry_self (entries : List (Bytes × Node)) (name : Bytes) (node : Node) :
    (setEntry name node entries).lookup name = some node := by
  induction entries with
  | nil => simp [setEntry]
  | cons e entries ih =>
    obtain ⟨key, old⟩ := e
    rw [setEntry]
    split
    · rename_i same
      simp [same]
    · rename_i apart
      rw [List.lookup_cons, beq_false_of_ne (Ne.symm apart)]
      exact ih

theorem lookup_setEntry_other (apart : other ≠ name) :
    (setEntry name node entries).lookup other = entries.lookup other := by
  induction entries with
  | nil => simp [setEntry, List.lookup_cons, beq_false_of_ne apart]
  | cons e entries ih =>
    rw [setEntry]
    split
    · rename_i same
      rw [List.lookup_cons, List.lookup_cons, same, beq_false_of_ne apart]
    · rw [List.lookup_cons, List.lookup_cons, ih]

theorem setEntry_same (found : entries.lookup name = some node) :
    setEntry name node entries = entries := by
  induction entries with
  | nil => simp at found
  | cons e entries ih =>
    rw [List.lookup_cons] at found
    rw [setEntry]
    split
    · rename_i same
      obtain rfl : e.2 = node := by simpa [same] using found
      rfl
    · rename_i apart
      rw [beq_false_of_ne (Ne.symm apart)] at found
      rw [ih found]

theorem setEntry_setEntry (entries : List (Bytes × Node)) (name : Bytes) (old new : Node) :
    setEntry name new (setEntry name old entries) = setEntry name new entries := by
  induction entries with
  | nil => simp [setEntry]
  | cons e entries ih =>
    by_cases same : e.1 = name
    · simp [setEntry, same]
    · simp [setEntry, same, ih]

theorem setEntry_absent (free : entries.lookup name = none) :
    setEntry name node entries = entries ++ [(name, node)] := by
  induction entries with
  | nil => rfl
  | cons e entries ih =>
    rw [List.lookup_cons] at free
    split at free
    · cases free
    · rename_i apart
      have differs : e.1 ≠ name := by
        intro same
        simp [same] at apart
      rw [setEntry, if_neg differs, ih free, List.cons_append]

theorem filter_absent (free : entries.lookup name = none) :
    entries.filter (·.1 != name) = entries := by
  rw [List.filter_eq_self]
  intro e member
  have apart := List.lookup_eq_none_iff.mp free e member
  simpa [bne, Bool.beq_comm] using apart

/-- An entry that comes and goes leaves the others as they were. -/
theorem filter_setEntry_absent (free : entries.lookup name = none) :
    (setEntry name node entries).filter (·.1 != name) = entries := by
  rw [setEntry_absent free, List.filter_append, filter_absent free]
  simp

end Entries

section Places

variable {top node new : Node} {place : Place} {name : Bytes} {entries : List (Bytes × Node)}

theorem put_cons_dir (name : Bytes) (place : Place) (entries : List (Bytes × Node)) :
    put new (name :: place) (.dir entries) =
      .dir (setEntry name (put new place ((entries.lookup name).getD (.dir []))) entries) := rfl

theorem get?_cons_some (found : top.get? (name :: place) = some node) :
    ∃ entries child, top = .dir entries ∧ entries.lookup name = some child ∧
      child.get? place = some node := by
  cases top with
  | file data => cases found
  | link target => cases found
  | dir entries =>
    rw [get?_cons_dir] at found
    obtain ⟨child, there, below⟩ := Option.bind_eq_some_iff.mp found
    exact ⟨entries, child, rfl, there, below⟩

theorem get?_put_self (found : top.get? place = some node) (new : Node) :
    (put new place top).get? place = some new := by
  induction place generalizing top with
  | nil => simp [put]
  | cons name place ih =>
    obtain ⟨entries, child, rfl, there, below⟩ := get?_cons_some found
    rw [put_cons_dir, get?_cons_dir, lookup_setEntry_self, there]
    exact ih below

theorem put_same (found : top.get? place = some node) : put node place top = top := by
  induction place generalizing top with
  | nil =>
    rw [get?_nil] at found
    cases found
    simp [put]
  | cons name place ih =>
    obtain ⟨entries, child, rfl, there, below⟩ := get?_cons_some found
    rw [put_cons_dir, there, Option.getD_some, ih below, setEntry_same there]

theorem put_put (top : Node) (place : Place) (old new : Node) :
    put new place (put old place top) = put new place top := by
  induction place generalizing top with
  | nil => simp [put]
  | cons name place ih =>
    cases top with
    | file data => rfl
    | link target => rfl
    | dir entries =>
      rw [put_cons_dir, put_cons_dir, put_cons_dir, lookup_setEntry_self, Option.getD_some, ih,
        setEntry_setEntry]

theorem put_append (below : Place) (found : top.get? place = some node) :
    put new (place ++ below) top = put (put new below node) place top := by
  induction place generalizing top with
  | nil =>
    rw [get?_nil] at found
    cases found
    simp [put]
  | cons name place ih =>
    obtain ⟨entries, child, rfl, there, inner⟩ := get?_cons_some found
    rw [List.cons_append, put_cons_dir, put_cons_dir, there, Option.getD_some, ih inner]

theorem erase_append (found : top.get? place = some (.dir entries)) :
    erase (place ++ [name]) top = put (.dir (entries.filter (·.1 != name))) place top := by
  induction place generalizing top with
  | nil =>
    rw [get?_nil] at found
    cases found
    rfl
  | cons first place ih =>
    obtain ⟨entries, child, rfl, there, inner⟩ := get?_cons_some found
    have longer : place ++ [name] ≠ [] := by simp
    rw [List.cons_append, erase, there, put_cons_dir, there]
    · simp only [Option.getD_some, ih inner]
    · exact longer

end Places

section Directory

variable {top : Node} {dir : Place} {entries : List (Bytes × Node)} {name : Bytes}

theorem get?_child (found : top.get? dir = some (.dir entries)) :
    top.get? (dir ++ [name]) = entries.lookup name := by
  rw [get?_append, found, Option.bind_some, get?_cons_dir]
  cases entries.lookup name <;> simp

theorem put_child (found : top.get? dir = some (.dir entries)) (new : Node) :
    put new (dir ++ [name]) top = put (.dir (setEntry name new entries)) dir top := by
  rw [put_append [name] found]
  rfl

end Directory

/-- What a node is, apart from what it holds. -/
inductive Kind where
  | file
  | dir
  | link (target : Path)

def kind : Node → Kind
  | file _ => .file
  | dir _ => .dir
  | link target => .link target

def kindAt (top : Node) (place : Place) : Option Kind := (top.get? place).map kind

/-- Whatever the tree `top` has, `wide` has too, of the same kind and at the same place. -/
def Extends (top wide : Node) : Prop :=
  ∀ place kind, top.kindAt place = some kind → wide.kindAt place = some kind

theorem kindAt_dir {top : Node} {place : Place} (held : top.kindAt place = some .dir) :
    ∃ entries, top.get? place = some (.dir entries) := by
  obtain ⟨node, found, kind⟩ := Option.map_eq_some_iff.mp held
  cases node with
  | dir entries => exact ⟨entries, found⟩
  | file data => cases kind
  | link target => cases kind

/-- A directory that gains entries makes the tree larger. -/
theorem extends_put_dir {top : Node} {dir : Place} {entries more : List (Bytes × Node)}
    (found : top.get? dir = some (.dir entries))
    (kept : ∀ name child, entries.lookup name = some child → more.lookup name = some child) :
    top.Extends (put (.dir more) dir top) := by
  induction dir generalizing top with
  | nil =>
    rw [get?_nil] at found
    cases found
    intro place kind held
    cases place with
    | nil => exact held
    | cons name place =>
      obtain ⟨node, there, same⟩ := Option.map_eq_some_iff.mp held
      obtain ⟨child, child', below⟩ := Option.bind_eq_some_iff.mp there
      rw [kindAt, put, get?_cons_dir, kept name child child', Option.bind_some, below]
      exact congrArg some same
  | cons first dir ih =>
    obtain ⟨siblings, child, rfl, there, inner⟩ := get?_cons_some found
    intro place kind held
    cases place with
    | nil => exact held
    | cons name place =>
      rw [kindAt, put_cons_dir, get?_cons_dir, there, Option.getD_some]
      rw [kindAt, get?_cons_dir] at held
      by_cases same : name = first
      · subst same
        rw [lookup_setEntry_self]
        rw [there] at held
        exact ih inner place kind held
      · rw [lookup_setEntry_other same]
        exact held

end FormatLint.Node
