import FormatLint.FileSystem.Basic

/-!
Trees and the nodes in them: induction over a tree, what it means that its names are in order, and
how a lookup goes down one directory.
-/

namespace FormatLint.Node

mutual

@[elab_as_elim]
theorem tree_induction {motive : Node → Prop} (onFile : ∀ data, motive (.file data))
    (onDir : ∀ entries, (∀ e ∈ entries, motive e.2) → motive (.dir entries))
    (onLink : ∀ target, motive (.link target)) : (node : Node) → motive node
  | .file data => onFile data
  | .dir entries => onDir entries (entries_induction onFile onDir onLink entries)
  | .link target => onLink target

theorem entries_induction {motive : Node → Prop} (onFile : ∀ data, motive (.file data))
    (onDir : ∀ entries, (∀ e ∈ entries, motive e.2) → motive (.dir entries))
    (onLink : ∀ target, motive (.link target)) :
    (entries : List (Bytes × Node)) → ∀ e ∈ entries, motive e.2
  | [] => by simp
  | (name, node) :: rest => by
    intro e member
    rcases List.mem_cons.mp member with rfl | member
    · exact tree_induction onFile onDir onLink node
    · exact entries_induction onFile onDir onLink rest e member

end

@[simp] theorem get?_nil (node : Node) : node.get? [] = some node := by
  cases node <;> rfl

theorem get?_cons_dir (name : Bytes) (place : Place) (entries : List (Bytes × Node)) :
    get? (name :: place) (.dir entries) = (entries.lookup name).bind (get? place) := rfl

theorem get?_append (node : Node) (place below : Place) :
    node.get? (place ++ below) = (node.get? place).bind (get? below) := by
  induction place generalizing node with
  | nil => simp
  | cons name place ih =>
    cases node with
    | file data => rfl
    | link target => rfl
    | dir entries =>
      rw [List.cons_append, get?_cons_dir, get?_cons_dir]
      cases entries.lookup name with
      | none => rfl
      | some child => exact ih child

theorem mem_of_lookup {entries : List (Bytes × Node)} {name : Bytes} {node : Node}
    (found : entries.lookup name = some node) : (name, node) ∈ entries := by
  induction entries with
  | nil => simp at found
  | cons e entries ih =>
    rw [List.lookup_cons] at found
    split at found
    · rename_i same
      obtain rfl : name = e.1 := by simpa using same
      obtain rfl : e.2 = node := by simpa using found
      exact List.mem_cons_self
    · exact List.mem_cons_of_mem _ (ih found)

theorem lookup_of_mem {entries : List (Bytes × Node)} (distinct : (entries.map (·.1)).Nodup)
    {e : Bytes × Node} (member : e ∈ entries) : entries.lookup e.1 = some e.2 := by
  induction entries with
  | nil => simp at member
  | cons first entries ih =>
    rw [List.map_cons, List.nodup_cons] at distinct
    rw [List.lookup_cons]
    rcases List.mem_cons.mp member with rfl | member
    · simp
    · have apart : e.1 ≠ first.1 := by
        intro same
        exact distinct.1 (same ▸ List.mem_map_of_mem member)
      simp [beq_false_of_ne apart, ih distinct.2 member]

theorem noLinks_dir {entries : List (Bytes × Node)}
    (below : ∀ e ∈ entries, ∀ place target, e.2.get? place ≠ some (.link target)) (place : Place)
    (target : Path) : (dir entries).get? place ≠ some (.link target) := by
  intro found
  cases place with
  | nil => cases found
  | cons name place =>
    obtain ⟨child, there, inside⟩ := Option.bind_eq_some_iff.mp found
    exact below _ (mem_of_lookup there) place target inside

theorem noLinks_file (data : FileData) (place : Place) (target : Path) :
    (file data).get? place ≠ some (.link target) := by
  cases place <;> rintro ⟨⟩

/-- All names on the ways down from a node satisfy `p`. -/
def EveryName (p : Bytes → Prop) (top : Node) : Prop :=
  ∀ place node, top.get? place = some node → ∀ name ∈ place, p name

theorem EveryName.file (p : Bytes → Prop) (data : FileData) : EveryName p (.file data) := by
  intro place node found
  cases place with
  | nil => simp
  | cons name place => cases found

theorem EveryName.link (p : Bytes → Prop) (target : Path) : EveryName p (.link target) := by
  intro place node found
  cases place with
  | nil => simp
  | cons name place => cases found

theorem EveryName.dir {p : Bytes → Prop} {entries : List (Bytes × Node)}
    (here : ∀ e ∈ entries, p e.1 ∧ EveryName p e.2) : EveryName p (.dir entries) := by
  intro place node found
  cases place with
  | nil => simp
  | cons name place =>
    rw [get?_cons_dir] at found
    obtain ⟨child, there, below⟩ := Option.bind_eq_some_iff.mp found
    obtain ⟨holds, inner⟩ := here _ (mem_of_lookup there)
    intro other inside
    rcases List.mem_cons.mp inside with rfl | inside
    · exact holds
    · exact inner place node below other inside

/-- Every directory of the tree has distinct names, and each of them can be a name: it is not
    empty and holds no slash. -/
structure WellNamed (top : Node) : Prop where
  distinct : ∀ place entries, top.get? place = some (.dir entries) → (entries.map (·.1)).Nodup
  proper : top.EveryName fun name => name ≠ [] ∧ Path.slash ∉ name

namespace WellNamed

theorem file (data : FileData) : WellNamed (.file data) := by
  refine ⟨?_, .file _ data⟩
  intro place entries found
  cases place <;> cases found

theorem link (target : Path) : WellNamed (.link target) := by
  refine ⟨?_, .link _ target⟩
  intro place entries found
  cases place <;> cases found

theorem dir {entries : List (Bytes × Node)} (distinct : (entries.map (·.1)).Nodup)
    (here : ∀ e ∈ entries, (e.1 ≠ [] ∧ Path.slash ∉ e.1) ∧ WellNamed e.2) :
    WellNamed (.dir entries) := by
  refine ⟨?_, .dir fun e member => ⟨(here e member).1, (here e member).2.proper⟩⟩
  intro place inner found
  cases place with
  | nil =>
    cases found
    exact distinct
  | cons name place =>
    rw [get?_cons_dir] at found
    obtain ⟨child, there, below⟩ := Option.bind_eq_some_iff.mp found
    exact (here _ (mem_of_lookup there)).2.distinct place inner below

theorem entries_distinct {entries : List (Bytes × Node)} (named : WellNamed (.dir entries)) :
    (entries.map (·.1)).Nodup := named.distinct [] entries rfl

theorem child {entries : List (Bytes × Node)} (named : WellNamed (.dir entries))
    {e : Bytes × Node} (member : e ∈ entries) : WellNamed e.2 := by
  have found := lookup_of_mem named.entries_distinct member
  have down (place : Place) : get? (e.1 :: place) (.dir entries) = get? place e.2 := by
    rw [get?_cons_dir, found, Option.bind_some]
  refine ⟨?_, ?_⟩
  · intro place inner there
    exact named.distinct (e.1 :: place) inner (by rw [down, there])
  · intro place node there name inside
    exact named.proper (e.1 :: place) node (by rw [down, there]) name (List.mem_cons_of_mem _ inside)

end WellNamed

end FormatLint.Node
