import FormatLint.FileSystem.Resolve
import FormatLint.Proofs.FileSystem.Update

/-!
Trees that differ only in what their files hold. `mapFiles` changes the data of every file by a
function of its place; to put a file in the place of another is such a change.
-/

namespace FormatLint.Node

mutual

/-- The tree with the data of each file changed. -/
def mapFiles (f : Place → FileData → FileData) : Node → Node
  | file data => file (f [] data)
  | dir entries => dir (mapEntries f entries)
  | link target => link target

def mapEntries (f : Place → FileData → FileData) : List (Bytes × Node) → List (Bytes × Node)
  | [] => []
  | (name, node) :: rest => (name, mapFiles (fun place => f (name :: place)) node) :: mapEntries f rest

end

section

variable {f : Place → FileData → FileData}

theorem lookup_mapEntries (entries : List (Bytes × Node)) (name : Bytes) :
    (mapEntries f entries).lookup name =
      (entries.lookup name).map (mapFiles fun place => f (name :: place)) := by
  induction entries with
  | nil => rfl
  | cons e entries ih =>
    rw [mapEntries, List.lookup_cons, List.lookup_cons]
    by_cases same : name = e.1
    · simp [same]
    · rw [beq_false_of_ne same]
      exact ih

theorem get?_mapFiles (top : Node) (place : Place) :
    (top.mapFiles f).get? place =
      (top.get? place).map (mapFiles fun below => f (place ++ below)) := by
  induction place generalizing f top with
  | nil => simp
  | cons name place ih =>
    cases top with
    | file data => rfl
    | link target => rfl
    | dir entries =>
      rw [mapFiles, get?_cons_dir, get?_cons_dir, lookup_mapEntries]
      cases entries.lookup name with
      | none => rfl
      | some child => exact ih child

theorem kind_mapFiles (node : Node) : (node.mapFiles f).kind = node.kind := by
  cases node <;> rfl

theorem kindAt_mapFiles (top : Node) (place : Place) :
    (top.mapFiles f).kindAt place = top.kindAt place := by
  rw [kindAt, kindAt, get?_mapFiles, Option.map_map]
  congr 1
  funext node
  exact kind_mapFiles node

theorem mapFiles_same (top : Node) : top.mapFiles (fun _ data => data) = top := by
  induction top using tree_induction with
  | onFile data => rfl
  | onLink target => rfl
  | onDir entries ih =>
    rw [mapFiles]
    congr 1
    induction entries with
    | nil => rfl
    | cons e entries rest =>
      rw [mapEntries, ih e List.mem_cons_self,
        rest fun other member => ih other (List.mem_cons_of_mem _ member)]

theorem mapEntries_congr {g : Place → FileData → FileData} {entries : List (Bytes × Node)}
    (agree : ∀ e ∈ entries, ∀ place, f (e.1 :: place) = g (e.1 :: place)) :
    mapEntries f entries = mapEntries g entries := by
  induction entries with
  | nil => rfl
  | cons e entries ih =>
    rw [mapEntries, mapEntries, funext (agree e List.mem_cons_self),
      ih fun other member => agree other (List.mem_cons_of_mem _ member)]

/-- Only the entry with the name changes when no other has it. -/
theorem setEntry_mapEntries {entries : List (Bytes × Node)} {name : Bytes} {child new : Node}
    {g : Place → FileData → FileData} (distinct : (entries.map (·.1)).Nodup)
    (found : entries.lookup name = some child)
    (here : child.mapFiles (fun place => g (name :: place)) = new)
    (elsewhere : ∀ other, other ≠ name → ∀ place, g (other :: place) = f (other :: place)) :
    setEntry name new (mapEntries f entries) = mapEntries g entries := by
  induction entries with
  | nil => cases found
  | cons e entries ih =>
    rw [List.map_cons, List.nodup_cons] at distinct
    rw [List.lookup_cons] at found
    rw [mapEntries, mapEntries, setEntry]
    by_cases same : e.1 = name
    · subst same
      obtain rfl : e.2 = child := by simpa using found
      rw [if_pos rfl, here]
      congr 1
      -- the other entries have other names, so that nothing changes in them
      apply mapEntries_congr
      intro other member place
      have apart : other.1 ≠ e.1 := by
        intro equal
        exact distinct.1 (equal ▸ List.mem_map_of_mem member)
      exact (elsewhere other.1 apart place).symm
    · rw [beq_false_of_ne (Ne.symm same)] at found
      rw [if_neg same, funext (elsewhere e.1 same), ih distinct.2 found]

/-- To put a file in the place of another changes the data at that place. -/
theorem put_mapFiles {top : Node} (named : top.WellNamed) {place : Place} {data new : FileData}
    {g : Place → FileData → FileData} (found : top.get? place = some (.file data))
    (here : g place data = new) (elsewhere : ∀ other, other ≠ place → g other = f other) :
    put (.file new) place (top.mapFiles f) = top.mapFiles g := by
  induction place generalizing f g top with
  | nil =>
    rw [get?_nil] at found
    cases found
    simp [put, mapFiles, here]
  | cons name place ih =>
    obtain ⟨entries, child, rfl, there, below⟩ := get?_cons_some found
    have inner := ih (f := fun below => f (name :: below)) (g := fun below => g (name :: below))
      (named.child (mem_of_lookup there)) below here fun other apart =>
        elsewhere (name :: other) (by simpa using apart)
    rw [mapFiles, put_cons_dir, lookup_mapEntries, there, Option.map_some, Option.getD_some, inner,
      mapFiles]
    congr 1
    refine setEntry_mapEntries named.entries_distinct there rfl ?_
    intro other apart below
    exact elsewhere (other :: below) (by simp [apart])

end

end FormatLint.Node
