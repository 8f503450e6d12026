import FormatLint.Proofs.Batch.Placement
import FormatLint.Proofs.Path.Folding

/-!
Relative and absolute paths of one file. Where a file and the stem are written from one point, both
from the root or both from as many steps up, the file lies below the stem as written exactly if it
does as seen from any working directory. Otherwise the names of the working directory decide, which
the paths do not tell.
-/

namespace FormatLint

namespace Path

/-- How many steps up a normal form begins with. -/
def climb (p : Path) : Nat := p.normalize.components.count .up

/-- Two paths are written from one point: from the root, or from as many steps up. -/
def SameStart (a b : Path) : Prop := a.isAbsolute = b.isAbsolute ∧ a.climb = b.climb

instance (a b : Path) : Decidable (SameStart a b) := inferInstanceAs (Decidable (_ ∧ _))

/-- What two paths written from one point fold to, and what they come to from a working
    directory. -/
structure Grounded (cwd a b : Path) (lead : List Component) (base left right : List Bytes) :
    Prop where
  baseNames : ∀ n ∈ base, IsName n
  leftNames : ∀ n ∈ left, IsName n
  rightNames : ∀ n ∈ right, IsName n
  left_folds : a.normalComponents = lead ++ left.map .name
  right_folds : b.normalComponents = lead ++ right.map .name
  left_seen : (cwd.join a).normalize = rooted (base ++ left)
  right_seen : (cwd.join b).normalize = rooted (base ++ right)

section

variable {cwd a b p : Path} {stack lead rest : List Component} {base left right names : List Bytes}

theorem climb_eq (p : Path) : p.climb = p.normalComponents.count .up := by
  rw [climb, components_normalize]
  split
  · rename_i nothing
    rw [nothing]
    rfl
  · rfl

theorem climb_of_ups {count : Nat}
    (folds : p.normalComponents = List.replicate count .up ++ names.map .name) : p.climb = count := by
  have none : Component.up ∉ names.map Component.name := by simp
  rw [climb_eq, folds, List.count_append, List.count_replicate_self, List.count_eq_zero_of_not_mem none,
    Nat.add_zero]

/-- Steps up lead from the root and names to the root and fewer names. -/
theorem Stacked.ups (stacked : Stacked stack) (count : Nat) :
    Stacked ((List.replicate count .up).foldl Path.fold stack) := by
  induction count generalizing stack with
  | zero => exact stacked
  | succ count ih =>
    rw [List.replicate_succ, List.foldl_cons]
    exact ih (stacked.fold (.inl rfl))

/-- Steps up lead from a working directory to one place, whatever names come after them. -/
theorem normalize_join_ups (anchored : cwd.isAbsolute = true) (count : Nat) :
    ∃ base, (∀ n ∈ base, IsName n) ∧ ∀ p names, p.isAbsolute = false → (∀ n ∈ names, IsName n) →
      p.normalComponents = List.replicate count .up ++ names.map .name →
        (cwd.join p).normalize = rooted (base ++ names) := by
  obtain ⟨names, proper, folded⟩ := normalComponents_absolute anchored
  have start : Stacked cwd.normalComponents.reverse := by
    rw [folded]
    exact ⟨names.reverse, fun n member => proper n (List.mem_reverse.mp member), by simp⟩
  obtain ⟨base, properBase, reached⟩ := start.ups count
  have properUp : ∀ n ∈ base.reverse, IsName n := fun n member =>
    properBase n (List.mem_reverse.mp member)
  refine ⟨base.reverse, properUp, ?_⟩
  intro p names relative below folds
  have all : ∀ n ∈ base.reverse ++ names, IsName n := List.forall_mem_append.mpr ⟨properUp, below⟩
  refine normalize_of_rooted all ?_
  rw [normalComponents_join relative, folds, List.foldl_append, reached, foldl_fold_names]
  simp

theorem SameStart.grounded (anchored : cwd.isAbsolute = true) (same : a.SameStart b) :
    ∃ lead base left right, Grounded cwd a b lead base left right := by
  by_cases absolute : a.isAbsolute = true
  · have absolute' : b.isAbsolute = true := same.1 ▸ absolute
    obtain ⟨left, properLeft, folds⟩ := normalComponents_absolute absolute
    obtain ⟨right, properRight, folds'⟩ := normalComponents_absolute absolute'
    refine ⟨[.root], [], left, right, by simp, properLeft, properRight, folds, folds', ?_, ?_⟩
    · rw [join, if_pos absolute]
      exact normalize_of_rooted properLeft folds
    · rw [join, if_pos absolute']
      exact normalize_of_rooted properRight folds'
  · have relative : a.isAbsolute = false := by simpa using absolute
    have relative' : b.isAbsolute = false := same.1 ▸ relative
    obtain ⟨count, left, properLeft, folds⟩ := normalComponents_relative relative
    obtain ⟨count', right, properRight, folds'⟩ := normalComponents_relative relative'
    have counts : count = count' := by
      rw [← climb_of_ups folds, ← climb_of_ups folds', same.2]
    subst counts
    obtain ⟨base, properBase, seen⟩ := normalize_join_ups anchored count
    exact ⟨_, base, left, right, properBase, properLeft, properRight, folds, folds',
      seen a left relative properLeft folds, seen b right relative' properRight folds'⟩

/-- What is left after another path of the same start are names. -/
theorem Grounded.rest_eq (grounded : Grounded cwd a b lead base left right)
    (split : a.normalize.components = b.normalize.components ++ rest) :
    ∃ names, left = right ++ names ∧ rest = names.map .name := by
  have noHere := here_notMem_normalComponents
  rw [components_normalize, components_normalize] at split
  -- the normal form `.` is not written from what the path folds to, and it begins no other one
  by_cases nothing : b.normalComponents = []
  · rw [if_pos nothing] at split
    have bare := grounded.right_folds
    rw [nothing, eq_comm, List.append_eq_nil_iff, List.map_eq_nil_iff] at bare
    by_cases nothing' : a.normalComponents = []
    · have bare' := grounded.left_folds
      rw [nothing', eq_comm, List.append_eq_nil_iff, List.map_eq_nil_iff] at bare'
      rw [if_pos nothing'] at split
      exact ⟨[], by rw [bare.2, bare'.2]; rfl, by simpa using split⟩
    · rw [if_neg nothing'] at split
      exact absurd (split ▸ List.mem_cons_self) (noHere a)
  · rw [if_neg nothing] at split
    by_cases nothing' : a.normalComponents = []
    · obtain ⟨first, others, shape⟩ := List.exists_cons_of_ne_nil nothing
      rw [if_pos nothing', shape, List.cons_append, List.cons.injEq] at split
      exact absurd (shape ▸ split.1 ▸ List.mem_cons_self) (noHere b)
    · rw [if_neg nothing', grounded.left_folds, grounded.right_folds, List.append_assoc,
        List.append_cancel_left_eq] at split
      obtain ⟨front, names, rfl, sameFront, rfl⟩ := List.map_eq_append_iff.mp split
      obtain rfl : front = right := map_name_injective sameFront
      exact ⟨names, rfl, rfl⟩

theorem Grounded.split_of_names (grounded : Grounded cwd a b lead base left right)
    (more : left = right ++ names) (here : b.normalComponents = [] → a.normalComponents = []) :
    a.normalize.components = b.normalize.components ++ names.map .name := by
  have folds : a.normalComponents = b.normalComponents ++ names.map .name := by
    rw [grounded.left_folds, grounded.right_folds, more, List.map_append, List.append_assoc]
  rw [components_normalize, components_normalize]
  by_cases nothing : b.normalComponents = []
  · rw [here nothing, nothing, List.nil_append] at folds
    rw [if_pos nothing, if_pos (here nothing), ← folds, List.append_nil]
  · have some : a.normalComponents ≠ [] := by simp [folds, nothing]
    rw [if_neg nothing, if_neg some, folds]

/-- A path that begins with another one and does not climb further starts where that does. -/
theorem sameStart_of_split (split : a.normalize.components = b.normalize.components ++ rest)
    (level : a.climb ≤ b.climb) : a.SameStart b := by
  obtain ⟨-, -, -, -, filled⟩ := b.normalize_form
  have first : a.normalize.components.head? = b.normalize.components.head? := by
    rw [split, List.head?_append_of_ne_nil _ (components_ne_nil filled)]
  have root : a.isAbsolute = true ↔ b.isAbsolute = true := by
    rw [← isAbsolute_normalize a, ← isAbsolute_normalize b, isAbsolute_iff_head, isAbsolute_iff_head,
      first]
  refine ⟨Bool.eq_iff_iff.mpr root, Nat.le_antisymm level ?_⟩
  rw [climb, climb, split, List.count_append]
  omega

end

end Path

namespace Batch

variable {cwd file stem output target : Path}

theorem grounded_reroot {lead : List Component} {base files stems : List Bytes}
    (grounded : Path.Grounded cwd file stem lead base files stems) :
    reroot (cwd.join file) (cwd.join stem) output = .ok target ↔
      ∃ names, files = stems ++ names ∧ target = output.normalize.join ⟨Path.unsplit names⟩ := by
  have all {more : List Bytes} (proper : ∀ n ∈ more, Path.IsName n) :
      ∀ n ∈ base ++ more, Path.IsName n :=
    List.forall_mem_append.mpr ⟨grounded.baseNames, proper⟩
  rw [reroot_eq_ok (all grounded.leftNames) (all grounded.rightNames) grounded.left_seen
    grounded.right_seen]
  simp only [List.append_assoc, List.append_cancel_left_eq]

/-- A place below an output directory, seen from a working directory. -/
theorem join_place (anchored : cwd.isAbsolute = true) (output : Path) {names : List Bytes}
    (below : ∀ n ∈ names, Path.IsName n) :
    (cwd.join (output.normalize.join ⟨Path.unsplit names⟩)).normalize.components =
      ((cwd.join output).normalize.join ⟨Path.unsplit names⟩).components := by
  have relative : (⟨Path.unsplit names⟩ : Path).isAbsolute = false :=
    Path.unsplit_isAbsolute fun n member => (below n member).isPart
  obtain ⟨-, -, -, -, filled⟩ := output.normalize_form
  obtain ⟨outs, proper, seen⟩ := Path.normalize_absolute (Path.join_isAbsolute anchored output)
  have seen' : (cwd.join output.normalize).normalize = Path.rooted outs := by
    rw [← seen, Path.normalize_join, Path.normalize_normalize, ← Path.normalize_join]
  have all : ∀ n ∈ outs ++ names, Path.IsName n := List.forall_mem_append.mpr ⟨proper, below⟩
  rw [Path.join_join filled relative, Path.normalize_join_names proper below seen',
    Path.components_rooted all, seen, Path.components_rooted_join proper below]

/-- A file that has a place as written has the same place when it is seen from a working directory,
    unless it climbs out of a stem of nothing but steps up. A file and a stem that are written from
    one point have a place as written if they have one from the working directory, unless the stem
    is `.`, which no other normal form starts with. -/
theorem reroot_from_cwd (cwd file stem output : Path) (anchored : cwd.isAbsolute = true) :
    (∀ target, reroot file stem output = .ok target → file.climb ≤ stem.climb →
      ∃ place, reroot (cwd.join file) (cwd.join stem) (cwd.join output) = .ok place ∧
        (cwd.join target).normalize.components = place.components) ∧
    (file.SameStart stem → (stem.normalize = Path.ofString "." → file.normalize = Path.ofString ".") →
      ∀ place, reroot (cwd.join file) (cwd.join stem) (cwd.join output) = .ok place →
        ∃ target, reroot file stem output = .ok target) := by
  constructor
  · intro target placed level
    obtain ⟨rest, split, rfl⟩ := reroot_iff.mp placed
    obtain ⟨lead, base, files, stems, grounded⟩ :=
      (Path.sameStart_of_split split level).grounded anchored
    obtain ⟨names, rfl, rfl⟩ := grounded.rest_eq split
    have below : ∀ n ∈ names, Path.IsName n := fun n member =>
      grounded.leftNames n (List.mem_append_right _ member)
    rw [Path.ofComponents_names below]
    refine ⟨_, ?_, join_place anchored output below⟩
    exact (grounded_reroot grounded).mpr ⟨names, rfl, rfl⟩
  · intro same here place placed
    obtain ⟨lead, base, files, stems, grounded⟩ := same.grounded anchored
    obtain ⟨names, more, -⟩ := (grounded_reroot grounded).mp placed
    refine ⟨_, reroot_iff.mpr ⟨names.map .name, grounded.split_of_names more ?_, rfl⟩⟩
    intro nothing
    exact (Path.normalize_eq_here_iff file).mp (here ((Path.normalize_eq_here_iff stem).mpr nothing))

/-- From `/w`, the file `../a/b` below the stem `../a/.` has the place `/o/b`, as it has as written. -/
theorem reroot_from_cwd_sample :
    let cwd := Path.ofString "/w"
    let file := Path.ofString "../a/b"
    let stem := Path.ofString "../a/."
    let output := Path.ofString "../o"
    (∃ place, reroot (cwd.join file) (cwd.join stem) (cwd.join output) = .ok place ∧
      (cwd.join (Path.ofString "../o/b")).normalize.components = place.components) ∧
    ∃ target, reroot file stem output = .ok target := by
  intro cwd file stem output
  obtain ⟨seen, written⟩ := reroot_from_cwd cwd file stem output (by decide)
  have placed : reroot file stem output = .ok (Path.ofString "../o/b") := by decide
  obtain ⟨place, found, same⟩ := seen _ placed (by decide)
  exact ⟨⟨place, found, same⟩, written (by decide) (by decide) place found⟩

/-- Whether the file `a` lies below the stem `/c`, and which place it has below the stem `..`, depends
    on the working directory; as written, it has no place for either stem. Nor has it one for the
    stem `.`, while `../../a` has one for the stem `..` as written only. -/
theorem reroot_depends_on_cwd :
    let written (file stem : String) :=
      reroot (Path.ofString file) (Path.ofString stem) (Path.ofString "/o")
    let seen (cwd file stem : String) := reroot ((Path.ofString cwd).join (Path.ofString file))
      ((Path.ofString cwd).join (Path.ofString stem)) ((Path.ofString cwd).join (Path.ofString "/o"))
    (written "a" "/c").isOk = false ∧
    seen "/c" "a" "/c" = .ok (Path.ofString "/o/a") ∧ (seen "/d" "a" "/c").isOk = false ∧
    (written "a" "..").isOk = false ∧
    seen "/c" "a" ".." = .ok (Path.ofString "/o/c/a") ∧
    seen "/d" "a" ".." = .ok (Path.ofString "/o/d/a") ∧
    (written "a" ".").isOk = false ∧ seen "/c" "a" "." = .ok (Path.ofString "/o/a") ∧
    (written "../../a" "..").isOk = true ∧ (seen "/c/d" "../../a" "..").isOk = false := by
  decide

end Batch

end FormatLint
