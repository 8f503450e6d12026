import FormatLint.FileSystem.Listing
import FormatLint.Proofs.FileSystem.Tree
import Mathlib.Data.List.Basic

/-!
What a listing holds and in which order. Pruning is a filter on the full listing
(`contents_eq_filter`), the full listing holds every node below its start (`mem_contents`), and
listings follow the files-first depth-first order `Precedes` (`contents_pairwise`).
-/

namespace FormatLint.Node

section ByteOrder

theorem bytesLe_total (a b : Bytes) : (bytesLe a b || bytesLe b a) = true := by
  induction a generalizing b with
  | nil => simp [bytesLe]
  | cons x xs ih =>
    cases b with
    | nil => simp [bytesLe]
    | cons y ys =>
      have below := ih ys
      have order : x < y ∨ x = y ∨ y < x := by grind
      rcases order with less | rfl | more
      · simp [bytesLe, less]
      · simpa [bytesLe] using below
      · simp [bytesLe, more]

theorem bytesLe_trans {a b c : Bytes} (first : bytesLe a b = true) (second : bytesLe b c = true) :
    bytesLe a c = true := by
  induction a generalizing b c with
  | nil => simp [bytesLe]
  | cons x xs ih =>
    cases b with
    | nil => simp [bytesLe] at first
    | cons y ys =>
      cases c with
      | nil => simp [bytesLe] at second
      | cons z zs =>
        simp only [bytesLe, Bool.or_eq_true, decide_eq_true_eq, Bool.and_eq_true,
          beq_iff_eq] at first second ⊢
        rcases first with less | ⟨rfl, below⟩
        · rcases second with less' | ⟨rfl, -⟩
          · exact Or.inl (by grind)
          · exact Or.inl less
        · rcases second with less' | ⟨rfl, below'⟩
          · exact Or.inl less'
          · exact Or.inr ⟨rfl, ih below below'⟩

theorem lt_of_bytesLe {a b : Bytes} (le : bytesLe a b = true) (apart : a ≠ b) : a < b := by
  induction a generalizing b with
  | nil =>
    cases b with
    | nil => exact absurd rfl apart
    | cons y ys => exact List.nil_lt_cons y ys
  | cons x xs ih =>
    cases b with
    | nil => simp [bytesLe] at le
    | cons y ys =>
      simp only [bytesLe, Bool.or_eq_true, decide_eq_true_eq, Bool.and_eq_true, beq_iff_eq] at le
      rcases le with less | ⟨rfl, below⟩
      · exact List.cons_lt_cons_iff.mpr (Or.inl less)
      · exact List.cons_lt_cons_iff.mpr (Or.inr ⟨rfl, ih below (by simpa using apart)⟩)

end ByteOrder

/-- The order of the entries of a directory. -/
def entryLe (a b : Bytes × Node) : Bool :=
  if a.2.isDir == b.2.isDir then bytesLe a.1 b.1 else !a.2.isDir

theorem entryLe_total (a b : Bytes × Node) : (entryLe a b || entryLe b a) = true := by
  have names := bytesLe_total a.1 b.1
  unfold entryLe
  generalize a.2.isDir = aDir, b.2.isDir = bDir
  cases aDir <;> cases bDir <;> simp_all

theorem entryLe_trans (a b c : Bytes × Node) (first : entryLe a b = true)
    (second : entryLe b c = true) : entryLe a c = true := by
  have names : bytesLe a.1 b.1 = true → bytesLe b.1 c.1 = true → bytesLe a.1 c.1 = true :=
    bytesLe_trans
  unfold entryLe at *
  generalize a.2.isDir = aDir, b.2.isDir = bDir, c.2.isDir = cDir at *
  cases aDir <;> cases bDir <;> cases cDir <;> simp_all

/-- The entries of a directory in the order of the listing. -/
def sortedEntries (entries : List (Bytes × Node)) : List (Bytes × Node) :=
  entries.mergeSort entryLe

theorem mem_sortedEntries {entries : List (Bytes × Node)} {e : Bytes × Node} :
    e ∈ sortedEntries entries ↔ e ∈ entries := List.mem_mergeSort

theorem branches_eq_map (pruned : Place → Bool) (place : Place) (entries : List (Bytes × Node)) :
    branches pruned place entries =
      entries.map fun e => ⟨e.2.isDir, e.1, listing pruned (place ++ [e.1]) e.2⟩ := by
  induction entries with
  | nil => rfl
  | cons e entries ih => rw [branches, ih, List.map_cons]

/-- The listing of a directory's content, entry by entry. -/
theorem joinBranches_eq_flatMap (pruned : Place → Bool) (place : Place)
    (entries : List (Bytes × Node)) :
    joinBranches (branches pruned place entries) =
      (sortedEntries entries).flatMap fun e => listing pruned (place ++ [e.1]) e.2 := by
  have sorted := List.map_mergeSort (l := entries) (r := entryLe) (s := Branch.le)
    (f := fun e => ⟨e.2.isDir, e.1, listing pruned (place ++ [e.1]) e.2⟩) (fun _ _ _ _ => rfl)
  rw [branches_eq_map, joinBranches, ← sorted, List.flatMap_map, sortedEntries]

section Pruning

/-- Whether none of the directories from `place` down to `node`, which lies `below` it, is
    pruned. -/
def entered (pruned : Place → Bool) (node : Node) : Place → Place → Bool
  | place, [] => !(node.isDir && pruned place)
  | place, name :: below => !pruned place && entered pruned node (place ++ [name]) below

/-- Whether an item of a listing that starts at `place` is reached. -/
def reached (pruned : Place → Bool) (place : Place) (item : Listed) : Bool :=
  entered pruned item.node place (item.place.drop place.length)

theorem listing_dir (pruned : Place → Bool) (place : Place) (entries : List (Bytes × Node)) :
    listing pruned place (.dir entries) =
      if pruned place then []
      else ⟨place, .dir entries⟩ ::
        (sortedEntries entries).flatMap fun e => listing pruned (place ++ [e.1]) e.2 := by
  rw [listing, joinBranches_eq_flatMap]

theorem fullListing_dir (place : Place) (entries : List (Bytes × Node)) :
    listing (fun _ => false) place (.dir entries) =
      ⟨place, .dir entries⟩ ::
        (sortedEntries entries).flatMap fun e => listing (fun _ => false) (place ++ [e.1]) e.2 := by
  rw [listing_dir, if_neg (by simp)]

theorem listing_place (pruned : Place → Bool) (node : Node) (place : Place) :
    ∀ item ∈ listing pruned place node, place <+: item.place := by
  induction node using tree_induction generalizing place with
  | onFile data => simp [listing]
  | onLink target => simp [listing]
  | onDir entries ih =>
    intro item member
    rw [listing_dir] at member
    split at member
    · simp at member
    · rcases List.mem_cons.mp member with rfl | member
      · exact List.prefix_refl place
      · obtain ⟨e, inside, member⟩ := List.mem_flatMap.mp member
        have below := ih e (mem_sortedEntries.mp inside) (place ++ [e.1]) item member
        exact (List.prefix_append place [e.1]).trans below

/-- Pruning drops from a listing exactly what cannot be reached. -/
theorem listing_eq_filter (pruned : Place → Bool) (node : Node) (place : Place) :
    listing pruned place node =
      (listing (fun _ => false) place node).filter (reached pruned place) := by
  induction node using tree_induction generalizing place with
  | onFile data => simp [listing, reached, entered, isDir]
  | onLink target => simp [listing, reached, entered, isDir]
  | onDir entries ih =>
    rw [listing_dir, fullListing_dir]
    have self : reached pruned place ⟨place, .dir entries⟩ = !pruned place := by
      simp [reached, entered, isDir]
    have below : ∀ e ∈ entries, ∀ item ∈ listing (fun _ => false) (place ++ [e.1]) e.2,
        reached pruned place item = (!pruned place && reached pruned (place ++ [e.1]) item) := by
      intro e _ item member
      obtain ⟨rest, split⟩ := listing_place _ _ _ item member
      simp [reached, ← split, entered]
    by_cases skip : pruned place = true
    · rw [if_pos skip, List.filter_cons_of_neg (by simp [self, skip]), eq_comm,
        List.filter_eq_nil_iff]
      intro item member
      obtain ⟨e, inside, member⟩ := List.mem_flatMap.mp member
      simp [below e (mem_sortedEntries.mp inside) item member, skip]
    · rw [if_neg skip, List.filter_cons_of_pos (by simp [self, skip]), List.filter_flatMap]
      congr 1
      apply List.flatMap_congr
      intro e inside
      rw [ih e (mem_sortedEntries.mp inside)]
      apply List.filter_congr
      intro item member
      simp [below e (mem_sortedEntries.mp inside) item member, skip]

theorem exists_pruned {pruned : Place → Bool} {node : Node} {place below : Place}
    (unreached : entered pruned node place below = false) :
    ∃ front back, below = front ++ back ∧ pruned (place ++ front) = true ∧
      (back = [] → node.isDir = true) := by
  induction below generalizing place with
  | nil =>
    simp only [entered, Bool.not_eq_false', Bool.and_eq_true] at unreached
    exact ⟨[], [], rfl, by simpa using unreached.2, fun _ => unreached.1⟩
  | cons name below ih =>
    by_cases here : pruned place = true
    · exact ⟨[], name :: below, rfl, by simpa using here, by simp⟩
    · have deeper : entered pruned node (place ++ [name]) below = false := by
        simpa [entered, here] using unreached
      obtain ⟨front, back, split, skipped, last⟩ := ih deeper
      exact ⟨name :: front, back, by simp [split], by simpa using skipped, last⟩

/-- The listing below a node, which is entered itself whatever is pruned. -/
theorem contents_dir (pruned : Place → Bool) (entries : List (Bytes × Node)) :
    contents pruned (.dir entries) =
      (sortedEntries entries).flatMap fun e => listing pruned [e.1] e.2 := by
  rw [contents, joinBranches_eq_flatMap]
  rfl

theorem contents_eq_filter (pruned : Place → Bool) (node : Node) :
    node.contents pruned =
      (node.contents fun _ => false).filter fun item => reached pruned (item.place.take 1) item := by
  cases node with
  | file data => rfl
  | link target => rfl
  | dir entries =>
    rw [contents_dir, contents_dir, List.filter_flatMap]
    apply List.flatMap_congr
    intro e _
    rw [listing_eq_filter]
    apply List.filter_congr
    intro item member
    obtain ⟨rest, split⟩ := listing_place _ _ _ item member
    simp [← split]

end Pruning

theorem mem_listing {node : Node} (named : node.WellNamed) (place : Place) (item : Listed) :
    item ∈ listing (fun _ => false) place node ↔
      ∃ below, item.place = place ++ below ∧ node.get? below = some item.node := by
  induction node using tree_induction generalizing place with
  | onFile data =>
    constructor
    · intro member
      obtain rfl : item = ⟨place, .file data⟩ := by simpa [listing] using member
      exact ⟨[], by simp, rfl⟩
    · intro found
      obtain ⟨below, split, found⟩ := found
      cases below with
      | nil =>
        have self : item.node = .file data := by simpa using found.symm
        cases item
        simp_all [listing]
      | cons name below => cases found
  | onLink target =>
    constructor
    · intro member
      obtain rfl : item = ⟨place, .link target⟩ := by simpa [listing] using member
      exact ⟨[], by simp, rfl⟩
    · intro found
      obtain ⟨below, split, found⟩ := found
      cases below with
      | nil =>
        have self : item.node = .link target := by simpa using found.symm
        cases item
        simp_all [listing]
      | cons name below => cases found
  | onDir entries ih =>
    rw [fullListing_dir, List.mem_cons, List.mem_flatMap]
    constructor
    · intro either
      rcases either with rfl | ⟨e, inside, member⟩
      · exact ⟨[], by simp, rfl⟩
      · have inside := mem_sortedEntries.mp inside
        obtain ⟨below, split, found⟩ := (ih e inside (named.child inside) (place ++ [e.1])).mp member
        refine ⟨e.1 :: below, by simp [split], ?_⟩
        rw [get?_cons_dir, lookup_of_mem named.entries_distinct inside]
        exact found
    · intro found
      obtain ⟨below, split, found⟩ := found
      cases below with
      | nil =>
        have self : item.node = .dir entries := by simpa using found.symm
        cases item
        simp_all
      | cons name below =>
        rw [get?_cons_dir] at found
        obtain ⟨child, there, found⟩ := Option.bind_eq_some_iff.mp found
        have inside := mem_of_lookup there
        refine Or.inr ⟨(name, child), mem_sortedEntries.mpr inside, ?_⟩
        exact (ih _ inside (named.child inside) (place ++ [name])).mpr
          ⟨below, by simp [split], found⟩

/-- The full listing holds every node below its start. -/
theorem mem_contents {node : Node} (named : node.WellNamed) (item : Listed) :
    item ∈ node.contents (fun _ => false) ↔
      item.place ≠ [] ∧ node.get? item.place = some item.node := by
  cases node with
  | file data =>
    simp only [contents, List.not_mem_nil, false_iff, not_and]
    intro below found
    cases shape : item.place with
    | nil => exact below shape
    | cons name rest => simp [shape, get?] at found
  | link target =>
    simp only [contents, List.not_mem_nil, false_iff, not_and]
    intro below found
    cases shape : item.place with
    | nil => exact below shape
    | cons name rest => simp [shape, get?] at found
  | dir entries =>
    have all := mem_listing named [] item
    rw [fullListing_dir, List.mem_cons] at all
    rw [contents_dir]
    constructor
    · intro member
      obtain ⟨below, split, found⟩ := all.mp (Or.inr member)
      obtain ⟨e, -, listed⟩ := List.mem_flatMap.mp member
      obtain ⟨rest, shape⟩ := listing_place _ _ _ item listed
      refine ⟨by simp [← shape], ?_⟩
      rw [split]
      exact found
    · intro found
      obtain ⟨below, found⟩ := found
      rcases all.mpr ⟨item.place, by simp, found⟩ with rfl | member
      · exact absurd rfl below
      · exact member

/-- The files-first depth-first order: a directory before its content, and where two places part,
    an entry that is no directory before a directory and entries of one kind by name. -/
inductive Precedes : Node → Place → Place → Prop
  | parent (entries : List (Bytes × Node)) (name : Bytes) (below : Place) :
      Precedes (.dir entries) [] (name :: below)
  | apart {entries : List (Bytes × Node)} {a b : Bytes} {nodeA nodeB : Node}
      (findA : entries.lookup a = some nodeA) (findB : entries.lookup b = some nodeB)
      (order : nodeA.isDir = false ∧ nodeB.isDir = true ∨ nodeA.isDir = nodeB.isDir ∧ a < b)
      (belowA belowB : Place) : Precedes (.dir entries) (a :: belowA) (b :: belowB)
  | within {entries : List (Bytes × Node)} {name : Bytes} {node : Node}
      (find : entries.lookup name = some node) {belowA belowB : Place}
      (inner : Precedes node belowA belowB) :
      Precedes (.dir entries) (name :: belowA) (name :: belowB)

theorem Precedes.irrefl {node : Node} {place : Place} : ¬ Precedes node place place := by
  intro before
  induction place generalizing node with
  | nil => cases before
  | cons name place ih =>
    cases before with
    | apart findA findB order =>
      obtain rfl := Option.some.inj (findA.symm.trans findB)
      rcases order with ⟨file, dir⟩ | ⟨-, less⟩
      · simp [file] at dir
      · exact List.lt_irrefl name less
    | within find inner => exact ih inner

theorem sortedEntries_pairwise {entries : List (Bytes × Node)}
    (distinct : (entries.map (·.1)).Nodup) :
    (sortedEntries entries).Pairwise fun a b =>
      a.2.isDir = false ∧ b.2.isDir = true ∨ a.2.isDir = b.2.isDir ∧ a.1 < b.1 := by
  have ordered := List.pairwise_mergeSort entryLe_trans entryLe_total entries
  have apart : (sortedEntries entries).Pairwise fun a b => a.1 ≠ b.1 := by
    have same := ((List.mergeSort_perm entries entryLe).map (·.1)).nodup_iff.mpr distinct
    exact List.pairwise_map.mp same
  refine (ordered.and apart).imp ?_
  intro a b found
  obtain ⟨le, differ⟩ := found
  unfold entryLe at le
  by_cases same : a.2.isDir = b.2.isDir
  · exact Or.inr ⟨same, lt_of_bytesLe (by simpa [same] using le) differ⟩
  · refine Or.inl ?_
    cases aDir : a.2.isDir <;> cases bDir : b.2.isDir <;> simp_all

theorem listing_pairwise {node : Node} (named : node.WellNamed) (place : Place) :
    (listing (fun _ => false) place node).Pairwise fun x y =>
      ∃ belowX belowY, x.place = place ++ belowX ∧ y.place = place ++ belowY ∧
        Precedes node belowX belowY := by
  induction node using tree_induction generalizing place with
  | onFile data => simp [listing]
  | onLink target => simp [listing]
  | onDir entries ih =>
    have distinct := named.entries_distinct
    rw [fullListing_dir, List.pairwise_cons, List.pairwise_flatMap]
    refine ⟨?_, ?_, ?_⟩
    · intro item member
      obtain ⟨e, -, member⟩ := List.mem_flatMap.mp member
      obtain ⟨rest, split⟩ := listing_place _ _ _ item member
      exact ⟨[], e.1 :: rest, by simp, by simp [← split], .parent ..⟩
    · intro e inside
      have inside := mem_sortedEntries.mp inside
      refine (ih e inside (named.child inside) (place ++ [e.1])).imp ?_
      intro x y found
      obtain ⟨belowX, belowY, splitX, splitY, before⟩ := found
      exact ⟨e.1 :: belowX, e.1 :: belowY, by simp [splitX], by simp [splitY],
        .within (lookup_of_mem distinct inside) before⟩
    · refine (sortedEntries_pairwise distinct).imp_of_mem ?_
      intro a b insideA insideB order x memberX y memberY
      obtain ⟨restX, splitX⟩ := listing_place _ _ _ x memberX
      obtain ⟨restY, splitY⟩ := listing_place _ _ _ y memberY
      exact ⟨a.1 :: restX, b.1 :: restY, by simp [← splitX], by simp [← splitY],
        .apart (lookup_of_mem distinct (mem_sortedEntries.mp insideA))
          (lookup_of_mem distinct (mem_sortedEntries.mp insideB)) order restX restY⟩

/-- Listings are in files-first depth-first order. -/
theorem contents_pairwise {node : Node} (named : node.WellNamed) :
    (node.contents fun _ => false).Pairwise fun x y => Precedes node x.place y.place := by
  cases node with
  | file data => simp [contents]
  | link target => simp [contents]
  | dir entries =>
    have all := listing_pairwise named []
    rw [fullListing_dir, List.pairwise_cons] at all
    rw [contents_dir]
    refine all.2.imp ?_
    intro x y found
    obtain ⟨belowX, belowY, splitX, splitY, before⟩ := found
    rw [splitX, splitY]
    exact before

end FormatLint.Node
