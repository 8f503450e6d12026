import FormatLint.Proofs.FileSystem.Growth
import FormatLint.Proofs.Path.Folding

/-!
A path and the absolute path that is made of it. Both have the same parts but for empty ones and
dots, which stand for nothing in a directory, so that they lead to the same directory and a name
after either of them is looked up there (`exists_join_iff`).
-/

namespace FormatLint

namespace Path

variable {cwd p q : Path} {part : Bytes}

/-- Whether a part stands for a component. -/
def isSolid (part : Bytes) : Bool := (component? part).isSome

theorem isSolid_eq_false (hollow : isSolid part = false) : part = [] ∨ part = [dot] := by
  false_or_by_contra
  rename_i other
  rw [isSolid, component?, if_neg other] at hollow
  split at hollow <;> cases hollow

theorem componentBytes_of_component? {c : Component} (stands : component? part = some c) :
    componentBytes c = part := by
  rw [component?] at stands
  split at stands
  · cases stands
  · split at stands
    · rename_i up
      cases stands
      exact up.symm
    · cases stands
      rfl

/-- A part that stands for a component is the text of it. -/
theorem filter_isSolid (parts : List Bytes) :
    parts.filter isSolid = (parts.filterMap component?).map componentBytes := by
  induction parts with
  | nil => rfl
  | cons part parts ih =>
    cases stands : component? part with
    | none =>
      rw [List.filter_cons_of_neg (by simp [isSolid, stands]), List.filterMap_cons_none stands, ih]
    | some c =>
      rw [List.filter_cons_of_pos (by simp [isSolid, stands]), List.filterMap_cons_some stands,
        List.map_cons, componentBytes_of_component? stands, ih]

/-- Steps that come after each other are the components of the whole. -/
theorem filterMap_foldl_join {steps : List Component}
    (allowed : ∀ c ∈ steps, c = .up ∨ ∃ name, c = .name name ∧ IsName name) (start : Path) :
    (split (steps.foldl (fun q c => q.join ⟨componentBytes c⟩) start).bytes).filterMap component? =
      (split start.bytes).filterMap component? ++ steps := by
  induction steps generalizing start with
  | nil => simp
  | cons c steps ih =>
    rw [List.forall_mem_cons] at allowed
    have relative : (⟨componentBytes c⟩ : Path).isAbsolute = false := by
      rcases allowed.1 with rfl | ⟨name, rfl, isName⟩
      · rfl
      · exact isName.isPart.relative
    have single : (split (componentBytes c)).filterMap component? = [c] := by
      rcases allowed.1 with rfl | ⟨name, rfl, isName⟩
      · rfl
      · rw [componentBytes, split_plain name isName.plain,
          List.filterMap_cons_some (component?_name isName), List.filterMap_nil]
    rw [List.foldl_cons, ih allowed.2, filterMap_join relative, single, List.append_assoc,
      List.singleton_append]

/-- Making a path absolute keeps its components and puts those of the working directory before
    them. -/
theorem filterMap_absolute? (made : absolute? cwd p = some q) :
    (split q.bytes).filterMap component? = (split (cwd.join p).bytes).filterMap component? := by
  have allowed : ∀ c ∈ (split p.bytes).filterMap component?,
      c = .up ∨ ∃ name, c = .name name ∧ IsName name := by
    intro c member
    obtain ⟨part, inside, stands⟩ := List.mem_filterMap.mp member
    exact component?_some (split_plain_mem inside) stands
  have noHere : ((split p.bytes).filterMap component?).filter (· != .here) =
      (split p.bytes).filterMap component? := by
    refine List.filter_eq_self.mpr fun c member => ?_
    rcases allowed c member with rfl | ⟨name, rfl, -⟩ <;> rfl
  rw [absolute?] at made
  split at made
  · cases made
  · simp only [Option.some.injEq] at made
    have trailing (a : Path) : (split (if p.endsInSlash then a.join ⟨[]⟩ else a).bytes).filterMap
        component? = (split a.bytes).filterMap component? := by
      split
      · rw [filterMap_join (by rfl)]
        exact List.append_nil _
      · rfl
    rw [← made, trailing]
    by_cases absolute : p.isAbsolute = true
    · have components : p.components.filter (· != .here) =
          .root :: (split p.bytes).filterMap component? := by
        rw [Path.components, if_pos absolute, List.filter_cons_of_pos (by decide), noHere]
      simp only [components, if_pos absolute, join]
      split
      · exact filterMap_foldl_join allowed _
      · -- the root replaces the empty start
        exact filterMap_foldl_join allowed ⟨[slash]⟩
    · have relative : p.isAbsolute = false := by simpa using absolute
      have single : ¬ (p.bytes.take 2 = [slash, slash] ∧
          p.bytes.take 3 ≠ [slash, slash, slash]) := by
        rintro ⟨leads, -⟩
        obtain ⟨bytes⟩ := p
        rcases bytes with _ | ⟨b, _ | ⟨c, rest⟩⟩ <;> simp_all [isAbsolute]
      have components : p.components.filter (· != .here) =
          (split p.bytes).filterMap component? := by
        rw [Path.components, if_neg absolute]
        split
        · rw [List.filter_cons_of_neg (by decide), noHere]
        · exact noHere
      simp only [components, if_neg absolute, if_neg single]
      rw [filterMap_foldl_join allowed, filterMap_join relative]

/-- The bytes of a path are those of its parts and slashes. -/
theorem mem_bytes_iff {bytes : Bytes} {b : UInt8} (other : b ≠ slash) :
    b ∈ bytes ↔ ∃ part ∈ split bytes, b ∈ part := by
  induction bytes with
  | nil => simp [split]
  | cons c bytes ih =>
    obtain ⟨part, parts, shape⟩ := List.exists_cons_of_ne_nil (split_ne_nil bytes)
    rw [List.mem_cons, ih, split, shape]
    split
    · rename_i isSlash
      simp [isSlash, other]
    · simp [or_assoc]

theorem mem_bytes_absolute? (made : absolute? cwd p = some q) {b : UInt8} (notSlash : b ≠ slash)
    (notDot : b ≠ dot) (inside : b ∈ p.bytes) : b ∈ q.bytes := by
  obtain ⟨part, member, held⟩ := (mem_bytes_iff notSlash).mp inside
  have solid : isSolid part = true := by
    by_contra hollow
    rcases isSolid_eq_false (by simpa using hollow) with rfl | rfl
    · cases held
    · exact notDot (List.mem_singleton.mp held)
  obtain ⟨c, stands⟩ := Option.isSome_iff_exists.mp solid
  have ofPath : c ∈ (split p.bytes).filterMap component? :=
    List.mem_filterMap.mpr ⟨part, member, stands⟩
  have ofWhole : c ∈ (split (cwd.join p).bytes).filterMap component? := by
    by_cases absolute : p.isAbsolute = true
    · rwa [join, if_pos absolute]
    · rw [filterMap_join (by simpa using absolute)]
      exact List.mem_append_right _ ofPath
  rw [← filterMap_absolute? made] at ofWhole
  obtain ⟨same, there, stands'⟩ := List.mem_filterMap.mp ofWhole
  rw [← componentBytes_of_component? stands, componentBytes_of_component? stands'] at held
  exact (mem_bytes_iff notSlash).mpr ⟨same, there, held⟩

end Path

namespace FileSystem

variable {fs : FileSystem} {hops : Nat} {here place dir : Place} {p q : Path} {name part : Bytes}
  {entries : List (Bytes × Node)}

theorem kindAt_of_follow_dir {parts : List Bytes}
    (found : fs.follow true hops here parts = .ok (.found place (.dir entries))) :
    fs.kindAt here = some .dir := by
  cases parts with
  | nil =>
    have held := follow_found found
    rw [follow_nil] at found
    split at found
    · cases found
      exact kindAt_of_get? held
    · cases found
  | cons part rest =>
    rw [follow_cons] at found
    cases moved : fs.move here part with
    | error fault =>
      rw [moved] at found
      cases found
    | ok m => exact (move_ok moved).1

theorem move_hollow (directory : fs.kindAt here = some .dir) (hollow : Path.isSolid part = false) :
    fs.move here part = .ok .stay := by
  rw [move, directory]
  simp only [if_pos (Path.isSolid_eq_false hollow)]

/-- Only the parts that stand for components decide which directory a path leads to. -/
theorem follow_filter_isSolid (fs : FileSystem) (hops : Nat) (here place : Place)
    (entries : List (Bytes × Node)) (parts : List Bytes) :
    fs.follow true hops here (parts.filter Path.isSolid) = .ok (.found place (.dir entries)) ↔
      fs.follow true hops here parts = .ok (.found place (.dir entries)) := by
  induction hops using Nat.strongRecOn generalizing here parts with
  | ind hops fewer =>
    induction parts generalizing here with
    | nil => rfl
    | cons part rest ih =>
      cases solid : Path.isSolid part with
      | false =>
        rw [List.filter_cons_of_neg (by simp [solid]), ih]
        constructor
        · intro found
          rwa [follow_cons, move_hollow (kindAt_of_follow_dir found) solid]
        · intro found
          have directory := kindAt_of_follow_dir found
          rwa [follow_cons, move_hollow directory solid] at found
      | true =>
        rw [List.filter_cons_of_pos solid, follow_cons, follow_cons]
        split
        · rfl
        · exact ih _
        · exact ih _
        · exact ih _
        · -- a name that is missing is no directory
          split <;> split <;> simp
        · simp only [Bool.not_true, Bool.and_false, Bool.false_eq_true, if_false]
          split
          · rfl
          · rename_i less
            split
            · rfl
            · -- the parts of the link's target come before the same rest on both sides
              rw [← fewer less (by omega), ← fewer less (by omega) _ (_ ++ rest),
                List.filter_append, List.filter_append, List.filter_filter]
              simp

/-- Paths with the same components lead to the same directory. -/
theorem follow_congr_components {parts others : List Bytes}
    (same : parts.filterMap Path.component? = others.filterMap Path.component?) :
    fs.follow true hops here parts = .ok (.found place (.dir entries)) ↔
      fs.follow true hops here others = .ok (.found place (.dir entries)) := by
  rw [← follow_filter_isSolid fs hops here place entries parts,
    ← follow_filter_isSolid fs hops here place entries others, Path.filter_isSolid,
    Path.filter_isSolid, same]

theorem refusal?_eq_none : refusal? p = none ↔
    (0 : UInt8) ∉ p.bytes ∧ p.isEmpty = false ∧ p.bytes.length ≤ pathLimit := by
  rw [refusal?]
  by_cases nul : (0 : UInt8) ∈ p.bytes
  · simp [nul]
  · by_cases empty : p.isEmpty = true
    · simp [nul, empty]
    · by_cases long : pathLimit < p.bytes.length
      · simp [nul, empty, long]
      · simp [nul, empty, Nat.not_lt.mp long]

/-- What leads to a directory as an absolute path leads there as it is, if it is short enough. -/
theorem resolve_of_absolute? (anchored : fs.cwd.isAbsolute = true)
    (located : Path.absolute? fs.cwd p = some q) (short : p.bytes.length ≤ pathLimit)
    (found : fs.resolve true q = .ok (.found dir (.dir entries))) :
    fs.resolve true p = .ok (.found dir (.dir entries)) := by
  obtain ⟨passed, followed⟩ := resolve_ok found
  have absolute : q.isAbsolute = true := Path.absolute?_isAbsolute anchored located
  have given : p.isEmpty = false := by
    rw [Path.absolute?] at located
    split at located
    · cases located
    · rename_i given
      simpa using given
  have noNul : (0 : UInt8) ∉ p.bytes := fun nul =>
    (refusal?_eq_none.mp passed).1 (Path.mem_bytes_absolute? located (by decide) (by decide) nul)
  rw [resolve_eq, refusal?_eq_none.mpr ⟨noNul, given, short⟩]
  rw [Path.join, if_pos absolute] at followed
  exact (follow_congr_components (Path.filterMap_absolute? located)).mp followed

/-- A name after a path is there exactly if the directory has it, links apart. -/
theorem exists_join_iff (isName : Path.IsName name) (fits : name.length ≤ nameLimit)
    (passed : refusal? (p.join ⟨name⟩) = none)
    (found : fs.resolve true p = .ok (.found dir (.dir entries)))
    (direct : ∀ target, entries.lookup name ≠ some (.link target)) :
    fs.exists (p.join ⟨name⟩) = true ↔ (entries.lookup name).isSome = true := by
  have resolved : fs.resolve true (p.join ⟨name⟩) = named dir entries name :=
    resolve_join isName passed found (.inr direct)
  rw [named, if_neg (by omega)] at resolved
  cases there : entries.lookup name with
  | none =>
    rw [there] at resolved
    simp [FileSystem.exists, stat, resolved, bind, Except.bind, throw, throwThe,
      MonadExceptOf.throw, Except.isOk, Except.toBool]
  | some node =>
    rw [there] at resolved
    simp [FileSystem.exists, stat, resolved, bind, Except.bind, pure, Except.pure, Except.isOk,
      Except.toBool]

end FileSystem

end FormatLint
