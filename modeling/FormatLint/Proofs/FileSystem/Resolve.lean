import FormatLint.Proofs.FileSystem.Rewrite
import FormatLint.Proofs.Path.Normal

/-!
Where paths lead. That depends on the kinds of the nodes on the way and not on what the files hold,
and a path leads to the same place when the tree gains nodes. A name after a path is looked up in
the directory that the path leads to.
-/

namespace FormatLint.FileSystem

def kindAt (fs : FileSystem) (place : Place) : Option Node.Kind := (fs.get? place).map Node.kind

/-- What the next part of a path does. -/
inductive Move where
  | stay
  | up
  | enter
  | jump (target : Path)
  /-- The directory does not have the name. -/
  | miss

def move (fs : FileSystem) (here : Place) (part : Bytes) : Except SystemFault Move :=
  match fs.kindAt here with
  | some .dir =>
    if part = [] ∨ part = [Path.dot] then .ok .stay
    else if part = [Path.dot, Path.dot] then .ok .up
    else if nameLimit < part.length then .error .nameTooLong
    else
      match fs.kindAt (here ++ [part]) with
      | none => .ok .miss
      | some (.link target) => .ok (.jump target)
      | some _ => .ok .enter
  | some _ => .error .notDirectory
  | none => .error .notFound

variable {fs wide : FileSystem} {final : Bool} {hops : Nat} {here place dir : Place}
  {parts : List Bytes} {node : Node} {name part : Bytes} {entries : List (Bytes × Node)}

theorem kindAt_of_get? (held : fs.get? place = some node) : fs.kindAt place = some node.kind := by
  rw [kindAt, held, Option.map_some]

theorem get?_of_kindAt {kind : Node.Kind} (held : fs.kindAt place = some kind) :
    ∃ node, fs.get? place = some node ∧ node.kind = kind := Option.map_eq_some_iff.mp held

theorem get?_child (held : fs.get? dir = some (.dir entries)) :
    fs.get? (dir ++ [name]) = entries.lookup name := Node.get?_child held

theorem kindAt_child (held : fs.get? dir = some (.dir entries)) :
    fs.kindAt (dir ++ [name]) = (entries.lookup name).map Node.kind := by
  rw [kindAt, get?_child held]

theorem follow_nil (fs : FileSystem) (final : Bool) (hops : Nat) (here : Place) :
    fs.follow final hops here [] =
      match fs.get? here with
      | some node => .ok (.found here node)
      | none => .error .notFound := by
  unfold follow
  rfl

/-- One part of a path at a time. -/
theorem follow_cons (fs : FileSystem) (final : Bool) (hops : Nat) (here : Place) (part : Bytes)
    (rest : List Bytes) :
    fs.follow final hops here (part :: rest) =
      match fs.move here part with
      | .error fault => .error fault
      | .ok .stay => fs.follow final hops here rest
      | .ok .up => fs.follow final hops here.dropLast rest
      | .ok .enter => fs.follow final hops (here ++ [part]) rest
      | .ok .miss => if rest.all (·.isEmpty) then .ok (.absent here part) else .error .notFound
      | .ok (.jump target) =>
        if rest.isEmpty && !final then .ok (.found (here ++ [part]) (.link target))
        else
          match hops with
          | 0 => .error .linkLoop
          | hops + 1 =>
            if target.isEmpty then .error .notFound
            else
              fs.follow final hops (if target.isAbsolute then [] else here)
                (Path.split target.bytes ++ rest) := by
  rw [follow, move]
  cases held : fs.get? here with
  | none => rw [kindAt, held, Option.map_none]
  | some node =>
    rw [kindAt_of_get? held]
    cases node with
    | file data => rfl
    | link target => rfl
    | dir entries =>
      rw [kindAt_child held]
      simp only [Node.kind]
      by_cases skipped : part = [] ∨ part = [Path.dot]
      · simp only [if_pos skipped]
      · by_cases up : part = [Path.dot, Path.dot]
        · simp only [if_neg skipped, if_pos up]
        · by_cases long : nameLimit < part.length
          · simp only [if_neg skipped, if_neg up, if_pos long]
          · simp only [if_neg skipped, if_neg up, if_neg long]
            cases entries.lookup part with
            | none => rfl
            | some child => cases child <;> rfl

/-- Over a path, where each link is replaced by its target. -/
@[elab_as_elim]
theorem follow_induction {motive : Nat → Place → List Bytes → Prop}
    (nil : ∀ hops here, motive hops here [])
    (cons : ∀ hops here part rest, (∀ next, motive hops next rest) →
      (∀ fewer, hops = fewer + 1 → ∀ start target, motive fewer start (target ++ rest)) →
      motive hops here (part :: rest))
    (hops : Nat) (here : Place) (parts : List Bytes) : motive hops here parts := by
  induction hops using Nat.strongRecOn generalizing here parts with
  | ind hops fewer =>
    induction parts generalizing here with
    | nil => exact nil hops here
    | cons part rest ih =>
      refine cons hops here part rest ih ?_
      intro less equal start target
      exact fewer less (by omega) start (target ++ rest)

theorem move_dir {m : Move} (moved : fs.move here part = .ok m) :
    ∃ entries, fs.get? here = some (.dir entries) := by
  rw [move] at moved
  split at moved
  · rename_i directory
    exact Node.kindAt_dir directory
  · cases moved
  · cases moved

theorem move_jump {target : Path} (moved : fs.move here part = .ok (.jump target)) :
    fs.get? (here ++ [part]) = some (.link target) := by
  rw [move] at moved
  split at moved
  · split at moved
    · cases moved
    · split at moved
      · cases moved
      · split at moved
        · cases moved
        · split at moved
          · cases moved
          · rename_i link
            cases moved
            obtain ⟨node, held, kind⟩ := get?_of_kindAt link
            cases node with
            | file data => cases kind
            | dir entries => cases kind
            | link other =>
              cases kind
              exact held
          · cases moved
  · cases moved
  · cases moved

theorem follow_found (found : fs.follow final hops here parts = .ok (.found place node)) :
    fs.get? place = some node := by
  induction hops, here, parts using follow_induction with
  | nil hops here =>
    rw [follow_nil] at found
    split at found
    · rename_i held
      cases found
      exact held
    · cases found
  | cons hops here part rest next jump =>
    rw [follow_cons] at found
    split at found
    · cases found
    · exact next _ found
    · exact next _ found
    · exact next _ found
    · split at found <;> cases found
    · rename_i moved
      split at found
      · cases found
        exact move_jump moved
      · split at found
        · cases found
        · split at found
          · cases found
          · exact jump _ rfl _ _ found

/-- A place, or the name that is missing at a place. -/
def spot : Target → Place × Option Bytes
  | .found place _ => (place, none)
  | .absent dir name => (dir, some name)

/-- Paths depend on the kinds of nodes only. -/
theorem follow_congr (same : wide.kindAt = fs.kindAt) :
    (wide.follow final hops here parts).map spot = (fs.follow final hops here parts).map spot := by
  have moves (here : Place) (part : Bytes) : wide.move here part = fs.move here part := by
    rw [move, move, same]
  induction hops, here, parts using follow_induction with
  | nil hops here =>
    have here' := congrFun same here
    rw [kindAt, kindAt] at here'
    rw [follow_nil, follow_nil]
    cases held : fs.get? here with
    | none =>
      rw [held, Option.map_none, Option.map_eq_none_iff] at here'
      rw [here']
    | some node =>
      rw [held, Option.map_some] at here'
      obtain ⟨other, got, -⟩ := Option.map_eq_some_iff.mp here'
      rw [got]
      rfl
  | cons hops here part rest next jump =>
    rw [follow_cons, follow_cons, moves]
    split
    · rfl
    · exact next _
    · exact next _
    · exact next _
    · rfl
    · split
      · rfl
      · split
        · rfl
        · split
          · rfl
          · exact jump _ rfl _ _

theorem move_root (same : wide.root = fs.root) (here : Place) (part : Bytes) :
    wide.move here part = fs.move here part := by
  rw [move, move, kindAt, kindAt, kindAt, kindAt, get?, get?, get?, get?, same]

/-- The working directory is no part of what is followed. -/
theorem follow_root (same : wide.root = fs.root) :
    wide.follow final hops here parts = fs.follow final hops here parts := by
  induction hops, here, parts using follow_induction with
  | nil hops here => rw [follow_nil, follow_nil, get?, get?, same]
  | cons hops here part rest next jump =>
    rw [follow_cons, follow_cons, move_root same]
    split
    · rfl
    · exact next _
    · exact next _
    · exact next _
    · rfl
    · split
      · rfl
      · split
        · rfl
        · split
          · rfl
          · exact jump _ rfl _ _

/-- Whatever `fs` has, `wide` has too, of the same kind and at the same place. -/
def Extends (fs wide : FileSystem) : Prop := fs.root.Extends wide.root

theorem Extends.move (larger : fs.Extends wide) {m : Move} (moved : fs.move here part = .ok m)
    (hit : m ≠ .miss) : wide.move here part = .ok m := by
  rw [FileSystem.move] at moved ⊢
  split at moved
  · rename_i directory
    rw [show wide.kindAt here = some .dir from larger _ _ directory]
    simp only
    split at moved
    · rename_i skipped
      rw [if_pos skipped, moved]
    · rename_i proper
      rw [if_neg proper]
      split at moved
      · rename_i up
        rw [if_pos up, moved]
      · rename_i notUp
        rw [if_neg notUp]
        split at moved
        · cases moved
        · rename_i short
          rw [if_neg short]
          split at moved
          · cases moved
            exact absurd rfl hit
          · rename_i target link
            rw [show wide.kindAt _ = _ from larger _ _ link]
            exact moved
          · rename_i kind notLink there
            rw [show wide.kindAt _ = _ from larger _ _ there]
            cases kind with
            | link target => exact absurd rfl (notLink target)
            | file => exact moved
            | dir => exact moved
  · cases moved
  · cases moved

/-- What a path leads to, it still leads to in a larger tree. -/
theorem Extends.follow (larger : fs.Extends wide)
    (found : fs.follow final hops here parts = .ok (.found place node)) :
    ∃ node', wide.follow final hops here parts = .ok (.found place node') := by
  induction hops, here, parts using follow_induction with
  | nil hops here =>
    have held : fs.get? place = some node := follow_found found
    rw [follow_nil] at found
    split at found
    · rename_i there
      cases found
      obtain ⟨node', got, -⟩ := get?_of_kindAt (larger _ _ (kindAt_of_get? held))
      exact ⟨node', by rw [follow_nil, got]⟩
    · cases found
  | cons hops here part rest next jump =>
    rw [follow_cons] at found ⊢
    split at found
    · cases found
    · rename_i moved
      rw [larger.move moved (by simp)]
      exact next _ found
    · rename_i moved
      rw [larger.move moved (by simp)]
      exact next _ found
    · rename_i moved
      rw [larger.move moved (by simp)]
      exact next _ found
    · split at found <;> cases found
    · rename_i target moved
      rw [larger.move moved (by simp)]
      simp only
      split at found
      · rename_i last
        cases found
        exact ⟨.link target, by rw [if_pos last]⟩
      · rename_i further
        rw [if_neg further]
        split at found
        · cases found
        · split at found
          · cases found
          · rename_i given
            simp only [if_neg given]
            exact jump _ rfl _ _ found

/-- A name that no link was left unfollowed for is missing however links are followed. -/
theorem follow_absent (missing : fs.follow false hops here parts = .ok (.absent dir name)) :
    fs.follow final hops here parts = .ok (.absent dir name) := by
  induction hops, here, parts using follow_induction with
  | nil hops here =>
    rw [follow_nil] at missing
    split at missing <;> cases missing
  | cons hops here part rest next jump =>
    rw [follow_cons] at missing ⊢
    split at missing
    · cases missing
    · exact next _ missing
    · exact next _ missing
    · exact next _ missing
    · exact missing
    · split at missing
      · cases missing
      · rename_i further
        have inner : rest.isEmpty = false := by simpa using further
        simp only [inner, Bool.false_and, Bool.false_eq_true, if_false]
        split at missing
        · cases missing
        · split at missing
          · cases missing
          · rename_i given
            simp only [if_neg given]
            exact jump _ rfl _ _ missing

theorem move_name (isName : Path.IsName name) (held : fs.get? here = some (.dir entries)) :
    fs.move here name =
      if nameLimit < name.length then .error .nameTooLong
      else
        match (entries.lookup name).map Node.kind with
        | none => .ok .miss
        | some (.link target) => .ok (.jump target)
        | some _ => .ok .enter := by
  rw [move, kindAt_of_get? held, kindAt_child held]
  simp only [Node.kind, isName.filled, isName.notDot, isName.notUp, or_self, if_false]

/-- What a name stands for in a directory. -/
def named (dir : Place) (entries : List (Bytes × Node)) (name : Bytes) : Except SystemFault Target :=
  if nameLimit < name.length then .error .nameTooLong
  else
    match entries.lookup name with
    | none => .ok (.absent dir name)
    | some node => .ok (.found (dir ++ [name]) node)

/-- A name after a path that leads to a directory, unless it is the name of a link to follow. -/
theorem follow_name (isName : Path.IsName name)
    (found : fs.follow true hops here parts = .ok (.found dir (.dir entries)))
    (direct : final = false ∨ ∀ target, entries.lookup name ≠ some (.link target)) :
    fs.follow final hops here (parts ++ [name]) = named dir entries name := by
  induction hops, here, parts using follow_induction with
  | nil hops here =>
    have held := follow_found found
    rw [follow_nil] at found
    split at found
    · cases found
      rw [List.nil_append, follow_cons, move_name isName held, named]
      by_cases long : nameLimit < name.length
      · simp only [if_pos long]
      · simp only [if_neg long]
        have there : fs.get? (dir ++ [name]) = entries.lookup name := get?_child held
        cases child : entries.lookup name with
        | none => rfl
        | some node =>
          rw [child] at there
          cases node with
          | file data => simp only [Option.map_some, Node.kind, follow_nil, there]
          | dir inner => simp only [Option.map_some, Node.kind, follow_nil, there]
          | link target =>
            rcases direct with last | noLink
            · simp [Node.kind, last]
            · exact absurd child (noLink target)
    · cases found
  | cons hops here part rest next jump =>
    rw [follow_cons] at found
    rw [List.cons_append, follow_cons]
    split at found
    · cases found
    · exact next _ found
    · exact next _ found
    · exact next _ found
    · split at found <;> cases found
    · simp only [Bool.not_true, Bool.and_false, Bool.false_eq_true, if_false] at found
      have inner : (rest ++ [name]).isEmpty = false := by simp
      simp only [inner, Bool.false_and, Bool.false_eq_true, if_false]
      split at found
      · cases found
      · split at found
        · cases found
        · rename_i given
          simp only [if_neg given]
          rw [← List.append_assoc]
          exact jump _ rfl _ _ found

/-- A name is looked up in a directory. -/
theorem follow_name_dir (isName : Path.IsName name) {target : Target}
    (found : fs.follow final hops here (parts ++ [name]) = .ok target) :
    ∃ dir entries, fs.follow true hops here parts = .ok (.found dir (.dir entries)) := by
  induction hops, here, parts using follow_induction with
  | nil hops here =>
    rw [List.nil_append, follow_cons] at found
    cases moved : fs.move here name with
    | error fault =>
      rw [moved] at found
      cases found
    | ok m =>
      obtain ⟨entries, held⟩ := move_dir moved
      exact ⟨here, entries, by rw [follow_nil, held]⟩
  | cons hops here part rest next jump =>
    rw [List.cons_append, follow_cons] at found
    rw [follow_cons]
    split at found
    · cases found
    · exact next _ found
    · exact next _ found
    · exact next _ found
    · have filled : (rest ++ [name]).all (·.isEmpty) = false := by simp [isName.filled]
      rw [filled] at found
      cases found
    · have inner : (rest ++ [name]).isEmpty = false := by simp
      simp only [inner, Bool.false_and, Bool.false_eq_true, if_false] at found
      simp only [Bool.not_true, Bool.and_false, Bool.false_eq_true, if_false]
      split at found
      · cases found
      · split at found
        · cases found
        · rename_i given
          simp only [if_neg given]
          rw [← List.append_assoc] at found
          exact jump _ rfl _ _ found

/-- Why a path is not even looked up. -/
def refusal? (p : Path) : Option SystemFault :=
  if p.bytes.contains 0 then some .nulInPath
  else if p.isEmpty then some .notFound
  else if pathLimit < p.bytes.length then some .nameTooLong
  else none

section Resolve

variable {p : Path} {target : Target} {names : List Bytes}

theorem resolve_eq (fs : FileSystem) (final : Bool) (p : Path) :
    fs.resolve final p =
      match refusal? p with
      | some fault => .error fault
      | none => fs.follow final linkLimit [] (Path.split (fs.cwd.join p).bytes) := by
  rw [resolve, refusal?]
  split
  · rfl
  · split
    · rfl
    · split <;> rfl

theorem resolve_ok (resolved : fs.resolve final p = .ok target) :
    refusal? p = none ∧
      fs.follow final linkLimit [] (Path.split (fs.cwd.join p).bytes) = .ok target := by
  rw [resolve_eq] at resolved
  cases refused : refusal? p with
  | some fault =>
    rw [refused] at resolved
    cases resolved
  | none =>
    rw [refused] at resolved
    exact ⟨rfl, resolved⟩

theorem resolve_found (resolved : fs.resolve final p = .ok (.found place node)) :
    fs.get? place = some node := follow_found (resolve_ok resolved).2

theorem stat_iff : fs.stat p = .ok (place, node) ↔ fs.resolve true p = .ok (.found place node) := by
  rw [stat]
  cases fs.resolve true p with
  | error fault => simp [bind, Except.bind]
  | ok target =>
    cases target with
    | found there other => simp [bind, Except.bind, pure, Except.pure]
    | absent dir name => simp [bind, Except.bind, throw, throwThe, MonadExceptOf.throw]

theorem resolve_congr (same : wide.kindAt = fs.kindAt) (seen : wide.cwd = fs.cwd) :
    (wide.resolve final p).map spot = (fs.resolve final p).map spot := by
  rw [resolve_eq, resolve_eq, seen]
  cases refusal? p with
  | some fault => rfl
  | none => exact follow_congr same

/-- An absolute path leads to the same place from every working directory. -/
theorem resolve_root (same : wide.root = fs.root) (absolute : p.isAbsolute = true) :
    wide.resolve final p = fs.resolve final p := by
  have anywhere (cwd : Path) : cwd.join p = p := if_pos absolute
  rw [resolve_eq, resolve_eq, anywhere, anywhere]
  split
  · rfl
  · exact follow_root same

theorem Extends.resolve (larger : fs.Extends wide) (seen : wide.cwd = fs.cwd)
    (found : fs.resolve final p = .ok (.found place node)) :
    ∃ node', wide.resolve final p = .ok (.found place node') := by
  obtain ⟨passed, followed⟩ := resolve_ok found
  rw [resolve_eq, passed, seen]
  exact larger.follow followed

theorem resolve_absent (missing : fs.resolve false p = .ok (.absent dir name)) :
    fs.resolve true p = .ok (.absent dir name) := by
  obtain ⟨passed, followed⟩ := resolve_ok missing
  rw [resolve_eq, passed]
  exact follow_absent followed

theorem move_empty (fs : FileSystem) (here : Place) :
    fs.move here [] = .ok .stay ∨ ∃ fault, fs.move here [] = .error fault := by
  rw [move]
  split
  · exact .inl rfl
  · exact .inr ⟨_, rfl⟩
  · exact .inr ⟨_, rfl⟩

theorem resolve_rooted (proper : ∀ n ∈ names, Path.IsName n) :
    fs.resolve final (Path.rooted names) =
      match refusal? (Path.rooted names) with
      | some fault => .error fault
      | none => fs.follow final linkLimit [] ([] :: names) := by
  have absolute : fs.cwd.join (Path.rooted names) = Path.rooted names := by
    simp [Path.join, Path.isAbsolute, Path.rooted]
  rw [resolve_eq, absolute]
  by_cases top : names = []
  · -- the root alone splits into two empty parts, and the second one stays where it is
    subst top
    have parts : Path.split (Path.rooted []).bytes = [[], []] := rfl
    rw [parts, follow_cons, follow_cons]
    rcases move_empty fs [] with moved | ⟨fault, moved⟩ <;> rw [moved]
  · rw [Path.split_rooted proper top]

theorem refusal?_parent (passed : refusal? (Path.rooted (names ++ [name])) = none) :
    refusal? (Path.rooted names) = none := by
  obtain ⟨tail, longer⟩ : ∃ tail, (Path.rooted (names ++ [name])).bytes =
      (Path.rooted names).bytes ++ tail := by
    by_cases top : names = []
    · subst top
      exact ⟨name, rfl⟩
    · exact ⟨Path.slash :: name, by simp [Path.rooted, Path.unsplit_append top, Path.unsplit]⟩
  rw [refusal?, longer] at passed
  rw [refusal?]
  split at passed
  · cases passed
  · rename_i noNul
    split at passed
    · cases passed
    · split at passed
      · cases passed
      · rename_i short
        have noNul' : ¬ (Path.rooted names).bytes.contains 0 = true := by
          intro nul
          apply noNul
          simp only [List.contains_iff_mem, List.mem_append] at nul ⊢
          exact .inl nul
        have short' : ¬ pathLimit < (Path.rooted names).bytes.length := by
          rw [List.length_append] at short
          omega
        rw [if_neg noNul', if_neg (by simp [Path.isEmpty, Path.rooted]), if_neg short']

/-- The directory that a name is looked up in. -/
theorem resolve_parent (proper : ∀ n ∈ names ++ [name], Path.IsName n)
    (resolved : fs.resolve final (Path.rooted (names ++ [name])) = .ok target) :
    ∃ dir entries, fs.resolve true (Path.rooted names) = .ok (.found dir (.dir entries)) := by
  have passed := (resolve_ok resolved).1
  have init : ∀ n ∈ names, Path.IsName n := fun n member => proper n (List.mem_append_left _ member)
  rw [resolve_rooted proper, passed] at resolved
  rw [resolve_rooted init, refusal?_parent passed]
  rw [← List.cons_append] at resolved
  exact follow_name_dir (proper name (by simp)) resolved

/-- A path is looked up in the directory that its parent leads to. -/
theorem resolve_child (proper : ∀ n ∈ names ++ [name], Path.IsName n)
    (passed : refusal? (Path.rooted (names ++ [name])) = none)
    (found : fs.resolve true (Path.rooted names) = .ok (.found dir (.dir entries)))
    (direct : final = false ∨ ∀ target, entries.lookup name ≠ some (.link target)) :
    fs.resolve final (Path.rooted (names ++ [name])) = named dir entries name := by
  have init : ∀ n ∈ names, Path.IsName n := fun n member => proper n (List.mem_append_left _ member)
  rw [resolve_rooted init, refusal?_parent passed] at found
  rw [resolve_rooted proper, passed, ← List.cons_append]
  exact follow_name (proper name (by simp)) found direct

end Resolve

end FormatLint.FileSystem
