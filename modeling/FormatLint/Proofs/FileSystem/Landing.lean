import FormatLint.Proofs.FileSystem.Growth

/-!
Which places a path depends on. `visited` are the places that are looked at on the way of a path: a
file reads the same while they stay as they are. `landing?` is where a file goes that is moved to a
path, once the directories on the way are there.
-/

namespace FormatLint.FileSystem

variable {fs wide : FileSystem} {final : Bool} {hops : Nat} {here place dir : Place}
  {parts : List Bytes} {node : Node} {name part : Bytes} {p : Path}

/-- The places that are looked at when the parts of a path are followed from `here`. -/
def way (fs : FileSystem) (hops : Nat) (here : Place) (parts : List Bytes) : List Place :=
  match parts with
  | [] => [here]
  | part :: rest =>
    here :: match fs.move here part with
      | .error _ => []
      | .ok .stay => way fs hops here rest
      | .ok .up => way fs hops here.dropLast rest
      | .ok .enter => way fs hops (here ++ [part]) rest
      | .ok .miss => [here ++ [part]]
      | .ok (.jump target) =>
        (here ++ [part]) ::
          match hops with
          | 0 => []
          | hops + 1 =>
            if target.isEmpty then []
            else
              way fs hops (if target.isAbsolute then [] else here) (Path.split target.bytes ++ rest)
termination_by (hops, parts.length)

/-- The places that are looked at on the way of a path. -/
def visited (fs : FileSystem) (p : Path) : List Place :=
  match refusal? p with
  | some _ => []
  | none => fs.way linkLimit [] (Path.split (fs.cwd.join p).bytes)

/-- The place that the parts of a path stand for if no directory were missing on the way. A link as
    the very last part is not followed. -/
def landing (fs : FileSystem) (hops : Nat) (here : Place) (parts : List Bytes) : Option Place :=
  match parts with
  | [] => some here
  | part :: rest =>
    if part = [] ∨ part = [Path.dot] then landing fs hops here rest
    else if part = [Path.dot, Path.dot] then landing fs hops here.dropLast rest
    else
      match fs.kindAt (here ++ [part]) with
      | some (.link target) =>
        if rest.isEmpty then some (here ++ [part])
        else
          match hops with
          | 0 => none
          | hops + 1 =>
            if target.isEmpty then none
            else
              landing fs hops (if target.isAbsolute then [] else here)
                (Path.split target.bytes ++ rest)
      | _ => landing fs hops (here ++ [part]) rest
termination_by (hops, parts.length)

/-- Where a file goes that is moved to a path. -/
def landing? (fs : FileSystem) (p : Path) : Option Place :=
  fs.landing linkLimit [] (Path.split (fs.cwd.join p).bytes)

section Visited

theorem way_cons (fs : FileSystem) (hops : Nat) (here : Place) (part : Bytes) (rest : List Bytes) :
    fs.way hops here (part :: rest) =
      here :: match fs.move here part with
        | .error _ => []
        | .ok .stay => fs.way hops here rest
        | .ok .up => fs.way hops here.dropLast rest
        | .ok .enter => fs.way hops (here ++ [part]) rest
        | .ok .miss => [here ++ [part]]
        | .ok (.jump target) =>
          (here ++ [part]) ::
            match hops with
            | 0 => []
            | hops + 1 =>
              if target.isEmpty then []
              else
                fs.way hops (if target.isAbsolute then [] else here)
                  (Path.split target.bytes ++ rest) := by
  rw [way.eq_def]

theorem head_mem_way (fs : FileSystem) (hops : Nat) (here : Place) (parts : List Bytes) :
    here ∈ fs.way hops here parts := by
  rw [way.eq_def]
  cases parts <;> exact List.mem_cons_self

theorem move_congr (same : wide.kindAt here = fs.kindAt here)
    (child : Usable part → fs.kindAt here = some .dir →
      wide.kindAt (here ++ [part]) = fs.kindAt (here ++ [part])) :
    wide.move here part = fs.move here part := by
  by_cases usable : Usable part ∧ fs.kindAt here = some .dir
  · rw [move_usable usable.2 usable.1, move_usable (same.trans usable.2) usable.1,
      child usable.1 usable.2]
  · rw [move, move, same]
    cases held : fs.kindAt here with
    | none => rfl
    | some kind =>
      cases kind with
      | file => rfl
      | link target => rfl
      | dir =>
        simp only
        by_cases stays : part = [] ∨ part = [Path.dot]
        · simp only [if_pos stays]
        · by_cases up : part = [Path.dot, Path.dot]
          · simp only [if_neg stays, if_pos up]
          · by_cases long : nameLimit < part.length
            · simp only [if_neg stays, if_neg up, if_pos long]
            · exact absurd ⟨⟨stays, up, long⟩, held⟩ usable

/-- Where nothing changes on the way of a path, it leads to where it led. -/
theorem follow_way (same : ∀ q ∈ fs.way hops here parts, wide.kindAt q = fs.kindAt q) :
    (wide.follow true hops here parts).map spot = (fs.follow true hops here parts).map spot := by
  induction hops, here, parts using follow_induction with
  | nil hops here =>
    have kinds := same here (head_mem_way ..)
    rw [kindAt, kindAt] at kinds
    rw [follow_nil, follow_nil]
    cases held : fs.get? here with
    | none =>
      rw [held, Option.map_none, Option.map_eq_none_iff] at kinds
      rw [kinds]
    | some node =>
      rw [held, Option.map_some] at kinds
      obtain ⟨other, got, -⟩ := Option.map_eq_some_iff.mp kinds
      rw [got]
      rfl
  | cons hops here part rest next jump =>
    have kinds := same here (head_mem_way ..)
    -- the place of the part is on the way wherever a move looks at it
    have moves : wide.move here part = fs.move here part := by
      apply move_congr kinds
      intro usable directory
      apply same
      rw [way_cons, move_usable directory usable]
      refine List.mem_cons_of_mem _ ?_
      cases fs.kindAt (here ++ [part]) with
      | none => exact List.mem_singleton_self _
      | some kind =>
        cases kind with
        | link target => exact List.mem_cons_self
        | file => exact head_mem_way ..
        | dir => exact head_mem_way ..
    rw [way_cons] at same
    rw [follow_cons, follow_cons, moves]
    cases moved : fs.move here part with
    | error fault => rfl
    | ok m =>
      rw [moved] at same
      have later := fun q member => same q (List.mem_cons_of_mem _ member)
      cases m with
      | stay => exact next _ later
      | up => exact next _ later
      | enter => exact next _ later
      | miss => rfl
      | jump target =>
        simp only [Bool.not_true, Bool.and_false, Bool.false_eq_true, if_false]
        cases hops with
        | zero => rfl
        | succ hops =>
          by_cases given : target.isEmpty = true
          · simp only [if_pos given]
          · simp only [if_neg given] at later ⊢
            exact jump _ rfl _ _ fun q member => later q (List.mem_cons_of_mem _ member)

theorem follow_file {entries : List (Bytes × Node)} (held : fs.kindAt here = some .file) :
    fs.follow true hops here parts ≠ .ok (.found place (.dir entries)) := by
  intro found
  cases parts with
  | nil =>
    obtain ⟨node, there, shape⟩ := get?_of_kindAt held
    rw [follow_nil, there] at found
    cases found
    cases shape
  | cons part rest =>
    rw [follow_cons, move, held] at found
    cases found

/-- A path that leads to a directory does not depend on files. -/
theorem follow_directory {entries : List (Bytes × Node)}
    (same : ∀ q, fs.kindAt q ≠ some .file → wide.kindAt q = fs.kindAt q)
    (found : fs.follow true hops here parts = .ok (.found place (.dir entries))) :
    ∃ more, wide.follow true hops here parts = .ok (.found place (.dir more)) := by
  induction hops, here, parts using follow_induction with
  | nil hops here =>
    have directory := kindAt_of_get? (follow_found found)
    rw [follow_nil] at found
    split at found
    · cases found
      have still : wide.kindAt place = some .dir := (same place (by simp [directory, Node.kind])).trans
        directory
      obtain ⟨more, held⟩ := Node.kindAt_dir still
      exact ⟨more, by rw [follow_nil, show wide.get? place = _ from held]⟩
    · cases found
  | cons hops here part rest next jump =>
    rw [follow_cons] at found
    cases moved : fs.move here part with
    | error fault =>
      rw [moved] at found
      cases found
    | ok m =>
      have directory := (move_ok moved).1
      -- a file here would end the path, which goes on to a directory
      have moves : wide.move here part = .ok m := by
        rw [← moved]
        refine move_congr (same here (by simp [directory])) fun usable _ => same _ ?_
        intro file
        rw [move_usable directory usable, file] at found
        exact follow_file file found
      rw [moved] at found
      rw [follow_cons, moves]
      cases m with
      | stay => exact next _ found
      | up => exact next _ found
      | enter => exact next _ found
      | miss =>
        dsimp only at found
        split at found <;> cases found
      | jump target =>
        simp only [Bool.not_true, Bool.and_false, Bool.false_eq_true, if_false] at found ⊢
        cases hops with
        | zero => cases found
        | succ hops =>
          by_cases given : target.isEmpty = true
          · simp only [if_pos given] at found
            cases found
          · simp only [if_neg given] at found ⊢
            exact jump _ rfl _ _ found

theorem stat_directory {entries : List (Bytes × Node)} (seen : wide.cwd = fs.cwd)
    (same : ∀ q, fs.kindAt q ≠ some .file → wide.kindAt q = fs.kindAt q)
    (found : fs.stat p = .ok (place, .dir entries)) : ∃ more, wide.stat p = .ok (place, .dir more) := by
  obtain ⟨passed, followed⟩ := resolve_ok (stat_iff.mp found)
  obtain ⟨more, still⟩ := follow_directory same followed
  refine ⟨more, stat_iff.mpr ?_⟩
  rw [resolve_eq, passed, seen]
  exact still

theorem found_mem_way (found : fs.follow true hops here parts = .ok (.found place node)) :
    place ∈ fs.way hops here parts := by
  induction hops, here, parts using follow_induction with
  | nil hops here =>
    rw [follow_nil] at found
    split at found
    · cases found
      exact head_mem_way ..
    · cases found
  | cons hops here part rest next jump =>
    rw [follow_cons] at found
    rw [way_cons]
    refine List.mem_cons_of_mem _ ?_
    cases moved : fs.move here part with
    | error fault =>
      rw [moved] at found
      cases found
    | ok m =>
      rw [moved] at found
      cases m with
      | stay => exact next _ found
      | up => exact next _ found
      | enter => exact next _ found
      | miss =>
        dsimp only at found
        split at found <;> cases found
      | jump target =>
        simp only [Bool.not_true, Bool.and_false, Bool.false_eq_true, if_false] at found
        refine List.mem_cons_of_mem _ ?_
        cases hops with
        | zero => cases found
        | succ hops =>
          by_cases given : target.isEmpty = true
          · simp only [if_pos given] at found
            cases found
          · simp only [if_neg given] at found ⊢
            exact jump _ rfl _ _ found

/-- A file reads the same as long as nothing changes on its way. -/
theorem readText_visited (seen : wide.cwd = fs.cwd)
    (same : ∀ q ∈ fs.visited p, wide.outlineAt q = fs.outlineAt q) :
    wide.readText p = fs.readText p := by
  have kinds : ∀ q ∈ fs.visited p, wide.kindAt q = fs.kindAt q := by
    intro q member
    rw [kindAt_eq_outlineAt, kindAt_eq_outlineAt, same q member]
  have bytes : wide.readBytes p = fs.readBytes p := by
    rw [visited] at same kinds
    simp only [readBytes, stat]
    rw [resolve_eq, resolve_eq, seen]
    cases refused : refusal? p with
    | some fault => rfl
    | none =>
      rw [refused] at same kinds
      rcases spot_cases (follow_way kinds) with ⟨fault, left, right⟩ | ⟨dir, name, left, right⟩ |
        ⟨place, node, other, left, right⟩
      · rw [left, right]
      · rw [left, right]
      · rw [left, right]
        have outlines := same place (found_mem_way right)
        rw [outlineAt, outlineAt, Node.outlineAt_of_get? (follow_found left),
          Node.outlineAt_of_get? (follow_found right)] at outlines
        cases node <;> cases other <;> cases outlines <;> rfl
  rw [readText, readText, bytes]

end Visited

section Landing

/-- Nothing has gone, and no link has come. -/
structure Later (fs wide : FileSystem) : Prop where
  seen : wide.cwd = fs.cwd
  larger : fs.Extends wide
  linkFree : ∀ place target, wide.kindAt place = some (.link target) →
    fs.kindAt place = some (.link target)

theorem landing_plain {rest : List Bytes} (filled : ¬ (part = [] ∨ part = [Path.dot]))
    (notUp : part ≠ [Path.dot, Path.dot])
    (plain : ∀ target, fs.kindAt (here ++ [part]) ≠ some (.link target)) :
    fs.landing hops here (part :: rest) = fs.landing hops (here ++ [part]) rest := by
  rw [FileSystem.landing, if_neg filled, if_neg notUp]
  split
  · rename_i target link
    exact absurd link (plain target)
  · rfl

theorem landing_name (isName : Path.IsName name) :
    fs.landing hops here [name] = some (here ++ [name]) := by
  rw [FileSystem.landing, if_neg (by simp [isName.filled, isName.notDot]), if_neg isName.notUp]
  split
  · rfl
  · rw [FileSystem.landing]

/-- Where a path leads once its directories are there, it would have led before. -/
theorem Later.landing (later : fs.Later wide) (isName : Path.IsName name)
    (found : wide.follow true hops here parts = .ok (.found dir node)) :
    fs.landing hops here (parts ++ [name]) = some (dir ++ [name]) := by
  induction hops, here, parts using follow_induction with
  | nil hops here =>
    rw [follow_nil] at found
    split at found
    · cases found
      exact landing_name isName
    · cases found
  | cons hops here part rest next jump =>
    rw [follow_cons] at found
    rw [List.cons_append]
    cases moved : wide.move here part with
    | error fault =>
      rw [moved] at found
      cases found
    | ok m =>
      rw [moved] at found
      obtain ⟨-, ⟨rfl, stays⟩ | ⟨rfl, up⟩ | ⟨arrives, usable⟩⟩ := move_ok moved
      · rw [FileSystem.landing, if_pos stays]
        exact next _ found
      · have notStay : ¬ (part = [] ∨ part = [Path.dot]) := by
          rw [up]
          decide
        rw [FileSystem.landing, if_neg notStay, if_pos up]
        exact next _ found
      · cases kind : wide.kindAt (here ++ [part]) with
        | none =>
          rw [arrives, kind] at found
          simp only [arrival] at found
          split at found <;> cases found
        | some k =>
          -- what has come is no link, and what was a link still is the same one
          have plain (noLink : ∀ target, k ≠ .link target) (target : Path) :
              fs.kindAt (here ++ [part]) ≠ some (.link target) := by
            intro link
            have still : wide.kindAt (here ++ [part]) = _ := later.larger _ _ link
            rw [kind] at still
            exact noLink target (Option.some.inj still)
          rw [arrives, kind] at found
          cases k with
          | file =>
            rw [landing_plain usable.filled usable.notUp (plain (by simp))]
            exact next _ found
          | dir =>
            rw [landing_plain usable.filled usable.notUp (plain (by simp))]
            exact next _ found
          | link target =>
            have link := later.linkFree _ _ kind
            simp only [arrival, Bool.not_true, Bool.and_false, Bool.false_eq_true, if_false] at found
            rw [FileSystem.landing, if_neg usable.filled, if_neg usable.notUp, link]
            have further : (rest ++ [name]).isEmpty = false := by simp
            simp only [further, Bool.false_eq_true, if_false]
            cases hops with
            | zero => cases found
            | succ hops =>
              by_cases given : target.isEmpty = true
              · simp only [if_pos given] at found
                cases found
              · simp only [if_neg given] at found ⊢
                rw [← List.append_assoc]
                exact jump _ rfl _ _ found

theorem Later.landing? (later : fs.Later wide) (isName : Path.IsName name)
    {entries : List (Bytes × Node)}
    (found : wide.resolve true p = .ok (.found dir (.dir entries))) :
    fs.landing? (p.join ⟨name⟩) = some (dir ++ [name]) := by
  obtain ⟨parts, split, followed⟩ := follow_parts isName found
  rw [later.seen] at split
  rw [FileSystem.landing?, split]
  exact later.landing isName followed

theorem landing_append (noLinks : ∀ place target, fs.get? place ≠ some (.link target))
    (more : List Bytes) :
    fs.landing hops here (parts ++ more) =
      (fs.landing hops here parts).bind fun top => fs.landing hops top more := by
  induction parts generalizing here with
  | nil => rw [List.nil_append, FileSystem.landing.eq_def fs hops here [], Option.bind_some]
  | cons part rest ih =>
    have plain (target : Path) : fs.kindAt (here ++ [part]) ≠ some (.link target) := by
      intro link
      obtain ⟨node, held, shape⟩ := get?_of_kindAt link
      cases node <;> cases shape
      exact noLinks _ _ held
    rw [List.cons_append]
    by_cases stays : part = [] ∨ part = [Path.dot]
    · rw [FileSystem.landing, if_pos stays, FileSystem.landing, if_pos stays, ih]
    · by_cases up : part = [Path.dot, Path.dot]
      · rw [FileSystem.landing, if_neg stays, if_pos up, FileSystem.landing, if_neg stays, if_pos up,
          ih]
      · rw [landing_plain stays up plain, landing_plain stays up plain, ih]

theorem landing_names (noLinks : ∀ place target, fs.get? place ≠ some (.link target))
    {names : List Bytes} (proper : ∀ n ∈ names, Path.IsName n) :
    fs.landing hops here names = some (here ++ names) := by
  induction names generalizing here with
  | nil => rw [FileSystem.landing, List.append_nil]
  | cons name names ih =>
    have isName := proper name List.mem_cons_self
    have split : fs.landing hops here ([name] ++ names) =
        (fs.landing hops here [name]).bind fun top => fs.landing hops top names :=
      landing_append noLinks names
    rw [landing_name isName, Option.bind_some, List.singleton_append] at split
    rw [split, ih fun n member => proper n (List.mem_cons_of_mem _ member), List.append_assoc,
      List.singleton_append]

end Landing

end FormatLint.FileSystem
