import FormatLint.Proofs.FileSystem.Change
import FormatLint.Proofs.FileSystem.Outline
import FormatLint.Proofs.Path.Join

/-!
Making directories. A path whose missing parents have been made leads to a directory, and the new
directories all stand on the way from the root to it.
-/

namespace FormatLint

namespace FileSystem

variable {fs wide : FileSystem} {final : Bool} {hops : Nat} {here place dir : Place}
  {parts : List Bytes} {node : Node} {name part : Bytes} {entries : List (Bytes × Node)} {p : Path}

/-- A part that is looked up in a directory. -/
structure Usable (part : Bytes) : Prop where
  filled : ¬ (part = [] ∨ part = [Path.dot])
  notUp : part ≠ [Path.dot, Path.dot]
  short : ¬ nameLimit < part.length

/-- What a part does that a directory has as a name, or does not have. -/
def arrival : Option Node.Kind → Move
  | none => .miss
  | some (.link target) => .jump target
  | some _ => .enter

theorem move_usable (directory : fs.kindAt here = some .dir) (usable : Usable part) :
    fs.move here part = .ok (arrival (fs.kindAt (here ++ [part]))) := by
  rw [move, directory]
  simp only [if_neg usable.filled, if_neg usable.notUp, if_neg usable.short]
  cases fs.kindAt (here ++ [part]) with
  | none => rfl
  | some kind => cases kind <;> rfl

theorem move_ok {m : Move} (moved : fs.move here part = .ok m) :
    fs.kindAt here = some .dir ∧
      (m = .stay ∧ (part = [] ∨ part = [Path.dot]) ∨ m = .up ∧ part = [Path.dot, Path.dot] ∨
        m = arrival (fs.kindAt (here ++ [part])) ∧ Usable part) := by
  cases directory : fs.kindAt here with
  | none =>
    rw [move, directory] at moved
    cases moved
  | some kind =>
    cases kind with
    | file =>
      rw [move, directory] at moved
      cases moved
    | link target =>
      rw [move, directory] at moved
      cases moved
    | dir =>
      refine ⟨rfl, ?_⟩
      by_cases stays : part = [] ∨ part = [Path.dot]
      · rw [move, directory] at moved
        simp only [if_pos stays] at moved
        exact .inl ⟨(Except.ok.inj moved).symm, stays⟩
      · by_cases up : part = [Path.dot, Path.dot]
        · rw [move, directory] at moved
          simp only [if_neg stays, if_pos up] at moved
          exact .inr (.inl ⟨(Except.ok.inj moved).symm, up⟩)
        · by_cases long : nameLimit < part.length
          · rw [move, directory] at moved
            simp only [if_neg stays, if_neg up, if_pos long] at moved
            cases moved
          · have usable : Usable part := ⟨stays, up, long⟩
            rw [move_usable directory usable] at moved
            exact .inr (.inr ⟨(Except.ok.inj moved).symm, usable⟩)

theorem arrival_miss {kind : Option Node.Kind} (missed : .miss = arrival kind) : kind = none := by
  cases kind with
  | none => rfl
  | some kind => cases kind <;> cases missed

/-- A slash at the end of a path that leads anywhere changes nothing. -/
theorem follow_empty_last
    (found : fs.follow true hops here (parts ++ [[]]) = .ok (.found place node)) :
    fs.follow true hops here parts = .ok (.found place node) := by
  induction hops, here, parts using follow_induction with
  | nil hops here =>
    rw [List.nil_append, follow_cons] at found
    rcases move_empty fs here with moved | ⟨fault, moved⟩ <;> rw [moved] at found
    · exact found
    · cases found
  | cons hops here part rest next jump =>
    rw [List.cons_append, follow_cons] at found
    rw [follow_cons]
    split at found
    · cases found
    · exact next _ found
    · exact next _ found
    · exact next _ found
    · split at found <;> cases found
    · simp only [Bool.not_true, Bool.and_false, Bool.false_eq_true, if_false] at found ⊢
      split at found
      · cases found
      · split at found
        · cases found
        · rename_i given
          simp only [if_neg given]
          rw [← List.append_assoc] at found
          exact jump _ rfl _ _ found

theorem refusal?_filled (passed : refusal? p = none) : p.isEmpty = false := by
  rw [refusal?] at passed
  split at passed
  · cases passed
  · split at passed
    · cases passed
    · rename_i some
      simpa using some

/-- The parts of a path that leads to a directory, and of a name after it. -/
theorem follow_parts (isName : Path.IsName name)
    (found : fs.resolve true p = .ok (.found dir (.dir entries))) :
    ∃ parts, Path.split (fs.cwd.join (p.join ⟨name⟩)).bytes = parts ++ [name] ∧
      fs.follow true linkLimit [] parts = .ok (.found dir (.dir entries)) := by
  obtain ⟨passed, followed⟩ := resolve_ok found
  have filled := refusal?_filled passed
  have whole := Path.join_filled fs.cwd filled
  rw [Path.join_join filled isName.isPart.relative]
  obtain ⟨parts, split, same | longer⟩ := Path.split_join whole isName.isPart
  · exact ⟨parts, split, same ▸ followed⟩
  · rw [longer] at followed
    exact ⟨parts, split, follow_empty_last followed⟩

/-- A name after a path is looked up in the directory that the path leads to. -/
theorem resolve_join (isName : Path.IsName name) (passed : refusal? (p.join ⟨name⟩) = none)
    (found : fs.resolve true p = .ok (.found dir (.dir entries)))
    (direct : final = false ∨ ∀ target, entries.lookup name ≠ some (.link target)) :
    fs.resolve final (p.join ⟨name⟩) = named dir entries name := by
  obtain ⟨parts, split, followed⟩ := follow_parts isName found
  rw [resolve_eq, passed, split]
  exact follow_name isName followed direct

/-- A name that is missing is missing in a directory. -/
theorem follow_absent_held
    (missing : fs.follow final hops here parts = .ok (.absent dir name)) :
    ∃ entries, fs.get? dir = some (.dir entries) ∧ entries.lookup name = none := by
  induction hops, here, parts using follow_induction with
  | nil hops here =>
    rw [follow_nil] at missing
    split at missing <;> cases missing
  | cons hops here part rest next jump =>
    rw [follow_cons] at missing
    split at missing
    · cases missing
    · exact next _ missing
    · exact next _ missing
    · exact next _ missing
    · rename_i moved
      split at missing
      · cases missing
        obtain ⟨entries, held⟩ := move_dir moved
        obtain ⟨-, ⟨stay, -⟩ | ⟨up, -⟩ | ⟨missed, -⟩⟩ := move_ok moved
        · cases stay
        · cases up
        · have free := arrival_miss missed
          rw [kindAt_child held, Option.map_eq_none_iff] at free
          exact ⟨entries, held, free⟩
      · cases missing
    · split at missing
      · cases missing
      · split at missing
        · cases missing
        · split at missing
          · cases missing
          · exact jump _ rfl _ _ missing

theorem follow_empties (held : fs.get? here = some (.dir entries))
    (empties : parts.all (·.isEmpty) = true) :
    fs.follow final hops here parts = .ok (.found here (.dir entries)) := by
  induction parts with
  | nil => rw [follow_nil, held]
  | cons part parts ih =>
    rw [List.all_cons, Bool.and_eq_true, List.isEmpty_iff] at empties
    have stays : fs.move here part = .ok .stay := by
      rw [move, kindAt_of_get? held]
      simp [Node.kind, empties.1]
    rw [follow_cons, stays]
    exact ih empties.2

/-- A path to a missing name leads to the directory of that name once it has been made. -/
theorem Extends.follow_made (larger : fs.Extends wide)
    (missing : fs.follow false hops here parts = .ok (.absent dir name))
    (made : wide.get? (dir ++ [name]) = some (.dir entries)) :
    wide.follow true hops here parts = .ok (.found (dir ++ [name]) (.dir entries)) := by
  induction hops, here, parts using follow_induction with
  | nil hops here =>
    rw [follow_nil] at missing
    split at missing <;> cases missing
  | cons hops here part rest next jump =>
    rw [follow_cons] at missing ⊢
    split at missing
    · cases missing
    · rename_i moved
      rw [larger.move moved (by simp)]
      exact next _ missing
    · rename_i moved
      rw [larger.move moved (by simp)]
      exact next _ missing
    · rename_i moved
      rw [larger.move moved (by simp)]
      exact next _ missing
    · rename_i moved
      split at missing
      · rename_i empties
        cases missing
        have enters : wide.move dir name = .ok .enter := by
          obtain ⟨directory, ⟨stay, -⟩ | ⟨up, -⟩ | ⟨-, usable⟩⟩ := move_ok moved
          · cases stay
          · cases up
          · rw [move_usable (larger _ _ directory) usable, kindAt_of_get? made]
            rfl
        rw [enters]
        exact follow_empties made empties
      · cases missing
    · rename_i target moved
      rw [larger.move moved (by simp)]
      simp only [Bool.not_false, Bool.and_true, Bool.not_true, Bool.and_false,
        Bool.false_eq_true, if_false] at missing ⊢
      split at missing
      · cases missing
      · split at missing
        · cases missing
        · split at missing
          · cases missing
          · rename_i given
            simp only [if_neg given]
            exact jump _ rfl _ _ missing

/-- Where nothing is missing above a place, nothing new has come to stand there. -/
theorem Grows.same {grown : Place} (grows : fs.Grows wide (· <+: grown))
    (held : fs.outlineAt grown ≠ none) : wide.outlineAt = fs.outlineAt := by
  funext place
  rcases grows.each place with same | ⟨free, -, ⟨rest, rfl⟩⟩
  · exact same
  · -- a place above one that is held is held
    cases rest with
    | nil =>
      rw [List.append_nil] at held
      exact absurd free held
    | cons name rest =>
      have above : fs.outlineAt place = some .dir := Node.outlineAt_above held
      rw [free] at above
      cases above

theorem isDirectory_iff : fs.isDirectory p = true ↔
    ∃ dir entries, fs.resolve true p = .ok (.found dir (.dir entries)) := by
  simp only [← stat_iff, isDirectory]
  split
  · rename_i place node seen
    rw [seen]
    cases node <;> simp [Node.isDir]
  · rename_i fault seen
    simp [seen]

/-- Whether a path leads to a directory is seen from the outline. -/
theorem isDirectory_outline (same : wide.outlineAt = fs.outlineAt) (seen : wide.cwd = fs.cwd)
    (directory : wide.isDirectory p = true) : fs.isDirectory p = true := by
  obtain ⟨dir, entries, found⟩ := isDirectory_iff.mp directory
  have held : fs.outlineAt dir = some .dir := by
    rw [← same]
    exact Node.outlineAt_of_get? (resolve_found found)
  rcases spot_cases (resolve_outline same seen) with ⟨_, left, -⟩ | ⟨_, _, left, -⟩ |
    ⟨place, node, other, left, right⟩
  · rw [found] at left
    cases left
  · rw [found] at left
    cases left
  · rw [found] at left
    cases left
    obtain ⟨inner, got⟩ := Node.outlineAt_dir.mp held
    rw [show fs.root.get? dir = some other from resolve_found right] at got
    cases got
    exact isDirectory_iff.mpr ⟨dir, inner, right⟩

/-- A place that one of some paths leads to, as a directory. -/
def LedTo (fs : FileSystem) (ps : List Path) (place : Place) : Prop :=
  ∃ p ∈ ps, ∃ entries, fs.resolve true p = .ok (.found place (.dir entries))

theorem LedTo.tail {ps : List Path} (led : fs.LedTo ps place) : fs.LedTo (p :: ps) place := by
  obtain ⟨q, member, leads⟩ := led
  exact ⟨q, List.mem_cons_of_mem p member, leads⟩

theorem Grows.ledTo {made : Place → Prop} {ps : List Path} (grows : fs.Grows wide made)
    (led : fs.LedTo ps place) : wide.LedTo ps place := by
  obtain ⟨q, member, entries, leads⟩ := led
  obtain ⟨node, again⟩ := grows.larger.resolve grows.seen leads
  have still : wide.outlineAt place = some .dir :=
    grows.kept (Node.outlineAt_of_get? (resolve_found leads))
  obtain ⟨more, held⟩ := Node.outlineAt_dir.mp still
  rw [show wide.root.get? place = some node from resolve_found again] at held
  cases held
  exact ⟨q, member, more, again⟩

end FileSystem

namespace FileAction

open FileSystem

variable {fs after : FileSystem} {p : Path} {ps : List Path}

theorem makeDirectory_ok (ran : (makeDirectory p).run fs = (.ok (), after)) :
    ∃ dir name, fs.resolve false p = .ok (.absent dir name) ∧
      after.resolve true p = .ok (.found (dir ++ [name]) (.dir [])) ∧
      fs.Grows after (· = dir ++ [name]) := by
  rw [makeDirectory, run_bind, run_ofRead] at ran
  cases resolved : fs.resolve false p with
  | error fault =>
    rw [resolved] at ran
    cases ran
  | ok target =>
    rw [resolved] at ran
    cases target with
    | found place node => cases ran
    | absent dir name =>
      cases ran
      obtain ⟨passed, followed⟩ := resolve_ok resolved
      obtain ⟨entries, held, free⟩ := follow_absent_held followed
      have outlines := outlineAt_put_child held (Node.bare_free free) (.dir []) fun _ _ => rfl
      have fresh : fs.outlineAt (dir ++ [name]) = none := by
        rw [outlineAt, Node.outlineAt_none]
        exact (Node.get?_child held).trans free
      have grows : fs.Grows (fs.put (dir ++ [name]) (.dir [])) (· = dir ++ [name]) := by
        refine ⟨rfl, fun place => ?_⟩
        rw [outlines]
        split
        · rename_i same
          exact .inr ⟨same ▸ fresh, rfl, same⟩
        · exact .inl rfl
      refine ⟨dir, name, rfl, ?_, grows⟩
      rw [resolve_eq, passed, grows.seen]
      exact grows.larger.follow_made followed (get?_put_child held _)

theorem makeDirectory_error {fault : SystemFault}
    (ran : (makeDirectory p).run fs = (.error fault, after)) : after = fs := by
  rw [makeDirectory, run_bind, run_ofRead] at ran
  cases resolved : fs.resolve false p with
  | error other =>
    rw [resolved] at ran
    cases ran
    rfl
  | ok target =>
    rw [resolved] at ran
    cases target with
    | found place node =>
      cases ran
      rfl
    | absent dir name => cases ran

/-- A directory is made, or is there, or else the other way out is taken. -/
theorem ensureDirectory_ok {otherwise : SystemFault → FileAction Unit}
    (ran : (ensureDirectory p otherwise).run fs = (.ok (), after)) :
    (makeDirectory p).run fs = (.ok (), after) ∨
    fs.isDirectory p = true ∧ after = fs ∨
    fs.isDirectory p = false ∧ ∃ fault, (makeDirectory p).run fs = (.error fault, fs) ∧
      (otherwise fault).run fs = (.ok (), after) := by
  rw [ensureDirectory, run_tryCatch] at ran
  cases made : (makeDirectory p).run fs with
  | mk result mid =>
    rw [made] at ran
    cases result with
    | ok value => exact .inl ran
    | error fault =>
      obtain rfl := makeDirectory_error made
      have opened : (get : FileAction FileSystem).run mid = (.ok mid, mid) := rfl
      dsimp only at ran
      rw [run_bind, opened] at ran
      dsimp only at ran
      cases directory : mid.isDirectory p with
      | true =>
        rw [directory] at ran
        cases ran
        exact .inr (.inl ⟨rfl, rfl⟩)
      | false =>
        rw [directory] at ran
        exact .inr (.inr ⟨rfl, fault, rfl, ran⟩)

/-- Paths of which none is made, whatever the files are. -/
def Inert (ps : List Path) : Prop := ∀ fs, ((makeChain ps).run fs).2 = fs

/-- A path with its parents, each of them a name below the next, up to one whose own parents are not
    made. -/
inductive Chain : Path → List Path → Prop
  | base {p : Path} {ps : List Path} (inert : Inert ps) : Chain p ps
  | name {p : Path} {ps : List Path} {name : Bytes} (chain : Chain p ps)
    (filled : p.isEmpty = false) (isName : Path.IsName name) : Chain (p.join ⟨name⟩) (p :: ps)

theorem makeChain_cases (filled : p.isEmpty = false)
    (ran : (makeChain (p :: ps)).run fs = (.ok (), after)) :
    (makeDirectory p).run fs = (.ok (), after) ∨
    fs.isDirectory p = true ∧ after = fs ∨
    fs.isDirectory p = false ∧ (makeDirectory p).run fs = (.error .notFound, fs) ∧
      ∃ mid, (makeChain ps).run fs = (.ok (), mid) ∧
        ((makeDirectory p).run mid = (.ok (), after) ∨ mid.isDirectory p = true ∧ after = mid) := by
  rw [makeChain, filled] at ran
  simp only [Bool.false_eq_true, if_false] at ran
  rcases ensureDirectory_ok ran with made | there | ⟨missing, fault, refused, rest⟩
  · exact .inl made
  · exact .inr (.inl there)
  · refine .inr (.inr ⟨missing, ?_⟩)
    split at rest
    · rename_i notFound
      rw [notFound] at refused
      refine ⟨refused, ?_⟩
      rw [run_bind] at rest
      cases parents : (makeChain ps).run fs with
      | mk result mid =>
        rw [parents] at rest
        cases result with
        | error other => cases rest
        | ok value =>
          refine ⟨mid, rfl, ?_⟩
          rcases ensureDirectory_ok rest with made | there | ⟨-, fault, -, thrown⟩
          · exact .inl made
          · exact .inr there
          · cases thrown
    · cases rest

/-- A name that is found in a directory as soon as that has been made was there before. -/
theorem isDirectory_before {dir : Place} {entries : List (Bytes × Node)} {name : Bytes}
    (isName : Path.IsName name) (leads : after.resolve true p = .ok (.found dir (.dir entries)))
    (grows : fs.Grows after (· <+: dir)) (there : after.isDirectory (p.join ⟨name⟩) = true) :
    fs.isDirectory (p.join ⟨name⟩) = true := by
  obtain ⟨place, inner, found⟩ := isDirectory_iff.mp there
  have passed := (resolve_ok found).1
  have taken : entries.lookup name ≠ none := by
    intro free
    have absent : after.resolve true (p.join ⟨name⟩) = named dir entries name :=
      resolve_join isName passed leads (.inr (by simp [free]))
    rw [found, named, free] at absent
    split at absent <;> cases absent
  have now : after.outlineAt (dir ++ [name]) ≠ none := by
    rw [outlineAt, Ne, Node.outlineAt_none]
    rwa [show after.root.get? (dir ++ [name]) = entries.lookup name from
      get?_child (resolve_found leads)]
  have held : fs.outlineAt (dir ++ [name]) ≠ none := by
    rcases grows.each (dir ++ [name]) with same | ⟨-, -, above⟩
    · rwa [← same]
    · have shorter := above.length_le
      rw [List.length_append, List.length_singleton] at shorter
      omega
  have above : fs.outlineAt dir = some .dir := Node.outlineAt_above held
  exact isDirectory_outline (grows.same (by simp [above])) grows.seen there

theorem makeDirectory_grows (made : (makeDirectory p).run fs = (.ok (), after)) :
    ∃ dir entries, after.resolve true p = .ok (.found dir (.dir entries)) ∧
      fs.Grows after (· <+: dir) := by
  obtain ⟨dir, name, -, leads, grows⟩ := makeDirectory_ok made
  exact ⟨dir ++ [name], [], leads, grows.mono fun place same => same ▸ List.prefix_rfl⟩

theorem isDirectory_grows (there : fs.isDirectory p = true) :
    ∃ dir entries, fs.resolve true p = .ok (.found dir (.dir entries)) ∧
      fs.Grows fs (· <+: dir) := by
  obtain ⟨dir, entries, found⟩ := isDirectory_iff.mp there
  exact ⟨dir, entries, found, .refl _ _⟩

/-- The path of a chain that has been made leads to a directory, and whatever is new stands on the
    way to it. -/
theorem makeChain_ok (chain : Chain p ps) (filled : p.isEmpty = false)
    (ran : (makeChain (p :: ps)).run fs = (.ok (), after)) :
    ∃ dir entries, after.resolve true p = .ok (.found dir (.dir entries)) ∧
      fs.Grows after (· <+: dir) := by
  induction chain generalizing after with
  | base inert =>
    rcases makeChain_cases filled ran with made | ⟨there, rfl⟩ | ⟨missing, refused, mid, parents, rest⟩
    · exact makeDirectory_grows made
    · exact isDirectory_grows there
    · -- nothing has changed, so that the second attempt is like the first one
      have same := inert fs
      rw [parents] at same
      cases same
      rcases rest with made | ⟨there, -⟩
      · rw [refused] at made
        cases made
      · rw [missing] at there
        cases there
  | @name p ps name chain filled' isName ih =>
    rcases makeChain_cases filled ran with made | ⟨there, rfl⟩ | ⟨missing, refused, mid, parents, rest⟩
    · exact makeDirectory_grows made
    · exact isDirectory_grows there
    · obtain ⟨dir, entries, leads, grows⟩ := ih filled' parents
      rcases rest with made | ⟨there, rfl⟩
      · obtain ⟨dir', name', absent, found, grown⟩ := makeDirectory_ok made
        -- its parents lead to `dir` by now, so that the name was missing right there
        rw [resolve_join isName (resolve_ok absent).1 leads (.inl rfl), named] at absent
        obtain ⟨rfl, rfl⟩ : dir = dir' ∧ name = name' := by
          split at absent
          · cases absent
          · split at absent
            · cases absent
              exact ⟨rfl, rfl⟩
            · cases absent
        have wider : fs.Grows mid (· <+: dir ++ [name]) :=
          grows.mono fun place lies => lies.trans (List.prefix_append _ _)
        exact ⟨dir ++ [name], [], found,
          wider.trans (grown.mono fun place same => same ▸ List.prefix_rfl)⟩
      · rw [isDirectory_before isName leads grows there] at missing
        cases missing

section Ancestors

theorem inert_nil : Inert [] := fun _ => rfl

theorem inert_empty (ps : List Path) : Inert (⟨[]⟩ :: ps) := fun _ => rfl

theorem inert_cons (never : ∀ fs dir name, FileSystem.resolve fs false p ≠ .ok (.absent dir name))
    (inert : Inert ps) : Inert (p :: ps) := by
  have stays (fs : FileSystem) (otherwise : SystemFault → FileAction Unit)
      (leaves : ∀ fault, ((otherwise fault).run fs).2 = fs) :
      ((ensureDirectory p otherwise).run fs).2 = fs := by
    rw [ensureDirectory, run_tryCatch]
    cases made : (makeDirectory p).run fs with
    | mk result after =>
      cases result with
      | ok value =>
        obtain ⟨dir, name, absent, -⟩ := makeDirectory_ok made
        exact absurd absent (never fs dir name)
      | error fault =>
        obtain rfl := makeDirectory_error made
        have opened : (get : FileAction FileSystem).run after = (.ok after, after) := rfl
        dsimp only
        rw [run_bind, opened]
        dsimp only
        split
        · rfl
        · exact leaves fault
  intro fs
  rw [makeChain]
  split
  · rfl
  · apply stays
    intro fault
    split
    · rw [run_bind]
      have same := inert fs
      cases parents : (makeChain ps).run fs with
      | mk result mid =>
        rw [parents] at same
        cases same
        cases result with
        | ok value => exact stays _ _ fun _ => rfl
        | error other => rfl
    · rfl

theorem follow_up_last {fs : FileSystem} {hops : Nat} {here dir : Place} {parts : List Bytes}
    {name : Bytes} : fs.follow false hops here (parts ++ [[Path.dot, Path.dot]]) ≠
      .ok (.absent dir name) := by
  intro missing
  induction hops, here, parts using follow_induction with
  | nil hops here =>
    rw [List.nil_append, follow_cons] at missing
    cases moved : fs.move here [Path.dot, Path.dot] with
    | error fault =>
      rw [moved] at missing
      cases missing
    | ok m =>
      obtain ⟨-, ⟨-, stays⟩ | ⟨rfl, -⟩ | ⟨-, usable⟩⟩ := move_ok moved
      · exact absurd stays (by decide)
      · rw [moved] at missing
        dsimp only at missing
        rw [follow_nil] at missing
        split at missing <;> cases missing
      · exact usable.notUp rfl
  | cons hops here part rest next jump =>
    rw [List.cons_append, follow_cons] at missing
    split at missing
    · cases missing
    · exact next _ missing
    · exact next _ missing
    · exact next _ missing
    · simp at missing
    · have inner : (rest ++ [[Path.dot, Path.dot]]).isEmpty = false := by simp
      simp only [inner, Bool.false_and, Bool.false_eq_true, if_false] at missing
      split at missing
      · cases missing
      · split at missing
        · cases missing
        · rw [← List.append_assoc] at missing
          exact jump _ rfl _ _ missing

theorem resolve_ups {fs : FileSystem} {count : Nat} {dir : Place} {name : Bytes} :
    fs.resolve false ((Path.Anchor.ups (count + 1)).path []) ≠ .ok (.absent dir name) := by
  intro missing
  obtain ⟨-, followed⟩ := resolve_ok missing
  obtain ⟨parts, split⟩ := Path.split_join_ups fs.cwd count
  rw [split] at followed
  exact follow_up_last followed

theorem inert_ups (count steps : Nat) :
    Inert (Path.ancestorsWithin count ((Path.Anchor.ups steps).path [])) := by
  induction count generalizing steps with
  | zero =>
    cases steps with
    | zero => exact inert_empty []
    | succ steps => exact inert_cons (fun _ _ _ => resolve_ups) inert_nil
  | succ count ih =>
    cases steps with
    | zero => exact inert_empty _
    | succ steps =>
      rw [Path.ancestorsWithin, Path.Anchor.path_parent?_ups]
      exact inert_cons (fun _ _ _ => resolve_ups) (ih steps)

theorem inert_anchor (count : Nat) (a : Path.Anchor) :
    ∃ ps, Path.ancestorsWithin (count + 1) (a.path []) = a.path [] :: ps ∧ Inert ps := by
  cases a with
  | root => exact ⟨[], rfl, inert_nil⟩
  | here =>
    refine ⟨Path.ancestorsWithin count ⟨[]⟩, rfl, ?_⟩
    cases count with
    | zero => exact inert_empty []
    | succ count => exact inert_empty _
  | ups steps =>
    cases steps with
    | zero => exact ⟨[], rfl, inert_nil⟩
    | succ steps =>
      refine ⟨_, ?_, inert_ups count steps⟩
      rw [Path.ancestorsWithin, Path.Anchor.path_parent?_ups]

theorem chain_ancestorsWithin (count : Nat) (a : Path.Anchor) {names : List Bytes}
    (proper : ∀ n ∈ names, Path.IsName n) :
    ∃ ps, Path.ancestorsWithin count (a.path names) = a.path names :: ps ∧
      Chain (a.path names) ps := by
  induction count generalizing names with
  | zero => exact ⟨[], rfl, .base inert_nil⟩
  | succ count ih =>
    rcases List.eq_nil_or_concat names with rfl | ⟨init, last, rfl⟩
    · obtain ⟨ps, ancestors, inert⟩ := inert_anchor count a
      exact ⟨ps, ancestors, .base inert⟩
    · rw [List.concat_eq_append] at proper ⊢
      have parent := Path.Anchor.path_parent? (a := a) proper
      have properInit : ∀ n ∈ init, Path.IsName n := fun n member =>
        proper n (List.mem_append_left _ member)
      obtain ⟨ps, ancestors, chain⟩ := ih properInit
      refine ⟨a.path init :: ps, by rw [Path.ancestorsWithin, parent, ← ancestors], ?_⟩
      have isName := proper last (by simp)
      cases filled : (a.path init).isEmpty with
      | false =>
        rw [← Path.Anchor.path_join_name properInit isName]
        exact .name chain filled isName
      | true =>
        have empty : a.path init = ⟨[]⟩ := congrArg Path.mk (List.isEmpty_iff.mp filled)
        rw [empty]
        exact .base (inert_empty ps)

/-- A normal path that has been made with its parents leads to a directory, and whatever is new
    stands on the way to it. -/
theorem makeDirectories_ok {a : Path.Anchor} {names : List Bytes}
    (proper : ∀ n ∈ names, Path.IsName n) (filled : (a.path names).isEmpty = false)
    (ran : (makeDirectories (a.path names)).run fs = (.ok (), after)) :
    ∃ dir entries, after.resolve true (a.path names) = .ok (.found dir (.dir entries)) ∧
      fs.Grows after (· <+: dir) := by
  obtain ⟨ps, ancestors, chain⟩ := chain_ancestorsWithin (a.path names).bytes.length a proper
  rw [makeDirectories, Path.ancestors, ancestors] at ran
  exact makeChain_ok chain filled ran

end Ancestors

section AnyEnding

variable {result : Except SystemFault Unit}

/-- A directory is made, or nothing is done, or else the other way out is taken. -/
theorem ensureDirectory_cases {otherwise : SystemFault → FileAction Unit}
    (ran : (ensureDirectory p otherwise).run fs = (result, after)) :
    (makeDirectory p).run fs = (.ok (), after) ∨ after = fs ∨
    ∃ fault, (otherwise fault).run fs = (result, after) := by
  rw [ensureDirectory, run_tryCatch] at ran
  cases made : (makeDirectory p).run fs with
  | mk first mid =>
    rw [made] at ran
    cases first with
    | ok value =>
      cases ran
      exact .inl rfl
    | error fault =>
      obtain rfl := makeDirectory_error made
      have opened : (get : FileAction FileSystem).run mid = (.ok mid, mid) := rfl
      dsimp only at ran
      rw [run_bind, opened] at ran
      dsimp only at ran
      split at ran
      · cases ran
        exact .inr (.inl rfl)
      · exact .inr (.inr ⟨fault, ran⟩)

theorem makeDirectory_ledTo (made : (makeDirectory p).run fs = (.ok (), after)) :
    fs.Grows after (after.LedTo (p :: ps)) := by
  obtain ⟨dir, name, -, leads, grows⟩ := makeDirectory_ok made
  exact grows.mono fun place same => same ▸ ⟨p, List.mem_cons_self, [], leads⟩

/-- Directories are all that is made for a chain, even if it fails on the way, and each of them
    where one of the paths leads. -/
theorem makeChain_grows (ran : (makeChain ps).run fs = (result, after)) :
    fs.Grows after (after.LedTo ps) := by
  induction ps generalizing after result with
  | nil =>
    cases ran
    exact .refl fs _
  | cons p parents ih =>
    rw [makeChain] at ran
    split at ran
    · cases ran
      exact .refl fs _
    rcases ensureDirectory_cases ran with made | rfl | ⟨fault, otherwise⟩
    · exact makeDirectory_ledTo made
    · exact .refl after _
    split at otherwise
    · rw [run_bind] at otherwise
      cases above : (makeChain parents).run fs with
      | mk first mid =>
        rw [above] at otherwise
        have grown : fs.Grows mid (mid.LedTo (p :: parents)) :=
          (ih above).mono fun place => LedTo.tail
        cases first with
        | error fault =>
          cases otherwise
          exact grown
        | ok value =>
          rcases ensureDirectory_cases otherwise with made | rfl | ⟨fault, thrown⟩
          · have last : mid.Grows after (after.LedTo (p :: parents)) := makeDirectory_ledTo made
            exact (grown.mono fun place => last.ledTo).trans last
          · exact grown
          · cases thrown
            exact grown
    · cases otherwise
      exact .refl fs _

/-- Directories are all that is made for a path, and each of them on the way to it. -/
theorem makeDirectories_grows (ran : (makeDirectories p).run fs = (result, after)) :
    fs.Grows after (after.LedTo p.ancestors) := makeChain_grows ran

end AnyEnding

end FileAction

end FormatLint
