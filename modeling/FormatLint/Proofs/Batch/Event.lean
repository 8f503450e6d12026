import FormatLint.Proofs.Batch.Turn
import FormatLint.Proofs.Batch.Write
import FormatLint.Proofs.FileSystem.Drift

/-!
Batches in which things go wrong. An event lets a task go on, by a whole step or by a part of one,
and says what is refused meanwhile and which name a temporary file gets. Whatever happens, a task
makes directories, keeps one temporary file, drops it, or moves it over its target.
-/

namespace FormatLint.Batch

/-- How far a step comes that is not taken as a whole. -/
structure Progress where
  /-- How many of the directories on the way to the target, from the last one on, are not made. -/
  unmade : Nat := 0
  /-- What the temporary file holds. -/
  written : ByteArray := .empty

/-- How a step goes. -/
inductive Course where
  /-- As far as the files allow it. -/
  | granted
  /-- A file that the step looks at cannot be seen. -/
  | unseen (fault : SystemFault)
  /-- A part of it is done, and the rest is left for later. -/
  | begun (p : Progress)
  /-- A part of it is done, and then something fails: an engine, or the file system. -/
  | refused (p : Progress) (e : Error)

structure Event where
  /-- The task that goes on. -/
  index : Nat
  /-- The name of a temporary file, if one is made. -/
  name : Bytes
  course : Course := .granted

namespace Stage

/-- The temporary file of a task. -/
def temporary? : Stage → Option Path
  | staged _ temporary _ | filled _ temporary _ => some temporary
  | _ => none

/-- What a task is going to write, once that is settled. -/
def settled? : Stage → Option (Writing × LintResult)
  | prepared w result | staged w _ result | filled w _ result => some (w, result)
  | _ => none

/-- The whole step of a task, with a name for its temporary file. -/
def grant (engines : Engines) (o : Options) (file : Path) (name : Bytes) : Stage → Action Stage
  | prepared w result => do
    let temporary ← Action.change (Error.ofFault "create temporary file" w.directory)
      (FileAction.createPrivate w.directory name)
    return staged w temporary result
  | stage => stage.next engines o file

/-- The step of a task that does not see the file that it looks at: its own, or its target. -/
def unseeing (engines : Engines) (o : Options) (file : Path) (name : Bytes) (fault : SystemFault) :
    Stage → Action Stage
  | waiting => return done (unreadable file fault)
  | staged w temporary result => do
    Writing.guarded temporary
      (Action.change w.fault (FileAction.fill temporary w.text.toUTF8))
    return filled w temporary result
  | stage => stage.grant engines o file name

/-- A part of the next step of a task. -/
def begin (o : Options) (file : Path) (p : Progress) (stage : Stage) : Action Unit :=
  modify fun world => { world with
    files := match stage with
      | linted source result =>
        match writing? o file source result with
        | .ok (some w) =>
          ((FileAction.makeChain (w.directory.ancestors.drop p.unmade)).run world.files).2
        | _ => world.files
      | staged _ temporary _ => ((FileAction.fill temporary p.written).run world.files).2
      | _ => world.files }

/-- A part of the next step of a task, which then fails. -/
def fail (o : Options) (file : Path) (p : Progress) (e : Error) (stage : Stage) : Action Stage :=
  let failing : Action Unit := do
    stage.begin o file p
    throw e
  match stage with
  | staged _ temporary _ | filled _ temporary _ => do
    Writing.guarded temporary failing
    return stage
  | done _ | failed _ => return stage
  | _ => do
    failing
    return stage

/-- What a task does in an event. -/
def attempt (engines : Engines) (o : Options) (file : Path) (event : Event) (stage : Stage) :
    Action Stage :=
  match event.course with
  | .granted => stage.grant engines o file event.name
  | .unseen fault => stage.unseeing engines o file event.name fault
  | .begun p => do
    stage.begin o file p
    return stage
  | .refused p e => stage.fail o file p e

/-- The stage that the outcome of an action leads to. -/
def ofOutcome : Except Error Stage → Stage
  | .ok stage => stage
  | .error e => failed e

end Stage

namespace Running

/-- What happens in an event. -/
def advance (programs : Programs) (engines : Engines) (o : Options) (r : Running) (event : Event) :
    Running :=
  match r.tasks[event.index]? with
  | none => r
  | some task =>
    r.act programs event.index task.file (task.stage.attempt engines o task.file event)

/-- What happens in the events of a list, one after the other. -/
def advances (programs : Programs) (engines : Engines) (o : Options) (r : Running)
    (events : List Event) : Running :=
  events.foldl (advance programs engines o) r

variable {programs : Programs} {engines : Engines} {o : Options}

theorem act_eq (r : Running) (index : Nat) (file : Path) (a : Action Stage) :
    r.act programs index file a =
      { tasks := r.tasks.set index { file, stage := .ofOutcome ((a programs).run r.world).1 }
        world := ((a programs).run r.world).2 } := by
  rw [act]
  cases (a programs).run r.world with
  | mk outcome world => cases outcome <;> rfl

/-- A step is an event in which nothing is refused. -/
theorem step_eq_advance (r : Running) (index : Nat) : ∃ name, Path.IsName name ∧
    r.step programs engines o index = r.advance programs engines o { index, name } := by
  cases there : r.tasks[index]? with
  | none =>
    refine ⟨[0x61], ⟨by decide, by decide, by decide, by decide⟩, ?_⟩
    rw [step, advance, there]
  | some task =>
    obtain ⟨file, stage⟩ := task
    simp only [step_eq_act there, advance, there]
    cases stage with
    | prepared w result =>
      obtain ⟨name, isName, same⟩ : ∃ name, Path.IsName name ∧
          (FileAction.createTemporary w.directory ".tmp" "").run r.world.files =
            (FileAction.createPrivate w.directory name).run r.world.files :=
        FileAction.createTemporary_private _ _ (by decide) (by decide) (by decide)
      have opens : (w.openTemporary programs).run r.world =
          (Action.change (Error.ofFault "create temporary file" w.directory)
            (FileAction.createPrivate w.directory name) programs).run r.world := by
        rw [Writing.openTemporary, Action.run_change, Action.run_change, same]
      have steps : ((Stage.prepared w result).next engines o file programs).run r.world =
          ((Stage.prepared w result).grant engines o file name programs).run r.world := by
        rw [Stage.next, Stage.grant, Action.run_bind, Action.run_bind, opens]
      refine ⟨name, isName, ?_⟩
      rw [act_eq, act_eq, steps]
      rfl
    | _ => exact ⟨[0x61], ⟨by decide, by decide, by decide, by decide⟩, rfl⟩

/-- A schedule is a list of events in which nothing is refused. -/
theorem run_eq_advances (r : Running) (schedule : List Nat) : ∃ events : List Event,
    events.map (·.index) = schedule ∧
      (∀ event ∈ events, Path.IsName event.name ∧ event.course = .granted) ∧
      r.run programs engines o schedule = r.advances programs engines o events := by
  induction schedule generalizing r with
  | nil => exact ⟨[], rfl, by simp, rfl⟩
  | cons index schedule ih =>
    obtain ⟨name, isName, steps⟩ := step_eq_advance r index
    obtain ⟨events, indices, granted, runs⟩ := ih (r.step programs engines o index)
    refine ⟨{ index, name } :: events, by rw [List.map_cons, indices], ?_, ?_⟩
    · intro event member
      rcases List.mem_cons.mp member with rfl | member
      · exact ⟨isName, rfl⟩
      · exact granted event member
    · rw [advances, List.foldl_cons, ← steps]
      exact runs

end Running

/-- Engines that leave the files alone. -/
structure Engines.LeaveFiles (programs : Programs) (engines : Engines) : Prop where
  format : ∀ text file world, ((engines.format text file programs).run world).2.files = world.files
  lint : ∀ text file world, ((engines.lint text file programs).run world).2.files = world.files

/-- What a step of a task does to the files, and to the place of its temporary file. -/
inductive Effect (o : Options) (file : Path) (name : Bytes) (fs after : FileSystem) :
    Stage → Option Place → Stage → Option Place → Prop
  /-- Without a temporary file, directories are all that it makes. -/
  | idles {stage next : Stage} {made : Place → Prop} (before : stage.temporary? = none)
    (idle : next.temporary? = none) (grows : fs.Grows after made)
    (sound : ∀ w result, next.settled? = some (w, result) → stage.settled? = some (w, result) ∨
      ∃ source, stage = .linted source result ∧ writing? o file source result = .ok (some w)) :
    Effect o file name fs after stage none next none
  | opens {w : Writing} {result : LintResult} {directory : Path} {dir : Place}
    {entries : List (Bytes × Node)} {data : FileData}
    (leads : fs.resolve true directory = .ok (.found dir (.dir entries)))
    (free : fs.outlineAt (dir ++ [name]) = none)
    (differs : fs.Differs after (dir ++ [name]) (some (.file data))) :
    Effect o file name fs after (.prepared w result) none
      (.staged w (directory.join ⟨name⟩) result) (some (dir ++ [name]))
  | fills {stage next : Stage} {temporary : Path} {place : Place} {data : FileData}
    (before : stage.temporary? = some temporary) (holds : next.temporary? = some temporary)
    (same : next.settled? = stage.settled?)
    (differs : fs.Differs after place (some (.file data)))
    (whole : ∀ w result, next = .filled w temporary result → data.content = w.text.toUTF8) :
    Effect o file name fs after stage (some place) next (some place)
  | drops {stage : Stage} {temporary : Path} {e : Error} {place : Place}
    (before : stage.temporary? = some temporary) (differs : fs.Differs after place none) :
    Effect o file name fs after stage (some place) (.failed e) none
  | publishes {w : Writing} {temporary : Path} {result : LintResult} {place target : Place}
    {mid : FileSystem} {data : FileData} (goes : fs.FilePlace w.target target)
    (apart : target ≠ place) (noDirectory : fs.outlineAt target ≠ some .dir)
    (leaves : fs.Differs mid place none)
    (arrives : mid.Differs after target (some (.file data)))
    (whole : data.content = w.text.toUTF8) :
    Effect o file name fs after (.filled w temporary result) (some place) (.done result) none

section Held

open FileSystem

variable {programs : Programs} {world after : World} {held : Place → Prop} {temporary : Path}
  {dir : Place} {name : Bytes} {data : FileData} {w : Writing} {step : Action Unit} {e : Error}
  {result : Except Error Unit}

theorem Writing.guarded_error
    (ran : (Writing.guarded temporary step programs).run world = (.error e, after)) :
    ∃ mid, (step programs).run world = (.error e, mid) ∧
      after.files = ((FileAction.remove temporary).run mid.files).2 := by
  rw [guarded, Action.run_tryCatch] at ran
  split at ran
  · cases ran
  · rename_i failure mid both
    cases ran
    exact ⟨mid, both, rfl⟩

variable (lodged : Lodged world.files held temporary dir name)
  (stands : world.files.outlineAt (dir ++ [name]) = some (.file data)) (mine : held (dir ++ [name]))

include lodged stands in
theorem change_update {f : FileData → FileData} {wrap : SystemFault → Error}
    (ran : (Action.change wrap (FileAction.update temporary f) programs).run world =
      (result, after)) :
    ∃ now, world.files.Differs after.files (dir ++ [name]) (some (.file now)) ∧
      (result = .ok () → now = f data) := by
  rw [Action.run_change] at ran
  cases updated : (FileAction.update temporary f).run world.files with
  | mk outcome files =>
    rw [updated] at ran
    obtain ⟨now, differs, changed⟩ := lodged.update stands updated
    cases ran
    refine ⟨now, differs, fun fine => changed ?_⟩
    cases outcome with
    | ok value => rfl
    | error fault => cases fine

include lodged stands mine in
theorem fillTemporary_differs
    (ran : (w.fillTemporary temporary programs).run world = (result, after)) :
    ∃ now, world.files.Differs after.files (dir ++ [name]) (some (.file now)) ∧
      (result = .ok () → now.content = w.text.toUTF8) := by
  rw [Writing.fillTemporary] at ran
  rcases Action.bind_cases ran with ⟨e, rfl, failed⟩ | ⟨⟨⟩, mid, filled, rest⟩
  · obtain ⟨now, differs, -⟩ := change_update lodged stands failed
    exact ⟨now, differs, by simp⟩
  · obtain ⟨now, differs, changed⟩ := change_update lodged stands filled
    have whole : now.content = w.text.toUTF8 := by rw [changed rfl]
    have still : Lodged mid.files held temporary dir name :=
      lodged.drift (differs.drifts (.inr ⟨⟨data, stands⟩, mine⟩) fun q taken => .inl taken)
    rcases Action.bind_cases rest with ⟨e, -, wrong⟩ | ⟨seen, same, opened, moded⟩
    · cases wrong
    cases opened
    cases stat : mid.files.stat w.target with
    | error fault =>
      rw [stat] at moded
      cases moded
      exact ⟨now, differs, fun _ => whole⟩
    | ok found =>
      obtain ⟨place, node⟩ := found
      rw [stat] at moded
      cases node with
      | file old =>
        obtain ⟨last, again, changed⟩ := change_update still differs.self moded
        exact ⟨last, differs.trans again, fun fine => by rw [changed fine, whole]⟩
      | dir inner =>
        cases moded
        exact ⟨now, differs, fun _ => whole⟩
      | link path =>
        cases moded
        exact ⟨now, differs, fun _ => whole⟩

include lodged stands mine in
theorem guarded_drops (removable : ((FileAction.remove temporary).run world.files).1 = .ok ())
    (own : ∀ mid, (step programs).run world = (.error e, mid) →
      ∃ now, world.files.Differs mid.files (dir ++ [name]) (some (.file now)))
    (ran : (Writing.guarded temporary step programs).run world = (.error e, after)) :
    world.files.Differs after.files (dir ++ [name]) none := by
  obtain ⟨mid, failed, files⟩ := Writing.guarded_error ran
  obtain ⟨now, differs⟩ := own mid failed
  rw [files]
  exact lodged.remove stands mine removable differs

variable {o : Options} {file : Path} {fresh : Bytes} {stage next : Stage}
  {outcome : Except Error Stage} {p : Progress}

include lodged stands mine in
theorem guarded_effect
    (ran : ((Writing.guarded temporary step >>= fun _ => pure next) programs).run world =
      (outcome, after))
    (before : stage.temporary? = some temporary)
    (holds : next.temporary? = some temporary) (same : next.settled? = stage.settled?)
    (own : ∀ result mid, (step programs).run world = (result, mid) →
      ∃ now, world.files.Differs mid.files (dir ++ [name]) (some (.file now)) ∧
        (result = .ok () → ∀ w r, next = .filled w temporary r → now.content = w.text.toUTF8))
    (removable : ∀ e, outcome = .error e →
      ((FileAction.remove temporary).run world.files).1 = .ok ()) :
    ∃ place, Effect o file fresh world.files after.files stage (some (dir ++ [name]))
      (Stage.ofOutcome outcome) place := by
  rcases Action.bind_cases ran with ⟨e, rfl, failed⟩ | ⟨⟨⟩, mid, went, returned⟩
  · refine ⟨none, .drops before (guarded_drops lodged stands mine (removable e rfl) ?_ failed)⟩
    intro mid failing
    obtain ⟨now, differs, -⟩ := own _ mid failing
    exact ⟨now, differs⟩
  · cases returned
    obtain ⟨now, differs, whole⟩ := own _ _ (Writing.guarded_ok went)
    exact ⟨_, .fills before holds same differs (whole rfl)⟩

include lodged stands in
theorem begin_differs {result : Except Error Unit} (holds : stage.temporary? = some temporary)
    (ran : (stage.begin o file p programs).run world = (result, after)) :
    ∃ now, world.files.Differs after.files (dir ++ [name]) (some (.file now)) ∧
      ∀ w r, stage = .filled w temporary r → now = data := by
  cases ran
  cases stage with
  | staged w temporary r =>
    cases holds
    obtain ⟨now, differs, -⟩ := lodged.update stands rfl
    exact ⟨now, differs, by simp⟩
  | filled w temporary r => exact ⟨data, .refl stands, fun _ _ _ => rfl⟩
  | _ => cases holds

include lodged stands mine in
theorem publish_effect {r : LintResult} (whole : data.content = w.text.toUTF8)
    (apart : name ≠ w.target.lastPart)
    (removable : ∀ e, outcome = .error e →
      ((FileAction.remove temporary).run world.files).1 = .ok ())
    (ran : ((Writing.guarded temporary (w.publish temporary) >>= fun _ =>
      pure (Stage.done r)) programs).run world = (outcome, after)) :
    ∃ place, Effect o file fresh world.files after.files (.filled w temporary r)
      (some (dir ++ [name])) (Stage.ofOutcome outcome) place := by
  rcases Action.bind_cases ran with ⟨e, rfl, failed⟩ | ⟨⟨⟩, mid, went, returned⟩
  · refine ⟨none, .drops rfl (guarded_drops lodged stands mine (removable e rfl) ?_ failed)⟩
    intro mid failing
    rw [Writing.publish, Action.run_change] at failing
    cases moved : (FileAction.rename temporary w.target).run world.files with
    | mk result files =>
      rw [moved] at failing
      cases result with
      | ok value => cases failing
      | error fault =>
        cases failing
        rw [FileAction.rename_error moved]
        exact ⟨data, .refl stands⟩
  · cases returned
    obtain ⟨files, moved, rfl⟩ := Action.change_ok (Writing.guarded_ok went)
    obtain ⟨mid, target, goes, elsewhere, noDirectory, leaves, arrives⟩ :=
      lodged.rename stands apart moved
    exact ⟨none, .publishes goes elsewhere noDirectory leaves arrives whole⟩

include lodged stands in
theorem failing_differs {result : Except Error Unit} (holds : stage.temporary? = some temporary)
    (ran : (((stage.begin o file p >>= fun _ => throw e) : Action Unit) programs).run world =
      (result, after)) :
    (∃ now, world.files.Differs after.files (dir ++ [name]) (some (.file now))) ∧
      result ≠ .ok () := by
  rcases Action.bind_cases ran with ⟨e, rfl, failed⟩ | ⟨⟨⟩, mid, began, thrown⟩
  · cases failed
  · cases thrown
    obtain ⟨now, differs, -⟩ := begin_differs lodged stands holds began
    exact ⟨⟨now, differs⟩, by simp⟩

include lodged stands mine in
/-- What an event does to a task with a temporary file. -/
theorem held_effect {engines : Engines} {event : Event} (holds : stage.temporary? = some temporary)
    (whole : ∀ w result, stage = .filled w temporary result → data.content = w.text.toUTF8)
    (apart : ∀ w result, stage.settled? = some (w, result) → name ≠ w.target.lastPart)
    (removable : ∀ e, outcome = .error e →
      ((FileAction.remove temporary).run world.files).1 = .ok ())
    (ran : (stage.attempt engines o file event programs).run world = (outcome, after)) :
    ∃ place, Effect o file event.name world.files after.files stage (some (dir ++ [name]))
      (Stage.ofOutcome outcome) place := by
  obtain ⟨index, called, course⟩ := event
  -- whatever a refused step has written is dropped again
  have failing : ∀ p e, ((Writing.guarded temporary (stage.begin o file p >>= fun _ => throw e) >>=
      fun _ => pure stage) programs).run world = (outcome, after) →
      ∃ place, Effect o file called world.files after.files stage (some (dir ++ [name]))
        (Stage.ofOutcome outcome) place := by
    intro p e ran
    refine guarded_effect lodged stands mine ran holds holds rfl (fun result mid ran => ?_)
      removable
    obtain ⟨⟨now, differs⟩, failed⟩ := failing_differs lodged stands holds ran
    exact ⟨now, differs, fun fine => absurd fine failed⟩
  cases course with
  | begun p =>
    rcases Action.bind_cases ran with ⟨e, -, failed⟩ | ⟨⟨⟩, mid, began, returned⟩
    · cases failed
    · cases returned
      obtain ⟨now, differs, same⟩ := begin_differs lodged stands holds began
      refine ⟨_, .fills holds holds rfl differs fun w r is => ?_⟩
      rw [same w r is, whole w r is]
  | granted =>
    cases stage with
    | staged w temporary r =>
      cases holds
      have filling : ((Writing.guarded temporary (w.fillTemporary temporary) >>= fun _ =>
          pure (.filled w temporary r)) programs).run world = (outcome, after) := ran
      refine guarded_effect lodged stands mine filling rfl rfl rfl (fun result mid ran => ?_)
        removable
      obtain ⟨now, differs, filled⟩ := fillTemporary_differs lodged stands mine ran
      exact ⟨now, differs, fun fine w r is => by cases is; exact filled fine⟩
    | filled w temporary r =>
      cases holds
      exact publish_effect lodged stands mine (whole w r rfl) (apart w r rfl) removable ran
    | _ => cases holds
  | unseen fault =>
    cases stage with
    | staged w temporary r =>
      cases holds
      have filling : ((Writing.guarded temporary
            (Action.change w.fault (FileAction.fill temporary w.text.toUTF8)) >>= fun _ =>
          pure (.filled w temporary r)) programs).run world = (outcome, after) := ran
      refine guarded_effect lodged stands mine filling rfl rfl rfl (fun result mid ran => ?_)
        removable
      obtain ⟨now, differs, filled⟩ := change_update lodged stands ran
      exact ⟨now, differs, fun fine w r is => by cases is; rw [filled fine]⟩
    | filled w temporary r =>
      cases holds
      exact publish_effect lodged stands mine (whole w r rfl) (apart w r rfl) removable ran
    | _ => cases holds
  | refused p e =>
    cases stage with
    | staged w temporary r =>
      cases holds
      exact failing p e ran
    | filled w temporary r =>
      cases holds
      exact failing p e ran
    | _ => cases holds

end Held

section Idle

open FileSystem

variable {programs : Programs} {engines : Engines} {o : Options} {file : Path} {world after : World}
  {stage : Stage} {outcome : Except Error Stage} {fresh : Bytes} {p : Progress} {e : Error}

theorem Effect.unsettled {made : Place → Prop} (idle : stage.temporary? = none)
    (grows : world.files.Grows after.files made)
    (unsettled : ∀ next, outcome = .ok next → next.settled? = none ∧ next.temporary? = none) :
    Effect o file fresh world.files after.files stage none (Stage.ofOutcome outcome) none := by
  cases outcome with
  | error e => exact .idles idle rfl grows (by simp [Stage.ofOutcome, Stage.settled?])
  | ok next =>
    obtain ⟨settles, free⟩ := unsettled next rfl
    exact .idles idle free grows (by simp [Stage.ofOutcome, settles])

theorem formatSource_files (leave : engines.LeaveFiles programs) (o : Options) (file : Path)
    (source : String) (world : World) :
    ((formatSource engines o file source programs).run world).2.files = world.files := by
  rw [formatSource]
  cases o.check with
  | true => rfl
  | false => exact leave.format source file { world with requests := _ :: world.requests }

theorem lintFormatted_files (leave : engines.LeaveFiles programs) (o : Options) (file : Path)
    (source text : String) (world : World) :
    ((lintFormatted engines o file source text programs).run world).2.files = world.files := by
  have asked := leave.lint text file { world with requests := .lint text file :: world.requests }
  have asking : (Action.ask (.lint text file) programs).run world =
      (.ok (), { world with requests := .lint text file :: world.requests }) := rfl
  rw [lintFormatted, Action.run_bind_ok asking, Action.run_bind]
  cases ran : (engines.lint text file programs).run _ with
  | mk result mid =>
    rw [ran] at asked
    cases result <;> exact asked

theorem begin_grows (idle : stage.temporary? = none) {result : Except Error Unit}
    (ran : (stage.begin o file p programs).run world = (result, after)) :
    ∃ made, world.files.Grows after.files made := by
  cases ran
  cases stage with
  | linted source r =>
    dsimp only
    split
    · exact ⟨_, FileAction.makeChain_grows rfl⟩
    · exact ⟨fun _ => False, .refl _ _⟩
  | staged w temporary r => cases idle
  | _ => exact ⟨fun _ => False, .refl _ _⟩

/-- Most steps settle nothing and leave the files alone. -/
theorem quiet_effect (idle : stage.temporary? = none) (same : after.files = world.files)
    (unsettled : ∀ next, outcome = .ok next → next.settled? = none ∧ next.temporary? = none) :
    ∃ place, Effect o file fresh world.files after.files stage none (Stage.ofOutcome outcome)
      place := by
  rw [same]
  exact ⟨none, .unsettled idle (.refl _ fun _ => False) unsettled⟩

theorem read_effect
    (ran : (Stage.waiting.next engines o file programs).run world = (outcome, after)) :
    ∃ place, Effect o file fresh world.files after.files .waiting none (Stage.ofOutcome outcome)
      place := by
  have reading : (readSource file programs).run world =
    (.ok (world.files.readText file), world) := rfl
  rw [Stage.next, Action.run_bind_ok reading] at ran
  cases read : world.files.readText file with
  | error fault =>
    rw [read] at ran
    cases ran
    exact quiet_effect rfl rfl (by rintro _ ⟨⟩; exact ⟨rfl, rfl⟩)
  | ok source =>
    rw [read] at ran
    cases ran
    exact quiet_effect rfl rfl (by rintro _ ⟨⟩; exact ⟨rfl, rfl⟩)

theorem prepare_effect {source : String} {r : LintResult}
    (ran : ((Stage.linted source r).next engines o file programs).run world = (outcome, after)) :
    ∃ place, Effect o file fresh world.files after.files (.linted source r) none
      (Stage.ofOutcome outcome) place := by
  rw [Stage.next] at ran
  cases settled : writing? o file source r with
  | error e =>
    rw [settled] at ran
    cases ran
    exact quiet_effect rfl rfl (by simp)
  | ok w? =>
    rw [settled] at ran
    cases w? with
    | none =>
      cases ran
      exact quiet_effect rfl rfl (by rintro _ ⟨⟩; exact ⟨rfl, rfl⟩)
    | some w =>
      have preparing : ((w.prepare >>= fun _ => pure (.prepared w r)) programs).run world =
        (outcome, after) := ran
      have grows : ∃ made, world.files.Grows ((w.prepare programs).run world).2.files made := by
        rw [Writing.prepare, Action.run_change]
        exact ⟨_, FileAction.makeDirectories_grows rfl⟩
      rcases Action.bind_cases preparing with ⟨e, rfl, failed⟩ | ⟨⟨⟩, mid, made, returned⟩
      · rw [failed] at grows
        obtain ⟨made, grows⟩ := grows
        exact ⟨none, .unsettled rfl grows (by simp)⟩
      · cases returned
        rw [made] at grows
        obtain ⟨made, grows⟩ := grows
        refine ⟨none, .idles rfl rfl grows ?_⟩
        rintro _ _ ⟨⟩
        exact .inr ⟨source, rfl, settled⟩

theorem open_effect {w : Writing} {r : LintResult} (isName : Path.IsName fresh)
    (ran : ((Stage.prepared w r).grant engines o file fresh programs).run world =
      (outcome, after)) :
    ∃ place, Effect o file fresh world.files after.files (.prepared w r) none
      (Stage.ofOutcome outcome) place := by
  rcases Action.bind_cases ran with ⟨e, rfl, failed⟩ | ⟨temporary, mid, created, returned⟩
  · rw [Action.run_change] at failed
    cases made : (FileAction.createPrivate w.directory fresh).run world.files with
    | mk result files =>
      rw [made] at failed
      cases result with
      | ok temporary => cases failed
      | error fault =>
        cases failed
        exact quiet_effect rfl (FileAction.createPrivate_error made) (by simp)
  · cases returned
    obtain ⟨files, made, rfl⟩ := Action.change_ok created
    obtain ⟨dir, entries, leads, rfl, free, differs⟩ := createPrivate_differs isName made
    exact ⟨_, .opens leads free differs⟩

theorem grant_effect (leave : engines.LeaveFiles programs) (isName : Path.IsName fresh)
    (idle : stage.temporary? = none)
    (ran : (stage.grant engines o file fresh programs).run world = (outcome, after)) :
    ∃ place, Effect o file fresh world.files after.files stage none (Stage.ofOutcome outcome)
      place := by
  cases stage with
  | waiting =>
    have reading : (Stage.waiting.next engines o file programs).run world = (outcome, after) := ran
    exact read_effect reading
  | opened source =>
    rcases Action.bind_cases ran with ⟨e, rfl, failed⟩ | ⟨text, mid, formatting, returned⟩
    · refine quiet_effect rfl ?_ (by simp)
      rw [← formatSource_files leave o file source world, failed]
    · cases returned
      refine quiet_effect rfl ?_ (by rintro _ ⟨⟩; exact ⟨rfl, rfl⟩)
      rw [← formatSource_files leave o file source world, formatting]
  | formatted source text =>
    rcases Action.bind_cases ran with ⟨e, rfl, failed⟩ | ⟨r, mid, linting, returned⟩
    · refine quiet_effect rfl ?_ (by simp)
      rw [← lintFormatted_files leave o file source text world, failed]
    · cases returned
      refine quiet_effect rfl ?_ (by rintro _ ⟨⟩; exact ⟨rfl, rfl⟩)
      rw [← lintFormatted_files leave o file source text world, linting]
  | linted source r =>
    have preparing : ((Stage.linted source r).next engines o file programs).run world =
      (outcome, after) := ran
    exact prepare_effect preparing
  | prepared w r => exact open_effect isName ran
  | staged w temporary r => cases idle
  | filled w temporary r => cases idle
  | done r =>
    cases ran
    exact quiet_effect rfl rfl (by rintro _ ⟨⟩; exact ⟨rfl, rfl⟩)
  | failed e =>
    cases ran
    exact quiet_effect rfl rfl (by rintro _ ⟨⟩; exact ⟨rfl, rfl⟩)

/-- What an event does to a task without a temporary file. -/
theorem idle_effect {event : Event} (leave : engines.LeaveFiles programs)
    (isName : Path.IsName event.name) (idle : stage.temporary? = none)
    (ran : (stage.attempt engines o file event programs).run world = (outcome, after)) :
    ∃ place, Effect o file event.name world.files after.files stage none
      (Stage.ofOutcome outcome) place := by
  obtain ⟨index, name, course⟩ := event
  cases course with
  | granted => exact grant_effect leave isName idle ran
  | unseen fault =>
    cases stage with
    | waiting =>
      cases ran
      exact ⟨none, .unsettled rfl (.refl _ fun _ => False) (by rintro _ ⟨⟩; exact ⟨rfl, rfl⟩)⟩
    | staged w temporary r => cases idle
    | _ => exact grant_effect leave isName idle ran
  | begun p =>
    rcases Action.bind_cases ran with ⟨e, -, failed⟩ | ⟨⟨⟩, mid, began, returned⟩
    · cases failed
    · cases returned
      obtain ⟨made, grows⟩ := begin_grows idle began
      exact ⟨none, .idles idle idle grows fun w r is => .inl is⟩
  | refused p e =>
    have failing : (((stage.begin o file p >>= fun _ => throw e) >>= fun (_ : Unit) =>
        pure stage : Action Stage) programs).run world = (outcome, after) →
        ∃ place, Effect o file name world.files after.files stage none (Stage.ofOutcome outcome)
          place := by
      intro ran
      rcases Action.bind_cases ran with ⟨_, rfl, failed⟩ | ⟨⟨⟩, mid, went, -⟩
      · rcases Action.bind_cases failed with ⟨e, -, wrong⟩ | ⟨⟨⟩, mid, began, thrown⟩
        · cases wrong
        · cases thrown
          obtain ⟨made, grows⟩ := begin_grows idle began
          exact ⟨none, .unsettled idle grows (by simp)⟩
      · obtain ⟨_, _, -, wrong⟩ := Action.bind_ok went
        cases wrong
    cases stage with
    | staged w temporary r => cases idle
    | filled w temporary r => cases idle
    | done r =>
      cases ran
      exact ⟨none, .idles rfl rfl (.refl _ fun _ => False) fun _ _ is => .inl is⟩
    | failed e =>
      cases ran
      exact ⟨none, .idles rfl rfl (.refl _ fun _ => False) fun _ _ is => .inl is⟩
    | _ => exact failing ran

end Idle

end FormatLint.Batch
