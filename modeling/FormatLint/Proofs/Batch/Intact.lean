import FormatLint.Proofs.Batch.Event
import Mathlib

/-!
No file is left half-written. The temporary files of the tasks stand at places of their own, which
no other task touches; all other files hold what they held before, or a text that a task has moved
there as a whole.
-/

namespace FormatLint.Batch

open FileSystem

section Effect

variable {o : Options} {file : Path} {name : Bytes} {fs after : FileSystem} {stage next : Stage}
  {place place' : Option Place} {q : Place} {held held' : Place → Prop}

/-- What stands outside the task's own place stays, unless the task has moved its text there. -/
theorem Effect.kept (effect : Effect o file name fs after stage place next place')
    (stands : fs.outlineAt q ≠ none) (other : place ≠ some q) :
    after.outlineAt q = fs.outlineAt q ∨
      ∃ w temporary r, stage = .filled w temporary r ∧ fs.FilePlace w.target q := by
  cases effect with
  | idles before idle grows sound =>
    rcases grows.each q with same | ⟨free, -⟩
    · exact .inl same
    · exact absurd free stands
  | opens leads free differs =>
    refine .inl (differs.other ?_)
    rintro rfl
    exact stands free
  | fills before holds same differs whole => exact .inl (differs.other fun h => other (h ▸ rfl))
  | drops before differs => exact .inl (differs.other fun h => other (h ▸ rfl))
  | @publishes w temporary r mine target mid data goes apart noDirectory leaves arrives whole =>
    by_cases same : q = target
    · subst same
      exact .inr ⟨w, temporary, r, rfl, goes⟩
    · rw [arrives.other same, leaves.other fun h => other (h ▸ rfl)]
      exact .inl rfl

/-- A file that is nobody's was there before, unless the task has moved its text there. -/
theorem Effect.content {data : FileData}
    (effect : Effect o file name fs after stage place next place')
    (stands : after.outlineAt q = some (.file data)) (other : place' ≠ some q) :
    fs.outlineAt q = some (.file data) ∧ place ≠ some q ∨
      ∃ w temporary r, stage = .filled w temporary r ∧ next = .done r ∧ fs.FilePlace w.target q ∧
        data.content = w.text.toUTF8 := by
  cases effect with
  | idles before idle grows sound =>
    rcases grows.each q with same | ⟨-, directory, -⟩
    · exact .inl ⟨same ▸ stands, by simp⟩
    · rw [directory] at stands
      cases stands
  | opens leads free differs =>
    rw [differs.other fun h => other (h ▸ rfl)] at stands
    exact .inl ⟨stands, by simp⟩
  | fills before holds same differs whole =>
    rw [differs.other fun h => other (h ▸ rfl)] at stands
    exact .inl ⟨stands, other⟩
  | @drops _ temporary e mine before differs =>
    have apart : q ≠ mine := by
      rintro rfl
      rw [differs.self] at stands
      cases stands
    rw [differs.other apart] at stands
    exact .inl ⟨stands, fun h => apart (Option.some.inj h).symm⟩
  | @publishes w temporary r mine target mid moved goes apart noDirectory leaves arrives whole =>
    -- the target is the only place that gains a file
    by_cases same : q = target
    · subst same
      rw [arrives.self] at stands
      cases stands
      exact .inr ⟨w, temporary, r, rfl, rfl, goes, whole⟩
    · rw [arrives.other same] at stands
      have apart : q ≠ mine := by
        rintro rfl
        rw [leaves.self] at stands
        cases stands
      rw [leaves.other apart] at stands
      exact .inl ⟨stands, fun h => apart (Option.some.inj h).symm⟩

/-- Until a text is moved to its target, what the target holds stays. -/
theorem Effect.spares {w : Writing} (effect : Effect o file name fs after stage place next place')
    (goes : fs.FilePlace w.target q) (fresh : name ≠ w.target.lastPart) (other : place ≠ some q)
    (unfinished : ∀ r, next ≠ .done r) :
    after.contentAt q = fs.contentAt q := by
  cases effect with
  | idles before idle grows sound => exact grows.contentAt q
  | opens leads free differs =>
    exact contentAt_congr (differs.other (goes.apart fresh (by rw [free]; simp)))
  | fills before holds same differs whole =>
    exact contentAt_congr (differs.other fun h => other (h ▸ rfl))
  | drops before differs => exact contentAt_congr (differs.other fun h => other (h ▸ rfl))
  | publishes goes apart noDirectory leaves arrives whole => exact absurd rfl (unfinished _)

/-- The files drift, if the task works on its own temporary file and on nobody else's. -/
theorem Effect.drifts (effect : Effect o file name fs after stage place next place')
    (owned : ∀ mine, place = some mine → held mine ∧ ∃ data, fs.outlineAt mine = some (.file data))
    (taken : ∀ q, held' q → held q ∨ place' = some q)
    (clear : ∀ w r q, stage.settled? = some (w, r) → fs.FilePlace w.target q → ¬ held q) :
    Drifts fs held after held' := by
  -- a task that holds nothing afterwards adds no place to those in use
  have fewer : place' = none → ∀ q, held' q → held q := by
    rintro rfl q now
    exact (taken q now).resolve_right (by simp)
  cases effect with
  | idles before idle grows sound => exact grows.drifts (fewer rfl)
  | opens leads free differs =>
    exact differs.drifts (.inl free) fun q now =>
      (taken q now).imp_right fun same => (Option.some.inj same).symm
  | @fills _ _ temporary mine data before holds same differs whole =>
    obtain ⟨own, stands⟩ := owned mine rfl
    exact differs.drifts (.inr ⟨stands, own⟩) fun q now =>
      (taken q now).imp_right fun same => (Option.some.inj same).symm
  | @drops _ temporary e mine before differs =>
    obtain ⟨own, stands⟩ := owned mine rfl
    exact differs.drifts (.inr ⟨stands, own⟩) fun q now => .inl (fewer rfl q now)
  | @publishes w temporary r mine target mid moved goes apart noDirectory leaves arrives whole =>
    obtain ⟨own, stands⟩ := owned mine rfl
    have gone : Drifts fs held mid held' :=
      leaves.drifts (.inr ⟨stands, own⟩) fun q now => .inl (fewer rfl q now)
    refine gone.trans (arrives.drifts_over ?_ ?_ fun q now => now)
    · rwa [leaves.other apart]
    · exact fun now => clear w r target rfl goes (fewer rfl _ now)

theorem Effect.temporary_iff (effect : Effect o file name fs after stage place next place') :
    next.temporary? = none ↔ place' = none := by
  cases effect with
  | idles before idle grows sound => simp [idle]
  | opens leads free differs => simp [Stage.temporary?]
  | fills before holds same differs whole => simp [holds]
  | drops before differs => simp [Stage.temporary?]
  | publishes goes apart noDirectory leaves arrives whole => simp [Stage.temporary?]

theorem Effect.own (effect : Effect o file name fs after stage place next (some q)) :
    place = some q ∨ fs.outlineAt q = none := by
  cases effect with
  | opens leads free differs => exact .inr free
  | fills before holds same differs whole => exact .inl rfl

theorem Effect.settled {w : Writing} {r : LintResult}
    (effect : Effect o file name fs after stage place next place')
    (settled : next.settled? = some (w, r)) :
    stage.settled? = some (w, r) ∨
      ∃ source, stage = .linted source r ∧ writing? o file source r = .ok (some w) := by
  cases effect with
  | idles before idle grows sound => exact sound w r settled
  | opens leads free differs => exact .inl settled
  | fills before holds same differs whole => exact .inl (same ▸ settled)
  | drops before differs => cases settled
  | publishes goes apart noDirectory leaves arrives whole => cases settled

end Effect

/-- What a task is going to write. -/
def Task.pending? (o : Options) (task : Task) : Option Writing :=
  match task.stage with
  | .linted source result => ((writing? o task.file source result).toOption).join
  | stage => stage.settled?.map (·.1)

/-- The files of a batch, and what they are worked on with. -/
structure Job where
  programs : Programs
  engines : Engines
  options : Options
  files : List Path
  world : World

namespace Job

/-- The tasks of a batch after some events. -/
def reached (job : Job) (events : List Event) : Running :=
  (Running.start job.files job.world).advances job.programs job.engines job.options events

/-- A name for temporary files that is not the name of any target. -/
structure Fresh (job : Job) (name : Bytes) : Prop where
  isName : Path.IsName name
  apart : ∀ file ∈ job.files, ∀ source result w,
    writing? job.options file source result = .ok (some w) → name ≠ w.target.lastPart

/-- Whether a task that an event makes fail can remove its temporary file. -/
def releases (job : Job) (before : List Event) (event : Event) : Bool :=
  match (job.reached before).tasks[event.index]?,
    (job.reached (before ++ [event])).tasks[event.index]? with
  | some task, some { stage := .failed _, .. } =>
    task.stage.temporary?.all fun temporary =>
      ((FileAction.remove temporary).run (job.reached before).world.files).1.isOk
  | _, _ => true

/-- Temporary files that are dropped are removed. -/
def Droppable (job : Job) (events : List Event) : Prop :=
  ∀ before event, before ++ [event] <+: events → job.releases before event = true

/-- A task has brought its final text to a place: after the events `early` it had settled on the
    text, and the event after `late` moved the whole of it to its target, which was there. -/
inductive Delivered (job : Job) (events : List Event) (place : Place) (content : ByteArray) : Prop
  | moved {early late : List Event} {event : Event} {file temporary : Path} {source : String}
    {result : LintResult} {w : Writing} (before : early <+: late)
    (within : late ++ [event] <+: events)
    (computed : (job.reached early).tasks[event.index]? = some ⟨file, .linted source result⟩)
    (settles : writing? job.options file source result = .ok (some w))
    (ready : (job.reached late).tasks[event.index]? = some ⟨file, .filled w temporary result⟩)
    (finished : (job.reached (late ++ [event])).tasks[event.index]? = some ⟨file, .done result⟩)
    (goes : (job.reached late).world.files.FilePlace w.target place)
    (whole : content = w.text.toUTF8)

/-- The places in use. -/
def Taken (spot : Nat → Option Place) (place : Place) : Prop := ∃ i, spot i = some place

/-- The temporary file of a task stands at a place, under a fresh name. -/
inductive Housed (job : Job) (fs : FileSystem) (held : Place → Prop) (stage : Stage) : Place → Prop
  | intro {temporary : Path} {dir : Place} {name : Bytes} {data : FileData}
    (holds : stage.temporary? = some temporary) (fresh : job.Fresh name)
    (lodged : fs.Lodged held temporary dir name)
    (stands : fs.outlineAt (dir ++ [name]) = some (.file data))
    (whole : ∀ w result, stage = .filled w temporary result → data.content = w.text.toUTF8) :
    Housed job fs held stage (dir ++ [name])

/-- A task has settled on a text in the course of some events. -/
def Settled (job : Job) (events : List Event) (index : Nat) (file : Path) (w : Writing)
    (result : LintResult) : Prop :=
  ∃ early source, early <+: events ∧
    (job.reached early).tasks[index]? = some ⟨file, .linted source result⟩ ∧
    writing? job.options file source result = .ok (some w)

/-- What holds after every event, where `spot` tells where the temporary files are. -/
structure Intact (job : Job) (events : List Event) (spot : Nat → Option Place) : Prop where
  drifts : job.world.files.Drifts (fun _ => False) (job.reached events).world.files (Taken spot)
  spotted : ∀ i file stage, (job.reached events).tasks[i]? = some ⟨file, stage⟩ →
    (stage.temporary? = none ↔ spot i = none)
  housed : ∀ i place, spot i = some place → ∃ file stage,
    (job.reached events).tasks[i]? = some ⟨file, stage⟩ ∧
    job.Housed (job.reached events).world.files (Taken spot) stage place
  apart : ∀ i j place, spot i = some place → spot j = some place → i = j
  settled : ∀ i file stage w result, (job.reached events).tasks[i]? = some ⟨file, stage⟩ →
    stage.settled? = some (w, result) → job.Settled events i file w result
  contents : ∀ place content, (job.reached events).world.files.contentAt place = some content →
    ¬ Taken spot place →
    job.world.files.contentAt place = some content ∨ job.Delivered events place content

variable {job : Job} {events : List Event} {event : Event}

theorem reached_concat (job : Job) (events : List Event) (event : Event) :
    job.reached (events ++ [event]) =
      (job.reached events).advance job.programs job.engines job.options event := by
  rw [reached, Running.advances, List.foldl_append]
  rfl

theorem reached_files (job : Job) (events : List Event) :
    (job.reached events).tasks.map (·.file) = job.files := by
  induction events using List.reverseRecOn with
  | nil =>
    rw [reached, Running.advances, List.foldl_nil, Running.start, List.map_map]
    exact List.map_id _
  | append_singleton events event ih =>
    rw [reached_concat, Running.advance]
    cases there : (job.reached events).tasks[event.index]? with
    | none => exact ih
    | some task =>
      have file : job.files[event.index]? = some task.file := by
        rw [← ih, List.getElem?_map, there]
        rfl
      obtain ⟨inside, same⟩ := List.getElem?_eq_some_iff.mp file
      simp only [Running.act_eq]
      rw [List.map_set, ih, ← same, List.set_getElem_self]

theorem listed {i : Nat} {file : Path} {stage : Stage}
    (there : (job.reached events).tasks[i]? = some ⟨file, stage⟩) : file ∈ job.files := by
  rw [← job.reached_files events]
  exact List.mem_map.mpr ⟨_, List.mem_of_getElem? there, rfl⟩

theorem Settled.fresh {i : Nat} {file : Path} {w : Writing} {result : LintResult} {name : Bytes}
    (settled : job.Settled events i file w result) (fresh : job.Fresh name) :
    name ≠ w.target.lastPart := by
  obtain ⟨early, source, -, there, settles⟩ := settled
  exact fresh.apart file (listed there) source result w settles

theorem Settled.mono {later : List Event} {i : Nat} {file : Path} {w : Writing}
    {result : LintResult} (settled : job.Settled events i file w result)
    (longer : events <+: later) : job.Settled later i file w result := by
  obtain ⟨early, source, before, rest⟩ := settled
  exact ⟨early, source, before.trans longer, rest⟩

theorem Delivered.mono {later : List Event} {place : Place} {content : ByteArray}
    (delivered : job.Delivered events place content) (longer : events <+: later) :
    job.Delivered later place content := by
  obtain ⟨before, within, computed, settles, ready, finished, goes, whole⟩ := delivered
  exact .moved before (within.trans longer) computed settles ready finished goes whole

theorem releases_removable {file : Path} {stage : Stage} {temporary : Path} {e : Error}
    (releases : job.releases events event = true)
    (there : (job.reached events).tasks[event.index]? = some ⟨file, stage⟩)
    (holds : stage.temporary? = some temporary)
    (failed : (job.reached (events ++ [event])).tasks[event.index]? = some ⟨file, .failed e⟩) :
    ((FileAction.remove temporary).run (job.reached events).world.files).1 = .ok () := by
  rw [Job.releases, there, failed] at releases
  dsimp only at releases
  rw [holds, Option.all_some] at releases
  cases removed : ((FileAction.remove temporary).run (job.reached events).world.files).1 with
  | ok value => rfl
  | error fault =>
    rw [removed] at releases
    cases releases

theorem droppable_of_all (checked : (List.range events.length).all (fun n =>
    events[n]?.all (job.releases (events.take n))) = true) : job.Droppable events := by
  intro before event within
  have short : before.length < events.length := by
    have length := within.length_le
    simp only [List.length_append, List.length_singleton] at length
    omega
  have front : events.take before.length = before := by
    obtain ⟨rest, rfl⟩ := within
    simp
  have last : events[before.length]? = some event := by
    obtain ⟨rest, rfl⟩ := within
    simp
  have released := List.all_eq_true.mp checked before.length (List.mem_range.mpr short)
  rwa [last, Option.all_some, front] at released

theorem Droppable.earlier {later : List Event} (droppable : job.Droppable later)
    (shorter : events <+: later) : job.Droppable events := fun before event within =>
  droppable before event (within.trans shorter)

theorem intact_nil (job : Job) : job.Intact [] fun _ => none := by
  have started : ∀ (i : Nat) (file : Path) (stage : Stage),
      (job.reached []).tasks[i]? = some ⟨file, stage⟩ → stage = .waiting := by
    intro i file stage there
    have member := List.mem_of_getElem? there
    obtain ⟨_, -, same⟩ := List.mem_map.mp member
    cases same
    rfl
  refine ⟨?_, ?_, by simp, by simp, ?_, fun _ _ held _ => .inl held⟩
  · have nobody : Taken (fun _ => none) = fun _ => False := by
      funext place
      simp [Taken]
    rw [nobody]
    exact .refl _ _
  · intro i file stage there
    rw [started i file stage there]
    simp [Stage.temporary?]
  · intro i file stage w result there settled
    rw [started i file stage there] at settled
    cases settled

namespace Intact

variable {spot : Nat → Option Place} {i : Nat} {file : Path} {stage : Stage}

/-- No temporary file stands where a task writes to. -/
theorem clear (intact : job.Intact events spot) {w : Writing} {result : LintResult} {q : Place}
    (settled : job.Settled events i file w result)
    (goes : (job.reached events).world.files.FilePlace w.target q) : ¬ Taken spot q := by
  rintro ⟨j, taken⟩
  obtain ⟨file', stage', -, housed⟩ := intact.housed j q taken
  cases housed with
  | intro holds fresh lodged stands whole =>
    exact goes.apart (settled.fresh fresh) (by rw [stands]; simp) rfl

theorem effect (intact : job.Intact events spot) (leave : job.engines.LeaveFiles job.programs)
    (fresh : job.Fresh event.name) (droppable : job.Droppable (events ++ [event]))
    (there : (job.reached events).tasks[event.index]? = some ⟨file, stage⟩) :
    ∃ next place, (job.reached (events ++ [event])).tasks =
        (job.reached events).tasks.set event.index ⟨file, next⟩ ∧
      Effect job.options file event.name (job.reached events).world.files
        (job.reached (events ++ [event])).world.files stage (spot event.index) next place := by
  cases ran : (stage.attempt job.engines job.options file event job.programs).run
      (job.reached events).world with
  | mk outcome after =>
    have next : job.reached (events ++ [event]) =
        ⟨(job.reached events).tasks.set event.index ⟨file, .ofOutcome outcome⟩, after⟩ := by
      rw [reached_concat, Running.advance, there]
      simp only [Running.act_eq, ran]
    rw [next]
    refine ⟨.ofOutcome outcome, ?_⟩
    cases holds : stage.temporary? with
    | none =>
      rw [(intact.spotted _ _ _ there).mp holds]
      obtain ⟨place, effect⟩ := idle_effect leave fresh.isName holds ran
      exact ⟨place, rfl, effect⟩
    | some temporary =>
      have inUse : spot event.index ≠ none := fun nowhere => by
        rw [(intact.spotted _ _ _ there).mpr nowhere] at holds
        cases holds
      obtain ⟨place, spotted⟩ := Option.ne_none_iff_exists'.mp inUse
      obtain ⟨file', stage', there', housed⟩ := intact.housed _ _ spotted
      rw [there] at there'
      cases there'
      cases housed with
      | intro holds' called lodged stands whole =>
        rw [holds] at holds'
        cases holds'
        have removable : ∀ e, outcome = .error e →
            ((FileAction.remove temporary).run (job.reached events).world.files).1 = .ok () := by
          rintro e rfl
          have failed : (job.reached (events ++ [event])).tasks[event.index]? =
              some ⟨file, .failed e⟩ := by
            rw [next]
            simp [(List.getElem?_eq_some_iff.mp there).1, Stage.ofOutcome]
          exact releases_removable (droppable events event (List.prefix_refl _)) there holds failed
        have apart : ∀ w result, stage.settled? = some (w, result) → _ ≠ w.target.lastPart :=
          fun w result is => (intact.settled _ _ _ _ _ there is).fresh called
        obtain ⟨place, effect⟩ :=
          held_effect lodged stands ⟨_, spotted⟩ holds whole apart removable ran
        rw [spotted]
        exact ⟨place, rfl, effect⟩

theorem unmoved {later : List Event} (intact : job.Intact events spot)
    (same : job.reached later = job.reached events) (longer : events <+: later) :
    job.Intact later spot := by
  obtain ⟨drifts, spotted, housed, apart, settled, contents⟩ := intact
  rw [← same] at drifts
  simp only [← same] at spotted housed settled contents
  exact ⟨drifts, spotted, housed, apart,
    fun i file stage w result there is => (settled i file stage w result there is).mono longer,
    fun place content holds free =>
      (contents place content holds free).imp_right fun delivered => delivered.mono longer⟩

section Step

variable {next : Stage} {place : Option Place} {j : Nat} {q : Place}
  (intact : job.Intact events spot)
  (there : (job.reached events).tasks[event.index]? = some ⟨file, stage⟩)
  (tasks : (job.reached (events ++ [event])).tasks =
    (job.reached events).tasks.set event.index ⟨file, next⟩)
  (effect : Effect job.options file event.name (job.reached events).world.files
    (job.reached (events ++ [event])).world.files stage (spot event.index) next place)

include there tasks in
theorem task_self : (job.reached (events ++ [event])).tasks[event.index]? = some ⟨file, next⟩ := by
  rw [tasks, List.getElem?_set_self (List.getElem?_eq_some_iff.mp there).1]

include tasks in
theorem task_other (other : j ≠ event.index) :
    (job.reached (events ++ [event])).tasks[j]? = (job.reached events).tasks[j]? := by
  rw [tasks, List.getElem?_set_ne other.symm]

include intact there effect in
theorem step_drifts :
    Drifts (job.reached events).world.files (Taken spot)
      (job.reached (events ++ [event])).world.files
      (Taken (Function.update spot event.index place)) := by
  refine effect.drifts (fun mine spotted => ⟨⟨_, spotted⟩, ?_⟩) ?_ fun w r q is goes =>
    intact.clear (intact.settled _ _ _ _ _ there is) goes
  · obtain ⟨_, _, -, housed⟩ := intact.housed _ _ spotted
    cases housed with
    | intro holds fresh lodged stands whole => exact ⟨_, stands⟩
  · rintro q ⟨j, now⟩
    by_cases same : j = event.index
    · subst same
      exact .inr (by simpa using now)
    · exact .inl ⟨j, by simpa [same] using now⟩

include intact there effect in
theorem step_other (other : j ≠ event.index) (spotted : spot j = some q) :
    ∃ file' stage', (job.reached events).tasks[j]? = some ⟨file', stage'⟩ ∧
      job.Housed (job.reached (events ++ [event])).world.files
        (Taken (Function.update spot event.index place)) stage' q := by
  obtain ⟨file', stage', there', housed⟩ := intact.housed j q spotted
  refine ⟨file', stage', there', ?_⟩
  have elsewhere : spot event.index ≠ some q := fun same => other (intact.apart _ _ _ spotted same)
  have drifts := step_drifts intact there effect
  cases housed with
  | @intro temporary dir name data holds fresh lodged stands whole =>
    have kept : (job.reached (events ++ [event])).world.files.outlineAt (dir ++ [name]) =
        (job.reached events).world.files.outlineAt (dir ++ [name]) := by
      rcases effect.kept (by rw [stands]; simp) elsewhere with same | ⟨w, temporary, r, rfl, goes⟩
      · exact same
      · exact absurd ⟨j, spotted⟩ (intact.clear (intact.settled _ _ _ _ _ there rfl) goes)
    exact .intro holds fresh (lodged.drift drifts) (kept.trans stands) whole

include intact there effect in
theorem step_self (fresh : job.Fresh event.name) (spotted : place = some q) :
    job.Housed (job.reached (events ++ [event])).world.files
      (Taken (Function.update spot event.index place)) next q := by
  have drifts := step_drifts intact there effect
  have old : ∀ p, spot event.index = some p →
      job.Housed (job.reached events).world.files (Taken spot) stage p := by
    intro p spotted
    obtain ⟨file', stage', there', housed⟩ := intact.housed _ _ spotted
    rw [there] at there'
    cases there'
    exact housed
  subst spotted
  generalize spot event.index = before at effect old
  cases effect with
  | opens leads free differs =>
    exact .intro rfl fresh ⟨fresh.isName, _, _, _, _, rfl, leads, drifts⟩ differs.self (by simp)
  | fills before holds same differs whole =>
    have housed := old _ rfl
    cases housed with
    | intro holds' called lodged stands whole' =>
      rw [before] at holds'
      cases holds'
      exact .intro holds called (lodged.drift drifts) differs.self whole

include intact effect in
/-- Two tasks never share a place: a new file is made where nothing is. -/
theorem step_apart {k : Nat} (first : Function.update spot event.index place j = some q)
    (second : Function.update spot event.index place k = some q) : j = k := by
  have alone : ∀ k, k ≠ event.index → spot k = some q → place ≠ some q := by
    rintro k other spotted rfl
    rcases effect.own with same | free
    · exact other (intact.apart _ _ _ spotted same)
    · obtain ⟨_, _, -, housed⟩ := intact.housed k q spotted
      cases housed with
      | intro holds fresh lodged stands whole =>
        rw [stands] at free
        cases free
  by_cases atJ : j = event.index <;> by_cases atK : k = event.index
  · rw [atJ, atK]
  · subst atJ
    rw [Function.update_self] at first
    rw [Function.update_of_ne atK] at second
    exact absurd first (alone k atK second)
  · subst atK
    rw [Function.update_self] at second
    rw [Function.update_of_ne atJ] at first
    exact absurd second (alone j atJ first)
  · rw [Function.update_of_ne atJ] at first
    rw [Function.update_of_ne atK] at second
    exact intact.apart _ _ _ first second

include intact there effect in
theorem step_settled {w : Writing} {result : LintResult}
    (settled : next.settled? = some (w, result)) :
    job.Settled (events ++ [event]) event.index file w result := by
  rcases effect.settled settled with before | ⟨source, rfl, settles⟩
  · exact (intact.settled _ _ _ _ _ there before).mono (List.prefix_append _ _)
  · exact ⟨events, source, List.prefix_append _ _, there, settles⟩

include intact there tasks effect in
/-- What stands at a place of nobody's is old, or has just been delivered. -/
theorem step_contents {content : ByteArray}
    (holds : (job.reached (events ++ [event])).world.files.contentAt q = some content)
    (free : ¬ Taken (Function.update spot event.index place) q) :
    job.world.files.contentAt q = some content ∨ job.Delivered (events ++ [event]) q content := by
  obtain ⟨data, stands, rfl⟩ := contentAt_iff.mp holds
  have notMine : place ≠ some q := fun mine => free ⟨event.index, by simpa using mine⟩
  rcases effect.content stands notMine with
    ⟨stood, elsewhere⟩ | ⟨w, temporary, r, rfl, rfl, goes, whole⟩
  · have free' : ¬ Taken spot q := by
      rintro ⟨j, spotted⟩
      by_cases same : j = event.index
      · exact elsewhere (same ▸ spotted)
      · exact free ⟨j, by rwa [Function.update_of_ne same]⟩
    exact (intact.contents q _ (contentAt_iff.mpr ⟨data, stood, rfl⟩) free').imp_right
      fun delivered => delivered.mono (List.prefix_append _ _)
  · obtain ⟨early, source, before, computed, settles⟩ := intact.settled _ _ _ _ _ there rfl
    exact .inr (.moved before (List.prefix_refl _) computed settles there (task_self there tasks)
      goes whole)

end Step

theorem advance (intact : job.Intact events spot) (leave : job.engines.LeaveFiles job.programs)
    (fresh : job.Fresh event.name) (droppable : job.Droppable (events ++ [event])) :
    ∃ spot', job.Intact (events ++ [event]) spot' := by
  have longer : events <+: events ++ [event] := List.prefix_append _ _
  cases there : (job.reached events).tasks[event.index]? with
  | none =>
    refine ⟨spot, intact.unmoved ?_ longer⟩
    rw [reached_concat, Running.advance, there]
  | some task =>
    obtain ⟨file, stage⟩ := task
    obtain ⟨next, place, tasks, effect⟩ := intact.effect leave fresh droppable there
    have mine := task_self there tasks
    -- for each field, the task of the event and then all others
    refine ⟨Function.update spot event.index place,
      intact.drifts.trans (step_drifts intact there effect),
      fun j file' stage' there' => ?_, fun j q spotted => ?_, fun j k q => step_apart intact effect,
      fun j file' stage' w result there' settled => ?_,
      fun q content => step_contents intact there tasks effect⟩
    all_goals by_cases same : j = event.index
    · subst same
      rw [mine] at there'
      cases there'
      rw [Function.update_self]
      exact effect.temporary_iff
    · rw [task_other tasks same] at there'
      rw [Function.update_of_ne same]
      exact intact.spotted _ _ _ there'
    · subst same
      rw [Function.update_self] at spotted
      exact ⟨file, next, mine, step_self intact there effect fresh spotted⟩
    · rw [Function.update_of_ne same] at spotted
      rw [task_other tasks same]
      exact step_other intact there effect same spotted
    · subst same
      rw [mine] at there'
      cases there'
      exact step_settled intact there effect settled
    · rw [task_other tasks same] at there'
      exact (intact.settled _ _ _ _ _ there' settled).mono longer

section Conclusion

variable {place : Place}

/-- A file that existed is still there, with its old content or a delivered one. -/
theorem old_file {old : ByteArray} (intact : job.Intact events spot)
    (held : job.world.files.contentAt place = some old) :
    ∃ now, (job.reached events).world.files.contentAt place = some now ∧
      (now = old ∨ job.Delivered events place now) := by
  obtain ⟨data, stands, rfl⟩ := contentAt_iff.mp held
  have file : job.world.files.kindAt place = some .file := by
    rw [kindAt_eq_outlineAt, stands]
    rfl
  obtain ⟨still, free⟩ := intact.drifts.file place file not_false
  obtain ⟨node, there, shape⟩ := get?_of_kindAt still
  cases node with
  | file new =>
    have now : (job.reached events).world.files.contentAt place = some new.content :=
      contentAt_iff.mpr ⟨new, Node.outlineAt_file.mpr there, rfl⟩
    refine ⟨new.content, now, ?_⟩
    rcases intact.contents place _ now free with same | delivered
    · rw [held] at same
      exact .inl (Option.some.inj same).symm
    · exact .inr delivered
  | dir entries => cases shape
  | link target => cases shape

/-- Once the tasks that have begun are through, no place is in use. -/
theorem returned (intact : job.Intact events spot)
    (through : ∀ task ∈ (job.reached events).tasks,
      task.stage = .waiting ∨ task.stage.isFinal = true) (place : Place) : ¬ Taken spot place := by
  rintro ⟨i, spotted⟩
  obtain ⟨file, stage, there, housed⟩ := intact.housed i place spotted
  cases housed with
  | intro holds fresh lodged stands whole =>
    rcases through _ (List.mem_of_getElem? there) with rfl | final
    · cases holds
    · cases stage with
      | staged w temporary result => cases final
      | filled w temporary result => cases final
      | _ => cases holds

theorem pending {task : Task} {w : Writing} (intact : job.Intact events spot)
    (there : (job.reached events).tasks[i]? = some task)
    (pending : task.pending? job.options = some w) :
    ∃ result, job.Settled events i task.file w result := by
  obtain ⟨file, stage⟩ := task
  have known : ∀ result, stage.settled? = some (w, result) →
      ∃ result, job.Settled events i file w result := fun result settled =>
    ⟨result, intact.settled _ _ _ _ _ there settled⟩
  cases stage with
  | linted source result =>
    simp only [Task.pending?] at pending
    cases settles : writing? job.options file source result with
    | error e =>
      rw [settles] at pending
      cases pending
    | ok w? =>
      rw [settles] at pending
      obtain rfl : w? = some w := by simpa [Except.toOption] using pending
      exact ⟨result, events, source, List.prefix_refl _, there, settles⟩
  | prepared _ result =>
    cases pending
    exact known result rfl
  | staged _ _ result =>
    cases pending
    exact known result rfl
  | filled _ _ result =>
    cases pending
    exact known result rfl
  | _ => cases pending

/-- A task that does not finish in an event leaves its target alone. -/
theorem target_kept {task : Task} {w : Writing} (intact : job.Intact events spot)
    (leave : job.engines.LeaveFiles job.programs) (fresh : job.Fresh event.name)
    (droppable : job.Droppable (events ++ [event]))
    (there : (job.reached events).tasks[event.index]? = some task)
    (pending : task.pending? job.options = some w)
    (unfinished : ∀ result, (job.reached (events ++ [event])).tasks[event.index]? ≠
      some ⟨task.file, .done result⟩)
    (goes : (job.reached events).world.files.FilePlace w.target place) :
    (job.reached (events ++ [event])).world.files.contentAt place =
      (job.reached events).world.files.contentAt place := by
  obtain ⟨result, settled⟩ := intact.pending there pending
  obtain ⟨next, place', tasks, effect⟩ := intact.effect leave fresh droppable there
  refine effect.spares goes (settled.fresh fresh) (fun mine => ?_) fun r done => ?_
  · exact intact.clear settled goes ⟨_, mine⟩
  · exact unfinished r (done ▸ task_self there tasks)

end Conclusion

end Intact

/-- The invariant holds after every list of events. -/
theorem intact (leave : job.engines.LeaveFiles job.programs)
    (fresh : ∀ event ∈ events, job.Fresh event.name) (droppable : job.Droppable events) :
    ∃ spot, job.Intact events spot := by
  -- the last event comes last, since what has been delivered is told by the events before it
  induction events using List.reverseRecOn with
  | nil => exact ⟨_, job.intact_nil⟩
  | append_singleton events event ih =>
    obtain ⟨spot, intact⟩ := ih (fun next member => fresh next (by simp [member]))
      (droppable.earlier (List.prefix_append _ _))
    exact intact.advance leave (fresh event (by simp)) droppable

end Job

/-- No file is ever left half-written, whatever is refused and in whatever order the tasks go on. At
    every moment a file that existed holds what it held or the whole text of a task whose target it
    is; once the tasks that have begun are through, so does every new file; and until a task moves
    its text to its target, whether it fails or not, its target holds what it held. -/
theorem no_file_half_written (job : Job) (events : List Event)
    (leave : job.engines.LeaveFiles job.programs)
    (fresh : ∀ event ∈ events, job.Fresh event.name) (droppable : job.Droppable events) :
    (∀ place old, job.world.files.contentAt place = some old →
      ∃ now, (job.reached events).world.files.contentAt place = some now ∧
        (now = old ∨ job.Delivered events place now)) ∧
    ((∀ task ∈ (job.reached events).tasks, task.stage = .waiting ∨ task.stage.isFinal = true) →
      ∀ place new, (job.reached events).world.files.contentAt place = some new →
        job.world.files.contentAt place = none → job.Delivered events place new) ∧
    ∀ before event, before ++ [event] <+: events → ∀ task w place,
      (job.reached before).tasks[event.index]? = some task → task.pending? job.options = some w →
      (∀ result, (job.reached (before ++ [event])).tasks[event.index]? ≠
        some ⟨task.file, .done result⟩) →
      (job.reached before).world.files.FilePlace w.target place →
      (job.reached (before ++ [event])).world.files.contentAt place =
        (job.reached before).world.files.contentAt place := by
  obtain ⟨spot, intact⟩ := job.intact leave fresh droppable
  refine ⟨fun place old => intact.old_file, fun returned place new holds absent => ?_,
    fun before event within task w place there pending unfinished goes => ?_⟩
  · have free := intact.returned returned place
    exact (intact.contents place new holds free).resolve_left (by simp [absent])
  · have earlier : before <+: events := (List.prefix_append before [event]).trans within
    have called := fresh event (within.subset (by simp))
    obtain ⟨spot', intact'⟩ := job.intact leave
      (fun next member => fresh next (earlier.subset member)) (droppable.earlier earlier)
    exact intact'.target_kept leave called (droppable.earlier within) there pending unfinished goes

/-- Files `/a` and `/b`. -/
def pairWorld : World where
  files :=
    { root := .dir
        [([0x61], .file { content := "x".toUTF8 }), ([0x62], .file { content := "y".toUTF8 })]
      cwd := ⟨[0x2F]⟩ }

/-- Each text with a mark at its end, in place. -/
def pairJob : Job where
  programs := fun _ => throw .notFound
  engines := { format := fun text _ => pure (text ++ "!"), lint := fun _ file => pure { file } }
  options := { relativeStem := ⟨[0x2F]⟩ }
  files := [⟨[0x2F, 0x61]⟩, ⟨[0x2F, 0x62]⟩]
  world := pairWorld

/-- Both tasks make their temporary files, the second one fails in the middle of its text, and the
    first one comes to its end. -/
def pairEvents : List Event :=
  let goes (index : Nat) : Event := { index, name := [0x74, 0x30 + index.toUInt8] }
  [0, 1, 0, 1, 0, 1, 0, 1, 0, 1].map goes ++
    [⟨1, [0x74], .refused { written := "y".toUTF8 } (Error.ofBareFault .notFound)⟩, goes 0, goes 0]

theorem pairJob_fresh {name : Bytes} (begins : name.head? = some 0x74) (plain : Path.slash ∉ name) :
    pairJob.Fresh name := by
  have isName : Path.IsName name := by
    refine ⟨?_, ?_, ?_, plain⟩ <;> rintro rfl <;> cases begins
  refine ⟨isName, fun file listed source result w settles => ?_⟩
  have target : w.target = file := by
    rw [writing?] at settles
    cases output : result.output with
    | none =>
      rw [output] at settles
      cases settles
    | some text =>
      rw [output] at settles
      cases settles
      rfl
  rintro rfl
  have parts : ∀ file ∈ pairJob.files, file.lastPart.head? ≠ some 0x74 := by decide
  exact parts file listed (target ▸ begins)

theorem no_file_half_written_sample :
    (pairJob.reached pairEvents).world.files.contentAt [[0x61]] = some "x!".toUTF8 ∧
    pairJob.Delivered pairEvents [[0x61]] "x!".toUTF8 ∧
    (pairJob.reached pairEvents).world.files.contentAt [[0x62]] = some "y".toUTF8 ∧
    (pairJob.reached pairEvents).isFinished = true ∧
    ∀ place new, (pairJob.reached pairEvents).world.files.contentAt place = some new →
      pairWorld.files.contentAt place = none → pairJob.Delivered pairEvents place new := by
  have leave : pairJob.engines.LeaveFiles pairJob.programs :=
    ⟨fun _ _ _ => rfl, fun _ _ _ => rfl⟩
  have named : ∀ event ∈ pairEvents, event.name.head? = some 0x74 ∧ Path.slash ∉ event.name := by
    decide
  have fresh : ∀ event ∈ pairEvents, pairJob.Fresh event.name := fun event member =>
    pairJob_fresh (named event member).1 (named event member).2
  have droppable : pairJob.Droppable pairEvents := Job.droppable_of_all (by cbv)
  obtain ⟨old, new, -⟩ := no_file_half_written pairJob pairEvents leave fresh droppable
  have written : (pairJob.reached pairEvents).world.files.contentAt [[0x61]] =
      some "x!".toUTF8 := by cbv
  have finished : (pairJob.reached pairEvents).isFinished = true := by cbv
  refine ⟨written, ?_, by cbv, finished, fun place content => new ?_ place content⟩
  · obtain ⟨now, holds, same⟩ := old [[0x61]] "x".toUTF8 (by cbv)
    rw [written] at holds
    cases holds
    exact same.resolve_left (by decide)
  · intro task member
    exact .inr (List.all_eq_true.mp finished task member)

end FormatLint.Batch
