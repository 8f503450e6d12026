import FormatLint.Proofs.Batch.Turn
import Mathlib

/-!
Batches underway, with engines that are functions. What the files come to is a relation between the
results so far and the file system; where it is kept by every write and leaves each file readable as
it was until its own turn comes, each task ends as if its file had been alone, whatever the order of
turns.
-/

namespace FormatLint.Batch

/-- Engines that are functions of a text and its file. -/
def Engines.ofPure (format : String → Path → String) (lint : String → Path → LintResult) :
    Engines where
  format text file := pure (format text file)
  lint text file := pure (lint text file)

/-- What a file comes to when it is worked on as it stands in `fs`. -/
def outcome (format : String → Path → String) (lint : String → Path → LintResult)
    (fs : FileSystem) (file : Path) : LintResult :=
  match fs.readText file with
  | .error fault =>
    { file, messages := [Message.failure ("Cannot read file: " ++ fault.message)], output := none }
  | .ok source =>
    let text := format source file
    let linted := lint text file
    { file
      messages := linted.messages
      output :=
        match linted.output with
        | some fixed => some fixed
        | none => if text = source then none else some text }

section

variable {format : String → Path → String} {lint : String → Path → LintResult} {fs : FileSystem}
  {o : Options} {paths : List Path} {programs : Programs}
  {Written : List LintResult → FileSystem → Prop}

theorem outcome_file (fs : FileSystem) (file : Path) : (outcome format lint fs file).file = file := by
  rw [outcome]
  split <;> rfl

namespace Stage

def result? : Stage → Option LintResult
  | .done result => some result
  | _ => none

/-- How many turns it takes at least to come this far. -/
def rank : Stage → Nat
  | .waiting => 0
  | .opened _ => 1
  | .formatted .. => 2
  | .linted .. | .prepared .. | .staged .. | .filled .. => 3
  | .done _ | .failed _ => 4

/-- A stage that the work on a file goes through, with the texts that it has when the file is
    worked on as it stands in `fs`. -/
def Sound (format : String → Path → String) (lint : String → Path → LintResult) (fs : FileSystem)
    (file : Path) : Stage → Prop
  | .waiting => True
  | .opened source => fs.readText file = .ok source
  | .formatted source text => fs.readText file = .ok source ∧ text = format source file
  | .linted source result =>
    fs.readText file = .ok source ∧ result = outcome format lint fs file
  | .done result => result = outcome format lint fs file
  | _ => False

end Stage

/-- The results that there are so far. -/
def finished (tasks : List Task) : List LintResult := tasks.filterMap (·.stage.result?)

theorem finished_split (before after : List Task) (task : Task) :
    finished (before ++ task :: after) =
      finished before ++ (task.stage.result?.toList ++ finished after) := by
  rw [finished, List.filterMap_append, List.filterMap_cons]
  cases task.stage.result? <;> rfl

/-- Results of other files of a batch. -/
def Others (paths : List Path) (file : Path) (results : List LintResult) : Prop :=
  ∀ result ∈ results, result.file ∈ paths ∧ result.file ≠ file

/-- What the files come to with the results, such that tasks do not get in each other's way. -/
structure Independent (format : String → Path → String) (lint : String → Path → LintResult)
    (programs : Programs) (o : Options) (fs : FileSystem) (paths : List Path)
    (Written : List LintResult → FileSystem → Prop) : Prop where
  start : Written [] fs
  /-- A file reads as before until it is done. -/
  reads : ∀ results files file, file ∈ paths → Others paths file results → Written results files →
    files.readText file = fs.readText file
  /-- A file that cannot be read is not written. -/
  unread : ∀ before after files file fault, file ∈ paths → fs.readText file = .error fault →
    Written (before ++ after) files → Written (before ++ outcome format lint fs file :: after) files
  /-- A write that succeeds keeps what the others wrote. -/
  writes : ∀ before after world next file source stage, file ∈ paths →
    Others paths file (before ++ after) → fs.readText file = .ok source →
    Written (before ++ after) world.files →
    ((Stage.linted source (outcome format lint fs file)).turn (.ofPure format lint) o file
      programs).run world = (.ok stage, next) →
    Written (before ++ outcome format lint fs file :: after) next.files

/-- The state of a batch after the turns of `order`. -/
structure Underway (format : String → Path → String) (lint : String → Path → LintResult)
    (fs : FileSystem) (paths : List Path) (Written : List LintResult → FileSystem → Prop)
    (order : List Nat) (r : Running) : Prop where
  files : r.tasks.map (·.file) = paths
  sound : ∀ task ∈ r.tasks, task.stage.Sound format lint fs task.file
  advanced : ∀ i task, r.tasks[i]? = some task → min 4 (order.count i) ≤ task.stage.rank
  written : Written (finished r.tasks) r.world.files

theorem underway_start {world : World} (start : Written [] world.files) :
    Underway format lint world.files paths Written [] (Running.start paths world) := by
  refine ⟨?_, ?_, ?_, ?_⟩
  · simp [Running.start, Function.comp_def]
  · intro task member
    obtain ⟨file, -, rfl⟩ := List.mem_map.mp member
    exact True.intro
  · simp
  · have none : finished (Running.start paths world).tasks = [] := by
      rw [finished, List.filterMap_eq_nil_iff]
      intro task member
      obtain ⟨file, -, rfl⟩ := List.mem_map.mp member
      rfl
    rw [none]
    exact start

theorem Underway.set {order : List Nat} {r : Running} {index : Nat} {task : Task} {stage : Stage}
    {world : World} (underway : Underway format lint fs paths Written order r)
    (there : r.tasks[index]? = some task) (sound : stage.Sound format lint fs task.file)
    (further : min 4 (task.stage.rank + 1) ≤ stage.rank)
    (written : Written (finished (r.tasks.set index { file := task.file, stage })) world.files) :
    Underway format lint fs paths Written (order ++ [index])
      { tasks := r.tasks.set index { file := task.file, stage }, world } := by
  refine ⟨?_, ?_, ?_, written⟩
  · rw [← underway.files, List.map_set]
    apply List.ext_getElem?
    intro i
    by_cases same : index = i
    · subst same
      have inside : index < (r.tasks.map (·.file)).length := by
        rw [List.length_map]
        exact (List.getElem?_eq_some_iff.mp there).1
      rw [List.getElem?_set_self inside, List.getElem?_map, there, Option.map_some]
    · rw [List.getElem?_set_ne same]
  · intro other member
    rcases List.mem_or_eq_of_mem_set member with member | rfl
    · exact underway.sound other member
    · exact sound
  · intro i other held
    have inside : index < r.tasks.length := (List.getElem?_eq_some_iff.mp there).1
    rw [List.count_append, List.count_singleton]
    by_cases same : index = i
    · subst same
      rw [List.getElem?_set_self inside] at held
      cases held
      have before := underway.advanced index task there
      simp only [beq_self_eq_true, if_true]
      omega
    · rw [List.getElem?_set_ne same] at held
      have before := underway.advanced i other held
      have other : (index == i) = false := by simpa using same
      rw [other]
      simpa using before

theorem split_at {tasks : List Task} {index : Nat} {task : Task} (there : tasks[index]? = some task)
    (new : Task) : ∃ before after, tasks = before ++ task :: after ∧
      tasks.set index new = before ++ new :: after := by
  induction tasks generalizing index with
  | nil => cases there
  | cons first tasks ih =>
    cases index with
    | zero =>
      cases there
      exact ⟨[], tasks, rfl, rfl⟩
    | succ index =>
      obtain ⟨before, after, split, replaced⟩ := ih there
      exact ⟨first :: before, after, by rw [split, List.cons_append],
        by rw [List.set_cons_succ, replaced, List.cons_append]⟩

theorem Underway.set_unfinished {order : List Nat} {r : Running} {index : Nat} {task : Task}
    {stage : Stage} {world : World} (underway : Underway format lint fs paths Written order r)
    (there : r.tasks[index]? = some task) (unfinished : task.stage.result? = none)
    (sound : stage.Sound format lint fs task.file) (open' : stage.result? = none)
    (further : min 4 (task.stage.rank + 1) ≤ stage.rank) (kept : world.files = r.world.files) :
    Underway format lint fs paths Written (order ++ [index])
      { tasks := r.tasks.set index { file := task.file, stage }, world } := by
  refine underway.set there sound further ?_
  obtain ⟨before, after, split, replaced⟩ := split_at there { file := task.file, stage }
  have written := underway.written
  rw [split, finished_split, unfinished] at written
  rwa [kept, replaced, finished_split, open']

/-- The results so far are those of other files than that of a task without a result. -/
theorem Underway.others {order : List Nat} {r : Running} {task : Task}
    (underway : Underway format lint fs paths Written order r) (distinct : paths.Nodup)
    (member : task ∈ r.tasks) (unfinished : task.stage.result? = none) :
    task.file ∈ paths ∧ Others paths task.file (finished r.tasks) := by
  have listed {task : Task} (member : task ∈ r.tasks) : task.file ∈ paths := by
    rw [← underway.files]
    exact List.mem_map_of_mem member
  refine ⟨listed member, ?_⟩
  intro result finished
  obtain ⟨other, memberOther, stage⟩ := List.mem_filterMap.mp finished
  have sound := underway.sound other memberOther
  have about : result.file = other.file := by
    cases held : other.stage with
    | done found =>
      rw [held] at sound stage
      cases stage
      rw [show result = _ from sound, outcome_file]
    | _ =>
      rw [held] at stage
      cases stage
  rw [about]
  refine ⟨listed memberOther, ?_⟩
  intro same
  have nodup : (r.tasks.map (·.file)).Nodup := underway.files ▸ distinct
  have tasks := List.inj_on_of_nodup_map nodup memberOther member same
  rw [tasks, unfinished] at stage
  cases stage

theorem Underway.set_done {order : List Nat} {r : Running} {index : Nat} {task : Task}
    {world : World} (underway : Underway format lint fs paths Written order r)
    (there : r.tasks[index]? = some task) (unfinished : task.stage.result? = none)
    (written : ∀ before after, finished r.tasks = before ++ after →
      Written (before ++ outcome format lint fs task.file :: after) world.files) :
    Underway format lint fs paths Written (order ++ [index])
      { tasks := r.tasks.set index
          { file := task.file, stage := .done (outcome format lint fs task.file) }, world } := by
  refine underway.set there rfl (Nat.min_le_left ..) ?_
  obtain ⟨before, after, split, replaced⟩ :=
    split_at there { file := task.file, stage := .done (outcome format lint fs task.file) }
  rw [replaced, finished_split]
  apply written
  rw [split, finished_split, unfinished]
  rfl

theorem turn_waiting (engines : Engines) (o : Options) (file : Path) (programs : Programs)
    (world : World) :
    (Stage.waiting.turn engines o file programs).run world =
      (.ok (match world.files.readText file with
        | .error fault => .done (unreadable file fault)
        | .ok source => .opened source), world) := by
  have looked : (readSource file programs).run world = (.ok (world.files.readText file), world) := rfl
  change ((readSource file >>= _) programs).run world = _
  rw [Action.run_bind, looked]
  dsimp only
  cases world.files.readText file <;> rfl

theorem turn_opened (working : o.check = false) (file : Path) (source : String)
    (programs : Programs) (world : World) :
    ((Stage.opened source).turn (.ofPure format lint) o file programs).run world =
      (.ok (.formatted source (format source file)),
        { world with requests := .format source file :: world.requests }) := by
  have formats : formatSource (.ofPure format lint) o file source =
      (Action.ask (.format source file) >>= fun _ => pure (format source file)) := by
    rw [formatSource, working]
    rfl
  have turns : (Stage.opened source).turn (.ofPure format lint) o file =
      (formatSource (.ofPure format lint) o file source >>= fun text =>
        pure (.formatted source text)) := rfl
  rw [turns, formats]
  rfl

theorem turn_formatted (working : o.check = false) (file : Path) (source text : String)
    (programs : Programs) (world : World) :
    ((Stage.formatted source text).turn (.ofPure format lint) o file programs).run world =
      (.ok (.linted source
          ⟨file, (lint text file).messages, reconcile source text (lint text file).output⟩),
        { world with requests := .lint text file :: world.requests }) := by
  have fixes : (if o.check then none else (lint text file).output) = (lint text file).output := by
    rw [working]
    rfl
  rw [← fixes]
  rfl

theorem turn_linted_done {engines : Engines} {file : Path} {source : String} {result : LintResult}
    {stage : Stage} {world next : World}
    (ran : ((Stage.linted source result).turn engines o file programs).run world = (.ok stage, next)) :
    stage = .done result := by
  rw [Stage.turn] at ran
  obtain ⟨written, mid, -, rest⟩ := Action.bind_ok ran
  cases written with
  | none =>
    cases rest
    rfl
  | some w =>
    obtain ⟨value, last, -, returned⟩ := Action.bind_ok rest
    cases returned
    rfl

section Turn

variable {order : List Nat} {r : Running} {index : Nat} {task : Task}

/-- Every turn keeps the batch underway, unless its write fails. -/
theorem Underway.turn (underway : Underway format lint fs paths Written order r)
    (independent : Independent format lint programs o fs paths Written) (distinct : paths.Nodup)
    (working : o.check = false)
    (succeeds : ∀ task ∈ (r.turn programs (.ofPure format lint) o index).tasks,
      ∀ e, task.stage ≠ .failed e) :
    Underway format lint fs paths Written (order ++ [index])
      (r.turn programs (.ofPure format lint) o index) := by
  cases there : r.tasks[index]? with
  | none =>
    have idle : r.turn programs (.ofPure format lint) o index = r := by
      simp [Running.turn, Running.step, there]
    rw [idle]
    refine ⟨underway.files, underway.sound, ?_, underway.written⟩
    intro i task held
    have other : (index == i) = false := by
      simp only [beq_eq_false_iff_ne]
      intro same
      rw [same, held] at there
      cases there
    rw [List.count_append, List.count_singleton, other]
    simpa using underway.advanced i task held
  | some task =>
    have member := List.mem_of_getElem? there
    have sound := underway.sound task member
    have written := underway.written
    have others := underway.others distinct member
    obtain ⟨file, stage⟩ := task
    rw [Running.turn_eq_act there, Running.act] at succeeds ⊢
    dsimp only at sound succeeds others ⊢
    cases stage with
    | waiting =>
      obtain ⟨listed, apart⟩ := others rfl
      -- what the others have written so far is not on the way of this file
      rw [turn_waiting, independent.reads _ _ file listed apart written]
      dsimp only
      cases source : fs.readText file with
      | error fault =>
        have result : outcome format lint fs file = unreadable file fault := by
          rw [outcome, source]
          rfl
        dsimp only
        rw [← result]
        refine underway.set_done there rfl ?_
        intro before after split
        exact independent.unread before after _ file fault listed source (split ▸ written)
      | ok source' => exact underway.set_unfinished there rfl source rfl (by simp [Stage.rank]) rfl
    | opened source =>
      rw [turn_opened working]
      exact underway.set_unfinished there rfl ⟨sound, rfl⟩ rfl (by simp [Stage.rank]) rfl
    | formatted source text =>
      obtain ⟨read, rfl⟩ := sound
      rw [turn_formatted working]
      refine underway.set_unfinished there rfl ⟨read, ?_⟩ rfl (by simp [Stage.rank]) rfl
      rw [outcome, read]
      rfl
    | linted source result =>
      obtain ⟨listed, apart⟩ := others rfl
      obtain ⟨read, rfl⟩ := sound
      cases ran : ((Stage.linted source (outcome format lint fs file)).turn (.ofPure format lint) o
          file programs).run r.world with
      | mk answer world =>
        rw [ran] at succeeds
        cases answer with
        | error e =>
          have inside : index < r.tasks.length := (List.getElem?_eq_some_iff.mp there).1
          exact absurd rfl (succeeds _ (List.mem_set inside { file, stage := .failed e }) e)
        | ok stage =>
          obtain rfl := turn_linted_done ran
          refine underway.set_done there rfl ?_
          intro before after split
          rw [split] at apart written
          exact independent.writes before after r.world world file source _ listed apart read
            written ran
    | done result =>
      obtain ⟨before, after, split, replaced⟩ := split_at there { file, stage := .done result }
      refine underway.set there sound (Nat.min_le_left ..) ?_
      rw [replaced, ← split]
      exact underway.written
    | prepared w result => cases sound
    | staged w temporary result => cases sound
    | filled w temporary result => cases sound
    | failed e => cases sound

theorem failed_stays {engines : Engines} {o : Options} {e : Error} (index : Nat)
    (member : task ∈ r.tasks) (failed : task.stage = .failed e) :
    ∃ other ∈ (r.turn programs engines o index).tasks, other.stage = .failed e := by
  obtain ⟨i, held⟩ := List.mem_iff_getElem?.mp member
  cases there : r.tasks[index]? with
  | none => exact ⟨task, by simpa [Running.turn, Running.step, there] using member, failed⟩
  | some turning =>
    rw [Running.turn_eq_act there, Running.act]
    by_cases same : index = i
    · subst same
      obtain rfl : turning = task := Option.some.inj (there.symm.trans held)
      have inside : index < r.tasks.length := (List.getElem?_eq_some_iff.mp held).1
      rw [failed]
      exact ⟨_, List.mem_set inside { file := turning.file, stage := .failed e }, rfl⟩
    · refine ⟨task, ?_, failed⟩
      split
      · exact List.mem_of_getElem? ((List.getElem?_set_ne same).trans held)
      · exact List.mem_of_getElem? ((List.getElem?_set_ne same).trans held)

end Turn

/-- Whatever the order of turns, the batch stays underway as long as its writes succeed. -/
theorem underway_turns {world : World} {order : List Nat}
    (independent : Independent format lint programs o world.files paths Written)
    (distinct : paths.Nodup) (working : o.check = false)
    (succeeds : ∀ task ∈ ((Running.start paths world).turns programs (.ofPure format lint) o
      order).tasks, ∀ e, task.stage ≠ .failed e) :
    Underway format lint world.files paths Written order
      ((Running.start paths world).turns programs (.ofPure format lint) o order) := by
  induction order using List.reverseRecOn with
  | nil => exact underway_start independent.start
  | append_singleton order index ih =>
    rw [Running.turns, List.foldl_append] at succeeds ⊢
    refine (ih ?_).turn independent distinct working succeeds
    intro task member e failed
    obtain ⟨other, later, still⟩ := failed_stays index member failed
    exact succeeds other later e still

/-- Four turns for each task bring them all to their results. -/
theorem Underway.tasks_eq {order : List Nat} {r : Running}
    (underway : Underway format lint fs paths Written order r)
    (complete : ∀ i < paths.length, 4 ≤ order.count i) :
    r.tasks = paths.map fun file => { file, stage := .done (outcome format lint fs file) } := by
  have done : ∀ task ∈ r.tasks,
      { file := task.file, stage := .done (outcome format lint fs task.file) } = task := by
    intro task member
    obtain ⟨i, held⟩ := List.mem_iff_getElem?.mp member
    have inside : i < paths.length := by
      rw [← underway.files, List.length_map]
      exact (List.getElem?_eq_some_iff.mp held).1
    have turns := complete i inside
    have advanced := underway.advanced i task held
    have sound := underway.sound task member
    obtain ⟨file, stage⟩ := task
    cases stage with
    | done result => rw [show result = _ from sound]
    | failed e => cases sound
    | _ =>
      simp only [Stage.rank] at advanced
      omega
  calc r.tasks = r.tasks.map id := (List.map_id _).symm
    _ = r.tasks.map fun task =>
        { file := task.file, stage := .done (outcome format lint fs task.file) } :=
      List.map_congr_left fun task member => (done task member).symm
    _ = paths.map fun file => { file, stage := .done (outcome format lint fs file) } := by
      rw [← underway.files, List.map_map]
      rfl

theorem results?_done (paths : List Path) (result : Path → LintResult) (world : World) :
    Running.results? ⟨paths.map fun file => { file, stage := .done (result file) }, world⟩ =
      some (paths.map result) := by
  rw [Running.results?]
  induction paths with
  | nil => rfl
  | cons file paths ih =>
    rw [List.map_cons, List.mapM_cons, ih]
    rfl

theorem finished_done (paths : List Path) (result : Path → LintResult) :
    finished (paths.map fun file => { file, stage := .done (result file) }) = paths.map result := by
  rw [finished, List.filterMap_map]
  exact congrFun List.filterMap_eq_map paths

/-- The end of a batch whose tasks had all their turns. -/
theorem Independent.settles {world : World} {order : List Nat}
    (independent : Independent format lint programs o world.files paths Written)
    (distinct : paths.Nodup) (working : o.check = false)
    (complete : ∀ i < paths.length, 4 ≤ order.count i)
    (succeeds : ∀ task ∈ ((Running.start paths world).turns programs (.ofPure format lint) o
      order).tasks, ∀ e, task.stage ≠ .failed e) :
    ∃ after : World,
      (Running.start paths world).turns programs (.ofPure format lint) o order =
        ⟨paths.map fun file => { file, stage := .done (outcome format lint world.files file) }, after⟩ ∧
      Written (paths.map (outcome format lint world.files)) after.files := by
  have underway := underway_turns independent distinct working succeeds
  have tasks := underway.tasks_eq complete
  have written := underway.written
  rw [tasks, finished_done] at written
  exact ⟨_, by rw [← tasks], written⟩

theorem Independent.inOrder_settles {world after : World} {results : List LintResult}
    (independent : Independent format lint programs o world.files paths Written)
    (distinct : paths.Nodup) (working : o.check = false)
    (ran : (paths.mapM (processFile (.ofPure format lint) o) programs).run world =
      (.ok results, after)) :
    results = paths.map (outcome format lint world.files) ∧ Written results after.files := by
  have length := Running.mapM_length ran
  have inTurn : (Running.start paths world).turns programs (.ofPure format lint) o
      (Running.inOrder 0 paths.length) =
        ⟨(paths.zip results).map fun e => { file := e.1, stage := .done e.2 }, after⟩ :=
    Running.turns_inOrder [] ran
  have succeeds : ∀ task ∈ ((Running.start paths world).turns programs (.ofPure format lint) o
      (Running.inOrder 0 paths.length)).tasks, ∀ e, task.stage ≠ .failed e := by
    rw [inTurn]
    intro task member e
    obtain ⟨pair, -, rfl⟩ := List.mem_map.mp member
    simp
  obtain ⟨last, ended, held⟩ := independent.settles distinct working
    (fun i inside => Running.four_inOrder inside) succeeds
  rw [inTurn, Running.mk.injEq] at ended
  obtain ⟨tasks, rfl⟩ := ended
  have found : results = paths.map (outcome format lint world.files) := by
    calc results = (paths.zip results).map (·.2) := (List.map_snd_zip (Nat.le_of_eq length)).symm
      _ = finished ((paths.zip results).map fun e => { file := e.1, stage := .done e.2 }) := by
        rw [finished, List.filterMap_map]
        exact (congrFun List.filterMap_eq_map _).symm
      _ = paths.map (outcome format lint world.files) := by rw [tasks, finished_done]
  exact ⟨found, found ▸ held⟩

end

end FormatLint.Batch
