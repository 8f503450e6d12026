import FormatLint.Batch.Process
import FormatLint.Batch.Schedule
import FormatLint.Proofs.World

/-!
Turns. In one turn a task reads, formats, lints or writes, and four turns are the whole work on a
file. The batch that works on one file after the other takes its turns in that order.
-/

namespace FormatLint.Batch

/-- What a task does in one turn. -/
def Stage.turn (engines : Engines) (o : Options) (file : Path) : Stage → Action Stage
  | .linted source result => do
    match ← Action.ofExcept (writing? o file source result) with
    | some w => w.perform
    | none => pure ()
    return .done result
  | stage => stage.next engines o file

/-- The steps that write a file are one turn. -/
theorem Stage.next_four (engines : Engines) (o : Options) (file : Path) (source : String)
    (result : LintResult) :
    ((Stage.linted source result).next engines o file >>= fun stage =>
      stage.next engines o file >>= fun stage =>
      stage.next engines o file >>= fun stage => stage.next engines o file) =
      (Stage.linted source result).turn engines o file := by
  rw [turn, next]
  simp only [bind_assoc]
  congr 1
  funext written
  cases written with
  | none => simp [next]
  | some w => simp [next, Writing.perform]

namespace Running

variable {programs : Programs} {engines : Engines} {o : Options} {r : Running} {index : Nat}
  {task : Task} {file : Path}

/-- Lets a task go on by an action. -/
def act (programs : Programs) (r : Running) (index : Nat) (file : Path) (a : Action Stage) :
    Running :=
  match (a programs).run r.world with
  | (.ok stage, world) => { tasks := r.tasks.set index { file, stage }, world }
  | (.error e, world) => { tasks := r.tasks.set index { file, stage := .failed e }, world }

/-- One turn of the task with a number. -/
def turn (programs : Programs) (engines : Engines) (o : Options) (r : Running) (index : Nat) :
    Running :=
  match r.tasks[index]? with
  | some { stage := .linted _ _, .. } => r.run programs engines o (List.replicate 4 index)
  | _ => r.step programs engines o index

/-- The turns of a list, one after the other. -/
def turns (programs : Programs) (engines : Engines) (o : Options) (r : Running)
    (order : List Nat) : Running :=
  order.foldl (turn programs engines o) r

theorem step_eq_act (there : r.tasks[index]? = some task) :
    r.step programs engines o index =
      r.act programs index task.file (task.stage.next engines o task.file) := by
  rw [step, there]
  rfl

/-- Two actions of a task are one, since a task that failed does not go on. -/
theorem act_act {go : Running → Running} {next : Path → Stage → Action Stage}
    (goes : ∀ r task, r.tasks[index]? = some task →
      go r = r.act programs index task.file (next task.file task.stage))
    (stays : ∀ file e, next file (.failed e) = pure (.failed e))
    (inside : index < r.tasks.length) (a : Action Stage) :
    go (r.act programs index file a) = r.act programs index file (a >>= next file) := by
  rw [act, act, Action.run_bind]
  cases (a programs).run r.world with
  | mk outcome world =>
    cases outcome with
    | ok stage =>
      have there : (r.tasks.set index { file, stage })[index]? = some { file, stage } := by
        simp [inside]
      dsimp only
      rw [goes _ _ there, act]
      simp only [List.set_set]
    | error e =>
      have there : (r.tasks.set index { file, stage := .failed e })[index]? =
          some { file, stage := .failed e } := by simp [inside]
      dsimp only
      rw [goes _ _ there, act]
      simp only [List.set_set, stays]
      rfl

theorem step_act (inside : index < r.tasks.length) (a : Action Stage) :
    (r.act programs index file a).step programs engines o index =
      r.act programs index file (a >>= fun stage => stage.next engines o file) :=
  act_act (fun _ _ => step_eq_act) (fun _ _ => rfl) inside a

theorem turn_eq_act (there : r.tasks[index]? = some task) :
    r.turn programs engines o index =
      r.act programs index task.file (task.stage.turn engines o task.file) := by
  have inside : index < r.tasks.length := (List.getElem?_eq_some_iff.mp there).1
  obtain ⟨file, stage⟩ := task
  cases stage with
  | linted source result =>
    rw [turn, there]
    simp only [List.replicate, run, List.foldl_cons, List.foldl_nil]
    rw [step_eq_act there, step_act inside, step_act inside, step_act inside, ← Stage.next_four]
    simp only [bind_assoc]
  | _ =>
    rw [turn, there]
    exact step_eq_act there

theorem turn_act (inside : index < r.tasks.length) (a : Action Stage) :
    (r.act programs index file a).turn programs engines o index =
      r.act programs index file (a >>= fun stage => stage.turn engines o file) :=
  act_act (fun _ _ => turn_eq_act) (fun _ _ => rfl) inside a

end Running

/-- Four turns are the whole work on a file. -/
theorem Stage.turn_four (engines : Engines) (o : Options) (file : Path) :
    (Stage.waiting.turn engines o file >>= fun stage =>
      stage.turn engines o file >>= fun stage =>
      stage.turn engines o file >>= fun stage => stage.turn engines o file) =
      (processFile engines o file >>= fun result => pure (.done result)) := by
  have reads : Stage.waiting.turn engines o file = Stage.waiting.next engines o file := rfl
  rw [processFile, reads, next]
  simp only [bind_assoc]
  congr 1
  funext source
  cases source with
  | error fault => simp [turn, next]
  | ok source =>
    simp only [turn, next, pure_bind, bind_assoc]
    refine bind_congr fun text => bind_congr fun result => bind_congr fun written => ?_
    cases written <;> simp

namespace Running

variable {programs : Programs} {engines : Engines} {o : Options}

theorem turns_four {r : Running} {index : Nat} {file : Path}
    (there : r.tasks[index]? = some { file := file }) :
    r.turns programs engines o (List.replicate 4 index) =
      r.act programs index file (processFile engines o file >>= fun result => pure (.done result)) := by
  have inside : index < r.tasks.length := (List.getElem?_eq_some_iff.mp there).1
  simp only [List.replicate, turns, List.foldl_cons, List.foldl_nil]
  rw [turn_eq_act there, turn_act inside, turn_act inside, turn_act inside, ← Stage.turn_four]
  simp only [bind_assoc]

/-- The order of turns in which each file is done before the next begins. -/
def inOrder (first count : Nat) : List Nat := (List.range' first count).flatMap (List.replicate 4)

theorem mapM_length {f : Path → Action LintResult} {files : List Path} {results : List LintResult}
    {world after : World} (ran : (files.mapM f programs).run world = (.ok results, after)) :
    results.length = files.length := by
  induction files generalizing results world with
  | nil =>
    cases ran
    rfl
  | cons file files ih =>
    rw [List.mapM_cons] at ran
    obtain ⟨result, mid, -, rest⟩ := Action.bind_ok ran
    obtain ⟨others, last, below, returned⟩ := Action.bind_ok rest
    cases returned
    rw [List.length_cons, List.length_cons, ih below]

theorem four_inOrder {count i : Nat} (inside : i < count) : 4 ≤ (inOrder 0 count).count i := by
  have member : i ∈ List.range' 0 count := List.mem_range'_1.mpr ⟨Nat.zero_le i, by omega⟩
  obtain ⟨before, after, split⟩ := List.append_of_mem member
  rw [inOrder, split, List.flatMap_append, List.flatMap_cons, List.count_append, List.count_append,
    List.count_replicate_self]
  omega

/-- A batch that works on its files one after the other takes its turns in order. -/
theorem turns_inOrder {files : List Path} {results : List LintResult} {world after : World}
    (before : List Task)
    (ran : (files.mapM (processFile engines o) programs).run world = (.ok results, after)) :
    turns programs engines o { tasks := before ++ files.map fun file => { file := file }, world }
        (inOrder before.length files.length) =
      { tasks := before ++ (files.zip results).map fun e => { file := e.1, stage := .done e.2 },
        world := after } := by
  induction files generalizing before results world with
  | nil =>
    cases ran
    rfl
  | cons file files ih =>
    rw [List.mapM_cons] at ran
    obtain ⟨result, mid, worked, rest⟩ := Action.bind_ok ran
    obtain ⟨others, last, below, returned⟩ := Action.bind_ok rest
    cases returned
    have order : inOrder before.length (files.length + 1) =
        List.replicate 4 before.length ++ inOrder (before.length + 1) files.length := rfl
    have there :
        (before ++ { file := file } :: files.map fun file => { file := file })[before.length]? =
          some ({ file := file } : Task) := by simp
    have later := ih (before ++ [{ file, stage := .done result }]) below
    rw [List.length_cons, order, turns, List.foldl_append, ← turns, ← turns, List.map_cons,
      turns_four there, act, Action.run_bind, worked]
    simp only [List.length_append, List.length_singleton, List.append_assoc, List.singleton_append]
      at later
    have replaced :
        (before ++ { file := file } :: files.map (fun file => { file := file }) : List Task).set
          before.length { file, stage := .done result } =
            before ++ { file, stage := .done result } :: files.map fun file => { file := file } := by
      simp
    rw [← replaced] at later
    exact later

end Running

end FormatLint.Batch
