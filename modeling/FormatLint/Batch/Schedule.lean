import FormatLint.Batch.File

/-!
Batches whose files are worked on at the same time. Each file is a task that goes through stages,
one step at a time; a schedule says whose turn it is.
-/

namespace FormatLint.Batch

/-- How far the work on a file has come. -/
inductive Stage where
  | waiting
  | opened (source : String)
  | formatted (source text : String)
  /-- The result is known and is still to be written. -/
  | linted (source : String) (result : LintResult)
  /-- The directory of the target exists. -/
  | prepared (w : Writing) (result : LintResult)
  /-- An empty file stands beside the target. -/
  | staged (w : Writing) (temporary : Path) (result : LintResult)
  /-- The whole text stands beside the target. -/
  | filled (w : Writing) (temporary : Path) (result : LintResult)
  | done (result : LintResult)
  | failed (e : Error)

namespace Stage

def isFinal : Stage → Bool
  | done _ | failed _ => true
  | _ => false

/-- The next step of a task. -/
def next (engines : Engines) (o : Options) (file : Path) : Stage → Action Stage
  | waiting => do
    match ← readSource file with
    | .error fault => return done (unreadable file fault)
    | .ok source => return opened source
  | opened source => return formatted source (← formatSource engines o file source)
  | formatted source text => return linted source (← lintFormatted engines o file source text)
  | linted source result => do
    match ← Action.ofExcept (writing? o file source result) with
    | some w =>
      w.prepare
      return prepared w result
    | none => return done result
  | prepared w result => return staged w (← w.openTemporary) result
  | staged w temporary result => do
    Writing.guarded temporary (w.fillTemporary temporary)
    return filled w temporary result
  | filled w temporary result => do
    Writing.guarded temporary (w.publish temporary)
    return done result
  | final => return final

end Stage

/-- A file with the stage that its work is in. -/
structure Task where
  file : Path
  stage : Stage := .waiting

/-- Tasks at work in one world. -/
structure Running where
  tasks : List Task
  world : World

namespace Running

/-- One step of the task with a number; a failure stays with the task. -/
def step (programs : Programs) (engines : Engines) (o : Options) (r : Running) (index : Nat) :
    Running :=
  match r.tasks[index]? with
  | none => r
  | some task =>
    match (task.stage.next engines o task.file programs).run r.world with
    | (.ok stage, world) => { tasks := r.tasks.set index { task with stage }, world }
    | (.error e, world) => { tasks := r.tasks.set index { task with stage := .failed e }, world }

/-- The steps of a schedule, one after the other. -/
def run (programs : Programs) (engines : Engines) (o : Options) (r : Running)
    (schedule : List Nat) : Running :=
  schedule.foldl (step programs engines o) r

/-- Whether every task has come to an end. -/
def isFinished (r : Running) : Bool := r.tasks.all (·.stage.isFinal)

/-- The results of tasks that all succeeded. -/
def results? (r : Running) : Option (List LintResult) :=
  r.tasks.mapM fun task =>
    match task.stage with
    | .done result => some result
    | _ => none

/-- Tasks that have not begun. -/
def start (files : List Path) (world : World) : Running :=
  { tasks := files.map fun file => { file }, world }

end Running

end FormatLint.Batch
