import FormatLint.Path.Normal
import FormatLint.Process.Basic
import FormatLint.Sink

/-!
What a run works in: the files, the streams that it writes to, and a record of what it asked its
engines. An `Action` may change all of it and start programs, and keeps its changes when it fails.
-/

namespace FormatLint

/-- A text given to an engine, with the file that it is the text of. -/
inductive Request where
  | format (text : String) (file : Path)
  | lint (text : String) (file : Path)
deriving DecidableEq

structure World where
  files : FileSystem
  out : String := ""
  err : Sink := {}
  /-- The requests so far, last first. -/
  requests : List Request := []

abbrev Action := ReaderT Programs (ExceptT Error (StateM World))

namespace Action

def ofExcept (result : Except Error α) : Action α :=
  match result with
  | .ok value => pure value
  | .error e => throw e

/-- Looks at the files. -/
def read (f : FileSystem → Except Error α) : Action α := do
  ofExcept (f (← get).files)

/-- Changes the files; `wrap` makes a failure out of a fault. -/
def change (wrap : SystemFault → Error) (a : FileAction α) : Action α := do
  let world ← get
  let (result, files) := a.run world.files
  set { world with files }
  match result with
  | .ok value => return value
  | .error fault => throw (wrap fault)

/-- Writes a text to the output. -/
def print (text : String) : Action Unit :=
  modify fun world => { world with out := world.out ++ text }

/-- Records a request to an engine. -/
def ask (request : Request) : Action Unit :=
  modify fun world => { world with requests := request :: world.requests }

/-- Does something that may add warnings. -/
def warning (f : FileSystem → Sink → Except Error α × Sink) : Action α := do
  let world ← get
  let (result, err) := f world.files world.err
  set { world with err }
  ofExcept result

/-- Starts the program of an engine and waits for it. -/
def start (engine : String) (invocation : Invocation) : Action Output := do
  let programs ← MonadReader.read
  change (Error.notStarted engine invocation.program) (programs invocation)

/-- The path as seen from the working directory. -/
def absolute (wrap : SystemFault → Error) (p : Path) : Action Path := do
  match Path.absolute? (← get).files.cwd p with
  | some q => return q
  | none => throw (wrap .emptyPath)

/-- Removes a file that may be gone already. -/
def discard (p : Path) : Action Unit := do
  let world ← get
  set { world with files := ((FileAction.remove p).run world.files).2 }

/-- Uses a file that is removed afterwards, whether the use succeeds or fails. -/
def withTemporary (p : Path) (use : Path → Action α) : Action α :=
  tryCatch
    (do
      let value ← use p
      discard p
      return value)
    fun e => do
      discard p
      throw e

end Action

end FormatLint
