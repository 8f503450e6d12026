import FormatLint.Run
import FormatLint.Shell.Run

/-!
The command line program. It takes the directory that it is run in, with everything below it and
the configuration files above it, into memory, runs the command there, and writes back the files
that the command wrote.
-/

namespace FormatLint

/-- The names from the root down to a path. -/
def Path.place (p : Path) : Place := (split p.bytes).filter (!·.isEmpty)

/-- Takes a file into memory; a file that cannot be read counts as empty. -/
def loadFile (path : String) : IO Node := do
  let content ← tryCatch (IO.FS.readBinFile path) fun _ => pure .empty
  return .file { content, mode := 0o755 }

/-- Takes the entries of a directory into memory. Links stand for what they lead to. -/
partial def loadTree (entries : Array IO.FS.DirEntry) : IO Node := do
  let nodes ← entries.toList.mapM fun entry => do
    let kind ← tryCatch (do return some (← entry.path.symlinkMetadata).type) fun _ => pure none
    let node ← match kind with
      | some .dir => loadTree (← entry.path.readDir)
      | some .symlink => do
        let target ← tryCatch (IO.FS.realPath entry.path) fun _ => pure entry.path
        pure (.link (Path.ofString target.toString))
      | _ => loadFile entry.path.toString
    return (Utf8.encode entry.fileName, node)
  return .dir nodes

/-- The directories of a tree that were not there before, and the files that were written. -/
partial def changes (place : Place) (before : Option Node) : Node → List (Place × Option FileData)
  | .file data => if data.touched then [(place, some data)] else []
  | .dir entries =>
    let old := match before with
      | some (.dir old) => some old
      | _ => none
    let below := entries.flatMap fun (name, node) =>
      changes (place ++ [name]) (old.bind (·.lookup name)) node
    if old.isSome then below else (place, none) :: below
  | .link _ => []

/-- Makes a directory, or writes a file. -/
def store (place : Place) (data : Option FileData) : IO Unit := do
  let path := Utf8.decodeLossy (Path.slash :: Path.unsplit place)
  match data with
  | none => IO.FS.createDirAll path
  | some data => IO.FS.writeBinFile path data.content

/-- The file system that a command sees, from a directory and its entries. -/
def assemble (cwd : Path) (project : Node) (above : List (Path × Node)) : FileSystem :=
  let tools := (Shell.shellName :: Shell.toolNames).map fun n => (Utf8.encode n, Shell.toolFile n)
  let base : FileSystem := { root := .dir [], cwd }
  let base := (base.put [Utf8.encode "tmp"] (.dir [])).put [Utf8.encode "bin"] (.dir tools)
  above.foldl (fun fs (p, node) => fs.put p.place node) (base.put cwd.place project)

end FormatLint

open FormatLint in
def main (words : List String) : IO UInt32 := do
  match Args.parse words with
  | .error stop =>
    IO.print stop.ending.out
    IO.eprint stop.ending.err
    return stop.exitCode.toUInt32
  | .ok command =>
    let directory ← IO.currentDir
    let cwd := Path.ofString directory.toString
    let project ← loadTree (← directory.readDir)
    let above ← (Config.candidates cwd).filterMapM fun p =>
      tryCatch (do return some (p, Node.file { content := ← IO.FS.readBinFile p.display }))
        fun _ => return none
    let files := assemble cwd project above
    let searchPath := [Path.ofString "/bin"]
    let (ending, world) := runProgram (Shell.programs searchPath) command cwd { files }
    for (place, data) in changes [] (some files.root) world.files.root do
      store place data
    IO.print ending.out
    IO.eprint ending.err
    return ending.exitCode.toUInt32
