import FormatLint.FileSystem.Resolve

/-!
Operations that change a file system. A failed operation leaves what it did before it failed.
-/

namespace FormatLint

/-- An operation on a file system that may fail. -/
abbrev FileAction := ExceptT SystemFault (StateM FileSystem)

namespace FileAction

def ofRead (read : FileSystem → Except SystemFault α) : FileAction α := do
  match read (← get) with
  | .ok value => return value
  | .error fault => throw fault

/-- Makes one directory in a directory that exists. -/
def makeDirectory (p : Path) : FileAction Unit := do
  match ← ofRead (·.resolve false p) with
  | .found .. => throw .alreadyExists
  | .absent dir name => modify (·.put (dir ++ [name]) (.dir []))

/-- Makes a directory, where one that exists already is as good. -/
def ensureDirectory (p : Path) (otherwise : SystemFault → FileAction Unit) : FileAction Unit :=
  tryCatch (makeDirectory p) fun fault => do
    if (← get).isDirectory p then return else otherwise fault

/-- Makes the first directory of a list, after those behind it, its parents, as far as they are
    missing. -/
def makeChain : List Path → FileAction Unit
  | [] => throw .notFound
  | p :: parents =>
    if p.isEmpty then return
    else
      ensureDirectory p fun fault =>
        if fault = .notFound then do
          makeChain parents
          ensureDirectory p throw
        else throw fault

/-- Makes a directory and its missing parents. -/
def makeDirectories (p : Path) : FileAction Unit := makeChain p.ancestors

/-- A name `lead<n><trail>` that the entries do not have. -/
def freshName (lead trail : String) (entries : List (Bytes × Node)) : Bytes :=
  let name (n : Nat) := Utf8.encode (lead ++ toString n ++ trail)
  let free := (List.range (entries.length + 1)).find? fun n => (entries.lookup (name n)).isNone
  name (free.getD 0)

/-- The permission bits of a file that nobody else may read. -/
def privateMode : Nat := 0o600

/-- Makes an empty private file of a given name in a directory, and gives its path. -/
def createPrivate (dir : Path) (name : Bytes) : FileAction Path := do
  match ← ofRead (·.stat dir) with
  | (place, .dir _) =>
    let p := dir.join ⟨name⟩
    match ← ofRead (·.resolve false p) with
    | .found .. => throw .alreadyExists
    | .absent .. =>
      modify (·.put (place ++ [name]) (.file ⟨.empty, privateMode, true⟩))
      return p
  | _ => throw .notDirectory

/-- Makes an empty private file with a fresh name in a directory, and gives its path. -/
def createTemporary (dir : Path) (lead trail : String) : FileAction Path := do
  match ← ofRead (·.stat dir) with
  | (_, .dir entries) => createPrivate dir (freshName lead trail entries)
  | _ => throw .notDirectory

/-- Changes the data of an existing file. -/
def update (p : Path) (f : FileData → FileData) : FileAction Unit := do
  match ← ofRead (·.stat p) with
  | (place, .file data) => modify (·.put place (.file (f data)))
  | _ => throw .isDirectory

/-- Gives an existing file a new content. -/
def fill (p : Path) (content : ByteArray) : FileAction Unit :=
  update p fun data => { data with content, touched := true }

def setMode (p : Path) (mode : Nat) : FileAction Unit := update p fun data => { data with mode }

/-- Gives a file a new content, and makes it if it does not exist. -/
def write (p : Path) (content : ByteArray) : FileAction Unit := do
  match ← ofRead (·.resolve true p) with
  | .found place (.file data) =>
    modify (·.put place (.file { data with content, touched := true }))
  | .found .. => throw .isDirectory
  | .absent dir name => modify (·.put (dir ++ [name]) (.file { content, touched := true }))

/-- Moves a file over whatever is at its new path, except a directory. A path that ends in a slash
    is none for a file. -/
def rename (source target : Path) : FileAction Unit := do
  match ← ofRead (·.resolve false source) with
  | .absent .. => throw .notFound
  | .found old node =>
    let there ← ofRead (·.resolve false target)
    if target.endsInSlash then throw .notDirectory
    match there with
    | .found _ (.dir _) => throw .isDirectory
    | .found new _ => modify fun fs => (fs.erase old).put new node
    | .absent dir name => modify fun fs => (fs.erase old).put (dir ++ [name]) node

/-- Removes whatever a path names, a link and not its target. -/
def remove (p : Path) : FileAction Unit := do
  match ← ofRead (·.resolve false p) with
  | .absent .. => throw .notFound
  | .found place _ => modify (·.erase place)

end FileAction

end FormatLint
