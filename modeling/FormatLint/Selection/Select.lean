import FormatLint.Manifest
import FormatLint.Selection.IgnoreText
import FormatLint.Selection.PatternText
import FormatLint.Selection.Search

/-!
Which files a run works on. Include patterns are the given ones, or follow from the layout of the
root; exclude patterns are the given ones, the standard ones, those of the ignore file and those of
the manifest.
-/

namespace FormatLint.Selection

structure Options where
  /-- The search root, which also holds the ignore file and the manifest. -/
  root : Path
  files : List String := []
  filesPaths : List Path := []
  ignoreFiles : List String := []
  ignoreFilesPaths : List Path := []
  noStandardIgnores : Bool := false
  ignorePackageSettings : Bool := false
  policy : NegationPolicy := .warn

def standardIgnores : List String := ["**/test/data/**/*", "doc/**", "dist/**"]

/-- Root files that make the whole tree source. -/
def indexFiles : List String := ["index.js", "index.mjs", "index.cjs"]

/-- The patterns of a pattern file. -/
def readPatterns (fs : FileSystem) (p : Path) : Except Error (List String) :=
  match fs.readText p with
  | .error fault => .error (Error.ofFault "read pattern file" p fault)
  | .ok text => .ok (extractPatterns text)

/-- The given patterns, and then those of each pattern file. -/
def gatherPatterns (fs : FileSystem) (given : List String) (files : List Path) :
    Except Error (List String) := do
  return given ++ (← files.mapM (readPatterns fs)).flatten

/-- The include patterns that follow from the layout of a root. -/
def defaultIncludes (fs : FileSystem) (root : Path) : Except Error (List String) :=
  let extensions := extensionGroup sourceExtensions
  if indexFiles.any fun name => fs.exists (root.joinText name) then .ok ["**/*" ++ extensions]
  else if fs.exists (root.joinText "src") then .ok ["src/**/*" ++ extensions]
  else .error Error.noLayout

def includePatterns (fs : FileSystem) (o : Options) : Except Error (List String) := do
  let patterns ← gatherPatterns fs o.files o.filesPaths
  if patterns.isEmpty then defaultIncludes fs o.root else return patterns

/-- The exclusion globs of the ignore file at a path; none when there is no file. -/
def readIgnoreFile (fs : FileSystem) (p : Path) (policy : NegationPolicy) (sink : Sink) :
    Except Error (List String) × Sink :=
  match fs.readText p with
  | .error .notFound => (.ok [], sink)
  | .error fault => (.error (Error.ofFault "read ignore file" p fault), sink)
  | .ok text => ignoreGlobs policy sink text

/-- The standard exclusions and those of the ignore file, unless they are switched off. -/
def standardExcludes (fs : FileSystem) (o : Options) (sink : Sink) :
    Except Error (List String) × Sink :=
  if o.noStandardIgnores then (.ok [], sink)
  else
    let (globs, sink) := readIgnoreFile fs (o.root.joinText ignoreFileName) o.policy sink
    (globs.map (standardIgnores ++ ·), sink)

def manifestExcludes (fs : FileSystem) (o : Options) : Except Error (List String) :=
  if o.ignorePackageSettings then .ok []
  else Manifest.readIgnores fs (o.root.joinText Manifest.fileName)

def excludePatterns (fs : FileSystem) (o : Options) (sink : Sink) :
    Except Error (List String) × Sink :=
  match gatherPatterns fs o.ignoreFiles o.ignoreFilesPaths with
  | .error e => (.error e, sink)
  | .ok given =>
    match standardExcludes fs o sink with
    | (.error e, sink) => (.error e, sink)
    | (.ok standard, sink) =>
      ((manifestExcludes fs o).map fun manifest => given ++ standard ++ manifest, sink)

/-- The files to work on, in the order of the search. Warnings go to the sink. -/
def select (fs : FileSystem) (o : Options) (sink : Sink) : Except Error (List Path) × Sink :=
  match includePatterns fs o with
  | .error e => (.error e, sink)
  | .ok includes =>
    match excludePatterns fs o sink with
    | (.error e, sink) => (.error e, sink)
    | (.ok excludes, sink) => (search fs { root := o.root, includes, excludes }, sink)

end FormatLint.Selection
