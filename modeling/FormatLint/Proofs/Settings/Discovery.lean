import FormatLint.Proofs.Path.Ancestors
import FormatLint.Settings.Load
import Mathlib

/-!
Which configuration file applies to a directory. The two names are looked up in the directory and in
its ancestors, innermost first, and the first place where anything exists decides: it is read or it
fails, and what stands further up does not matter (`discover_nearest`).
-/

namespace FormatLint.Config

variable {fs : FileSystem} {p : Path}

/-- What is answered when the configuration at a path is the one that counts. -/
inductive Decides (fs : FileSystem) (p : Path) :
    Except Error (Option (Path × Config)) → Prop where
  | unreadable {fault : SystemFault} (unread : fs.readText p = .error fault) :
      Decides fs p (.error (.io "read config file" (some p) (some fault)))
  | malformed {text message : String} {caused : Bool} (read : fs.readText p = .ok text)
      (unparsed : ofText text = .error (.config message none caused)) :
      Decides fs p (.error (.config message (some p) caused))
  | valid {text : String} {config : Config} {base : Path} (read : fs.readText p = .ok text)
      (parsed : ofText text = .ok config) (own : base.IsParent p) :
      Decides fs p (.ok (some (p, config.rebased base)))

/-- A text that is no configuration is reported without a file to it. -/
theorem ofText_error {text : String} {e : Error} (unparsed : ofText text = .error e) :
    ∃ message, e = .config message none true := by
  rw [ofText] at unparsed
  split at unparsed
  · exact ⟨_, (Except.error.inj unparsed).symm⟩
  · split at unparsed
    · exact ⟨_, (Except.error.inj unparsed).symm⟩
    · cases unparsed

theorem firstOf_append {before : List Path} (missing : ∀ q ∈ before, fs.exists q = false)
    (rest : List Path) : firstOf fs (before ++ rest) = firstOf fs rest := by
  induction before with
  | nil => rfl
  | cons q before ih =>
    rw [List.forall_mem_cons] at missing
    have absent : loadFrom fs q = .ok none := by simp [loadFrom, missing.1]
    rw [List.cons_append, firstOf, absent]
    exact ih missing.2

theorem firstOf_cons {base : Path} (present : fs.exists p = true) (own : base.IsParent p)
    (rest : List Path) : Decides fs p (firstOf fs (p :: rest)) := by
  cases read : fs.readText p with
  | error fault =>
    have failed : firstOf fs (p :: rest) =
        .error (.io "read config file" (some p) (some fault)) := by
      simp [firstOf, loadFrom, present, read, Error.ofFault]
    exact failed ▸ .unreadable read
  | ok text =>
    cases parsed : ofText text with
    | error e =>
      obtain ⟨message, rfl⟩ := ofText_error parsed
      have failed : firstOf fs (p :: rest) = .error (.config message (some p) true) := by
        simp [firstOf, loadFrom, present, read, parsed, Error.withPath]
      exact failed ▸ .malformed read parsed
    | ok config =>
      have found : firstOf fs (p :: rest) = .ok (some (p, config.rebased base)) := by
        simp [firstOf, loadFrom, present, read, parsed, own.parent]
      exact found ▸ .valid read parsed own

theorem fileNames_isName {name : String} (member : name ∈ fileNames) :
    Path.IsName (Utf8.encode name) := by
  simp only [fileNames, List.mem_cons, List.not_mem_nil, or_false] at member
  rcases member with rfl | rfl <;> exact ⟨by decide, by decide, by decide, by decide⟩

/-- A candidate is a file in a directory, never the root. -/
theorem candidates_parent {start : Path} (absolute : start.isAbsolute = true)
    (candidate : p ∈ candidates start) : ∃ base : Path, base.IsParent p := by
  obtain ⟨dir, inside, named⟩ := List.mem_flatMap.mp candidate
  obtain ⟨name, member, rfl⟩ := List.mem_map.mp named
  have dirAbsolute := (Path.upward_ancestors absolute).absolute absolute dir inside
  have isName := fileNames_isName member
  rcases Path.parent?_absolute (Path.join_isAbsolute dirAbsolute ⟨Utf8.encode name⟩) with
    ⟨-, root⟩ | own
  · rw [Path.components_join_name dirAbsolute isName, Path.components_absolute dirAbsolute] at root
    simp at root
  · exact own

/-- The search ends at the root. Without any candidate there is no configuration, and otherwise the
    first one that exists decides, be it good or not. -/
theorem discover_nearest (fs : FileSystem) (start : Path) (absolute : start.isAbsolute = true) :
    Path.Upward start start.ancestors ∧
    start.ancestors.length = start.components.length ∧
    let looked := start.ancestors.flatMap fun dir =>
      [dir.joinText "fandl.toml", dir.joinText ".fandl.toml"]
    ((∀ p ∈ looked, fs.exists p = false) → discover fs start = .ok none) ∧
    ∀ before p after, looked = before ++ p :: after →
      (∀ q ∈ before, fs.exists q = false) → fs.exists p = true →
      Decides fs p (discover fs start) := by
  have upward := Path.upward_ancestors absolute
  refine ⟨upward, upward.length_eq, ?_, ?_⟩
  · intro missing
    have none := firstOf_append missing []
    rwa [List.append_nil] at none
  · intro before p after shape missing present
    have looked : candidates start = before ++ p :: after := shape
    have candidate : p ∈ candidates start := by simp [looked]
    obtain ⟨base, own⟩ := candidates_parent absolute candidate
    rw [discover, looked, firstOf_append missing]
    exact firstOf_cons present own after

/-- A file that is no text in `/a`, and a good one above it. -/
def brokenNearer : FileSystem where
  root := .dir [
    ([0x61], .dir [(Utf8.encode ".fandl.toml", .file { content := ⟨#[0xFF]⟩ })]),
    (Utf8.encode "fandl.toml", .file { content := "".toUTF8 })]
  cwd := ⟨[0x2F]⟩

theorem brokenNearer_unread :
    brokenNearer.readText (Path.ofString "/a/.fandl.toml") = .error .notUtf8 := by
  have bytes : brokenNearer.readBytes (Path.ofString "/a/.fandl.toml") = .ok ⟨#[0xFF]⟩ := by cbv
  have noText : Utf8.read? ⟨#[0xFF]⟩ = none := by decide +kernel
  rw [FileSystem.readText, bytes]
  simp only [bind, Except.bind, noText]
  rfl

theorem discover_nearest_broken :
    discover brokenNearer (Path.ofString "/a/b") = .error
      (.io "read config file" (some (Path.ofString "/a/.fandl.toml")) (some .notUtf8)) := by
  obtain ⟨-, -, -, decided⟩ :=
    discover_nearest brokenNearer (Path.ofString "/a/b") (by decide)
  have outcome := decided
    [Path.ofString "/a/b/fandl.toml", Path.ofString "/a/b/.fandl.toml",
      Path.ofString "/a/fandl.toml"]
    (Path.ofString "/a/.fandl.toml") [Path.ofString "/fandl.toml", Path.ofString "/.fandl.toml"]
    (by decide)
    (by
      simp only [List.forall_mem_cons, List.not_mem_nil, false_implies, implies_true, and_true]
      exact ⟨by cbv, by cbv, by cbv⟩)
    (by cbv)
  generalize discover brokenNearer (Path.ofString "/a/b") = answer at outcome
  cases outcome with
  | unreadable unread =>
    rw [brokenNearer_unread] at unread
    cases unread
    rfl
  | malformed read =>
    rw [brokenNearer_unread] at read
    cases read
  | valid read =>
    rw [brokenNearer_unread] at read
    cases read

end FormatLint.Config
