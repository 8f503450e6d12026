import FormatLint.Batch.File
import FormatLint.Proofs.FileSystem.Growth

/-!
Writing a text. It is written beside its target, with the permissions of what stands there, and then
moved over it; where that succeeds the target holds the text, and apart from directories that were
made for it nothing else has changed.
-/

namespace FormatLint

namespace FileSystem

variable {fs : FileSystem} {names : List Bytes} {last name : Bytes} {dir : Place}
  {entries : List (Bytes × Node)} {data : FileData}

/-- The files with one more in a directory. -/
def beside (fs : FileSystem) (dir : Place) (entries : List (Bytes × Node)) (name : Bytes)
    (data : FileData) : FileSystem :=
  fs.put dir (.dir (Node.setEntry name (.file data) entries))

theorem put_child_eq_beside (held : fs.get? dir = some (.dir entries)) (data : FileData) :
    fs.put (dir ++ [name]) (.file data) = fs.beside dir entries name data := by
  simp only [beside, put]
  rw [Node.put_child held]

theorem put_beside (held : fs.get? dir = some (.dir entries)) (data new : FileData) :
    (fs.beside dir entries name data).put (dir ++ [name]) (.file new) =
      fs.beside dir entries name new := by
  have grown := Node.get?_put_self held (.dir (Node.setEntry name (.file data) entries))
  simp only [beside, put]
  rw [Node.put_child grown, Node.setEntry_setEntry, Node.put_put]

theorem erase_beside (held : fs.get? dir = some (.dir entries)) (free : entries.lookup name = none)
    (data : FileData) : (fs.beside dir entries name data).erase (dir ++ [name]) = fs := by
  have grown := Node.get?_put_self held (.dir (Node.setEntry name (.file data) entries))
  simp only [beside, put, erase]
  rw [Node.erase_append grown, Node.filter_setEntry_absent free, Node.put_put, Node.put_same held]

theorem resolve_beside {p : Path} (found : fs.resolve true p = .ok (.found dir (.dir entries)))
    (free : entries.lookup name = none) (data : FileData) :
    (fs.beside dir entries name data).resolve true p =
      .ok (.found dir (.dir (Node.setEntry name (.file data) entries))) := by
  have held := resolve_found found
  have larger : fs.Extends (fs.beside dir entries name data) := by
    refine Node.extends_put_dir held ?_
    intro other child there
    have apart : other ≠ name := by
      intro same
      rw [same, free] at there
      cases there
    rw [Node.lookup_setEntry_other apart, there]
  obtain ⟨node, resolved⟩ := larger.resolve rfl found
  have grown : (fs.beside dir entries name data).get? dir = _ := Node.get?_put_self held _
  rw [resolve_found resolved] at grown
  cases grown
  exact resolved

/-- The temporary file `name` in the directory that `p` leads to, with what it holds. -/
structure Staged (fs : FileSystem) (p : Path) (dir : Place) (entries : List (Bytes × Node))
    (name : Bytes) (files : FileSystem) (data : FileData) : Prop where
  directory : fs.resolve true p = .ok (.found dir (.dir entries))
  isName : Path.IsName name
  free : entries.lookup name = none
  files_eq : files = fs.beside dir entries name data

namespace Staged

variable {p : Path} {files after : FileSystem} {held : FileData} {final : Bool}

theorem of_createTemporary {lead trail : String} {temporary : Path}
    (longer : 2 < (Utf8.encode lead).length) (plainLead : Path.slash ∉ Utf8.encode lead)
    (plainTrail : Path.slash ∉ Utf8.encode trail)
    (ran : (FileAction.createTemporary p lead trail).run fs = (.ok temporary, files)) :
    ∃ dir entries name, temporary = p.join ⟨name⟩ ∧
      fs.Staged p dir entries name files ⟨.empty, FileAction.privateMode, true⟩ := by
  obtain ⟨dir, entries, found, rfl, rfl⟩ := FileAction.createTemporary_ok ran
  exact ⟨dir, entries, _, rfl, found,
    FileAction.freshName_isName entries longer plainLead plainTrail,
    FileAction.freshName_free lead trail entries,
    put_child_eq_beside (resolve_found found) _⟩

/-- A name other than that of the temporary file stands for what it stood for. -/
theorem resolve_other (staged : fs.Staged p dir entries name files held) (isName : Path.IsName last)
    (apart : last ≠ name) (passed : refusal? (p.join ⟨last⟩) = none)
    (direct : final = false ∨ ∀ target, entries.lookup last ≠ some (.link target)) :
    files.resolve final (p.join ⟨last⟩) = named dir entries last := by
  have same : (Node.setEntry name (.file held) entries).lookup last = entries.lookup last :=
    Node.lookup_setEntry_other apart
  have found := resolve_beside staged.directory staged.free held
  rw [← staged.files_eq] at found
  rw [resolve_join isName passed found (by rwa [same]), named, named, same]

/-- Where the path of the temporary file leads anywhere, it leads to the temporary file. -/
theorem resolve_temporary (staged : fs.Staged p dir entries name files held)
    (passed : refusal? (p.join ⟨name⟩) = none) (short : name.length ≤ nameLimit) :
    files.resolve final (p.join ⟨name⟩) = .ok (.found (dir ++ [name]) (.file held)) := by
  have set := Node.lookup_setEntry_self entries name (.file held)
  have found := resolve_beside staged.directory staged.free held
  rw [← staged.files_eq] at found
  rw [resolve_join staged.isName passed found (.inr (by simp [set])), named, set,
    if_neg (Nat.not_lt.mpr short)]

/-- An update of the temporary file that succeeds changes its data. -/
theorem update_ok (staged : fs.Staged p dir entries name files held) {f : FileData → FileData}
    (ran : (FileAction.update (p.join ⟨name⟩) f).run files = (.ok (), after)) :
    fs.Staged p dir entries name after (f held) ∧ refusal? (p.join ⟨name⟩) = none ∧
      name.length ≤ nameLimit := by
  obtain ⟨place, old, resolved⟩ := FileAction.update_ok ran
  have passed := (resolve_ok resolved).1
  have short : name.length ≤ nameLimit := by
    have set := Node.lookup_setEntry_self entries name (.file held)
    have found := resolve_beside staged.directory staged.free held
    rw [← staged.files_eq] at found
    rw [resolve_join staged.isName passed found (.inr (by simp [set])), named] at resolved
    split at resolved
    · cases resolved
    · omega
  rw [FileAction.update_file (staged.resolve_temporary passed short)] at ran
  cases ran
  refine ⟨⟨staged.directory, staged.isName, staged.free, ?_⟩, passed, short⟩
  rw [staged.files_eq]
  exact put_beside (resolve_found staged.directory) held (f held)

/-- Without the temporary file the files are what they were. -/
theorem erase_eq (staged : fs.Staged p dir entries name files held) :
    files.erase (dir ++ [name]) = fs := by
  rw [staged.files_eq]
  exact erase_beside (resolve_found staged.directory) staged.free held

end Staged

/-- A path that leads to a regular file, and not by a link at its end, and its directory. -/
theorem resolve_file_parent {place : Place} (proper : ∀ n ∈ names, Path.IsName n)
    (found : fs.resolve false (Path.rooted names) = .ok (.found place (.file data))) :
    ∃ init last dir entries, names = init ++ [last] ∧ place = dir ++ [last] ∧
      fs.resolve true (Path.rooted init) = .ok (.found dir (.dir entries)) ∧
      entries.lookup last = some (.file data) := by
  have passed := (resolve_ok found).1
  rcases List.eq_nil_or_concat names with rfl | ⟨init, last, rfl⟩
  · -- the root, where a path can only stay, is a directory
    have held := resolve_found found
    rw [resolve_rooted proper, passed] at found
    simp only [follow_cons] at found
    rcases move_empty fs [] with moved | ⟨fault, moved⟩
    · rw [moved] at found
      simp only [follow_nil] at found
      split at found
      · cases found
        rw [move, kindAt_of_get? held] at moved
        cases moved
      · cases found
    · rw [moved] at found
      cases found
  · rw [List.concat_eq_append] at proper passed found ⊢
    obtain ⟨dir, entries, directory⟩ := resolve_parent proper found
    rw [resolve_child proper passed directory (.inl rfl), named] at found
    split at found
    · cases found
    · split at found
      · cases found
      · rename_i node held
        cases found
        exact ⟨init, last, dir, entries, rfl, rfl, directory, held⟩

end FileSystem

namespace Batch.Writing

open FileSystem FileAction

variable {dir : Place} {entries : List (Bytes × Node)} {name last : Bytes} {p : Path}

/-- The permissions that a file keeps which takes the place of an entry. -/
def keptMode : Option Node → Nat
  | some (.file data) => data.mode
  | _ => privateMode

theorem guarded_ok {temporary : Path} {step : Action Unit} {programs : Programs}
    {world after : World} (ran : (guarded temporary step programs).run world = (.ok (), after)) :
    (step programs).run world = (.ok (), after) := by
  rw [guarded, Action.run_tryCatch] at ran
  split at ran
  · rename_i both
    rw [both, ran]
  · -- after a failure the error is thrown again
    obtain ⟨first, mid, -, thrown⟩ := Action.bind_ok ran
    cases thrown

section Run

variable {w : Writing} {programs : Programs} {world after : World} {fs : FileSystem}
  {held : FileData}

/-- The permissions of a text that goes to a path. -/
def modeFor (files : FileSystem) (target : Path) : Nat :=
  match files.stat target with
  | .ok (_, .file data) => data.mode
  | _ => privateMode

/-- The temporary file holds the text, with the permissions of the target. -/
theorem fillTemporary_ok {content : ByteArray}
    (staged : fs.Staged p dir entries name world.files ⟨content, privateMode, true⟩)
    (ran : (w.fillTemporary (p.join ⟨name⟩) programs).run world = (.ok (), after)) :
    ∃ full, fs.Staged p dir entries name full ⟨w.text.toUTF8, privateMode, true⟩ ∧
      fs.Staged p dir entries name after.files ⟨w.text.toUTF8, modeFor full w.target, true⟩ ∧
      after = { world with files := after.files } ∧
      refusal? (p.join ⟨name⟩) = none ∧ name.length ≤ nameLimit := by
  rw [fillTemporary] at ran
  obtain ⟨⟨⟩, world', filled, rest⟩ := Action.bind_ok ran
  obtain ⟨full, changed, rfl⟩ := Action.change_ok filled
  obtain ⟨staged', passed, short⟩ := staged.update_ok changed
  obtain ⟨seen, same, opened, moded⟩ := Action.bind_ok rest
  cases opened
  refine ⟨full, staged', ?_⟩
  rw [modeFor]
  dsimp only at moded
  cases stat : full.stat w.target with
  | error fault =>
    rw [stat] at moded
    cases moded
    exact ⟨staged', rfl, passed, short⟩
  | ok found =>
    obtain ⟨place, node⟩ := found
    rw [stat] at moded
    cases node with
    | file data =>
      obtain ⟨files, changed', rfl⟩ := Action.change_ok moded
      exact ⟨(staged'.update_ok changed').1, rfl, passed, short⟩
    | dir inner =>
      cases moded
      exact ⟨staged', rfl, passed, short⟩
    | link path =>
      cases moded
      exact ⟨staged', rfl, passed, short⟩

/-- The target that a text was moved to stands in the directory of the temporary file. -/
theorem arrives_in {files : FileSystem} (staged : fs.Staged p dir entries name files held)
    (isName : Path.IsName last) (passed : refusal? (p.join ⟨name⟩) = none)
    (short : name.length ≤ nameLimit) {there : Target}
    (arrives : files.resolve false (p.join ⟨last⟩) = .ok there)
    (noDirectory : ∀ place inner, there ≠ .found place (.dir inner)) :
    there.place = dir ++ [last] ∧ last.length ≤ nameLimit ∧
      ∀ inner, entries.lookup last ≠ some (.dir inner) := by
  by_cases same : last = name
  · subst same
    rw [staged.resolve_temporary passed short] at arrives
    cases arrives
    exact ⟨rfl, short, by simp [staged.free]⟩
  · rw [staged.resolve_other isName same (resolve_ok arrives).1 (.inl rfl), named] at arrives
    split at arrives
    · cases arrives
    · rename_i notLong
      refine ⟨?_, by omega, ?_⟩
      · split at arrives <;> cases arrives <;> rfl
      · intro inner held
        rw [held] at arrives
        cases arrives
        exact noDirectory _ _ rfl

/-- The permissions are those of the entry, unless that is a link. -/
theorem modeFor_eq {full : FileSystem} {content : ByteArray}
    (staged : fs.Staged p dir entries name full ⟨content, privateMode, true⟩)
    (isName : Path.IsName last) (passed : refusal? (p.join ⟨name⟩) = none)
    (passedLast : refusal? (p.join ⟨last⟩) = none) (short : name.length ≤ nameLimit)
    (shortLast : last.length ≤ nameLimit)
    (direct : ∀ path, entries.lookup last ≠ some (.link path)) :
    modeFor full (p.join ⟨last⟩) = keptMode (entries.lookup last) := by
  by_cases same : last = name
  · subst same
    rw [modeFor, stat_iff.mpr (staged.resolve_temporary passed short), staged.free]
    rfl
  · have resolved : full.resolve true (p.join ⟨last⟩) = named dir entries last :=
      staged.resolve_other isName same passedLast (.inr direct)
    rw [named, if_neg (Nat.not_lt.mpr shortLast)] at resolved
    rw [modeFor]
    cases held : entries.lookup last with
    | none =>
      rw [held] at resolved
      rw [FileSystem.stat, resolved]
      rfl
    | some node =>
      rw [held] at resolved
      rw [stat_iff.mpr resolved]
      cases node <;> rfl

/-- A text cannot be moved to a path that ends in a slash. -/
theorem perform_endsInSlash (ran : (w.perform programs).run world = (.ok (), after)) :
    w.target.endsInSlash = false := by
  rw [perform] at ran
  obtain ⟨⟨⟩, prepared, -, rest⟩ := Action.bind_ok ran
  obtain ⟨temporary, opened, -, rest⟩ := Action.bind_ok rest
  obtain ⟨⟨⟩, filled, -, publishing⟩ := Action.bind_ok rest
  have published := guarded_ok publishing
  rw [publish] at published
  obtain ⟨files, renamed, -⟩ := Action.change_ok published
  exact (rename_ok renamed).1

/-- Where a write succeeds, its directory has been made and holds the text in a file that has taken
    the place of a file, a link or nothing. -/
theorem perform_ok (isName : Path.IsName last) (target : w.target = p.join ⟨last⟩)
    (parent : w.directory = p) (ran : (w.perform programs).run world = (.ok (), after)) :
    ∃ (mid : FileSystem) (dir : Place) (entries : List (Bytes × Node)) (mode : Nat),
      (makeDirectories p).run world.files = (.ok (), mid) ∧
      mid.resolve true p = .ok (.found dir (.dir entries)) ∧
      (∀ inner, entries.lookup last ≠ some (.dir inner)) ∧
      ((∀ path, entries.lookup last ≠ some (.link path)) → mode = keptMode (entries.lookup last)) ∧
      after = { world with
        files := mid.put (dir ++ [last]) (.file ⟨w.text.toUTF8, mode, true⟩) } := by
  rw [perform] at ran
  obtain ⟨⟨⟩, prepared, preparing, rest⟩ := Action.bind_ok ran
  rw [prepare, parent] at preparing
  obtain ⟨mid, made, rfl⟩ := Action.change_ok preparing
  obtain ⟨temporary, opened, opening, rest⟩ := Action.bind_ok rest
  rw [openTemporary, parent] at opening
  obtain ⟨files, created, rfl⟩ := Action.change_ok opening
  obtain ⟨dir, entries, name, rfl, staged⟩ :=
    Staged.of_createTemporary (by decide) (by decide) (by decide) created
  obtain ⟨⟨⟩, filled, filling, publishing⟩ := Action.bind_ok rest
  obtain ⟨full, staged', finished, kept, passed, short⟩ :=
    fillTemporary_ok (by exact staged) (guarded_ok filling)
  have published := guarded_ok publishing
  rw [publish, target] at published
  obtain ⟨files', renamed, rfl⟩ := Action.change_ok published
  obtain ⟨-, old, node, there, leaves, arrives, noDirectory, moved⟩ := rename_ok renamed
  rw [finished.resolve_temporary passed short] at leaves
  cases leaves
  obtain ⟨place, shortLast, noInner⟩ := arrives_in finished isName passed short arrives noDirectory
  refine ⟨mid, dir, entries, modeFor full w.target, made, staged.directory, noInner, ?_, ?_⟩
  · intro direct
    rw [target]
    exact modeFor_eq staged' isName passed (resolve_ok arrives).1 short shortLast direct
  · rw [moved, place, finished.erase_eq, kept]

end Run

end Batch.Writing

end FormatLint
