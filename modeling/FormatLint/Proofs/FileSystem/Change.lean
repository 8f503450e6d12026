import FormatLint.Proofs.FileSystem.Resolve
import FormatLint.Proofs.Text.Utf8
import FormatLint.Proofs.World

/-!
What the operations on a file system do where they succeed, and the name of a temporary file, which
is free and a proper name.
-/

namespace FormatLint

/-- Where something that is moved to a path comes to stand. -/
def Target.place : Target → Place
  | .found place _ => place
  | .absent dir name => dir ++ [name]

namespace FileAction

open FileSystem

variable {fs : FileSystem} {p : Path} {place dir : Place} {entries : List (Bytes × Node)}
  {node : Node} {data : FileData}

/-- A directory that is there need not be made. -/
theorem makeDirectory_existing (there : fs.resolve true p = .ok (.found place node)) :
    ∃ fault, (makeDirectory p).run fs = (.error fault, fs) := by
  rw [makeDirectory, run_bind, run_ofRead]
  cases resolved : fs.resolve false p with
  | error fault => exact ⟨fault, rfl⟩
  | ok target =>
    cases target with
    | found place node => exact ⟨.alreadyExists, rfl⟩
    | absent dir name =>
      rw [resolve_absent resolved] at there
      cases there

theorem makeDirectories_existing (filled : p.isEmpty = false)
    (there : fs.resolve true p = .ok (.found dir (.dir entries))) :
    (makeDirectories p).run fs = (.ok (), fs) := by
  obtain ⟨fault, made⟩ := makeDirectory_existing there
  have directory : fs.isDirectory p = true := by
    rw [isDirectory, stat_iff.mpr there]
    rfl
  have opened : (get : FileAction FileSystem).run fs = (.ok fs, fs) := rfl
  have ensured (otherwise : SystemFault → FileAction Unit) :
      (ensureDirectory p otherwise).run fs = (.ok (), fs) := by
    rw [ensureDirectory, run_tryCatch, made]
    dsimp only
    rw [run_bind, opened]
    dsimp only
    rw [directory]
    rfl
  obtain ⟨parents, chain⟩ : ∃ parents, p.ancestors = p :: parents := by
    rw [Path.ancestors]
    cases p.bytes.length with
    | zero => exact ⟨[], rfl⟩
    | succ n => exact ⟨_, rfl⟩
  rw [makeDirectories, chain, makeChain, filled]
  exact ensured _

/-- A private file is made where a name is missing in a directory. -/
theorem createPrivate_ok {name : Bytes} {made : Path} {after : FileSystem}
    (ran : (createPrivate p name).run fs = (.ok made, after)) :
    ∃ dir entries place missing, fs.resolve true p = .ok (.found dir (.dir entries)) ∧
      fs.resolve false (p.join ⟨name⟩) = .ok (.absent place missing) ∧ made = p.join ⟨name⟩ ∧
      after = fs.put (dir ++ [name]) (.file ⟨.empty, privateMode, true⟩) := by
  rw [createPrivate, run_bind, run_ofRead] at ran
  cases seen : fs.stat p with
  | error fault =>
    rw [seen] at ran
    cases ran
  | ok found =>
    obtain ⟨dir, node⟩ := found
    rw [seen] at ran
    cases node with
    | file data => cases ran
    | link target => cases ran
    | dir entries =>
      dsimp only at ran
      rw [run_bind, run_ofRead] at ran
      cases looked : fs.resolve false (p.join ⟨name⟩) with
      | error fault =>
        rw [looked] at ran
        cases ran
      | ok there =>
        rw [looked] at ran
        cases there with
        | found place node => cases ran
        | absent place missing =>
          cases ran
          exact ⟨dir, entries, place, missing, stat_iff.mp seen, rfl, rfl, rfl⟩

/-- A file that cannot be made leaves the files as they were. -/
theorem createPrivate_error {name : Bytes} {fault : SystemFault} {after : FileSystem}
    (ran : (createPrivate p name).run fs = (.error fault, after)) : after = fs := by
  rw [createPrivate, run_bind, run_ofRead] at ran
  cases seen : fs.stat p with
  | error fault =>
    rw [seen] at ran
    cases ran
    rfl
  | ok found =>
    obtain ⟨dir, node⟩ := found
    rw [seen] at ran
    cases node with
    | file data =>
      cases ran
      rfl
    | link target =>
      cases ran
      rfl
    | dir entries =>
      dsimp only at ran
      rw [run_bind, run_ofRead] at ran
      cases looked : fs.resolve false (p.join ⟨name⟩) with
      | error fault =>
        rw [looked] at ran
        cases ran
        rfl
      | ok there =>
        rw [looked] at ran
        cases there with
        | found place node =>
          cases ran
          rfl
        | absent place missing => cases ran

/-- A temporary file is a private file with a fresh name, unless it has no directory. -/
theorem createTemporary_cases (fs : FileSystem) (p : Path) (lead trail : String) :
    (∃ dir entries, fs.resolve true p = .ok (.found dir (.dir entries)) ∧
      (createTemporary p lead trail).run fs =
        (createPrivate p (freshName lead trail entries)).run fs) ∨
    ∃ fault, (createTemporary p lead trail).run fs = (.error fault, fs) := by
  rw [createTemporary, run_bind, run_ofRead]
  cases seen : fs.stat p with
  | error fault => exact .inr ⟨fault, rfl⟩
  | ok found =>
    obtain ⟨place, node⟩ := found
    cases node with
    | dir entries => exact .inl ⟨place, entries, stat_iff.mp seen, rfl⟩
    | file data => exact .inr ⟨_, rfl⟩
    | link target => exact .inr ⟨_, rfl⟩

/-- A temporary file is made in a directory. -/
theorem createTemporary_ok {lead trail : String} {temporary : Path} {after : FileSystem}
    (ran : (createTemporary p lead trail).run fs = (.ok temporary, after)) :
    ∃ dir entries, fs.resolve true p = .ok (.found dir (.dir entries)) ∧
      temporary = p.join ⟨freshName lead trail entries⟩ ∧
      after = fs.put (dir ++ [freshName lead trail entries]) (.file ⟨.empty, privateMode, true⟩) := by
  rcases createTemporary_cases fs p lead trail with ⟨dir, entries, found, same⟩ | ⟨fault, failed⟩
  · rw [same] at ran
    obtain ⟨dir', entries', -, -, found', -, rfl, rfl⟩ := createPrivate_ok ran
    rw [found] at found'
    cases found'
    exact ⟨dir, entries, found, rfl, rfl⟩
  · rw [failed] at ran
    cases ran

theorem update_file (there : fs.resolve true p = .ok (.found place (.file data)))
    (f : FileData → FileData) :
    (update p f).run fs = (.ok (), fs.put place (.file (f data))) := by
  rw [update, run_bind, run_ofRead, stat_iff.mpr there]
  rfl

/-- An update that fails has changed nothing. -/
theorem update_error {f : FileData → FileData} {fault : SystemFault} {after : FileSystem}
    (ran : (update p f).run fs = (.error fault, after)) : after = fs := by
  rw [update, run_bind, run_ofRead] at ran
  cases seen : fs.stat p with
  | error fault =>
    rw [seen] at ran
    cases ran
    rfl
  | ok found =>
    obtain ⟨place, node⟩ := found
    rw [seen] at ran
    cases node with
    | file data => cases ran
    | dir entries =>
      cases ran
      rfl
    | link target =>
      cases ran
      rfl

/-- Only what a path leads to is updated. -/
theorem update_ok {f : FileData → FileData} {after : FileSystem}
    (ran : (update p f).run fs = (.ok (), after)) :
    ∃ place data, fs.resolve true p = .ok (.found place (.file data)) := by
  rw [update, run_bind, run_ofRead] at ran
  cases seen : fs.stat p with
  | error fault =>
    rw [seen] at ran
    cases ran
  | ok found =>
    obtain ⟨place, node⟩ := found
    rw [seen] at ran
    cases node with
    | file data => exact ⟨place, data, stat_iff.mp seen⟩
    | dir entries => cases ran
    | link target => cases ran

/-- A file is moved to the place that the new path names, unless that is a directory. -/
theorem rename_ok {source target : Path} {after : FileSystem}
    (ran : (rename source target).run fs = (.ok (), after)) :
    target.endsInSlash = false ∧ ∃ old node there,
      fs.resolve false source = .ok (.found old node) ∧ fs.resolve false target = .ok there ∧
      (∀ place inner, there ≠ .found place (.dir inner)) ∧
      after = (fs.erase old).put there.place node := by
  rw [rename, run_bind, run_ofRead] at ran
  cases leaves : fs.resolve false source with
  | error fault =>
    rw [leaves] at ran
    cases ran
  | ok origin =>
    rw [leaves] at ran
    cases origin with
    | absent dir name => cases ran
    | found old node =>
      dsimp only at ran
      rw [run_bind, run_ofRead] at ran
      cases arrives : fs.resolve false target with
      | error fault =>
        rw [arrives] at ran
        cases ran
      | ok there =>
        rw [arrives] at ran
        dsimp only at ran
        cases ends : target.endsInSlash with
        | true =>
          rw [ends] at ran
          cases ran
        | false =>
          rw [ends] at ran
          refine ⟨rfl, old, node, there, rfl, rfl, ?_⟩
          cases there with
          | absent dir name =>
            cases ran
            exact ⟨by simp, rfl⟩
          | found place other =>
            cases other with
            | dir entries => cases ran
            | file data =>
              cases ran
              exact ⟨by simp, rfl⟩
            | link path =>
              cases ran
              exact ⟨by simp, rfl⟩

/-- A move that fails has moved nothing. -/
theorem rename_error {source target : Path} {fault : SystemFault} {after : FileSystem}
    (ran : (rename source target).run fs = (.error fault, after)) : after = fs := by
  rw [rename, run_bind, run_ofRead] at ran
  cases leaves : fs.resolve false source with
  | error fault =>
    rw [leaves] at ran
    cases ran
    rfl
  | ok origin =>
    rw [leaves] at ran
    cases origin with
    | absent dir name =>
      cases ran
      rfl
    | found old node =>
      dsimp only at ran
      rw [run_bind, run_ofRead] at ran
      cases arrives : fs.resolve false target with
      | error fault =>
        rw [arrives] at ran
        cases ran
        rfl
      | ok there =>
        rw [arrives] at ran
        dsimp only at ran
        cases ends : target.endsInSlash with
        | true =>
          rw [ends] at ran
          cases ran
          rfl
        | false =>
          rw [ends] at ran
          cases there with
          | absent dir name => cases ran
          | found place other =>
            cases other with
            | dir entries =>
              cases ran
              rfl
            | file data => cases ran
            | link path => cases ran

theorem remove_found (found : fs.resolve false p = .ok (.found place node)) :
    ((remove p).run fs).2 = fs.erase place := by
  rw [remove, run_bind, run_ofRead, found]
  rfl

theorem remove_ok {after : FileSystem} (ran : (remove p).run fs = (.ok (), after)) :
    ∃ place node, fs.resolve false p = .ok (.found place node) := by
  rw [remove, run_bind, run_ofRead] at ran
  cases seen : fs.resolve false p with
  | error fault =>
    rw [seen] at ran
    cases ran
  | ok there =>
    rw [seen] at ran
    cases there with
    | absent dir name => cases ran
    | found place node => exact ⟨place, node, rfl⟩

section Temporary

variable {lead trail : String}

theorem temporary_injective {m n : Nat}
    (same : Utf8.encode (lead ++ toString m ++ trail) = Utf8.encode (lead ++ toString n ++ trail)) :
    m = n := by
  simp only [Utf8.encode_append] at same
  have digits := List.append_cancel_left (List.append_cancel_right same)
  exact Utf8.numeral_injective (Utf8.encode_injective digits)

/-- One more number is tried than there are entries, so that one of them is free. -/
theorem freshName_free (lead trail : String) (entries : List (Bytes × Node)) :
    entries.lookup (freshName lead trail entries) = none := by
  let name (n : Nat) := Utf8.encode (lead ++ toString n ++ trail)
  cases tried : (List.range (entries.length + 1)).find? fun n => (entries.lookup (name n)).isNone with
  | some n =>
    have free := List.find?_some tried
    rw [freshName, tried]
    exact Option.isNone_iff_eq_none.mp free
  | none =>
    have taken := List.find?_eq_none.mp tried
    have names : ((List.range (entries.length + 1)).map name).Nodup := by
      rw [List.Nodup, List.pairwise_map]
      refine List.nodup_range.imp ?_
      intro m n apart same
      exact apart (temporary_injective same)
    have inside : (List.range (entries.length + 1)).map name ⊆ entries.map (·.1) := by
      intro other member
      obtain ⟨n, inRange, rfl⟩ := List.mem_map.mp member
      have present := taken n inRange
      cases held : entries.lookup (name n) with
      | none => simp [held] at present
      | some node => exact List.mem_map_of_mem (Node.mem_of_lookup held)
    have bound := names.length_le_of_subset inside
    simp only [List.length_map, List.length_range] at bound
    omega

/-- A temporary name is a proper one, for a lead and a trail without slashes of which the lead has
    more than two bytes. -/
theorem freshName_isName (entries : List (Bytes × Node)) (longer : 2 < (Utf8.encode lead).length)
    (plainLead : Path.slash ∉ Utf8.encode lead) (plainTrail : Path.slash ∉ Utf8.encode trail) :
    Path.IsName (freshName lead trail entries) := by
  obtain ⟨n, numbered⟩ : ∃ n : Nat,
      freshName lead trail entries = Utf8.encode (lead ++ toString n ++ trail) := ⟨_, rfl⟩
  have length : 2 < (freshName lead trail entries).length := by
    rw [numbered, Utf8.encode_append, Utf8.encode_append, List.length_append, List.length_append]
    omega
  have plain : Path.slash ∉ freshName lead trail entries := by
    rw [numbered, Utf8.encode_append, Utf8.encode_append]
    intro inside
    rcases List.mem_append.mp inside with inside | inside
    · rcases List.mem_append.mp inside with inside | inside
      · exact plainLead inside
      · exact absurd (Utf8.encode_numeral inside).1 (by decide)
    · exact plainTrail inside
  refine ⟨?_, ?_, ?_, plain⟩ <;> intro same <;> rw [same] at length <;> simp at length

/-- To make a temporary file is to make a private file of some name. -/
theorem createTemporary_private (fs : FileSystem) (p : Path)
    (longer : 2 < (Utf8.encode lead).length) (plainLead : Path.slash ∉ Utf8.encode lead)
    (plainTrail : Path.slash ∉ Utf8.encode trail) :
    ∃ name, Path.IsName name ∧
      (createTemporary p lead trail).run fs = (createPrivate p name).run fs := by
  have proper := fun entries => freshName_isName entries longer plainLead plainTrail
  rw [createTemporary, run_bind, run_ofRead]
  cases seen : fs.stat p with
  | error fault =>
    refine ⟨_, proper [], ?_⟩
    rw [createPrivate, run_bind, run_ofRead, seen]
  | ok found =>
    obtain ⟨place, node⟩ := found
    cases node with
    | dir entries => exact ⟨_, proper entries, rfl⟩
    | _ =>
      refine ⟨_, proper [], ?_⟩
      rw [createPrivate, run_bind, run_ofRead, seen]

end Temporary

end FileAction

end FormatLint
