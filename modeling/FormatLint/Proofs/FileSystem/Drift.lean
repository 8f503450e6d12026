import FormatLint.Proofs.FileSystem.Landing

/-!
Files that change while others work among them. Directories stay, links stay or give way to files,
and files stay, except for those that somebody holds for a while. The path of a file that was made
in a directory then leads to that file, or nowhere.
-/

namespace FormatLint

namespace Path

theorem split_join_lastPart (base p : Path) :
    ∃ front, split (base.join p).bytes = front ++ [p.lastPart] := by
  obtain ⟨front, shape⟩ := split_lastPart p
  by_cases absolute : p.isAbsolute = true
  · exact ⟨front, by rw [join, if_pos absolute, shape]⟩
  rw [join_relative base (Bool.eq_false_iff.mpr absolute)]
  rcases lead_ends base with none | ⟨start, ends⟩
  · exact ⟨front, by rw [none, List.nil_append, shape]⟩
  · refine ⟨split start ++ front, ?_⟩
    rw [ends, List.append_assoc, List.singleton_append, split_append, shape, List.append_assoc]

theorem split_getLast {bytes : Bytes} (filled : bytes ≠ []) (ends : bytes.getLast? ≠ some slash) :
    (split bytes).getLast? ≠ some [] := by
  induction bytes with
  | nil => exact absurd rfl filled
  | cons b rest ih =>
    by_cases last : rest = []
    · subst last
      have plain : b ≠ slash := by simpa using ends
      simp [split, plain]
    have below := ih last (by rwa [List.getLast?_cons_of_ne_nil last] at ends)
    obtain ⟨part, parts, shape⟩ := List.exists_cons_of_ne_nil (split_ne_nil rest)
    rw [split, shape]
    rw [shape] at below
    split
    · rwa [List.getLast?_cons_of_ne_nil (List.cons_ne_nil _ _)]
    · cases parts with
      | nil => simp
      | cons next others => simpa using below

theorem lastPart_ne_nil {p : Path} (filled : p.isEmpty = false) (ends : p.endsInSlash = false) :
    p.lastPart ≠ [] := by
  have any : p.bytes ≠ [] := by simpa [isEmpty] using filled
  have last : p.bytes.getLast? ≠ some slash := by simpa [endsInSlash] using ends
  intro empty
  obtain ⟨front, shape⟩ := split_lastPart p
  exact split_getLast any last (by simp [shape, empty])

end Path

namespace FileSystem

variable {fs mid later : FileSystem} {held between held' : Place → Prop} {final : Bool} {hops : Nat}
  {here place dir : Place} {parts : List Bytes} {part name : Bytes} {entries : List (Bytes × Node)}

/-- What stood in `fs` while the places of `held` were in use still stands in `later`, where those
    of `held'` are, except that files in use may have gone and a link may have become a file. -/
structure Drifts (fs : FileSystem) (held : Place → Prop) (later : FileSystem)
    (held' : Place → Prop) : Prop where
  seen : later.cwd = fs.cwd
  directory : ∀ q, fs.kindAt q = some .dir → later.kindAt q = some .dir
  link : ∀ q target, fs.kindAt q = some (.link target) →
    later.kindAt q = some (.link target) ∨ later.kindAt q = some .file ∧ ¬ held' q
  file : ∀ q, fs.kindAt q = some .file → ¬ held q → later.kindAt q = some .file ∧ ¬ held' q

namespace Drifts

theorem refl (fs : FileSystem) (held : Place → Prop) : Drifts fs held fs held where
  seen := rfl
  directory _ is := is
  link _ _ is := .inl is
  file _ is free := ⟨is, free⟩

theorem trans (first : Drifts fs held mid between) (second : Drifts mid between later held') :
    Drifts fs held later held' where
  seen := second.seen.trans first.seen
  directory q is := second.directory q (first.directory q is)
  link q target is := by
    rcases first.link q target is with still | ⟨file, free⟩
    · exact second.link q target still
    · exact .inr (second.file q file free)
  file q is free := by
    obtain ⟨still, apart⟩ := first.file q is free
    exact second.file q still apart

/-- Two looks along one path that both end at a directory end at the same one. -/
theorem follow (drifts : Drifts fs held later held') {other : Place} {more : List (Bytes × Node)}
    (found : fs.follow true hops here parts = .ok (.found dir (.dir entries)))
    (again : later.follow true hops here parts = .ok (.found other (.dir more))) : other = dir := by
  induction hops, here, parts using follow_induction with
  | nil hops here =>
    rw [follow_nil] at found again
    split at found <;> cases found
    split at again <;> cases again
    rfl
  | cons hops here part rest next jump =>
    rw [follow_cons] at found again
    cases moved : fs.move here part with
    | error fault =>
      rw [moved] at found
      cases found
    | ok m =>
      obtain ⟨directory, ways⟩ := move_ok moved
      -- on the way there are directories and links, and a link that has gone ends the second look
      have moves : later.move here part = .ok m := by
        have stays := drifts.directory here directory
        rcases ways with ⟨rfl, empty⟩ | ⟨rfl, up⟩ | ⟨arrives, usable⟩
        · rw [move, stays]
          simp only [if_pos empty]
        · rw [move, stays, up]
          rfl
        · rw [moved, arrives] at found
          rw [move_usable stays usable] at again ⊢
          rw [arrives]
          cases there : fs.kindAt (here ++ [part]) with
          | none =>
            rw [there] at found
            dsimp only [arrival] at found
            split at found <;> cases found
          | some kind =>
            cases kind with
            | dir => rw [drifts.directory _ there]
            | file =>
              rw [there] at found
              exact absurd found (follow_file there)
            | link target =>
              rcases drifts.link _ _ there with still | ⟨file, -⟩
              · rw [still]
              · rw [file] at again
                exact absurd again (follow_file file)
      rw [moved] at found
      rw [moves] at again
      cases m with
      | stay => exact next _ found again
      | up => exact next _ found again
      | enter => exact next _ found again
      | miss =>
        dsimp only at found
        split at found <;> cases found
      | jump target =>
        simp only [Bool.not_true, Bool.and_false, Bool.false_eq_true, if_false] at found again
        cases hops with
        | zero => cases found
        | succ hops =>
          by_cases given : target.isEmpty = true
          · simp only [if_pos given] at found
            cases found
          · simp only [if_neg given] at found again
            exact jump _ rfl _ _ found again

end Drifts

section Named

theorem directory_above (held : fs.outlineAt (dir ++ [name]) ≠ none) :
    ∃ entries, fs.get? dir = some (.dir entries) :=
  Node.outlineAt_dir.mp (Node.outlineAt_above held)

theorem get?_dropLast (held : fs.get? here = some (.dir entries)) :
    ∃ more, fs.get? here.dropLast = some (.dir more) := by
  rcases List.eq_nil_or_concat here with rfl | ⟨above, name, rfl⟩
  · exact ⟨entries, held⟩
  · rw [List.concat_eq_append, List.dropLast_concat]
    rw [List.concat_eq_append] at held
    exact directory_above (by rw [outlineAt, Node.outlineAt_of_get? held]; simp)

/-- A path leads to a directory, or else to an entry with its last part for a name. -/
theorem follow_last {there : Target} (filled : part ≠ [])
    (arrives : fs.follow false hops here (parts ++ [part]) = .ok there) :
    (∃ q inner, there = .found q (.dir inner)) ∨ ∃ dir, there.place = dir ++ [part] := by
  -- a link on the way is replaced by its target, and the last part stays the last one
  induction hops, here, parts using follow_induction with
  | nil hops here =>
    rw [List.nil_append, follow_cons] at arrives
    cases moved : fs.move here part with
    | error fault =>
      rw [moved] at arrives
      cases arrives
    | ok m =>
      obtain ⟨entries, directory⟩ := move_dir moved
      rw [moved] at arrives
      cases m with
      | stay =>
        dsimp only at arrives
        rw [follow_nil, directory] at arrives
        cases arrives
        exact .inl ⟨here, entries, rfl⟩
      | up =>
        obtain ⟨more, above⟩ := get?_dropLast directory
        dsimp only at arrives
        rw [follow_nil, above] at arrives
        cases arrives
        exact .inl ⟨here.dropLast, more, rfl⟩
      | enter =>
        dsimp only at arrives
        rw [follow_nil] at arrives
        split at arrives <;> cases arrives
        exact .inr ⟨here, rfl⟩
      | miss =>
        cases arrives
        exact .inr ⟨here, rfl⟩
      | jump target =>
        cases arrives
        exact .inr ⟨here, rfl⟩
  | cons hops here first rest next jump =>
    rw [List.cons_append, follow_cons] at arrives
    cases moved : fs.move here first with
    | error fault =>
      rw [moved] at arrives
      cases arrives
    | ok m =>
      rw [moved] at arrives
      cases m with
      | stay => exact next _ arrives
      | up => exact next _ arrives
      | enter => exact next _ arrives
      | miss =>
        have more : (rest ++ [part]).all (·.isEmpty) = false := by simp [filled]
        simp only [more] at arrives
        cases arrives
      | jump target =>
        have more : ((rest ++ [part]).isEmpty && !false) = false := by simp
        simp only [more] at arrives
        cases hops with
        | zero => cases arrives
        | succ hops =>
          by_cases given : target.isEmpty = true
          · simp only [if_pos given] at arrives
            cases arrives
          · simp only [if_neg given] at arrives
            rw [← List.append_assoc] at arrives
            exact jump _ rfl _ _ arrives

/-- The place of a path for a regular file, which a path with a slash at its end has not. -/
def FilePlace (fs : FileSystem) (p : Path) (place : Place) : Prop :=
  p.endsInSlash = false ∧ ∃ there, fs.resolve false p = .ok there ∧ there.place = place

theorem FilePlace.entry {p : Path} (stands : fs.FilePlace p place) :
    fs.outlineAt place = some .dir ∨ ∃ dir, place = dir ++ [p.lastPart] := by
  obtain ⟨ends, there, arrives, rfl⟩ := stands
  obtain ⟨passed, followed⟩ := resolve_ok arrives
  obtain ⟨front, shape⟩ := Path.split_join_lastPart fs.cwd p
  rw [shape] at followed
  rcases follow_last (Path.lastPart_ne_nil (refusal?_filled passed) ends) followed with
    ⟨q, inner, rfl⟩ | entry
  · exact .inl (Node.outlineAt_of_get? (resolve_found arrives))
  · exact .inr entry

theorem resolve_above {p : Path} {there : Target} (arrives : fs.resolve final p = .ok there)
    (shape : there.place = dir ++ [name]) : ∃ entries, fs.get? dir = some (.dir entries) := by
  cases there with
  | found q node =>
    obtain rfl : q = dir ++ [name] := shape
    exact directory_above (by rw [outlineAt, Node.outlineAt_of_get? (resolve_found arrives)]; simp)
  | absent q missing =>
    obtain ⟨rfl, -⟩ := List.append_inj' shape rfl
    obtain ⟨entries, held, -⟩ := follow_absent_held (resolve_ok arrives).2
    exact ⟨entries, held⟩

theorem resolve_noDirectory {p : Path} {there : Target} (arrives : fs.resolve final p = .ok there)
    (other : ∀ q inner, there ≠ .found q (.dir inner)) : fs.outlineAt there.place ≠ some .dir := by
  cases there with
  | found q node =>
    rw [Target.place, outlineAt, Node.outlineAt_of_get? (resolve_found arrives)]
    cases node with
    | dir inner => exact absurd rfl (other q inner)
    | file data => simp [Node.outline]
    | link target => simp [Node.outline]
  | absent q missing =>
    obtain ⟨entries, held, free⟩ := follow_absent_held (resolve_ok arrives).2
    have nothing : fs.outlineAt (q ++ [missing]) = none :=
      Node.outlineAt_none.mpr ((get?_child held).trans free)
    rw [Target.place, nothing]
    simp

/-- A file of another name is elsewhere. -/
theorem FilePlace.apart {p : Path} (stands : fs.FilePlace p place) (fresh : name ≠ p.lastPart)
    (noDirectory : fs.outlineAt (dir ++ [name]) ≠ some .dir) : place ≠ dir ++ [name] := by
  rintro rfl
  rcases stands.entry with directory | ⟨other, same⟩
  · exact noDirectory directory
  · exact fresh (List.singleton_inj.mp (List.append_inj_right' same rfl))

end Named

section Differs

/-- All is as it was but at one place. -/
structure Differs (fs after : FileSystem) (place : Place) (now : Option Node.Outline) : Prop where
  seen : after.cwd = fs.cwd
  each : ∀ q, after.outlineAt q = if q = place then now else fs.outlineAt q

namespace Differs

variable {after : FileSystem} {was now : Option Node.Outline} {q : Place} {data : FileData}

theorem refl (stands : fs.outlineAt place = now) : Differs fs fs place now where
  seen := rfl
  each q := by
    split
    · rename_i same
      rw [same, stands]
    · rfl

theorem self (differs : Differs fs after place now) : after.outlineAt place = now := by
  rw [differs.each, if_pos rfl]

theorem other (differs : Differs fs after place now) (apart : q ≠ place) :
    after.outlineAt q = fs.outlineAt q := by
  rw [differs.each, if_neg apart]

theorem kindAt_other (differs : Differs fs after place now) (apart : q ≠ place) :
    after.kindAt q = fs.kindAt q := by
  rw [kindAt_eq_outlineAt, kindAt_eq_outlineAt, differs.other apart]

theorem trans (first : Differs fs mid place was) (second : Differs mid after place now) :
    Differs fs after place now where
  seen := second.seen.trans first.seen
  each q := by
    rw [second.each, first.each]
    split <;> rfl

theorem bare (held : fs.get? dir = some (.dir entries))
    (noDirectory : fs.outlineAt (dir ++ [name]) ≠ some .dir) : Node.Bare entries name := by
  refine Node.bare_of_get?_nil fun node found next rest => ?_
  cases node with
  | dir inner =>
    refine absurd ?_ noDirectory
    rw [outlineAt, Node.outlineAt_dir]
    exact ⟨inner, (get?_child held).trans found⟩
  | file data => rfl
  | link target => rfl

theorem put (held : fs.get? dir = some (.dir entries))
    (noDirectory : fs.outlineAt (dir ++ [name]) ≠ some .dir) (data : FileData) :
    Differs fs (fs.put (dir ++ [name]) (.file data)) (dir ++ [name]) (some (.file data)) :=
  ⟨rfl, outlineAt_put_child held (bare held noDirectory) (.file data) fun _ _ => rfl⟩

theorem erase (stands : fs.outlineAt (dir ++ [name]) = some (.file data)) :
    Differs fs (fs.erase (dir ++ [name])) (dir ++ [name]) none := by
  obtain ⟨entries, held⟩ := directory_above (by rw [stands]; simp)
  exact ⟨rfl, outlineAt_erase_child held (bare held (by rw [stands]; simp))⟩

theorem kindAt_file {new : FileData} (differs : Differs fs after place (some (.file new)))
    (stands : fs.outlineAt place = some (.file data)) : after.kindAt = fs.kindAt := by
  funext q
  by_cases same : q = place
  · rw [same, kindAt_eq_outlineAt, kindAt_eq_outlineAt, differs.self, stands]
    rfl
  · exact differs.kindAt_other same

/-- What somebody does to a file of his own is no matter to others. -/
theorem drifts (differs : Differs fs after place now)
    (own : fs.outlineAt place = none ∨
      (∃ data, fs.outlineAt place = some (.file data)) ∧ held place)
    (fewer : ∀ q, held' q → held q ∨ q = place) : Drifts fs held after held' := by
  have kind : fs.kindAt place = none ∨ fs.kindAt place = some .file ∧ held place := by
    rw [kindAt_eq_outlineAt]
    rcases own with free | ⟨⟨data, stands⟩, mine⟩
    · exact .inl (by rw [free]; rfl)
    · exact .inr ⟨by rw [stands]; rfl, mine⟩
  refine ⟨differs.seen, fun q is => ?_, fun q target is => .inl ?_, fun q is free => ?_⟩
  · rw [differs.kindAt_other, is]
    rintro rfl
    simp [is] at kind
  · rw [differs.kindAt_other, is]
    rintro rfl
    simp [is] at kind
  · have apart : q ≠ place := by
      rintro rfl
      simp [is, free] at kind
    refine ⟨by rw [differs.kindAt_other apart, is], fun taken => ?_⟩
    rcases fewer q taken with old | same
    · exact free old
    · exact apart same

/-- A file takes the place of anything but a directory. -/
theorem drifts_over (differs : Differs fs after place (some (.file data)))
    (noDirectory : fs.outlineAt place ≠ some .dir) (free : ¬ held' place)
    (fewer : ∀ q, held' q → held q) : Drifts fs held after held' := by
  have kind : after.kindAt place = some .file := by
    rw [kindAt_eq_outlineAt, differs.self]
    rfl
  refine ⟨differs.seen, fun q is => ?_, fun q target is => ?_, fun q is unheld => ?_⟩
  · rw [differs.kindAt_other, is]
    rintro rfl
    exact noDirectory (Node.outlineAt_dir.mpr (Node.kindAt_dir is))
  · by_cases same : q = place
    · subst same
      exact .inr ⟨kind, free⟩
    · exact .inl (by rw [differs.kindAt_other same, is])
  · by_cases same : q = place
    · subst same
      exact ⟨kind, free⟩
    · exact ⟨by rw [differs.kindAt_other same, is], fun taken => unheld (fewer q taken)⟩

end Differs

theorem Grows.drifts {made : Place → Prop} (grows : fs.Grows later made)
    (fewer : ∀ q, held' q → held q) : Drifts fs held later held' := by
  have kept : ∀ q kind, fs.kindAt q = some kind → later.kindAt q = some kind := grows.larger
  exact ⟨grows.seen, fun q => kept q _, fun q target is => .inl (kept q _ is),
    fun q is free => ⟨kept q _ is, fun taken => free (fewer q taken)⟩⟩

end Differs

section Content

/-- The content of the regular file at a place. -/
def contentAt (fs : FileSystem) (place : Place) : Option ByteArray :=
  ((fs.get? place).bind Node.file?).map (·.content)

theorem contentAt_iff {content : ByteArray} : fs.contentAt place = some content ↔
    ∃ data, fs.outlineAt place = some (.file data) ∧ data.content = content := by
  have file : ∀ data, fs.outlineAt place = some (.file data) ↔ fs.get? place = some (.file data) :=
    fun _ => Node.outlineAt_file
  simp only [file, contentAt]
  cases fs.get? place with
  | none => simp
  | some node => cases node <;> simp [Node.file?]

theorem contentAt_congr (same : later.outlineAt place = fs.outlineAt place) :
    later.contentAt place = fs.contentAt place :=
  Option.ext fun content => by rw [contentAt_iff, contentAt_iff, same]

theorem Grows.contentAt {made : Place → Prop} (grows : fs.Grows later made) (place : Place) :
    later.contentAt place = fs.contentAt place := by
  refine Option.ext fun content => ?_
  rw [contentAt_iff, contentAt_iff]
  rcases grows.each place with same | ⟨free, directory, -⟩
  · rw [same]
  · simp [free, directory]

end Content

theorem createPrivate_differs {p made : Path} {after : FileSystem} (isName : Path.IsName name)
    (ran : (FileAction.createPrivate p name).run fs = (.ok made, after)) :
    ∃ dir entries, fs.resolve true p = .ok (.found dir (.dir entries)) ∧ made = p.join ⟨name⟩ ∧
      fs.outlineAt (dir ++ [name]) = none ∧
      Differs fs after (dir ++ [name]) (some (.file ⟨.empty, FileAction.privateMode, true⟩)) := by
  obtain ⟨dir, entries, place, missing, leads, absent, rfl, rfl⟩ := FileAction.createPrivate_ok ran
  have held : fs.get? dir = some (.dir entries) := resolve_found leads
  rw [resolve_join isName (resolve_ok absent).1 leads (.inl rfl), named] at absent
  have free : entries.lookup name = none := by
    split at absent
    · cases absent
    · split at absent
      · assumption
      · cases absent
  have nothing : fs.outlineAt (dir ++ [name]) = none :=
    Node.outlineAt_none.mpr ((get?_child held).trans free)
  exact ⟨dir, entries, leads, rfl, nothing, .put held (by rw [nothing]; simp) _⟩

section Lodged

/-- A path that was made of a directory at `dir` and a name, before the files drifted. -/
structure Lodged (fs : FileSystem) (held : Place → Prop) (p : Path) (dir : Place) (name : Bytes) :
    Prop where
  isName : Path.IsName name
  made : ∃ origin between directory entries, p = directory.join ⟨name⟩ ∧
    FileSystem.resolve origin true directory = .ok (.found dir (.dir entries)) ∧
    Drifts origin between fs held

namespace Lodged

variable {p : Path} {data : FileData} {node : Node} {after : FileSystem}

theorem drift (lodged : Lodged fs held p dir name) (drifts : Drifts fs held later held') :
    Lodged later held' p dir name := by
  obtain ⟨isName, origin, between, directory, entries, shape, leads, drifted⟩ := lodged
  exact ⟨isName, origin, between, directory, entries, shape, leads, drifted.trans drifts⟩

/-- The path leads to the file, if it leads anywhere. -/
theorem found (lodged : Lodged fs held p dir name)
    (stands : fs.outlineAt (dir ++ [name]) = some (.file data))
    (resolved : fs.resolve final p = .ok (.found place node)) :
    place = dir ++ [name] ∧ node = .file data := by
  obtain ⟨isName, origin, between, directory, entries, rfl, leads, drifts⟩ := lodged
  obtain ⟨parts, shape, led⟩ := follow_parts isName leads
  obtain ⟨-, followed⟩ := resolve_ok resolved
  rw [drifts.seen, shape] at followed
  obtain ⟨other, more, again⟩ := follow_name_dir isName followed
  obtain rfl := drifts.follow led again
  have entry : more.lookup name = some (.file data) := by
    rw [← get?_child (follow_found again)]
    exact Node.outlineAt_file.mp stands
  rw [follow_name isName again (.inr (by simp [entry])), named, entry] at followed
  split at followed <;> cases followed
  exact ⟨rfl, rfl⟩

theorem update {f : FileData → FileData} {result : Except SystemFault Unit}
    (lodged : Lodged fs held p dir name)
    (stands : fs.outlineAt (dir ++ [name]) = some (.file data))
    (ran : (FileAction.update p f).run fs = (result, after)) :
    ∃ now, Differs fs after (dir ++ [name]) (some (.file now)) ∧
      (result = .ok () → now = f data) := by
  cases result with
  | error fault =>
    obtain rfl := FileAction.update_error ran
    exact ⟨data, .refl stands, by simp⟩
  | ok value =>
    obtain ⟨place, old, leads⟩ := FileAction.update_ok ran
    obtain ⟨rfl, same⟩ := lodged.found stands leads
    cases same
    rw [FileAction.update_file leads f] at ran
    cases ran
    obtain ⟨entries, directory⟩ := directory_above (by rw [stands]; simp)
    exact ⟨f data, .put directory (by rw [stands]; simp) _, fun _ => rfl⟩

/-- A file that could be removed can be when it has been written to. -/
theorem remove {new : FileData} (lodged : Lodged fs held p dir name)
    (stands : fs.outlineAt (dir ++ [name]) = some (.file data)) (mine : held (dir ++ [name]))
    (removable : ((FileAction.remove p).run fs).1 = .ok ())
    (written : Differs fs mid (dir ++ [name]) (some (.file new))) :
    Differs fs ((FileAction.remove p).run mid).2 (dir ++ [name]) none := by
  obtain ⟨place, node, resolved⟩ := FileAction.remove_ok (Prod.ext removable rfl)
  have still : Lodged mid held p dir name :=
    lodged.drift (written.drifts (.inr ⟨⟨data, stands⟩, mine⟩) fun q taken => .inl taken)
  have same : (mid.resolve false p).map spot = (fs.resolve false p).map spot :=
    resolve_congr (written.kindAt_file stands) written.seen
  rw [resolved] at same
  rcases spot_cases same with ⟨fault, -, wrong⟩ | ⟨q, missing, -, wrong⟩ | ⟨q, now, -, again, -⟩
  · cases wrong
  · cases wrong
  · obtain ⟨rfl, -⟩ := still.found written.self again
    rw [FileAction.remove_found again]
    exact written.trans (.erase written.self)

/-- The file leaves its place for that of another path, where no directory is. -/
theorem rename {target : Path} (lodged : Lodged fs held p dir name)
    (stands : fs.outlineAt (dir ++ [name]) = some (.file data)) (fresh : name ≠ target.lastPart)
    (ran : (FileAction.rename p target).run fs = (.ok (), after)) :
    ∃ mid place, fs.FilePlace target place ∧ place ≠ dir ++ [name] ∧
      fs.outlineAt place ≠ some .dir ∧ Differs fs mid (dir ++ [name]) none ∧
      Differs mid after place (some (.file data)) := by
  obtain ⟨ends, old, node, there, leaves, arrives, other, rfl⟩ := FileAction.rename_ok ran
  obtain ⟨rfl, rfl⟩ := lodged.found stands leaves
  have goes : fs.FilePlace target there.place := ⟨ends, there, arrives, rfl⟩
  have noDirectory := resolve_noDirectory arrives other
  have apart := goes.apart fresh (by rw [stands]; simp)
  obtain directory | ⟨dir', shape⟩ := goes.entry
  · exact absurd directory noDirectory
  obtain ⟨entries, held⟩ := resolve_above arrives shape
  have gone : Differs fs (fs.erase (dir ++ [name])) (dir ++ [name]) none := .erase stands
  -- the file that leaves is not the directory that it goes to
  have still : (fs.erase (dir ++ [name])).outlineAt dir' = some .dir := by
    rw [gone.other, outlineAt, Node.outlineAt_dir]
    · exact ⟨entries, held⟩
    · rintro rfl
      have file := Node.outlineAt_file.mp stands
      rw [show fs.root.get? (dir ++ [name]) = _ from held] at file
      cases file
  obtain ⟨more, held'⟩ := Node.outlineAt_dir.mp still
  refine ⟨_, _, goes, apart, noDirectory, gone, ?_⟩
  rw [shape] at apart noDirectory ⊢
  exact .put held' (by rwa [gone.other apart]) data

end Lodged

end Lodged

end FileSystem

end FormatLint
