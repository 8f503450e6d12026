import FormatLint.Proofs.Batch.Placement
import FormatLint.Proofs.Batch.Underway
import FormatLint.Proofs.Batch.Write
import FormatLint.Proofs.FileSystem.Landing
import Mathlib

/-!
Batches that write below an output directory, with engines that are functions. Where every file has
a place of its own and none is on the way of another listed file, the order of turns does not
matter: the texts come to their places, and directories to where these need them.
-/

namespace FormatLint

namespace Batch

open Node (Outline)
open Writing (keptMode)

/-- Where the text of a file goes that can be read. -/
def destination? (stem output : Path) (fs : FileSystem) (file : Path) : Option Place :=
  match fs.readText file, reroot file stem output with
  | .ok _, .ok target => fs.landing? target
  | _, _ => none

/-- The text that a result brings to a place. -/
def delivery? (stem output : Path) (fs : FileSystem) (result : LintResult) :
    Option (Place × String) :=
  match fs.readText result.file with
  | .ok source =>
    (destination? stem output fs result.file).map fun place => (place, result.output.getD source)
  | .error _ => none

def deliveries (stem output : Path) (fs : FileSystem) (results : List LintResult) :
    List (Place × String) :=
  results.filterMap (delivery? stem output fs)

/-- What stands at a place once the texts have come to theirs. A text replaces a file and keeps its
    permissions, and what is missing on the way to its place is a directory. -/
def overlaid (fs : FileSystem) (texts : List (Place × String)) (place : Place) : Option Outline :=
  match texts.lookup place with
  | some text => some (.file ⟨text.toUTF8, keptMode (fs.get? place), true⟩)
  | none =>
    if ∃ text ∈ texts, place <+: text.1 then some ((fs.outlineAt place).getD .dir)
    else fs.outlineAt place

/-- No two files of the list go to one place, and none goes to the place of a link. -/
structure Parted (stem output : Path) (fs : FileSystem) (paths : List Path) : Prop where
  apart : ∀ file ∈ paths, ∀ other ∈ paths, ∀ place,
    destination? stem output fs file = some place →
    destination? stem output fs other = some place → file = other
  direct : ∀ file ∈ paths, ∀ place target,
    destination? stem output fs file = some place → fs.get? place ≠ some (.link target)

/-- What is written for a file neither replaces nor makes anything on the way of another one. -/
def Undisturbed (stem output : Path) (fs : FileSystem) (paths : List Path) : Prop :=
  ∀ file ∈ paths, ∀ other ∈ paths, file ≠ other → ∀ place,
    destination? stem output fs file = some place → ∀ q ∈ fs.visited other,
      q ≠ place ∧ (q <+: place → (fs.get? q).isSome)

section Overlay

variable {fs world mid after : FileSystem} {front back texts : List (Place × String)}
  {place dir : Place} {last : Bytes} {text : String} {o : Outline}

theorem keptMode_congr {old new : Option Node} (same : old.map Node.outline = new.map Node.outline) :
    keptMode old = keptMode new := by
  cases old with
  | none =>
    rw [Option.map_none] at same
    rw [Option.map_eq_none_iff.mp same.symm]
  | some left =>
    obtain ⟨right, rfl, shape⟩ := Option.map_eq_some_iff.mp same.symm
    cases left <;> cases right <;> cases shape <;> rfl

theorem overlaid_kept (free : texts.lookup place = none) (held : fs.outlineAt place = some o) :
    overlaid fs texts place = some o := by
  rw [overlaid, free]
  simp [held]

theorem overlaid_off (free : texts.lookup place = none)
    (off : ∀ text ∈ texts, ¬ place <+: text.1) : overlaid fs texts place = fs.outlineAt place := by
  rw [overlaid, free]
  simp only
  rw [if_neg]
  rintro ⟨text, member, inside⟩
  exact off text member inside

theorem lookup_insert_other (apart : place ≠ dir) :
    (front ++ (dir, text) :: back).lookup place = (front ++ back).lookup place := by
  rw [List.lookup_append, List.lookup_append, List.lookup_cons, beq_false_of_ne apart]

theorem lookup_insert_self (fresh : (front ++ back).lookup place = none) :
    (front ++ (place, text) :: back).lookup place = some text := by
  rw [List.lookup_append, Option.or_eq_none_iff] at fresh
  rw [List.lookup_append, fresh.1, List.lookup_cons, beq_self_eq_true]
  rfl

/-- A place that is no directory now, and that no text has come to, is as it was. -/
theorem overlaid_untaken (free : texts.lookup place = none)
    (each : ∀ q, world.outlineAt q = overlaid fs texts q) {made : Place → Prop}
    (grows : world.Grows mid made) (noDirectory : mid.outlineAt place ≠ some .dir) :
    mid.outlineAt place = fs.outlineAt place := by
  rcases grows.each place with same | ⟨-, now, -⟩
  · cases held : fs.outlineAt place with
    | some o => rw [same, each, overlaid_kept free held]
    | none =>
      rw [same, each, overlaid, free] at noDirectory ⊢
      simp only [held, Option.getD_none] at noDirectory ⊢
      split
      · rename_i needed
        exact absurd (if_pos needed) noDirectory
      · rfl
  · exact absurd now noDirectory

theorem overlaid_put (each : ∀ q, world.outlineAt q = overlaid fs (front ++ back) q)
    (fresh : (front ++ back).lookup (dir ++ [last]) = none) (grows : world.Grows mid (· <+: dir))
    (directory : mid.outlineAt dir = some .dir)
    (noDirectory : mid.outlineAt (dir ++ [last]) ≠ some .dir)
    (put : ∀ q, after.outlineAt q =
      if q = dir ++ [last] then
        some (.file ⟨text.toUTF8, keptMode (mid.get? (dir ++ [last])), true⟩)
      else mid.outlineAt q) (q : Place) :
    after.outlineAt q = overlaid fs (front ++ (dir ++ [last], text) :: back) q := by
  rw [put]
  by_cases here : q = dir ++ [last]
  · subst here
    rw [if_pos rfl, overlaid, lookup_insert_self fresh]
    have mode : keptMode (mid.get? (dir ++ [last])) = keptMode (fs.get? (dir ++ [last])) :=
      keptMode_congr (overlaid_untaken fresh each grows noDirectory)
    rw [mode]
  rw [if_neg here]
  by_cases above : q <+: dir ++ [last]
  · -- a directory on the way to the text
    obtain inside : q <+: dir := by
      rcases List.prefix_concat_iff.mp above with same | inside
      · exact absurd same here
      · exact inside
    have now : mid.outlineAt q = some .dir := by
      obtain ⟨rest, rfl⟩ := inside
      cases rest with
      | nil => simpa using directory
      | cons next rest =>
        have below : mid.outlineAt (q ++ next :: rest) ≠ none := by simp [directory]
        exact Node.outlineAt_above below
    have free : (front ++ back).lookup q = none := by
      cases taken : (front ++ back).lookup q with
      | none => rfl
      | some other =>
        have file := each q
        rw [overlaid, taken] at file
        rw [grows.kept file] at now
        cases now
    have needed : ∃ other ∈ front ++ (dir ++ [last], text) :: back, q <+: other.1 :=
      ⟨(dir ++ [last], text), by simp, above⟩
    rw [now, overlaid, lookup_insert_other here, free]
    simp only [if_pos needed]
    cases held : fs.outlineAt q with
    | none => rfl
    | some o =>
      have still : world.outlineAt q = some o := (each q).trans (overlaid_kept free held)
      rw [← now, grows.kept still]
      rfl
  · -- elsewhere
    have same : mid.outlineAt q = world.outlineAt q := by
      rcases grows.each q with same | ⟨-, -, made⟩
      · exact same
      · exact absurd (made.trans (List.prefix_append dir [last])) above
    have needed : (∃ other ∈ front ++ (dir ++ [last], text) :: back, q <+: other.1) ↔
        ∃ other ∈ front ++ back, q <+: other.1 := by
      constructor
      · rintro ⟨other, member, inside⟩
        refine ⟨other, ?_, inside⟩
        rcases List.mem_append.mp member with member | member
        · exact List.mem_append_left _ member
        · rcases List.mem_cons.mp member with rfl | member
          · exact absurd inside above
          · exact List.mem_append_right _ member
      · rintro ⟨other, member, inside⟩
        exact ⟨other, by simp at member ⊢; tauto, inside⟩
    rw [same, each, overlaid, overlaid, lookup_insert_other here]
    simp only [needed]

end Overlay

section Delivered

variable {stem output : Path} {fs files mid : FileSystem} {paths : List Path}
  {results : List LintResult} {file target : Path} {source : String} {place : Place}

theorem delivery?_place {result : LintResult} {d : Place × String}
    (delivered : delivery? stem output fs result = some d) :
    destination? stem output fs result.file = some d.1 := by
  rw [delivery?] at delivered
  split at delivered
  · obtain ⟨place, goes, rfl⟩ := Option.map_eq_some_iff.mp delivered
    exact goes
  · cases delivered

theorem delivery?_unread {result : LintResult} {fault : SystemFault}
    (unread : fs.readText result.file = .error fault) : delivery? stem output fs result = none := by
  rw [delivery?, unread]

theorem delivery?_read {result : LintResult} (read : fs.readText result.file = .ok source)
    (goes : destination? stem output fs result.file = some place) :
    delivery? stem output fs result = some (place, result.output.getD source) := by
  rw [delivery?, read, goes]
  rfl

theorem deliveries_append (before after : List LintResult) :
    deliveries stem output fs (before ++ after) =
      deliveries stem output fs before ++ deliveries stem output fs after :=
  List.filterMap_append

theorem deliveries_insert {result : LintResult} {d : Place × String} {before after : List LintResult}
    (delivered : delivery? stem output fs result = some d) :
    deliveries stem output fs (before ++ result :: after) =
      deliveries stem output fs before ++ d :: deliveries stem output fs after := by
  rw [deliveries_append]
  simp only [deliveries, List.filterMap_cons_some delivered]

/-- The texts of the results have come to their places, none of which was a directory or a link. -/
structure Delivered (stem output : Path) (fs : FileSystem) (results : List LintResult)
    (files : FileSystem) : Prop where
  seen : files.cwd = fs.cwd
  each : ∀ place, files.outlineAt place = overlaid fs (deliveries stem output fs results) place
  onFiles : ∀ d ∈ deliveries stem output fs results, ∀ o, fs.outlineAt d.1 = some o →
    ∃ data, o = .file data

theorem deliveries_others (parted : Parted stem output fs paths) (listed : file ∈ paths)
    (others : Others paths file results) (goes : destination? stem output fs file = some place) :
    (deliveries stem output fs results).lookup place = none := by
  rw [List.lookup_eq_none_iff]
  intro d member
  obtain ⟨result, inside, delivered⟩ := List.mem_filterMap.mp member
  obtain ⟨listed', apart⟩ := others result inside
  simp only [bne_iff_ne]
  rintro rfl
  exact apart (parted.apart _ listed' _ listed _ (delivery?_place delivered) goes)

/-- Other files bring nothing to the way of a file. -/
theorem Delivered.reads (delivered : Delivered stem output fs results files)
    (undisturbed : Undisturbed stem output fs paths) (listed : file ∈ paths)
    (others : Others paths file results) : files.readText file = fs.readText file := by
  apply FileSystem.readText_visited delivered.seen
  intro q onWay
  rw [delivered.each]
  have clear : ∀ d ∈ deliveries stem output fs results,
      q ≠ d.1 ∧ (q <+: d.1 → (fs.get? q).isSome) := by
    intro d member
    obtain ⟨result, inside, goes⟩ := List.mem_filterMap.mp member
    obtain ⟨listed', apart⟩ := others result inside
    exact undisturbed _ listed' _ listed apart _ (delivery?_place goes) q onWay
  have free : (deliveries stem output fs results).lookup q = none := by
    rw [List.lookup_eq_none_iff]
    intro d member
    simpa using (clear d member).1
  cases held : fs.outlineAt q with
  | some o => exact overlaid_kept free held
  | none =>
    rw [← held]
    apply overlaid_off free
    intro d member inside
    have there := (clear d member).2 inside
    rw [show fs.get? q = none from Node.outlineAt_none.mp held] at there
    cases there

/-- Whatever has come since, nothing has gone and no link has come. -/
theorem Delivered.later (delivered : Delivered stem output fs results files) {made : Place → Prop}
    (grows : files.Grows mid made) : fs.Later mid := by
  refine ⟨grows.seen.trans delivered.seen, ?_, ?_⟩
  · intro place kind held
    apply grows.larger
    have before : (fs.outlineAt place).map Outline.kind = some kind :=
      (fs.kindAt_eq_outlineAt place).symm.trans held
    have now : files.kindAt place = some kind := by
      rw [files.kindAt_eq_outlineAt, delivered.each]
      obtain ⟨o, stood, rfl⟩ := Option.map_eq_some_iff.mp before
      cases taken : (deliveries stem output fs results).lookup place with
      | none => rw [overlaid_kept taken stood, Option.map_some]
      | some text =>
        obtain ⟨front, back, split, -⟩ := List.lookup_eq_some_iff.mp taken
        obtain ⟨data, rfl⟩ := delivered.onFiles (place, text) (by simp [split]) o stood
        rw [overlaid, taken]
        rfl
    exact now
  · intro place target link
    rw [FileSystem.kindAt_eq_outlineAt] at link ⊢
    rcases grows.each place with same | ⟨-, now, -⟩
    · rw [same, delivered.each, overlaid] at link
      split at link
      · cases link
      · split at link
        · cases stood : fs.outlineAt place with
          | none =>
            rw [stood] at link
            cases link
          | some o =>
            rw [stood] at link
            exact link
        · exact link
    · rw [now] at link
      cases link

end Delivered

section Turns

variable {format : String → Path → String} {lint : String → Path → LintResult} {fs : FileSystem}
  {paths : List Path} {stem output file target : Path} {programs : Programs}

theorem turn_redirected (placed : reroot file stem output = .ok target) (source : String)
    (result : LintResult) (engines : Engines) :
    (Stage.linted source result).turn engines { relativeStem := stem, outputDir := some output } file =
      (Writing.perform ⟨target, result.output.getD source⟩ >>= fun _ => pure (.done result)) := by
  have written : writing? { relativeStem := stem, outputDir := some output } file source result =
      .ok (some ⟨target, result.output.getD source⟩) := by
    simp only [writing?, Options.writes, placed]
    rfl
  rw [Stage.turn, written]
  rfl

/-- A target that a text was moved to is a name in a directory. -/
theorem target_form (absolute : file.isAbsolute = true)
    (placed : reroot file stem output = .ok target) (ends : target.endsInSlash = false)
    (text : String) :
    ∃ (a : Path.Anchor) (names : List Bytes) (last : Bytes), (∀ n ∈ names, Path.IsName n) ∧
      Path.IsName last ∧ (a.path names).isEmpty = false ∧ target = (a.path names).join ⟨last⟩ ∧
      Writing.directory ⟨target, text⟩ = a.path names := by
  obtain ⟨files, properFile, normal⟩ := Path.normalize_absolute absolute
  obtain ⟨names, proper, -, rfl⟩ := reroot_names properFile normal placed
  obtain ⟨a, outs, properOut, form, filled⟩ := output.normalize_form
  rcases List.eq_nil_or_concat names with rfl | ⟨init, last, rfl⟩
  · -- without a name the target is the output directory with a slash after it
    have open' : (output.normalize.join ⟨Path.unsplit []⟩).bytes = Path.lead output.normalize := by
      rw [Path.join_relative _ (by rfl)]
      exact List.append_nil _
    rcases Path.lead_ends output.normalize with empty | ⟨front, slash⟩
    · rw [Path.lead] at empty
      split at empty <;> simp [Path.isEmpty] at empty filled
      exact absurd empty filled
    · rw [Path.endsInSlash, open', slash] at ends
      simp at ends
  · rw [List.concat_eq_append] at proper ends ⊢
    have properInit : ∀ n ∈ outs ++ init, Path.IsName n := by
      intro n member
      rcases List.mem_append.mp member with member | member
      · exact properOut n member
      · exact proper n (List.mem_append_left _ member)
    have isName := proper last (by simp)
    have whole : output.normalize.join ⟨Path.unsplit (init ++ [last])⟩ =
        a.path (outs ++ init ++ [last]) := by
      rw [form, Path.Anchor.path_join properOut proper (by simp), List.append_assoc]
    have filledInit : (a.path (outs ++ init)).isEmpty = false := by
      rw [form] at filled
      exact Path.Anchor.path_append_filled properOut
        (fun n member => proper n (List.mem_append_left _ member)) filled
    have properAll : ∀ n ∈ outs ++ init ++ [last], Path.IsName n :=
      List.forall_mem_append.mpr ⟨properInit, List.forall_mem_singleton.mpr isName⟩
    refine ⟨a, outs ++ init, last, properInit, isName, filledInit, ?_, ?_⟩
    · rw [whole, Path.Anchor.path_join_name properInit isName]
    · rw [Writing.directory, whole, Path.Anchor.path_parent? properAll]
      simp [filledInit]

variable {before after : List LintResult} {world next : World} {result : LintResult}
  {source : String}

/-- What a task writes takes the place of a file or of nothing in a directory that was made for
    it. -/
theorem Delivered.arrives (parted : Parted stem output fs paths) (listed : result.file ∈ paths)
    (absolute : result.file.isAbsolute = true) (read : fs.readText result.file = .ok source)
    (placed : reroot result.file stem output = .ok target)
    (delivered : Delivered stem output fs (before ++ after) world.files)
    (ran : (Writing.perform ⟨target, result.output.getD source⟩ programs).run world = (.ok (), next)) :
    ∃ (mid : FileSystem) (dir : Place) (entries : List (Bytes × Node)) (last : Bytes),
      world.files.Grows mid (· <+: dir) ∧ mid.get? dir = some (.dir entries) ∧
      destination? stem output fs result.file = some (dir ++ [last]) ∧
      (∀ node, entries.lookup last = some node → ∃ data, node = .file data) ∧
      next.files = mid.put (dir ++ [last])
        (.file ⟨(result.output.getD source).toUTF8, keptMode (entries.lookup last), true⟩) := by
  obtain ⟨a, names, last, proper, isName, filled, rfl, directory⟩ :=
    target_form absolute placed (Writing.perform_endsInSlash ran) (result.output.getD source)
  obtain ⟨mid, dir, entries, mode, made, leads, noInner, kept, rfl⟩ :=
    Writing.perform_ok isName rfl directory ran
  obtain ⟨dir', entries', leads', grows⟩ := FileAction.makeDirectories_ok proper filled made
  rw [leads] at leads'
  cases leads'
  have held := FileSystem.resolve_found leads
  have later := delivered.later grows
  have goes : destination? stem output fs result.file = some (dir ++ [last]) := by
    rw [destination?, read, placed]
    exact later.landing? isName leads
  have noLink : ∀ path, entries.lookup last ≠ some (.link path) := by
    intro path link
    have now : mid.kindAt (dir ++ [last]) = some (.link path) := by
      rw [FileSystem.kindAt, FileSystem.get?_child held, link]
      rfl
    obtain ⟨node, stood, shape⟩ := FileSystem.get?_of_kindAt (later.linkFree _ _ now)
    cases node <;> cases shape
    exact parted.direct _ listed _ _ goes stood
  refine ⟨mid, dir, entries, last, grows, held, goes, ?_, by rw [kept noLink]⟩
  intro node found
  cases node with
  | file data => exact ⟨data, rfl⟩
  | dir inner => exact absurd found (noInner inner)
  | link path => exact absurd found (noLink path)

theorem Delivered.perform (parted : Parted stem output fs paths) (listed : result.file ∈ paths)
    (others : Others paths result.file (before ++ after)) (absolute : result.file.isAbsolute = true)
    (read : fs.readText result.file = .ok source)
    (placed : reroot result.file stem output = .ok target)
    (delivered : Delivered stem output fs (before ++ after) world.files)
    (ran : (Writing.perform ⟨target, result.output.getD source⟩ programs).run world = (.ok (), next)) :
    Delivered stem output fs (before ++ result :: after) next.files := by
  obtain ⟨mid, dir, entries, last, grows, held, goes, onFile, put⟩ :=
    delivered.arrives parted listed absolute read placed ran
  have entry : mid.get? (dir ++ [last]) = entries.lookup last := FileSystem.get?_child held
  have outline : ∀ o, mid.outlineAt (dir ++ [last]) = some o → ∃ data, o = .file data := by
    intro o found
    obtain ⟨node, taken, rfl⟩ := Option.map_eq_some_iff.mp found
    obtain ⟨data, rfl⟩ := onFile node (entry.symm.trans taken)
    exact ⟨data, rfl⟩
  have noDirectory : mid.outlineAt (dir ++ [last]) ≠ some .dir := by
    intro inner
    obtain ⟨data, shape⟩ := outline _ inner
    cases shape
  have bare : Node.Bare entries last := by
    apply Node.bare_of_get?_nil
    intro node found
    obtain ⟨data, rfl⟩ := onFile node found
    exact fun _ _ => rfl
  have fresh := deliveries_others parted listed others goes
  have each := delivered.each
  have onFiles := delivered.onFiles
  rw [deliveries_append] at fresh each onFiles
  refine ⟨?_, ?_, ?_⟩
  · rw [put]
    exact grows.seen.trans delivered.seen
  · rw [deliveries_insert (delivery?_read read goes), put]
    apply overlaid_put each fresh grows (Node.outlineAt_of_get? held) noDirectory
    intro q
    rw [entry]
    exact FileSystem.outlineAt_put_child held bare _ (fun _ _ => rfl) q
  · rw [deliveries_insert (delivery?_read read goes)]
    intro d member o stood
    rcases List.mem_append.mp member with member | member
    · exact onFiles d (List.mem_append_left _ member) o stood
    · rcases List.mem_cons.mp member with rfl | member
      · exact outline o ((overlaid_untaken fresh each grows noDirectory).trans stood)
      · exact onFiles d (List.mem_append_right _ member) o stood

/-- Tasks that write below an output directory do not get in each other's way. -/
theorem independent_redirected (parted : Parted stem output fs paths)
    (undisturbed : Undisturbed stem output fs paths)
    (normal : ∀ file ∈ paths, file.isAbsolute = true ∧ file.normalize = file)
    (below : ∀ file ∈ paths, ∃ target, reroot file stem output = .ok target) :
    Independent format lint programs { relativeStem := stem, outputDir := some output } fs paths
      (Delivered stem output fs) := by
  refine ⟨?_, ?_, ?_, ?_⟩
  · exact ⟨rfl, fun place => (overlaid_off rfl (by simp [deliveries])).symm, by simp [deliveries]⟩
  · intro results files file listed others delivered
    exact delivered.reads undisturbed listed others
  · intro before after files file fault listed unread delivered
    have nothing : delivery? stem output fs (outcome format lint fs file) = none :=
      delivery?_unread (by rwa [outcome_file])
    have same : deliveries stem output fs (before ++ outcome format lint fs file :: after) =
        deliveries stem output fs (before ++ after) := by
      simp only [deliveries, List.filterMap_append, List.filterMap_cons_none nothing]
    exact ⟨delivered.seen, same ▸ delivered.each, same ▸ delivered.onFiles⟩
  · intro before after world next file source stage listed others read delivered ran
    obtain ⟨target, placed⟩ := below file listed
    rw [turn_redirected placed] at ran
    obtain ⟨⟨⟩, mid, wrote, returned⟩ := Action.bind_ok ran
    cases returned
    have about : (outcome format lint fs file).file = file := outcome_file fs file
    rw [← about] at listed others read placed
    exact delivered.perform parted listed others (normal _ listed).1 read placed wrote

end Turns

section NoLinks

variable {fs : FileSystem} {paths : List Path} {stem output file : Path} {place : Place}

/-- Without links a file goes to names below one place, which tell it from other files. -/
theorem destination?_names (stem output : Path)
    (noLinks : ∀ place target, fs.get? place ≠ some (.link target)) :
    ∃ top, ∀ file place, file.isAbsolute = true → destination? stem output fs file = some place →
      ∃ names, place = top ++ names ∧
        file.normalize.components = stem.normalize.components ++ names.map .name := by
  obtain ⟨-, -, -, -, filled⟩ := output.normalize_form
  obtain ⟨parts, split⟩ := Path.split_join_unsplit (Path.join_filled fs.cwd filled)
  refine ⟨(fs.landing linkLimit [] parts).getD [], ?_⟩
  intro file place absolute goes
  obtain ⟨files, proper, rooted⟩ := Path.normalize_absolute absolute
  rw [destination?] at goes
  split at goes
  · rename_i source target read placed
    obtain ⟨names, below, components, rfl⟩ := reroot_names proper rooted placed
    have relative : (⟨Path.unsplit names⟩ : Path).isAbsolute = false :=
      Path.unsplit_isAbsolute fun n member => (below n member).isPart
    rw [FileSystem.landing?, Path.join_join filled relative, split names below,
      FileSystem.landing_append noLinks] at goes
    obtain ⟨top, stands, goes⟩ := Option.bind_eq_some_iff.mp goes
    refine ⟨names, ?_, components⟩
    rw [stands, Option.getD_some]
    by_cases none : names = []
    · rw [none, if_pos rfl, FileSystem.landing, if_pos (.inl rfl), FileSystem.landing] at goes
      rw [none, List.append_nil, Option.some.inj goes]
    · rw [if_neg none, FileSystem.landing_names noLinks below] at goes
      exact (Option.some.inj goes).symm
  · cases goes

theorem parted_of_noLinks (noLinks : ∀ place target, fs.get? place ≠ some (.link target))
    (normal : ∀ file ∈ paths, file.isAbsolute = true ∧ file.normalize = file) :
    Parted stem output fs paths := by
  refine ⟨?_, fun file listed place target goes => noLinks place target⟩
  obtain ⟨top, named⟩ := destination?_names stem output noLinks
  intro file listed other listed' place goes goes'
  obtain ⟨absolute, same⟩ := normal file listed
  obtain ⟨absolute', same'⟩ := normal other listed'
  obtain ⟨names, rfl, components⟩ := named file place absolute goes
  obtain ⟨names', spelt, components'⟩ := named other _ absolute' goes'
  rw [List.append_cancel_left spelt, ← components'] at components
  obtain ⟨files, proper, rooted⟩ := Path.normalize_absolute absolute
  obtain ⟨others, proper', rooted'⟩ := Path.normalize_absolute absolute'
  rw [rooted, rooted', Path.components_rooted proper, Path.components_rooted proper',
    List.cons.injEq, Path.map_name_injective.eq_iff] at components
  rw [← same, ← same', rooted, rooted', components.2]

end NoLinks

theorem Running.unfailed {r : Running} {results : List LintResult}
    (settled : r.results? = some results) : ∀ task ∈ r.tasks, ∀ e, task.stage ≠ .failed e := by
  obtain ⟨tasks, world⟩ := r
  rw [Running.results?] at settled
  dsimp only at settled ⊢
  induction tasks generalizing results with
  | nil => simp
  | cons first tasks ih =>
    rw [List.mapM_cons] at settled
    obtain ⟨result, done, rest⟩ := Option.bind_eq_some_iff.mp settled
    obtain ⟨others, settled, -⟩ := Option.bind_eq_some_iff.mp rest
    intro task member e failed
    rcases List.mem_cons.mp member with rfl | member
    · rw [failed] at done
      cases done
    · exact ih settled task member e failed

theorem processFiles_ok {engines : Engines} {o : Options} {files : List Path}
    {results : List LintResult} {world after : World} {programs : Programs}
    (ran : (processFiles engines o files programs).run world = (.ok results, after)) :
    (files.mapM (processFile engines o) programs).run world = (.ok results, after) := by
  rw [processFiles] at ran
  obtain ⟨⟨⟩, same, checked, worked⟩ := Action.bind_ok ran
  cases allowed : checkTargets o files with
  | error e =>
    rw [allowed] at checked
    cases checked
  | ok passed =>
    rw [allowed] at checked
    cases checked
    exact worked

/-- The tasks of a batch that writes below an output directory, after the turns of an order. -/
def redirected (programs : Programs) (format : String → Path → String)
    (lint : String → Path → LintResult) (stem output : Path) (files : List Path) (world : World)
    (order : List Nat) : Running :=
  (Running.start files world).turns programs (.ofPure format lint)
    { relativeStem := stem, outputDir := some output } order

/-- A batch that writes below an output directory comes to the same results and the same files in
    whatever order its tasks take their turns, if what is written for a file is not on the way of
    another one; and so does the batch that works on one file after the other. -/
theorem redirected_independent_of_schedule (programs : Programs) (format : String → Path → String)
    (lint : String → Path → LintResult) (stem output : Path) (world : World) (files : List Path)
    (first second : List Nat) (distinct : files.Nodup)
    (normal : ∀ file ∈ files, file.isAbsolute = true ∧ file.normalize = file)
    (below : ∀ file ∈ files, stem.normalize.components <+: file.components)
    (parted : Parted stem output world.files files)
    (undisturbed : Undisturbed stem output world.files files)
    (complete : ∀ order ∈ [first, second], ∀ i < files.length, 4 ≤ order.count i)
    (succeeds : ∀ order ∈ [first, second],
      ∀ task ∈ (redirected programs format lint stem output files world order).tasks,
        ∀ e, task.stage ≠ .failed e) :
    let o : Options := { relativeStem := stem, outputDir := some output }
    let final := redirected programs format lint stem output files world
    let results := files.map (outcome format lint world.files)
    let settled := overlaid world.files (deliveries stem output world.files results)
    (final first).results? = some results ∧ (final second).results? = some results ∧
    (∀ place, (final first).world.files.outlineAt place = settled place ∧
      (final second).world.files.outlineAt place = settled place) ∧
    ((∀ e after, (processFiles (.ofPure format lint) o files programs).run world ≠
        (.error e, after)) →
      ∃ after, (processFiles (.ofPure format lint) o files programs).run world =
          (.ok results, after) ∧
        ∀ place, after.files.outlineAt place = settled place) := by
  intro o final results settled
  have placed : ∀ file ∈ files, ∃ target, reroot file stem output = .ok target := by
    intro file listed
    apply reroot_of_prefix
    rw [(normal file listed).2]
    exact below file listed
  have independent : Independent format lint programs o world.files files
      (Delivered stem output world.files) :=
    independent_redirected parted undisturbed normal placed
  have ends : ∀ order ∈ [first, second], (final order).results? = some results ∧
      ∀ place, (final order).world.files.outlineAt place = settled place := by
    intro order listed
    obtain ⟨after, ended, delivered⟩ := independent.settles distinct rfl (complete order listed)
      (succeeds order listed)
    have final_eq : final order = _ := ended
    rw [final_eq]
    exact ⟨results?_done files _ after, delivered.each⟩
  obtain ⟨answer, texts⟩ := ends first (by simp)
  obtain ⟨answer', texts'⟩ := ends second (by simp)
  refine ⟨answer, answer', fun place => ⟨texts place, texts' place⟩, ?_⟩
  intro noError
  cases ran : (processFiles (.ofPure format lint) o files programs).run world with
  | mk answer last =>
    cases answer with
    | error e => exact absurd ran (noError e last)
    | ok found =>
      obtain ⟨rfl, delivered⟩ := independent.inOrder_settles distinct rfl (processFiles_ok ran)
      exact ⟨last, rfl, delivered.each⟩

/-- A file `/s/a`, a file `/s/d/b` and an older `/o/a`. -/
def mirrorWorld : World where
  files :=
    { root := .dir
        [([0x73], .dir
            [([0x61], .file { content := "x".toUTF8 }),
              ([0x64], .dir [([0x62], .file { content := "y".toUTF8 })])]),
          ([0x6F], .dir [([0x61], .file { content := "old".toUTF8 })])]
      cwd := ⟨[0x2F]⟩ }

def mirrorFiles : List Path :=
  [⟨[0x2F, 0x73, 0x2F, 0x61]⟩, ⟨[0x2F, 0x73, 0x2F, 0x64, 0x2F, 0x62]⟩]

/-- Each text with a mark at its end, from `/s` to `/o`. -/
def mirrorRun : List Nat → Running :=
  redirected (fun _ => throw .notFound) (fun text _ => text ++ "!") (fun _ file => { file })
    ⟨[0x2F, 0x73]⟩ ⟨[0x2F, 0x6F]⟩ mirrorFiles mirrorWorld

theorem mirrorWorld_noLinks (place : Place) (target : Path) :
    mirrorWorld.files.get? place ≠ some (.link target) := by
  refine Node.noLinks_dir ?_ place target
  simp only [List.forall_mem_cons, List.not_mem_nil, false_implies, implies_true, and_true]
  refine ⟨Node.noLinks_dir ?_, Node.noLinks_dir ?_⟩
  · simp only [List.forall_mem_cons, List.not_mem_nil, false_implies, implies_true, and_true]
    refine ⟨Node.noLinks_file _, Node.noLinks_dir ?_⟩
    simpa only [List.forall_mem_singleton] using Node.noLinks_file _
  · simpa only [List.forall_mem_singleton] using Node.noLinks_file _

theorem mirrorWorld_undisturbed :
    Undisturbed ⟨[0x2F, 0x73]⟩ ⟨[0x2F, 0x6F]⟩ mirrorWorld.files mirrorFiles := by
  have goes : mirrorFiles.map (destination? ⟨[0x2F, 0x73]⟩ ⟨[0x2F, 0x6F]⟩ mirrorWorld.files) =
      [some [[0x6F], [0x61]], some [[0x6F], [0x64], [0x62]]] := by cbv
  have ways : mirrorFiles.map mirrorWorld.files.visited =
      [[[], [], [[0x73]], [[0x73], [0x61]]],
        [[], [], [[0x73]], [[0x73], [0x64]], [[0x73], [0x64], [0x62]]]] := by cbv
  simp only [mirrorFiles, List.map_cons, List.map_nil, List.cons.injEq, and_true] at goes ways
  intro file listed other listed' apart place lands
  simp only [mirrorFiles, List.mem_cons, List.not_mem_nil, or_false] at listed listed'
  obtain rfl | rfl := listed <;> obtain rfl | rfl := listed'
  · exact absurd rfl apart
  · rw [goes.1] at lands
    cases lands
    rw [ways.2]
    decide
  · rw [goes.2] at lands
    cases lands
    rw [ways.1]
    decide
  · exact absurd rfl apart

theorem redirected_independent_of_schedule_sample :
    let results : List LintResult :=
      [⟨⟨[0x2F, 0x73, 0x2F, 0x61]⟩, [], some "x!"⟩,
        ⟨⟨[0x2F, 0x73, 0x2F, 0x64, 0x2F, 0x62]⟩, [], some "y!"⟩]
    let texts : List (Place × String) := [([[0x6F], [0x61]], "x!"), ([[0x6F], [0x64], [0x62]], "y!")]
    (mirrorRun [0, 1, 1, 0, 1, 1, 0, 0]).results? = some results ∧
    (mirrorRun [1, 1, 1, 1, 0, 0, 0, 0]).results? = some results ∧
    ∀ place, (mirrorRun [0, 1, 1, 0, 1, 1, 0, 0]).world.files.outlineAt place =
        overlaid mirrorWorld.files texts place ∧
      (mirrorRun [1, 1, 1, 1, 0, 0, 0, 0]).world.files.outlineAt place =
        overlaid mirrorWorld.files texts place := by
  intro results texts
  have normal : ∀ file ∈ mirrorFiles, file.isAbsolute = true ∧ file.normalize = file := by decide
  have answers : ∀ order ∈ [[0, 1, 1, 0, 1, 1, 0, 0], [1, 1, 1, 1, 0, 0, 0, 0]],
      (mirrorRun order).results? = some results := by
    simp only [List.forall_mem_cons, List.not_mem_nil, false_implies, implies_true, and_true]
    refine ⟨?_, ?_⟩
    · cbv
    · cbv
  have outcomes : mirrorFiles.map (outcome (fun text _ => text ++ "!") (fun _ file => { file })
      mirrorWorld.files) = results := by cbv
  have brought : deliveries ⟨[0x2F, 0x73]⟩ ⟨[0x2F, 0x6F]⟩ mirrorWorld.files results = texts := by cbv
  obtain ⟨first, second, settled, -⟩ := redirected_independent_of_schedule (fun _ => throw .notFound)
    (fun text _ => text ++ "!") (fun _ file => { file }) ⟨[0x2F, 0x73]⟩ ⟨[0x2F, 0x6F]⟩ mirrorWorld
    mirrorFiles [0, 1, 1, 0, 1, 1, 0, 0] [1, 1, 1, 1, 0, 0, 0, 0] (by decide) normal (by decide)
    (parted_of_noLinks mirrorWorld_noLinks normal) mirrorWorld_undisturbed (by decide)
    fun order listed => Running.unfailed (answers order listed)
  rw [outcomes] at first second settled
  rw [brought] at settled
  exact ⟨first, second, settled⟩

/-- A file `/a` and a file `/o/a`. -/
def nestedWorld : World where
  files :=
    { root := .dir
        [([0x61], .file { content := "x".toUTF8 }),
          ([0x6F], .dir [([0x61], .file { content := "y".toUTF8 })])]
      cwd := ⟨[0x2F]⟩ }

theorem nestedWorld_noLinks (place : Place) (target : Path) :
    nestedWorld.files.get? place ≠ some (.link target) := by
  refine Node.noLinks_dir ?_ place target
  simp only [List.forall_mem_cons, List.not_mem_nil, false_implies, implies_true, and_true]
  refine ⟨Node.noLinks_file _, Node.noLinks_dir ?_⟩
  simpa only [List.forall_mem_singleton] using Node.noLinks_file _

def nestedFiles : List Path := [⟨[0x2F, 0x61]⟩, ⟨[0x2F, 0x6F, 0x2F, 0x61]⟩]

def nestedRun : List Nat → Running :=
  redirected (fun _ => throw .notFound) (fun text _ => text ++ "!") (fun _ file => { file })
    ⟨[0x2F]⟩ ⟨[0x2F, 0x6F]⟩ nestedFiles nestedWorld

theorem nestedRun_first : (nestedRun [0, 0, 0, 0, 1, 1, 1, 1]).results? =
    some [⟨⟨[0x2F, 0x61]⟩, [], some "x!"⟩, ⟨⟨[0x2F, 0x6F, 0x2F, 0x61]⟩, [], some "x!!"⟩] := by cbv

theorem nestedRun_second : (nestedRun [1, 1, 1, 1, 0, 0, 0, 0]).results? =
    some [⟨⟨[0x2F, 0x61]⟩, [], some "x!"⟩, ⟨⟨[0x2F, 0x6F, 0x2F, 0x61]⟩, [], some "y!"⟩] := by cbv

/-- With a listed file in the output directory the order matters: from `/` to `/o`, the file `/a`
    goes to where `/o/a` is read. -/
theorem redirected_depends_on_schedule :
    ¬ ∀ (programs : Programs) (format : String → Path → String) (lint : String → Path → LintResult)
        (stem output : Path) (world : World) (files : List Path) (first second : List Nat),
      (∀ place target, world.files.get? place ≠ some (.link target)) → files.Nodup →
      (∀ file ∈ files, file.isAbsolute = true ∧ file.normalize = file) →
      (∀ file ∈ files, stem.normalize.components <+: file.components) →
      (∀ order ∈ [first, second], ∀ i < files.length, 4 ≤ order.count i) →
      (∀ order ∈ [first, second],
        ∀ task ∈ (redirected programs format lint stem output files world order).tasks,
          ∀ e, task.stage ≠ .failed e) →
      (redirected programs format lint stem output files world first).results? =
        (redirected programs format lint stem output files world second).results? := by
  intro independent
  have same : (nestedRun [0, 0, 0, 0, 1, 1, 1, 1]).results? =
      (nestedRun [1, 1, 1, 1, 0, 0, 0, 0]).results? := by
    refine independent _ _ _ _ _ _ nestedFiles _ _ nestedWorld_noLinks (by decide) (by decide)
      (by decide) (by decide) ?_
    simp only [List.forall_mem_cons, List.not_mem_nil, false_implies, implies_true, and_true]
    exact ⟨Running.unfailed nestedRun_first, Running.unfailed nestedRun_second⟩
  rw [nestedRun_first, nestedRun_second] at same
  simp at same

end Batch

end FormatLint
