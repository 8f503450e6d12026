import FormatLint.Proofs.FileSystem.Alias

/-!
File systems whose files have been given new texts. Paths lead where they led before, and a file
without a new text reads as before.
-/

namespace FormatLint.FileSystem

/-- The data of a file that may have been given a new text. -/
def renewed (text? : Place → Option String) (place : Place) (data : FileData) : FileData :=
  match text? place with
  | some text => { data with content := text.toUTF8, touched := true }
  | none => data

/-- The file system in which exactly the files with a new text hold it. -/
def holding (fs : FileSystem) (text? : Place → Option String) : FileSystem :=
  { fs with root := fs.root.mapFiles (renewed text?) }

variable {fs : FileSystem} {text? : Place → Option String} {p : Path} {place : Place} {node : Node}

theorem holding_nothing (fs : FileSystem) : fs.holding (fun _ => none) = fs := by
  rw [holding]
  exact congrArg (FileSystem.mk · fs.cwd) (Node.mapFiles_same fs.root)

theorem get?_holding (place : Place) :
    (fs.holding text?).get? place =
      (fs.get? place).map (Node.mapFiles fun below => renewed text? (place ++ below)) :=
  Node.get?_mapFiles fs.root place

theorem kindAt_holding (fs : FileSystem) (text? : Place → Option String) :
    (fs.holding text?).kindAt = fs.kindAt := by
  funext place
  exact Node.kindAt_mapFiles fs.root place

theorem resolve_holding (fs : FileSystem) (text? : Place → Option String) (final : Bool) (p : Path) :
    (fs.holding text?).resolve final p =
      (fs.resolve final p).map fun
        | .found place node =>
          .found place (node.mapFiles fun below => renewed text? (place ++ below))
        | .absent dir name => .absent dir name := by
  have same : ((fs.holding text?).resolve final p).map spot = (fs.resolve final p).map spot :=
    resolve_congr (kindAt_holding fs text?) rfl
  cases before : fs.resolve final p with
  | error fault =>
    rw [before] at same
    cases after : (fs.holding text?).resolve final p with
    | error other =>
      rw [after] at same
      cases same
      rfl
    | ok target =>
      rw [after] at same
      cases same
  | ok target =>
    rw [before] at same
    cases after : (fs.holding text?).resolve final p with
    | error other =>
      rw [after] at same
      cases same
    | ok other =>
      rw [after] at same
      have spots : spot other = spot target := Except.ok.inj same
      cases target with
      | absent dir name =>
        cases other with
        | found place node => cases spots
        | absent dir' name' =>
          cases spots
          rfl
      | found place node =>
        cases other with
        | absent dir' name' => cases spots
        | found place' node' =>
          cases spots
          have held := resolve_found after
          rw [get?_holding, resolve_found before] at held
          cases held
          rfl

/-- A file without a new text reads as before. -/
theorem readText_holding (old : ∀ place, fs.place? p = some place → text? place = none) :
    (fs.holding text?).readText p = fs.readText p := by
  have resolved := resolve_holding fs text? true p
  cases before : fs.resolve true p with
  | error fault =>
    rw [before] at resolved
    simp only [readText, readBytes, stat, resolved, before, Except.map]
  | ok target =>
    rw [before] at resolved
    cases target with
    | absent dir name => simp only [readText, readBytes, stat, resolved, before, Except.map]
    | found place node =>
      have none := old place (place?_iff.mpr ⟨node, before⟩)
      cases node with
      | file data =>
        have same : renewed text? place data = data := by rw [renewed, none]
        simp only [readText, readBytes, stat, resolved, before, Except.map, Node.mapFiles,
          List.append_nil, same]
      | dir entries => simp only [readText, readBytes, stat, resolved, before, Except.map, Node.mapFiles]; rfl
      | link target => simp only [readText, readBytes, stat, resolved, before, Except.map, Node.mapFiles]

/-- A file that is given a text now holds it. -/
theorem put_holding (named : fs.root.WellNamed) {data : FileData} {text : String}
    {later? : Place → Option String} (found : fs.get? place = some (.file data))
    (here : later? place = some text) (elsewhere : ∀ other, other ≠ place → later? other = text? other) :
    (fs.holding text?).put place (.file ⟨text.toUTF8, data.mode, true⟩) = fs.holding later? := by
  rw [holding, holding, put]
  congr 1
  refine Node.put_mapFiles named found ?_ ?_
  · rw [renewed, here]
  · intro other apart
    funext old
    rw [renewed, renewed, elsewhere other apart]

end FormatLint.FileSystem
