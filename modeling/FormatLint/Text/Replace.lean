/-!
Finding and replacing texts in texts.
-/

namespace FormatLint.Text

/-- The text after a leading part, if it starts with that part. -/
def afterFront? : List Char → List Char → Option (List Char)
  | [], text => some text
  | _ :: _, [] => none
  | p :: ps, c :: cs => if p = c then afterFront? ps cs else none

theorem length_le_of_afterFront? {part text rest : List Char}
    (h : afterFront? part text = some rest) : rest.length ≤ text.length := by
  fun_induction afterFront? part text with
  | case1 => simp_all
  | case2 => simp at h
  | case3 _ _ _ ih => exact Nat.le_succ_of_le (ih h)
  | case4 => simp at h

/-- The text cut at each occurrence of `part`, from left to right and without overlaps: the
    stretches between the occurrences. An empty part occurs at both ends and between any two
    characters. -/
def cutAt (part : List Char) (text : List Char) : List (List Char) :=
  if part.isEmpty then [] :: text.map (fun c => [c]) ++ [[]]
  else go text []
where
  /-- `seen` is the stretch so far, last character first. -/
  go (text seen : List Char) : List (List Char) :=
    match text with
    | [] => [seen.reverse]
    | c :: cs =>
      match h : afterFront? part.tail cs with
      | some rest =>
        if part.head? = some c then
          have := length_le_of_afterFront? h
          seen.reverse :: go rest []
        else go cs (c :: seen)
      | none => go cs (c :: seen)
  termination_by text.length

/-- Whether `part` occurs in a text. -/
def occursIn (part text : String) : Bool := 1 < (cutAt part.toList text.toList).length

/-- A text with `replacement` for each occurrence of `part`. -/
def replaceAll (part replacement text : String) : String :=
  String.ofList (joined (cutAt part.toList text.toList))
where
  joined : List (List Char) → List Char
    | [] => []
    | [stretch] => stretch
    | stretch :: rest => stretch ++ replacement.toList ++ joined rest

/-- A place in a text: line and column, both counted from one. -/
structure Position where
  line : Nat := 1
  column : Nat := 1
deriving DecidableEq

/-- The place after a text that starts at `p`. -/
def Position.after (p : Position) (text : List Char) : Position :=
  text.foldl
    (fun p c => if c = '\n' then ⟨p.line + 1, 1⟩ else ⟨p.line, p.column + 1⟩) p

/-- Where `part` occurs in a text. -/
def positionsOf (part text : String) : List Position :=
  go {} (cutAt part.toList text.toList)
where
  /-- `p` is the place of the first stretch. -/
  go (p : Position) : List (List Char) → List Position
    | [] => []
    | [_] => []
    | stretch :: rest =>
      let found := p.after stretch
      found :: go (found.after part.toList) rest

end FormatLint.Text
