import FormatLint.Glob.Parser
import FormatLint.Proofs.Glob.Language

/-!
Globs of the form `<stem>/**` and `<stem>/**/*`. Reading such a text gives the tokens of the stem
with a recursive token after them, so whatever lies below a match of the stem is a match of the
whole glob: `accepts_below`. Even where the stem cannot be read on its own, what lies below a match
of a glob `<stem>/**` is a match of it: `accepts_deeper`.
-/

namespace FormatLint.Glob

/-- A `**` that is only part of a segment reads as two stars. -/
theorem readFrom_runs (r : Reading) (previous : Option Char) (filled : r.tokens ≠ [])
    (noSegment : startsSegment r previous = false) (rest : List Char) :
    readFrom (.text previous) r ('*' :: '*' :: rest) = readFrom (.text (some '*')) r.pushRuns rest := by
  cases rest with
  | nil => simp [readFrom, filled, noSegment]
  | cons c rest =>
    by_cases isSlash : c = '/'
    · subst isSlash
      simp [readFrom, filled, noSegment]
    · simp [readFrom, filled, noSegment]

theorem readFrom_star (r : Reading) (previous : Option Char) (rest : List Char)
    (single : rest.head? ≠ some '*') :
    readFrom (.text previous) r ('*' :: rest) = readFrom (.text (some '*')) (r.push .run) rest := by
  cases rest with
  | nil => simp [readFrom]
  | cons c rest =>
    have other : c ≠ '*' := by simpa using single
    simp [readFrom, other]

/-- The characters with a meaning of their own. -/
def isSpecial (c : Char) : Bool := ['?', '*', '[', '{', '}', ',', '\\'].contains c

theorem readFrom_literal (r : Reading) (previous : Option Char) (c : Char) (rest : List Char)
    (plain : isSpecial c = false) :
    readFrom (.text previous) r (c :: rest) =
      readFrom (.text (some c)) (r.push (.literal c)) rest := by
  simp only [isSpecial, List.contains_eq_mem, List.mem_cons, List.not_mem_nil, or_false,
    decide_eq_false_iff_not, not_or] at plain
  rw [readFrom] <;> simp [plain]

/-- A `**/` stands only before all other tokens; the tokens are given last first. -/
def LeadingFirst (tokens : List Token) : Prop := .leading ∉ tokens.dropLast

theorem LeadingFirst.cons {t : Token} {tokens : List Token} (other : t ≠ .leading)
    (ordered : LeadingFirst tokens) : LeadingFirst (t :: tokens) := by
  unfold LeadingFirst at *
  cases tokens with
  | nil => simp
  | cons head tail =>
    rw [List.dropLast_cons_of_ne_nil (by simp), List.mem_cons, not_or]
    exact ⟨other.symm, ordered⟩

theorem LeadingFirst.replace {t head : Token} {tail : List Token} (other : t ≠ .leading)
    (ordered : LeadingFirst (head :: tail)) : LeadingFirst (t :: tail) := by
  refine LeadingFirst.cons other ?_
  unfold LeadingFirst at *
  cases tail with
  | nil => simp
  | cons next tail =>
    rw [List.dropLast_cons_of_ne_nil (by simp), List.mem_cons, not_or] at ordered
    exact ordered.2

namespace Reading

/-- The order of tokens in every alternative that is being read. -/
def Ordered (r : Reading) : Prop :=
  LeadingFirst r.tokens ∧ ∀ o ∈ r.opened, LeadingFirst o.before

theorem Ordered.push {r : Reading} {t : Token} (other : t ≠ .leading) (ordered : r.Ordered) :
    (r.push t).Ordered := ⟨ordered.1.cons other, ordered.2⟩

theorem Ordered.pushRuns {r : Reading} (ordered : r.Ordered) : r.pushRuns.Ordered :=
  (ordered.push (by simp)).push (by simp)

theorem Ordered.pushLeading {r : Reading} (empty : r.tokens = []) (ordered : r.Ordered) :
    (r.push .leading).Ordered := by
  refine ⟨?_, ordered.2⟩
  simp [Reading.push, empty, LeadingFirst]

theorem Ordered.merge {r : Reading} {t : Token} (other : t ≠ .leading) (ordered : r.Ordered) :
    (r.merge t).Ordered := by
  unfold Reading.merge
  split
  · exact ordered
  · exact ordered
  · rename_i head tail _ _ shape
    exact ⟨LeadingFirst.replace other (shape ▸ ordered.1), ordered.2⟩
  · exact ⟨by simp [LeadingFirst], ordered.2⟩

theorem Ordered.openGroup {r : Reading} (ordered : r.Ordered) : r.openGroup.Ordered := by
  refine ⟨by simp [Reading.openGroup, LeadingFirst], ?_⟩
  simpa [Reading.openGroup] using And.intro ordered.1 ordered.2

theorem Ordered.nextAlternative {r : Reading} (ordered : r.Ordered) :
    r.nextAlternative.Ordered := by
  unfold Reading.nextAlternative
  split
  · exact ordered.push (by simp)
  · rename_i o outer shape
    have below := ordered.2
    rw [shape] at below
    exact ⟨by simp [LeadingFirst], by simpa using below⟩

theorem Ordered.closeGroup {r closed : Reading} (close : r.closeGroup? = some closed)
    (ordered : r.Ordered) : closed.Ordered := by
  unfold Reading.closeGroup? at close
  split at close
  · cases close
  · rename_i o outer shape
    have below := ordered.2
    rw [shape] at below
    simp only [List.mem_cons, forall_eq_or_imp] at below
    cases close
    exact ⟨below.1.cons (by simp), below.2⟩

end Reading

/-- What reading does next. Everything but the end of the text is the same whether or not a slash
    and more text follow. -/
inductive Turn : Mode → Reading → List Char → Prop
  | finished (mode : Mode) (r : Reading) : Turn mode r []
  /-- The text ends in a `**` that stands for whole segments. -/
  | recursive (r : Reading) (previous : Option Char)
      (segment : r.tokens = [] ∨ r.tokens ≠ [] ∧ startsSegment r previous = true) :
      Turn (.text previous) r ['*', '*']
  | dangling (r : Reading) (previous : Option Char) : Turn (.text previous) r ['\\']
  | refused {mode : Mode} {r : Reading} {cs : List Char} (e : Fault)
      (short : readFrom mode r cs = .error e)
      (long : ∀ more, readFrom mode r (cs ++ '/' :: more) = .error e) : Turn mode r cs
  /-- A lone `**/` is left only by a slash. -/
  | advance {mode : Mode} {r : Reading} (mode' : Mode) (r' : Reading) (c : Char)
      (front rest : List Char)
      (short : readFrom mode r (c :: front ++ rest) = readFrom mode' r' rest)
      (long : ∀ more,
        readFrom mode r (c :: front ++ rest ++ '/' :: more) = readFrom mode' r' (rest ++ '/' :: more))
      (ordered : r.Ordered → r'.Ordered)
      (lone : rest = [] → r'.tokens = [.leading] → (∃ previous, mode' = .text previous) →
        (c :: front).getLast? = some '/') :
      Turn mode r (c :: front ++ rest)

theorem readFrom_turn (mode : Mode) (r : Reading) (cs : List Char) : Turn mode r cs := by
  fun_cases readFrom mode r cs
  case case1 | case2 => exact .finished ..
  case case3 previous rest =>
    exact .advance (.text (some '?')) (r.push .any) '?' [] rest (by simp [readFrom])
      (by simp [readFrom]) (.push (by simp)) (by simp [Reading.push])
  case case4 previous empty => exact .recursive r previous (Or.inl (by simpa using empty))
  case case5 previous empty after =>
    exact .advance (.text (some '/')) (r.push .leading) '*' ['*', '/'] after
      (by simp [readFrom, empty]) (by simp [readFrom, empty])
      (.pushLeading (by simpa using empty)) (by simp)
  case case6 previous empty c after other =>
    exact .advance (.text (some '*')) r.pushRuns '*' ['*'] (c :: after)
      (by simp [readFrom, empty]) (by simp [readFrom, empty]) .pushRuns (by simp)
  case case7 previous filled segment =>
    exact .recursive r previous (Or.inr ⟨by simpa using filled, segment⟩)
  case case8 previous filled segment after =>
    exact .advance (.text (some '/')) (r.merge .middle) '*' ['*', '/'] after
      (by simp [readFrom, filled, segment]) (by simp [readFrom, filled, segment])
      (.merge (by simp)) (by simp)
  case case9 previous filled segment c after other ends =>
    exact .advance (.text (some '*')) (r.merge .trailing) '*' ['*'] (c :: after)
      (by simp [readFrom, filled, segment, ends]) (by simp [readFrom, filled, segment, ends])
      (.merge (by simp)) (by simp)
  case case10 previous filled segment c after other inside =>
    exact .advance (.text (some '*')) r.pushRuns '*' ['*'] (c :: after)
      (by simp [readFrom, filled, segment, inside]) (by simp [readFrom, filled, segment, inside])
      .pushRuns (by simp)
  case case11 previous rest filled noSegment =>
    have runs := readFrom_runs r previous (by simpa using filled) (by simpa using noSegment)
    exact .advance (.text (some '*')) r.pushRuns '*' ['*'] rest (runs rest) (fun _ => runs _)
      .pushRuns (by simp [Reading.pushRuns, Reading.push])
  case case12 previous rest single =>
    have short : rest.head? ≠ some '*' := by cases rest <;> simp_all
    have long : ∀ more, (rest ++ '/' :: more).head? ≠ some '*' := by
      intro more
      cases rest <;> simp_all
    exact .advance (.text (some '*')) (r.push .run) '*' [] rest
      (readFrom_star r previous rest short) (fun more => readFrom_star r previous _ (long more))
      (.push (by simp)) (by simp [Reading.push])
  case case13 previous rest =>
    exact .advance (.set true [] true false) r '[' ['!'] rest (by simp [readFrom])
      (by simp [readFrom]) id (by simp)
  case case14 previous rest =>
    exact .advance (.set true [] true false) r '[' ['^'] rest (by simp [readFrom])
      (by simp [readFrom]) id (by simp)
  case case15 previous rest noBang noCaret =>
    refine .advance (.set false [] true false) r '[' [] rest ?_ ?_ id (by simp)
    · cases rest <;> simp_all [readFrom]
    · cases rest <;> simp_all [readFrom]
  case case16 previous rest =>
    exact .advance (.text (some '{')) r.openGroup '{' [] rest (by simp [readFrom])
      (by simp [readFrom]) .openGroup (by simp [Reading.openGroup])
  case case17 previous rest unopened =>
    exact .refused .unopenedGroup (by simp [readFrom, unopened]) (by simp [readFrom, unopened])
  case case18 previous rest closed opened =>
    refine .advance (.text (some '}')) closed '}' [] rest (by simp [readFrom, opened])
      (by simp [readFrom, opened]) (.closeGroup opened) ?_
    intro _ lone
    unfold Reading.closeGroup? at opened
    split at opened
    · cases opened
    · cases opened
      simp at lone
  case case19 previous rest =>
    refine .advance (.text (some ',')) r.nextAlternative ',' [] rest (by simp [readFrom])
      (by simp [readFrom]) .nextAlternative ?_
    intro _ lone
    unfold Reading.nextAlternative at lone
    split at lone <;> simp [Reading.push] at lone
  case case20 previous => exact .dangling r previous
  case case21 previous c rest =>
    exact .advance (.text (some c)) (r.push (.literal c)) '\\' [c] rest (by simp [readFrom])
      (by simp [readFrom]) (.push (by simp)) (by simp [Reading.push])
  case case22 previous c rest _ _ _ _ _ _ _ _ _ lastEscape escape =>
    have noEscape : c ≠ '\\' := by
      intro isEscape
      cases rest with
      | nil => exact lastEscape isEscape rfl
      | cons d rest => exact escape d rest isEscape rfl
    have plain : isSpecial c = false := by simp_all [isSpecial]
    exact .advance (.text (some c)) (r.push (.literal c)) c [] rest
      (readFrom_literal r previous c rest plain) (fun _ => readFrom_literal r previous c _ plain)
      (.push (by simp)) (by simp [Reading.push])
  case case23 => exact .finished ..
  case case24 negated ranges pending rest =>
    exact .advance (.set negated ((']', ']') :: ranges) false false) r ']' [] rest
      (by simp [readFrom]) (by simp [readFrom]) id (by simp)
  case case25 negated ranges first pending rest later all =>
    exact .advance (.text (some ']')) (r.push (.oneOf negated all.reverse)) ']' [] rest
      (by simp [readFrom, later, all]) (by simp [readFrom, later, all]) (.push (by simp))
      (by simp [Reading.push])
  case case26 negated ranges pending rest =>
    exact .advance (.set negated [('-', '-')] false false) r '-' [] rest (by simp [readFrom])
      (by simp [readFrom]) id (by simp)
  case case27 negated ranges first rest later e refused =>
    exact .refused e (by simp [readFrom, later, refused]) (by simp [readFrom, later, refused])
  case case28 negated ranges first rest later closed closes =>
    exact .advance (.set negated closed false false) r '-' [] rest
      (by simp [readFrom, later, closes]) (by simp [readFrom, later, closes]) id (by simp)
  case case29 negated ranges first pending rest later settled =>
    exact .advance (.set negated ranges false true) r '-' [] rest
      (by simp [readFrom, later, settled]) (by simp [readFrom, later, settled]) id (by simp)
  case case30 negated ranges first c rest _ _ e refused =>
    exact .refused e (by simp [readFrom, refused]) (by simp [readFrom, refused])
  case case31 negated ranges first c rest _ _ closed closes =>
    exact .advance (.set negated closed false false) r c [] rest (by simp [readFrom, closes])
      (by simp [readFrom, closes]) id (by simp)
  case case32 negated ranges first pending c rest _ _ settled =>
    exact .advance (.set negated ((c, c) :: ranges) false false) r c [] rest
      (by simp [readFrom, settled]) (by simp [readFrom, settled]) id (by simp)

/-- How reading goes on at a slash and more text, after a text that was read as `stem` and ended
    in the character `ending`. A recursive token at the end of the stem swallows the slash. -/
inductive Continued (ending : Option Char) (stem : Reading) (more : List Char)
    (full : Except Fault Reading) : Prop
  | plain (previous : Option Char) (lone : stem.tokens = [.leading] → ending = some '/')
      (same : full = readFrom (.text previous) stem ('/' :: more))
  | leading (top : stem.tokens = [.leading])
      (same : full = readFrom (.text (some '/')) stem more)
  | trailing (below : List Token) (top : stem.tokens = .trailing :: below) (t : Token)
      (recursive : t = .middle ∨ t = .trailing)
      (same : full = readFrom (.text (some '/')) { stem with tokens := t :: below } more)

theorem LeadingFirst.eq_singleton {below : List Token} (ordered : LeadingFirst (.leading :: below)) :
    below = [] := by
  cases below with
  | nil => rfl
  | cons head tail => simp [LeadingFirst] at ordered

/-- A `**` at the end of a text, followed by a slash. -/
theorem recursive_continued (ending previous : Option Char) (r stem : Reading) (more : List Char)
    (ordered : r.Ordered)
    (segment : r.tokens = [] ∨ r.tokens ≠ [] ∧ startsSegment r previous = true)
    (read : readFrom (.text previous) r ['*', '*'] = .ok stem) :
    stem.opened = [] ∧
      Continued ending stem more (readFrom (.text previous) r ('*' :: '*' :: '/' :: more)) := by
  rcases segment with empty | ⟨filled, starts⟩
  · simp only [readFrom, empty, List.isEmpty_nil, if_true] at read ⊢
    split at read
    · cases read
    · rename_i outside
      cases read
      refine ⟨by simpa [Reading.inGroup] using outside, .leading ?_ rfl⟩
      simp [Reading.push, empty]
  · have noEmpty : r.tokens.isEmpty = false := by simpa using filled
    simp only [readFrom, noEmpty, starts, if_true, Bool.false_eq_true, if_false] at read ⊢
    split at read
    · cases read
    · rename_i outside
      cases read
      refine ⟨by simpa [Reading.inGroup] using outside, ?_⟩
      cases shape : r.tokens with
      | nil => exact absurd shape filled
      | cons head tail =>
        by_cases isLeading : head = .leading
        · subst isLeading
          have alone : tail = [] := LeadingFirst.eq_singleton (shape ▸ ordered.1)
          exact .leading (by simp [Reading.merge, shape, alone]) (by simp [Reading.merge, shape])
        · by_cases isTrailing : head = .trailing
          · subst isTrailing
            have same : { r with tokens := .trailing :: tail } = r := by rw [← shape]
            refine .trailing tail (by simp [Reading.merge, shape]) .trailing (Or.inr rfl) ?_
            simp [Reading.merge, shape, same]
          · have merged (t : Token) : r.merge t = { r with tokens := t :: tail } := by
              unfold Reading.merge
              split
              all_goals simp_all
            refine .trailing tail (by simp [merged]) .middle (Or.inl rfl) ?_
            simp [merged]

theorem readFrom_continued (mode : Mode) (r stem : Reading) (cs more : List Char)
    (ordered : r.Ordered) (ending : Option Char) (last : cs ≠ [] → cs.getLast? = ending)
    (lone : cs = [] → r.tokens = [.leading] → ending = some '/')
    (read : readFrom mode r cs = .ok stem) :
    stem.opened = [] ∧ Continued ending stem more (readFrom mode r (cs ++ '/' :: more)) := by
  induction size : cs.length using Nat.strongRecOn generalizing mode r cs with | _ n ih
  cases readFrom_turn mode r cs with
  | finished =>
    cases mode with
    | text previous =>
      simp only [readFrom] at read
      split at read
      · cases read
      · rename_i outside
        cases read
        exact ⟨by simpa [Reading.inGroup] using outside, .plain previous (lone rfl) rfl⟩
    | set negated ranges first pending => simp [readFrom] at read
  | recursive _ previous segment =>
    exact recursive_continued ending previous r stem more ordered segment read
  | dangling => simp [readFrom] at read
  | refused e short long => simp [short] at read
  | advance mode' r' c front rest short long ordered' lone' =>
    rw [long]
    rw [short] at read
    refine ih rest.length (by simp at size; omega) mode' r' rest (ordered' ordered) ?_ ?_ read rfl
    · intro filled
      rw [← last (by simp), List.getLast?_append]
      cases rest with
      | nil => exact absurd rfl filled
      | cons d rest => simp [List.getLast?_cons]
    · intro same alone
      subst same
      have isText : ∃ previous, mode' = .text previous := by
        cases mode' with
        | text previous => exact ⟨previous, rfl⟩
        | set negated ranges first pending => simp [readFrom] at read
      rw [← last (by simp), List.append_nil]
      exact lone' rfl alone isText

namespace Reading

@[simp] theorem push_opened (r : Reading) (t : Token) : (r.push t).opened = r.opened := rfl

@[simp] theorem push_tokens (r : Reading) (t : Token) : (r.push t).tokens = t :: r.tokens := rfl

@[simp] theorem merge_opened (r : Reading) (t : Token) : (r.merge t).opened = r.opened := by
  unfold merge
  split <;> rfl

theorem merge_ne_nil (r : Reading) (t : Token) : (r.merge t).tokens ≠ [] := by
  unfold merge
  split <;> simp_all

end Reading

/-- The texts after the slash of a glob that takes in a whole subtree. -/
inductive Ending : List Char → Prop
  | all : Ending ['*', '*']
  | named : Ending ['*', '*', '/', '*']

theorem Ending.after_slash {more : List Char} (ending : Ending more) (r : Reading)
    (inside : r.opened ≠ []) : ∃ e, readFrom (.text (some '/')) r more = .error e := by
  cases ending with
  | all =>
    by_cases empty : r.tokens = []
    · simp [readFrom, empty, Reading.inGroup, inside]
    · simp [readFrom, empty, startsSegment, Reading.inGroup, inside]
  | named =>
    by_cases empty : r.tokens = []
    · simp [readFrom, empty, Reading.inGroup, inside]
    · simp [readFrom, empty, startsSegment, Reading.inGroup, inside]

theorem Ending.unclosed_group {more : List Char} (ending : Ending more) (previous : Option Char)
    (r : Reading) (inside : r.opened ≠ []) :
    ∃ e, readFrom (.text previous) r ('/' :: more) = .error e := by
  rw [readFrom_literal r previous '/' more (by decide)]
  exact ending.after_slash (r.push (.literal '/')) inside

theorem Ending.unclosed_set {more : List Char} (ending : Ending more) (r : Reading)
    (negated first pending : Bool) (ranges : List (Char × Char)) :
    ∃ e, readFrom (.set negated ranges first pending) r ('/' :: more) = .error e := by
  cases ending with
  | all => cases pending <;> cases closed : closeRange ranges '/' <;> simp [readFrom, closed]
  | named => cases pending <;> cases closed : closeRange ranges '/' <;> simp [readFrom, closed]

/-- A glob that takes in a subtree is read only if its stem is, unless the stem ends in the
    middle of an escape. -/
theorem readFrom_stem {more : List Char} (ending : Ending more) (mode : Mode) (r full : Reading)
    (cs : List Char) (plain : '\\' ∉ cs)
    (read : readFrom mode r (cs ++ '/' :: more) = .ok full) :
    ∃ stem, readFrom mode r cs = .ok stem := by
  induction size : cs.length using Nat.strongRecOn generalizing mode r cs with | _ n ih
  cases readFrom_turn mode r cs with
  | finished =>
    cases mode with
    | text previous =>
      by_cases inside : r.opened = []
      · exact ⟨r, by simp [readFrom, Reading.inGroup, inside]⟩
      · obtain ⟨e, refused⟩ := ending.unclosed_group previous r inside
        simp [refused] at read
    | set negated ranges first pending =>
      obtain ⟨e, refused⟩ := ending.unclosed_set r negated first pending ranges
      simp [refused] at read
  | recursive _ previous segment =>
    have outside : r.opened = [] := by
      false_or_by_contra
      rename_i inside
      rcases segment with empty | ⟨filled, starts⟩
      · obtain ⟨e, refused⟩ := ending.after_slash (r.push .leading) inside
        simp [readFrom, empty, refused] at read
      · obtain ⟨e, refused⟩ := ending.after_slash (r.merge .middle) (by simpa using inside)
        simp [readFrom, filled, starts, refused] at read
    rcases segment with empty | ⟨filled, starts⟩
    · exact ⟨r.push .leading, by simp [readFrom, empty, Reading.inGroup, outside]⟩
    · exact ⟨r.merge .trailing, by simp [readFrom, filled, starts, Reading.inGroup, outside]⟩
  | dangling => simp at plain
  | refused e short long => simp [long] at read
  | advance mode' r' c front rest short long =>
    rw [short]
    rw [long] at read
    have plainRest : '\\' ∉ rest := fun inside => plain (List.mem_append_right _ inside)
    exact ih rest.length (by simp at size; omega) mode' r' rest plainRest read rfl

/-- The tokens of a glob that takes in a subtree, from those of its stem; both last first. -/
inductive Extended (stem : List Token) : List Token → Prop
  | all (several : stem ≠ [.leading]) : Extended stem (.trailing :: stem)
  | named (several : stem ≠ [.leading]) : Extended stem (.run :: .middle :: stem)
  | lone (single : stem = [.leading]) : Extended stem [.leading]
  | loneNamed (single : stem = [.leading]) : Extended stem [.run, .leading]
  | deep (below : List Token) (top : stem = .trailing :: below) :
      Extended stem (.trailing :: below)
  | deepNamed (below : List Token) (top : stem = .trailing :: below) (t : Token)
      (recursive : t = .middle ∨ t = .trailing) : Extended stem (.run :: t :: below)

theorem Continued.extended {ending : Option Char} {stem : Reading} {more : List Char}
    {full : Except Fault Reading} (continued : Continued ending stem more full)
    (noSlash : ending ≠ some '/') (shape : Ending more) (outside : stem.opened = []) :
    ∃ r, full = .ok r ∧ Extended stem.tokens r.tokens := by
  cases continued with
  | plain previous lone same =>
    have several : stem.tokens ≠ [.leading] := fun alone => noSlash (lone alone)
    rw [same, readFrom_literal _ _ '/' _ (by decide)]
    cases shape with
    | all =>
      refine ⟨{ stem with tokens := .trailing :: stem.tokens }, ?_, .all several⟩
      simp [readFrom, startsSegment, Reading.inGroup, Reading.merge, Reading.push, outside]
    | named =>
      refine ⟨{ stem with tokens := .run :: .middle :: stem.tokens }, ?_, .named several⟩
      simp [readFrom, startsSegment, Reading.inGroup, Reading.merge, Reading.push, outside]
  | leading top same =>
    rw [same]
    cases shape with
    | all =>
      refine ⟨stem, ?_, top ▸ .lone rfl⟩
      simp [readFrom, startsSegment, Reading.inGroup, Reading.merge, top, outside]
    | named =>
      refine ⟨stem.push .run, ?_, by simpa [top] using .loneNamed rfl⟩
      simp [readFrom, startsSegment, Reading.inGroup, Reading.merge, top, outside]
  | trailing below top t recursive same =>
    rw [same]
    cases shape with
    | all =>
      refine ⟨{ stem with tokens := .trailing :: below }, ?_, .deep below top⟩
      rcases recursive with rfl | rfl <;>
        simp [readFrom, startsSegment, Reading.inGroup, Reading.merge, outside]
    | named =>
      refine ⟨{ stem with tokens := .run :: t :: below }, ?_, .deepNamed below top t recursive⟩
      rcases recursive with rfl | rfl <;>
        simp [readFrom, startsSegment, Reading.inGroup, Reading.merge, Reading.push, outside]

/-- A text either has one segment or ends in a slash and its last segment. -/
theorem last_segment (text : Bytes) :
    slash ∉ text ∨ ∃ before name, text = before ++ slash :: name ∧ slash ∉ name := by
  induction text with
  | nil => exact Or.inl (by simp)
  | cons b text ih =>
    rcases ih with single | ⟨before, name, rfl, plain⟩
    · by_cases isSlash : b = slash
      · subst isSlash
        exact Or.inr ⟨[], text, rfl, single⟩
      · exact Or.inl (by simp [single, Ne.symm isSlash])
    · exact Or.inr ⟨b :: before, name, rfl, plain⟩

theorem stands_leading_run (text : Bytes) : Stands [.leading, .run] text := by
  rcases last_segment text with single | ⟨before, name, rfl, plain⟩
  · exact ⟨[], text, rfl, Or.inl rfl, (stands_singleton _ _).mpr single⟩
  · exact ⟨before ++ [slash], name, by simp, Or.inr ⟨before, rfl⟩, (stands_singleton _ _).mpr plain⟩

theorem stands_middle_run (below : Bytes) : Stands [.middle, .run] (slash :: below) := by
  rcases last_segment below with single | ⟨before, name, rfl, plain⟩
  · exact ⟨[slash], below, rfl, Or.inl rfl, (stands_singleton _ _).mpr single⟩
  · exact ⟨slash :: before ++ [slash], name, by simp, Or.inr ⟨before, rfl⟩,
      (stands_singleton _ _).mpr plain⟩

theorem stands_trailing_run (below : Bytes) : Stands [.trailing, .run] (slash :: below) :=
  ⟨slash :: below, [], by simp, ⟨below, rfl⟩, (stands_singleton _ _).mpr (by simp [Token.Stands])⟩

/-- What lies below a match of the stem is a match of the whole glob. -/
theorem Extended.accepts {stem full : List Token} (extended : Extended stem full)
    (place below : Bytes) (accepted : Glob.accepts stem.reverse place = true) :
    Glob.accepts full.reverse (place ++ slash :: below) = true := by
  rw [accepts_iff] at accepted ⊢
  cases extended with
  | all several =>
    rcases accepted with alone | stands
    · exact absurd (by simpa using alone) several
    · refine Or.inr ?_
      rw [List.reverse_cons, stands_append]
      exact ⟨place, slash :: below, rfl, stands, (stands_singleton _ _).mpr ⟨below, rfl⟩⟩
  | named several =>
    rcases accepted with alone | stands
    · exact absurd (by simpa using alone) several
    · refine Or.inr ?_
      have split : (Token.run :: .middle :: stem).reverse = stem.reverse ++ [.middle, .run] := by
        simp
      rw [split, stands_append]
      exact ⟨place, slash :: below, rfl, stands, stands_middle_run below⟩
  | lone single => exact Or.inl rfl
  | loneNamed single => exact Or.inr (stands_leading_run _)
  | deep rest top =>
    subst top
    rcases accepted with alone | stands
    · simp [List.append_eq_singleton_iff] at alone
    · refine Or.inr ?_
      rw [List.reverse_cons, stands_append] at stands ⊢
      obtain ⟨front, back, rfl, outer, inner⟩ := stands
      obtain ⟨after, rfl⟩ := (stands_singleton _ _).mp inner
      exact ⟨front, slash :: after ++ slash :: below, by simp, outer,
        (stands_singleton _ _).mpr ⟨after ++ slash :: below, rfl⟩⟩
  | deepNamed rest top t recursive =>
    subst top
    rcases accepted with alone | stands
    · simp [List.append_eq_singleton_iff] at alone
    · refine Or.inr ?_
      have split : (Token.run :: t :: rest).reverse = rest.reverse ++ [t, .run] := by simp
      rw [List.reverse_cons, stands_append] at stands
      rw [split, stands_append]
      obtain ⟨front, back, rfl, outer, inner⟩ := stands
      obtain ⟨after, rfl⟩ := (stands_singleton _ _).mp inner
      refine ⟨front, slash :: (after ++ slash :: below), by simp, outer, ?_⟩
      rcases recursive with rfl | rfl
      · exact stands_middle_run _
      · exact stands_trailing_run _

theorem parse_eq_ok {text : String} {glob : Glob} :
    parse text = .ok glob ↔
      ∃ r, readFrom (.text none) {} text.toList = .ok r ∧ glob = r.tokens.reverse := by
  unfold parse
  split
  · rename_i r read
    simp [read, eq_comm]
  · rename_i e refused
    simp [refused]

/-- A glob of the form `<stem>/**` or `<stem>/**/*` matches everything below a match of its stem,
    unless the stem ends in a slash. -/
theorem accepts_below {more : List Char} (ending : Ending more) {stem : List Char}
    (noSlash : stem.getLast? ≠ some '/') {short : Glob}
    (read : parse (String.ofList stem) = .ok short) :
    ∃ glob, parse (String.ofList (stem ++ '/' :: more)) = .ok glob ∧
      ∀ place below, short.accepts place = true → glob.accepts (place ++ slash :: below) = true := by
  obtain ⟨r, readStem, rfl⟩ := parse_eq_ok.mp read
  rw [String.toList_ofList] at readStem
  have ordered : ({} : Reading).Ordered := ⟨by simp [LeadingFirst], by simp⟩
  obtain ⟨outside, continued⟩ := readFrom_continued (.text none) {} r stem more ordered
    stem.getLast? (fun _ => rfl) (by simp) readStem
  obtain ⟨full, readFull, extended⟩ := continued.extended noSlash ending outside
  refine ⟨full.tokens.reverse, parse_eq_ok.mpr ⟨full, ?_, rfl⟩, extended.accepts⟩
  rw [String.toList_ofList]
  exact readFull

theorem parse_stem {more : List Char} (ending : Ending more) {stem : List Char}
    (plain : '\\' ∉ stem) {glob : Glob}
    (read : parse (String.ofList (stem ++ '/' :: more)) = .ok glob) :
    ∃ short, parse (String.ofList stem) = .ok short := by
  obtain ⟨full, readFull, -⟩ := parse_eq_ok.mp read
  rw [String.toList_ofList] at readFull
  obtain ⟨r, readStem⟩ := readFrom_stem ending (.text none) {} full stem plain readFull
  refine ⟨r.tokens.reverse, parse_eq_ok.mpr ⟨r, ?_, rfl⟩⟩
  rw [String.toList_ofList]
  exact readStem

/-- A `**` at the end, after a slash. -/
theorem readFrom_all {r full : Reading} (ordered : r.Ordered) (filled : r.tokens ≠ [])
    (read : readFrom (.text (some '/')) r ['*', '*'] = .ok full) :
    full.tokens = [.leading] ∨ ∃ below, full.tokens = .trailing :: below := by
  have merged : full = r.merge .trailing := by
    simp only [readFrom, startsSegment, List.isEmpty_eq_false_iff.mpr filled, beq_self_eq_true,
      Bool.true_or, Bool.false_eq_true, if_true, if_false] at read
    split at read
    · cases read
    · exact (Except.ok.inj read).symm
  rw [merged]
  unfold Reading.merge
  split
  · rename_i tail shape
    have alone : tail = [] := LeadingFirst.eq_singleton (shape ▸ ordered.1)
    exact .inl (by rw [shape, alone])
  · rename_i tail shape
    exact .inr ⟨tail, shape⟩
  · rename_i head tail _ _ shape
    exact .inr ⟨tail, rfl⟩
  · rename_i empty
    exact absurd empty filled

/-- A text that ends in `/**` is read as a glob that ends in a recursive token. -/
theorem readFrom_all_below {mode : Mode} {r full : Reading} {cs : List Char}
    (ordered : r.Ordered) (read : readFrom mode r (cs ++ ['/', '*', '*']) = .ok full) :
    full.tokens = [.leading] ∨ ∃ below, full.tokens = .trailing :: below := by
  induction size : cs.length using Nat.strongRecOn generalizing mode r cs with | _ n ih
  cases readFrom_turn mode r cs with
  | finished =>
    cases mode with
    | text previous =>
      rw [List.nil_append, readFrom_literal r previous '/' _ (by decide)] at read
      exact readFrom_all (ordered.push (by simp)) (by simp) read
    | set negated ranges first pending =>
      obtain ⟨e, refused⟩ := Ending.all.unclosed_set r negated first pending ranges
      simp [refused] at read
  | recursive _ previous segment =>
    rcases segment with empty | ⟨filled, starts⟩
    · have step (rest : List Char) : readFrom (.text previous) r (['*', '*'] ++ '/' :: rest) =
          readFrom (.text (some '/')) (r.push .leading) rest := by simp [readFrom, empty]
      rw [step] at read
      exact readFrom_all (ordered.pushLeading empty) (by simp) read
    · have step (rest : List Char) : readFrom (.text previous) r (['*', '*'] ++ '/' :: rest) =
          readFrom (.text (some '/')) (r.merge .middle) rest := by simp [readFrom, filled, starts]
      rw [step] at read
      exact readFrom_all (ordered.merge (by simp)) (r.merge_ne_nil .middle) read
  | dangling _ previous =>
    -- the escape takes the slash, and the stars after it still make a segment
    have step (rest : List Char) : readFrom (.text previous) r (['\\'] ++ '/' :: rest) =
        readFrom (.text (some '/')) (r.push (.literal '/')) rest := by simp [readFrom]
    rw [step] at read
    exact readFrom_all (ordered.push (by simp)) (by simp) read
  | refused e short long => simp [long] at read
  | advance mode' r' c front rest short long ordered' lone =>
    rw [long] at read
    exact ih rest.length (by simp at size; omega) (ordered' ordered) read rfl

theorem parse_all_below {stem : List Char} {glob : Glob}
    (read : parse (String.ofList (stem ++ ['/', '*', '*'])) = .ok glob) :
    glob = [.leading] ∨ ∃ front, glob = front ++ [.trailing] := by
  obtain ⟨full, readFull, rfl⟩ := parse_eq_ok.mp read
  rw [String.toList_ofList] at readFull
  have ordered : ({} : Reading).Ordered := ⟨by simp [LeadingFirst], by simp⟩
  rcases readFrom_all_below ordered readFull with lone | ⟨below, shape⟩
  · exact .inl (by rw [lone]; rfl)
  · exact .inr ⟨below.reverse, by rw [shape, List.reverse_cons]⟩

/-- Such a glob matches everything below what it matches, whatever its stem is. -/
theorem accepts_deeper {stem : List Char} {glob : Glob}
    (read : parse (String.ofList (stem ++ ['/', '*', '*'])) = .ok glob) {place : Bytes}
    (accepted : glob.accepts place = true) (below : Bytes) :
    glob.accepts (place ++ slash :: below) = true := by
  rw [accepts_iff] at accepted ⊢
  rcases parse_all_below read with lone | ⟨front, rfl⟩
  · exact .inl lone
  · rcases accepted with lone | stands
    · exact .inl lone
    · obtain ⟨outer, _, rfl, ahead, inner⟩ := (stands_append _ _ _).mp stands
      obtain ⟨after, rfl⟩ := (stands_singleton _ _).mp inner
      refine .inr ((stands_append _ _ _).mpr ⟨outer, slash :: (after ++ slash :: below), ?_, ahead,
        (stands_singleton _ _).mpr ⟨_, rfl⟩⟩)
      simp

end FormatLint.Glob
