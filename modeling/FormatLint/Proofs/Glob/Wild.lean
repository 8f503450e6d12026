import FormatLint.Proofs.Glob.Literal

/-!
Names with wild characters. A glob that was read from such a name never stands for that name alone:
a set, a group or an escape is longer than what it stands for, and a star or question mark stands
for other names as well. `Loose` keeps both ways open in one bound, which the reader carries along.
-/

namespace FormatLint.Glob

/-- The names that the tokens stand for are short, or not the only ones. The bound is in half bytes,
    so that a wild character can be worth less than a byte and still more than nothing. -/
def Loose (tokens : List Token) (size : Nat) : Prop :=
  ∀ name, Stands tokens name → slash ∉ name →
    2 * name.length ≤ size ∨ ∃ other, Stands tokens other ∧ slash ∉ other ∧ other ≠ name

namespace Loose

theorem mono {tokens : List Token} {size more : Nat} (loose : Loose tokens size)
    (le : size ≤ more) : Loose tokens more := by
  intro name stands plain
  rcases loose name stands plain with short | other
  · exact .inl (by omega)
  · exact .inr other

theorem nil : Loose [] 0 := by
  intro name stands plain
  obtain rfl : name = [] := stands
  exact .inl (by simp)

theorem append {left right : List Token} {m n : Nat} (first : Loose left m)
    (second : Loose right n) : Loose (left ++ right) (m + n) := by
  intro name stands plain
  obtain ⟨front, back, rfl, ahead, behind⟩ := (stands_append _ _ _).mp stands
  rw [List.mem_append, not_or] at plain
  rcases first front ahead plain.1 with short | ⟨other, stands', plain', differs⟩
  · rcases second back behind plain.2 with short' | ⟨other, stands', plain', differs⟩
    · exact .inl (by rw [List.length_append]; omega)
    · refine .inr ⟨front ++ other, (stands_append _ _ _).mpr ⟨_, _, rfl, ahead, stands'⟩, ?_, ?_⟩
      · simp [plain.1, plain']
      · simpa using differs
  · refine .inr ⟨other ++ back, (stands_append _ _ _).mpr ⟨_, _, rfl, stands', behind⟩, ?_, ?_⟩
    · simp [plain.2, plain']
    · simpa using differs

theorem literal (c : Char) : Loose [.literal c] (2 * c.utf8Size) := by
  intro name stands plain
  obtain rfl : name = String.utf8EncodeChar c := (stands_singleton _ _).mp stands
  exact .inl (Nat.le_of_eq (by rw [String.length_utf8EncodeChar]))

/-- Another byte takes the place of the one that a question mark stands for. -/
theorem any : Loose [.any] 0 := by
  intro name stands plain
  obtain ⟨b, -, rfl⟩ := (stands_singleton _ _).mp stands
  obtain ⟨other, noSlash, differs⟩ : ∃ other : UInt8, other ≠ slash ∧ other ≠ b := by
    by_cases zero : b = 0
    · exact ⟨1, by decide, by rw [zero]; decide⟩
    · exact ⟨0, by decide, Ne.symm zero⟩
  refine .inr ⟨[other], (stands_singleton _ _).mpr ⟨other, noSlash, rfl⟩, ?_, ?_⟩
  · simpa using noSlash.symm
  · simpa using differs

/-- A star stands for a longer name as well. -/
theorem run : Loose [.run] 0 := by
  intro name stands plain
  have longer : slash ∉ (0 : UInt8) :: name := by simpa [slash] using plain
  exact .inr ⟨0 :: name, (stands_singleton _ _).mpr longer, longer, by simp⟩

theorem leading : Loose [.leading] 0 := by
  intro name stands plain
  rcases (stands_singleton _ _).mp stands with rfl | ⟨before, rfl⟩
  · exact .inl (by simp)
  · simp at plain

theorem oneOf (negated : Bool) (ranges : List (Char × Char)) : Loose [.oneOf negated ranges] 2 := by
  intro name stands plain
  obtain ⟨b, -, rfl⟩ := (stands_singleton _ _).mp stands
  exact .inl (by simp)

/-- Tokens that end in a recursive token stand for no name. -/
theorem slashed {t : Token} (recursive : t = .trailing ∨ t = .middle) (front : List Token) :
    Loose (front ++ [t]) 0 := by
  intro name stands plain
  obtain ⟨before, back, rfl, -, behind⟩ := (stands_append _ _ _).mp stands
  rw [stands_singleton] at behind
  rcases recursive with rfl | rfl
  · obtain ⟨after, rfl⟩ := behind
    simp at plain
  · rcases behind with rfl | ⟨between, rfl⟩
    · simp at plain
    · simp at plain

theorem group {alternatives : List (List Token)} {size : Nat}
    (each : ∀ a ∈ alternatives, Loose a size) : Loose [.group alternatives] size := by
  have any (as : List (List Token)) (text : Bytes) :
      StandsAny as text ↔ ∃ a ∈ as, isVoid a = false ∧ Stands a text := by
    induction as with
    | nil => simp [StandsAny]
    | cons a as ih => simp [StandsAny, ih]
  intro name stands plain
  rw [stands_singleton, Token.Stands] at stands
  split at stands
  · exact .inl (by simp [stands])
  · rename_i solid
    obtain ⟨a, member, filled, mine⟩ := (any _ _).mp stands
    rcases each a member name mine plain with short | ⟨other, stands', plain', differs⟩
    · exact .inl short
    · refine .inr ⟨other, (stands_singleton _ _).mpr ?_, plain', differs⟩
      rw [Token.Stands, if_neg solid]
      exact (any _ _).mpr ⟨a, member, filled, stands'⟩

end Loose

/-- The bound for the groups that are open: what stands before them and their longest finished
    alternatives. -/
def LooseGroups : List Opened → Nat → Prop
  | [], _ => True
  | o :: outer, size =>
    ∃ before finished rest, Loose o.before.reverse before ∧ (∀ a ∈ o.finished, Loose a finished) ∧
      LooseGroups outer rest ∧ before + finished + rest ≤ size

namespace Reading

/-- The bound for what has been read so far. -/
def Loose (r : Reading) (size : Nat) : Prop :=
  ∃ current rest, Glob.Loose r.tokens.reverse current ∧ LooseGroups r.opened rest ∧
    current + rest ≤ size

variable {r : Reading} {size : Nat}

theorem Loose.mono {more : Nat} (loose : r.Loose size) (le : size ≤ more) : r.Loose more := by
  obtain ⟨current, rest, here, outer, fits⟩ := loose
  exact ⟨current, rest, here, outer, by omega⟩

theorem Loose.push {t : Token} {extra : Nat} (loose : r.Loose size)
    (token : Glob.Loose [t] extra) : (r.push t).Loose (size + extra) := by
  obtain ⟨current, rest, here, outer, fits⟩ := loose
  refine ⟨current + extra, rest, ?_, outer, by omega⟩
  rw [push_tokens, List.reverse_cons]
  exact here.append token

theorem Loose.pushRuns (loose : r.Loose size) : r.pushRuns.Loose size :=
  (loose.push .run).push .run

theorem Loose.merge {t : Token} (recursive : t = .trailing ∨ t = .middle) (loose : r.Loose size) :
    (r.merge t).Loose size := by
  obtain ⟨current, rest, here, outer, fits⟩ := loose
  unfold Reading.merge
  split
  · exact ⟨current, rest, here, outer, fits⟩
  · exact ⟨current, rest, here, outer, fits⟩
  · rename_i head below _ _ shape
    refine ⟨0, rest, ?_, outer, by omega⟩
    rw [List.reverse_cons]
    exact .slashed recursive _
  · exact ⟨0, rest, .slashed recursive [], outer, by omega⟩

theorem Loose.openGroup (loose : r.Loose size) : r.openGroup.Loose size := by
  obtain ⟨current, rest, here, outer, fits⟩ := loose
  exact ⟨0, current + rest, .nil, ⟨current, 0, rest, here, by simp, outer, by omega⟩, by omega⟩

theorem Loose.nextAlternative (loose : r.Loose size) : r.nextAlternative.Loose (size + 2) := by
  unfold Reading.nextAlternative
  split
  · exact loose.push (.literal ',')
  · rename_i o outer shape
    obtain ⟨current, rest, here, groups, fits⟩ := loose
    rw [shape] at groups
    obtain ⟨before, finished, rest', ahead, each, groups', fits'⟩ := groups
    refine ⟨0, before + max finished current + rest', .nil,
      ⟨before, max finished current, rest', ahead, ?_, groups', Nat.le_refl _⟩, by omega⟩
    intro a member
    rcases List.mem_cons.mp member with rfl | member
    · exact here.mono (Nat.le_max_right _ _)
    · exact (each a member).mono (Nat.le_max_left _ _)

theorem Loose.closeGroup {closed : Reading} (close : r.closeGroup? = some closed)
    (loose : r.Loose size) : closed.Loose size := by
  unfold Reading.closeGroup? at close
  split at close
  · cases close
  · rename_i o outer shape
    cases close
    obtain ⟨current, rest, here, groups, fits⟩ := loose
    rw [shape] at groups
    obtain ⟨before, finished, rest', ahead, each, groups', fits'⟩ := groups
    refine ⟨before + max finished current, rest', ?_, groups', by omega⟩
    rw [List.reverse_cons]
    refine ahead.append (.group ?_)
    intro a member
    rcases List.mem_cons.mp (List.mem_reverse.mp member) with rfl | member
    · exact here.mono (Nat.le_max_right _ _)
    · exact (each a member).mono (Nat.le_max_left _ _)

end Reading

/-- What a character may add to the bound: a literal the whole of its bytes, a wild one half a
    byte, since an escape has to pay for the character after it. -/
def worth (c : Char) : Nat := if isWild c then 1 else 2 * c.utf8Size

def allowance : List Char → Nat
  | [] => 0
  | c :: cs => worth c + allowance cs

@[simp] theorem allowance_nil : allowance [] = 0 := rfl

@[simp] theorem allowance_cons (c : Char) (cs : List Char) :
    allowance (c :: cs) = worth c + allowance cs := rfl

theorem allowance_append (front back : List Char) :
    allowance (front ++ back) = allowance front + allowance back := by
  induction front with
  | nil => simp
  | cons c front ih => simp [ih, Nat.add_assoc]

theorem worth_literal {c : Char} (plain : isWild c = false) : worth c = 2 * c.utf8Size := by
  simp [worth, plain]

theorem worth_wild {c : Char} (wild : isWild c = true) : worth c = 1 := by
  simp [worth, wild]

theorem utf8Size_of_isWild {c : Char} (wild : isWild c = true) : c.utf8Size = 1 := by
  simp only [isWild, List.contains_eq_mem, List.mem_cons, List.not_mem_nil, or_false,
    decide_eq_true_eq] at wild
  rcases wild with rfl | rfl | rfl | rfl | rfl | rfl <;> rfl

theorem worth_escaped (c : Char) : 2 * c.utf8Size ≤ worth '\\' + worth c := by
  have escape : worth '\\' = 1 := worth_wild (by decide)
  cases wild : isWild c with
  | true =>
    rw [utf8Size_of_isWild wild, worth_wild wild]
    omega
  | false =>
    rw [worth_literal wild]
    omega

/-- Reading adds no more to the bound than the characters are worth. -/
theorem readFrom_loose (mode : Mode) (r : Reading) (cs : List Char) {full : Reading} {size : Nat}
    (loose : r.Loose size) (read : readFrom mode r cs = .ok full) :
    full.Loose (size + allowance cs) := by
  fun_induction readFrom mode r cs generalizing size
  case case1 | case17 | case20 | case23 | case27 | case30 => cases read
  case case2 =>
    cases read
    exact loose
  case case3 ih => exact (ih (loose.push .any) read).mono (by simp only [allowance_cons]; omega)
  case case4 ih | case5 ih =>
    exact (ih (loose.push .leading) read).mono (by simp only [allowance_cons]; omega)
  case case6 ih | case10 ih | case11 ih =>
    exact (ih loose.pushRuns read).mono (by simp only [allowance_cons]; omega)
  case case7 ih | case9 ih =>
    exact (ih (loose.merge (.inl rfl)) read).mono (by simp only [allowance_cons]; omega)
  case case8 ih =>
    exact (ih (loose.merge (.inr rfl)) read).mono (by simp only [allowance_cons]; omega)
  case case12 ih => exact (ih (loose.push .run) read).mono (by simp only [allowance_cons]; omega)
  case case16 ih => exact (ih loose.openGroup read).mono (by simp only [allowance_cons]; omega)
  case case18 close ih =>
    exact (ih (loose.closeGroup close) read).mono (by simp only [allowance_cons]; omega)
  case case19 ih =>
    have comma : worth ',' = 2 := by decide
    exact (ih loose.nextAlternative read).mono (by simp only [allowance_cons]; omega)
  case case21 c rest ih =>
    have escaped := worth_escaped c
    exact (ih (loose.push (.literal c)) read).mono (by simp only [allowance_cons]; omega)
  case case22 c rest _ _ _ _ _ _ _ _ _ lastEscape escape ih =>
    have noEscape : c ≠ '\\' := by
      intro isEscape
      cases rest with
      | nil => exact lastEscape isEscape rfl
      | cons d rest => exact escape d rest isEscape rfl
    have plain : isWild c = false := by simp_all [isWild]
    have whole := worth_literal plain
    exact (ih (loose.push (.literal c)) read).mono (by simp only [allowance_cons]; omega)
  case case25 ih =>
    have bracket : worth ']' = 2 := by decide
    exact (ih (loose.push (.oneOf _ _)) read).mono (by simp only [allowance_cons]; omega)
  -- inside a set, and where one starts, nothing is added
  all_goals
    rename_i ih
    exact (ih loose read).mono (by simp only [allowance_cons]; omega)

/-- A name with wild characters is worth less than its bytes. -/
theorem allowance_lt {name : List Char} (wild : ∃ c ∈ name, isWild c = true) :
    allowance name < 2 * (bytesOf name).length := by
  have each (c : Char) : worth c ≤ 2 * c.utf8Size := by
    cases wild : isWild c with
    | true => rw [utf8Size_of_isWild wild, worth_wild wild]; decide
    | false => exact Nat.le_of_eq (worth_literal wild)
  have all (cs : List Char) : allowance cs ≤ 2 * (bytesOf cs).length := by
    induction cs with
    | nil => simp
    | cons c cs ih =>
      have first := each c
      simp only [allowance_cons, bytesOf, List.flatMap_cons, List.length_append,
        String.length_utf8EncodeChar] at ih ⊢
      omega
  obtain ⟨c, member, isWild⟩ := wild
  obtain ⟨front, back, rfl⟩ := List.append_of_mem member
  have ahead := all front
  have behind := all back
  have short := worth_wild isWild
  have single := utf8Size_of_isWild isWild
  simp only [allowance_append, allowance_cons, short, bytesOf, List.flatMap_append,
    List.flatMap_cons, List.length_append, String.length_utf8EncodeChar, single] at ahead behind ⊢
  omega

/-- A glob that was read from a name with wild characters does not stand for that name alone. -/
theorem wild_not_alone {name : List Char} {glob : Glob} (plain : '/' ∉ name)
    (wild : ∃ c ∈ name, isWild c = true)
    (read : parse (String.ofList (globText true false name)) = .ok glob)
    (itself : Stands glob (bytesOf name)) :
    ∃ other, Stands glob other ∧ slash ∉ other ∧ other ≠ bytesOf name := by
  obtain ⟨full, readFull, rfl⟩ := parse_eq_ok.mp read
  rw [String.toList_ofList, globText, if_pos rfl, if_neg (by simp), List.append_nil,
    readFrom_floating] at readFull
  have start : Reading.Loose ⟨[], [.leading]⟩ 0 := ⟨0, 0, .leading, trivial, by omega⟩
  obtain ⟨current, rest, loose, -, fits⟩ := readFrom_loose _ _ _ start readFull
  have short := allowance_lt wild
  rcases loose (bytesOf name) itself (slash_notMem_bytesOf plain) with long | other
  · omega
  · exact other

end FormatLint.Glob
