import FormatLint.Text.Utf8

/-!
Globs: patterns over slash-separated relative paths. A glob is a list of tokens, and `Glob.accepts`
decides whether a whole path is one of the texts that the tokens stand for. A star or question
mark never crosses a slash; only `**`, as a whole segment, does.
-/

namespace FormatLint.Glob

inductive Token where
  | literal (c : Char)
  /-- `?`: one byte other than a slash. -/
  | any
  /-- `*`: any number of bytes other than a slash. -/
  | run
  /-- `**/` at the front: nothing, a slash, or anything that ends in a slash. -/
  | leading
  /-- `/**` at the end: a slash and anything after it. -/
  | trailing
  /-- `/**/` in the middle: a slash, or two slashes with anything between them. -/
  | middle
  /-- `[...]`: one byte out of a set, or out of its complement. -/
  | oneOf (negated : Bool) (ranges : List (Char × Char))
  /-- `{...}`: one of several alternatives. Alternatives that stand for no text at all do not
      count, and a group without any other stands for nothing. -/
  | group (alternatives : List (List Token))

end Glob

/-- A glob as its tokens. -/
abbrev Glob := List Glob.Token

namespace Glob

def slash : UInt8 := 0x2F

/-- The bytes that a range of characters contributes to a set: the bytes of both ends, and the
    range from the last byte of the first end to the first byte of the second one. -/
def rangeBytes (range : Char × Char) : List (UInt8 × UInt8) :=
  let lo := String.utf8EncodeChar range.1
  if range.1 = range.2 then lo.map fun b => (b, b)
  else
    let hi := String.utf8EncodeChar range.2
    lo.dropLast.map (fun b => (b, b))
      ++ [(lo.getLast?.getD 0, hi.head?.getD 0)]
      ++ hi.tail.map fun b => (b, b)

def inRanges (ranges : List (Char × Char)) (b : UInt8) : Bool :=
  (ranges.flatMap rangeBytes).any fun (lo, hi) => lo ≤ b && b ≤ hi

/-- The positions of a subject that a match may have reached: one mark before each byte and one
    after the last. -/
abbrev Marks := List Bool

namespace Marks

def start (subject : Bytes) : Marks := true :: subject.map fun _ => false

def union (a b : Marks) : Marks := List.zipWith (· || ·) a b

/-- Moves every mark over one byte that satisfies `p`. -/
def cross (p : UInt8 → Bool) (subject : Bytes) (marks : Marks) : Marks :=
  false :: List.zipWith (fun b mark => mark && p b) subject marks

/-- Spreads every mark to the right over any number of bytes that satisfy `p`. -/
def spread (p : UInt8 → Bool) : Bool → Bytes → Marks → Marks
  | _, _, [] => []
  | carried, [], mark :: _ => [mark || carried]
  | carried, b :: subject, mark :: marks =>
    let reached := mark || carried
    reached :: spread p (reached && p b) subject marks

def overSlash (subject : Bytes) (marks : Marks) : Marks := cross (· == slash) subject marks

def anywhere (subject : Bytes) (marks : Marks) : Marks := spread (fun _ => true) false subject marks

/-- Moves every mark over the bytes of one character. -/
def overChar (c : Char) (subject : Bytes) (marks : Marks) : Marks :=
  (String.utf8EncodeChar c).foldl (fun m b => cross (· == b) subject m) marks

end Marks

mutual

/-- Whether a token stands for no text at all, not even the empty one. -/
def Token.isVoid : Token → Bool
  | .group alternatives => allVoid alternatives
  | _ => false

def isVoid : List Token → Bool
  | [] => true
  | t :: ts => t.isVoid && isVoid ts

def allVoid : List (List Token) → Bool
  | [] => true
  | a :: as => isVoid a && allVoid as

end

mutual

/-- Where a match that has reached `marks` can be after the token. -/
def Token.step (subject : Bytes) : Token → Marks → Marks
  | .literal c, marks => marks.overChar c subject
  | .any, marks => marks.cross (· != slash) subject
  | .run, marks => marks.spread (· != slash) false subject
  | .leading, marks => marks.union ((marks.anywhere subject).overSlash subject)
  | .trailing, marks => (marks.overSlash subject).anywhere subject
  | .middle, marks =>
    let crossed := marks.overSlash subject
    crossed.union ((crossed.anywhere subject).overSlash subject)
  | .oneOf negated ranges, marks => marks.cross (fun b => inRanges ranges b != negated) subject
  | .group alternatives, marks =>
    if allVoid alternatives then marks else stepAny subject alternatives marks

def steps (subject : Bytes) : List Token → Marks → Marks
  | [], marks => marks
  | t :: ts, marks => steps subject ts (t.step subject marks)

/-- The union over the alternatives that are not void. -/
def stepAny (subject : Bytes) : List (List Token) → Marks → Marks
  | [], marks => marks.map fun _ => false
  | a :: as, marks =>
    if isVoid a then stepAny subject as marks
    else (steps subject a marks).union (stepAny subject as marks)

end

/-- Whether the glob stands for the whole subject. `**` alone stands for every path. -/
def accepts (glob : Glob) (subject : Bytes) : Bool :=
  match glob with
  | [.leading] => true
  | tokens => (steps subject tokens (Marks.start subject)).getLast?.getD false

end Glob

end FormatLint
