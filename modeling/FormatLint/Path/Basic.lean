import FormatLint.Text.Utf8

/-!
Paths as they are written: byte strings in which `/` divides the components. Nothing here looks
at a file system, and text that an operation does not change is kept as it was given.
-/

namespace FormatLint

/-- A path of any bytes; it need not be UTF-8 and need not exist. -/
structure Path where
  bytes : Bytes
deriving DecidableEq, Inhabited

/-- One step of a path. -/
inductive Component where
  /-- The root directory, only at the front. -/
  | root
  /-- `.`, only at the front of a relative path. -/
  | here
  /-- `..` -/
  | up
  | name (bytes : Bytes)
deriving DecidableEq

namespace Path

def slash : UInt8 := 0x2F
def dot : UInt8 := 0x2E

def ofString (text : String) : Path := ⟨Utf8.encode text⟩

/-- The path as text, with U+FFFD for bytes that are not UTF-8. -/
def display (p : Path) : String := Utf8.decodeLossy p.bytes

def text? (p : Path) : Option String := Utf8.decode? p.bytes

def isEmpty (p : Path) : Bool := p.bytes.isEmpty

def isAbsolute (p : Path) : Bool := p.bytes.head? == some slash

def endsInSlash (p : Path) : Bool := p.bytes.getLast? == some slash

/-- The parts between slashes; at least one, and any of them may be empty. -/
def split : Bytes → List Bytes
  | [] => [[]]
  | b :: rest =>
    if b = slash then [] :: split rest
    else
      match split rest with
      | [] => [[b]]
      | part :: parts => (b :: part) :: parts

/-- Writes parts with a slash between neighbours. -/
def unsplit : List Bytes → Bytes
  | [] => []
  | [part] => part
  | part :: parts => part ++ slash :: unsplit parts

/-- The component that a part after the front stands for; empty parts and `.` stand for none. -/
def component? (part : Bytes) : Option Component :=
  if part = [] ∨ part = [dot] then none
  else if part = [dot, dot] then some .up
  else some (.name part)

def components (p : Path) : List Component :=
  let parts := split p.bytes
  let inner := parts.filterMap component?
  if p.isAbsolute then .root :: inner
  else if parts.head? = some [dot] then .here :: inner
  else inner

/-- Replaces `base` by an absolute path, and extends it by a relative one. -/
def join (base p : Path) : Path :=
  if p.isAbsolute then p
  else if base.isEmpty ∨ base.endsInSlash then ⟨base.bytes ++ p.bytes⟩
  else ⟨base.bytes ++ slash :: p.bytes⟩

def joinText (base : Path) (text : String) : Path := base.join (ofString text)

/-- Parts from the end that stand for no component are dropped. -/
def trimParts (parts : List Bytes) : List Bytes :=
  (parts.reverse.dropWhile (fun part => (component? part).isNone)).reverse

/-- The part of the text that comes before the components proper, and the rest. -/
def splitFront (p : Path) : Bytes × Bytes :=
  match p.bytes with
  | [] => ([], [])
  | b :: rest =>
    if b = slash then ([slash], rest)
    else if b = dot ∧ (rest = [] ∨ rest.head? = some slash) then ([dot], rest)
    else ([], b :: rest)

/-- The path without its last component; `none` for the root and for the empty path. -/
def parent? (p : Path) : Option Path :=
  let (lead, body) := p.splitFront
  let parts := trimParts (split body)
  if parts.isEmpty then
    if lead = [dot] then some ⟨[]⟩ else none
  else some ⟨lead ++ unsplit (trimParts parts.dropLast)⟩

/-- The path and its parents, `n` of them at most. -/
def ancestorsWithin : Nat → Path → List Path
  | 0, p => [p]
  | n + 1, p =>
    p :: match p.parent? with
      | some parent => ancestorsWithin n parent
      | none => []

/-- The path and all of its parents, innermost first; each is shorter than the one before. -/
def ancestors (p : Path) : List Path := ancestorsWithin p.bytes.length p

/-- The last component, if it is a name. -/
def fileName? (p : Path) : Option Bytes :=
  match p.components.getLast? with
  | some (.name n) => some n
  | _ => none

/-- What follows the last dot of the file name, if a dot stands after its first byte. -/
def extension? (p : Path) : Option Bytes :=
  match p.fileName? with
  | none => none
  | some name =>
    let tail := name.reverse.takeWhile (· ≠ dot)
    if tail.length + 1 < name.length then some tail.reverse else none

end Path

end FormatLint
