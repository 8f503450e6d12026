import FormatLint.FileSystem.Change
import FormatLint.Text.Numeral

/-!
The everyday tools of a command line. A tool reads the input and the file system of a machine,
adds to its output and ends with a status.
-/

namespace FormatLint

/-- The words of a fault without its number. -/
def SystemFault.reason (fault : SystemFault) : String :=
  (fault.message.splitOn " (os error").headD ""

namespace Shell

/-- What a program works on: the files, the input that is left, and what was written so far. -/
structure Machine where
  files : FileSystem
  input : ByteArray := .empty
  out : ByteArray := .empty
  err : ByteArray := .empty

namespace Machine

def write (m : Machine) (bytes : ByteArray) : Machine := { m with out := m.out ++ bytes }

def writeBytes (m : Machine) (bytes : Bytes) : Machine := m.write ⟨bytes.toArray⟩

def complain (m : Machine) (line : String) : Machine :=
  { m with err := m.err ++ (line ++ "\n").toUTF8 }

/-- Takes all of the input. -/
def takeInput (m : Machine) : ByteArray × Machine := (m.input, { m with input := .empty })

/-- The directory that the machine is in. -/
def here (m : Machine) : Path :=
  match m.files.stat m.files.cwd with
  | .ok (place, _) => ⟨Path.slash :: Path.unsplit place⟩
  | .error _ => m.files.cwd

end Machine

/-- A tool as it was called. -/
abbrev Tool := List Bytes → Machine → Nat × Machine

def dash : UInt8 := 0x2D

/-- Writes its input, or the files that are named. -/
def catFiles (self : String) (status : Nat) : Tool
  | [], m => (status, m)
  | name :: rest, m =>
    if name = [dash] then
      let (input, m) := m.takeInput
      catFiles self status rest (m.write input)
    else
      match m.files.readBytes ⟨name⟩ with
      | .ok content => catFiles self status rest (m.write content)
      | .error fault =>
        catFiles self 1 rest
          (m.complain (self ++ ": " ++ Utf8.decodeLossy name ++ ": " ++ fault.reason))

def cat (self : String) : Tool := fun arguments m =>
  match arguments.find? fun a => a.head? = some dash && 1 < a.length with
  | some option =>
    let what := if option.take 2 = [dash, dash]
      then "unrecognized option '" ++ Utf8.decodeLossy option ++ "'"
      else "invalid option -- '" ++ Utf8.decodeLossy (option.drop 1 |>.take 1) ++ "'"
    (1, (m.complain (self ++ ": " ++ what)).complain
      ("Try '" ++ self ++ " --help' for more information."))
  | none => catFiles self 0 (if arguments.isEmpty then [[dash]] else arguments) m

/-- The character that an escape of one letter stands for. -/
def letterEscape? : Char → Option Nat
  | 'a' => some 7
  | 'b' => some 8
  | 'f' => some 12
  | 'n' => some 10
  | 'r' => some 13
  | 't' => some 9
  | 'v' => some 11
  | '\\' => some 92
  | _ => none

/-- The leading octal digits of a text, `n` at most, as a number, and how many they are. -/
def octalFront (n : Nat) (cs : List Char) : Nat × Nat :=
  let digits := (cs.take n).takeWhile fun c => '0' ≤ c && c ≤ '7'
  ((Text.natIn? 8 digits).getD 0, digits.length)

/-- A text with its escapes replaced, and whether `\c` cut it off. Octal numbers have up to three
    digits, after a zero of their own where `zero` asks for it. -/
def unescape (zero : Bool) (cs : List Char) : Bytes × Bool :=
  match cs with
  | [] => ([], false)
  | '\\' :: c :: rest =>
    if zero && c = 'c' then ([], true)
    else
      match letterEscape? c with
      | some n =>
        let (bytes, cut) := unescape zero rest
        (n.toUInt8 :: bytes, cut)
      | none =>
        let (value, length) := octalFront 3 (if zero then rest else c :: rest)
        if (zero && c = '0') || (!zero && 0 < length) then
          let (bytes, cut) := unescape zero (rest.drop (if zero then length else length - 1))
          (value.toUInt8 :: bytes, cut)
        else
          let (bytes, cut) := unescape zero rest
          (0x5C :: String.utf8EncodeChar c ++ bytes, cut)
  | c :: rest =>
    let (bytes, cut) := unescape zero rest
    (String.utf8EncodeChar c ++ bytes, cut)
termination_by cs.length
decreasing_by all_goals simp only [List.length_cons, List.length_drop]; omega

/-- One pass over a format: what it writes, and the arguments that it leaves. -/
def formatOnce (fuel : Nat) (format : List Char) (arguments : List Bytes) : Bytes × List Bytes :=
  match fuel with
  | 0 => ([], arguments)
  | fuel + 1 =>
    match format with
    | [] => ([], arguments)
    | '%' :: '%' :: rest =>
      let (bytes, left) := formatOnce fuel rest arguments
      (0x25 :: bytes, left)
    | '%' :: c :: rest =>
      let argument := arguments.headD []
      let shown : Bytes :=
        if c = 's' then argument
        else if c = 'b' then (unescape true (Utf8.decodeLossy argument).toList).1
        else if c = 'c' then argument.take 1
        else if argument.isEmpty then [0x30] else argument
      let (bytes, left) := formatOnce fuel rest (arguments.drop 1)
      (shown ++ bytes, left)
    | '\\' :: c :: rest =>
      let length := if (letterEscape? c).isSome then 1 else max 1 (octalFront 3 (c :: rest)).2
      let (bytes, left) := formatOnce fuel ((c :: rest).drop length) arguments
      ((unescape false ('\\' :: (c :: rest).take length)).1 ++ bytes, left)
    | c :: rest =>
      let (bytes, left) := formatOnce fuel rest arguments
      (String.utf8EncodeChar c ++ bytes, left)

/-- Passes over a format until it leaves no arguments. -/
def formatAll (fuel : Nat) (format : List Char) (arguments : List Bytes) : Bytes :=
  match fuel with
  | 0 => []
  | fuel + 1 =>
    let (bytes, left) := formatOnce (format.length + 1) format arguments
    if left.isEmpty || left.length = arguments.length then bytes
    else bytes ++ formatAll fuel format left

def printf : Tool := fun arguments m =>
  match arguments with
  | [] => (2, m.complain "printf: usage: printf format [arg ...]")
  | format :: rest =>
    (0, m.writeBytes (formatAll (rest.length + 1) (Utf8.decodeLossy format).toList rest))

def joinBytes (separator : UInt8) : List Bytes → Bytes
  | [] => []
  | [part] => part
  | part :: parts => part ++ separator :: joinBytes separator parts

def echo : Tool := fun arguments m =>
  let (bare, arguments) := match arguments with
    | [0x2D, 0x6E] :: rest => (true, rest)
    | arguments => (false, arguments)
  let (bytes, cut) := unescape true (Utf8.decodeLossy (joinBytes 0x20 arguments)).toList
  (0, m.writeBytes (bytes ++ if bare || cut then [] else [0x0A]))

def pwd : Tool := fun _ m => (0, m.writeBytes (m.here.bytes ++ [0x0A]))

/-- A substitution of one text for another, everywhere or once in each line. -/
structure Substitution where
  pattern : Bytes
  replacement : Bytes
  everywhere : Bool

/-- The text up to a delimiter, where a backslash takes the next character as it is. -/
def upTo (delimiter : Char) : List Char → Option (List Char × List Char)
  | [] => none
  | '\\' :: c :: rest => (upTo delimiter rest).map fun (text, rest) => (c :: text, rest)
  | c :: rest =>
    if c = delimiter then some ([], rest)
    else (upTo delimiter rest).map fun (text, rest) => (c :: text, rest)

def Substitution.parse? (text : List Char) : Option Substitution := do
  match text with
  | 's' :: delimiter :: rest =>
    let (pattern, rest) ← upTo delimiter rest
    let (replacement, flags) ← upTo delimiter rest
    return { pattern := Utf8.encode (String.ofList pattern)
             replacement := Utf8.encode (String.ofList replacement)
             everywhere := flags.contains 'g' }
  | _ => none

/-- Replaces in a text; `armed` tells whether the line may still have a replacement. -/
def Substitution.apply (s : Substitution) (armed : Bool) (bytes : Bytes) : Bytes :=
  match bytes with
  | [] => []
  | b :: rest =>
    if armed && s.pattern.isPrefixOf (b :: rest) && !s.pattern.isEmpty then
      s.replacement ++ s.apply s.everywhere (rest.drop (s.pattern.length - 1))
    else b :: s.apply (armed || b = 0x0A) rest
termination_by bytes.length
decreasing_by
  · simp only [List.length_drop, List.length_cons]; omega
  · simp

def sed (self : String) : Tool := fun arguments m =>
  let scripts := arguments.filter fun a => a.head? ≠ some dash
  match scripts.mapM fun a => Substitution.parse? (Utf8.decodeLossy a).toList with
  | some substitutions =>
    let (input, m) := m.takeInput
    (0, m.writeBytes (substitutions.foldl (fun bytes s => s.apply true bytes) input.toList))
  | none => (1, m.complain (self ++ ": -e expression #1, char 1: unknown command"))

/-- The characters that a set like `a-z` stands for. -/
def expandSet : List Char → List Char
  | a :: '-' :: b :: rest =>
    (List.range (b.toNat + 1 - a.toNat)).map (fun i => Char.ofNat (a.toNat + i)) ++ expandSet rest
  | c :: rest => c :: expandSet rest
  | [] => []

/-- Replaces the characters of one set by those of another. -/
def tr : Tool := fun arguments m =>
  match arguments.map fun a => expandSet (Utf8.decodeLossy a).toList with
  | [source, target] =>
    let (input, m) := m.takeInput
    let swap (c : Char) : Char :=
      match source.findIdx? (· == c) with
      | some i => (target[i]?.or target.getLast?).getD c
      | none => c
    (0, m.writeBytes (Utf8.encode (String.ofList ((Utf8.readLossy input).toList.map swap))))
  | _ => (1, m.complain "tr: missing operand")

/-- The tools by name. -/
def tool? (name self : String) : Option Tool :=
  match name with
  | "cat" => some (cat self)
  | "printf" => some printf
  | "echo" => some echo
  | "pwd" => some pwd
  | "sed" => some (sed self)
  | "tr" => some tr
  | "true" => some fun _ m => (0, m)
  | "false" => some fun _ m => (1, m)
  | _ => none

def toolNames : List String := ["cat", "printf", "echo", "pwd", "sed", "tr", "true", "false"]

end Shell

end FormatLint
