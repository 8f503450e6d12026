import FormatLint.Error

/-!
The streams that a run writes to: its report and its warnings.
-/

namespace FormatLint

/-- A stream that takes whole lines up to a number of bytes. -/
structure Sink where
  lines : List String := []
  room : Option Nat := none

namespace Sink

def text (s : Sink) : String := String.join s.lines.reverse

/-- Writes a line with its line feed, or refuses it whole. -/
def write (s : Sink) (line : String) : Except SystemFault Sink :=
  let line := line ++ "\n"
  match s.room with
  | none => .ok { s with lines := line :: s.lines }
  | some room =>
    if line.utf8ByteSize ≤ room then
      .ok { lines := line :: s.lines, room := some (room - line.utf8ByteSize) }
    else .error (.stream "writer full")

end Sink

end FormatLint
