import FormatLint.Path.Basic
import FormatLint.Json.Printer
import FormatLint.Engine.ConfigModule

/-!
`file://` addresses of paths, and the module that passes on the default export of another one.
-/

namespace FormatLint.FileUrl

/-- Letters, digits and `/ - _ . ~ :` stand for themselves. -/
def isPlain (b : UInt8) : Bool :=
  (0x41 ≤ b && b ≤ 0x5A) || (0x61 ≤ b && b ≤ 0x7A) || (0x30 ≤ b && b ≤ 0x39) ||
    b == 0x2F || b == 0x2D || b == 0x5F || b == 0x2E || b == 0x7E || b == 0x3A

def upperHex (n : Nat) : Char :=
  if n < 10 then Char.ofNat (48 + n) else Char.ofNat (55 + n)

def encodeByte (b : UInt8) : List Char :=
  if isPlain b then [Char.ofNat b.toNat]
  else ['%', upperHex (b.toNat / 16), upperHex (b.toNat % 16)]

/-- The address of a path. A backslash counts as a separator. -/
def ofPath (p : Path) : String :=
  let text := p.display.toList.map fun c => if c == '\\' then '/' else c
  let rooted := if text.head? == some '/' then [] else ['/']
  let bytes := text.flatMap String.utf8EncodeChar
  "file://" ++ String.ofList (rooted ++ bytes.flatMap encodeByte)

end FileUrl

/-- The module that passes on the default export of the module at `p`. -/
def ConfigModule.renderReexport (p : Path) : String :=
  header ++ "export \x7b default \x7d from " ++ Json.quoted (FileUrl.ofPath p) ++ "\n"

end FormatLint
