import FormatLint.Text.Blank
import FormatLint.Error

/-!
References to what a module exports, written `package` or `package#member.path`.
-/

namespace FormatLint

/-- The default export of a package, followed by member lookups. -/
structure ModuleRef where
  package : String
  member : List String := []
deriving DecidableEq

namespace ModuleRef

/-- Reads a reference. The package is what stands before the first `#`; the segments after it are
    divided by points, and none of them may be empty. -/
def parse (value : String) : Except Error ModuleRef :=
  let cs := value.toList
  let package := cs.takeWhile (· != '#')
  let member : List (List Char) :=
    match cs.dropWhile (· != '#') with
    | [] => []
    | _ :: path => Text.splitOn (· == '.') path
  if package.isEmpty then .error (Error.referenceWithoutPackage value)
  else if member.any List.isEmpty then .error (Error.referenceWithEmptyMember value)
  else .ok ⟨String.ofList package, member.map String.ofList⟩

def display (r : ModuleRef) : String :=
  if r.member.isEmpty then r.package else r.package ++ "#" ++ String.intercalate "." r.member

end ModuleRef

end FormatLint
