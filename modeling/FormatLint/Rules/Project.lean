/-!
The facts about a project that shape its default lint configuration.
-/

namespace FormatLint

structure Project where
  /-- `module`, `commonjs` or `script`. -/
  sourceType : String := "module"
  declaresNodeEngine : Bool := false
  usesReact : Bool := false
deriving DecidableEq

end FormatLint
