/-!
# Source positions
-/

namespace ReactiveScript

/-- A position in the source of a program. Line zero means that the position is unknown. -/
structure Span where
  /-- The line, counted from one. -/
  line : Nat
  /-- The column in the line. -/
  column : Nat
  deriving DecidableEq, Repr, Inhabited

namespace Span

/-- The position of a node that has none. -/
def unknown : Span := ⟨0, 0⟩

/-- Whether the position is known. -/
def isKnown (s : Span) : Bool := decide (0 < s.line)

/-- `line:column`. -/
def render (s : Span) : String := s.line.repr ++ ":" ++ s.column.repr

end Span

end ReactiveScript
