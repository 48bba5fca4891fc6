/-!
# Positions and spans

Lines count from one and columns from zero, in characters. A span is shown by its start, with the
column counted from one.
-/

namespace StateGuard

/-- A place in a source text. -/
structure Position where
  line : Nat
  column : Nat
  deriving DecidableEq, Repr, Inhabited

namespace Position

/-- Positions are ordered by line, then by column. -/
def le (a b : Position) : Bool :=
  a.line < b.line || (a.line == b.line && a.column ≤ b.column)

/-- The earlier of two positions. -/
def earlier (a b : Position) : Position := if a.le b then a else b

/-- The later of two positions. -/
def later (a b : Position) : Position := if a.le b then b else a

end Position

/-- A stretch of source text. -/
structure Span where
  start : Position
  stop : Position
  deriving DecidableEq, Repr, Inhabited

namespace Span

/-- The span of a node without a place. -/
def zero : Span := ⟨⟨0, 0⟩, ⟨0, 0⟩⟩

/-- Spans are ordered by start, then by end. -/
def le (a b : Span) : Bool :=
  if a.start = b.start then a.stop.le b.stop else a.start.le b.start

/-- Whether a line is one of those the span touches. -/
def containsLine (span : Span) (line : Nat) : Bool :=
  span.start.line ≤ line && line ≤ span.stop.line

/-- Whether `inner` lies entirely within `outer`. -/
def contains (outer inner : Span) : Bool :=
  outer.start.le inner.start && inner.stop.le outer.stop

/-- The smallest span covering both. -/
def merge (a b : Span) : Span := ⟨a.start.earlier b.start, a.stop.later b.stop⟩

/-- The number of lines the span touches; zero when it ends before it starts. -/
def lineCount (span : Span) : Nat := span.stop.line + 1 - span.start.line

/-- Line and one-based column of the start. -/
def display (span : Span) : String :=
  toString span.start.line ++ ":" ++ toString (span.start.column + 1)

end Span

end StateGuard
