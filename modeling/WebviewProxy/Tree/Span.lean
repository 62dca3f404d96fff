/-!
# Source spans

A span is a half-open range of source positions.  Positions of nothing in the
source are dummies: the empty range at zero, and every range that starts in
the last positions of the thirty-two bits, which are set aside.
-/

namespace WebviewProxy

structure Span where
  start : Nat
  stop : Nat
  deriving DecidableEq, Repr

namespace Span

def zero : Span := ⟨0, 0⟩

/-- The first of the positions that are set aside. -/
def firstReserved : Nat := 4294901759

def isDummy (span : Span) : Bool :=
  span = zero || firstReserved ≤ span.start

def located? (span : Span) : Option Span :=
  if span.isDummy then none else some span

theorem located?_eq_some_iff {span other : Span} :
    span.located? = some other ↔ span.isDummy = false ∧ span = other := by
  unfold located?
  split <;> simp_all

end Span

end WebviewProxy
