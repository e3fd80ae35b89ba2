/-!
# Bounded stacks

A `Stack` holds at most `capacity` values; its list has the top first. Pushing onto
a full stack is refused. The type of the values is left open: a stack of kinds or
of unbounded integers follows the same rules.
-/
namespace StackText

structure Stack (α : Type) where
  capacity : Nat
  values : List α := []
  deriving DecidableEq, Repr

namespace Stack
variable {α : Type}

def depth (s : Stack α) : Nat := s.values.length

def isEmpty (s : Stack α) : Bool := s.values.isEmpty

/-- Puts a value on top, if there is room. -/
def push? (s : Stack α) (v : α) : Option (Stack α) :=
  if s.depth < s.capacity then some { s with values := v :: s.values } else none

/-- Takes the top value off, if there is one. -/
def pop? (s : Stack α) : Option (α × Stack α) :=
  match s.values with
  | [] => none
  | v :: rest => some (v, { s with values := rest })

def top? (s : Stack α) : Option α := s.values.head?

/-- No operation lets a stack outgrow its capacity. -/
theorem depth_le_of_push? {s t : Stack α} {v : α} (h : s.push? v = some t) :
    t.depth ≤ t.capacity := by
  simp only [push?] at h
  split at h
  · obtain rfl := Option.some.inj h
    assumption
  · nomatch h

theorem pop?_push? {s t : Stack α} {v : α} (h : s.push? v = some t) : t.pop? = some (v, s) := by
  simp only [push?] at h
  split at h
  · obtain rfl := Option.some.inj h
    rfl
  · nomatch h

end Stack
end StackText
