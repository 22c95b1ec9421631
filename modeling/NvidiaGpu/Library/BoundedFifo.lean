import Mathlib.Data.List.Range

set_option autoImplicit false

/-! A FIFO sequence of at most `bound` items: what a circular queue or a ring
buffer is for.  A push takes what fits, or all values or nothing, or all values
while dropping the oldest items beyond the bound; reads come from the front. -/

namespace NvidiaGpu.BoundedFifo

variable {α : Type} (items : List α) (bound : Nat)

/-- Append as many of the offered values `values 0, values 1, …` as there is
room for, and say how many. -/
def pushSome (values : Nat → α) (offered : Nat) : List α × Nat :=
  let taken := min offered (bound - items.length)
  (items ++ (List.range taken).map values, taken)

def pushAll (values : List α) : Option (List α) :=
  if values.length ≤ bound - items.length then some (items ++ values) else none

/-- Append all values, at most `bound` of them, dropping the oldest items beyond
the bound. -/
def pushOverwrite (values : List α) : Option (List α) :=
  if values.length ≤ bound then some ((items ++ values).drop (items.length + values.length - bound))
  else none

end NvidiaGpu.BoundedFifo
