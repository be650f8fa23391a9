/-!
# Search bounds

A search is bounded by the number of seed rounds and by the number of probe
passes in a round.  There is at least one probe pass in a round, so that every
round looks at the window once.
-/

namespace SaveRam

/-- How far a search goes. -/
structure Bounds where
  /-- The number of rounds. -/
  rounds : UInt32
  /-- The largest number of probe passes in a round. -/
  passes : UInt32
  passes_ne_zero : passes ≠ 0
deriving DecidableEq

/-- The only way in which two numbers fail to be bounds. -/
inductive BoundsError where
  | noPasses
deriving DecidableEq

/-- The sentence for two numbers that are no bounds. -/
def BoundsError.message : BoundsError → String
  | .noPasses => "inner iteration count must be at least 1"

namespace Bounds

/-- The bounds with the given numbers. -/
def make (rounds passes : UInt32) : Except BoundsError Bounds :=
  if h : passes ≠ 0 then .ok ⟨rounds, passes, h⟩ else .error .noPasses

/-- Ten thousand rounds of up to four hundred probe passes. -/
def standard : Bounds := ⟨10000, 400, by decide⟩

/-- The largest possible number of probe passes of the whole search. -/
def maxPasses (b : Bounds) : Nat := b.rounds.toNat * b.passes.toNat

/-- The bounds as they are shown in the journal. -/
def text (b : Bounds) : String := s!"{b.rounds} seeds x {b.passes} probe passes"

end Bounds

end SaveRam
