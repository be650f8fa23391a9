import SaveRam.Bounds
import SaveRam.Machine
import SaveRam.Report

/-!
# The search for jump signatures

A search drives two machines.  The *seed* machine makes one pass for each round
and so produces one image after another.  In every round the *probe* machine is
put on the seed's image and makes pass after pass, and after each of them its
window is examined for a jump.  The round ends when the digest of the window is
the one it had at the start of the round, or when the bound is reached.  The
probe keeps its carried nibble from round to round.

`Search.walk` is the pair of nested loops.  It tells an observer what happens,
in order, and hands the observer's value on; what the machines do does not
depend on the observer.  `Search.run` is the walk whose observer keeps the
tally: the report and three counters.
-/

namespace SaveRam

/-- Two machines and the bounds of their search. -/
structure Search where
  seed : Machine
  probe : Machine
  bounds : Bounds

/-- Why a search gave no result. -/
inductive SearchError where
  /-- The numbers given for the bounds are no bounds. -/
  | bounds (cause : BoundsError)
  /-- The seed pass at the end of a round stopped. -/
  | seed (round : Nat) (cause : Fault)
  /-- A probe pass stopped. -/
  | probe (round pass : Nat) (cause : Fault)
deriving DecidableEq

/-- The sentence for a search that gave no result. -/
def SearchError.message : SearchError → String
  | .bounds cause => s!"Invalid configuration: {cause.message}"
  | .seed round cause => s!"Seed pass failed after outer iteration {round}: {cause.message}"
  | .probe round pass cause =>
    s!"Probe pass failed at outer {round}, inner {pass}: {cause.message}"

namespace Search

/-! ## Steps that an observer is told -/

/-- A step of a search. -/
inductive Event where
  /-- A round begins. -/
  | round (round : Nat)
  /-- The given probe is about to make a pass. -/
  | probing (probe : Machine)
  /-- The probe has made a pass and shows a window. -/
  | probed (round pass : Nat) (window : Window)
  /-- The digest is again the one that the round began with. -/
  | cycled (round pass : Nat) (start : Digest)
  /-- The given seed is about to make the pass that ends the round. -/
  | seeding (seed : Machine)
  /-- The round is over. -/
  | done (round : Nat)

variable {σ : Type}

/-- The probe passes of a round from pass number `pass` on, `remaining` of them
at most. -/
def probeFrom (see : σ → Event → σ) (round : Nat) (start : Digest) :
    (remaining pass : Nat) → Machine → σ → Machine × σ × Option SearchError
  | 0, _, probe, acc => (probe, acc, none)
  | remaining + 1, pass, probe, acc =>
    let acc := see acc (.probing probe)
    match probe.pass with
    | (probe, some fault) => (probe, acc, some (.probe round pass fault))
    | (probe, none) =>
      let window := probe.memory.window
      let acc := see acc (.probed round pass window)
      if window.digest = start then
        (probe, see acc (.cycled round pass start), none)
      else
        probeFrom see round start remaining (pass + 1) probe acc

/-- All probe passes of a round, on the seed's image. -/
def probeRound (see : σ → Event → σ) (passes : Nat) (round : Nat) (image : Memory)
    (probe : Machine) (acc : σ) : Machine × σ × Option SearchError :=
  probeFrom see round image.digest passes 1 (probe.withMemory image) acc

/-- The rounds from number `round` on, `remaining` of them.  The machines come
back as they are at the end or at the fault. -/
def roundsFrom (see : σ → Event → σ) (passes : Nat) :
    (remaining round : Nat) → (seed probe : Machine) → σ →
      Machine × Machine × σ × Option SearchError
  | 0, _, seed, probe, acc => (seed, probe, acc, none)
  | remaining + 1, round, seed, probe, acc =>
    let acc := see acc (.round round)
    match probeRound see passes round seed.memory probe acc with
    | (probe, acc, some e) => (seed, probe, acc, some e)
    | (probe, acc, none) =>
      let acc := see acc (.seeding seed)
      match seed.pass with
      | (seed, some fault) => (seed, probe, acc, some (.seed round fault))
      | (seed, none) =>
        roundsFrom see passes remaining (round + 1) seed probe (see acc (.done round))

/-- A whole search under the eyes of an observer. -/
def walk (see : σ → Event → σ) (init : σ) : Search → Search × σ × Option SearchError
  | ⟨seed, probe, bounds⟩ =>
    match roundsFrom see bounds.passes.toNat bounds.rounds.toNat 0 seed probe init with
    | (seed, probe, acc, e) => (⟨seed, probe, bounds⟩, acc, e)

end Search

/-! ## The result of a search -/

/-- What a search found and how much it ran. -/
structure Tally where
  report : Report
  /-- Rounds that were completed. -/
  rounds : Nat
  /-- Probe passes that were made. -/
  passes : Nat
  /-- Rounds that ended because the digest came back. -/
  cycles : Nat

namespace Tally

/-- The tally before the first round. -/
def zero : Tally := ⟨.empty, 0, 0, 0⟩

instance : Inhabited Tally := ⟨zero⟩

/-- The match that a window after a probe pass gives. -/
def match? (round pass : Nat) (window : Window) : Option Match :=
  window.jump?.map fun jump => ⟨window, round, pass, jump.position, jump.address⟩

/-- Counts a step of the search. -/
def see : Tally → Search.Event → Tally
  | ⟨report, rounds, passes, cycles⟩, event =>
    match event with
    | .round _ | .probing _ | .seeding _ => ⟨report, rounds, passes, cycles⟩
    | .probed round pass window =>
      match match? round pass window with
      | some found => ⟨report.record found, rounds, passes + 1, cycles⟩
      | none => ⟨report, rounds, passes + 1, cycles⟩
    | .cycled .. => ⟨report, rounds, passes, cycles + 1⟩
    | .done round => ⟨report, round + 1, passes, cycles⟩

end Tally

namespace Search

/-- A search that was not run yet.  The probe starts blank. -/
def start (seed : Machine) (probe : Program) (bounds : Bounds) : Search :=
  ⟨seed, Machine.blank.withProgram probe, bounds⟩

/-- A search on bounds that are yet to be checked. -/
def make (seed : Machine) (probe : Program) (rounds passes : UInt32) :
    Except SearchError Search :=
  match Bounds.make rounds passes with
  | .ok bounds => .ok (start seed probe bounds)
  | .error e => .error (.bounds e)

/-- Runs a search.  The machines of the search that comes back are where the run
left them, also after an error, and can be run again. -/
def run (s : Search) : Search × Except SearchError Tally :=
  match s.walk Tally.see .zero with
  | (s, tally, none) => (s, .ok tally)
  | (s, _, some e) => (s, .error e)

end Search

end SaveRam
