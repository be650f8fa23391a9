import Mathlib.Algebra.GroupWithZero.Nat
import SaveRam.Proofs.Pass.Effect
import SaveRam.Search

/-!
# The rounds of a search

The two loops of a search in closed form, for machines whose passes succeed.
Nothing is threaded through here: a round is described from the search as it
stands at the start of the round, and `Search.nextRound` is the search at the
start of the next one.

* `Machine.firstReturn?` is the first pass after which a window has a given
  digest.
* `Search.entered` is the probe put on the seed's image, `Search.return?` the
  pass that closes the round early, `Search.roundPasses` the number of passes of
  the round, and `Search.hits` the matches that the round gives.
* `Search.atRound` is the search after a number of rounds.
* `Search.tally` is the result that these definitions give.

`Search.probeFrom_eq` is the induction over the passes of a round and
`Search.roundsFrom_eq` the induction over the rounds.  Both run the observer
that keeps the tally.
-/

namespace SaveRam

/-! ## Loops that count from one -/

/-- A search of `1, …, n + 1` looks at `1` first. -/
theorem find?_range'_succ (p : Nat → Bool) (n : Nat) :
    (List.range' 1 (n + 1)).find? p =
      if p 1 then some 1 else ((List.range' 1 n).find? fun j => p (j + 1)).map (· + 1) := by
  rw [List.range'_succ, List.find?_cons, List.range'_succ_left, List.find?_map]
  cases p 1 <;> rfl

/-- The values at `1, …, n + 1` are the value at `1` and the later ones. -/
theorem filterMap_range'_succ {α : Type} (f : Nat → Option α) (n : Nat) :
    (List.range' 1 (n + 1)).filterMap f =
      (f 1).toList ++ (List.range' 1 n).filterMap fun j => f (j + 1) := by
  rw [List.range'_succ, List.filterMap_cons, List.range'_succ_left, List.filterMap_map]
  cases f 1 <;> rfl

/-! ## One round of a probe -/

namespace Machine

/-- The first of the next `bound` passes after which the window has the digest
`start`. -/
def firstReturn? (start : Digest) (bound : Nat) (m : Machine) : Option Nat :=
  (List.range' 1 bound).find? fun j => (m.after j).memory.digest == start

theorem firstReturn?_succ (start : Digest) (bound : Nat) (m : Machine) :
    m.firstReturn? start (bound + 1) =
      if m.next.memory.digest = start then some 1
      else (m.next.firstReturn? start bound).map (· + 1) := by
  unfold firstReturn?
  rw [find?_range'_succ]
  simp only [after_succ, after_zero, beq_iff_eq]

/-- The matches of the next `n` passes of a round in which `made` passes were
made before. -/
def hits (round made n : Nat) (m : Machine) : List Match :=
  (List.range' 1 n).filterMap fun j =>
    Tally.match? round (made + j) (m.after j).memory.window

theorem hits_zero (round made : Nat) (m : Machine) : m.hits round made 0 = [] := rfl

theorem hits_succ (round made n : Nat) (m : Machine) :
    m.hits round made (n + 1) =
      (Tally.match? round (made + 1) m.next.memory.window).toList ++
        m.next.hits round (made + 1) n := by
  unfold hits
  rw [filterMap_range'_succ]
  simp only [after_succ, after_zero, Nat.add_assoc, Nat.add_comm 1]

/-- The matches of some passes are those of the windows that they show. -/
theorem mem_hits {round made n : Nat} {m : Machine} {found : Match} :
    found ∈ m.hits round made n ↔
      ∃ j, (1 ≤ j ∧ j ≤ n) ∧
        Tally.match? round (made + j) (m.after j).memory.window = some found := by
  unfold hits
  simp only [List.mem_filterMap, List.mem_range'_1, Nat.add_comm 1, Nat.lt_succ_iff]

/-- Machines with the same windows return at the same pass. -/
theorem firstReturn?_congr {m m' : Machine}
    (h : ∀ j, (m.after j).memory.window = (m'.after j).memory.window) (start : Digest)
    (bound : Nat) : m.firstReturn? start bound = m'.firstReturn? start bound := by
  unfold firstReturn? Memory.digest
  simp only [h]

/-- Machines with the same windows give the same matches. -/
theorem hits_congr {m m' : Machine}
    (h : ∀ j, (m.after j).memory.window = (m'.after j).memory.window) (round made k : Nat) :
    m.hits round made k = m'.hits round made k := by
  unfold hits
  simp only [h]

end Machine

/-! ## Recording -/

/-- A window after a pass is counted, and its match is recorded. -/
theorem Tally.see_probed (t : Tally) (round pass : Nat) (w : Window) :
    t.see (.probed round pass w) =
      ⟨t.report.recordAll (match? round pass w).toList, t.rounds, t.passes + 1, t.cycles⟩ := by
  cases t
  unfold see
  dsimp only
  cases match? round pass w <;> rfl

/-! ## The passes of a round -/

namespace Search

/-- One step of a round, when the passes of the probe succeed: the window after
the pass is shown, and the round is over if its digest came back. -/
theorem probeFrom_succ {σ : Type} (see : σ → Event → σ) {probe : Machine}
    (h : probe.program.WellFormed) (round : Nat) (start : Digest) (remaining pass : Nat)
    (acc : σ) :
    probeFrom see round start (remaining + 1) pass probe acc =
      let shown := see (see acc (.probing probe)) (.probed round pass probe.next.memory.window)
      if probe.next.memory.digest = start then
        (probe.next, see shown (.cycled round pass start), none)
      else
        probeFrom see round start remaining (pass + 1) probe.next shown := by
  rw [probeFrom, Machine.pass_of_wellFormed h]
  rfl

/-- The tally after the passes of a round with at most `bound` passes, given
its matches and the pass that closed it early. -/
def closeRound (t : Tally) (ms : List Match) (bound : Nat) (closed : Option Nat) : Tally :=
  ⟨t.report.recordAll ms, t.rounds, t.passes + closed.getD bound,
    t.cycles + if closed.isSome then 1 else 0⟩

/-- The passes of a round in closed form.  The induction is on the passes that
remain; `made` passes were made before. -/
theorem probeFrom_eq {probe : Machine} (h : probe.program.WellFormed) (round : Nat)
    (start : Digest) (remaining made : Nat) (t : Tally) :
    probeFrom Tally.see round start remaining (made + 1) probe t =
      let closed := probe.firstReturn? start remaining
      let n := closed.getD remaining
      (probe.after n, closeRound t (probe.hits round made n) remaining closed, none) := by
  induction remaining generalizing probe made t with
  | zero => rfl
  | succ remaining ih =>
    have hnext : probe.next.program.WellFormed := by rw [Machine.next_program]; exact h
    have hsee : t.see (.probing probe) = t := rfl
    rw [probeFrom_succ Tally.see h, Machine.firstReturn?_succ, hsee, Tally.see_probed]
    dsimp only
    by_cases hreturn : probe.next.memory.digest = start
    · -- The round ends with this pass.
      rw [if_pos hreturn, if_pos hreturn, Option.getD_some, Machine.hits_succ,
        Machine.hits_zero, List.append_nil]
      rfl
    · -- The rest of the round has one pass more behind it.
      rw [if_neg hreturn, if_neg hreturn, ih hnext]
      dsimp only
      unfold closeRound
      rw [Option.getD_map (· + 1), Option.isSome_map, Machine.hits_succ, Machine.after_succ,
        Report.recordAll_append, Nat.add_assoc t.passes, Nat.add_comm 1]

/-! ## The rounds of a search -/

/-- The probe as a round starts it: put on the image of the seed. -/
def entered (s : Search) : Machine := s.probe.withMemory s.seed.memory

/-- The pass that brings the digest of the seed's image back, if one does. -/
def return? (s : Search) : Option Nat :=
  s.entered.firstReturn? s.seed.memory.digest s.bounds.passes.toNat

/-- The number of probe passes of the round. -/
def roundPasses (s : Search) : Nat := s.return?.getD s.bounds.passes.toNat

/-- The matches of the round, which has number `round`. -/
def roundHits (round : Nat) (s : Search) : List Match := s.entered.hits round 0 s.roundPasses

/-- The search after one round. -/
def nextRound (s : Search) : Search :=
  ⟨s.seed.next, s.entered.after s.roundPasses, s.bounds⟩

/-- The search after `i` rounds. -/
def atRound (i : Nat) (s : Search) : Search := nextRound^[i] s

theorem atRound_succ (i : Nat) (s : Search) : s.atRound (i + 1) = s.nextRound.atRound i := rfl

theorem atRound_add (i j : Nat) (s : Search) : s.atRound (i + j) = (s.atRound i).atRound j := by
  rw [Nat.add_comm]
  exact Function.iterate_add_apply nextRound j i s

/-- Whether the passes of both machines succeed. -/
def WellFormed (s : Search) : Prop :=
  s.seed.program.WellFormed ∧ s.probe.program.WellFormed

theorem WellFormed.nextRound {s : Search} (h : s.WellFormed) : s.nextRound.WellFormed := by
  constructor
  · show s.seed.next.program.WellFormed
    rw [Machine.next_program]
    exact h.1
  · show (s.entered.after s.roundPasses).program.WellFormed
    rw [Machine.after_program]
    exact h.2

/-- The seed makes a pass in every round. -/
theorem seed_atRound (i : Nat) (s : Search) : (s.atRound i).seed = s.seed.after i := by
  induction i generalizing s with
  | zero => rfl
  | succ i ih =>
    rw [atRound_succ, ih, Machine.after_succ]
    rfl

theorem program_atRound (i : Nat) (s : Search) :
    (s.atRound i).probe.program = s.probe.program := by
  induction i generalizing s with
  | zero => rfl
  | succ i ih =>
    rw [atRound_succ, ih]
    exact Machine.after_program s.roundPasses s.entered

theorem WellFormed.atRound {s : Search} (h : s.WellFormed) (i : Nat) :
    (s.atRound i).WellFormed := by
  induction i generalizing s with
  | zero => exact h
  | succ i ih => exact ih h.nextRound

/-- The matches of the next `n` rounds, the first of which has number `round`. -/
def matchesFrom (round n : Nat) (s : Search) : List Match :=
  (List.range n).flatMap fun i => (s.atRound i).roundHits (round + i)

/-- The number of probe passes of the next `n` rounds. -/
def passesOf (n : Nat) (s : Search) : Nat :=
  ((List.range n).map fun i => (s.atRound i).roundPasses).sum

/-- The number of rounds among the next `n` that end early. -/
def cyclesOf (n : Nat) (s : Search) : Nat :=
  (List.range n).countP fun i => (s.atRound i).return?.isSome

theorem matchesFrom_succ (round n : Nat) (s : Search) :
    s.matchesFrom round (n + 1) = s.roundHits round ++ s.nextRound.matchesFrom (round + 1) n := by
  unfold matchesFrom
  rw [List.range_succ_eq_map, List.flatMap_cons, List.flatMap_map]
  simp only [Nat.succ_eq_add_one, atRound_succ, Nat.add_zero, Nat.add_assoc, Nat.add_comm 1]
  rfl

theorem passesOf_succ (n : Nat) (s : Search) :
    s.passesOf (n + 1) = s.roundPasses + s.nextRound.passesOf n := by
  unfold passesOf
  rw [List.range_succ_eq_map, List.map_cons, List.map_map, List.sum_cons]
  rfl

theorem cyclesOf_succ (n : Nat) (s : Search) :
    s.cyclesOf (n + 1) = (if s.return?.isSome then 1 else 0) + s.nextRound.cyclesOf n := by
  unfold cyclesOf
  rw [List.range_succ_eq_map, List.countP_cons, List.countP_map, Nat.add_comm]
  rfl

/-- The passes of a whole round. -/
theorem probeRound_eq {s : Search} (h : s.probe.program.WellFormed) (round : Nat) (t : Tally) :
    probeRound Tally.see s.bounds.passes.toNat round s.seed.memory s.probe t =
      (s.entered.after s.roundPasses,
        closeRound t (s.roundHits round) s.bounds.passes.toNat s.return?, none) := by
  have hentered : s.entered.program.WellFormed := h
  exact probeFrom_eq hentered round s.seed.memory.digest s.bounds.passes.toNat 0 t

/-- One step of a search whose passes succeed: a round and the seed pass after
it. -/
theorem roundsFrom_succ {s : Search} (h : s.WellFormed) (remaining round : Nat) (t : Tally) :
    roundsFrom Tally.see s.bounds.passes.toNat (remaining + 1) round s.seed s.probe t =
      roundsFrom Tally.see s.nextRound.bounds.passes.toNat remaining (round + 1)
        s.nextRound.seed s.nextRound.probe
        ⟨t.report.recordAll (s.roundHits round), round + 1, t.passes + s.roundPasses,
          t.cycles + if s.return?.isSome then 1 else 0⟩ := by
  have hsee : t.see (.round round) = t := rfl
  rw [roundsFrom, hsee, probeRound_eq h.2]
  dsimp only
  rw [Machine.pass_of_wellFormed h.1]
  rfl

/-- The rounds of a search in closed form.  The induction is on the rounds that
remain. -/
theorem roundsFrom_eq {s : Search} (h : s.WellFormed) (remaining round : Nat) (r : Report)
    (passes cycles : Nat) :
    roundsFrom Tally.see s.bounds.passes.toNat remaining round s.seed s.probe
        ⟨r, round, passes, cycles⟩ =
      ((s.atRound remaining).seed, (s.atRound remaining).probe,
        ⟨r.recordAll (s.matchesFrom round remaining), round + remaining,
          passes + s.passesOf remaining, cycles + s.cyclesOf remaining⟩, none) := by
  induction remaining generalizing s round r passes cycles with
  | zero => rfl
  | succ remaining ih =>
    rw [roundsFrom_succ h, ih h.nextRound, matchesFrom_succ, passesOf_succ, cyclesOf_succ,
      Report.recordAll_append, atRound_succ, Nat.add_assoc, Nat.add_assoc, Nat.add_assoc,
      Nat.add_comm 1]

/-- The tally that a search comes to when all its passes succeed. -/
def tally (s : Search) : Tally :=
  ⟨Report.empty.recordAll (s.matchesFrom 0 s.bounds.rounds.toNat), s.bounds.rounds.toNat,
    s.passesOf s.bounds.rounds.toNat, s.cyclesOf s.bounds.rounds.toNat⟩

/-- The tally of a search of one round is that of the round. -/
theorem tally_of_one_round {s : Search} (h : s.bounds.rounds = 1) :
    s.tally = ⟨Report.empty.recordAll (s.roundHits 0), 1, s.roundPasses,
      if s.return?.isSome then 1 else 0⟩ := by
  have hone : s.bounds.rounds.toNat = 1 := by
    rw [h]
    rfl
  have hfirst : s.atRound 0 = s := rfl
  simp [tally, hone, matchesFrom, passesOf, cyclesOf, hfirst, List.countP_cons]

/-- A run is the rounds from the first one on, with an empty tally. -/
theorem run_eq (s : Search) :
    s.run =
      match roundsFrom Tally.see s.bounds.passes.toNat s.bounds.rounds.toNat 0 s.seed s.probe
        .zero with
      | (seed, probe, t, none) => (⟨seed, probe, s.bounds⟩, .ok t)
      | (seed, probe, _, some e) => (⟨seed, probe, s.bounds⟩, .error e) := by
  unfold run walk
  dsimp only
  rcases roundsFrom Tally.see s.bounds.passes.toNat s.bounds.rounds.toNat 0 s.seed s.probe
    .zero with ⟨seed, probe, t, _ | e⟩ <;> rfl

/-- Rounds move the machines of a search and keep its bounds. -/
theorem eq_atRound (i : Nat) (s : Search) :
    (⟨(s.atRound i).seed, (s.atRound i).probe, s.bounds⟩ : Search) = s.atRound i := by
  induction i generalizing s with
  | zero => rfl
  | succ i ih => exact ih s.nextRound

/-- A search whose passes succeed gives its tally and ends where its last round
ends. -/
theorem run_of_wellFormed {s : Search} (h : s.WellFormed) :
    s.run = (s.atRound s.bounds.rounds.toNat, .ok s.tally) := by
  have hrounds := roundsFrom_eq h s.bounds.rounds.toNat 0 .empty 0 0
  rw [Nat.zero_add, Nat.zero_add, Nat.zero_add] at hrounds
  rw [run_eq, Tally.zero, hrounds]
  dsimp only
  rw [eq_atRound]
  rfl

end Search

end SaveRam
