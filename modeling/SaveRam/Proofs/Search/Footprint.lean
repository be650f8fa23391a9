import SaveRam.Proofs.Memory.Map
import SaveRam.Proofs.Pass.Footprint
import SaveRam.Proofs.Search.Course

/-!
# The footprint of a search

Bytes outside a closed set of addresses do not influence a search, if the set
holds the window.  The relation that carries this through the loops is
`Search.AgreeOn`: the seeds agree on the set, and the probes run the same
program with the same carried nibble.  It says nothing about the memory of the
probes, because every round puts a new image there.

`Memory.AgreeOn.window` and `Memory.AgreeOn.digest` say which addresses a search
looks at.  `Search.AgreeOn.entered` starts a round, `Search.AgreeOn.window` follows it, and
`Search.AgreeOn.nextRound` ends it.  `Search.run_eq_of_agreeOn` then compares
two whole runs, those that fail included.
-/

namespace SaveRam

/-! ## Windows and digests -/

/-- An address of one of the bytes on which the digest is computed. -/
def Address.Digested (a : Address) : Prop := 0xA7D0 ≤ a.toNat ∧ a.toNat ≤ 0xA7D9

instance (a : Address) : Decidable a.Digested := inferInstanceAs (Decidable (_ ∧ _))

namespace Memory.AgreeOn

variable {T : Set Address} {m n : Memory}

/-- A byte of the window is the same if the set holds its address. -/
theorem getElem_window (h : m.AgreeOn T n) {k : Nat} (hk : k < 16)
    (hT : ∀ a : Address, a.toNat = 0xA7D0 + k → a ∈ T) : m.window[k] = n.window[k] := by
  have hcell : (Window.cell ⟨k, hk⟩).val = 0x7D0 + k := rfl
  have haddress : (Window.cell ⟨k, hk⟩).address.toNat = 0xA7D0 + k := by
    rw [Cell.toNat_address, hcell]
    omega
  rw [Memory.window, Memory.window, Vector.getElem_ofFn, Vector.getElem_ofFn]
  exact Memory.agreeOn_iff.1 h _ (hT _ haddress)

theorem window (h : m.AgreeOn T n)
    (hT : ∀ a : Address, 0xA7D0 ≤ a → a ≤ 0xA7DF → a ∈ T) : m.window = n.window := by
  apply Vector.ext
  intro k hk
  refine h.getElem_window hk fun a ha => hT a ?_ ?_ <;> rw [UInt16.le_iff_toNat_le, ha]
  · exact Nat.le_add_right ..
  · exact Nat.add_le_add_left (Nat.le_of_lt_succ hk) 0xA7D0

/-- The digest is a matter of the first ten bytes of the window. -/
theorem digest (h : m.AgreeOn T n) (hT : ∀ a : Address, a.Digested → a ∈ T) :
    m.digest = n.digest := by
  refine congrArg Digest.ofBytes (List.ext_getElem ?_ fun k hk _ => ?_)
  · rw [Memory.length_digested, Memory.length_digested]
  · rw [Memory.length_digested] at hk
    simp only [Window.digested, List.getElem_take, Vector.getElem_toList]
    exact h.getElem_window (by omega) fun a ha => hT a ⟨by omega, by omega⟩

end Memory.AgreeOn

namespace Search

/-- The set holds the window, and nothing flows into it from outside. -/
structure Closed (T : Set Address) (s : Search) : Prop where
  window : ∀ a : Address, 0xA7D0 ≤ a → a ≤ 0xA7DF → a ∈ T
  seed : s.seed.program.Closed T
  probe : s.probe.program.Closed T

/-- Two searches that differ at most in the seed's bytes outside of the set, in
the memory of the probe and in the pass counts. -/
structure AgreeOn (T : Set Address) (s s' : Search) : Prop where
  bounds : s.bounds = s'.bounds
  seed : s.seed.AgreeOn T s'.seed
  program : s.probe.program = s'.probe.program
  carried : s.probe.carried = s'.probe.carried

variable {T : Set Address} {s s' : Search}

theorem Closed.nextRound (h : s.Closed T) : s.nextRound.Closed T := by
  obtain ⟨hwindow, hseed, hprobe⟩ := h
  refine ⟨hwindow, ?_, ?_⟩
  · show s.seed.next.program.Closed T
    rw [Machine.next_program]
    exact hseed
  · show (s.entered.after s.roundPasses).program.Closed T
    rw [Machine.after_program]
    exact hprobe

namespace AgreeOn

/-! ## A round -/

/-- Put on the images of the seeds, the probes agree. -/
theorem entered (h : s.AgreeOn T s') : s.entered.AgreeOn T s'.entered :=
  ⟨h.program, h.seed.state.memory, h.carried⟩

theorem after (h : s.AgreeOn T s') (hT : s.Closed T) (j : Nat) :
    (s.entered.after j).AgreeOn T (s'.entered.after j) :=
  h.entered.after hT.probe j

/-- The probes show the same windows throughout the round. -/
theorem window (h : s.AgreeOn T s') (hT : s.Closed T) (j : Nat) :
    (s.entered.after j).memory.window = (s'.entered.after j).memory.window :=
  (h.after hT j).state.memory.window hT.window

theorem return? (h : s.AgreeOn T s') (hT : s.Closed T) : s.return? = s'.return? := by
  have hdigest : s.seed.memory.digest = s'.seed.memory.digest :=
    congrArg Window.digest (h.seed.state.memory.window hT.window)
  unfold Search.return?
  rw [Machine.firstReturn?_congr (h.window hT), hdigest, h.bounds]

theorem roundPasses (h : s.AgreeOn T s') (hT : s.Closed T) : s.roundPasses = s'.roundPasses := by
  unfold Search.roundPasses
  rw [h.return? hT, h.bounds]

theorem roundHits (h : s.AgreeOn T s') (hT : s.Closed T) (round : Nat) :
    s.roundHits round = s'.roundHits round := by
  unfold Search.roundHits
  rw [Machine.hits_congr (h.window hT), h.roundPasses hT]

/-- At the end of a round the probes agree, and so do the seeds after their
pass. -/
theorem nextRound_probe (h : s.AgreeOn T s') (hT : s.Closed T) :
    s.nextRound.probe.AgreeOn T s'.nextRound.probe := by
  have hafter := h.after hT s.roundPasses
  rw [Search.nextRound, Search.nextRound, ← h.roundPasses hT]
  exact hafter

theorem nextRound (h : s.AgreeOn T s') (hT : s.Closed T) :
    s.nextRound.AgreeOn T s'.nextRound := by
  have hprobe := h.nextRound_probe hT
  exact ⟨h.bounds, h.seed.next hT.seed, hprobe.program, hprobe.state.carried⟩

/-! ## All rounds -/

theorem atRound (h : s.AgreeOn T s') (hT : s.Closed T) (i : Nat) :
    (s.atRound i).AgreeOn T (s'.atRound i) ∧ (s.atRound i).Closed T := by
  induction i generalizing s s' with
  | zero => exact ⟨h, hT⟩
  | succ i ih =>
    rw [atRound_succ, atRound_succ]
    exact ih (h.nextRound hT) hT.nextRound

/-- Both searches come to the same result when their passes succeed. -/
theorem tally (h : s.AgreeOn T s') (hT : s.Closed T) : s.tally = s'.tally := by
  have hround : ∀ i, (s.atRound i).AgreeOn T (s'.atRound i) ∧ (s.atRound i).Closed T :=
    h.atRound hT
  have hhits : ∀ i, (s.atRound i).roundHits (0 + i) = (s'.atRound i).roundHits (0 + i) :=
    fun i => (hround i).1.roundHits (hround i).2 (0 + i)
  have hpasses : ∀ i, (s.atRound i).roundPasses = (s'.atRound i).roundPasses :=
    fun i => (hround i).1.roundPasses (hround i).2
  have hreturn : ∀ i, (s.atRound i).return? = (s'.atRound i).return? :=
    fun i => (hround i).1.return? (hround i).2
  unfold Search.tally matchesFrom passesOf cyclesOf
  simp only [hhits, hpasses, hreturn, h.bounds]

end AgreeOn

/-- The bytes outside of a closed set do not influence a search: two searches
that agree on the set end with the same error or the same tally, and their
machines agree again. -/
theorem run_eq_of_agreeOn (h : s.AgreeOn T s') (hT : s.Closed T) :
    s.run.2 = s'.run.2 ∧ s.run.1.seed.AgreeOn T s'.run.1.seed ∧
      (s.bounds.rounds ≠ 0 → s.run.1.probe.AgreeOn T s'.run.1.probe) := by
  by_cases hzero : s.bounds.rounds = 0
  · rw [run_of_no_rounds hzero, run_of_no_rounds (h.bounds ▸ hzero)]
    exact ⟨rfl, h.seed, fun hne => absurd hzero hne⟩
  · have hrounds : s.bounds.rounds.toNat ≠ 0 := fun hnat => hzero (UInt32.toNat_inj.1 hnat)
    have hrounds' : s'.bounds.rounds.toNat ≠ 0 := h.bounds ▸ hrounds
    -- The programs decide how the searches end, so both end in the same way.
    cases hprobe : s.probe.program.fault? with
    | some fault =>
      have hprobe' : s'.probe.program.fault? = some fault := h.program ▸ hprobe
      rw [run_of_probe_fault hrounds hprobe, run_of_probe_fault hrounds' hprobe']
      exact ⟨rfl, h.seed, fun _ => h.entered.next hT.probe⟩
    | none =>
      have hprobeWf := Program.fault?_eq_none_iff.1 hprobe
      have hprobeWf' : s'.probe.program.WellFormed := h.program ▸ hprobeWf
      cases hseed : s.seed.program.fault? with
      | some fault =>
        have hseed' : s'.seed.program.fault? = some fault := h.seed.program ▸ hseed
        rw [run_of_seed_fault hrounds hprobeWf hseed, run_of_seed_fault hrounds' hprobeWf' hseed']
        exact ⟨rfl, (h.nextRound hT).seed, fun _ => h.nextRound_probe hT⟩
      | none =>
        have hseedWf := Program.fault?_eq_none_iff.1 hseed
        have hseedWf' : s'.seed.program.WellFormed := h.seed.program ▸ hseedWf
        rw [run_of_wellFormed ⟨hseedWf, hprobeWf⟩, run_of_wellFormed ⟨hseedWf', hprobeWf'⟩,
          ← h.bounds]
        refine ⟨congrArg Except.ok (h.tally hT), (h.atRound hT _).1.seed, fun _ => ?_⟩
        obtain ⟨i, hi⟩ := Nat.exists_eq_succ_of_ne_zero hrounds
        rw [hi, atRound_succ', atRound_succ']
        exact (h.atRound hT i).1.nextRound_probe (h.atRound hT i).2

/-- Two images that differ below the address that the seed copies into the
window. -/
theorem run_eq_of_agreeOn_copy :
    let T : Set Address := {a | 0xA7D0 ≤ a ∧ a ≤ 0xA7DF ∨ a = 0xA100}
    let seed : Program := [⟨3, 0xA7D1, 0⟩, ⟨6, 0xA7D0, 0xA100⟩, ⟨1, 0xB000, 0x55⟩]
    let probe : Program := [⟨5, 0xA7D2, 0xA7D0⟩, ⟨6, 0xA000, 0xB000⟩]
    let s : Search := .start (.start (.ofBytes [1, 2, 3]) seed) probe ⟨3, 4, by decide⟩
    let s' : Search := .start (.start (.ofBytes [9, 8]) seed) probe ⟨3, 4, by decide⟩
    s.Closed T ∧ s.AgreeOn T s' ∧ s.run.2 = s'.run.2 ∧
      s.run.1.probe.AgreeOn T s'.run.1.probe := by
  intro T seed probe s s'
  have hseed : seed.Closed T := by
    simp only [Program.Closed, seed, List.forall_mem_cons, List.not_mem_nil, false_implies,
      implies_true, and_true]
    refine ⟨?_, ?_, ?_⟩ <;> rintro i ⟨⟩
    · show (0xA7D1 : Address) ∈ T
      exact .inl (by decide)
    · exact fun _ => .inr rfl
    · trivial
  have hprobe : probe.Closed T := by
    simp only [Program.Closed, probe, List.forall_mem_cons, List.not_mem_nil, false_implies,
      implies_true, and_true]
    refine ⟨?_, ?_⟩ <;> rintro i ⟨⟩
    · exact fun _ => .inl (by decide)
    · show (0xA000 : Address) ∈ T → _
      rintro (h | h)
      · exact absurd h (by decide)
      · exact absurd h (by decide)
  have hmemory : (Memory.ofBytes [1, 2, 3]).AgreeOn T (Memory.ofBytes [9, 8]) := by
    refine Memory.agreeOn_iff.2 fun c hc => ?_
    have haddress := c.toNat_address
    have hhigh : 3 ≤ c.val := by
      rcases hc with ⟨hlow, -⟩ | heq
      · have hlow' : 0xA7D0 ≤ c.address.toNat := UInt16.le_iff_toNat_le.1 hlow
        omega
      · have heq' : c.address.toNat = 0xA100 := congrArg UInt16.toNat heq
        omega
    simp only [Memory.get_ofBytes, List.getD_eq_getElem?_getD]
    rw [List.getElem?_eq_none hhigh, List.getElem?_eq_none (Nat.le_of_succ_le hhigh)]
  have hT : s.Closed T := ⟨fun a hlow hhigh => .inl ⟨hlow, hhigh⟩, hseed, hprobe⟩
  have hfresh : ∀ {m n : Memory} (b : Bounds), m.AgreeOn T n →
      AgreeOn T (.start (.start m seed) probe b) (.start (.start n seed) probe b) :=
    fun b h => ⟨rfl, ⟨rfl, h, rfl⟩, rfl, rfl⟩
  have h : s.AgreeOn T s' := hfresh _ hmemory
  obtain ⟨hresult, -, hprobes⟩ := run_eq_of_agreeOn h hT
  exact ⟨hT, h, hresult, hprobes (by decide)⟩

end Search

end SaveRam
