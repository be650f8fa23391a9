import SaveRam.Proofs.Search.Course

/-!
# The matches of a search

What the matches in the report of a search look like, and in which order they
stand.

* A single match.  `Match.Sound` says that position and address are those of
  the first jump of the window.  Every match that a window gives is sound
  (`Match.sound_of_match?`).
* The matches of a round.  They are sound and do not depend on the number of the
  round otherwise (`Machine.map_inRound_hits`).

`Search.run_matches` collects what holds of the report of a run.
-/

namespace SaveRam

/-! ## A single match -/

/-- A match whose position and address are those of the first jump of its
window. -/
structure Match.Sound (m : Match) : Prop where
  position_lt : m.position < 14
  jump : m.window[m.position] = 0xD2 ∨ m.window[m.position] = 0xC3
  first : ∀ i (hi : i < m.position), m.window[i] ≠ 0xD2 ∧ m.window[i] ≠ 0xC3
  address : m.address.toNat =
    m.window[m.position + 1].toNat + 256 * m.window[m.position + 2].toNat

namespace Window

/-- The low byte of an address comes first. -/
theorem toNat_addressOf (lo hi : UInt8) :
    (addressOf lo hi).toNat = lo.toNat + 256 * hi.toNat := by
  have hlo : lo.toNat < 2 ^ 8 := lo.toNat_lt
  have hhi : hi.toNat < 2 ^ 8 := hi.toNat_lt
  have hshift : (hi.toUInt16 <<< 8).toNat = hi.toNat <<< 8 := by
    simp only [UInt16.toNat_shiftLeft, UInt8.toNat_toUInt16, Nat.shiftLeft_eq]
    show hi.toNat * 2 ^ 8 % 2 ^ 16 = _
    omega
  rw [addressOf, UInt16.toNat_or, hshift, UInt8.toNat_toUInt16, Nat.or_comm,
    ← Nat.shiftLeft_add_eq_or_of_lt hlo, Nat.shiftLeft_eq]
  omega

theorem isJump_iff {byte : UInt8} : isJump byte ↔ byte = 0xD2 ∨ byte = 0xC3 := by
  simp [isJump]

/-- A jump that is found stands at the first position with a jump code. -/
theorem exists_first_of_jump? {w : Window} {jump : Jump} (h : w.jump? = some jump) :
    ∃ i : Fin 14, isJump (w.code i) ∧ (∀ j < i, ¬ isJump (w.code j)) ∧
      jump = ⟨i.val, w.target i⟩ := by
  obtain ⟨i, hfind, hjump⟩ := Option.map_eq_some_iff.1 h
  obtain ⟨hcode, k, hk, hki, hbefore⟩ := List.find?_eq_some_iff_getElem.1 hfind
  have hval : k = i.val := by simpa [Fin.ext_iff] using hki
  refine ⟨i, hcode, fun j hj => ?_, hjump.symm⟩
  simpa using hbefore j.val (by omega)

end Window

/-- A window gives sound matches. -/
theorem Match.sound_of_match? {round pass : Nat} {w : Window} {m : Match}
    (h : Tally.match? round pass w = some m) : m.Sound := by
  obtain ⟨jump, hjump, rfl⟩ := Option.map_eq_some_iff.1 h
  obtain ⟨i, hcode, hbefore, rfl⟩ := Window.exists_first_of_jump? hjump
  refine ⟨i.isLt, Window.isJump_iff.1 hcode, fun j hj => ?_, Window.toNat_addressOf _ _⟩
  have hbound : j < 14 := Nat.lt_trans hj i.isLt
  have hcode' := hbefore ⟨j, hbound⟩ hj
  rw [Window.isJump_iff, not_or] at hcode'
  exact hcode'

/-- The match as it would have been found in another round. -/
def Match.inRound (round : Nat) (m : Match) : Match := { m with round }

theorem Match.map_inRound_match? (round round' pass : Nat) (w : Window) :
    (Tally.match? round pass w).map (Match.inRound round') = Tally.match? round' pass w :=
  Option.map_map ..

/-! ## The matches of a round -/

namespace Machine

variable {round made n : Nat} {m : Machine}

theorem sound_of_mem_hits {found : Match} (h : found ∈ m.hits round made n) : found.Sound := by
  obtain ⟨j, -, hfound⟩ := mem_hits.1 h
  exact Match.sound_of_match? hfound

/-- The number of a round is in its matches and nowhere else. -/
theorem map_inRound_hits (round round' made n : Nat) (m : Machine) :
    (m.hits round made n).map (Match.inRound round') = m.hits round' made n := by
  unfold hits
  simp only [List.map_filterMap, Match.map_inRound_match?]

end Machine

/-! ## The matches of a search -/

namespace Search

/-- The report of a run that succeeds.  Its groups hold the matches with their
address, in the order of time.  No two matches have the same round and pass.
Every match shows the first jump of its window, and its round and its pass are
among those that the run made. -/
theorem run_matches {s s' : Search} {t : Tally} (h : s.run = (s', .ok t)) :
    (∀ a group, (a, group) ∈ t.report.groups →
      (∀ m ∈ group, m.address = a) ∧ group.Pairwise fun m n => m.time < n.time) ∧
    (t.report.toList.map Match.time).Nodup ∧
    ∃ S P N, s.Course S P N ∧ ∀ m ∈ t.report.toList,
      m.Sound ∧ m.round < s.bounds.rounds.toNat ∧
        (1 ≤ m.pass ∧ m.pass ≤ s.bounds.passes.toNat) ∧ m.pass ≤ N m.round := by
  obtain ⟨-, rfl⟩ := run_of_ok h
  have hordered := s.pairwise_matchesFrom 0 s.bounds.rounds.toNat
  refine ⟨fun a group hgroup => Report.pairwise_group hordered hgroup,
    Report.nodup_time_toList hordered, _, _, _, s.course_atRound, fun m hm => ?_⟩
  obtain ⟨i, hi, hhit⟩ := mem_matchesFrom.1 (Report.mem_toList_recordAll_empty.1 hm)
  obtain ⟨hround, hlow, hhigh⟩ := Machine.time_of_mem_hits hhit
  have hbound := (s.course_atRound.bounds i).2
  have hi' : m.round = i := by omega
  subst hi'
  exact ⟨Machine.sound_of_mem_hits hhit, hi, ⟨by omega, by omega⟩, by omega⟩

/-- A probe that writes a jump in front of the window gives a match in every
pass. -/
theorem run_matches_fill :
    let s : Search := .start (.start .blank []) [⟨1, 0xA7D0, 0xD2⟩] ⟨2, 3, by decide⟩
    ∃ s' t m, s.run = (s', .ok t) ∧ m ∈ t.report.toList ∧ m.Sound ∧ m.round < 2 ∧ m.pass ≤ 3 ∧
      (t.report.toList.map Match.time).Nodup := by
  intro s
  have hrun := run_of_wellFormed (s := s) ⟨by decide, by decide⟩
  have hwindow : ((s.atRound 0).entered.after 1).memory.window =
      (Vector.replicate 16 0).set 0 0xD2 := by
    show (Memory.blank.set (Window.cell 0) 0xD2).window = _
    rw [Memory.window_set_cell, Memory.window_blank]
    rfl
  have hmem : ⟨(Vector.replicate 16 0).set 0 0xD2, 0, 1, 0, 0⟩ ∈ s.tally.report.toList := by
    rw [s.course_atRound.mem_report hrun]
    refine ⟨0, by decide, 1, ⟨by decide, (s.course_atRound.bounds 0).1⟩, ?_⟩
    rw [hwindow]
    decide
  obtain ⟨-, htimes, _, _, _, _, hmatches⟩ := run_matches hrun
  obtain ⟨hsound, hround, ⟨-, hpass⟩, -⟩ := hmatches _ hmem
  exact ⟨_, _, _, hrun, hmem, hsound, hround, hpass, htimes⟩

end Search

end SaveRam
