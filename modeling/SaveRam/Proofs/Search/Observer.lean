import SaveRam.Journal.Search

/-!
# What observers of a search are told

A search tells every observer the same events, and it does the same whoever
looks on.  `Search.walk_rel` is that fact for two observers at once: a relation
between their values that holds at the start and is kept by every event holds
at the end.  It is proved along the two loops, first for the passes of a round
(`Search.probeFrom_rel`), then for the rounds (`Search.roundsFrom_rel`).

`Search.events` is the list of what is told.  What any observer makes of a
search is a fold over that list (`Search.walk_eq_foldl`), and the rounds and
passes named in it are within the bounds (`Search.within_of_mem_events`).
-/

namespace SaveRam.Search

/-- An event whose round is one of the given number of rounds and whose pass is
one of the given number of passes. -/
def Event.Within (rounds passes : Nat) : Event → Prop
  | .round i | .done i => i < rounds
  | .probed i j _ | .cycled i j _ => i < rounds ∧ 1 ≤ j ∧ j ≤ passes
  | .probing _ | .seeding _ => True

section

variable {σ τ : Type} {see : σ → Event → σ} {see' : τ → Event → τ} {R : σ → τ → Prop}
  {rounds passes : Nat}
  (hsee : ∀ a b e, e.Within rounds passes → R a b → R (see a e) (see' b e))

include hsee in
/-- Two observers of the passes of a round.  The induction is on the passes that
remain. -/
theorem probeFrom_rel {round : Nat} (hround : round < rounds) (start : Digest)
    (remaining : Nat) {pass : Nat} (hpass : 1 ≤ pass) (hlast : pass + remaining ≤ passes + 1)
    (probe : Machine) {a : σ} {b : τ} (hab : R a b) :
    let x := probeFrom see round start remaining pass probe a
    let y := probeFrom see' round start remaining pass probe b
    x.1 = y.1 ∧ R x.2.1 y.2.1 ∧ x.2.2 = y.2.2 := by
  induction remaining generalizing pass probe a b with
  | zero => exact ⟨rfl, hab, rfl⟩
  | succ remaining ih =>
    have hprobing := hsee _ _ (.probing probe) trivial hab
    dsimp only [probeFrom]
    rcases probe.pass with ⟨probe, _ | fault⟩
    · have hwithin : round < rounds ∧ 1 ≤ pass ∧ pass ≤ passes := ⟨hround, hpass, by omega⟩
      have hprobed := hsee _ _ (.probed round pass probe.memory.window) hwithin hprobing
      dsimp only
      by_cases hreturn : probe.memory.window.digest = start
      · rw [if_pos hreturn, if_pos hreturn]
        exact ⟨rfl, hsee _ _ (.cycled round pass start) hwithin hprobed, rfl⟩
      · rw [if_neg hreturn, if_neg hreturn]
        exact ih (by omega) (by omega) probe hprobed
    · exact ⟨rfl, hprobing, rfl⟩

include hsee in
/-- Two observers of the rounds of a search.  The induction is on the rounds that
remain. -/
theorem roundsFrom_rel (remaining : Nat) {round : Nat} (hlast : round + remaining ≤ rounds)
    (seed probe : Machine) {a : σ} {b : τ} (hab : R a b) :
    let x := roundsFrom see passes remaining round seed probe a
    let y := roundsFrom see' passes remaining round seed probe b
    x.1 = y.1 ∧ x.2.1 = y.2.1 ∧ R x.2.2.1 y.2.2.1 ∧ x.2.2.2 = y.2.2.2 := by
  induction remaining generalizing round seed probe a b with
  | zero => exact ⟨rfl, rfl, hab, rfl⟩
  | succ remaining ih =>
    have hround : round < rounds := by omega
    have hopen := hsee _ _ (.round round) hround hab
    have hpasses := probeFrom_rel hsee hround seed.memory.digest passes (Nat.le_refl 1)
      (by omega) (probe.withMemory seed.memory) hopen
    dsimp only [roundsFrom, probeRound]
    -- Both rounds end with the same probe and, if any, the same error.
    generalize probeFrom see round _ passes 1 _ _ = x at hpasses
    generalize probeFrom see' round _ passes 1 _ _ = y at hpasses
    obtain ⟨probe, a, error⟩ := x
    obtain ⟨_, b, _⟩ := y
    obtain ⟨rfl, hab, rfl⟩ := hpasses
    cases error with
    | some e => exact ⟨rfl, rfl, hab, rfl⟩
    | none =>
      have hseeding := hsee _ _ (.seeding seed) trivial hab
      dsimp only
      rcases seed.pass with ⟨seed, _ | fault⟩
      · exact ih (by omega) seed probe (hsee _ _ (.done round) hround hseeding)
      · exact ⟨rfl, rfl, hseeding, rfl⟩

end

section

variable {σ τ : Type} (s : Search)

/-- Two observers of a whole search. -/
theorem walk_rel (see : σ → Event → σ) (see' : τ → Event → τ) {R : σ → τ → Prop}
    (hsee : ∀ a b e, e.Within s.bounds.rounds.toNat s.bounds.passes.toNat → R a b →
      R (see a e) (see' b e))
    {a : σ} {b : τ} (hab : R a b) :
    (s.walk see a).1 = (s.walk see' b).1 ∧ R (s.walk see a).2.1 (s.walk see' b).2.1 ∧
      (s.walk see a).2.2 = (s.walk see' b).2.2 := by
  obtain ⟨seed, probe, bounds⟩ := s
  obtain ⟨hseed, hprobe, hacc, herror⟩ := roundsFrom_rel hsee bounds.rounds.toNat
    (Nat.le_of_eq (Nat.zero_add _)) seed probe hab
  refine ⟨?_, hacc, herror⟩
  show (⟨_, _, bounds⟩ : Search) = ⟨_, _, bounds⟩
  rw [hseed, hprobe]

/-- The observer that writes down what it is told. -/
def collect (es : List Event) (e : Event) : List Event := es ++ [e]

/-- The events of a search, in order. -/
def events : List Event := (s.walk collect []).2.1

/-- What an observer makes of a search is a fold over its events. -/
theorem walk_eq_foldl (see : σ → Event → σ) (init : σ) :
    (s.walk see init).2.1 = s.events.foldl see init := by
  have hrel := s.walk_rel see collect (R := fun a es => a = es.foldl see init)
    (fun a es e _ h => by rw [h, collect, List.foldl_append]; rfl) (a := init) (b := []) rfl
  exact hrel.2.1

/-- The events of a search are within its bounds. -/
theorem within_of_mem_events {e : Event} (he : e ∈ s.events) :
    e.Within s.bounds.rounds.toNat s.bounds.passes.toNat := by
  have hrel := s.walk_rel collect collect
    (R := fun es _ => ∀ e ∈ es, e.Within s.bounds.rounds.toNat s.bounds.passes.toNat)
    (fun es _ e hwithin hes => List.forall_mem_append.2 ⟨hes, List.forall_mem_singleton.2 hwithin⟩)
    (a := []) (b := []) (List.forall_mem_nil _)
  exact hrel.2.1 e he

/-- The tally of a run is a fold over its events. -/
theorem tally_eq_foldl_events {s' : Search} {t : Tally} (h : s.run = (s', .ok t)) :
    t = s.events.foldl Tally.see .zero := by
  rw [← walk_eq_foldl]
  unfold run at h
  split at h
  · rename_i hwalk
    cases h
    rw [hwalk]
  · cases h

/-- The journal of a search stands beside its result. -/
theorem runNoted_eq (threshold : Threshold) : (s.runNoted threshold).2 = s.run.2 := by
  have hrel := s.walk_rel (note threshold) Tally.see (R := fun noted t => noted.1 = t)
    (fun noted t e _ h => by
      rw [← h]
      rfl)
    (a := (.zero, #[startEntry s.bounds])) (b := .zero) rfl
  obtain ⟨-, htally, herror⟩ := hrel
  unfold runNoted run
  generalize s.walk (note threshold) (.zero, #[startEntry s.bounds]) = x at htally herror
  generalize s.walk Tally.see .zero = y at htally herror
  obtain ⟨_, ⟨tally, journal⟩, error⟩ := x
  obtain ⟨_, _, _⟩ := y
  obtain rfl : tally = _ := htally
  obtain rfl : error = _ := herror
  cases error <;> rfl

end

end SaveRam.Search
