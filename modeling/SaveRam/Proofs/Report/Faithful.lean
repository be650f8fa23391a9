import SaveRam.Proofs.Report.Grouping
import SaveRam.Proofs.Report.Reader
import SaveRam.Proofs.Search.Course

/-!
# What the text of a report leaves out

The text of a report does not show where a jump stands in its window.  A search
always takes the first jump of the window, so for its reports nothing is lost: a
match is the one that its window gives (`Search.match?_of_mem_report`), and the
groups of the report are those that its text shows, with every match put back
(`Report.groups_eq_of_shown`).

`Report.text_eq_iff` says what the text of a report tells, and that the text of
a search tells the whole report.
-/

namespace SaveRam

/-- The match that a search would have recorded for what is shown of it. -/
def Sighting.match? (seen : Sighting) : Option Match :=
  Tally.match? seen.round seen.pass seen.window

/-- A match that a window gives is found again from what is shown of it. -/
theorem Sighting.match?_sighting {round pass : Nat} {w : Window} {m : Match}
    (h : Tally.match? round pass w = some m) : m.sighting.match? = some m := by
  obtain ⟨jump, -, rfl⟩ := Option.map_eq_some_iff.1 h
  exact h

/-- The text of a report tells its groups if every match is told by what is shown
of it. -/
theorem Report.groups_eq_of_shown {r : Report}
    (h : ∀ m ∈ r.toList, m.sighting.match? = some m) :
    r.groups = r.shown.map fun (address, group) => (address, group.filterMap Sighting.match?) := by
  have hgroup : ∀ g ∈ r.groups, (g.2.map Match.sighting).filterMap Sighting.match? = g.2 := by
    intro g hg
    have hsome : ∀ m ∈ g.2, (Sighting.match? ∘ Match.sighting) m = some m :=
      fun m hm => h m (List.mem_flatMap.2 ⟨g, hg, hm⟩)
    rw [List.filterMap_map, List.filterMap_congr hsome, List.filterMap_some]
  rw [shown, List.map_map]
  conv_lhs => rw [← List.map_id r.groups]
  refine List.map_congr_left fun g hg => ?_
  show g = (g.1, (g.2.map Match.sighting).filterMap Sighting.match?)
  rw [hgroup g hg]

namespace Search

/-- In the report of a run every match is the one that its window gives. -/
theorem match?_of_mem_report {s s' : Search} {t : Tally} (h : s.run = (s', .ok t)) :
    ∀ m ∈ t.report.toList, m.sighting.match? = some m := by
  intro m hm
  obtain ⟨i, -, n, -, hmatch⟩ := (s.course_atRound.mem_report h).1 hm
  exact Sighting.match?_sighting hmatch

/-- Runs with the same text have the same report. -/
theorem report_of_text {s s' u u' : Search} {t v : Tally} (hs : s.run = (s', .ok t))
    (hu : u.run = (u', .ok v)) (h : t.report.text = v.report.text) :
    t.report.groups = v.report.groups ∧ t.report.size = v.report.size := by
  have hgroups : t.report.groups = v.report.groups := by
    rw [Report.groups_eq_of_shown (match?_of_mem_report hs), Report.text_inj.1 h,
      ← Report.groups_eq_of_shown (match?_of_mem_report hu)]
  obtain ⟨-, rfl⟩ := run_of_ok hs
  obtain ⟨-, rfl⟩ := run_of_ok hu
  have hsize (s : Search) :
      s.tally.report.size = (s.tally.report.groups.map fun g => g.2.length).sum :=
    Report.size_eq_sum_length _
  exact ⟨hgroups, by rw [hsize, hsize, hgroups]⟩

end Search

namespace Report

/-- Reports have the same text exactly when they show the same: the same
addresses and, under each of them, the same rounds, passes and windows in the
same order.  All this is read back from the text, which has a line for each
address and one for each match.  Runs of searches with the same text have the
same report, positions included. -/
theorem text_eq_iff :
    (∀ r q : Report, r.text = q.text ↔ r.shown = q.shown) ∧
    (∀ r : Report, read? r.text = some r.shown) ∧
    (∀ ms : List Match, (Lines.ofText (empty.recordAll ms).text.toList).length =
      (empty.recordAll ms).addressCount + (empty.recordAll ms).size) ∧
    ∀ (s s' u u' : Search) (t v : Tally), s.run = (s', .ok t) → u.run = (u', .ok v) →
      t.report.text = v.report.text →
        t.report.groups = v.report.groups ∧ t.report.size = v.report.size := by
  refine ⟨fun r q => text_inj, read?_text, fun ms => ?_,
    fun s s' u u' t v hs hu h => Search.report_of_text hs hu h⟩
  rw [length_ofText_text, addressCount_eq_length, size_eq_sum_length]

/-- The last pass of a seed is seen by no probe. -/
theorem text_eq_iff_last_seed_pass :
    let s : Search := .start (.start .blank []) [⟨1, 0xA7D0, 0xD2⟩] ⟨1, 3, by decide⟩
    let u : Search := .start (.start .blank [⟨1, 0xA7D1, 0x50⟩]) [⟨1, 0xA7D0, 0xD2⟩]
      ⟨1, 3, by decide⟩
    ∃ s' u' t v, s.run = (s', .ok t) ∧ u.run = (u', .ok v) ∧ t.report.text = v.report.text ∧
      t.report.groups = v.report.groups ∧ read? v.report.text = some v.report.shown := by
  intro s u
  have hs := Search.run_of_wellFormed (s := s) ⟨by decide, by decide⟩
  have hu := Search.run_of_wellFormed (s := u) ⟨by decide, by decide⟩
  have htext : s.tally.report.text = u.tally.report.text := by
    rw [Search.tally_of_one_round rfl, Search.tally_of_one_round rfl]
    rfl
  obtain ⟨-, hread, -, hruns⟩ := text_eq_iff
  exact ⟨_, _, _, _, hs, hu, htext, (hruns _ _ _ _ _ _ hs hu htext).1, hread _⟩

end Report

end SaveRam
