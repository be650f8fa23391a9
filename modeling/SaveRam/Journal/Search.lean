import SaveRam.Journal.Pass
import SaveRam.Report.Text
import SaveRam.Search

/-!
# The journal of a search

`Search.note` is an observer that keeps the tally and writes the journal beside
it.  Entries of levels that are not shown are not made at all, so that a search
at the usual threshold does not pay for tracing.
-/

namespace SaveRam.Search

/-- After how many rounds progress is reported. -/
def progressInterval : Nat := 1000

/-- The entry that opens the journal of a search. -/
def startEntry (b : Bounds) : Entry where
  level := .info
  origin := .search
  message := "starting search"
  values := [("config", b.text), ("max_inner_runs", toString b.maxPasses)]

/-- The entry at the start of a round. -/
def roundEntry (round : Nat) (r : Report) : Entry where
  level := .debug
  origin := .search
  message := "seed round"
  values :=
    [("outer", toString round), ("reachable", toString r.addressCount),
      ("coverage", r.exactPercent)]

/-- The entry that reports how far a long search has come. -/
def progressEntry (round : Nat) (r : Report) : Entry where
  level := .info
  origin := .search
  message := "progress"
  values :=
    [("outer", toString round), ("matches", toString r.size),
      ("reachable", toString r.addressCount)]

/-- The entry for a jump that a window shows. -/
def jumpEntry (round pass : Nat) (jump : Jump) : Entry where
  level := .trace
  origin := .search
  message := "jump signature"
  values :=
    [("outer", toString round), ("inner", toString pass),
      ("position", toString jump.position), ("address", toString jump.address)]

/-- The entry for a round that ends early, the probe having come back to where it
started. -/
def cycleEntry (round pass : Nat) (start : Digest) : Entry where
  level := .trace
  origin := .search
  message := "probe cycled"
  values := [("outer", toString round), ("inner", toString pass), ("start", start.text)]

/-- The entry that closes the journal of a search. -/
def finishEntry (t : Tally) : Entry where
  level := .info
  origin := .search
  message := "search finished"
  values :=
    [("matches", toString t.report.size), ("reachable", toString t.report.addressCount),
      ("coverage", t.report.exactPercent), ("inner_runs", toString t.passes),
      ("early_exits", toString t.cycles)]

/-- The entries of a step, given the tally before it. -/
def entries (threshold : Threshold) (t : Tally) : Event → List Entry
  | .round round =>
    let debug := if threshold.shows .debug then [roundEntry round t.report] else []
    let due := round > 0 && round % progressInterval == 0
    debug ++ if due && threshold.shows .info then [progressEntry round t.report] else []
  | .probing m | .seeding m => if threshold.shows .trace then m.passEntries else []
  | .probed round pass window =>
    if threshold.shows .trace then (window.jump?.map (jumpEntry round pass)).toList else []
  | .cycled round pass start =>
    if threshold.shows .trace then [cycleEntry round pass start] else []
  | .done _ => []

/-- Keeps the tally and the journal. -/
def note (threshold : Threshold) : Tally × Array Entry → Event → Tally × Array Entry
  | (tally, journal), event =>
    let journal := journal ++ entries threshold tally event
    (tally.see event, journal)

/-- Runs a search and writes its journal from the first entry to the last.  A
search that fails has no closing entry. -/
def runNoted (threshold : Threshold) (s : Search) : List Entry × Except SearchError Tally :=
  match s.walk (note threshold) (.zero, #[startEntry s.bounds]) with
  | (_, (tally, journal), none) => (journal.toList ++ [finishEntry tally], .ok tally)
  | (_, (_, journal), some e) => (journal.toList, .error e)

end SaveRam.Search
