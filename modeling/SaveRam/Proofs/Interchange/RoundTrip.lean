import Mathlib.Data.Option.Basic
import SaveRam.Interchange
import SaveRam.Proofs.Search.Matches

/-!
# The interchange form is read back

What is written in the interchange form is read back from it, and the readers take
nothing that says something else.

* Numbers.  Each reader takes the numbers of its range and no other value
  (`Value.below?_eq_some_iff`, `Value.word?_eq_some_iff`, `Value.byte?_eq_some_iff`,
  `Value.long?_eq_some_iff`).
* Operations and instructions.  `Opcode.ofValue?_eq_some_iff` gives the two forms of
  an operation.  An instruction is read from any value that has its operands
  (`Instruction.ofFields?_of_operands`), its own form among them.
* Triples, windows and matches.  The values of the fields decide what is read
  (`Triple.ofValue?_eq_some_iff`, `Match.ofValue?_eq_some_iff`).  The form of a match has
  room for 32-bit rounds and passes; a search makes no others, so every match in its
  report is read back (`Search.ofValue?_toValue_of_run`).
-/

namespace SaveRam

/-! ## Numbers -/

namespace Value

theorem below?_eq_some_iff {bound n : Nat} {v : Value} :
    v.below? bound = some n ↔ v = .ofNat n ∧ n < bound := by
  cases v with
  | int k =>
    simp only [below?, ofNat, int.injEq, Option.ite_none_right_eq_some, Option.some.injEq]
    omega
  | _ => simp [below?, ofNat]

/-- Values that are numbered below the bound are read from their numbers only. -/
theorem map_below?_eq_some_iff {α : Type} {bound : Nat} {decode : Nat → α} {code : α → Nat}
    (hlt : ∀ a, code a < bound) (hdecode : ∀ a, decode (code a) = a)
    (hcode : ∀ n < bound, code (decode n) = n) {v : Value} {a : α} :
    (v.below? bound).map decode = some a ↔ v = .ofNat (code a) := by
  rw [Option.map_eq_some_iff]
  constructor
  · rintro ⟨n, hv, rfl⟩
    obtain ⟨rfl, hn⟩ := below?_eq_some_iff.1 hv
    exact congrArg ofNat (hcode n hn).symm
  · rintro rfl
    exact ⟨code a, below?_eq_some_iff.2 ⟨rfl, hlt a⟩, hdecode a⟩

theorem word?_eq_some_iff {v : Value} {a : UInt16} : v.word? = some a ↔ v = .ofNat a.toNat :=
  map_below?_eq_some_iff UInt16.toNat_lt (fun _ => UInt16.ofNat_toNat)
    (fun _ => UInt16.toNat_ofNat_of_lt')

theorem byte?_eq_some_iff {v : Value} {b : UInt8} : v.byte? = some b ↔ v = .ofNat b.toNat :=
  map_below?_eq_some_iff UInt8.toNat_lt (fun _ => UInt8.ofNat_toNat)
    (fun _ => UInt8.toNat_ofNat_of_lt')

theorem long?_eq_some_iff {v : Value} {n : Int64} : v.long? = some n ↔ v = .int n.toInt := by
  constructor
  · intro h
    cases v with
    | int k =>
      obtain ⟨hk, hn⟩ : (_ ∧ _) ∧ Int64.ofInt k = n := by simpa [long?] using h
      rw [← hn, Int64.toInt_ofInt_of_le hk.1 (Int.lt_add_one_of_le hk.2)]
    | _ => simp [long?] at h
  · rintro rfl
    rw [long?, if_pos ⟨n.minValue_le_toInt, n.toInt_le⟩, Int64.ofInt_toInt]

theorem mapM_byte?_eq_some_iff {values : List Value} {bytes : List UInt8} :
    values.mapM byte? = some bytes ↔ values = bytes.map fun b => .ofNat b.toNat := by
  induction values generalizing bytes with
  | nil => cases bytes <;> simp
  | cons v values ih =>
    cases bytes with
    | nil => simp [List.mapM_cons, Option.bind_eq_some_iff]
    | cons b bytes => simp [List.mapM_cons, Option.bind_eq_some_iff, ih, byte?_eq_some_iff]

/-! ## Records and alternatives -/

@[simp] theorem field?_cons (name name' : String) (v : Value) (fields : List (String × Value)) :
    (record ((name', v) :: fields)).field? name =
      if name = name' then some v else (record fields).field? name := by
  rw [field?, field?, List.lookup_cons]
  by_cases h : name = name'
  · rw [h, beq_self_eq_true, if_pos rfl]
  · rw [beq_false_of_ne h, if_neg h]

theorem alternative?_eq_some_iff {v : Value} {name : String} {content : Option Value} :
    v.alternative? = some (name, content) ↔
      v = .text name ∧ content = none ∨ ∃ c, v = .record [(name, c)] ∧ content = some c := by
  unfold alternative?
  split <;> simp_all [eq_comm]

theorem isBare_iff {content : Option Value} :
    isBare content = true ↔ content = none ∨ content = some .null := by
  unfold isBare
  split <;> simp_all

end Value

/-! ## Operations -/

namespace Opcode

@[simp] theorem ofLongName?_longName (o : Opcode) : ofLongName? o.longName = some o := by
  cases o <;> rfl

theorem ofLongName?_eq_some_iff {name : String} {o : Opcode} :
    ofLongName? name = some o ↔ name = o.longName := by
  constructor
  · intro h
    have hfound := List.find?_some h
    exact (eq_of_beq hfound).symm
  · rintro rfl
    exact ofLongName?_longName o

/-- An operation is read from its name, alone or with nothing under it. -/
theorem ofValue?_eq_some_iff {v : Value} {o : Opcode} :
    ofValue? v = some o ↔ v = .text o.longName ∨ v = .record [(o.longName, .null)] := by
  simp only [ofValue?, Option.bind_eq_bind, Option.bind_eq_some_iff, Prod.exists,
    Value.alternative?_eq_some_iff, ofLongName?_eq_some_iff, Option.guard_eq_some',
    Value.isBare_iff]
  constructor
  · rintro ⟨name, content, ⟨rfl, -⟩ | ⟨c, rfl, rfl⟩, _, hbare, rfl⟩
    · exact .inl rfl
    · simp_all
  · rintro (rfl | rfl)
    · exact ⟨o.longName, none, .inl ⟨rfl, rfl⟩, (), .inl rfl, rfl⟩
    · exact ⟨o.longName, some .null, .inr ⟨.null, rfl, rfl⟩, (), .inr rfl, rfl⟩

/-- An operation is read back. -/
theorem ofValue?_toValue (o : Opcode) : ofValue? o.toValue = some o :=
  ofValue?_eq_some_iff.2 (.inl rfl)

end Opcode

/-! ## Instructions -/

namespace Instruction

variable {i : Instruction Address}

theorem field?_operands :
    ∀ f ∈ i.operands, (Value.record i.operands).field? f.1 = some f.2 := by
  cases i <;> simp [operands]

/-- Where the operands are, the instruction is read, whatever else is there. -/
theorem ofFields?_of_operands {v : Value} (hi : i.operands ≠ [])
    (h : ∀ f ∈ i.operands, v.field? f.1 = some f.2) : ofFields? i.opcode v = some i := by
  -- the numbers become variables, or checking the proof counts up to their bounds
  have hword {name : String} {a : Address} (hv : v.field? name = some (.ofNat a.toNat)) :
      ∃ d, v.field? name = some d ∧ d.word? = some a := ⟨_, hv, Value.word?_eq_some_iff.2 rfl⟩
  have hbyte {name : String} {b : UInt8} (hv : v.field? name = some (.ofNat b.toNat)) :
      ∃ d, v.field? name = some d ∧ d.byte? = some b := ⟨_, hv, Value.byte?_eq_some_iff.2 rfl⟩
  cases i with
  | init | reset => exact absurd rfl hi
  | swap dst | reverse dst =>
    obtain ⟨d, hd, hdst⟩ := hword (h _ List.mem_cons_self)
    simp [opcode, ofFields?, hd, hdst]
  | fill dst b | bitset dst b =>
    obtain ⟨d, hd, hdst⟩ := hword (h _ List.mem_cons_self)
    obtain ⟨c, hc, hb⟩ := hbyte (h _ (List.mem_cons_of_mem _ List.mem_cons_self))
    simp [opcode, ofFields?, hd, hdst, hc, hb]
  | xor dst src | copy dst src =>
    obtain ⟨d, hd, hdst⟩ := hword (h _ List.mem_cons_self)
    obtain ⟨c, hc, hsrc⟩ := hword (h _ (List.mem_cons_of_mem _ List.mem_cons_self))
    simp [opcode, ofFields?, hd, hdst, hc, hsrc]
  | diff dst inverted =>
    obtain ⟨d, hd, hdst⟩ := hword (h _ List.mem_cons_self)
    have hinvert : v.field? "invert" = some (.bool inverted) :=
      h _ (List.mem_cons_of_mem _ List.mem_cons_self)
    simp [opcode, ofFields?, hd, hdst, hinvert, Value.bool?]

theorem ofValue?_record {o : Opcode} {v : Value} (h : ofFields? o v = some i) :
    ofValue? (.record [(o.longName, v)]) = some i := by
  cases o with
  | init | reset => simp [ofFields?] at h
  | _ => simp [ofValue?, Value.alternative?, h]

/-- An instruction is read back. -/
theorem ofValue?_toValue (i : Instruction Address) : ofValue? i.toValue = some i := by
  by_cases hi : i.operands = []
  · cases i with
    | init | reset => rfl
    | _ => simp [operands] at hi
  · have hform : i.toValue = .record [(i.opcode.longName, .record i.operands)] := by
      rw [toValue]
      split
      · contradiction
      · rfl
    rw [hform]
    exact ofValue?_record (ofFields?_of_operands hi field?_operands)

end Instruction

/-! ## Triples and matches -/

/-- A triple is read from the values of its fields only. -/
theorem Triple.ofValue?_eq_some_iff {v : Value} {t : Triple} :
    ofValue? v = some t ↔ v.fields? ["opcode", "param1", "param2"] =
      some [.int t.opcode.toInt, .int t.param1.toInt, .int t.param2.toInt] := by
  simp only [ofValue?, Option.bind_eq_bind, Option.bind_eq_some_iff]
  constructor
  · rintro ⟨values, hv, h⟩
    split at h
    · simp only [Option.bind_eq_some_iff, Value.long?_eq_some_iff] at h
      obtain ⟨_, rfl, _, rfl, _, rfl, ht⟩ := h
      rw [hv, ← Option.some.inj ht]
    · contradiction
  · intro hv
    refine ⟨_, hv, ?_⟩
    simp only [Option.bind_eq_some_iff, Value.long?_eq_some_iff]
    exact ⟨_, rfl, _, rfl, _, rfl, rfl⟩

/-- A triple is read back. -/
theorem Triple.ofValue?_toValue (t : Triple) : ofValue? t.toValue = some t :=
  ofValue?_eq_some_iff.2 rfl

/-- A window is read from the list of its bytes only. -/
theorem Window.ofValue?_eq_some_iff {v : Value} {w : Window} :
    ofValue? v = some w ↔ v = w.toValue := by
  cases v with
  | list values =>
    simp only [ofValue?, toValue, Option.bind_eq_bind, Option.bind_eq_some_iff,
      Value.mapM_byte?_eq_some_iff, ofBytes?, Value.list.injEq]
    constructor
    · rintro ⟨bytes, rfl, h⟩
      split at h
      · simp [← Option.some.inj h, Vector.toList]
      · contradiction
    · rintro rfl
      exact ⟨w.toList, rfl, by simp [Vector.toList]⟩
  | _ => simp [ofValue?, toValue]

/-- A match whose numbers fit the interchange form. -/
structure Match.Storable (m : Match) : Prop where
  round : m.round < UInt32.size
  pass : m.pass < UInt32.size
  position : m.position < UInt64.size

/-- A match is read from the values of its fields only, and only if its numbers fit. -/
theorem Match.ofValue?_eq_some_iff {v : Value} {m : Match} :
    ofValue? v = some m ↔
      m.Storable ∧ v.fields? ["snapshot", "outer", "inner", "position", "address"] =
        some [m.window.toValue, .ofNat m.round, .ofNat m.pass, .ofNat m.position,
          .ofNat m.address.toNat] := by
  simp only [ofValue?, Option.bind_eq_bind, Option.bind_eq_some_iff]
  constructor
  · rintro ⟨values, hv, h⟩
    split at h
    · simp only [Option.bind_eq_some_iff, Window.ofValue?_eq_some_iff, Value.below?_eq_some_iff,
        Value.word?_eq_some_iff] at h
      obtain ⟨_, rfl, _, ⟨rfl, hround⟩, _, ⟨rfl, hpass⟩, _, ⟨rfl, hposition⟩, _, rfl, hm⟩ := h
      rw [hv, ← Option.some.inj hm]
      exact ⟨⟨hround, hpass, hposition⟩, rfl⟩
    · contradiction
  · rintro ⟨⟨hround, hpass, hposition⟩, hv⟩
    refine ⟨_, hv, ?_⟩
    simp only [Option.bind_eq_some_iff, Window.ofValue?_eq_some_iff, Value.below?_eq_some_iff,
      Value.word?_eq_some_iff]
    exact ⟨_, rfl, _, ⟨rfl, hround⟩, _, ⟨rfl, hpass⟩, _, ⟨rfl, hposition⟩, _, rfl, rfl⟩

/-- A match is read back exactly if its numbers fit. -/
theorem Match.ofValue?_toValue_iff {m : Match} : ofValue? m.toValue = some m ↔ m.Storable :=
  ofValue?_eq_some_iff.trans (and_iff_left rfl)

/-- Every match that a search reports is read back. -/
theorem Search.ofValue?_toValue_of_run {s s' : Search} {t : Tally} (h : s.run = (s', .ok t)) :
    ∀ m ∈ t.report.toList, Match.ofValue? m.toValue = some m := by
  intro m hm
  obtain ⟨i, hi, j, ⟨-, hj⟩, hmatch⟩ := (s.course_atRound.mem_report h).1 hm
  obtain ⟨rfl, rfl⟩ := Match.time_of_match? hmatch
  have hpasses := (s.course_atRound.bounds m.round).2
  have hposition := (Match.sound_of_match? hmatch).position_lt
  exact Match.ofValue?_toValue_iff.2
    ⟨hi.trans s.bounds.rounds.toNat_lt, (hj.trans hpasses).trans_lt s.bounds.passes.toNat_lt,
      hposition.trans (by decide)⟩

end SaveRam
