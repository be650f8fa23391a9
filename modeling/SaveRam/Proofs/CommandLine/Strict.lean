import SaveRam.Proofs.CommandLine.Exit

/-!
# Strict and lenient use

Strict use makes a failure of a behavior file that is not taken in completely.
Nothing else changes: a command depends on strictness only through the programs
of the behavior files that it names (`Command.product_congr`), and it comes to
nothing unless it has all of them (`Command.behavior_of_product`).

On the side of the words, `--strict` in front of a command line that is accepted
without it gives the same request (`Invocation.ofArguments?_strict`).

`CommandLine.run_strict` compares the two runs of a command.
-/

namespace SaveRam

/-! ## Strict use of a file -/

namespace Files

variable {fs : Files} {name : String}

/-- What strict use accepts is the same in lenient use. -/
theorem behavior_false_of_true {p : Program} (h : fs.behavior true name = .ok p) :
    fs.behavior false name = .ok p := by
  obtain ⟨r, hr, -, hp⟩ := behavior_eq_ok_iff.1 h
  exact behavior_eq_ok_iff.2 ⟨r, hr, nofun, hp⟩

/-- Strictness does not matter for a file that does not stop early. -/
theorem behavior_of_complete (h : ∀ r, fs.reading name = .ok r → r.stop = none) (strict : Bool) :
    fs.behavior strict name = fs.behavior false name := by
  unfold behavior
  cases hreading : fs.reading name with
  | error e => rfl
  | ok r => simp [h r hreading]

end Files

/-! ## Commands -/

namespace Command

/-- The behavior files that a command names. -/
def behaviorNames : Command → List String
  | .search _ seedProgram probeProgram _ _ => [seedProgram, probeProgram]
  | .dump _ program _ _ => [program]
  | .disasm program => [program]

variable {c : Command} {fs : Files} {s s' : Bool}

/-- Strictness matters for the programs of the named files only. -/
theorem product_congr (h : ∀ name ∈ c.behaviorNames, fs.behavior s name = fs.behavior s' name) :
    c.product s fs = c.product s' fs := by
  cases c with
  | search _ seedProgram probeProgram =>
    simp only [product, searchProduct]
    rw [h seedProgram (by simp [behaviorNames]), h probeProgram (by simp [behaviorNames])]
  | dump _ program =>
    simp only [product, dumpProduct]
    rw [h program (by simp [behaviorNames])]
  | disasm program =>
    simp only [product, disasmProduct]
    rw [h program (by simp [behaviorNames])]

/-- A command that comes to a product has the programs of all the files that it
names. -/
theorem behavior_of_product {product : Product} (h : c.product s fs = .ok product) :
    ∀ name ∈ c.behaviorNames, ∃ p, fs.behavior s name = .ok p := by
  cases c with
  | search _ seedProgram probeProgram rounds passes =>
    simp only [Command.product, searchProduct] at h
    cases hbounds : Bounds.make rounds passes with
    | error e =>
      rw [hbounds] at h
      cases h
    | ok bounds =>
      simp only [hbounds, Except.bind_eq_ok_iff] at h
      obtain ⟨_, -, seed, hseed, probe, hprobe, -⟩ := h
      simp only [behaviorNames, List.forall_mem_cons]
      exact ⟨⟨seed, hseed⟩, ⟨probe, hprobe⟩, List.forall_mem_nil _⟩
  | dump _ program =>
    simp only [Command.product, dumpProduct, Except.bind_eq_ok_iff] at h
    obtain ⟨_, -, p, hp, -⟩ := h
    simp only [behaviorNames, List.forall_mem_singleton]
    exact ⟨p, hp⟩
  | disasm program =>
    simp only [Command.product, disasmProduct, Except.bind_eq_ok_iff] at h
    obtain ⟨p, hp, -⟩ := h
    simp only [behaviorNames, List.forall_mem_singleton]
    exact ⟨p, hp⟩

/-- What a command comes to in strict use it comes to in lenient use. -/
theorem product_false_of_true {product : Product} (h : c.product true fs = .ok product) :
    c.product false fs = .ok product := by
  rw [← h]
  refine product_congr fun name hname => ?_
  obtain ⟨p, hp⟩ := behavior_of_product h name hname
  rw [hp, Files.behavior_false_of_true hp]

/-- A dump that is too long has taken in its behavior file. -/
theorem usable_of_overlong (h : c.Overlong s fs) : ∀ name ∈ c.behaviorNames, fs.Usable s name := by
  cases c with
  | search | disasm => cases h
  | dump _ program =>
    simp only [behaviorNames, List.forall_mem_singleton]
    exact h.1.2

/-- In strict use a named file that stops early keeps the command from coming to
anything, and from getting as far as its passes. -/
theorem product_true_of_stop {name : String} (hname : name ∈ c.behaviorNames) {r : Reading}
    (hr : fs.reading name = .ok r) (hstop : r.stop ≠ none) :
    ∃ e, e ≠ .dumping .tooLong ∧ c.product true fs = .error e := by
  have hunusable : ¬ fs.Usable true name := by
    rintro ⟨r', hr', hcomplete⟩
    obtain rfl : r = r' := Except.ok.inj (hr.symm.trans hr')
    exact hstop (hcomplete rfl)
  cases hproduct : c.product true fs with
  | error e =>
    refine ⟨e, ?_, rfl⟩
    rintro rfl
    exact hunusable (usable_of_overlong ((product_eq_tooLong_iff c).1 hproduct) name hname)
  | ok product =>
    exact absurd (Files.exists_behavior_iff.1 (behavior_of_product hproduct name hname)) hunusable

end Command

/-! ## Words -/

namespace Flags

variable {flags flags' : Flags} {a : Argument}

/-- Strictness is not taken back. -/
theorem strict_of_take? (h : flags.take? a = some flags') (hstrict : flags.strict = true) :
    flags'.strict = true := by
  unfold take? at h
  split at h
  · cases h
    exact hstrict
  · rw [if_pos hstrict] at h
    cases h
  · split at h <;> cases h
    exact hstrict
  · cases h

/-- A word that does not ask for strictness does the same to strict flags. -/
theorem take?_strict (h : flags.take? a = some flags') (hlenient : flags'.strict = false) :
    { flags with strict := true }.take? a = some { flags' with strict := true } := by
  unfold take? at h ⊢
  split at h
  · cases h
    rfl
  · split at h <;> cases h
    cases hlenient
  · split at h <;> cases h
    rename_i hletters
    simp [hletters]
  · cases h

end Flags

namespace Invocation

variable {flags : Flags} {word : String} {rest words : List String} {i : Invocation}

/-- The first word is the name of a command, or it is a flag. -/
theorem ofWords?_cons_iff :
    ofWords? flags (word :: rest) = some i ↔
      (∃ name given command, Argument.ofString word = .plain name ∧
        Given.nothing.collect (optionNames name) rest = some given ∧
        command? name given = some command ∧
        (⟨(flags.merge given.flags).verbosity, (flags.merge given.flags).strict, command⟩ :
          Invocation) = i) ∨
      ∃ flags', flags.take? (Argument.ofString word) = some flags' ∧
        ofWords? flags' rest = some i := by
  rw [ofWords?]
  cases Argument.ofString word <;> simp [Flags.take?, Option.bind_eq_some_iff]

/-- Strict flags make the invocation strict. -/
theorem strict_of_ofWords? (h : ofWords? flags words = some i) (hstrict : flags.strict = true) :
    i.strict = true := by
  induction words generalizing flags with
  | nil => cases h
  | cons word rest ih =>
    rcases ofWords?_cons_iff.1 h with ⟨_, given, _, -, -, -, rfl⟩ | ⟨flags', htake, hrest⟩
    · simp [Flags.merge, hstrict]
    · exact ih hrest (Flags.strict_of_take? htake hstrict)

/-- An invocation that is not strict is asked for by strict flags, too, and is
strict then. -/
theorem ofWords?_strict (h : ofWords? flags words = some i) (hlenient : i.strict = false) :
    ofWords? { flags with strict := true } words = some { i with strict := true } := by
  induction words generalizing flags with
  | nil => cases h
  | cons word rest ih =>
    rw [ofWords?_cons_iff] at h ⊢
    rcases h with ⟨name, given, command, hword, hgiven, hcommand, rfl⟩ | ⟨flags', htake, hrest⟩
    · exact .inl ⟨name, given, command, hword, hgiven, hcommand, by simp [Flags.merge]⟩
    · have hflags : flags'.strict = false := by
        by_contra hstrict
        rw [strict_of_ofWords? hrest (Bool.not_eq_false _ ▸ hstrict)] at hlenient
        cases hlenient
      exact .inr ⟨_, Flags.take?_strict htake hflags, ih hrest⟩

/-- A command line that is accepted without `--strict` is accepted with it in
front. -/
theorem ofArguments?_strict (h : ofArguments? words = some i) (hlenient : i.strict = false) :
    ofArguments? ("--strict" :: words) = some { i with strict := true } := by
  refine ofWords?_cons_iff.2 (.inr ⟨⟨0, true⟩, rfl, ?_⟩)
  exact ofWords?_strict h hlenient

end Invocation

/-! ## Two runs -/

namespace CommandLine

/-- A command in lenient and in strict use.  A strict run that ends well shows that the
lenient run does the same; the two runs are the same if no named file stops early; and
a named file that stops early makes the strict run fail before it has printed or stored
anything.  `--strict` in front of a command line asks for strict use and changes nothing
else. -/
theorem run_strict (set set' : Option Threshold) (fs : Files) (v v' : Nat) (c : Command) :
    let lenient := runInvocation set ⟨v, false, c⟩ fs
    let strict := runInvocation set' ⟨v', true, c⟩ fs
    (strict.exit = 0 →
      lenient.exit = 0 ∧ lenient.output = strict.output ∧ lenient.files = strict.files) ∧
    ((∀ name ∈ c.behaviorNames, ∀ r, fs.reading name = .ok r → r.stop = none) →
      lenient.exit = strict.exit ∧ lenient.output = strict.output ∧
        lenient.files = strict.files) ∧
    ((∃ name ∈ c.behaviorNames, ∃ r, fs.reading name = .ok r ∧ r.stop ≠ none) →
      strict.exit = 1 ∧ strict.output = "" ∧ strict.files = fs) ∧
    ∀ words, Invocation.ofArguments? words = some ⟨v, false, c⟩ →
      Invocation.ofArguments? ("--strict" :: words) = some ⟨v, true, c⟩ := by
  intro lenient strict
  have hlenient : (lenient.exit, lenient.output, lenient.files) = settled fs (c.product false fs) :=
    runInvocation_settled set ⟨v, false, c⟩ fs
  have hstrict : (strict.exit, strict.output, strict.files) = settled fs (c.product true fs) :=
    runInvocation_settled set' ⟨v', true, c⟩ fs
  have hsame (hproduct : c.product true fs = c.product false fs) :
      lenient.exit = strict.exit ∧ lenient.output = strict.output ∧
        lenient.files = strict.files := by
    rw [hproduct, ← hlenient] at hstrict
    simpa using hstrict.symm
  refine ⟨fun hexit => ?_, fun hcomplete => ?_, ?_, fun words h => ?_⟩
  · have hzero : (settled fs (c.product true fs)).1 = 0 := by rw [← hstrict, hexit]
    obtain ⟨product, hproduct, -⟩ := (settled_exit fs _).1.1 hzero
    rw [← hexit]
    exact hsame (hproduct.trans (Command.product_false_of_true hproduct).symm)
  · refine hsame (Command.product_congr fun name hname => ?_)
    exact Files.behavior_of_complete (hcomplete name hname) true
  · rintro ⟨name, hname, r, hr, hstop⟩
    obtain ⟨e, he, hproduct⟩ := Command.product_true_of_stop hname hr hstop
    rw [hproduct, settled, Failure.exitCode_of_ne he] at hstrict
    simpa using hstrict
  · exact Invocation.ofArguments?_strict h rfl

/-- Two listings: `p` is the same for both runs, and `q` has a value too many. -/
theorem run_strict_disasm :
    let fs : Files :=
      ⟨[(["p"], .file "8 0 0".toUTF8.toList), (["q"], .file "8 0 0 5".toUTF8.toList)]⟩
    let run (strict : Bool) (name : String) := runInvocation none ⟨0, strict, .disasm name⟩ fs
    (run false "p").output = (run true "p").output ∧
      (run true "q").exit = 1 ∧ (run true "q").output = "" := by
  intro fs run
  have hp : fs.reading "p" = .ok ⟨[⟨8, 0, 0⟩], none⟩ := by
    rw [Files.reading_of_plain (by decide) rfl]
    decide +kernel
  have hq : fs.reading "q" = .ok ⟨[⟨8, 0, 0⟩], some (.incomplete 1 1)⟩ := by
    rw [Files.reading_of_plain (by decide) rfl]
    decide +kernel
  constructor
  · obtain ⟨-, hsame, -⟩ := run_strict none none fs 0 0 (.disasm "p")
    refine (hsame fun name hname r hr => ?_).2.1
    rw [List.mem_singleton.1 hname, hp] at hr
    cases hr
    rfl
  · obtain ⟨-, -, hrefused, -⟩ := run_strict none none fs 0 0 (.disasm "q")
    obtain ⟨hexit, houtput, -⟩ :=
      hrefused ⟨"q", List.mem_singleton.2 rfl, _, hq, Option.some_ne_none _⟩
    exact ⟨hexit, houtput⟩

end CommandLine

end SaveRam
