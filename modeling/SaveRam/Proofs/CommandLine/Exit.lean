import SaveRam.Proofs.Command.Product
import SaveRam.Proofs.Search.Failure

/-!
# Which commands succeed

Whether a command succeeds can be told without running it.
`Command.Succeeds` says when: from the numbers of the request, from which files
there are, and from the triples in the behavior files one by one.  It looks
neither at the snapshot's content nor at what any pass does.  `Command.Overlong` is
a dump for which there would have to be more windows than there is room for,
whatever the size of the memory at hand.

A command that is not overlong succeeds if it comes to a product and what is to be
stored can be stored (`Command.exists_product_iff`, one command after the other); a
run has the exit code 0 in this case and 1 otherwise, and an overlong dump breaks off
(`CommandLine.settled_exit`).  `CommandLine.run_exit` is the statement about runs.
-/

namespace SaveRam

/-- What is wanted of the end of a computation is wanted of its second part. -/
theorem Except.exists_bind_eq_ok_iff {ε α β : Type} {x : Except ε α} {f : α → Except ε β}
    {P : β → Prop} :
    (∃ b, x >>= f = .ok b ∧ P b) ↔ ∃ a, x = .ok a ∧ ∃ b, f a = .ok b ∧ P b := by
  constructor
  · rintro ⟨b, hb, hP⟩
    obtain ⟨a, ha, hf⟩ := bind_eq_ok_iff.1 hb
    exact ⟨a, ha, b, hf, hP⟩
  · rintro ⟨a, ha, b, hf, hP⟩
    exact ⟨b, bind_eq_ok_iff.2 ⟨a, ha, hf⟩, hP⟩

/-! ## Conditions on the files -/

namespace Files

variable {fs : Files} {name : String}

/-- There is a file to read under the name. -/
def Readable (fs : Files) (name : String) : Prop := ∃ content, fs.read name = .ok content

/-- A behavior file that is a text and, for strict use, is taken in completely. -/
def Usable (strict : Bool) (fs : Files) (name : String) : Prop :=
  ∃ r, fs.reading name = .ok r ∧ (strict = true → r.stop = none)

/-- A behavior file whose triples can all be carried out. -/
def Runnable (fs : Files) (name : String) : Prop :=
  ∃ r, fs.reading name = .ok r ∧ ∀ t ∈ r.program, t.WellFormed

theorem runnable_iff {r : Reading} (h : fs.reading name = .ok r) :
    fs.Runnable name ↔ r.program.WellFormed := by
  constructor
  · rintro ⟨r', hr', hrun⟩
    obtain rfl : r' = r := Except.ok.inj (hr'.symm.trans h)
    exact hrun
  · intro hrun
    exact ⟨r, h, hrun⟩

theorem image_eq_ok_iff {m : Memory} :
    fs.image name = .ok m ↔ ∃ content, fs.read name = .ok content ∧ m = .ofBytes content := by
  unfold image
  cases fs.read name <;> simp [eq_comm]

theorem exists_image_iff : (∃ m, fs.image name = .ok m) ↔ fs.Readable name := by
  unfold image Readable
  cases fs.read name <;> simp

/-- The program of a usable behavior file. -/
theorem behavior_eq_ok_iff {strict : Bool} {p : Program} :
    fs.behavior strict name = .ok p ↔
      ∃ r, fs.reading name = .ok r ∧ (strict = true → r.stop = none) ∧ r.program = p := by
  unfold behavior
  cases fs.reading name with
  | error e => simp
  | ok r =>
    cases hstop : r.stop <;> cases strict <;> simp [hstop]

theorem exists_behavior_iff {strict : Bool} :
    (∃ p, fs.behavior strict name = .ok p) ↔ fs.Usable strict name := by
  simp only [behavior_eq_ok_iff]
  constructor
  · rintro ⟨_, r, hr, hstop, rfl⟩
    exact ⟨r, hr, hstop⟩
  · rintro ⟨r, hr, hstop⟩
    exact ⟨_, r, hr, hstop, rfl⟩

/-! ## Reading never breaks off -/

theorem image_ne_dumping (fs : Files) (name : String) (e : Dump.Error) :
    fs.image name ≠ .error (.dumping e) := by
  unfold image
  split <;> exact nofun

theorem behavior_ne_dumping (strict : Bool) (fs : Files) (name : String) (e : Dump.Error) :
    fs.behavior strict name ≠ .error (.dumping e) := by
  unfold behavior
  split
  · exact nofun
  · split <;> exact nofun

end Files

/-! ## Products -/

namespace Command

/-- A product with nothing to store, or with a name to store it under. -/
def Product.Storable (fs : Files) (product : Product) : Prop :=
  ∀ stored ∈ product.stored, fs.Creatable stored.1

/-- A dump that gets to its passes and asks for too many of them. -/
def Overlong (strict : Bool) (fs : Files) : Command → Prop
  | .dump snapshot program iterations _ =>
    (fs.Readable snapshot ∧ fs.Usable strict program) ∧ ¬ Dump.Fits iterations.toNat
  | _ => False

/-- The condition for a command to succeed, if it is not overlong. -/
def Succeeds (strict : Bool) (fs : Files) : Command → Prop
  | .search snapshot seedProgram probeProgram rounds passes =>
    1 ≤ passes ∧ fs.Readable snapshot ∧
      (fs.Usable strict seedProgram ∧ fs.Usable strict probeProgram) ∧
      (rounds = 0 ∨ fs.Runnable seedProgram ∧ fs.Runnable probeProgram)
  | .dump snapshot program iterations output =>
    fs.Readable snapshot ∧ fs.Usable strict program ∧
      (iterations = 0 ∨ fs.Runnable program) ∧ fs.Creatable output
  | .disasm program => fs.Usable strict program

variable {strict : Bool} {fs : Files}

/-- A search comes to a product when it has no round or both programs are
well-formed.  There is nothing to store. -/
theorem exists_product_of_search_iff (s : Search) :
    (∃ product, s.product = .ok product ∧ product.Storable fs) ↔
      s.bounds.rounds = 0 ∨ s.WellFormed := by
  rw [← Search.exists_run_iff, Search.product]
  cases s.run.2 <;> simp [Product.Storable]

/-- A dump comes to a product if there is room for its windows and its run succeeds:
the text of the windows around its passes, and the image after the last one. -/
theorem product_of_dump_eq_ok_iff {m : Machine} {n : Nat} {output : String} {product : Product} :
    m.product n output = .ok product ↔
      Dump.Fits n ∧ (m.run n).2 = none ∧
        product = ⟨Dump.text (m.windows n), some (output, (m.run n).1.memory)⟩ := by
  rw [Machine.product]
  by_cases hn : Dump.Fits n
  · rw [Machine.dump_eq_run m hn, and_iff_right hn]
    cases (m.run n).2 <;> simp [eq_comm]
  · rw [Machine.dump_of_not_fits hn]
    simp [hn]

/-- A dump breaks off exactly if there is no room for its windows. -/
theorem product_of_dump_eq_tooLong_iff {m : Machine} {n : Nat} {output : String} :
    m.product n output = .error (.dumping .tooLong) ↔ ¬ Dump.Fits n := by
  rw [← Machine.dump_eq_tooLong_iff (m := m), Machine.product]
  rcases m.dump n with ⟨_, _ | _⟩ <;> simp

theorem exists_searchProduct_iff {snapshot seedProgram probeProgram : String}
    {rounds passes : UInt32} :
    (∃ product,
        searchProduct strict snapshot seedProgram probeProgram rounds passes fs = .ok product ∧
          product.Storable fs) ↔
      (search snapshot seedProgram probeProgram rounds passes).Succeeds strict fs := by
  unfold searchProduct Bounds.make
  by_cases hpasses : passes = 0
  · rw [dif_neg (not_not_intro hpasses)]
    refine iff_of_false (fun ⟨_, h, _⟩ => nomatch h) fun ⟨h, _⟩ => ?_
    rw [hpasses] at h
    exact absurd h (by decide)
  · rw [dif_pos hpasses]
    simp only [Except.exists_bind_eq_ok_iff, exists_product_of_search_iff,
      Files.behavior_eq_ok_iff]
    constructor
    · rintro ⟨memory, hmemory, _, ⟨r, hr, hstop, rfl⟩, _, ⟨r', hr', hstop', rfl⟩, hrun⟩
      refine ⟨?_, Files.exists_image_iff.1 ⟨memory, hmemory⟩, ⟨⟨r, hr, hstop⟩, r', hr', hstop'⟩,
        hrun.imp_right fun h => ?_⟩
      · rw [UInt32.le_iff_toNat_le]
        exact Nat.pos_of_ne_zero fun h => hpasses (UInt32.toNat_inj.1 h)
      · exact ⟨(Files.runnable_iff hr).2 h.1, (Files.runnable_iff hr').2 h.2⟩
    · rintro ⟨-, hread, ⟨⟨r, hr, hstop⟩, r', hr', hstop'⟩, hrun⟩
      obtain ⟨memory, hmemory⟩ := Files.exists_image_iff.2 hread
      refine ⟨memory, hmemory, _, ⟨r, hr, hstop, rfl⟩, _, ⟨r', hr', hstop', rfl⟩,
        hrun.imp_right fun h => ?_⟩
      exact ⟨(Files.runnable_iff hr).1 h.1, (Files.runnable_iff hr').1 h.2⟩

section Dump

variable {snapshot program : String} {iterations : UInt64} {output : String} {product : Product}

/-- What a request for a dump comes to. -/
theorem dumpProduct_eq_ok_iff :
    dumpProduct strict snapshot program iterations output fs = .ok product ↔
      ∃ content r, fs.read snapshot = .ok content ∧ fs.reading program = .ok r ∧
        (strict = true → r.stop = none) ∧
        (Machine.start (.ofBytes content) r.program).product iterations.toNat output =
          .ok product := by
  unfold dumpProduct
  simp only [Except.bind_eq_ok_iff, Files.image_eq_ok_iff, Files.behavior_eq_ok_iff]
  constructor
  · rintro ⟨_, ⟨content, hcontent, rfl⟩, _, ⟨r, hr, hstop, rfl⟩, hproduct⟩
    exact ⟨content, r, hcontent, hr, hstop, hproduct⟩
  · rintro ⟨content, r, hcontent, hr, hstop, hproduct⟩
    exact ⟨_, ⟨content, hcontent, rfl⟩, _, ⟨r, hr, hstop, rfl⟩, hproduct⟩

/-- A dump comes to a product whether or not there is a place for its image. -/
theorem exists_dumpProduct_eq_ok_iff :
    (∃ product, dumpProduct strict snapshot program iterations output fs = .ok product) ↔
      (fs.Readable snapshot ∧ fs.Usable strict program ∧
        (iterations = 0 ∨ fs.Runnable program)) ∧ Dump.Fits iterations.toNat := by
  have hzero : iterations.toNat = 0 ↔ iterations = 0 := UInt64.toNat_inj (b := 0)
  simp only [dumpProduct_eq_ok_iff, product_of_dump_eq_ok_iff, Machine.run_eq_none_iff, hzero]
  constructor
  · rintro ⟨_, content, r, hcontent, hr, hstop, hfits, hrun, -⟩
    exact ⟨⟨⟨content, hcontent⟩, ⟨r, hr, hstop⟩, hrun.imp_right (Files.runnable_iff hr).2⟩, hfits⟩
  · rintro ⟨⟨⟨content, hcontent⟩, ⟨r, hr, hstop⟩, hrun⟩, hfits⟩
    exact ⟨_, content, r, hcontent, hr, hstop, hfits, hrun.imp_right (Files.runnable_iff hr).1,
      rfl⟩

/-- The image of a dump is to be stored as its output. -/
theorem storable_of_dumpProduct
    (h : dumpProduct strict snapshot program iterations output fs = .ok product) :
    product.Storable fs ↔ fs.Creatable output := by
  obtain ⟨content, r, -, -, -, hproduct⟩ := dumpProduct_eq_ok_iff.1 h
  obtain ⟨-, -, rfl⟩ := product_of_dump_eq_ok_iff.1 hproduct
  simp [Product.Storable]

theorem exists_dumpProduct_iff :
    (∃ product, dumpProduct strict snapshot program iterations output fs = .ok product ∧
        product.Storable fs) ↔
      (dump snapshot program iterations output).Succeeds strict fs ∧
        ¬ (dump snapshot program iterations output).Overlong strict fs := by
  constructor
  · rintro ⟨product, hproduct, hstorable⟩
    obtain ⟨⟨hread, husable, hrun⟩, hfits⟩ := exists_dumpProduct_eq_ok_iff.1 ⟨product, hproduct⟩
    exact ⟨⟨hread, husable, hrun, (storable_of_dumpProduct hproduct).1 hstorable⟩,
      fun hlong => hlong.2 hfits⟩
  · rintro ⟨⟨hread, husable, hrun, hcreatable⟩, hlong⟩
    have hfits : Dump.Fits iterations.toNat := by
      by_contra hfits
      exact hlong ⟨⟨hread, husable⟩, hfits⟩
    obtain ⟨product, hproduct⟩ : ∃ product,
        dumpProduct strict snapshot program iterations output fs = .ok product :=
      exists_dumpProduct_eq_ok_iff.2 ⟨⟨hread, husable, hrun⟩, hfits⟩
    exact ⟨product, hproduct, (storable_of_dumpProduct hproduct).2 hcreatable⟩

end Dump

theorem exists_disasmProduct_iff {program : String} :
    (∃ product, disasmProduct strict program fs = .ok product ∧ product.Storable fs) ↔
      (disasm program).Succeeds strict fs := by
  unfold disasmProduct
  simp only [Except.exists_bind_eq_ok_iff, Files.behavior_eq_ok_iff]
  constructor
  · rintro ⟨_, ⟨r, hr, hstop, -⟩, -⟩
    exact ⟨r, hr, hstop⟩
  · rintro ⟨r, hr, hstop⟩
    exact ⟨_, ⟨r, hr, hstop, rfl⟩, _, rfl, by simp [Product.Storable]⟩

/-- A command that is not overlong succeeds if it comes to a product that can be
stored. -/
theorem exists_product_iff (c : Command) :
    (∃ product, c.product strict fs = .ok product ∧ product.Storable fs) ↔
      c.Succeeds strict fs ∧ ¬ c.Overlong strict fs := by
  cases c with
  | search => exact exists_searchProduct_iff.trans (and_iff_left id).symm
  | dump => exact exists_dumpProduct_iff
  | disasm => exact exists_disasmProduct_iff.trans (and_iff_left id).symm

/-! ## Dumps that are too long -/

theorem searchProduct_ne_tooLong {snapshot seedProgram probeProgram : String}
    {rounds passes : UInt32} :
    searchProduct strict snapshot seedProgram probeProgram rounds passes fs ≠
      .error (.dumping .tooLong) := by
  unfold searchProduct
  intro h
  split at h
  · cases h
  · simp only [Except.bind_eq_error_iff, Files.image_ne_dumping, Files.behavior_ne_dumping,
      false_or] at h
    obtain ⟨memory, -, seed, -, probe, -, hsearch⟩ := h
    rw [Search.product] at hsearch
    split at hsearch <;> cases hsearch

theorem dumpProduct_eq_tooLong_iff {snapshot program : String} {iterations : UInt64}
    {output : String} :
    dumpProduct strict snapshot program iterations output fs = .error (.dumping .tooLong) ↔
      (dump snapshot program iterations output).Overlong strict fs := by
  unfold dumpProduct Overlong
  simp only [Except.bind_eq_error_iff, Files.image_ne_dumping, Files.behavior_ne_dumping,
    product_of_dump_eq_tooLong_iff, false_or, exists_and_right, and_assoc,
    Files.exists_image_iff, Files.exists_behavior_iff]

theorem disasmProduct_ne_tooLong {program : String} :
    disasmProduct strict program fs ≠ .error (.dumping .tooLong) := by
  unfold disasmProduct
  intro h
  simp [Except.bind_eq_error_iff, Files.behavior_ne_dumping] at h

/-- Only a dump that is too long breaks off. -/
theorem product_eq_tooLong_iff (c : Command) :
    c.product strict fs = .error (.dumping .tooLong) ↔ c.Overlong strict fs := by
  cases c with
  | search => exact iff_of_false searchProduct_ne_tooLong id
  | dump => exact dumpProduct_eq_tooLong_iff
  | disasm => exact iff_of_false disasmProduct_ne_tooLong id

end Command

/-! ## Exit codes -/

namespace CommandLine

/-- A product that can be stored ends in the exit code 0, a dump that is too long in
101, and everything else in 1. -/
theorem settled_exit (fs : Files) (p : Except Failure Command.Product) :
    ((settled fs p).1 = 0 ↔ ∃ product, p = .ok product ∧ product.Storable fs) ∧
      ((settled fs p).1 = 101 ↔ p = .error (.dumping .tooLong)) ∧
      ((settled fs p).1 = 0 ∨ (settled fs p).1 = 1 ∨ (settled fs p).1 = 101) := by
  unfold settled
  rcases p with e | ⟨text, _ | ⟨name, m⟩⟩
  · by_cases he : e = .dumping .tooLong
    · subst he
      simp [Failure.exitCode, Failure.breaksOff]
    · simp [Failure.exitCode_of_ne he, he]
  · simp [Command.Product.Storable]
  · have hwrite : (∃ fs', fs.write name m.toBytes = .ok fs') ↔ fs.Creatable name :=
      Files.exists_write_iff m.toBytes
    simp only [Except.ok.injEq, exists_eq_left', Command.Product.Storable, Option.mem_def,
      Option.some.injEq, forall_eq', ← hwrite]
    cases fs.write name m.toBytes <;> simp

/-- The exit code of a run is one of three, and what it is can be told from the command
and the files. -/
theorem runInvocation_exit (set : Option Threshold) (fs : Files) (i : Invocation) :
    let exit := (runInvocation set i fs).exit
    (exit = 0 ↔ i.command.Succeeds i.strict fs ∧ ¬ i.command.Overlong i.strict fs) ∧
      (exit = 101 ↔ i.command.Overlong i.strict fs) ∧ (exit = 0 ∨ exit = 1 ∨ exit = 101) := by
  intro exit
  have hexit : exit = (settled fs (i.command.product i.strict fs)).1 :=
    congrArg Prod.fst (runInvocation_settled set i fs)
  rw [← Command.exists_product_iff, ← Command.product_eq_tooLong_iff, hexit]
  exact settled_exit fs _

/-- The exit code of a run is 0 if the conditions on its command are met, and 1 if
they are not.  Only a dump of so many passes that there cannot be room for its windows
ends in another way: it has the exit code 101, whatever its program would do. -/
theorem run_exit (set : Option Threshold) (fs : Files) (i : Invocation) :
    let exit := (runInvocation set i fs).exit
    (¬ i.command.Overlong i.strict fs →
      (exit = 0 ↔ i.command.Succeeds i.strict fs) ∧
        (exit = 1 ↔ ¬ i.command.Succeeds i.strict fs)) ∧
      (exit = 101 ↔ i.command.Overlong i.strict fs) := by
  have hcases := runInvocation_exit set fs i
  generalize (runInvocation set i fs).exit = exit at hcases ⊢
  obtain ⟨hzero, hbroken, hcodes⟩ := hcases
  refine ⟨fun hlong => ?_, hbroken⟩
  rw [and_iff_left hlong] at hzero
  refine ⟨hzero, ?_⟩
  rw [← hzero]
  rcases hcodes with hcode | hcode | hcode
  · simp [hcode]
  · simp [hcode]
  · exact absurd (hbroken.1 hcode) hlong

/-- Dumps of a program that stores a byte outside the save memory: one ends well as no
pass is asked for, one fails in its first pass, and one is too long. -/
theorem run_exit_unmapped :
    let fs : Files := ⟨[(["s"], .file [3]), (["p"], .file "1 49152 7".toUTF8.toList)]⟩
    let exit (n : UInt64) := (runInvocation none ⟨0, false, .dump "s" "p" n "o"⟩ fs).exit
    exit 0 = 0 ∧ exit 1 = 1 ∧ exit 0x1000000000000000 = 101 := by
  intro fs exit
  have hread : fs.Readable "s" := ⟨[3], (Files.read_iff_of_plain (by decide)).2 rfl⟩
  have hreading : fs.reading "p" = .ok ⟨[⟨1, 0xC000, 7⟩], none⟩ := by
    rw [Files.reading_of_plain (by decide) rfl]
    decide +kernel
  have husable : fs.Usable false "p" := ⟨_, hreading, fun _ => rfl⟩
  have hcreatable : fs.Creatable "o" := (Files.creatable_iff_of_plain (by decide)).2 (by decide)
  have hshort (n : UInt64) (hn : n.toNat + 1 < 2 ^ 59) :=
    (run_exit none fs ⟨0, false, .dump "s" "p" n "o"⟩).1 fun hlong =>
      hlong.2 (Dump.fits_of_lt hn)
  refine ⟨?_, ?_, ?_⟩
  · exact (hshort 0 (by decide)).1.2 ⟨hread, husable, .inl rfl, hcreatable⟩
  · refine (hshort 1 (by decide)).2.2 fun h => ?_
    obtain ⟨-, -, hpasses | hrun, -⟩ := h
    · exact absurd hpasses (by decide)
    · exact absurd ((Files.runnable_iff hreading).1 hrun) (by decide)
  · exact (run_exit none fs _).2.2 ⟨⟨hread, husable⟩, by decide⟩

end CommandLine

end SaveRam
