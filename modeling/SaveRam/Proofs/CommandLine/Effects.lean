import SaveRam.Proofs.CommandLine.Resume

/-!
# What a run changes

A run prints and stores only after everything that can go wrong has been tried, the
output of a dump excepted.  A command that names no output comes to nothing or to a
text (`Command.product_cases_of_no_output`), and a dump to nothing or to a text and an
image (`Command.product_cases_of_dump`).  `CommandLine.run_effects` follows them to the
files: a run that fails leaves all files as they were, and one that succeeds changes the
output of a dump only.

`Files.ChangedAt` is the change that a dump makes, and `Command.OutputRefused` is the
one failure that comes after something was printed.  Neither asks whether the output
is one of the files that were read.
-/

namespace SaveRam

namespace Files

variable {fs fs' : Files} {name : String} {content : List UInt8}

/-- A machine that is started on the image in a snapshot file and runs the program in a
behavior file. -/
def Starts (fs : Files) (snapshot program : String) (m : Machine) : Prop :=
  ∃ content r, fs.read snapshot = .ok content ∧ fs.reading program = .ok r ∧
    m = .start (.ofBytes content) r.program

/-- Two states of the files that differ in one file only, which now has the given
content.  It was there before or it is new. -/
def ChangedAt (fs : Files) (name : String) (content : List UInt8) (fs' : Files) : Prop :=
  ∃ p, fs.Leads name p ∧ fs.node? p ≠ some .directory ∧ fs'.node? p = some (.file content) ∧
    ∀ q, q ≠ p → fs'.node? q = fs.node? q

theorem changedAt_of_write (h : fs.write name content = .ok fs') :
    fs.ChangedAt name content fs' := by
  obtain ⟨p, ⟨hp, hfree⟩, rfl⟩ := write_eq_ok_iff.1 h
  refine ⟨p, hp, hfree, ?_, fun q hq => ?_⟩
  · rw [node?_put hfree, if_pos rfl]
  · rw [node?_put hfree, if_neg hq]

end Files

namespace Command

/-- The name under which a command stores its image. -/
def output? : Command → Option String
  | .dump _ _ _ output => some output
  | _ => none

/-- A dump for which nothing is missing but a place for its image. -/
def OutputRefused (strict : Bool) (fs : Files) : Command → Prop
  | .dump snapshot program iterations output =>
    ((fs.Readable snapshot ∧ fs.Usable strict program ∧
      (iterations = 0 ∨ fs.Runnable program)) ∧ Dump.Fits iterations.toNat) ∧
      ¬ fs.Creatable output
  | _ => False

variable {strict : Bool} {fs : Files}

theorem stored_of_searchProduct {snapshot seedProgram probeProgram : String}
    {rounds passes : UInt32} {product : Product}
    (h : searchProduct strict snapshot seedProgram probeProgram rounds passes fs = .ok product) :
    product.stored = none := by
  unfold searchProduct at h
  cases hbounds : Bounds.make rounds passes with
  | error e =>
    rw [hbounds] at h
    cases h
  | ok bounds =>
    simp only [hbounds, Except.bind_eq_ok_iff] at h
    obtain ⟨memory, -, seed, -, probe, -, hproduct⟩ := h
    rw [Search.product] at hproduct
    split at hproduct
    · cases hproduct
    · cases hproduct
      rfl

theorem stored_of_disasmProduct {program : String} {product : Product}
    (h : disasmProduct strict program fs = .ok product) : product.stored = none := by
  obtain ⟨behavior, -, hproduct⟩ := Except.bind_eq_ok_iff.1 h
  cases hproduct
  rfl

/-- A command that names no output comes to nothing or to a text. -/
theorem product_cases_of_no_output {c : Command} (h : c.output? = none) :
    (∃ e, c.product strict fs = .error e) ∨ ∃ text, c.product strict fs = .ok ⟨text, none⟩ := by
  cases hproduct : c.product strict fs with
  | error e => exact .inl ⟨e, rfl⟩
  | ok product =>
    right
    obtain ⟨text, stored⟩ := product
    have hstored : stored = none := by
      cases c with
      | search => exact stored_of_searchProduct hproduct
      | dump => cases h
      | disasm => exact stored_of_disasmProduct hproduct
    exact ⟨text, by rw [hstored]⟩

/-- A dump comes to nothing, and then something else than a place for its image is
missing; or it comes to the windows and the image of its run. -/
theorem product_cases_of_dump {snapshot program : String} {iterations : UInt64} {output : String} :
    (∃ e, dumpProduct strict snapshot program iterations output fs = .error e ∧
      ¬ (dump snapshot program iterations output).OutputRefused strict fs) ∨
    ∃ m, fs.Starts snapshot program m ∧ (m.run iterations.toNat).2 = none ∧
      ((dump snapshot program iterations output).OutputRefused strict fs ↔
        ¬ fs.Creatable output) ∧
      dumpProduct strict snapshot program iterations output fs =
        .ok ⟨Dump.text (m.windows iterations.toNat),
          some (output, (m.run iterations.toNat).1.memory)⟩ := by
  cases hproduct : dumpProduct strict snapshot program iterations output fs with
  | error e =>
    refine .inl ⟨e, rfl, fun hrefused => ?_⟩
    obtain ⟨product, hok⟩ : ∃ product,
        dumpProduct strict snapshot program iterations output fs = .ok product :=
      exists_dumpProduct_eq_ok_iff.2 hrefused.1
    rw [hok] at hproduct
    cases hproduct
  | ok product =>
    obtain ⟨content, r, hcontent, hr, -, hdump⟩ := dumpProduct_eq_ok_iff.1 hproduct
    obtain ⟨-, hrun, rfl⟩ := product_of_dump_eq_ok_iff.1 hdump
    exact .inr ⟨_, ⟨content, r, hcontent, hr, rfl⟩, hrun,
      and_iff_right (exists_dumpProduct_eq_ok_iff.1 ⟨_, hproduct⟩), rfl⟩

end Command

namespace CommandLine

variable {strict : Bool} {fs : Files} {r : UInt32 × String × Files}

/-- A command that names no output changes no file, and prints nothing if it fails. -/
theorem settled_of_no_output {c : Command} (h : r = settled fs (c.product strict fs))
    (hname : c.output? = none) : r.2.2 = fs ∧ (r.1 ≠ 0 → r.2.1 = "") := by
  rcases Command.product_cases_of_no_output hname with ⟨e, hproduct⟩ | ⟨text, hproduct⟩
  · rw [h, hproduct]
    exact ⟨rfl, fun _ => rfl⟩
  · rw [h, hproduct]
    exact ⟨rfl, fun hfailed => absurd rfl hfailed⟩

/-- What a dump that fails leaves behind, and what one that succeeds. -/
theorem settled_of_dump {snapshot program : String} {n : UInt64} {output : String}
    (h : r = settled fs ((Command.dump snapshot program n output).product strict fs)) :
    (r.1 ≠ 0 →
      r.2.2 = fs ∧
        (¬ (Command.dump snapshot program n output).OutputRefused strict fs → r.2.1 = "") ∧
        ((Command.dump snapshot program n output).OutputRefused strict fs →
          ∃ m, fs.Starts snapshot program m ∧ (m.run n.toNat).2 = none ∧
            r.2.1 = Dump.text (m.windows n.toNat))) ∧
    (r.1 = 0 → ∃ m, fs.Starts snapshot program m ∧ (m.run n.toNat).2 = none ∧
      fs.ChangedAt output (m.run n.toNat).1.memory.toBytes r.2.2 ∧
      r.2.2.read output = .ok (m.run n.toNat).1.memory.toBytes) := by
  rw [Command.product] at h
  rcases Command.product_cases_of_dump with
    ⟨e, hproduct, hrefused⟩ | ⟨m, hstarts, hrun, hrefused, hproduct⟩
  · rw [hproduct, settled] at h
    rw [h]
    refine ⟨fun _ => ⟨rfl, fun _ => rfl, fun hstored => absurd hstored hrefused⟩, ?_⟩
    exact fun hzero => absurd hzero e.exitCode_ne_zero
  · rw [hproduct, settled] at h
    -- The text is printed before the image is stored, so only storing is left to fail.
    cases hwrite : fs.write output (m.run n.toNat).1.memory.toBytes with
    | error e =>
      rw [hwrite] at h
      rw [h]
      have hrefused : (Command.dump snapshot program n output).OutputRefused strict fs := by
        refine hrefused.2 fun hcreatable => ?_
        obtain ⟨fs', hok⟩ := (Files.exists_write_iff _).2 hcreatable
        rw [hwrite] at hok
        cases hok
      refine ⟨fun _ => ⟨rfl, fun hstored => absurd hrefused hstored, fun _ => ?_⟩, ?_⟩
      · exact ⟨m, hstarts, hrun, rfl⟩
      · exact fun (hzero : (1 : UInt32) = 0) => absurd hzero (by decide)
    | ok files =>
      rw [hwrite] at h
      rw [h]
      refine ⟨fun hfailed => absurd rfl hfailed, fun _ => ?_⟩
      exact ⟨m, hstarts, hrun, Files.changedAt_of_write hwrite, Files.read_of_write hwrite⟩

/-- A run that fails leaves all files as they were, also one that breaks off.  It prints
nothing, except for a dump for which only a place for its image is missing: that one
has printed all its windows.  A run that succeeds changes no file, except for a dump:
that one leaves the image after its passes in its output, and changes no other file. -/
theorem run_effects (set : Option Threshold) (fs : Files) (i : Invocation) :
    let result := runInvocation set i fs
    (result.exit = 0 ∨ result.exit = 1 ∨
      result.exit = 101 ∧ i.command.Overlong i.strict fs) ∧
    (result.exit ≠ 0 →
      result.files = fs ∧
        (¬ i.command.OutputRefused i.strict fs → result.output = "") ∧
        ∀ snapshot program n output, i.command = .dump snapshot program n output →
          i.command.OutputRefused i.strict fs →
            ∃ m, fs.Starts snapshot program m ∧ (m.run n.toNat).2 = none ∧
              result.output = Dump.text (m.windows n.toNat)) ∧
    (result.exit = 0 →
      (i.command.output? = none → result.files = fs) ∧
        ∀ snapshot program n output, i.command = .dump snapshot program n output →
          ∃ m, fs.Starts snapshot program m ∧ (m.run n.toNat).2 = none ∧
            fs.ChangedAt output (m.run n.toNat).1.memory.toBytes result.files ∧
            result.files.read output = .ok (m.run n.toNat).1.memory.toBytes) := by
  have hsettled := runInvocation_settled set i fs
  obtain ⟨-, hbroken, hcodes⟩ := runInvocation_exit set fs i
  refine ⟨?_, ?_⟩
  · rcases hcodes with hcode | hcode | hcode
    · exact .inl hcode
    · exact .inr (.inl hcode)
    · exact .inr (.inr ⟨hcode, hbroken.1 hcode⟩)
  · obtain ⟨v, strict, c⟩ := i
    cases c with
    | dump snapshot program n output =>
      obtain ⟨hfailed, hended⟩ := settled_of_dump hsettled
      refine ⟨fun hexit => ?_, fun hzero => ⟨nofun, ?_⟩⟩
      · obtain ⟨hfiles, hquiet, hshown⟩ := hfailed hexit
        refine ⟨hfiles, hquiet, ?_⟩
        rintro _ _ _ _ ⟨⟩
        exact hshown
      · rintro _ _ _ _ ⟨⟩
        exact hended hzero
    | search | disasm =>
      obtain ⟨hfiles, hquiet⟩ := settled_of_no_output hsettled rfl
      exact ⟨fun hexit => ⟨hfiles, fun _ => hquiet hexit, nofun⟩, fun _ => ⟨fun _ => hfiles, nofun⟩⟩

/-- Two dumps of two passes: one into a directory, and one over the snapshot that it
read. -/
theorem run_effects_directory_and_snapshot :
    let fs : Files :=
      ⟨[(["s"], .file [3, 7]), (["p"], .file "2 42960 0".toUTF8.toList), (["d"], .directory)]⟩
    let dump (output : String) := runInvocation none ⟨0, false, .dump "s" "p" 2 output⟩ fs
    ((dump "d").exit = 1 ∧ (dump "d").files = fs ∧
        ∃ windows : List Window, windows.length = 3 ∧ (dump "d").output = Dump.text windows) ∧
      (dump "s").exit = 0 ∧
        ∃ content, content.length = 0x2000 ∧ (dump "s").files.read "s" = .ok content := by
  intro fs dump
  have hcontent : fs.read "s" = .ok [3, 7] := (Files.read_iff_of_plain (by decide)).2 rfl
  have hr : fs.reading "p" = .ok ⟨[⟨2, 0xA7D0, 0⟩], none⟩ := by
    rw [Files.reading_of_plain (by decide) rfl]
    decide +kernel
  have hfits : Dump.Fits (2 : UInt64).toNat := Dump.fits_of_lt (by decide)
  constructor
  · obtain ⟨hcodes, hfailed, hended⟩ := run_effects none fs ⟨0, false, .dump "s" "p" 2 "d"⟩
    have hdirectory : ¬ fs.Creatable "d" := fun h =>
      (Files.creatable_iff_of_plain (by decide)).1 h rfl
    have hrefused : (Command.dump "s" "p" 2 "d").OutputRefused false fs :=
      ⟨⟨⟨⟨_, hcontent⟩, ⟨_, hr, fun _ => rfl⟩, .inr ⟨_, hr, by decide⟩⟩, hfits⟩, hdirectory⟩
    have hexit : (dump "d").exit = 1 := by
      rcases hcodes with hzero | hone | ⟨-, hlong⟩
      · obtain ⟨m, -, -, ⟨p, hp, hfree, -⟩, -⟩ := (hended hzero).2 _ _ _ _ rfl
        exact absurd ⟨p, hp, hfree⟩ hdirectory
      · exact hone
      · exact absurd hfits hlong.2
    obtain ⟨hfiles, -, hshown⟩ := hfailed (by rw [hexit]; decide)
    obtain ⟨m, -, -, houtput⟩ := hshown _ _ _ _ rfl hrefused
    exact ⟨hexit, hfiles, _, m.length_windows 2, houtput⟩
  · obtain ⟨-, -, hended⟩ := run_effects none fs ⟨0, false, .dump "s" "p" 2 "s"⟩
    have hexit : (dump "s").exit = 0 :=
      (runInvocation_dump none 0 false (by rw [Files.image, hcontent]) hr (fun _ => rfl)
        (by decide) (Files.creatable_of_read hcontent) hfits).1
    obtain ⟨m, -, -, -, hread⟩ := (hended hexit).2 _ _ _ _ rfl
    exact ⟨hexit, _, Memory.length_toBytes _, hread⟩

end CommandLine

end SaveRam
