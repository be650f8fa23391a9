import SaveRam.CommandLine
import SaveRam.Proofs.Dump.Observer
import SaveRam.Proofs.Files.Writing
import SaveRam.Proofs.Search.Observer

/-!
# What a command comes to

A command reads first, computes then, and prints and stores at the end.
`Command.product` is the part of it that matters: from the files alone it
computes a failure, or the text that is going to be printed and, for a dump, the
image that is going to be stored.  There are no effects and no journal in it.

`Command.task_yields` says that carrying out a command is no more than that: the
product is computed from the files as they are at the start, and then it is
delivered (`World.deliver`).  The effects are taken one by one: `Task.Reads` is a
task that looks at the files and changes nothing but the journal, and
`Task.Reads.bind` goes on from it.

For a whole run `CommandLine.settled` gives the exit code, the output and the
files (`CommandLine.runInvocation_settled`).
-/

namespace SaveRam

/-- A computation that goes on ends well if both of its parts do. -/
theorem Except.bind_eq_ok_iff {ε α β : Type} {x : Except ε α} {f : α → Except ε β} {b : β} :
    x >>= f = .ok b ↔ ∃ a, x = .ok a ∧ f a = .ok b := by
  cases x with
  | error e =>
    refine iff_of_false nofun ?_
    rintro ⟨a, ha, -⟩
    cases ha
  | ok a =>
    constructor
    · intro h
      exact ⟨a, rfl, h⟩
    · rintro ⟨_, ⟨⟩, h⟩
      exact h

/-- A computation that goes on fails in its first part or in its second. -/
theorem Except.bind_eq_error_iff {ε α β : Type} {x : Except ε α} {f : α → Except ε β} {e : ε} :
    x >>= f = .error e ↔ x = .error e ∨ ∃ a, x = .ok a ∧ f a = .error e := by
  cases x with
  | error e' =>
    constructor
    · rintro ⟨⟩
      exact .inl rfl
    · rintro (⟨⟨⟩⟩ | ⟨_, ⟨⟩, -⟩)
      rfl
  | ok a =>
    constructor
    · intro h
      exact .inr ⟨a, rfl, h⟩
    · rintro (⟨⟨⟩⟩ | ⟨_, ⟨⟩, h⟩)
      exact h

/-- What a command is going to print, and the image that it is going to store
under a name. -/
structure Command.Product where
  text : String
  stored : Option (String × Memory)

/-! ## What is read -/

/-- The bytes from position `i` on follow those in front. -/
theorem ByteArray.toList_loop_eq (bytes : ByteArray) (i : Nat) (front : List UInt8) :
    ByteArray.toList.loop bytes i front = front.reverse ++ bytes.data.toList.drop i := by
  induction i, front using ByteArray.toList.loop.induct bytes with
  | case1 i front hi ih =>
    have hlength : i < bytes.data.toList.length := by simpa using hi
    have hget : bytes.get! i = bytes.data.toList[i] := by
      rw [Array.getElem_toList]
      exact getElem!_pos bytes.data i hi
    rw [ByteArray.toList.loop, if_pos hi, ih, List.drop_eq_getElem_cons hlength, hget,
      List.reverse_cons, List.append_assoc, List.singleton_append]
  | case2 i front hi =>
    have hlength : bytes.data.toList.length ≤ i := by simpa using hi
    rw [ByteArray.toList.loop, if_neg hi, List.drop_eq_nil_of_le hlength, List.append_nil]

/-- The text whose bytes in UTF-8 are stored is read. -/
theorem textOfBytes_toUTF8 (text : String) : textOfBytes text.toUTF8.toList = .ok text := by
  have hbytes : ByteArray.mk text.toUTF8.toList.toArray = text.toByteArray := by
    rw [ByteArray.toList, ByteArray.toList_loop_eq]
    rfl
  rw [textOfBytes, hbytes, String.fromUTF8?, dif_pos text.isValidUTF8]
  rfl

namespace Files

/-- What reading a behavior file gives. -/
def reading (fs : Files) (name : String) : Except FileError Reading :=
  match fs.read name with
  | .error e => .error e
  | .ok content =>
    match textOfBytes content with
    | .error e => .error e
    | .ok text => .ok (.ofText text)

/-- A file that holds a text is read as that text. -/
theorem reading_of_text {fs : Files} {name text : String}
    (h : fs.read name = .ok text.toUTF8.toList) : fs.reading name = .ok (.ofText text) := by
  rw [reading, h]
  dsimp only
  rw [textOfBytes_toUTF8]

theorem reading_of_plain {fs : Files} {name text : String} (h : Plain name)
    (hnode : fs.node? [name] = some (.file text.toUTF8.toList)) :
    fs.reading name = .ok (.ofText text) :=
  reading_of_text ((read_iff_of_plain h).2 hnode)

/-- The program in a behavior file, for strict or for lenient use. -/
def behavior (strict : Bool) (fs : Files) (name : String) : Except Failure Program :=
  match fs.reading name with
  | .error e => .error (.readingBehavior name e)
  | .ok reading =>
    match reading.stop, strict with
    | some stop, true => .error (.parsing name stop)
    | _, _ => .ok reading.program

/-- The memory in a snapshot file. -/
def image (fs : Files) (name : String) : Except Failure Memory :=
  match fs.read name with
  | .error e => .error (.readingSnapshot name e)
  | .ok content => .ok (.ofBytes content)

end Files

/-! ## What is computed -/

/-- A search that is run comes to the text of its report. -/
def Search.product (s : Search) : Except Failure Command.Product :=
  match s.run.2 with
  | .error e => .error (.searching e)
  | .ok tally => .ok ⟨tally.report.text, none⟩

/-- A dump comes to the text of its windows, and to the image after its last
pass. -/
def Machine.product (m : Machine) (iterations : Nat) (output : String) :
    Except Failure Command.Product :=
  match m.dump iterations with
  | (_, .error e) => .error (.dumping e)
  | (m, .ok windows) => .ok ⟨Dump.text windows, some (output, m.memory)⟩

namespace Command

/-- What a request for a search comes to. -/
def searchProduct (strict : Bool) (snapshot seedProgram probeProgram : String)
    (rounds passes : UInt32) (fs : Files) : Except Failure Product :=
  match Bounds.make rounds passes with
  | .error e => .error (.bounds e)
  | .ok bounds => do
    let memory ← fs.image snapshot
    let seed ← fs.behavior strict seedProgram
    let probe ← fs.behavior strict probeProgram
    (Search.start (.start memory seed) probe bounds).product

/-- What a request for a dump comes to. -/
def dumpProduct (strict : Bool) (snapshot program : String) (iterations : UInt64)
    (output : String) (fs : Files) : Except Failure Product := do
  let memory ← fs.image snapshot
  let behavior ← fs.behavior strict program
  (Machine.start memory behavior).product iterations.toNat output

/-- What a request for a listing comes to. -/
def disasmProduct (strict : Bool) (program : String) (fs : Files) : Except Failure Product := do
  let behavior ← fs.behavior strict program
  .ok ⟨behavior.listing, none⟩

/-- What a command comes to on some files. -/
def product (strict : Bool) (fs : Files) : Command → Except Failure Product
  | .search snapshot seedProgram probeProgram rounds passes =>
    searchProduct strict snapshot seedProgram probeProgram rounds passes fs
  | .dump snapshot program iterations output =>
    dumpProduct strict snapshot program iterations output fs
  | .disasm program => disasmProduct strict program fs

end Command

/-- Prints and stores a product, or passes on the failure. -/
def World.deliver (w : World) : Except Failure Command.Product → Except Failure Unit × World
  | .error f => (.error f, w)
  | .ok ⟨text, none⟩ => (.ok (), { w with output := w.output ++ text })
  | .ok ⟨text, some (name, m)⟩ =>
    match w.files.write name m.toBytes with
    | .error e => (.error (.writingSnapshot name e), { w with output := w.output ++ text })
    | .ok files => (.ok (), { w with output := w.output ++ text, files })

/-! ## Scripts on files -/

/-- What reading a snapshot does, told from the whole content of its file. -/
theorem Snapshot.perform_read (name : String) (w : World) :
    (Snapshot.read name).perform w =
      match w.files.read name with
      | .error e => (.error e, w)
      | .ok content =>
        (.ok (.ofBytes content),
          { w with journal := w.journal ++ [readEntry name content.length] }) := by
  unfold Snapshot.read
  rw [Script.perform_bind]
  simp only [Script.fetchFront, Script.perform]
  cases w.files.read name with
  | error e => rfl
  | ok content =>
    show (Except.ok (Memory.ofBytes (content.take 0x2000)),
      { w with journal :=
          w.journal ++ [readEntry name (content.take 0x2000).length] }) = _
    rw [Memory.ofBytes_take, readEntry_length_take]

/-- What writing a snapshot does. -/
theorem Snapshot.perform_write (name : String) (m : Memory) (w : World) :
    (Snapshot.write name m).perform w =
      match w.files.write name m.toBytes with
      | .error e => (.error e, w)
      | .ok files => (.ok (), { w with files, journal := w.journal ++ [writeEntry name] }) := by
  unfold Snapshot.write
  rw [Script.perform_bind]
  simp only [Script.store, Script.perform]
  cases w.files.write name m.toBytes <;> rfl

/-- What reading a behavior file does. -/
theorem Reading.perform_fromFile (name : String) (w : World) :
    (Reading.fromFile name).perform w =
      match w.files.reading name with
      | .error e => (.error e, w)
      | .ok reading => (.ok reading, { w with journal := w.journal ++ reading.entries name }) := by
  unfold Reading.fromFile Files.reading
  rw [Script.perform_bind]
  simp only [Script.fetch, Script.perform]
  cases w.files.read name with
  | error e => rfl
  | ok content =>
    dsimp only
    cases textOfBytes content <;> rfl

/-! ## Tasks -/

namespace Task

variable {α β : Type}

/-- A task goes on where another one ended well. -/
theorem perform_bind (x : Task α) (k : α → Task β) (w : World) :
    (x >>= k).run.perform w =
      match x.run.perform w with
      | (.ok a, w) => (k a).run.perform w
      | (.error e, w) => (.error e, w) := by
  rw [ExceptT.run_bind, Script.perform_bind]
  rcases x.run.perform w with ⟨_ | _, w⟩ <;> rfl

/-- A task that finds out something from the files and changes nothing but the
journal. -/
def Reads (x : Task α) (f : Files → Except Failure α) : Prop :=
  ∀ w, ∃ journal, x.run.perform w = (f w.files, { w with journal })

/-- A task that delivers a product of the files. -/
def Yields (x : Task Unit) (f : Files → Except Failure Command.Product) : Prop :=
  ∀ w, ∃ journal, x.run.perform w = World.deliver { w with journal } (f w.files)

/-- What was read is used in what is delivered. -/
theorem Reads.bind {x : Task α} {f : Files → Except Failure α} {k : α → Task Unit}
    {g : α → Files → Except Failure Command.Product} (hx : x.Reads f)
    (hk : ∀ a, (k a).Yields (g a)) :
    (x >>= k).Yields fun fs => f fs >>= fun a => g a fs := by
  intro w
  obtain ⟨journal, hperform⟩ := hx w
  rw [perform_bind, hperform]
  dsimp only
  cases f w.files with
  | error e => exact ⟨journal, rfl⟩
  | ok a => exact hk a { w with journal }

/-- The journal does not matter for what is delivered. -/
theorem log_bind_yields {k : Unit → Task Unit} {f : Files → Except Failure Command.Product}
    (entries : List Entry) (hk : (k ()).Yields f) : (log entries >>= k).Yields f :=
  fun w => hk { w with journal := w.journal ++ entries }

/-- An attempt ends as its script does, with the error wrapped up. -/
theorem perform_attempt {ε : Type} (wrap : ε → Failure) (s : Script (Except ε α)) (w : World) :
    (attempt wrap s).run.perform w =
      match s.perform w with
      | (.ok a, w) => (.ok a, w)
      | (.error e, w) => (.error (wrap e), w) := by
  unfold attempt
  rw [ExceptT.run_mk, Script.perform_bind]
  rcases s.perform w with ⟨_ | _, w⟩ <;> rfl

/-- Reading a snapshot gives the memory in it. -/
theorem attempt_snapshot_reads (name : String) :
    (attempt (.readingSnapshot name) (Snapshot.read name)).Reads fun fs => fs.image name := by
  intro w
  rw [perform_attempt, Snapshot.perform_read]
  unfold Files.image
  dsimp only
  cases w.files.read name with
  | error e => exact ⟨w.journal, rfl⟩
  | ok content => exact ⟨w.journal ++ [Snapshot.readEntry name content.length], rfl⟩

/-- Reading a behavior file gives what stands in it. -/
theorem attempt_behavior_reads (name : String) :
    (attempt (.readingBehavior name) (Reading.fromFile name)).Reads fun fs =>
      match fs.reading name with
      | .error e => .error (.readingBehavior name e)
      | .ok reading => .ok reading := by
  intro w
  rw [perform_attempt, Reading.perform_fromFile]
  dsimp only
  cases w.files.reading name with
  | error e => exact ⟨w.journal, rfl⟩
  | ok reading => exact ⟨w.journal ++ reading.entries name, rfl⟩

/-- The program of a behavior file is found out from the file. -/
theorem behavior_reads (strict : Bool) (name : String) :
    (behavior strict name).Reads fun fs => fs.behavior strict name := by
  intro w
  obtain ⟨journal, hperform⟩ := attempt_behavior_reads name w
  unfold behavior Files.behavior
  rw [perform_bind, hperform]
  dsimp only
  cases w.files.reading name with
  | error e => exact ⟨journal, rfl⟩
  | ok reading =>
    dsimp only
    cases reading.stop with
    | none => exact ⟨journal ++ reading.useEntries name, rfl⟩
    | some stop =>
      cases strict with
      | false => exact ⟨journal ++ reading.useEntries name, rfl⟩
      | true => exact ⟨journal, rfl⟩

theorem throw_yields (f : Failure) : (throw f : Task Unit).Yields fun _ => .error f :=
  fun w => ⟨w.journal, rfl⟩

/-- Printing a text delivers it. -/
theorem say_yields (text : String) (entries : List Entry) :
    (do say text; log entries).Yields fun _ => .ok ⟨text, none⟩ :=
  fun w => ⟨w.journal ++ entries, rfl⟩

/-- Printing a text and storing an image delivers both. -/
theorem say_store_yields (text name : String) (m : Memory) (entries : List Entry) :
    (do
      say text
      attempt (.writingSnapshot name) (Snapshot.write name m)
      log entries).Yields fun _ => .ok ⟨text, some (name, m)⟩ := by
  intro w
  rw [perform_bind]
  show ∃ journal,
    (attempt (.writingSnapshot name) (Snapshot.write name m) >>= fun _ => log entries).run.perform
      { w with output := w.output ++ text } = _
  rw [perform_bind, perform_attempt, Snapshot.perform_write]
  unfold World.deliver
  dsimp only
  cases w.files.write name m.toBytes with
  | error e => exact ⟨w.journal, rfl⟩
  | ok files => exact ⟨w.journal ++ [Snapshot.writeEntry name] ++ entries, rfl⟩

end Task

namespace Command

variable (strict : Bool) (threshold : Threshold)

theorem searchTask_yields (snapshot seedProgram probeProgram : String) (rounds passes : UInt32) :
    (searchTask strict threshold snapshot seedProgram probeProgram rounds passes).Yields
      (searchProduct strict snapshot seedProgram probeProgram rounds passes) := by
  unfold searchTask searchProduct
  cases Bounds.make rounds passes with
  | error e => exact Task.throw_yields _
  | ok bounds =>
    dsimp only
    refine Task.log_bind_yields _ ?_
    refine (Task.attempt_snapshot_reads snapshot).bind fun memory => ?_
    refine (Task.behavior_reads strict seedProgram).bind fun seed => ?_
    refine (Task.behavior_reads strict probeProgram).bind fun probe => ?_
    rw [Search.product, ← Search.runNoted_eq _ threshold]
    refine Task.log_bind_yields _ ?_
    cases (Search.runNoted threshold (.start (.start memory seed) probe bounds)).2 with
    | error e => exact Task.throw_yields _
    | ok tally => exact Task.say_yields _ _

theorem dumpTask_yields (snapshot program : String) (iterations : UInt64) (output : String) :
    (dumpTask strict threshold snapshot program iterations output).Yields
      (dumpProduct strict snapshot program iterations output) := by
  unfold dumpTask dumpProduct
  refine (Task.attempt_snapshot_reads snapshot).bind fun memory => ?_
  refine (Task.behavior_reads strict program).bind fun behavior => ?_
  obtain ⟨hmachine, hwindows⟩ :=
    (Machine.start memory behavior).dumpNoted_eq threshold iterations.toNat
  unfold Machine.product
  generalize (Machine.start memory behavior).dumpNoted threshold iterations.toNat = noted
    at hmachine hwindows
  generalize (Machine.start memory behavior).dump iterations.toNat = dumped at hmachine hwindows
  obtain ⟨m, journal, windows⟩ := noted
  obtain ⟨_, _⟩ := dumped
  obtain rfl : m = _ := hmachine
  obtain rfl : windows = _ := hwindows
  refine Task.log_bind_yields _ ?_
  cases windows with
  | error e => exact Task.throw_yields _
  | ok windows => exact Task.say_store_yields _ _ _ _

theorem disasmTask_yields (program : String) :
    (disasmTask strict program).Yields (disasmProduct strict program) := by
  unfold disasmTask disasmProduct
  refine (Task.behavior_reads strict program).bind fun behavior => ?_
  exact fun w => ⟨w.journal, rfl⟩

/-- A command delivers its product. -/
theorem task_yields (c : Command) :
    (c.task strict threshold).Yields fun fs => c.product strict fs := by
  cases c with
  | search snapshot seedProgram probeProgram rounds passes =>
    exact searchTask_yields strict threshold snapshot seedProgram probeProgram rounds passes
  | dump snapshot program iterations output =>
    exact dumpTask_yields strict threshold snapshot program iterations output
  | disasm program => exact disasmTask_yields strict program

end Command

/-! ## Runs of the program -/

namespace CommandLine

/-- The exit code, the output and the files that a product ends in. -/
def settled (fs : Files) : Except Failure Command.Product → UInt32 × String × Files
  | .error f => (f.exitCode, "", fs)
  | .ok ⟨text, none⟩ => (0, text, fs)
  | .ok ⟨text, some (name, m)⟩ =>
    match fs.write name m.toBytes with
    | .error _ => (1, text, fs)
    | .ok files => (0, text, files)

/-- A run ends as the product of its command does. -/
theorem runInvocation_settled (set : Option Threshold) (i : Invocation) (fs : Files) :
    let r := runInvocation set i fs
    (r.exit, r.output, r.files) = settled fs (i.command.product i.strict fs) := by
  obtain ⟨journal, hperform⟩ :=
    Command.task_yields i.strict (threshold set i) i.command ⟨fs, "", []⟩
  unfold runInvocation script
  rw [hperform]
  dsimp only
  generalize i.command.product i.strict fs = p
  unfold World.deliver settled
  dsimp only
  rcases p with e | ⟨text, _ | ⟨name, m⟩⟩
  · rfl
  · simp [exitCode]
  · dsimp only
    cases fs.write name m.toBytes with
    | error e => simp [exitCode, Failure.exitCode_of_ne]
    | ok files => simp [exitCode]

end CommandLine

end SaveRam
