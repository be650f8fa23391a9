import SaveRam.Proofs.Command.Product

/-!
# Snapshots that are written and read

A snapshot file is read as if it had 8192 bytes: more of them are cut off and
missing ones are zeros (`Snapshot.fill`).  Exactly the contents of that size stay
as they are (`Snapshot.fill_eq_self_iff`), and contents are read as the same
memory exactly if they are filled to the same image
(`Snapshot.ofBytes_eq_ofBytes_iff`).

A read and a write that succeed come to one equation each
(`Snapshot.perform_read_of_ok`, `Snapshot.perform_write_of_ok`).  `Snapshot.copy`
reads a snapshot and writes what was read.  What a script does does not depend on
the journal so far (`Script.perform_journal`), and therefore two snapshots that are
read as the same memory cannot be told apart by anything that comes later
(`Snapshot.perform_read_bind`).
-/

namespace SaveRam

/-! ## Contents -/

namespace Snapshot

/-- The image that a content is read as: its first 8192 bytes, and zeros for those
that are missing. -/
def fill (content : List UInt8) : List UInt8 :=
  content.take 0x2000 ++ List.replicate (0x2000 - content.length) 0

theorem toBytes_ofBytes_eq_fill (content : List UInt8) :
    (Memory.ofBytes content).toBytes = fill content :=
  Memory.toBytes_ofBytes content

theorem length_fill (content : List UInt8) : (fill content).length = 0x2000 := by
  rw [← toBytes_ofBytes_eq_fill, Memory.length_toBytes]

/-- Exactly the contents of the size of the memory stay as they are. -/
theorem fill_eq_self_iff {content : List UInt8} :
    fill content = content ↔ content.length = 0x2000 := by
  constructor
  · intro h
    rw [← h, length_fill]
  · intro h
    rw [fill, h, Nat.sub_self, List.replicate_zero, List.append_nil, ← h, List.take_length]

theorem fill_fill (content : List UInt8) : fill (fill content) = fill content :=
  fill_eq_self_iff.2 (length_fill content)

/-- Zeros at the end of a short content are no different from missing bytes. -/
theorem fill_append_zeros (content : List UInt8) {n : Nat} (h : content.length + n ≤ 0x2000) :
    fill (content ++ List.replicate n 0) = fill content := by
  have hlength : (content ++ List.replicate n 0).length = content.length + n := by
    rw [List.length_append, List.length_replicate]
  have hzeros : n + (0x2000 - (content.length + n)) = 0x2000 - content.length := by omega
  rw [fill, fill, hlength, List.take_of_length_le (by omega), List.take_of_length_le (by omega),
    List.append_assoc, List.replicate_append_replicate, hzeros]

/-- Contents are read as the same memory exactly if they are filled to the same image. -/
theorem ofBytes_eq_ofBytes_iff {content content' : List UInt8} :
    Memory.ofBytes content = Memory.ofBytes content' ↔ fill content = fill content' := by
  rw [← toBytes_ofBytes_eq_fill, ← toBytes_ofBytes_eq_fill]
  constructor
  · intro h
    rw [h]
  · intro h
    rw [← Memory.ofBytes_toBytes (.ofBytes content), h, Memory.ofBytes_toBytes]

end Snapshot

/-! ## Scripts -/

/-- A script adds the same entries to every journal and does the same otherwise. -/
theorem Script.perform_journal {α : Type} (s : Script α) (w : World) :
    ∃ value files output entries, ∀ journal,
      s.perform { w with journal } = (value, ⟨files, output, journal ++ entries⟩) := by
  induction s generalizing w with
  | done value => exact ⟨value, w.files, w.output, [], fun journal => by simp [perform]⟩
  | read name next ih => exact ih (w.files.read name) w
  | write name content next ih =>
    simp only [perform]
    cases w.files.write name content with
    | ok files => exact ih (.ok ()) { w with files }
    | error e => exact ih (.error e) w
  | print text next ih => exact ih { w with output := w.output ++ text }
  | note added next ih =>
    obtain ⟨value, files, output, entries, h⟩ := ih w
    refine ⟨value, files, output, added ++ entries, fun journal => ?_⟩
    rw [perform, h, List.append_assoc]

namespace Snapshot

variable {w : World} {name other target : String} {content content' : List UInt8}

theorem perform_read_of_ok (h : w.files.read name = .ok content) :
    (read name).perform w =
      (.ok (.ofBytes content),
        { w with journal := w.journal ++ [readEntry name content.length] }) := by
  rw [perform_read, h]

theorem perform_write_of_ok {m : Memory} {files : Files}
    (h : w.files.write name m.toBytes = .ok files) :
    (write name m).perform w =
      (.ok (), { w with files, journal := w.journal ++ [writeEntry name] }) := by
  rw [perform_write, h]

/-- Reads a snapshot and writes what was read. -/
def copy (source target : String) : Script (Except FileError Unit) := do
  match ← read source with
  | .error e => return .error e
  | .ok m => write target m

/-- A copy stores the filled content. -/
theorem perform_copy_of_ok {files : Files} (hread : w.files.read name = .ok content)
    (hwrite : w.files.write target (fill content) = .ok files) :
    (copy name target).perform w =
      (.ok (), { w with
        files
        journal := w.journal ++ [readEntry name content.length] ++ [writeEntry target] }) := by
  rw [copy, Script.perform_bind, perform_read_of_ok hread]
  exact perform_write_of_ok (by rwa [toBytes_ofBytes_eq_fill])

/-- Whatever comes after reading one of two snapshots with the same image does the
same after both; only the entry for the read itself tells which one it was. -/
theorem perform_read_bind {α : Type} (hname : w.files.read name = .ok content)
    (hother : w.files.read other = .ok content') (h : fill content = fill content')
    (later : Except FileError Memory → Script α) :
    ∃ value files output entries,
      (read name >>= later).perform w =
        (value, ⟨files, output, w.journal ++ readEntry name content.length :: entries⟩) ∧
      (read other >>= later).perform w =
        (value, ⟨files, output, w.journal ++ readEntry other content'.length :: entries⟩) := by
  have hmemory : Memory.ofBytes content' = .ofBytes content := ofBytes_eq_ofBytes_iff.2 h.symm
  obtain ⟨value, files, output, entries, hlater⟩ :=
    (later (.ok (.ofBytes content))).perform_journal w
  refine ⟨value, files, output, entries, ?_, ?_⟩
  · rw [Script.perform_bind, perform_read_of_ok hname, hlater, List.append_assoc,
      List.singleton_append]
  · rw [Script.perform_bind, perform_read_of_ok hother, hmemory, hlater, List.append_assoc,
      List.singleton_append]

/-- A memory that is written to a file is all that is in the file, and it is read
back. -/
theorem write_read (hname : w.files.Creatable name) (m : Memory) :
    ∃ w', (write name m).perform w = (.ok (), w') ∧ w'.files.read name = .ok m.toBytes ∧
      ((read name).perform w').1 = .ok m := by
  obtain ⟨files, hwrite⟩ := (Files.exists_write_iff m.toBytes).2 hname
  have hread := Files.read_of_write hwrite
  refine ⟨_, perform_write_of_ok hwrite, hread, ?_⟩
  rw [perform_read_of_ok hread, Memory.ofBytes_toBytes]

/-- A copy of a snapshot has its image as content, and copying it to itself changes
no file. -/
theorem copy_copy (hname : w.files.read name = .ok content) (htarget : w.files.Creatable target) :
    ∃ w', (copy name target).perform w = (.ok (), w') ∧
      w'.files.read target = .ok (fill content) ∧
      ∃ w'', (copy target target).perform w' = (.ok (), w'') ∧ w''.files = w'.files := by
  obtain ⟨files, hwrite⟩ := (Files.exists_write_iff (fill content)).2 htarget
  have hread := Files.read_of_write hwrite
  -- The copy is filled already, so the second copy writes what is there.
  have hagain : files.write target (fill (fill content)) = .ok files := by
    rw [fill_fill]
    exact Files.write_of_write hwrite
  exact ⟨_, perform_copy_of_ok hname hwrite, hread, _, perform_copy_of_ok hread hagain, rfl⟩

/-- Snapshots are written and read without a loss.  A memory is read back from the
file it was written to, which has its 8192 bytes and no more, whatever was there
before.  A file of any length is read as its first 8192 bytes and zeros; writing
that back gives the file itself exactly if it has 8192 bytes, and doing so again
changes nothing.  What comes after reading one of two files with the same image
is the same for both. -/
theorem round_trip (w : World) :
    (∀ name m, w.files.Creatable name →
      ∃ w', (write name m).perform w = (.ok (), w') ∧
        (w'.files.read name = .ok m.toBytes ∧ m.toBytes.length = 0x2000) ∧
        ((read name).perform w').1 = .ok m) ∧
    (∀ name content, w.files.read name = .ok content →
      w.files.Creatable name ∧
      (∃ m, ((read name).perform w).1 = .ok m ∧ m.toBytes = fill content) ∧
      ∀ target, w.files.Creatable target →
        ∃ w', (copy name target).perform w = (.ok (), w') ∧
          w'.files.read target = .ok (fill content) ∧
          (w'.files.read target = .ok content ↔ content.length = 0x2000) ∧
          ∃ w'', (copy target target).perform w' = (.ok (), w'') ∧ w''.files = w'.files) ∧
    ∀ name other content content', w.files.read name = .ok content →
      w.files.read other = .ok content' → fill content = fill content' →
      ∀ (α : Type) (later : Except FileError Memory → Script α),
        ∃ value files output entries,
          (read name >>= later).perform w =
            (value, ⟨files, output, w.journal ++ readEntry name content.length :: entries⟩) ∧
          (read other >>= later).perform w =
            (value, ⟨files, output, w.journal ++ readEntry other content'.length :: entries⟩) := by
  refine ⟨fun name m hname => ?_, fun name content hread => ⟨?_, ?_, fun target htarget => ?_⟩, ?_⟩
  · obtain ⟨w', hwrite, hcontent, hback⟩ := write_read hname m
    exact ⟨w', hwrite, ⟨hcontent, m.length_toBytes⟩, hback⟩
  · exact Files.creatable_of_read hread
  · refine ⟨.ofBytes content, ?_, toBytes_ofBytes_eq_fill content⟩
    rw [perform_read_of_ok hread]
  · obtain ⟨w', hcopy, hcontent, hagain⟩ := copy_copy hread htarget
    refine ⟨w', hcopy, hcontent, ?_, hagain⟩
    rw [hcontent, Except.ok.injEq, fill_eq_self_iff]
  · intro name other content content' hname hother h α later
    exact perform_read_bind hname hother h later

/-- Two files that differ in a zero at the end, and one that is not there yet. -/
theorem round_trip_short :
    let w : World := ⟨⟨[(["s"], .file [3, 7]), (["l"], .file [3, 7, 0])]⟩, "", []⟩
    (∃ w', (write "x" default).perform w = (.ok (), w') ∧
      ((read "x").perform w').1 = .ok default) ∧
    (∃ w', (copy "s" "s").perform w = (.ok (), w') ∧ w'.files.read "s" ≠ .ok [3, 7]) ∧
    ((copy "s" "x").perform w).2.files = ((copy "l" "x").perform w).2.files := by
  intro w
  have hs : w.files.read "s" = .ok [3, 7] := (Files.read_iff_of_plain (by decide)).2 rfl
  have hl : w.files.read "l" = .ok [3, 7, 0] := (Files.read_iff_of_plain (by decide)).2 rfl
  have hx : w.files.Creatable "x" := (Files.creatable_iff_of_plain (by decide)).2 (by decide)
  have hfill : fill [3, 7] = fill [3, 7, 0] := (fill_append_zeros [3, 7] (n := 1) (by decide)).symm
  obtain ⟨hwritten, hread, hsame⟩ := round_trip w
  refine ⟨?_, ?_, ?_⟩
  · obtain ⟨w', hwrite, -, hback⟩ := hwritten "x" default hx
    exact ⟨w', hwrite, hback⟩
  · obtain ⟨hcreatable, -, hcopies⟩ := hread "s" _ hs
    obtain ⟨w', hcopy, -, hiff, -⟩ := hcopies "s" hcreatable
    exact ⟨w', hcopy, fun h => absurd (hiff.1 h) (by decide)⟩
  · obtain ⟨value, files, output, entries, hshort, hlong⟩ :=
      hsame "s" "l" _ _ hs hl hfill _ fun
        | .error e => return .error e
        | .ok m => write "x" m
    calc ((copy "s" "x").perform w).2.files
      _ = files := congrArg (·.2.files) hshort
      _ = ((copy "l" "x").perform w).2.files := (congrArg (·.2.files) hlong).symm

end Snapshot

end SaveRam
