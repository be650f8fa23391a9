import Mathlib.Data.Nat.ModEq
import SaveRam.Proofs.Pass.Involution
import SaveRam.Proofs.Search.Footprint

/-!
# One changed byte changes the digest

A hash is multiplied by 33 for every byte that is taken in.  33 is odd and therefore
prime to `2 ^ 32`, so no difference between two hashes is ever lost
(`Digest.foldl_push_injective`), and the byte that is taken in is seen as it is
(`Digest.push_right_injective`).  Sequences of bytes that differ in one place only
have different digests (`Digest.ofBytes_set_ne`).

For the save memory this decides which stores the digest notices
(`Memory.digest_set_ne_iff`).  `Memory.digest_write` says it for addresses, together
with the fact that all other bytes leave the digest alone.
-/

namespace SaveRam

namespace Digest

/-! ## Taking in a byte -/

/-- Taking in a byte multiplies by 33 and adds the byte, modulo `2 ^ 32`.  The bits
that the shift drops are multiples of the modulus. -/
theorem toNat_push (hash : Digest) (byte : UInt8) :
    (push hash byte).toNat = (hash.toNat * 33 + byte.toNat) % 2 ^ 32 := by
  have hshift : (hash <<< 5).toNat = hash.toNat * 32 % 2 ^ 32 := by
    rw [UInt32.toNat_shiftLeft, Nat.shiftLeft_eq]
    rfl
  rw [push, UInt32.toNat_add, UInt32.toNat_add, hshift, UInt8.toNat_toUInt32]
  omega

/-- Hashes are the same exactly if they are congruent before the wrap. -/
theorem push_eq_push_iff {hash hash' : Digest} {x y : UInt8} :
    push hash x = push hash' y ↔
      hash.toNat * 33 + x.toNat ≡ hash'.toNat * 33 + y.toNat [MOD 2 ^ 32] := by
  rw [← UInt32.toNat_inj, toNat_push, toNat_push, Nat.ModEq]

/-- Different hashes stay different when the same byte is taken in. -/
theorem push_left_injective (byte : UInt8) : Function.Injective fun hash => push hash byte := by
  intro hash hash' h
  have hmod : hash.toNat * 33 ≡ hash'.toNat * 33 [MOD 2 ^ 32] :=
    Nat.ModEq.add_right_cancel' _ (push_eq_push_iff.1 h)
  have hcancel : hash.toNat ≡ hash'.toNat [MOD 2 ^ 32] :=
    hmod.cancel_right_of_coprime (by decide)
  exact UInt32.toNat_inj.1 (hcancel.eq_of_lt_of_lt hash.toNat_lt hash'.toNat_lt)

/-- Different bytes make a hash different. -/
theorem push_right_injective (hash : Digest) : Function.Injective (push hash) := by
  intro x y h
  have hcancel : x.toNat ≡ y.toNat [MOD 2 ^ 32] :=
    Nat.ModEq.add_left_cancel' _ (push_eq_push_iff.1 h)
  have hx := x.toNat_lt
  have hy := y.toNat_lt
  exact UInt8.toNat_inj.1 (hcancel.eq_of_lt_of_lt (by omega) (by omega))

/-! ## Sequences of bytes -/

/-- What follows never makes different hashes equal.  The induction is on the bytes
that follow. -/
theorem foldl_push_injective (bytes : List UInt8) :
    Function.Injective fun hash => bytes.foldl push hash := by
  induction bytes with
  | nil => exact Function.injective_id
  | cons byte bytes ih => exact ih.comp (push_left_injective byte)

theorem ofBytes_append (front rest : List UInt8) :
    ofBytes (front ++ rest) = rest.foldl push (ofBytes front) :=
  List.foldl_append

theorem ofBytes_append_cons (front : List UInt8) (byte : UInt8) (rest : List UInt8) :
    ofBytes (front ++ byte :: rest) = rest.foldl push (push (ofBytes front) byte) :=
  ofBytes_append front (byte :: rest)

/-- A sequence with one byte exchanged has another digest. -/
theorem ofBytes_set_ne {bytes : List UInt8} {i : Nat} (hi : i < bytes.length) {byte : UInt8}
    (h : byte ≠ bytes[i]) : ofBytes (bytes.set i byte) ≠ ofBytes bytes := by
  intro heq
  have hset : bytes.set i byte = bytes.take i ++ byte :: bytes.drop (i + 1) := by
    rw [List.set_eq_take_append_cons_drop, if_pos hi]
  have hsplit : bytes = bytes.take i ++ bytes[i] :: bytes.drop (i + 1) := by
    rw [List.getElem_cons_drop, List.take_append_drop]
  rw [hset, ofBytes_append_cons] at heq
  conv at heq => rhs; rw [hsplit, ofBytes_append_cons]
  exact h (push_right_injective _ (foldl_push_injective _ heq))

/-- A sequence that differs from another one of its length in exactly one position is
that one with a byte exchanged. -/
theorem exists_eq_set_of_existsUnique {xs ys : List UInt8} (hlength : xs.length = ys.length)
    (h : ∃! i : Nat, xs[i]? ≠ ys[i]?) :
    ∃ i, ∃ hi : i < ys.length, ∃ byte, byte ≠ ys[i] ∧ xs = ys.set i byte := by
  obtain ⟨i, hne, honly⟩ := h
  have hi : i < ys.length := by
    by_contra hout
    rw [List.getElem?_eq_none (by omega), List.getElem?_eq_none (by omega)] at hne
    exact hne rfl
  have hi' : i < xs.length := by omega
  rw [List.getElem?_eq_getElem hi, List.getElem?_eq_getElem hi'] at hne
  refine ⟨i, hi, xs[i], fun heq => hne (congrArg some heq), List.ext_getElem? fun j => ?_⟩
  rw [List.getElem?_set]
  by_cases hij : i = j
  · subst hij
    rw [if_pos rfl, if_pos hi, List.getElem?_eq_getElem hi']
  · rw [if_neg hij]
    by_contra hj
    exact hij (honly j hj).symm

end Digest

/-! ## The save memory -/

/-- The digested cells are the first ten of the window. -/
theorem Cell.exists_window_cell {c : Cell} (h : c.address.Digested) :
    ∃ k : Fin 16, k.val < 10 ∧ c = Window.cell k := by
  obtain ⟨hlow, hhigh⟩ := h
  rw [c.toNat_address] at hlow hhigh
  have hten : c.val - 0x7D0 < 10 := by omega
  refine ⟨⟨c.val - 0x7D0, by omega⟩, hten, Fin.ext ?_⟩
  show c.val = 0x7D0 + (c.val - 0x7D0)
  omega

theorem Window.digested_set (w : Window) (k : Fin 16) (byte : UInt8) :
    Window.digested (w.set k.val byte k.isLt) = w.digested.set k byte := by
  rw [digested, Vector.toList_set, List.take_set]
  rfl

namespace Memory

/-- A store outside of a set of addresses keeps the bytes of the set. -/
theorem agreeOn_set {T : Set Address} {c : Cell} (h : c.address ∉ T) (m : Memory) (byte : UInt8) :
    (m.set c byte).AgreeOn T m := by
  refine agreeOn_iff.2 fun d hd => ?_
  have hne : c ≠ d := by
    rintro rfl
    exact h hd
  rw [get_set, if_neg hne]

/-- A store is noticed by the digest exactly when it changes a digested byte. -/
theorem digest_set_ne_iff (m : Memory) (c : Cell) (byte : UInt8) :
    (m.set c byte).digest ≠ m.digest ↔ c.address.Digested ∧ byte ≠ m.get c := by
  constructor
  · intro hne
    by_contra hquiet
    apply hne
    by_cases hdigested : c.address.Digested
    · have hsame : byte = m.get c := by
        by_contra hbyte
        exact hquiet ⟨hdigested, hbyte⟩
      rw [hsame, set_get]
    · exact (agreeOn_set (T := {a | a.Digested}) hdigested m byte).digest fun _ ha => ha
  · rintro ⟨hdigested, hbyte⟩
    obtain ⟨k, hk, rfl⟩ := Cell.exists_window_cell hdigested
    have hlength : k.val < m.window.digested.length := by
      rw [length_digested]
      exact hk
    have hget : m.window.digested[k.val] = m.get (Window.cell k) := by
      simp [Window.digested, window]
    rw [digest, digest, Window.digest, Window.digest, window_set_cell, Window.digested_set]
    exact Digest.ofBytes_set_ne hlength (by rwa [hget])

/-- The digest tells sequences of bytes apart that differ in exactly one position.
So a byte that is stored changes the digest of a memory exactly when its address is
among those of the ten digested bytes and another byte stood there.  Memories that
have the same bytes at these ten addresses have returned to the digest of a round
together or not at all. -/
theorem digest_write :
    (∀ xs ys : List UInt8, xs.length = ys.length → (∃! i : Nat, xs[i]? ≠ ys[i]?) →
      Digest.ofBytes xs ≠ Digest.ofBytes ys) ∧
    (∀ (m : Memory) (a : Address) (byte : UInt8), a.Mapped →
      ∃ m', m.write a byte = .ok m' ∧
        (m'.digest ≠ m.digest ↔
          (0xA7D0 ≤ a.toNat ∧ a.toNat ≤ 0xA7D9) ∧ m.read a ≠ .ok byte)) ∧
    ∀ m n : Memory, (∀ a : Address, 0xA7D0 ≤ a.toNat → a.toNat ≤ 0xA7D9 → m.read a = n.read a) →
      ∀ start, m.digest = start ↔ n.digest = start := by
  refine ⟨fun xs ys hlength hunique => ?_, fun m a byte ha => ?_, fun m n h start => ?_⟩
  · obtain ⟨i, hi, byte, hbyte, rfl⟩ := Digest.exists_eq_set_of_existsUnique hlength hunique
    exact Digest.ofBytes_set_ne hi hbyte
  · obtain ⟨c, rfl⟩ := a.cell_cases.resolve_right fun hout => hout.2 ha
    refine ⟨m.set c byte, by rw [write, Cell.cell?_address], ?_⟩
    rw [digest_set_ne_iff, read_address, ne_comm (a := byte), ne_eq, ne_eq, Except.ok.injEq]
    rfl
  · have hagree : m.AgreeOn {a | a.Digested} n := fun a ha => h a ha.1 ha.2
    rw [hagree.digest fun _ ha => ha]

/-- The last digested byte, and the first one that is not digested. -/
theorem digest_write_last_byte :
    let near : Cell := Window.cell 9
    let far : Cell := Window.cell 10
    Digest.ofBytes [0xC3, 0, 0xFF] ≠ Digest.ofBytes [0xC3, 1, 0xFF] ∧
      (∃ m, blank.write near.address 0x80 = .ok m ∧ m.digest ≠ blank.digest) ∧
      (∃ m, blank.write far.address 0x80 = .ok m ∧ m.digest = blank.digest) ∧
      ∀ start, (blank.set far 0xFF).digest = start ↔ blank.digest = start := by
  intro near far
  obtain ⟨hbytes, hwrite, hround⟩ := digest_write
  have hunique : ∃! i : Nat, [(0xC3 : UInt8), 0, 0xFF][i]? ≠ [(0xC3 : UInt8), 1, 0xFF][i]? := by
    refine ⟨1, by decide, fun i hi => ?_⟩
    match i with
    | 0 | 2 | i + 3 => simp at hi
    | 1 => rfl
  have hread : blank.read near.address ≠ .ok 0x80 := by
    rw [read_address]
    simp [get, blank]
  obtain ⟨m, hm, hnear⟩ := hwrite blank near.address 0x80 near.mapped_address
  obtain ⟨n, hn, hfar⟩ := hwrite blank far.address 0x80 far.mapped_address
  have hout : ¬ far.address.Digested := by decide
  refine ⟨hbytes _ _ rfl hunique, ⟨m, hm, hnear.2 ⟨by decide, hread⟩⟩, ⟨n, hn, ?_⟩, ?_⟩
  · by_contra hne
    exact hout (hfar.1 hne).1
  · exact hround _ _ fun a hlow hhigh =>
      agreeOn_set (T := {a | a.Digested}) hout blank 0xFF a ⟨hlow, hhigh⟩

end Memory

end SaveRam
