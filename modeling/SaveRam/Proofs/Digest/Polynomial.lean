import Mathlib.Algebra.BigOperators.Fin
import Mathlib.Data.Int.ModEq
import Mathlib.Tactic.Ring
import SaveRam.Proofs.Digest.Change

/-!
# The digest is a polynomial

Every byte that is taken in multiplies the hash by 33, so `n` bytes multiply it by
`33 ^ n`, and a byte counts with the power of 33 that belongs to its place
(`Digest.polynomial`).  A hash has 32 bits only, but it is congruent to the exact
number: `Digest.foldl_push_modEq` says it for any hash to start from.

Sequences of one length therefore have the same digest exactly if their polynomials are
congruent, whatever the hash was before them (`Digest.foldl_push_eq_iff`).
-/

namespace SaveRam.Digest

/-! ## Polynomials of bytes -/

/-- Bytes as coefficients of the powers of 33, the last byte at the power zero. -/
def polynomial (bytes : List UInt8) : ℤ :=
  ∑ i : Fin bytes.length, (bytes.get i).toNat * 33 ^ (bytes.length - 1 - i)

@[simp] theorem polynomial_nil : polynomial [] = 0 := rfl

@[simp] theorem polynomial_cons (byte : UInt8) (bytes : List UInt8) :
    polynomial (byte :: bytes) = byte.toNat * 33 ^ bytes.length + polynomial bytes := by
  refine (Fin.sum_univ_succ _).trans (congrArg _ (Finset.sum_congr rfl fun i _ => ?_))
  have hpower : (byte :: bytes).length - 1 - i.succ.val = bytes.length - 1 - i.val := by
    rw [List.length_cons, Fin.val_succ]
    omega
  rw [List.get_cons_succ', hpower]

/-- The polynomials of two sequences are compared place by place. -/
theorem polynomial_sub {xs ys : List UInt8} (h : xs.length = ys.length) :
    polynomial xs - polynomial ys =
      ∑ i : Fin xs.length,
        (((xs.get i).toNat : ℤ) - (ys.get (i.cast h)).toNat) * 33 ^ (xs.length - 1 - i) := by
  have hys : polynomial ys =
      ∑ i : Fin xs.length, ((ys.get (i.cast h)).toNat : ℤ) * 33 ^ (xs.length - 1 - i) := by
    rw [polynomial, ← Fin.sum_congr' _ h]
    simp only [h, Fin.val_cast]
  rw [hys, polynomial, ← Finset.sum_sub_distrib]
  exact Finset.sum_congr rfl fun i _ => (sub_mul _ _ _).symm

/-! ## Hashes as polynomials -/

theorem push_modEq (hash : Digest) (byte : UInt8) :
    ((push hash byte).toNat : ℤ) ≡ hash.toNat * 33 + byte.toNat [ZMOD 2 ^ 32] := by
  rw [toNat_push]
  push_cast
  exact Int.mod_modEq _ _

/-- What bytes make of a hash.  The induction is on the bytes, for all hashes to start
from. -/
theorem foldl_push_modEq (hash : Digest) (bytes : List UInt8) :
    ((bytes.foldl push hash).toNat : ℤ) ≡
      hash.toNat * 33 ^ bytes.length + polynomial bytes [ZMOD 2 ^ 32] := by
  induction bytes generalizing hash with
  | nil => simp
  | cons byte bytes ih =>
    calc ((bytes.foldl push (push hash byte)).toNat : ℤ)
      _ ≡ (push hash byte).toNat * 33 ^ bytes.length + polynomial bytes [ZMOD 2 ^ 32] :=
          ih (push hash byte)
      _ ≡ (hash.toNat * 33 + byte.toNat) * 33 ^ bytes.length + polynomial bytes
          [ZMOD 2 ^ 32] := ((push_modEq hash byte).mul_right _).add_right _
      _ = hash.toNat * 33 ^ (byte :: bytes).length + polynomial (byte :: bytes) := by
          rw [polynomial_cons, List.length_cons]
          ring

theorem ofBytes_modEq (bytes : List UInt8) :
    ((ofBytes bytes).toNat : ℤ) ≡ 5381 * 33 ^ bytes.length + polynomial bytes [ZMOD 2 ^ 32] :=
  foldl_push_modEq 5381 bytes

/-- A sequence in two parts is known from the digests of the parts.  The digest of the
second part begins with 5381, which has to be taken away. -/
theorem ofBytes_append_modEq (front rest : List UInt8) :
    ((ofBytes (front ++ rest)).toNat : ℤ) ≡
      (ofBytes front).toNat * 33 ^ rest.length + (ofBytes rest).toNat - 5381 * 33 ^ rest.length
      [ZMOD 2 ^ 32] := by
  have hrest : ((ofBytes rest).toNat : ℤ) - 5381 * 33 ^ rest.length ≡ polynomial rest
      [ZMOD 2 ^ 32] := by
    have h := (ofBytes_modEq rest).sub_right (5381 * 33 ^ rest.length)
    rwa [add_sub_cancel_left] at h
  rw [ofBytes_append, add_sub_assoc]
  exact (foldl_push_modEq _ rest).trans (hrest.symm.add_left _)

/-- A hash is the number that it is congruent to, taken modulo `2 ^ 32`. -/
theorem toNat_eq_emod {hash : Digest} {n : ℤ} (h : (hash.toNat : ℤ) ≡ n [ZMOD 2 ^ 32]) :
    (hash.toNat : ℤ) = n % 2 ^ 32 := by
  have hlt : (hash.toNat : ℤ) < 2 ^ 32 := by exact_mod_cast hash.toNat_lt
  rw [← h.eq, Int.emod_eq_of_lt (Int.natCast_nonneg _) hlt]

/-! ## Equal digests -/

theorem eq_iff_modEq {hash hash' : Digest} :
    hash = hash' ↔ (hash.toNat : ℤ) ≡ hash'.toNat [ZMOD 2 ^ 32] := by
  constructor
  · rintro rfl
    rfl
  · intro h
    have heq := toNat_eq_emod h
    rw [← toNat_eq_emod (Int.ModEq.refl _)] at heq
    exact UInt32.toNat_inj.1 (by exact_mod_cast heq)

/-- Behind the same hash, sequences of one length come to the same hash exactly if their
polynomials are congruent. -/
theorem foldl_push_eq_iff {xs ys : List UInt8} (h : xs.length = ys.length) (hash : Digest) :
    xs.foldl push hash = ys.foldl push hash ↔ polynomial xs ≡ polynomial ys [ZMOD 2 ^ 32] := by
  have hxs := foldl_push_modEq hash xs
  have hys := foldl_push_modEq hash ys
  rw [← h] at hys
  rw [eq_iff_modEq]
  constructor
  · intro heq
    exact Int.ModEq.add_left_cancel' _ ((hxs.symm.trans heq).trans hys)
  · intro hpoly
    exact (hxs.trans (hpoly.add_left _)).trans hys.symm

/-- The digest is the polynomial of its bytes with 5381 in front, taken modulo `2 ^ 32`:
the bits that the shift drops never matter.  The digest of a sequence in two parts is
known from the digests of the parts.  Sequences of one length have the same digest
exactly if `2 ^ 32` divides the polynomial of their differences, so common bytes behind
them or in front of them change nothing about it. -/
theorem ofBytes_polynomial :
    (∀ (hash : Digest) (byte : UInt8),
      ((push hash byte).toNat : ℤ) = (hash.toNat * 33 + byte.toNat) % 2 ^ 32) ∧
    (∀ bytes : List UInt8, ((ofBytes bytes).toNat : ℤ) =
      (5381 * 33 ^ bytes.length +
        ∑ i : Fin bytes.length,
          ((bytes.get i).toNat : ℤ) * 33 ^ (bytes.length - 1 - i)) % 2 ^ 32) ∧
    (∀ front rest : List UInt8, ((ofBytes (front ++ rest)).toNat : ℤ) =
      ((ofBytes front).toNat * 33 ^ rest.length + (ofBytes rest).toNat
        - 5381 * 33 ^ rest.length) % 2 ^ 32) ∧
    ∀ (xs ys : List UInt8) (h : xs.length = ys.length),
      (ofBytes xs = ofBytes ys ↔ (2 ^ 32 : ℤ) ∣ ∑ i : Fin xs.length,
        (((xs.get i).toNat : ℤ) - (ys.get (i.cast h)).toNat) * 33 ^ (xs.length - 1 - i)) ∧
      (∀ rest, ofBytes (xs ++ rest) = ofBytes (ys ++ rest) ↔ ofBytes xs = ofBytes ys) ∧
      ∀ front, ofBytes (front ++ xs) = ofBytes (front ++ ys) ↔ ofBytes xs = ofBytes ys := by
  refine ⟨fun hash byte => toNat_eq_emod (push_modEq hash byte),
    fun bytes => toNat_eq_emod (ofBytes_modEq bytes),
    fun front rest => toNat_eq_emod (ofBytes_append_modEq front rest),
    fun xs ys h => ⟨?_, fun rest => ?_, fun front => ?_⟩⟩
  · rw [← polynomial_sub h, ofBytes, ofBytes, foldl_push_eq_iff h, ← Int.modEq_iff_dvd]
    exact Int.modEq_comm
  · rw [ofBytes_append, ofBytes_append]
    exact (foldl_push_injective rest).eq_iff
  · rw [ofBytes_append, ofBytes_append, foldl_push_eq_iff h, ofBytes, ofBytes,
      foldl_push_eq_iff h]

/-- Moving one unit of a byte to 33 units of its right neighbour is not seen, wherever the
two bytes stand. -/
theorem ofBytes_polynomial_neighbours :
    ofBytes [0x53, 1, 0] = ofBytes [0x53, 0, 33] ∧
      ofBytes [1, 0, 0xFF, 0xFF] = ofBytes [0, 33, 0xFF, 0xFF] ∧
      ofBytes [1, 0] ≠ ofBytes [0, 32] := by
  obtain ⟨-, -, -, hequal⟩ := ofBytes_polynomial
  obtain ⟨hcollide, hbehind, hfront⟩ := hequal [1, 0] [0, 33] rfl
  have hneighbours : ofBytes [1, 0] = ofBytes [0, 33] := hcollide.2 (by decide)
  refine ⟨(hfront [0x53]).2 hneighbours, (hbehind [0xFF, 0xFF]).2 hneighbours, ?_⟩
  rw [Ne, (hequal [1, 0] [0, 32] rfl).1]
  decide

end SaveRam.Digest
