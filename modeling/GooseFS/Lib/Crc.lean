import Mathlib.Logic.Function.Iterate

/-!
# Reflected cyclic redundancy checks

A register of `w` bits that moves to the right and takes in a message bit by bit,
least significant bit first (`serial`).  A byte may as well be added to the register
and divided out in eight steps (`foldl_byteBits`), and the steps of a register are
those of its low byte, added to what lies above it (`steps_eight`).  A table of the
256 low bytes therefore does for eight bits what the serial register does for one.
-/

namespace Lib.Crc

open BitVec

variable {w : Nat} (poly : BitVec w)

def bitStep (r : BitVec w) : BitVec w :=
  if r.getLsbD 0 then (r >>> 1) ^^^ poly else r >>> 1

def feedBit (r : BitVec w) (bit : Bool) : BitVec w :=
  if (r.getLsbD 0).xor bit then (r >>> 1) ^^^ poly else r >>> 1

def byteBits (b : BitVec 8) : List Bool := (List.range 8).map b.getLsbD

def serial (r : BitVec w) (message : List (BitVec 8)) : BitVec w :=
  (message.flatMap byteBits).foldl (feedBit poly) r

theorem bitStep_xor_of_even {r k : BitVec w} (hk : k.getLsbD 0 = false) :
    bitStep poly (r ^^^ k) = bitStep poly r ^^^ (k >>> 1) := by
  have hlow : (r ^^^ k).getLsbD 0 = r.getLsbD 0 := by
    rw [getLsbD_xor, hk, Bool.xor_false]
  rw [bitStep, bitStep, hlow, ushiftRight_xor_distrib]
  split
  · rw [xor_assoc, xor_assoc, BitVec.xor_comm (k >>> 1)]
  · rfl

theorem iterate_bitStep_xor {h : BitVec w} (z : BitVec w) : ∀ n : Nat,
    (∀ i < n, h.getLsbD i = false) →
      (bitStep poly)^[n] (z ^^^ h) = (bitStep poly)^[n] z ^^^ (h >>> n) := by
  intro n
  induction n with
  | zero => intro _; rw [ushiftRight_zero]; rfl
  | succ n ih =>
    intro hlow
    have hbit : (h >>> n).getLsbD 0 = false := by
      rw [getLsbD_ushiftRight, Nat.add_zero]
      exact hlow n (Nat.lt_succ_self n)
    rw [Function.iterate_succ_apply', ih fun i hi => hlow i (Nat.lt_succ_of_lt hi),
      bitStep_xor_of_even poly hbit, Function.iterate_succ_apply', shiftRight_add]

theorem steps_eight (r : BitVec w) :
    (bitStep poly)^[8] r = (bitStep poly)^[8] ((r.setWidth 8).setWidth w) ^^^ (r >>> 8) := by
  have hsplit : r = (r.setWidth 8).setWidth w ^^^ ((r >>> 8) <<< 8) := by
    refine eq_of_getLsbD_eq fun i hi => ?_
    by_cases h8 : i < 8
    · simp [hi, h8]
    · have hback : 8 + (i - 8) = i := by omega
      simp [hi, h8, hback]
  have hhigh : ((r >>> 8) <<< 8) >>> 8 = r >>> 8 := by
    refine eq_of_getLsbD_eq fun i hi => ?_
    by_cases hin : 8 + i < w
    · simp [hin]
    · simp [hin, getLsbD_of_ge r (8 + i) (Nat.le_of_not_lt hin)]
  have hlow : ∀ i < 8, ((r >>> 8) <<< 8).getLsbD i = false := fun i hi => by simp [hi]
  have h := iterate_bitStep_xor poly ((r.setWidth 8).setWidth w) 8 hlow
  rw [← hsplit, hhigh] at h
  exact h

/-- The bits of `x` so far, against as many steps from a register that `x` was added to:
what differs is the part of `x` that is still to come. -/
theorem foldl_feedBit (r x : BitVec w) : ∀ n : Nat,
    ((List.range n).map x.getLsbD).foldl (feedBit poly) r =
      (bitStep poly)^[n] (r ^^^ x) ^^^ (x >>> n) := by
  intro n
  induction n with
  | zero =>
    show r = r ^^^ x ^^^ x >>> 0
    rw [BitVec.ushiftRight_zero, BitVec.xor_assoc, BitVec.xor_self, BitVec.xor_zero]
  | succ n ih =>
    have hbit : (((bitStep poly)^[n] (r ^^^ x) ^^^ (x >>> n)).getLsbD 0).xor (x.getLsbD n) =
        ((bitStep poly)^[n] (r ^^^ x)).getLsbD 0 := by
      rw [getLsbD_xor, getLsbD_ushiftRight, Nat.add_zero, Bool.xor_assoc,
        Bool.xor_self, Bool.xor_false]
    rw [List.range_succ, List.map_append, List.foldl_append, ih]
    show feedBit poly ((bitStep poly)^[n] (r ^^^ x) ^^^ (x >>> n)) (x.getLsbD n) = _
    rw [feedBit, hbit, Function.iterate_succ_apply', bitStep, ushiftRight_xor_distrib,
      shiftRight_add x n 1]
    split
    · rw [xor_assoc, xor_assoc, BitVec.xor_comm (x >>> n >>> 1)]
    · rfl

theorem foldl_byteBits (hw : 8 ≤ w) (r : BitVec w) (b : BitVec 8) :
    (byteBits b).foldl (feedBit poly) r = (bitStep poly)^[8] (r ^^^ b.setWidth w) := by
  have hbits : byteBits b = (List.range 8).map (b.setWidth w).getLsbD := by
    refine List.map_congr_left fun i hi => ?_
    have hi8 := List.mem_range.mp hi
    rw [getLsbD_setWidth, decide_eq_true (by omega : i < w), Bool.true_and]
  have hgone : b.setWidth w >>> 8 = 0#w := by
    refine eq_of_getLsbD_eq fun i _ => ?_
    simp
  rw [hbits, foldl_feedBit, hgone, xor_zero]

end Lib.Crc
