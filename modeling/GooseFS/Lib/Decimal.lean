import Mathlib.Algebra.Ring.Int.Defs
import Mathlib.Algebra.Ring.Nat
import Mathlib.Tactic.Common

/-!
# Decimal integers

Reading a 32-bit or an unsigned 64-bit integer from text the way a standard library
does: a sign or none, then decimal digits, and nothing outside the range.  What is
printed is read back (`parseInt32_toString`).
-/

namespace Lib

def parseDigits (cs : List Char) : Option Nat :=
  if cs ≠ [] ∧ cs.all Char.isDigit then some (Nat.ofDigitChars 10 cs 0) else none

def parseSigned : List Char → Option Int
  | '-' :: cs => (parseDigits cs).map fun n => -Int.ofNat n
  | '+' :: cs => (parseDigits cs).map Int.ofNat
  | cs => (parseDigits cs).map Int.ofNat

def parseInt32 (s : String) : Option Int32 :=
  (parseSigned s.toList).bind fun n =>
    if Int32.minValue.toInt ≤ n ∧ n ≤ Int32.maxValue.toInt then some (Int32.ofInt n) else none

def parseUnsigned : List Char → Option Nat
  | '+' :: cs => parseDigits cs
  | cs => parseDigits cs

def parseUInt64 (s : String) : Option Nat :=
  (parseUnsigned s.toList).bind fun n => if n < 2 ^ 64 then some n else none

theorem toList_repr_ne_nil (n : Nat) : n.repr.toList ≠ [] := by
  have hpos : 0 < n.repr.length := Nat.length_repr_pos
  rw [← String.length_toList] at hpos
  exact List.ne_nil_of_length_pos hpos

theorem isDigit_of_mem_repr {n : Nat} {c : Char} (hc : c ∈ n.repr.toList) : c.isDigit = true := by
  rw [Nat.toList_repr] at hc
  exact Nat.isDigit_of_mem_toDigits (by decide) (by decide) hc

theorem parseDigits_repr (n : Nat) : parseDigits n.repr.toList = some n := by
  have hdigits : n.repr.toList.all Char.isDigit = true :=
    List.all_eq_true.mpr fun c hc => isDigit_of_mem_repr hc
  rw [parseDigits, if_pos ⟨toList_repr_ne_nil n, hdigits⟩, Nat.toList_repr,
    Nat.ofDigitChars_ten_toDigits]

theorem parseSigned_repr (n : Nat) : parseSigned n.repr.toList = some (n : Int) := by
  have hdigits := parseDigits_repr n
  have hfirst : ∀ c ∈ n.repr.toList, c ≠ '-' ∧ c ≠ '+' := by
    intro c hc
    have hdigit := isDigit_of_mem_repr hc
    constructor
    · rintro rfl
      revert hdigit
      decide
    · rintro rfl
      revert hdigit
      decide
  unfold parseSigned
  split
  case h_1 heq => exact absurd rfl (hfirst '-' (heq ▸ List.mem_cons_self)).1
  case h_2 heq => exact absurd rfl (hfirst '+' (heq ▸ List.mem_cons_self)).2
  case h_3 =>
    rw [hdigits]
    rfl

theorem parseSigned_toString (n : Int) : parseSigned (toString n).toList = some n := by
  rw [Int.toString_eq_repr, Int.repr_eq_if]
  split
  case isTrue h =>
    rw [parseSigned_repr]
    exact congrArg some (Int.toNat_of_nonneg h)
  case isFalse h =>
    have hminus : "-".toList = ['-'] := by simp
    rw [String.toList_append, hminus, List.singleton_append, parseSigned, parseDigits_repr,
      Option.map_some]
    refine congrArg some ?_
    rw [Int.ofNat_eq_natCast]
    omega

theorem parseInt32_toString (n : Int32) : parseInt32 (toString n) = some n := by
  have hsigned : parseSigned (toString n).toList = some n.toInt := parseSigned_toString n.toInt
  rw [parseInt32, hsigned, Option.bind_some, if_pos ⟨Int32.minValue_le_toInt n, Int32.toInt_le n⟩,
    Int32.ofInt_toInt]

theorem mem_toString_int32 {n : Int32} {c : Char} (hc : c ∈ (toString n).toList) :
    c = '-' ∨ c.isDigit = true := by
  have hprint : toString n = n.toInt.repr := rfl
  rw [hprint, Int.repr_eq_if] at hc
  split at hc
  · exact .inr (isDigit_of_mem_repr hc)
  · rw [String.toList_append, List.mem_append] at hc
    rcases hc with hc | hc
    · exact .inl (by simpa using hc)
    · exact .inr (isDigit_of_mem_repr hc)

end Lib
