import Mathlib.Algebra.Ring.Int.Defs
import Mathlib.Algebra.Ring.Nat
import Mathlib.Tactic.Common

/-!
# Checked 64-bit arithmetic

Numbers are exact and a 64-bit operation is given by its exact value: the checked
one has an outcome exactly if the type carries that value, the saturating one
moves it to the nearest value that the type carries.
-/

namespace Lib

def i64Max : Int := 2 ^ 63 - 1

def i64Min : Int := -2 ^ 63

/-- The outcome of a checked `i64` operation whose exact value is `n`. -/
def checkedI64 (n : Int) : Option Int := if i64Min ≤ n ∧ n ≤ i64Max then some n else none

/-- The outcome of a checked `u64` operation whose exact value is `n`. -/
def checkedU64 (n : Nat) : Option Nat := if n < 2 ^ 64 then some n else none

/-- The outcome of a saturating `i64` operation whose exact value is `n`. -/
def saturateI64 (n : Int) : Int := max i64Min (min i64Max n)

def asI64 (n : Nat) : Int := (n : Int).bmod (2 ^ 64)

theorem checkedI64_of_lt {n : Int} (hmin : -2 ^ 63 ≤ n := by omega)
    (hmax : n < 2 ^ 63 := by omega) : checkedI64 n = some n :=
  if_pos ⟨hmin, Int.le_sub_one_of_lt hmax⟩

theorem checkedI64_of_low {n : Int} (h : n < -2 ^ 63) : checkedI64 n = none :=
  if_neg fun hn => absurd hn.1 (Int.not_le.mpr h)

theorem checkedI64_of_ge {n : Int} (h : 2 ^ 63 ≤ n) : checkedI64 n = none :=
  if_neg fun hn => absurd (Int.lt_of_le_sub_one hn.2) (Int.not_lt.mpr h)

variable {n : Nat}

theorem checkedU64_of_lt (h : n < 2 ^ 64) : checkedU64 n = some n := if_pos h

theorem checkedU64_of_ge (h : 2 ^ 64 ≤ n) : checkedU64 n = none :=
  if_neg (Nat.not_lt.mpr h)

theorem asI64_of_lt (h : n < 2 ^ 63) : asI64 n = n :=
  Int.bmod_eq_of_le (by omega) (by omega)

theorem asI64_of_ge (h : 2 ^ 63 ≤ n) (hlt : n < 2 ^ 64) : asI64 n = n - 2 ^ 64 := by
  have hsub : asI64 n = ((n : Int) - 2 ^ 64).bmod (2 ^ 64) := (Int.sub_bmod_right ..).symm
  rw [hsub]
  exact Int.bmod_eq_of_le (by omega) (by omega)

end Lib
