import Mathlib.Algebra.Ring.Int.Defs
import Mathlib.Algebra.Ring.Nat
import Mathlib.Data.List.Basic

/-!
# Slices of a list and tilings of a range

`slice xs off len` is the window of `len` elements that starts at `off`, cut
short at the end of the list.  Readers that answer a range piece by piece are
correct because their pieces tile it: `Tiles` says that a list of `(off, len)`
pairs covers `[a, b)` from left to right with no hole and no overlap, and
`Tiles.flatMap_slice` turns that into an equation between the concatenated
pieces and the one slice of the whole range.
-/

namespace Lib

open List

variable {α : Type} {len off : Nat} {xs : List α} {n : Nat} {p : List α}

/-- The window `[off, off + len)` of `xs`, clipped to the list. -/
def slice (xs : List α) (off len : Nat) : List α := (xs.drop off).take len

@[simp] theorem slice_zero_len (xs : List α) (off : Nat) : slice xs off 0 = [] :=
  take_zero

theorem slice_length (xs : List α) (off len : Nat) :
    (slice xs off len).length = min len (xs.length - off) := by
  rw [slice, length_take, length_drop]

theorem slice_length_le (xs : List α) (off len : Nat) : (slice xs off len).length ≤ len := by
  rw [slice_length]
  exact Nat.min_le_left _ _

theorem slice_length_of_le (h : off + len ≤ xs.length) : (slice xs off len).length = len := by
  rw [slice_length]
  omega

theorem slice_eq_nil_of_le (h : xs.length ≤ off) : slice xs off len = [] := by
  rw [slice, drop_eq_nil_of_le h, take_nil]

theorem slice_append (xs : List α) (off m n : Nat) :
    slice xs off m ++ slice xs (off + m) n = slice xs off (m + n) := by
  rw [slice, slice, slice, take_add, drop_drop]

theorem drop_slice (xs : List α) (off len k : Nat) :
    (slice xs off len).drop k = slice xs (off + k) (len - k) := by
  rw [slice, slice, drop_take, drop_drop]

theorem take_slice (xs : List α) (off len k : Nat) :
    (slice xs off len).take k = slice xs off (min k len) := by
  rw [slice, slice, take_take]

theorem slice_slice {a : Nat} (h : a + n ≤ len) :
    slice (slice xs off len) a n = slice xs (off + a) n := by
  rw [slice, drop_slice, take_slice, Nat.min_eq_left (by omega)]

theorem slice_clamp (xs : List α) (off len : Nat) :
    slice xs off (min len (xs.length - off)) = slice xs off len := by
  have hall : (xs.drop off).take (xs.length - off) = xs.drop off :=
    take_of_length_le (Nat.le_of_eq length_drop)
  rw [slice, slice, ← take_take, hall]

theorem slice_eq_filterMap (xs : List α) (off n : Nat) :
    slice xs off n = (range n).filterMap fun k => xs[off + k]? := by
  induction n with
  | zero => exact slice_zero_len xs off
  | succ n ih =>
    rw [← slice_append, ih, range_succ, filterMap_append, slice, take_one, head?_drop]
    cases h : xs[off + n]? <;> simp [h]

theorem eq_slice_of_front (h : p <+: slice xs off len) : p = slice xs off p.length := by
  have hlen : p.length ≤ len := Nat.le_trans h.length_le (slice_length_le xs off len)
  have htake := prefix_iff_eq_take.mp h
  rw [take_slice, Nat.min_eq_left hlen] at htake
  exact htake

theorem front_append_slice (h : p <+: slice xs off len) (n : Nat) :
    p ++ slice xs (off + p.length) n = slice xs off (p.length + n) := by
  rw [← slice_append, ← eq_slice_of_front h]

theorem eq_slice_of_pieces {last : List α} (hlast : last.length ≤ n) :
    ∀ {ps : List (List α)}, (∀ p ∈ ps, p.length = n) → ∀ (i : Nat) (p : List α),
      (ps ++ [last])[i]? = some p → p = slice (ps.flatten ++ last) (i * n) n := by
  intro ps
  induction ps with
  | nil =>
    intro _ i p hp
    cases i with
    | zero =>
      cases hp
      rw [Nat.zero_mul, slice, drop_zero, flatten_nil, nil_append, take_of_length_le hlast]
    | succ i => cases hp
  | cons q rest ih =>
    intro hps i p hp
    have hq : q.length = n := hps q (mem_cons_self ..)
    rw [flatten_cons, append_assoc]
    cases i with
    | zero =>
      cases hp
      rw [Nat.zero_mul, slice, drop_zero, take_left' hq]
    | succ i =>
      rw [ih (fun r hr => hps r (mem_cons_of_mem _ hr)) i p hp, slice, slice, Nat.succ_mul,
        Nat.add_comm, ← drop_drop, drop_left' hq]

/-- The pieces cover `[a, b)` from left to right, each of them non-empty. -/
def Tiles : Nat → List (Nat × Nat) → Nat → Prop
  | a, [], b => a = b
  | a, (off, len) :: rest, b => off = a ∧ 0 < len ∧ Tiles (a + len) rest b

namespace Tiles

theorem le : ∀ {segs : List (Nat × Nat)} {a b : Nat}, Tiles a segs b → a ≤ b
  | [], _, _, h => Nat.le_of_eq h
  | (_, len) :: _, a, _, h => Nat.le_trans (Nat.le_add_right a len) h.2.2.le

theorem mem_bounds : ∀ {segs : List (Nat × Nat)} {a b : Nat}, Tiles a segs b →
    ∀ s ∈ segs, a ≤ s.1 ∧ 0 < s.2 ∧ s.1 + s.2 ≤ b
  | [], _, _, _, s, hs => by simp at hs
  | (off, len) :: rest, a, b, h, s, hs => by
    obtain ⟨hoff, hlen, hrest⟩ := h
    rcases mem_cons.mp hs with rfl | hs
    · have := hrest.le
      exact ⟨Nat.le_of_eq hoff.symm, hlen, by simp only; omega⟩
    · have := mem_bounds hrest s hs
      exact ⟨by omega, this.2.1, this.2.2⟩

theorem flatMap_of_append {f : Nat → Nat → List α} (hzero : ∀ a, f a 0 = [])
    (happend : ∀ a m n, f a m ++ f (a + m) n = f a (m + n)) :
    ∀ {segs : List (Nat × Nat)} {a b : Nat}, Tiles a segs b →
      segs.flatMap (fun s => f s.1 s.2) = f a (b - a)
  | [], a, b, h => by
    cases h
    rw [Nat.sub_self, hzero, flatMap_nil]
  | (off, len) :: rest, a, b, h => by
    obtain ⟨rfl, _, hrest⟩ := h
    have hle := hrest.le
    rw [flatMap_cons, flatMap_of_append hzero happend hrest, happend]
    congr 1
    omega

theorem flatMap_slice (xs : List α) {segs : List (Nat × Nat)} {a b : Nat} (h : Tiles a segs b) :
    segs.flatMap (fun s => slice xs s.1 s.2) = slice xs a (b - a) :=
  h.flatMap_of_append (slice_zero_len xs) (slice_append xs)

end Tiles

end Lib
