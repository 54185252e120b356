import GooseFS.Lib.Slice

/-!
# Cursors

A cursor is a position in a list, never behind its end.  A read hands out the
elements in front of the cursor and moves over them.  How many of the elements it
is asked for a read hands out, and whether it fails, is an input; it hands out at
least one if there is one and one is asked for, and a failed read moves nothing.
-/

namespace Lib

@[ext] structure Cursor (α : Type) where
  content : List α
  pos : Nat
  le : pos ≤ content.length
  deriving DecidableEq

namespace Cursor

variable {α ε : Type} (c : Cursor α) {m n : Nat}

def rest : Nat := c.content.length - c.pos

def ahead (n : Nat) : List α := slice c.content c.pos n

def advance (n : Nat) : Cursor α :=
  ⟨c.content, c.pos + min n c.rest, by have := c.le; simp only [rest]; omega⟩

def seekTo (target : Int) : Cursor α :=
  ⟨c.content, (max 0 (min target c.content.length)).toNat, by omega⟩

/-- How many elements a read of at most `cap` hands out. -/
def granted (cap n : Nat) : Nat := min (min cap c.rest) (n + 1)

def read (cap : Nat) : Except ε Nat → Except ε (List α) × Cursor α
  | .error e => (.error e, c)
  | .ok n => (.ok (c.ahead (c.granted cap n)), c.advance (c.granted cap n))

@[simp] theorem advance_content (n : Nat) : (c.advance n).content = c.content := rfl

theorem granted_le_rest (cap n : Nat) : c.granted cap n ≤ c.rest := by
  unfold granted
  omega

theorem granted_le_cap (cap n : Nat) : c.granted cap n ≤ cap := by
  unfold granted
  omega

theorem granted_pos {cap : Nat} (hcap : 0 < cap) (hrest : 0 < c.rest) : 0 < c.granted cap n := by
  unfold granted
  omega

theorem length_ahead (h : n ≤ c.rest) : (c.ahead n).length = n := by
  rw [ahead, slice_length]
  exact Nat.min_eq_left h

theorem advance_pos (h : n ≤ c.rest) : (c.advance n).pos = c.pos + n := by
  show c.pos + min n c.rest = c.pos + n
  rw [Nat.min_eq_left h]

theorem advance_rest (h : n ≤ c.rest) : (c.advance n).rest = c.rest - n := by
  rw [rest, advance_pos c h, advance_content, rest]
  omega

@[simp] theorem advance_zero : c.advance 0 = c := by
  simp [advance]

theorem advance_advance (hm : m ≤ c.rest) (n : Nat) :
    (c.advance m).advance n = c.advance (m + n) := by
  refine Cursor.ext rfl ?_
  show (c.advance m).pos + min n (c.advance m).rest = c.pos + min (m + n) c.rest
  rw [advance_pos c hm, advance_rest c hm]
  omega

theorem ahead_append (h : m ≤ c.rest) (n : Nat) :
    c.ahead m ++ (c.advance m).ahead n = c.ahead (m + n) := by
  rw [ahead, ahead, ahead, advance_pos c h, advance_content, slice_append]

end Cursor

end Lib
