import Mathlib.Data.List.AList

/-!
# LRU cache

A bounded map that drops the least recently used key when it is full.  The entries
are kept in the order of their last use, the latest first, which is the order an
`AList` keeps when a key is inserted again.

What a cache holds after an operation is described by `peek`, which does not count
as a use.
-/

namespace Lib

structure LruCache (κ α : Type) where
  cap : Nat
  table : AList fun _ : κ => α

namespace LruCache

variable {κ α : Type}

def empty (cap : Nat) : LruCache κ α := ⟨cap, ∅⟩

variable [DecidableEq κ] (c : LruCache κ α) {k k' : κ} {v x : α}

def peek (k : κ) : Option α := c.table.lookup k

def get (k : κ) : LruCache κ α × Option α :=
  match c.peek k with
  | none => (c, none)
  | some v => ({ c with table := c.table.insert k v }, some v)

def set (k : κ) (v : α) : LruCache κ α := { c with table := c.table.insert k v }

def truncate (n : Nat) (t : AList fun _ : κ => α) : AList fun _ : κ => α :=
  ⟨t.entries.take n, t.nodupKeys.sublist (List.take_sublist n _)⟩

def put (k : κ) (v : α) : LruCache κ α :=
  { c with table := truncate c.cap (c.table.insert k v) }

def pop (k : κ) : LruCache κ α := { c with table := c.table.erase k }

@[simp] theorem get_snd : (c.get k).2 = c.peek k := by
  unfold get
  split
  · next h => exact h.symm
  · next h => exact h.symm

theorem peek_set : (c.set k v).peek k' = if k' = k then some v else c.peek k' := by
  by_cases h : k' = k
  · rw [if_pos h, h]
    exact AList.lookup_insert _
  · rw [if_neg h]
    exact AList.lookup_insert_ne h

@[simp] theorem peek_get (k' : κ) : (c.get k).1.peek k' = c.peek k' := by
  unfold get
  split
  · rfl
  · next v h =>
    have hset : (c.set k v).peek k' = c.peek k' := by
      rw [peek_set]
      split
      · next heq => rw [heq, h]
      · rfl
    exact hset

theorem peek_pop : (c.pop k).peek k' = if k' = k then none else c.peek k' := by
  by_cases h : k' = k
  · rw [if_pos h, h]
    exact AList.lookup_erase _ _
  · rw [if_neg h]
    exact AList.lookup_erase_ne h

theorem lookup_of_truncate {n : Nat} {t : AList fun _ : κ => α}
    (h : (truncate n t).lookup k = some v) : t.lookup k = some v := by
  have hmem := (List.mem_dlookup_iff (truncate n t).nodupKeys).1 h
  exact (List.mem_dlookup_iff t.nodupKeys).2 (List.mem_of_mem_take hmem)

theorem peek_of_put (h : (c.put k v).peek k' = some x) : (c.set k v).peek k' = some x :=
  lookup_of_truncate h

end LruCache

end Lib
