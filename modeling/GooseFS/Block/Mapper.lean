import GooseFS.Lib.Slice
import GooseFS.Block.FileInfo

/-!
# Block mapper

`planRead` splits a byte range of a file into one segment for each block it
touches.  The source's `while remaining > 0` loop consumes at least one byte a
turn, so `planLoop` recurses on a fuel that starts at the number of bytes left.
The result this file exists for is `planRead_tiles`: the segments, placed in
the file by `BlockReadPlan.seg`, tile the requested range clamped to the file.
-/

namespace GooseFS

open Lib

structure BlockReadPlan where
  blockId : Int
  blockIndex : Nat
  offsetInBlock : Nat
  length : Nat
  deriving DecidableEq, Repr

def BlockReadPlan.seg (bs : Nat) (p : BlockReadPlan) : Nat × Nat :=
  (p.blockIndex * bs + p.offsetInBlock, p.length)

namespace BlockMapper

def planLoop (blockIds : List Int) (bs : Nat) : Nat → Nat → Nat → List BlockReadPlan
  | 0, _, _ => []
  | fuel + 1, currentOffset, remaining =>
    if remaining = 0 then []
    else
      let blockIndex := currentOffset / bs
      let offsetInBlock := currentOffset % bs
      let bytesInBlock := min remaining (bs - offsetInBlock)
      { blockId := blockIds.getD blockIndex (-1), blockIndex, offsetInBlock,
        length := bytesInBlock } ::
        planLoop blockIds bs fuel (currentOffset + bytesInBlock) (remaining - bytesInBlock)

def planRead (fi : FileInfo) (offset length : Nat) : List BlockReadPlan :=
  if fi.blockSize = 0 ∨ length = 0 ∨ fi.fileLength ≤ offset then []
  else
    let effectiveLength := min length (fi.fileLength - offset)
    if effectiveLength = 0 then []
    else planLoop fi.blockIds fi.blockSize effectiveLength offset effectiveLength

section Loop

variable {blockIds : List Int} {bs : Nat}

theorem planLoop_tiles (hbs : 0 < bs) : ∀ (fuel off rem : Nat), rem ≤ fuel →
    Tiles off ((planLoop blockIds bs fuel off rem).map (BlockReadPlan.seg bs)) (off + rem) := by
  intro fuel
  induction fuel with
  | zero =>
    intro off rem h
    have hrem : rem = 0 := by omega
    subst hrem
    rfl
  | succ fuel ih =>
    intro off rem h
    by_cases hrem : rem = 0
    · rw [planLoop, if_pos hrem, hrem]
      rfl
    · have hmod := Nat.mod_lt off hbs
      have hdiv : off / bs * bs + off % bs = off := Nat.div_add_mod' off bs
      have hpos : 0 < min rem (bs - off % bs) := by omega
      rw [planLoop, if_neg hrem, List.map_cons]
      refine ⟨hdiv, hpos, ?_⟩
      have hnext := ih (off + min rem (bs - off % bs)) (rem - min rem (bs - off % bs)) (by omega)
      have hend : off + min rem (bs - off % bs) + (rem - min rem (bs - off % bs)) = off + rem := by
        omega
      rw [hend] at hnext
      exact hnext

/-- A segment stays inside its block, is not empty, and carries the id that
`block_ids` lists for the block. -/
theorem planLoop_mem (hbs : 0 < bs) : ∀ {fuel off rem : Nat} {p : BlockReadPlan},
    p ∈ planLoop blockIds bs fuel off rem → p.offsetInBlock + p.length ≤ bs ∧ 0 < p.length ∧
        p.blockId = blockIds.getD p.blockIndex (-1) := by
  intro fuel
  induction fuel with
  | zero => intro off rem p hp; simp [planLoop] at hp
  | succ fuel ih =>
    intro off rem p hp
    by_cases hrem : rem = 0
    · rw [planLoop, if_pos hrem] at hp
      simp at hp
    · rw [planLoop, if_neg hrem] at hp
      have hmod := Nat.mod_lt off hbs
      rcases List.mem_cons.mp hp with rfl | hp
      · exact ⟨by simp only; omega, by simp only; omega, rfl⟩
      · exact ih hp

end Loop

theorem planRead_tiles {fi : FileInfo} (hbs : 0 < fi.blockSize) (offset length : Nat) :
    Tiles offset ((planRead fi offset length).map (BlockReadPlan.seg fi.blockSize))
      (offset + min length (fi.fileLength - offset)) := by
  by_cases hempty : fi.blockSize = 0 ∨ length = 0 ∨ fi.fileLength ≤ offset
  · have hzero : min length (fi.fileLength - offset) = 0 := by omega
    rw [planRead, if_pos hempty, hzero]
    rfl
  · have hne : ¬ min length (fi.fileLength - offset) = 0 := by omega
    rw [planRead, if_neg hempty]
    simp only [if_neg hne]
    exact planLoop_tiles hbs _ _ _ (Nat.le_refl _)

theorem planRead_mem {fi : FileInfo} (hbs : 0 < fi.blockSize) {offset length : Nat}
    {p : BlockReadPlan} (hp : p ∈ planRead fi offset length) :
    p.offsetInBlock + p.length ≤ fi.blockSize ∧ 0 < p.length ∧
      p.blockId = fi.blockIds.getD p.blockIndex (-1) := by
  rw [planRead] at hp
  split at hp
  · simp at hp
  · simp only at hp
    split at hp
    · simp at hp
    · exact planLoop_mem hbs hp

end BlockMapper

end GooseFS
