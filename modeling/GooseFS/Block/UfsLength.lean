import GooseFS.Lib.Checked
import GooseFS.Block.Mapper

/-!
# Block lengths for reads from the under store

A worker that reads a block from the under store is told the length of that
block.  `ufs_block_length` computes it from the file length and the index of the
block, with its own saturating arithmetic on `i64`, while the segments of a read
are planned on `u64` by `BlockMapper::plan_read`.

The two agree: the lengths of the blocks of a file add up to the file
(`sum_ufsLength`), and every planned segment ends inside the length told for its
block (`planRead_le_ufsLength`).
-/

namespace GooseFS

open Lib List Option

def ufsBlockLength (fileLength blockSizeBytes : Int) (blockIndex : Nat) : Int :=
  if blockSizeBytes ≤ 0 then 0
  else
    let blockStart :=
      ((checkedI64 blockIndex).bind fun idx => checkedI64 (idx * blockSizeBytes)).getD i64Max
    max 0 (min (saturateI64 (fileLength - blockStart)) blockSizeBytes)

structure OpenUfsBlockOptions where
  ufsPath : Option String
  offsetInFile : Option Int
  blockSize : Option Int
  maxUfsReadConcurrency : Option Int
  mountId : Option Int
  noCache : Option Bool
  fileLength : Option Int
  deriving DecidableEq, Repr

namespace FileInfo

def nominalBlockSize (fi : FileInfo) : Int := fi.blockSizeBytes.getD (64 * 1024 * 1024)

/-- The block length that `build_ufs_read_options` reports.  Without a file
length there is nothing to clamp to. -/
def ufsLength (fi : FileInfo) (blockIndex : Nat) : Int :=
  match fi.length with
  | some len => ufsBlockLength len fi.nominalBlockSize blockIndex
  | none => fi.nominalBlockSize

/-- `template` is missing for a file without a path on the under store. -/
def buildUfsReadOptions (fi : FileInfo) (template : Option OpenUfsBlockOptions)
    (plan : BlockReadPlan) : Option OpenUfsBlockOptions :=
  template.map fun opts => { opts with
    offsetInFile := some (saturateI64 (plan.blockIndex * fi.nominalBlockSize))
    blockSize := some (fi.ufsLength plan.blockIndex) }

def blockCount (fi : FileInfo) : Nat := (fi.fileLength + fi.blockSize - 1) / fi.blockSize

/-- The length and the block size are numbers that an `i64` field carries, the
length not negative and the block size positive. -/
structure Sized (fi : FileInfo) : Prop where
  length_nonneg : 0 ≤ fi.length.getD 0
  length_lt : fi.length.getD 0 < 2 ^ 63
  blockSize_pos : 0 < fi.nominalBlockSize
  blockSize_lt : fi.nominalBlockSize < 2 ^ 63

end FileInfo

/-! ## The length of one block -/

theorem ufsBlockLength_eq {len bs : Nat} (hlen : (len : Int) < 2 ^ 63) (hbs : 0 < bs)
    (hmax : (bs : Int) < 2 ^ 63) (i : Nat) :
    ufsBlockLength len bs i = (min (len - i * bs) bs : Nat) := by
  have hpos : ¬ (bs : Int) ≤ 0 := by omega
  have hle : i ≤ i * bs := Nat.le_mul_of_pos_right i hbs
  have hcast : ((i * bs : Nat) : Int) = (i : Int) * bs := Int.natCast_mul i bs
  rw [ufsBlockLength, if_neg hpos]
  simp only [saturateI64, i64Min, i64Max]
  by_cases hfits : (i : Int) * bs < 2 ^ 63
  · -- the start of the block is representable
    rw [checkedI64_of_lt, bind_some, checkedI64_of_lt (by omega) hfits, getD_some, ← hcast]
    omega
  · -- the block starts past every representable length
    have hstart : ((checkedI64 i).bind fun idx => checkedI64 (idx * bs)) = none := by
      rcases Int.lt_or_le (i : Int) (2 ^ 63) with hi | hi
      · rw [checkedI64_of_lt (by omega) hi, bind_some, checkedI64_of_ge (Int.not_lt.mp hfits)]
      · rw [checkedI64_of_ge hi, bind_none]
    rw [hstart, getD_none]
    omega

theorem sum_min_sub (len bs : Nat) : ∀ n : Nat,
    ((range n).map fun i => ((min (len - i * bs) bs : Nat) : Int)).sum =
      (min len (n * bs) : Nat) := by
  intro n
  induction n with
  | zero => simp
  | succ n ih =>
    rw [range_succ, map_append, sum_append, ih, map_singleton, sum_singleton, Nat.succ_mul]
    omega

namespace FileInfo

variable {fi : FileInfo}

variable (h : fi.Sized)
include h

theorem Sized.blockSize_eq : (fi.blockSize : Int) = fi.nominalBlockSize :=
  asU64_of_nonneg (Int.le_of_lt h.blockSize_pos) (Int.lt_trans h.blockSize_lt (by decide))

theorem Sized.fileLength_eq : (fi.fileLength : Int) = fi.length.getD 0 :=
  asU64_of_nonneg h.length_nonneg (Int.lt_trans h.length_lt (by decide))

theorem Sized.pos : 0 < fi.blockSize := by
  have heq := h.blockSize_eq
  have hpos := h.blockSize_pos
  omega

theorem Sized.ufsLength_eq {len : Int} (hlen : fi.length = some len) (i : Nat) :
    fi.ufsLength i = (min (fi.fileLength - i * fi.blockSize) fi.blockSize : Nat) := by
  have hfile : (fi.fileLength : Int) = len := by
    rw [h.fileLength_eq, hlen]
    rfl
  have hunfold : fi.ufsLength i = ufsBlockLength len fi.nominalBlockSize i := by
    rw [ufsLength, hlen]
  have hle := h.length_lt
  have hmax := h.blockSize_lt
  rw [← h.fileLength_eq] at hle
  rw [← h.blockSize_eq] at hmax
  rw [hunfold, ← hfile, ← h.blockSize_eq]
  exact ufsBlockLength_eq hle h.pos hmax i

theorem Sized.sum_ufsLength : ((range fi.blockCount).map fi.ufsLength).sum = fi.fileLength := by
  have hpos := h.pos
  cases hlen : fi.length with
  | none =>
    have hzero : fi.fileLength = 0 := by
      rw [fileLength, hlen]
      rfl
    have hcount : fi.blockCount = 0 := by
      rw [blockCount, hzero, Nat.zero_add]
      exact Nat.div_eq_of_lt (Nat.sub_lt hpos Nat.one_pos)
    rw [hcount, hzero]
    rfl
  | some len =>
    have hcover : fi.fileLength ≤ fi.blockCount * fi.blockSize := by
      have hdiv := Nat.div_add_mod' (fi.fileLength + fi.blockSize - 1) fi.blockSize
      have hmod := Nat.mod_lt (fi.fileLength + fi.blockSize - 1) hpos
      rw [blockCount]
      omega
    rw [map_congr_left fun i _ => h.ufsLength_eq hlen i, sum_min_sub, Nat.min_eq_left hcover]

end FileInfo

namespace BlockMapper

variable {fi : FileInfo} {offset length : Nat} {p : BlockReadPlan}

theorem planRead_le_ufsLength (h : fi.Sized) (hp : p ∈ planRead fi offset length) :
    (p.offsetInBlock + p.length : Nat) ≤ fi.ufsLength p.blockIndex := by
  obtain ⟨hin, hpos, _⟩ := planRead_mem h.pos hp
  have hbounds := (planRead_tiles h.pos offset length).mem_bounds (p.seg fi.blockSize)
    (mem_map_of_mem hp)
  simp only [BlockReadPlan.seg] at hbounds
  cases hlen : fi.length with
  | none =>
    have hzero : fi.fileLength = 0 := by
      rw [FileInfo.fileLength, hlen]
      rfl
    omega
  | some len =>
    rw [h.ufsLength_eq hlen]
    omega

/-- The segments of a read are consecutive and cover the range clamped to the
file; each lies inside one block, and inside the length that the worker is told
for that block; and these lengths add up to the file. -/
theorem planRead_covers_ufsBlocks (h : fi.Sized) (template : OpenUfsBlockOptions) :
    (∀ offset length : Nat,
      Tiles offset ((planRead fi offset length).map (BlockReadPlan.seg fi.blockSize))
          (offset + min length (fi.fileLength - offset)) ∧
        ∀ p ∈ planRead fi offset length, p.offsetInBlock + p.length ≤ fi.blockSize ∧
          ∃ opts told, fi.buildUfsReadOptions (some template) p = some opts ∧
            opts.blockSize = some told ∧ (p.offsetInBlock + p.length : Nat) ≤ told) ∧
      ((List.range fi.blockCount).map fi.ufsLength).sum = fi.fileLength := by
  refine ⟨fun offset length => ⟨planRead_tiles h.pos offset length, fun p hp => ?_⟩,
    h.sum_ufsLength⟩
  exact ⟨(planRead_mem h.pos hp).1, _, _, rfl, rfl, planRead_le_ufsLength h hp⟩

def partialTail : FileInfo := ⟨none, some 10, some 4, [7, 8, 9], []⟩

theorem planRead_covers_ufsBlocks_partialTail :
    ((List.range partialTail.blockCount).map partialTail.ufsLength).sum = 10 ∧
      Tiles 3 ((planRead partialTail 3 100).map (BlockReadPlan.seg 4)) 10 := by
  have hsized : partialTail.Sized := ⟨by decide, by decide, by decide, by decide⟩
  have h := planRead_covers_ufsBlocks hsized ⟨some "/ufs/f", none, none, none, none, none, none⟩
  exact ⟨h.2, (h.1 3 100).1⟩

end BlockMapper

end GooseFS
