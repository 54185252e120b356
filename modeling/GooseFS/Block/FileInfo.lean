import GooseFS.Error

/-!
# File metadata

The part of the `FileInfo` message that the readers use.  Protobuf fields are
optional; a missing one is `none`.
-/

namespace GooseFS

structure BlockInfo where
  blockId : Option Int
  deriving DecidableEq, Repr

structure FileBlockInfo where
  blockInfo : Option BlockInfo
  offset : Option Int
  deriving DecidableEq, Repr

structure FileInfo where
  folder : Option Bool
  length : Option Int
  blockSizeBytes : Option Int
  blockIds : List Int
  fileBlockInfos : List FileBlockInfo
  deriving DecidableEq, Repr

/-- A signed 64-bit number read as an unsigned one, the source's `as u64`. -/
def asU64 (n : Int) : Nat := (n % 2 ^ 64).toNat

theorem asU64_of_nonneg {n : Int} (h : 0 ≤ n) (hlt : n < 2 ^ 64) : (asU64 n : Int) = n := by
  rw [asU64, Int.emod_eq_of_lt h hlt, Int.toNat_of_nonneg h]

namespace FileInfo

def blockSize (fi : FileInfo) : Nat := asU64 (fi.blockSizeBytes.getD (64 * 1024 * 1024))

def fileLength (fi : FileInfo) : Nat := asU64 (fi.length.getD 0)

end FileInfo

end GooseFS
