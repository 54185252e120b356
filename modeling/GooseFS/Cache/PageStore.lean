import GooseFS.Cache.PageId
import GooseFS.Lib.Slice
import Mathlib.Logic.Function.Basic

/-!
# Page files, and the plain page store

A page is a file `<dir>/<page_size>/<bucket>/<file_id>/<page_index>`.  Both page
stores replace a page file by renaming a new one over it, so an inode never changes
once a path names it; a descriptor goes on reading its inode when the path names
another one or none.

`LocalPageStore` opens the path on every call.
-/

namespace GooseFS

open Lib List

/-- The root directory `<dir>/<page_size>` of a page store. -/
structure StoreRoot where
  dir : String
  pageSize : Nat
  deriving DecidableEq

/-- `dirs` are the directories of the files, `files` the inodes of the page files. -/
structure Disk where
  dirs : StoreRoot → String → Bool
  files : StoreRoot → PageId → Option Nat
  inodes : List Bytes
  inode_lt : ∀ root page i, files root page = some i → i < inodes.length
  parent : ∀ root page i, files root page = some i → dirs root page.fileId = true

namespace Disk

variable (d : Disk)

def read (i : Nat) : Bytes := d.inodes[i]?.getD []

def page (root : StoreRoot) (page : PageId) : Option Bytes := (d.files root page).map d.read

def createDirAll (root : StoreRoot) (fileId : String) : Disk where
  dirs := fun r f => d.dirs r f || (r = root && f = fileId)
  files := d.files
  inodes := d.inodes
  inode_lt := d.inode_lt
  parent := fun r p i h => by rw [d.parent r p i h, Bool.true_or]

def publish (root : StoreRoot) (page : PageId) (bytes : Bytes) : Disk where
  dirs := (d.createDirAll root page.fileId).dirs
  files := fun r p => if r = root ∧ p = page then some d.inodes.length else d.files r p
  inodes := d.inodes ++ [bytes]
  inode_lt := by
    intro r p i h
    rw [length_append, length_singleton]
    split at h
    · cases h
      exact Nat.lt_succ_self _
    · exact Nat.lt_succ_of_lt (d.inode_lt r p i h)
  parent := by
    intro r p i h
    split at h
    · next heq =>
      rw [heq.1, heq.2]
      simp [createDirAll]
    · exact (d.createDirAll root page.fileId).parent r p i h

def unlink (root : StoreRoot) (page : PageId) : Disk where
  dirs := d.dirs
  files := fun r p => if r = root ∧ p = page then none else d.files r p
  inodes := d.inodes
  inode_lt := by
    intro r p i h
    split at h
    · cases h
    · exact d.inode_lt r p i h
  parent := by
    intro r p i h
    split at h
    · cases h
    · exact d.parent r p i h

variable (root : StoreRoot)

@[simp] theorem page_createDirAll (fileId : String) (r : StoreRoot) (p : PageId) :
    (d.createDirAll root fileId).page r p = d.page r p := rfl

theorem page_publish (page : PageId) (bytes : Bytes) (r : StoreRoot) (p : PageId) :
    (d.publish root page bytes).page r p =
      if r = root ∧ p = page then some bytes else d.page r p := by
  simp only [Disk.page, publish]
  split
  · simp [read]
  · cases hf : d.files r p with
    | none => rfl
    | some i =>
      have hlt := d.inode_lt r p i hf
      simp [read, getElem?_append_left hlt]

theorem page_unlink (page : PageId) (r : StoreRoot) (p : PageId) :
    (d.unlink root page).page r p = if r = root ∧ p = page then none else d.page r p := by
  simp only [Disk.page, unlink]
  split <;> rfl

end Disk

/-- The loop of `LocalPageStore::get` and of `pread_read_sync`.  A read returns `chunk k`
bytes, at least one and no more than there are. -/
def fillFrom (chunk : Nat → Nat) (content : Bytes) (offset len : Nat) : Nat → Nat → Bytes → Bytes
  | 0, _, buf => buf
  | fuel + 1, k, buf =>
    if buf.length < len then
      match (slice content (offset + buf.length) (len - buf.length)).take (max 1 (chunk k)) with
      | [] => buf
      | got => fillFrom chunk content offset len fuel (k + 1) (buf ++ got)
    else buf

def fill (chunk : Nat → Nat) (content : Bytes) (offset len : Nat) : Bytes :=
  fillFrom chunk content offset len len 0 []

variable {buf content : Bytes} {len n offset want : Nat}

theorem front_append_take (hbuf : buf <+: slice content offset len)
    (hwant : buf.length + want ≤ len) :
    buf ++ (slice content (offset + buf.length) want).take n <+: slice content offset len := by
  rw [take_slice, front_append_slice hbuf, slice, slice]
  exact take_prefix_take_left (by omega)

theorem front_eq_of_take_nil (hbuf : buf <+: slice content offset len) (hwant : 0 < want)
    (hnil : (slice content (offset + buf.length) want).take (max 1 n) = []) :
    buf = slice content offset len := by
  have hend : slice content (offset + buf.length) want = [] := by
    cases hs : slice content (offset + buf.length) want with
    | nil => rfl
    | cons b rest =>
      rw [hs] at hnil
      have hlen := congrArg length hnil
      simp only [length_take, length_cons, length_nil] at hlen
      omega
  have hlen := congrArg length hend
  rw [slice_length, length_nil] at hlen
  refine hbuf.eq_of_length_le ?_
  rw [slice_length]
  omega

theorem fillFrom_eq {chunk : Nat → Nat} :
    ∀ (fuel k : Nat) (buf : Bytes), buf <+: slice content offset len → len ≤ buf.length + fuel →
      fillFrom chunk content offset len fuel k buf = slice content offset len
  | 0, _, buf, hbuf, hfuel => by
    refine hbuf.eq_of_length_le ?_
    exact Nat.le_trans (slice_length_le _ _ _) hfuel
  | fuel + 1, k, buf, hbuf, hfuel => by
    rw [fillFrom]
    split
    · next hlt =>
      split
      · next hnil => exact front_eq_of_take_nil hbuf (by omega) hnil
      · next hne =>
        refine fillFrom_eq fuel (k + 1) _ (front_append_take hbuf (by omega)) ?_
        have hpos := length_pos_iff.2 hne
        rw [length_append]
        omega
    · next hle =>
      refine hbuf.eq_of_length_le ?_
      exact Nat.le_trans (slice_length_le _ _ _) (Nat.le_of_not_lt hle)

theorem fill_eq (chunk : Nat → Nat) (content : Bytes) (offset len : Nat) :
    fill chunk content offset len = slice content offset len :=
  fillFrom_eq len 0 [] nil_prefix (by simp)

def offsetLimit : Nat := 2 ^ 63

inductive StoreOp where
  | put (page : PageId) (bytes : Bytes)
  | get (page : PageId) (offset len : Nat)
  | getBytes (page : PageId) (offset len : Nat)
  | delete (page : PageId)

/-- What an operation returns; `put` and `delete` return no bytes. -/
abbrev StoreAnswer := Except Error Bytes

namespace LocalPageStore

def put (root : StoreRoot) (d : Disk) (page : PageId) (bytes : Bytes) : Disk × StoreAnswer :=
  (d.publish root page bytes, .ok [])

def get (root : StoreRoot) (chunk : Nat → Nat) (d : Disk) (page : PageId) (offset len : Nat) :
    StoreAnswer :=
  match d.page root page with
  | none => .ok []
  | some content =>
    if 0 < offset ∧ offsetLimit ≤ offset then .error (.internal "seek page file")
    else .ok (fill chunk content offset len)

def getBytes (root : StoreRoot) (chunk : Nat → Nat) (d : Disk) (page : PageId)
    (offset len : Nat) : StoreAnswer :=
  if len = 0 then .ok [] else get root chunk d page offset len

/-- A file that does not exist counts as deleted. -/
def delete (root : StoreRoot) (d : Disk) (page : PageId) : Disk × StoreAnswer :=
  (d.unlink root page, .ok [])

def run (root : StoreRoot) (chunk : Nat → Nat) (d : Disk) : StoreOp → Disk × StoreAnswer
  | .put page bytes => put root d page bytes
  | .get page offset len => (d, get root chunk d page offset len)
  | .getBytes page offset len => (d, getBytes root chunk d page offset len)
  | .delete page => delete root d page

variable {chunk : Nat → Nat} {d : Disk} {len offset : Nat} {page : PageId} {root : StoreRoot}

theorem get_eq (hoffset : offset < offsetLimit) : get root chunk d page offset len =
      .ok (((d.page root page).map fun content => slice content offset len).getD []) := by
  rw [get]
  cases d.page root page with
  | none => rfl
  | some content =>
    simp only [fill_eq]
    rw [if_neg fun h => Nat.not_le_of_lt hoffset h.2]
    rfl

theorem getBytes_eq (hoffset : offset < offsetLimit) : getBytes root chunk d page offset len =
      .ok (((d.page root page).map fun content => slice content offset len).getD []) := by
  rw [getBytes, get_eq hoffset]
  split
  · next hlen =>
    subst hlen
    cases d.page root page <;> simp
  · rfl

end LocalPageStore

end GooseFS
