import GooseFS.Cache.PageStore
import GooseFS.Lib.Transition

/-!
# The io_uring page store against the plain one

The page stores of one process, with an operation as one step.  A `UringPageStore`
reads through two caches of descriptors: its own for directories, and `PAGE_FD_CACHE`
for pages, which belongs to the process and is keyed by `PageId` alone.

Beside each store runs a `LocalPageStore` on the same operations.  The answers agree
as long as a page that is read has no cached descriptor of another store's file, the
pages written are not empty, the lengths fit the integers of the driver and no queue
is full (`uring_refines_local`).
-/

namespace GooseFS

open Lib List Function

def enoent : Nat := 2

/-- `FALLBACK_ERRNO`, for a request that failed without an OS error. -/
def eio : Nat := 5

def einval : Nat := 22

/-- What the queues and the kernel decide during an operation.  `full` is the push, by the
number of its request and its own, that finds the channel or the submission queue full;
`chunk k` is the size of the k-th transfer. -/
structure UringEnv where
  full : Option (Nat × Nat)
  chunk : Nat → Nat
  expired : Bool

def bufferUsableForTransfer (transferred total bufferLen : Nat) : Bool :=
  transferred < total && total ≤ bufferLen

def wrapInt32 (n : Nat) : Int := Int.bmod n (2 ^ 32)

/-- The result code of a read is an `i32`, and negative codes are errors. -/
def readResult (buf : Bytes) : Except Nat Bytes :=
  if wrapInt32 buf.length < 0 then .error (-wrapInt32 buf.length).toNat else .ok buf

/-- A `Read` in the driver: a short read is pushed again for the rest, an empty one is the
end of the file.  The length of a push is a `u32`. -/
def readLoop (env : UringEnv) (request : Nat) (content : Bytes) (offset length : Nat) :
    Nat → Nat → Bytes → Except Nat Bytes
  | 0, _, _ => .error eio
  | fuel + 1, k, buf =>
    if bufferUsableForTransfer buf.length length length = false ∨ env.full = some (request, k) then
      .error eio
    else if offsetLimit ≤ offset + buf.length then .error einval
    else
      match (slice content (offset + buf.length) ((length - buf.length) % 2 ^ 32)).take
          (max 1 (env.chunk k)) with
      | [] => readResult buf
      | got =>
        if length ≤ (buf ++ got).length then readResult (buf ++ got)
        else readLoop env request content offset length fuel (k + 1) (buf ++ got)

/-- A `Write` in the driver, after `transferred` bytes: a short write is pushed again.
`none` if it is not complete after all its pushes. -/
def writeLoop (env : UringEnv) (request length : Nat) : Nat → Nat → Nat → Option (Except Nat Unit)
  | 0, _, _ => none
  | fuel + 1, k, transferred =>
    if bufferUsableForTransfer transferred length length = false ∨ env.full = some (request, k) then
      some (.error eio)
    else
      let n := min ((length - transferred) % 2 ^ 32) (max 1 (env.chunk k))
      if length ≤ transferred + n then some (.ok ())
      else writeLoop env request length fuel (k + 1) (transferred + n)

/-! ## The store -/

structure PageFd where
  inode : Nat
  root : StoreRoot
  deriving DecidableEq

structure UringProcess where
  disk : Disk
  pageFdCache : PageId → Option PageFd
  /-- The directory fd cache of each store.  A directory is never removed. -/
  dirFdCache : StoreRoot → String → Option (StoreRoot × String)

namespace UringProcess

def removePageFd (s : UringProcess) (page : PageId) : UringProcess :=
  { s with pageFdCache := update s.pageFdCache page none }

end UringProcess

namespace UringPageStore

variable (root : StoreRoot) (preadEnabled : Bool) (env : UringEnv)

def rejects (request : Nat) : Bool := !preadEnabled && env.full = some (request, 0)

def getDirFd (s : UringProcess) (fileId : String) :
    UringProcess × Except Nat (StoreRoot × String) :=
  match s.dirFdCache root fileId with
  | some dir => (s, .ok dir)
  | none =>
    if rejects preadEnabled env 0 then (s, .error eio)
    else if s.disk.dirs root fileId then
      ({ s with
          dirFdCache := update s.dirFdCache root
            (update (s.dirFdCache root) fileId (some (root, fileId))) },
        .ok (root, fileId))
    else (s, .error enoent)

def openatRelative (s : UringProcess) (dir : StoreRoot × String) (pageIndex : Nat) :
    Except Nat Nat :=
  if rejects preadEnabled env 1 then .error eio
  else
    match s.disk.files dir.1 ⟨dir.2, pageIndex⟩ with
    | some inode => .ok inode
    | none => .error enoent

def readWithFd (content : Bytes) (offset len : Nat) : Except Nat Bytes :=
  if preadEnabled then
    if offsetLimit ≤ offset then .error einval else .ok (fill env.chunk content offset len)
  else readLoop env 2 content offset len len 0 []

def absentIfNotFound (message : String) (errno : Nat) : StoreAnswer :=
  if errno = enoent then .ok [] else .error (.internal message)

def readMiss (s : UringProcess) (page : PageId) (offset len : Nat) : UringProcess × StoreAnswer :=
  match getDirFd root preadEnabled env s page.fileId with
  | (s, .error e) => (s, absentIfNotFound "uring open dir" e)
  | (s, .ok dir) =>
    match openatRelative preadEnabled env s dir page.pageIndex with
    | .error e => (s, absentIfNotFound "uring open page" e)
    | .ok inode =>
      match readWithFd preadEnabled env (s.disk.read inode) offset len with
      | .error e => (s, absentIfNotFound "uring read" e)
      | .ok bytes =>
        ({ s with pageFdCache := update s.pageFdCache page (some ⟨inode, root⟩) }, .ok bytes)

def getBytes (s : UringProcess) (page : PageId) (offset len : Nat) : UringProcess × StoreAnswer :=
  if len = 0 then (s, .ok [])
  else
    match s.pageFdCache page with
    | none => readMiss root preadEnabled env s page offset len
    | some fd =>
      if env.expired then readMiss root preadEnabled env (s.removePageFd page) page offset len
      else
        match readWithFd preadEnabled env (s.disk.read fd.inode) offset len with
        | .ok bytes => (s, .ok bytes)
        | .error e => (s.removePageFd page, absentIfNotFound "uring read (page fd cache hit)" e)

def get (s : UringProcess) (page : PageId) (offset len : Nat) : UringProcess × StoreAnswer :=
  let (s', answer) := getBytes root preadEnabled env s page offset len
  (s', answer.map fun bytes => bytes.take len)

/-- `put` goes through the rings in pread mode too. -/
def put (s : UringProcess) (page : PageId) (bytes : Bytes) : UringProcess × Option StoreAnswer :=
  let s := { s with disk := s.disk.createDirAll root page.fileId }
  if env.full = some (0, 0) then (s, some (.error (.internal "uring open tmp")))
  else
    match writeLoop env 1 bytes.length (bytes.length + 1) 0 0 with
    | none => (s, none)
    | some (.error _) => (s, some (.error (.internal "uring write")))
    | some (.ok ()) =>
      (({ s with disk := s.disk.publish root page bytes } : UringProcess).removePageFd page,
        some (.ok []))

def delete (s : UringProcess) (page : PageId) : UringProcess × StoreAnswer :=
  let s := s.removePageFd page
  if env.full = some (0, 0) then (s, .error (.internal "uring unlink"))
  else ({ s with disk := s.disk.unlink root page }, .ok [])

/-- An operation; it answers nothing when it does not return. -/
def run (s : UringProcess) : StoreOp → UringProcess × Option StoreAnswer
  | .put page bytes => put root env s page bytes
  | .get page offset len =>
    (get root preadEnabled env s page offset len).map id some
  | .getBytes page offset len =>
    (getBytes root preadEnabled env s page offset len).map id some
  | .delete page => (delete root env s page).map id some

end UringPageStore

/-! ## The stores of a process beside plain ones -/

/-- The process, a plain store for each root with its own disk, and the answers of both to
each operation. -/
structure StoreTwins where
  uring : UringProcess
  plain : StoreRoot → Disk
  answers : List (Option StoreAnswer × StoreAnswer)

inductive StoreAct where
  /-- An operation of one store; the plain store reads in chunks of its own. -/
  | run (root : StoreRoot) (op : StoreOp) (env : UringEnv) (chunk : Nat → Nat)
  /-- The cap of the page fd cache. -/
  | evict (page : PageId)
  /-- `maybe_cleanup_dir_fd_cache`. -/
  | cleanup (root : StoreRoot) (fileId : String)

namespace StoreTwins

/-- `pread` tells the stores that were created in pread mode. -/
def step (pread : StoreRoot → Bool) (s : StoreTwins) : StoreAct → Option StoreTwins
  | .run root op env chunk =>
    let (uring, answer) := UringPageStore.run root (pread root) env s.uring op
    let (plain, expected) := LocalPageStore.run root chunk (s.plain root) op
    some ⟨uring, update s.plain root plain, s.answers ++ [(answer, expected)]⟩
  | .evict page => some { s with uring := s.uring.removePageFd page }
  | .cleanup root fileId =>
    some { s with
      uring.dirFdCache := update s.uring.dirFdCache root
        (update (s.uring.dirFdCache root) fileId none) }

def init (d : Disk) : StoreTwins := ⟨⟨d, fun _ => none, fun _ _ => none⟩, fun _ => d, []⟩

/-- Every operation has returned what the plain store returns. -/
def Agree (s : StoreTwins) : Prop := ∀ a ∈ s.answers, a.1 = some a.2

/-- The reads for which the caches and the driver are exact: the cached descriptor, if there
is one, is of the same store, and the length fits an `i32`. -/
def ReadsOwn (pread : StoreRoot → Bool) (s : StoreTwins) (root : StoreRoot) (page : PageId)
    (offset len : Nat) : Prop :=
  offset + len < offsetLimit ∧ (pread root = false → len < 2 ^ 31) ∧
    ∀ fd ∈ s.uring.pageFdCache page, fd.root = root

def Exact (pread : StoreRoot → Bool) (s : StoreTwins) : StoreAct → Prop
  | .run root op env _ => env.full = none ∧
    match op with
    | .put _ bytes => bytes ≠ [] ∧ bytes.length < 2 ^ 32
    | .get page offset len => s.ReadsOwn pread root page offset len
    | .getBytes page offset len => s.ReadsOwn pread root page offset len
    | .delete _ => True
  | .evict _ => True
  | .cleanup _ _ => True

instance (pread : StoreRoot → Bool) (s : StoreTwins) (root : StoreRoot) (page : PageId)
    (offset len : Nat) : Decidable (s.ReadsOwn pread root page offset len) :=
  inferInstanceAs (Decidable (_ ∧ _ ∧ _))

instance (pread : StoreRoot → Bool) (s : StoreTwins) (a : StoreAct) :
    Decidable (s.Exact pread a) := by
  unfold Exact
  split
  · split <;> infer_instance
  all_goals infer_instance

end StoreTwins

theorem wrapInt32_eq {n : Nat} (h : n < 2 ^ 31) : wrapInt32 n = n :=
  Int.bmod_eq_of_le (by omega) (by omega)

theorem readResult_eq {buf : Bytes} (h : buf.length < 2 ^ 31) : readResult buf = .ok buf := by
  have hcode := wrapInt32_eq h
  rw [readResult, if_neg (by omega)]

section Transfers

variable {env : UringEnv} {request : Nat} {content : Bytes} {length offset : Nat}

theorem readLoop_eq (hfull : env.full = none) (hoffset : offset + length < offsetLimit)
    (hlen : length < 2 ^ 31) :
    ∀ (fuel k : Nat) (buf : Bytes), buf <+: slice content offset length → buf.length < length →
      length ≤ buf.length + fuel →
      readLoop env request content offset length fuel k buf = .ok (slice content offset length)
  | 0, _, _, _, hlt, hfuel => by omega
  | fuel + 1, k, buf, hbuf, hlt, hfuel => by
    have hwant : (length - buf.length) % 2 ^ 32 = length - buf.length :=
      Nat.mod_eq_of_lt (by omega)
    rw [readLoop, if_neg (by simp [bufferUsableForTransfer, hlt, hfull]), if_neg (by omega), hwant]
    split
    · next hnil =>
      rw [readResult_eq (by omega), front_eq_of_take_nil hbuf (by omega) hnil]
    · next hne =>
      have hfront := front_append_take (n := max 1 (env.chunk k)) hbuf
        (Nat.le_of_eq (Nat.add_sub_of_le (Nat.le_of_lt hlt)))
      have hpos := length_pos_iff.2 hne
      split
      · next hdone =>
        have hall := hfront.eq_of_length_le (Nat.le_trans (slice_length_le _ _ _) hdone)
        rw [hall, readResult_eq (Nat.lt_of_le_of_lt (slice_length_le _ _ _) hlen)]
      · next hshort =>
        refine readLoop_eq hfull hoffset hlen fuel (k + 1) _ hfront (Nat.lt_of_not_le hshort) ?_
        rw [length_append]
        omega

theorem writeLoop_eq (hfull : env.full = none) (hlen : length < 2 ^ 32) :
    ∀ (fuel k transferred : Nat), transferred < length → length ≤ transferred + fuel →
      writeLoop env request length fuel k transferred = some (.ok ())
  | 0, _, _, hlt, hfuel => by omega
  | fuel + 1, k, transferred, hlt, hfuel => by
    have hwant : (length - transferred) % 2 ^ 32 = length - transferred :=
      Nat.mod_eq_of_lt (by omega)
    rw [writeLoop, if_neg (by simp [bufferUsableForTransfer, hlt, hfull]), hwant]
    dsimp only
    split
    · rfl
    · exact writeLoop_eq hfull hlen fuel (k + 1) _ (by omega) (by omega)

theorem readWithFd_eq {preadEnabled : Bool} {len : Nat} (hfull : env.full = none)
    (hoffset : offset + len < offsetLimit) (hlen : preadEnabled = false → len < 2 ^ 31)
    (hpos : 0 < len) : UringPageStore.readWithFd preadEnabled env content offset len =
      .ok (slice content offset len) := by
  cases preadEnabled with
  | true =>
    rw [UringPageStore.readWithFd, if_pos rfl, if_neg (by omega), fill_eq]
  | false =>
    rw [UringPageStore.readWithFd, if_neg Bool.false_ne_true]
    exact readLoop_eq hfull hoffset (hlen rfl) len 0 [] nil_prefix hpos (by simp)

end Transfers

/-! ## Cached descriptors -/

/-- A cached descriptor is of the file that its path names, a cached directory that of its
file. -/
structure UringProcess.Sound (s : UringProcess) : Prop where
  pages : ∀ page fd, s.pageFdCache page = some fd → s.disk.files fd.root page = some fd.inode
  dirs : ∀ root fileId dir, s.dirFdCache root fileId = some dir → dir = (root, fileId)

namespace UringProcess.Sound

variable {s : UringProcess}

theorem removePageFd (h : s.Sound) (page : PageId) : (s.removePageFd page).Sound where
  pages := by
    intro p fd hp
    by_cases heq : p = page
    · simp [UringProcess.removePageFd, heq] at hp
    · exact h.pages p fd (by simpa [UringProcess.removePageFd, heq] using hp)
  dirs := h.dirs

theorem of_disk (h : s.Sound) (d : Disk)
    (hd : ∀ root page, s.pageFdCache page ≠ none → d.files root page = s.disk.files root page) :
    ({ s with disk := d } : UringProcess).Sound where
  pages := by
    intro page fd hfd
    have hcached : s.pageFdCache page = some fd := hfd
    rw [← h.pages page fd hcached]
    exact hd fd.root page (by rw [hcached]; exact Option.some_ne_none fd)
  dirs := h.dirs

theorem insert (h : s.Sound) {root : StoreRoot} {page : PageId} {inode : Nat}
    (hfile : s.disk.files root page = some inode) :
    ({ s with pageFdCache := update s.pageFdCache page (some ⟨inode, root⟩) } :
      UringProcess).Sound where
  pages := by
    intro p fd hp
    by_cases heq : p = page
    · subst heq
      simp only [update_self, Option.some.injEq] at hp
      subst hp
      exact hfile
    · exact h.pages p fd (by simpa [heq] using hp)
  dirs := h.dirs

theorem insertDir (h : s.Sound) (root : StoreRoot) (fileId : String) : ({ s with
        dirFdCache := update s.dirFdCache root
          (update (s.dirFdCache root) fileId (some (root, fileId))) } :
      UringProcess).Sound where
  pages := h.pages
  dirs := by
    intro r f dir hdir
    by_cases hr : r = root
    · subst hr
      by_cases hf : f = fileId
      · subst hf
        simpa using hdir.symm
      · exact h.dirs r f dir (by simpa [hf] using hdir)
    · exact h.dirs r f dir (by simpa [hr] using hdir)

theorem cleanupDir (h : s.Sound) (root : StoreRoot) (fileId : String) : ({ s with
        dirFdCache := update s.dirFdCache root
          (update (s.dirFdCache root) fileId none) } : UringProcess).Sound where
  pages := h.pages
  dirs := by
    intro r f dir hdir
    by_cases hr : r = root
    · subst hr
      by_cases hf : f = fileId
      · simp [hf] at hdir
      · exact h.dirs r f dir (by simpa [hf] using hdir)
    · exact h.dirs r f dir (by simpa [hr] using hdir)

end UringProcess.Sound

/-! ## One operation -/

namespace UringPageStore

variable {root : StoreRoot} {preadEnabled : Bool} {env : UringEnv} {s : UringProcess}
  {len offset : Nat} {page : PageId}

def window (d : Disk) (root : StoreRoot) (page : PageId) (offset len : Nat) : Bytes :=
  ((d.page root page).map fun content => slice content offset len).getD []

/-- A read leaves the disk and sound caches, and answers with the window of the page. -/
structure Reads (root : StoreRoot) (page : PageId) (offset len : Nat) (s : UringProcess)
    (out : UringProcess × StoreAnswer) : Prop where
  disk : out.1.disk = s.disk
  sound : out.1.Sound
  answer : out.2 = .ok (window s.disk root page offset len)

theorem getDirFd_spec (root : StoreRoot) (preadEnabled : Bool) (hs : s.Sound)
    (hfull : env.full = none) (fileId : String) :
    ∃ s', s'.disk = s.disk ∧ s'.Sound ∧
      (getDirFd root preadEnabled env s fileId = (s', .ok (root, fileId)) ∨
        getDirFd root preadEnabled env s fileId = (s', .error enoent) ∧
          s.disk.dirs root fileId = false) := by
  unfold getDirFd
  split
  · next dir hdir =>
    cases hs.dirs root fileId dir hdir
    exact ⟨s, rfl, hs, .inl rfl⟩
  · rw [if_neg (by simp [rejects, hfull])]
    split
    · refine ⟨_, ?_, hs.insertDir root fileId, .inl rfl⟩
      rfl
    · next hdirs => exact ⟨s, rfl, hs, .inr ⟨rfl, by simpa using hdirs⟩⟩

theorem window_of_files_none {d : Disk} (h : d.files root page = none) :
    window d root page offset len = [] := by
  rw [window, Disk.page, h]
  rfl

theorem window_of_files {d : Disk} {inode : Nat} (h : d.files root page = some inode) :
    window d root page offset len = slice (d.read inode) offset len := by
  rw [window, Disk.page, h]
  rfl

section

variable (hs : s.Sound) (hfull : env.full = none) (hoffset : offset + len < offsetLimit)
  (hlen : preadEnabled = false → len < 2 ^ 31)
include hs hfull hoffset hlen

theorem readMiss_reads (hpos : 0 < len) :
    Reads root page offset len s (readMiss root preadEnabled env s page offset len) := by
  obtain ⟨s', hdisk, hs', hdir | ⟨hdir, hnone⟩⟩ :=
    getDirFd_spec root preadEnabled hs hfull page.fileId
  · rw [readMiss, hdir]
    simp only [openatRelative]
    rw [if_neg (by simp [rejects, hfull])]
    cases hfile : s'.disk.files root page with
    | none =>
      refine ⟨hdisk, hs', ?_⟩
      rw [window_of_files_none (hdisk ▸ hfile)]
      rfl
    | some inode =>
      simp only [readWithFd_eq hfull hoffset hlen hpos]
      refine ⟨hdisk, hs'.insert hfile, ?_⟩
      rw [← hdisk, window_of_files hfile]
  · -- a page file lies in its directory
    rw [readMiss, hdir]
    refine ⟨hdisk, hs', ?_⟩
    have hfile : s.disk.files root page = none := by
      cases hf : s.disk.files root page with
      | none => rfl
      | some inode =>
        rw [s.disk.parent root page inode hf] at hnone
        cases hnone
    rw [window_of_files_none hfile]
    rfl

theorem getBytes_reads (hown : ∀ fd ∈ s.pageFdCache page, fd.root = root) :
    Reads root page offset len s (getBytes root preadEnabled env s page offset len) := by
  unfold getBytes
  split
  · next hzero =>
    refine ⟨rfl, hs, ?_⟩
    subst hzero
    cases hp : s.disk.page root page <;> simp [window, hp]
  · next hzero =>
    have hpos := Nat.pos_of_ne_zero hzero
    split
    · exact readMiss_reads hs hfull hoffset hlen hpos
    · next fd hfd =>
      split
      · have hmiss : Reads root page offset len (s.removePageFd page) _ :=
          readMiss_reads (hs.removePageFd page) hfull hoffset hlen hpos
        exact ⟨hmiss.disk, hmiss.sound, hmiss.answer⟩
      · -- the descriptor is of the file that the path names
        have hfile := hs.pages page fd hfd
        rw [hown fd hfd] at hfile
        simp only [readWithFd_eq hfull hoffset hlen hpos]
        exact ⟨rfl, hs, by rw [window_of_files hfile]⟩

theorem get_reads (hown : ∀ fd ∈ s.pageFdCache page, fd.root = root) :
    Reads root page offset len s (get root preadEnabled env s page offset len) := by
  have hbytes : Reads root page offset len s (getBytes root preadEnabled env s page offset len) :=
    getBytes_reads hs hfull hoffset hlen hown
  refine ⟨hbytes.disk, hbytes.sound, ?_⟩
  simp only [get, hbytes.answer, Except.map]
  rw [take_of_length_le]
  rw [window]
  cases s.disk.page root page with
  | none => exact Nat.zero_le _
  | some content => exact slice_length_le _ _ _

end

theorem put_eq (hfull : env.full = none) {bytes : Bytes} (hne : bytes ≠ [])
    (hlen : bytes.length < 2 ^ 32) : put root env s page bytes =
      (({ s with disk := (s.disk.createDirAll root page.fileId).publish root page bytes } :
        UringProcess).removePageFd page, some (.ok [])) := by
  have hpos := length_pos_iff.2 hne
  simp only [put, hfull, writeLoop_eq hfull hlen (bytes.length + 1) 0 0 hpos (by omega)]
  rfl

theorem delete_eq (hfull : env.full = none) : delete root env s page =
      ({ s.removePageFd page with disk := s.disk.unlink root page }, .ok []) := by
  simp only [delete, hfull]
  rfl

end UringPageStore

/-! ## Runs -/

namespace StoreTwins

variable {pread : StoreRoot → Bool} {s s' : StoreTwins} {page : PageId} {root : StoreRoot}

/-- The two sides have the same pages, and have answered alike. -/
structure Same (s : StoreTwins) : Prop where
  sound : s.uring.Sound
  pages : ∀ root page, s.uring.disk.page root page = (s.plain root).page root page
  agree : s.Agree

theorem window_eq (h : s.Same) (root : StoreRoot) (page : PageId) (offset len : Nat) :
    UringPageStore.window s.uring.disk root page offset len =
      UringPageStore.window (s.plain root) root page offset len := by
  rw [UringPageStore.window, h.pages]
  rfl

theorem agree_append (h : s.Agree) {a : Option StoreAnswer × StoreAnswer} (ha : a.1 = some a.2) :
    ∀ b ∈ s.answers ++ [a], b.1 = some b.2 := by
  intro b hb
  obtain hb | hb := mem_append.1 hb
  · exact h b hb
  · rw [mem_singleton.1 hb, ha]

theorem same_of_read (h : s.Same) {offset len : Nat} {out : UringProcess × StoreAnswer}
    (hout : UringPageStore.Reads root page offset len s.uring out) {expected : StoreAnswer}
    (hexpected : expected = .ok (UringPageStore.window (s.plain root) root page offset len)) :
    Same ⟨out.1, update s.plain root (s.plain root), s.answers ++ [(some out.2, expected)]⟩ where
  sound := hout.sound
  pages := by
    intro r p
    rw [update_eq_self, hout.disk]
    exact h.pages r p
  agree := agree_append h.agree (by rw [hout.answer, hexpected, window_eq h])

theorem same_of_write (h : s.Same) {d plain : Disk} {new : Option Bytes}
    (hcache : (({ s.uring with disk := d } : UringProcess).removePageFd page).Sound)
    (hd : ∀ r p, d.page r p = if r = root ∧ p = page then new else s.uring.disk.page r p)
    (hplain : ∀ r p, plain.page r p =
      if r = root ∧ p = page then new else (s.plain root).page r p) :
    Same ⟨({ s.uring with disk := d } : UringProcess).removePageFd page,
      update s.plain root plain, s.answers ++ [(some (.ok []), .ok [])]⟩ where
  sound := hcache
  pages := by
    intro r p
    have hleft : (({ s.uring with disk := d } : UringProcess).removePageFd page).disk.page r p =
        d.page r p := rfl
    rw [hleft, hd]
    by_cases hr : r = root
    · subst hr
      simp only [update_self, hplain, h.pages]
    · simp only [hr, false_and, if_false, update_of_ne hr, h.pages]
  agree := agree_append h.agree rfl

theorem same_of_step {a : StoreAct} (h : s.Same) (hc : s.Exact pread a)
    (hstep : s.step pread a = some s') : s'.Same := by
  cases a with
  | run root op env chunk =>
    obtain ⟨hfull, hop⟩ := hc
    cases hstep
    cases op with
    | put page bytes =>
      simp only [UringPageStore.put_eq hfull hop.1 hop.2, LocalPageStore.put]
      refine same_of_write h ?_ (fun r p => ?_) (fun r p => Disk.page_publish _ _ _ _ r p)
      · refine (h.sound.removePageFd page).of_disk _ fun r p hp => ?_
        have hne : p ≠ page := by
          rintro rfl
          simp [UringProcess.removePageFd] at hp
        simp [Disk.publish, Disk.createDirAll, UringProcess.removePageFd, hne]
      · rw [Disk.page_publish, Disk.page_createDirAll]
    | get page offset len =>
      exact same_of_read h (UringPageStore.get_reads h.sound hfull hop.1 hop.2.1 hop.2.2)
        (LocalPageStore.get_eq (Nat.lt_of_le_of_lt (Nat.le_add_right _ _) hop.1))
    | getBytes page offset len =>
      exact same_of_read h (UringPageStore.getBytes_reads h.sound hfull hop.1 hop.2.1 hop.2.2)
        (LocalPageStore.getBytes_eq (Nat.lt_of_le_of_lt (Nat.le_add_right _ _) hop.1))
    | delete page =>
      simp only [UringPageStore.delete_eq hfull, LocalPageStore.delete]
      refine same_of_write h ?_ (fun r p => Disk.page_unlink _ _ _ r p)
        (fun r p => Disk.page_unlink _ _ _ r p)
      refine (h.sound.removePageFd page).of_disk _ fun r p hp => ?_
      have hne : p ≠ page := by
        rintro rfl
        simp [UringProcess.removePageFd] at hp
      simp [UringProcess.removePageFd, hne]
  | evict page =>
    cases hstep
    exact ⟨h.sound.removePageFd page, h.pages, h.agree⟩
  | cleanup root fileId =>
    cases hstep
    exact ⟨h.sound.cleanupDir root fileId, h.pages, h.agree⟩

/-- The io_uring stores of a process answer as plain stores do, in every run whose
operations meet `Exact`. -/
theorem uring_refines_local (pread : StoreRoot → Bool) (d : Disk) (as : List StoreAct)
    (s : StoreTwins) (h : Guarded (step pread) (Exact pread) (init d) as s) : s.Agree := by
  have hinit : (init d).Same :=
    ⟨⟨fun _ _ hp => (by cases hp), fun _ _ _ hd => (by cases hd)⟩, fun _ _ => rfl,
      fun _ ha => (List.not_mem_nil ha).elim⟩
  exact (h.invariant (fun _ _ _ hs hc hstep => same_of_step hs hc hstep) hinit).agree

def emptyDisk : Disk :=
  ⟨fun _ _ => false, fun _ _ => none, [], fun _ _ _ h => (by cases h), fun _ _ _ h => (by cases h)⟩

def cacheA : StoreRoot := ⟨"/cache/a", 4096⟩

def cacheB : StoreRoot := ⟨"/cache/b", 4096⟩

def byteByByte : UringEnv := ⟨none, fun _ => 1, false⟩

def runs (root : StoreRoot) (op : StoreOp) : StoreAct := .run root op byteByByte fun _ => 4096

/-- A page is replaced and deleted while its descriptor is cached; the other store has
another page. -/
def replacedPage : List StoreAct :=
  [runs cacheA (.put ⟨"f", 0⟩ [1, 2, 3]), runs cacheA (.get ⟨"f", 0⟩ 1 4),
    runs cacheA (.put ⟨"f", 0⟩ [4, 5]), runs cacheB (.put ⟨"f", 1⟩ [6]),
    runs cacheA (.getBytes ⟨"f", 0⟩ 0 2), runs cacheB (.get ⟨"f", 1⟩ 0 1),
    runs cacheA (.delete ⟨"f", 0⟩), runs cacheA (.get ⟨"f", 0⟩ 0 2)]

theorem uring_refines_local_replacedPage :
    ∃ s, Guarded (step fun _ => false) (Exact fun _ => false) (init emptyDisk) replacedPage s ∧
      s.answers.map Prod.fst = [some (.ok []), some (.ok [2, 3]), some (.ok []), some (.ok []),
        some (.ok [4, 5]), some (.ok [6]), some (.ok []), some (.ok [])] ∧ s.Agree := by
  obtain ⟨s, hrun, hanswers⟩ :
      ∃ s, Guarded (step fun _ => false) (Exact fun _ => false) (init emptyDisk) replacedPage s ∧
        s.answers.map Prod.fst = [some (.ok []), some (.ok [2, 3]), some (.ok []), some (.ok []),
          some (.ok [4, 5]), some (.ok [6]), some (.ok []), some (.ok [])] :=
    Guarded.exists_of_replay (by decide +kernel)
  exact ⟨s, hrun, hanswers, uring_refines_local (fun _ => false) emptyDisk replacedPage s hrun⟩

/-- Both stores have a page of the same id.  The second one reads it through the descriptor
that the first has cached. -/
def sharedDescriptor : List StoreAct :=
  [runs cacheA (.put ⟨"f", 0⟩ [1]), runs cacheB (.put ⟨"f", 0⟩ [2]),
    runs cacheA (.get ⟨"f", 0⟩ 0 1), runs cacheB (.get ⟨"f", 0⟩ 0 1)]

/-- An empty page is refused when its `Write` is pushed. -/
def emptyPage : List StoreAct := [runs cacheA (.put ⟨"f", 0⟩ [])]

theorem uring_reads_other_store :
    (∃ s, Guarded (step fun _ => false) (fun _ _ => True) (init emptyDisk) sharedDescriptor s ∧
        (some (.ok [1]), .ok [2]) ∈ s.answers ∧ ¬ s.Agree) ∧
      ∃ s, Guarded (step fun _ => false) (fun _ _ => True) (init emptyDisk) emptyPage s ∧
        (some (.error (.internal "uring write")), .ok []) ∈ s.answers ∧ ¬ s.Agree := by
  constructor
  · obtain ⟨s, hrun, hanswer⟩ :
        ∃ s, Guarded (step fun _ => false) (fun _ _ => True) (init emptyDisk) sharedDescriptor s ∧
          (some (.ok [1]), .ok [2]) ∈ s.answers :=
      Guarded.exists_of_replay (by decide +kernel)
    refine ⟨s, hrun, hanswer, fun hagree => ?_⟩
    have hsame := hagree _ hanswer
    revert hsame
    decide
  · obtain ⟨s, hrun, hanswer⟩ :
        ∃ s, Guarded (step fun _ => false) (fun _ _ => True) (init emptyDisk) emptyPage s ∧
          (some (.error (.internal "uring write")), .ok []) ∈ s.answers :=
      Guarded.exists_of_replay (by decide +kernel)
    refine ⟨s, hrun, hanswer, fun hagree => ?_⟩
    have hsame := hagree _ hanswer
    revert hsame
    decide

end StoreTwins

end GooseFS
