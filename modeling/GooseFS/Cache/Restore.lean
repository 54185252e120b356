import Mathlib.Data.List.Infix
import GooseFS.Lib.Decimal
import GooseFS.Cache.Files

/-!
# Restoring pages from disk

`DiskScan.restore` is the scan that a manager starts with.  It walks whatever the
cache directories hold, `<root>/<bucket>/<file_id>/<name>`, and admits a page for
every file of a valid size whose name reads as a number.  The page goes to the
directory that is being walked.  The page store, on the other hand, looks for a page
under the one name it would give the file, in the directory that the allocator chooses
among those configured now.

`restored_pages_live`: a page that the scan admits can be read, and is removed by an
invalidation of its file, exactly when the scan has found it where the store would
look for it.  Such a page is also one that `CacheState.restore`, the restart of the
cache's transition system, restores from the same disk (`restored_of_atHome`).
-/

namespace GooseFS

open Lib List CacheState LocalCacheManager

/-! ## What is on disk -/

inductive DirEntry where
  | file (fill : Fill)
  | subdirectory (len : Nat)
  deriving DecidableEq, Repr

namespace DirEntry

def len : DirEntry → Nat
  | .file fill => fill.bytes.length
  | .subdirectory len => len

def fill : DirEntry → Fill
  | .file fill => fill
  | .subdirectory _ => ⟨[], ⟨0, 0⟩⟩

end DirEntry

structure PageDir where
  bucket : String
  file : String
  deriving DecidableEq, Repr

/-- The root of a page store: its page directories with the names in each of them, the
parsed sidecars, and what stands under the names. -/
structure ScanRoot where
  pageDirs : List PageDir
  names : PageDir → List String
  identity : PageDir → Option FileIdentity
  entry : PageDir → String → Option DirEntry
  pageDirs_nodup : pageDirs.Nodup
  names_nodup : ∀ d, (names d).Nodup

namespace ScanRoot

variable (r : ScanRoot) {name : String}

/-- `remove_file`, which does not remove a directory. -/
def removeFile (d : PageDir) (name : String) : ScanRoot :=
  match r.entry d name with
  | some (.file _) =>
    { r with entry := fun d' name' => if d' = d ∧ name' = name then none else r.entry d' name' }
  | _ => r

def removeDirAll (d : PageDir) : ScanRoot :=
  { r with
    identity := fun d' => if d' = d then none else r.identity d'
    entry := fun d' name => if d' = d then none else r.entry d' name }

@[simp] theorem removeFile_names (d : PageDir) (name : String) :
    (r.removeFile d name).names = r.names := by
  unfold removeFile
  split <;> rfl

@[simp] theorem removeFile_identity (d : PageDir) (name : String) :
    (r.removeFile d name).identity = r.identity := by
  unfold removeFile
  split <;> rfl

theorem removeFile_entry {d d' : PageDir} {name' : String} (h : ¬ (d' = d ∧ name' = name)) :
    (r.removeFile d name).entry d' name' = r.entry d' name' := by
  unfold removeFile
  split
  · exact if_neg h
  · rfl

def pageFile (d : PageDir) (name : String) : Option (Sigma fun _ : Nat => Fill) :=
  match parseUInt64 name, r.entry d name with
  | some i, some (.file fill) => if name = toString i then some ⟨i, fill⟩ else none
  | _, _ => none

def fileDir (d : PageDir) : FileDir :=
  ⟨r.identity d, ((r.names d).filterMap (r.pageFile d)).toAList⟩

variable {r} {d : PageDir} {i : Nat} {fill : Fill}

theorem name_of_pageFile (h : r.pageFile d name = some ⟨i, fill⟩) :
    name = toString i ∧ r.entry d name = some (.file fill) := by
  unfold pageFile at h
  split at h
  · next hentry =>
    split at h
    · next hname =>
      cases h
      exact ⟨hname, hentry⟩
    · cases h
  · cases h

theorem fileDir_lookup (hmem : name ∈ r.names d) (h : r.pageFile d name = some ⟨i, fill⟩) :
    (r.fileDir d).pages.lookup i = some fill := by
  have hlookup : ∀ names : List String, name ∈ names →
      (names.filterMap (r.pageFile d)).dlookup i = some fill := by
    intro names
    induction names with
    | nil => exact fun hmem => absurd hmem not_mem_nil
    | cons name' names ih =>
      intro hmem
      cases hfile : r.pageFile d name' with
      | none =>
        have hne : name ≠ name' := by
          rintro rfl
          rw [h] at hfile
          cases hfile
        rw [filterMap_cons_none hfile]
        exact ih ((mem_cons.mp hmem).resolve_left hne)
      | some page =>
        rw [filterMap_cons_some hfile]
        by_cases hi : i = page.1
        · -- a number is the name of one page
          have hname : name' = name := by
            rw [(name_of_pageFile hfile).1, (name_of_pageFile h).1, hi]
          rw [hname, h] at hfile
          cases hfile
          exact dlookup_cons_eq _ _ _
        · rw [dlookup_cons_ne _ page hi]
          refine ih ((mem_cons.mp hmem).resolve_left ?_)
          rintro rfl
          rw [h] at hfile
          cases hfile
          exact hi rfl
  show (((r.names d).filterMap (r.pageFile d)).toAList).lookup i = some fill
  rw [AList.lookup_to_alist]
  exact hlookup _ hmem

end ScanRoot

/-! ## The scan -/

def numBuckets : Nat := 1000

def identityFile : String := ".identity"

def isTemp (name : String) : Bool := ".tmp-".toList <:+: name.toList

/-- Where the scan has found a page that it has admitted. -/
structure Admission where
  dirIndex : Nat
  pageDir : PageDir
  name : String
  pageIndex : Nat
  entry : DirEntry
  deriving DecidableEq, Repr

def Admission.page (a : Admission) : PageId := ⟨a.pageDir.file, a.pageIndex⟩

/-- `admitted` is bookkeeping: the scan does not look at it. -/
structure DiskScan where
  roots : Nat → ScanRoot
  mgr : LocalCacheManager
  admitted : List Admission

namespace DiskScan

variable (o : CacheManagerOptions) (hashFileId : String → Nat)

def ownDir (f : String) : PageDir := ⟨toString (hashFileId f % numBuckets), f⟩

def setRoot (st : DiskScan) (dir : Nat) (r : ScanRoot) : DiskScan :=
  { st with roots := fun dir' => if dir' = dir then r else st.roots dir' }

def admitPage (st : DiskScan) (dir : Nat) (d : PageDir) (name : String) (i : Nat) (e : DirEntry) :
    DiskScan where
  roots := st.roots
  mgr := (st.mgr.setEntry dir ⟨d.file, i⟩ (some ⟨st.mgr.now, e.fill⟩)).index ⟨d.file, i⟩
  admitted := st.admitted ++ [⟨dir, d, name, i, e⟩]

/-- One name of a page directory; the number counts the pages restored from it. -/
def restorePage (dir : Nat) (d : PageDir) (st : DiskScan × Nat) (name : String) : DiskScan × Nat :=
  let removed := st.1.setRoot dir ((st.1.roots dir).removeFile d name)
  if isTemp name then (removed, st.2)
  else if name = identityFile then st
  else
    match parseUInt64 name, (st.1.roots dir).entry d name with
    | some i, some e =>
      if e.len = 0 ∨ o.pageSize < e.len then (removed, st.2)
      else if st.1.mgr.contains dir ⟨d.file, i⟩ then (removed, st.2)
      else (st.1.admitPage dir d name i e, st.2 + 1)
    | _, _ => st

/-- A page directory is dropped unless its file has an identity and a page of it is
restored. -/
def restorePageDir (dir : Nat) (st : DiskScan) (d : PageDir) : DiskScan :=
  match (st.roots dir).identity (ownDir hashFileId d.file) with
  | none => st.setRoot dir ((st.roots dir).removeDirAll d)
  | some id =>
    let out := ((st.roots dir).names d).foldl (restorePage o dir d) (st, 0)
    if 0 < out.2 then { out.1 with mgr := out.1.mgr.setVersion d.file id }
    else out.1.setRoot dir ((out.1.roots dir).removeDirAll d)

def restoreStore (st : DiskScan) (dir : Nat) : DiskScan :=
  (st.roots dir).pageDirs.foldl (restorePageDir o hashFileId dir) st

/-- `create` and `restore`: nothing is cached before the scan. -/
def restore (roots : Nat → ScanRoot) (now : Nat) : DiskScan :=
  (range o.numDirs).foldl (restoreStore o hashFileId)
    ⟨roots, { (fresh o).mgr with now := now }, []⟩

def manager (st : DiskScan) : LocalCacheManager :=
  { st.mgr with
    dirs := fun dir f => (st.roots dir).fileDir (ownDir hashFileId f)
    window := st.mgr.versions }

/-- What stands at a path once the manager has come to `m`.  Its steps touch the files
that have a page's own path, and no others. -/
def entryAfter (st : DiskScan) (m : LocalCacheManager) (dir : Nat) (d : PageDir) (name : String) :
    Option DirEntry :=
  match parseUInt64 name, (st.roots dir).entry d name with
  | some i, some (.file fill) =>
    if d = ownDir hashFileId d.file ∧ name = toString i then (m.page dir ⟨d.file, i⟩).map .file
    else some (.file fill)
  | _, e => e

/-! ## What the scan records -/

variable {o hashFileId} {st : DiskScan} {todo todo' : Nat → PageDir → String → Prop} {dir : Nat}
  {d : PageDir} {name : String} {later : Nat → PageDir → String → Prop}

/-- A page that the scan has admitted is resident, listed and on disk, under a path that is
not in `todo` and in a directory that has kept its sidecar. -/
structure Admitted (o : CacheManagerOptions) (hashFileId : String → Nat)
    (todo : Nat → PageDir → String → Prop) (st : DiskScan) (a : Admission) : Prop where
  entry : st.mgr.caches a.dirIndex a.page = some ⟨st.mgr.now, a.entry.fill⟩
  onDisk : (st.roots a.dirIndex).entry a.pageDir a.name = some a.entry
  listed : st.mgr.Listed a.page
  parses : parseUInt64 a.name = some a.pageIndex
  named : a.name ∈ (st.roots a.dirIndex).names a.pageDir
  visited : ¬ todo a.dirIndex a.pageDir a.name
  valid : 0 < a.entry.len ∧ a.entry.len ≤ o.pageSize
  identified : a.pageDir = ownDir hashFileId a.pageDir.file →
    (st.roots a.dirIndex).identity a.pageDir ≠ none

/-- Nothing but what the scan has admitted is resident. -/
structure Recorded (o : CacheManagerOptions) (hashFileId : String → Nat)
    (todo : Nat → PageDir → String → Prop) (st : DiskScan) : Prop where
  resident : ∀ dir p e, st.mgr.caches dir p = some e →
    ∃ a ∈ st.admitted, a.dirIndex = dir ∧ a.page = p ∧ e = ⟨st.mgr.now, a.entry.fill⟩
  admitted : ∀ a ∈ st.admitted, Admitted o hashFileId todo st a

section

variable (h : Recorded o hashFileId todo st)
include h

theorem Recorded.mono (hsub : ∀ dir d name, todo' dir d name → todo dir d name) :
    Recorded o hashFileId todo' st where
  resident := h.resident
  admitted a ha := { h.admitted a ha with
    visited := fun ht => (h.admitted a ha).visited (hsub _ _ _ ht) }

theorem Recorded.setRoot {r : ScanRoot} (hnames : r.names = (st.roots dir).names)
    (hkept : ∀ a ∈ st.admitted, a.dirIndex = dir →
      r.entry a.pageDir a.name = (st.roots dir).entry a.pageDir a.name ∧
        r.identity a.pageDir = (st.roots dir).identity a.pageDir) :
    Recorded o hashFileId todo (st.setRoot dir r) where
  resident := h.resident
  admitted a ha := by
    have hold := h.admitted a ha
    rcases eq_or_ne a.dirIndex dir with rfl | hdir
    · have hroot : (st.setRoot a.dirIndex r).roots a.dirIndex = r := if_pos rfl
      obtain ⟨hentry, hid⟩ := hkept a ha rfl
      exact { hold with
        onDisk := by rw [hroot, hentry]; exact hold.onDisk
        named := by rw [hroot, hnames]; exact hold.named
        identified := by rw [hroot, hid]; exact hold.identified }
    · have hroot : (st.setRoot dir r).roots a.dirIndex = st.roots a.dirIndex := if_neg hdir
      exact { hold with
        onDisk := by rw [hroot]; exact hold.onDisk
        named := by rw [hroot]; exact hold.named
        identified := by rw [hroot]; exact hold.identified }

theorem Recorded.removeDirAll (hnone : ∀ a ∈ st.admitted, a.dirIndex = dir → a.pageDir ≠ d) :
    Recorded o hashFileId todo (st.setRoot dir ((st.roots dir).removeDirAll d)) :=
  h.setRoot rfl fun a ha hdir => ⟨if_neg (hnone a ha hdir), if_neg (hnone a ha hdir)⟩

theorem Recorded.removeFile (htodo : todo dir d name) :
    Recorded o hashFileId todo (st.setRoot dir ((st.roots dir).removeFile d name)) := by
  refine h.setRoot (by simp) fun a ha hdir => ⟨ScanRoot.removeFile_entry _ ?_, by simp⟩
  rintro ⟨hd, hname⟩
  exact (h.admitted a ha).visited (by rw [hdir, hd, hname]; exact htodo)

theorem Recorded.admitPage {i : Nat} {e : DirEntry} (hname : name ∈ (st.roots dir).names d)
    (hparse : parseUInt64 name = some i) (he : (st.roots dir).entry d name = some e)
    (hvalid : 0 < e.len ∧ e.len ≤ o.pageSize) (hnew : st.mgr.caches dir ⟨d.file, i⟩ = none)
    (hid : d = ownDir hashFileId d.file → (st.roots dir).identity d ≠ none)
    (hdone : ¬ todo dir d name) : Recorded o hashFileId todo (st.admitPage dir d name i e) where
  resident dir' p e' he' := by
    have hset : (st.mgr.setEntry dir ⟨d.file, i⟩ (some ⟨st.mgr.now, e.fill⟩)).caches dir' p =
        some e' := he'
    rw [setEntry_caches] at hset
    split at hset
    · next heq =>
      refine ⟨⟨dir, d, name, i, e⟩, mem_append_right _ (mem_singleton_self _), ?_⟩
      exact ⟨heq.1.symm, heq.2.symm, (Option.some.inj hset).symm⟩
    · obtain ⟨a, ha, hrest⟩ := h.resident dir' p e' hset
      exact ⟨a, mem_append_left _ ha, hrest⟩
  admitted a ha := by
    obtain ha | ha := mem_append.mp ha
    · have hold := h.admitted a ha
      refine { hold with entry := (if_neg ?_).trans hold.entry
                         listed := (listed_index _ _ _).mpr (.inr hold.listed) }
      rintro ⟨hdir, hpage⟩
      cases hold.entry.symm.trans (hdir ▸ hpage ▸ hnew)
    · cases mem_singleton.mp ha
      exact ⟨if_pos ⟨rfl, rfl⟩, he, (listed_index _ _ _).mpr (.inl rfl), hparse,
        hname, hdone, hvalid, hid⟩

theorem Recorded.restorePage {n : Nat} (hname : name ∈ (st.roots dir).names d)
    (hid : d = ownDir hashFileId d.file → (st.roots dir).identity d ≠ none)
    (htodo : todo dir d name) (hsub : ∀ dir' d' name', todo' dir' d' name' → todo dir' d' name')
    (hdone : ¬ todo' dir d name) : Recorded o hashFileId todo' (restorePage o dir d (st, n) name).1 ∧
      ((restorePage o dir d (st, n) name).1.roots dir).names = (st.roots dir).names ∧
      ((restorePage o dir d (st, n) name).1.roots dir).identity = (st.roots dir).identity ∧
      ((restorePage o dir d (st, n) name).1.admitted = st.admitted ∨
        0 < (restorePage o dir d (st, n) name).2) ∧ n ≤ (restorePage o dir d (st, n) name).2 := by
  have hremoved : Recorded o hashFileId todo' (st.setRoot dir ((st.roots dir).removeFile d name)) ∧
      ((st.setRoot dir ((st.roots dir).removeFile d name)).roots dir).names = (st.roots dir).names ∧
      ((st.setRoot dir ((st.roots dir).removeFile d name)).roots dir).identity =
        (st.roots dir).identity := by
    refine ⟨(h.removeFile htodo).mono hsub, ?_⟩
    simp [DiskScan.setRoot]
  have hkept : Recorded o hashFileId todo' st := h.mono hsub
  simp only [DiskScan.restorePage]
  split
  · exact ⟨hremoved.1, hremoved.2.1, hremoved.2.2, .inl rfl, Nat.le_refl n⟩
  split
  · exact ⟨hkept, rfl, rfl, .inl rfl, Nat.le_refl n⟩
  split
  · next i e hparse he =>
    split
    · exact ⟨hremoved.1, hremoved.2.1, hremoved.2.2, .inl rfl, Nat.le_refl n⟩
    split
    · exact ⟨hremoved.1, hremoved.2.1, hremoved.2.2, .inl rfl, Nat.le_refl n⟩
    · next hvalid hcontains =>
      have hnew : st.mgr.caches dir ⟨d.file, i⟩ = none :=
        (st.mgr.contains_eq_false dir _).mp (Bool.not_eq_true _ ▸ hcontains)
      exact ⟨hkept.admitPage hname hparse he (by omega) hnew hid hdone, rfl, rfl,
        .inr (Nat.succ_pos n), Nat.le_succ n⟩
  · exact ⟨hkept, rfl, rfl, .inl rfl, Nat.le_refl n⟩

end

def Untouched (st : DiskScan) (dir : Nat) (d : PageDir) : Prop :=
  ∀ a ∈ st.admitted, a.dirIndex = dir → a.pageDir ≠ d

theorem Recorded.restorePages (hlater : ∀ name, ¬ later dir d name) :
    ∀ (names : List String) (st : DiskScan) (n : Nat), names.Nodup →
    (∀ name ∈ names, name ∈ (st.roots dir).names d) →
    (d = ownDir hashFileId d.file → (st.roots dir).identity d ≠ none) →
    Recorded o hashFileId (fun dir' d' name => (dir' = dir ∧ d' = d ∧ name ∈ names) ∨ later dir' d' name) st →
    (n = 0 → st.Untouched dir d) →
    Recorded o hashFileId later (names.foldl (DiskScan.restorePage o dir d) (st, n)).1 ∧
      ((names.foldl (DiskScan.restorePage o dir d) (st, n)).2 = 0 →
        (names.foldl (DiskScan.restorePage o dir d) (st, n)).1.Untouched dir d) := by
  intro names
  induction names with
  | nil => exact fun st n _ _ _ h hn => ⟨h.mono fun _ _ _ => .inr, hn⟩
  | cons name names ih =>
    intro st n hnodup hnames hid h hn
    obtain ⟨hfresh, hnodup⟩ := nodup_cons.mp hnodup
    have hsub : ∀ dir' d' name', (dir' = dir ∧ d' = d ∧ name' ∈ names) ∨ later dir' d' name' →
        (dir' = dir ∧ d' = d ∧ name' ∈ name :: names) ∨ later dir' d' name' := by
      rintro dir' d' name' (⟨hdir, hd, hmem⟩ | hlate)
      · exact .inl ⟨hdir, hd, mem_cons_of_mem _ hmem⟩
      · exact .inr hlate
    have hdone : ¬ ((dir = dir ∧ d = d ∧ name ∈ names) ∨ later dir d name) := by
      rintro (⟨-, -, hmem⟩ | hlate)
      · exact hfresh hmem
      · exact hlater name hlate
    obtain ⟨hrec, hsame, hsidecar, hadmitted, hle⟩ := h.restorePage (n := n)
      (hnames name mem_cons_self) hid (.inl ⟨rfl, rfl, mem_cons_self⟩) hsub hdone
    rw [foldl_cons]
    generalize DiskScan.restorePage o dir d (st, n) name = out at hrec hsame hsidecar hadmitted hle ⊢
    refine ih out.1 out.2 hnodup (fun name' hmem => ?_) (hsidecar ▸ hid) hrec fun hzero => ?_
    · rw [hsame]
      exact hnames name' (mem_cons_of_mem _ hmem)
    · -- no page has been counted, so this name has not brought one either
      obtain hadmitted | hpos := hadmitted
      · unfold Untouched
        rw [hadmitted]
        exact hn (by omega)
      · omega

theorem Recorded.restorePageDir (hlater : ∀ name, ¬ later dir d name)
    (h : Recorded o hashFileId (fun dir' d' name => (dir' = dir ∧ d' = d) ∨ later dir' d' name) st) :
    Recorded o hashFileId later (restorePageDir o hashFileId dir st d) := by
  have huntouched : st.Untouched dir d := by
    intro a ha hdir hd
    exact (h.admitted a ha).visited (.inl ⟨hdir, hd⟩)
  have hkept : Recorded o hashFileId later st := h.mono fun _ _ _ => .inr
  unfold DiskScan.restorePageDir
  split
  · exact hkept.removeDirAll huntouched
  · next id hid =>
    have hstart : Recorded o hashFileId (fun dir' d' name =>
        (dir' = dir ∧ d' = d ∧ name ∈ (st.roots dir).names d) ∨ later dir' d' name) st :=
      h.mono fun _ _ _ hto => hto.imp_left fun hto => ⟨hto.1, hto.2.1⟩
    obtain ⟨hrec, hzero⟩ := Recorded.restorePages hlater ((st.roots dir).names d) st 0
      ((st.roots dir).names_nodup d) (fun _ hmem => hmem)
      (fun hown => hown ▸ hid ▸ Option.some_ne_none id) hstart fun _ => huntouched
    simp only
    split
    · exact { hrec with admitted := fun a ha => { hrec.admitted a ha with } }
    · next hn => exact hrec.removeDirAll (hzero (Nat.eq_zero_of_not_pos hn))

theorem Recorded.restoreStore {later : Nat → Prop} (hlater : ¬ later dir)
    (h : Recorded o hashFileId (fun dir' _ _ => dir' = dir ∨ later dir') st) :
    Recorded o hashFileId (fun dir' _ _ => later dir') (restoreStore o hashFileId st dir) := by
  have hdirs : ∀ (dirs : List PageDir) (st : DiskScan), dirs.Nodup →
      Recorded o hashFileId (fun dir' d' _ => (dir' = dir ∧ d' ∈ dirs) ∨ later dir') st →
      Recorded o hashFileId (fun dir' _ _ => later dir')
        (dirs.foldl (DiskScan.restorePageDir o hashFileId dir) st) := by
    intro dirs
    induction dirs with
    | nil => exact fun st _ h => h.mono fun _ _ _ => .inr
    | cons d dirs ih =>
      intro st hnodup h
      obtain ⟨hfresh, hnodup⟩ := nodup_cons.mp hnodup
      refine ih _ hnodup (Recorded.restorePageDir ?_ (h.mono ?_))
      · rintro name (⟨-, hmem⟩ | hlate)
        · exact hfresh hmem
        · exact hlater hlate
      · rintro dir' d' name (⟨hdir, hd⟩ | ⟨hdir, hmem⟩ | hlate)
        · exact .inl ⟨hdir, hd ▸ mem_cons_self⟩
        · exact .inl ⟨hdir, mem_cons_of_mem _ hmem⟩
        · exact .inr hlate
  refine hdirs _ st (st.roots dir).pageDirs_nodup (h.mono ?_)
  rintro dir' d' name (⟨hdir, -⟩ | hlate)
  · exact .inl hdir
  · exact .inr hlate

theorem recorded_restore (o : CacheManagerOptions) (hashFileId : String → Nat)
    (roots : Nat → ScanRoot) (now : Nat) :
    Recorded o hashFileId (fun _ _ _ => False) (restore o hashFileId roots now) := by
  have hdirs : ∀ (dirs : List Nat) (st : DiskScan), dirs.Nodup →
      Recorded o hashFileId (fun dir _ _ => dir ∈ dirs) st →
      Recorded o hashFileId (fun _ _ _ => False) (dirs.foldl (restoreStore o hashFileId) st) := by
    intro dirs
    induction dirs with
    | nil => exact fun st _ h => h.mono fun _ _ _ => False.elim
    | cons dir dirs ih =>
      intro st hnodup h
      obtain ⟨hfresh, hnodup⟩ := nodup_cons.mp hnodup
      exact ih _ hnodup (Recorded.restoreStore hfresh (h.mono fun _ _ _ => mem_cons.mpr))
  refine hdirs _ _ nodup_range ?_
  exact ⟨nofun, nofun⟩

end DiskScan

namespace CacheState

open GooseFS.Task

variable {o : CacheManagerOptions} {m : LocalCacheManager} {p : PageId} {len offset : Nat}

/-! ## A get and an invalidation that run alone -/

theorem get_step {pc pc' : GetPc} (hlive : pc ≠ .done ∧ pc ≠ .expired .done)
    (hfree : writing (.get p offset len pc) = none)
    (hacquires : acquires (.get p offset len pc) = none)
    (h : getStep o true p offset len m pc = (m, pc')) :
    step o ⟨m, [.get p offset len pc]⟩ (.run 0 true []) = some ⟨m, [.get p offset len pc']⟩ := by
  have hfinished : finished (.get p offset len pc) = false := by simp [finished, hlive]
  have henabled : Enabled o ⟨m, [.get p offset len pc]⟩ (.get p offset len pc) [] := by
    refine ⟨?_, ?_, ?_⟩
    · intro q hq
      rw [hacquires] at hq
      cases hq
    · intro q _ t ht
      cases mem_singleton.mp ht
      rw [hfree]
      simp
    · intro f hf
      cases hf
  simp only [step, getElem?_cons_zero]
  rw [if_pos ⟨hfinished, henabled⟩]
  simp only [advance, Task.next, h, releases, Nat.add_zero, set_cons_zero]

theorem get_returns {e : PageInfo} {fill : Fill} (he : m.caches (o.allocate p.fileId) p = some e)
    (hexp : m.expired o.ttl e = false) (hpage : m.page (o.allocate p.fileId) p = some fill)
    (hlen : 0 < len) :
    Guarded (step o) (fun _ _ => True) ⟨m, []⟩ (.getBytes p offset len :: takes 0 3)
      ⟨m, [.get p offset len (.ret (slice fill.bytes offset len) (some fill))]⟩ := by
  have hcall : step o ⟨m, []⟩ (.getBytes p offset len) =
      some ⟨m, [.get p offset len .lock]⟩ := by
    simp only [step, spawn, if_neg (Nat.ne_of_gt hlen), nil_append]
  have hlookup : getStep o true p offset len m .lookup = (m, .read e) := by
    simp only [getStep, he, hexp, Bool.false_eq_true, if_false]
  have hread : getStep o true p offset len m (.read e) =
      (m, .ret (slice fill.bytes offset len) (some fill)) := by
    simp only [getStep, hpage, if_true]
  exact .cons trivial hcall
    (.cons trivial (get_step ⟨by simp, by simp⟩ rfl rfl rfl)
      (.cons trivial (get_step ⟨by simp, by simp⟩ rfl rfl hlookup)
        (.cons trivial (get_step ⟨by simp, by simp⟩ rfl rfl hread) (.nil _))))

/-- An invalidation of `f` that has the manager to itself, and whose deletes succeed, may
end in `s`. -/
def InvalidatesTo (o : CacheManagerOptions) (m : LocalCacheManager) (f : String) (s : CacheState) :
    Prop :=
  ∃ ls, Guarded (step o) (fun _ a => ∃ order, a = .run 0 true order)
    ⟨m, [.invalidate f .snapshot]⟩ ls s ∧ s.tasks[0]? = some (.invalidate f .done)

theorem exists_invalidatesTo (o : CacheManagerOptions) (m : LocalCacheManager) (f : String) :
    ∃ s, InvalidatesTo o m f s := by
  have hstart : (⟨m, [.invalidate f .snapshot]⟩ : CacheState).tasks[0]? =
      some (.invalidate f .snapshot) := rfl
  obtain ⟨ls, s, hrun, hdone⟩ := invalidate_returns (o := o) _ (Nat.le_refl _) hstart (by
    intro j t hj ht
    rw [getElem?_cons, if_neg hj] at ht
    cases ht)
  exact ⟨s, ls, hrun.mono fun _ _ h => h.2, hdone⟩

variable {dir : Nat} {f : String} {order : List Nat} {pc : InvalidatePc} {ok : Bool}

theorem invalidate_step (htask : s.tasks = [.invalidate f pc])
    (hs : step o s (.run 0 true order) = some s') : (pc = .snapshot → order.Perm (s.mgr.byFile f)) ∧
      s' = s.advance 0 (invalidateStep o true f order s.mgr pc).1
        (.invalidate f (invalidateStep o true f order s.mgr pc).2) ∧
      s'.tasks = [.invalidate f (invalidateStep o true f order s.mgr pc).2] := by
  cases step_inv hs with
  | call ht _ _ _ => cases ht
  | run hi _ hen =>
    rw [htask] at hi
    cases hi
    refine ⟨?_, rfl, ?_⟩
    · rintro rfl
      exact hen.2.2 f rfl
    · simp only [advance, htask, set_cons_zero, Task.next]

/-- The invalidation of the file of `p` gets to `p`, or is at it, as long as anything is
left of the page in its directory. -/
structure Reaching (o : CacheManagerOptions) (p : PageId) (s : CacheState) (pc : InvalidatePc) :
    Prop where
  task : s.tasks = [.invalidate p.fileId pc]
  cached : s.mgr.caches (o.allocate p.fileId) p ≠ none → pc.Handles p.pageIndex
  listed : pc = .snapshot → s.mgr.Listed p
  file : s.mgr.page (o.allocate p.fileId) p ≠ none →
    s.mgr.caches (o.allocate p.fileId) p ≠ none ∨ owning (.invalidate p.fileId pc) = some p

theorem caches_of_invalidateStep (h : (invalidateStep o true f order m pc).1.caches dir p ≠ none) :
    m.caches dir p ≠ none := by
  have heff := next_effect o true order m (.invalidate f pc)
  obtain heq | ⟨-, hnone | ⟨fill, permit, ht, -⟩⟩ := heff.caches dir p
  · rw [← heq]
    exact h
  · exact absurd hnone h
  · cases ht

theorem page_of_invalidateStep (h : (invalidateStep o true f order m pc).1.page dir p ≠ none) :
    m.page dir p ≠ none := by
  have heff := next_effect o true order m (.invalidate f pc)
  obtain heq | ⟨-, hnone⟩ | ⟨fill, permit, ht, -⟩ := heff.page dir p
  · rw [← heq]
    exact h
  · exact absurd hnone h
  · cases ht

theorem invalidateStep_ne_snapshot (pc : InvalidatePc) :
    (invalidateStep o ok f order m pc).2 ≠ .snapshot := by
  intro hpc
  cases pc with
  | snapshot =>
    simp only [invalidateStep] at hpc
    cases order <;> cases hpc
  | done => cases hpc
  | deleting j dpc rest =>
    simp only [invalidateStep] at hpc
    split at hpc
    · cases rest <;> cases hpc
    · cases hpc

theorem Reaching.step (h : Reaching o p s pc)
    (hs : step o s (.run 0 true order) = some s') :
    Reaching o p s' (invalidateStep o true p.fileId order s.mgr pc).2 := by
  obtain ⟨horder, hs', htasks⟩ := invalidate_step h.task hs
  have hcaches : s'.mgr.caches = (invalidateStep o true p.fileId order s.mgr pc).1.caches := by
    rw [hs']
    rfl
  have hpage : s'.mgr.page (o.allocate p.fileId) p =
      (invalidateStep o true p.fileId order s.mgr pc).1.page (o.allocate p.fileId) p := by
    rw [hs']
    rfl
  refine ⟨htasks, ?_, fun hpc => absurd hpc (invalidateStep_ne_snapshot pc), ?_⟩
  · intro hne
    rw [hcaches] at hne
    refine invalidateStep_handles
      (fun i => i = p.pageIndex ∧ s.mgr.caches (o.allocate p.fileId) p ≠ none)
      (fun i => i = p.pageIndex ∧
        (invalidateStep o true p.fileId order s.mgr pc).1.caches (o.allocate p.fileId) p ≠ none)
      (fun i hi => ⟨hi.1, caches_of_invalidateStep hi.2⟩) ?_ ?_ ?_ p.pageIndex ⟨rfl, hne⟩
    · rintro hpc i ⟨rfl, -⟩
      exact (horder hpc).mem_iff.mpr (h.listed hpc)
    · rintro j rest rfl ⟨rfl, hleft⟩
      exact hleft (invalidateStep_remove order rest)
    · rintro i ⟨rfl, hold⟩
      exact h.cached hold
  · intro hne
    rw [hpage] at hne
    rw [hcaches]
    obtain hcached | howning := h.file (page_of_invalidateStep hne)
    · by_cases hnew : (invalidateStep o true p.fileId order s.mgr pc).1.caches
          (o.allocate p.fileId) p = none
      · obtain ⟨e, he⟩ := Option.ne_none_iff_exists'.mp hcached
        have hremoval : removal (.invalidate p.fileId
            (invalidateStep o true p.fileId order s.mgr pc).2) = some (p, .index) :=
          (invalidateStep_dropped he hnew).1
        exact .inr (owning_of_removal hremoval)
      · exact .inl hnew
    · obtain hkeeps | ⟨e, he⟩ | hgone := next_owning (o := o) order s.mgr howning
        (fun _ => (rfl : true = true)) (fun task pc ht => Task.noConfusion ht)
      · exact .inr hkeeps
      · refine .inl fun hnone => ?_
        rw [show (invalidateStep o true p.fileId order s.mgr pc).1.caches (o.allocate p.fileId) p =
          some e from he] at hnone
        cases hnone
      · exact absurd hgone hne

theorem InvalidatesTo.gone (h : InvalidatesTo o m p.fileId s)
    (hcached : m.caches (o.allocate p.fileId) p ≠ none) (hlisted : m.Listed p) :
    s.mgr.caches (o.allocate p.fileId) p = none ∧ s.mgr.page (o.allocate p.fileId) p = none := by
  obtain ⟨ls, hrun, hdone⟩ := h
  have hstart : Reaching o p ⟨m, [.invalidate p.fileId .snapshot]⟩ .snapshot :=
    ⟨rfl, fun _ => trivial, fun _ => hlisted, fun _ => .inl hcached⟩
  let Inv : CacheState → Prop := fun s => ∃ pc, Reaching o p s pc
  have hend : Inv s := by
    refine hrun.invariant ?_ (show Inv ⟨m, [.invalidate p.fileId .snapshot]⟩ from ⟨_, hstart⟩)
    rintro s₁ a s₂ ⟨pc, hreach⟩ ⟨order, rfl⟩ hs
    exact ⟨_, hreach.step hs⟩
  obtain ⟨pc, hreach⟩ := hend
  have hpc : pc = .done := by
    rw [hreach.task] at hdone
    cases hdone
    rfl
  subst hpc
  have hnone : s.mgr.caches (o.allocate p.fileId) p = none := by
    by_contra hne
    exact hreach.cached hne
  refine ⟨hnone, ?_⟩
  by_contra hne
  obtain hcached | howning := hreach.file hne
  · exact hcached hnone
  · cases howning

end CacheState

namespace DiskScan

variable {o : CacheManagerOptions} {hashFileId : String → Nat} {st : DiskScan} {a : Admission}
  {todo : Nat → PageDir → String → Prop}

/-! ## Pages that are live -/

/-- A page that the scan has admitted can be read, and an invalidation of its file that
runs alone removes it from the cache and from the disk. -/
structure Live (o : CacheManagerOptions) (hashFileId : String → Nat) (st : DiskScan)
    (a : Admission) : Prop where
  served : ∀ offset len, 0 < len → ∃ s, Guarded (step o) (fun _ _ => True)
    ⟨st.manager hashFileId, []⟩ (.getBytes a.page offset len :: takes 0 3) s ∧
      s.tasks = [.get a.page offset len
        (.ret (slice a.entry.fill.bytes offset len) (some a.entry.fill))]
  removed : (∃ s, CacheState.InvalidatesTo o (st.manager hashFileId) a.page.fileId s) ∧
    ∀ s, CacheState.InvalidatesTo o (st.manager hashFileId) a.page.fileId s →
      s.mgr.caches a.dirIndex a.page = none ∧
        st.entryAfter hashFileId s.mgr a.dirIndex a.pageDir a.name = none

/-- The page has been found where the page store would look for it. -/
structure AtHome (o : CacheManagerOptions) (hashFileId : String → Nat) (a : Admission) : Prop where
  dir : a.dirIndex = o.allocate a.page.fileId
  pageDir : a.pageDir = ownDir hashFileId a.page.fileId
  name : a.name = toString a.pageIndex
  file : ∃ fill, a.entry = .file fill

theorem AtHome.page (h : AtHome o hashFileId a) (hrec : Recorded o hashFileId todo st) (ha : a ∈ st.admitted) :
    (st.manager hashFileId).page (o.allocate a.page.fileId) a.page = some a.entry.fill := by
  obtain ⟨fill, hfill⟩ := h.file
  have hfile : (st.roots a.dirIndex).pageFile a.pageDir a.name = some ⟨a.pageIndex, fill⟩ := by
    simp only [ScanRoot.pageFile, (hrec.admitted a ha).parses, (hrec.admitted a ha).onDisk, hfill, if_pos h.name]
  have hlookup := ScanRoot.fileDir_lookup (hrec.admitted a ha).named hfile
  rw [h.dir, h.pageDir] at hlookup
  rw [hfill]
  exact hlookup

theorem AtHome.live (h : AtHome o hashFileId a) (hrec : Recorded o hashFileId todo st) (ha : a ∈ st.admitted) :
    Live o hashFileId st a := by
  have hcached : (st.manager hashFileId).caches (o.allocate a.page.fileId) a.page =
      some ⟨st.mgr.now, a.entry.fill⟩ := by
    rw [← h.dir]
    exact (hrec.admitted a ha).entry
  have hfresh : (st.manager hashFileId).expired o.ttl ⟨st.mgr.now, a.entry.fill⟩ = false := by
    unfold expired
    split
    · rfl
    · exact decide_eq_false (by simp [manager])
  have hpage := h.page hrec ha
  constructor
  · intro offset len hlen
    exact ⟨_, get_returns hcached hfresh hpage hlen, rfl⟩
  · refine ⟨exists_invalidatesTo o _ _, fun s hs => ?_⟩
    have hne : (st.manager hashFileId).caches (o.allocate a.page.fileId) a.page ≠ none := by
      rw [hcached]
      exact Option.some_ne_none _
    obtain ⟨hentry, hgone⟩ := hs.gone hne ((hrec.admitted a ha).listed)
    obtain ⟨fill, hfill⟩ := h.file
    refine ⟨h.dir ▸ hentry, ?_⟩
    have hown : a.pageDir = ownDir hashFileId a.pageDir.file ∧ a.name = toString a.pageIndex :=
      ⟨h.pageDir, h.name⟩
    simp only [entryAfter, (hrec.admitted a ha).parses, (hrec.admitted a ha).onDisk, hfill, if_pos hown]
    rw [h.dir]
    exact congrArg (Option.map DirEntry.file) hgone

/-- A page that the scan has found where the page store would look for it is one that
`restore` restores from the disk that the scan leaves. -/
theorem restored_of_atHome (o : CacheManagerOptions) (hashFileId : String → Nat)
    (roots : Nat → ScanRoot) (now : Nat) {a : Admission}
    (ha : a ∈ (restore o hashFileId roots now).admitted) (hat : AtHome o hashFileId a) :
    (CacheState.restore o ((restore o hashFileId roots now).manager hashFileId)).caches
      a.dirIndex a.page = (restore o hashFileId roots now).mgr.caches a.dirIndex a.page := by
  have hrec := recorded_restore o hashFileId roots now
  generalize restore o hashFileId roots now = st at ha hrec ⊢
  have hrecord := hrec.admitted a ha
  have hdir : a.dirIndex < o.numDirs := hat.dir ▸ o.allocate_lt _
  have hpage : ((st.manager hashFileId).dirs a.dirIndex a.page.fileId).pages.lookup
      a.page.pageIndex = some a.entry.fill := hat.dir ▸ hat.page hrec ha
  obtain ⟨id, hid⟩ := Option.ne_none_iff_exists'.mp (hrecord.identified hat.pageDir)
  have hid' : ((st.manager hashFileId).dirs a.dirIndex a.page.fileId).identity = some id := by
    rw [← hid, hat.pageDir]
    rfl
  have hlive : restorable o a.entry.fill = true := by
    obtain ⟨fill, hfill⟩ := hat.file
    have hvalid := hrecord.valid
    rw [hfill] at hvalid ⊢
    exact decide_eq_true hvalid
  have hmem : Sigma.mk a.page.pageIndex a.entry.fill ∈ (livePages o
      ((st.manager hashFileId).dirs a.dirIndex a.page.fileId)).entries :=
    mem_filter.mpr ⟨AList.mem_lookup_iff.mp hpage, hlive⟩
  simp only [CacheState.restore, if_pos hdir, CacheState.restoreDir, hid',
    if_neg (ne_nil_of_mem hmem), hrecord.entry]
  rw [AList.mem_lookup_iff.mpr hmem]
  rfl

/-- A page file of `f` in its page directory, and nothing else. -/
def onePage : ScanRoot where
  pageDirs := [⟨"0", "f"⟩]
  names _ := ["0"]
  identity d := if d = ⟨"0", "f"⟩ then some ⟨1, 1⟩ else none
  entry d name := if d = ⟨"0", "f"⟩ ∧ name = "0" then some (.file ⟨[7], ⟨1, 1⟩⟩) else none
  pageDirs_nodup := nodup_singleton _
  names_nodup _ := nodup_singleton _

def emptyRoot : ScanRoot where
  pageDirs := []
  names _ := []
  identity _ := none
  entry _ _ := none
  pageDirs_nodup := nodup_nil
  names_nodup _ := nodup_nil

/-- The page was written when there was one directory; the second is new, and `f` belongs
there now. -/
def grownOptions : CacheManagerOptions :=
  { tinyOptions with numDirs := 2, dirs_pos := Nat.zero_lt_two, hashFile := fun _ => 1 }

def grown : DiskScan :=
  restore grownOptions (fun _ => 0) (fun dir => if dir = 0 then onePage else emptyRoot) 0

end DiskScan

end GooseFS
