import GooseFS.Cache.RangeRead
import GooseFS.IO.AsyncReader
import GooseFS.IO.Cursor

/-!
# Seeks and positioned reads in machine numbers

`seek_from` and `read_at` take any `u64`, `i64` and `usize`, and compute their
target and the end of their range in `i64`.  The functions here do that
arithmetic as the source does, with overflow checks: `none` is a panic.  Where
no number leaves the range of an `i64` they are the functions on exact numbers
of the stream model (`readAtI64_of_fits`).

A `u64` from `2 ^ 63` on is negative as an `i64`: `SeekFrom::Start` then goes to
the beginning of the file, and a `read_at` of that many bytes ends before it
starts, which is an empty result with a page cache and a panic without one.
`extreme_arguments_iff` says for which arguments the two functions do what they
should.
-/

namespace GooseFS

open Lib List Option

def SeekFrom.InRange : SeekFrom → Prop
  | .start n => n < 2 ^ 64
  | .fromEnd n => -2 ^ 63 ≤ n ∧ n < 2 ^ 63
  | .current n => -2 ^ 63 ≤ n ∧ n < 2 ^ 63

/-- A world that also answers requests for a negative number of bytes:
`backward n` is what connecting and opening such a stream comes to in the `n`-th
interaction. -/
structure MachineWorld extends StreamWorld where
  backward : Nat → Except Error Unit

namespace GoosefsFileInStream

variable (st : GoosefsFileInStream)

/-! ## The functions -/

def seekTarget : SeekFrom → Option Int
  | .start n => some (asI64 n)
  | .fromEnd n => checkedI64 (st.fileLength + n)
  | .current n => checkedI64 (st.userPos + n)

def seekFrom (arg : SeekFrom) : Option (Except Error Nat × GoosefsFileInStream) :=
  (st.seekTarget arg).map st.seek

/-- The end of the block of a position: `block_start(idx) + block_size_bytes`. -/
def blockEndI64 (offset : Nat) : Option Int :=
  (checkedI64 (st.blockStart (st.blockIndexForPos offset))).bind fun start =>
    checkedI64 (start + st.status.blockSizeBytes)

variable (w : MachineWorld)

/-- One positioned read.  For a stream of negative length `read_all` asks for a buffer of
`length as usize` bytes, and panics. -/
def positionedReadI64 (blockId : Int) (offset : Nat) (length : Int) (io : StreamIo) :
    Option (Except Error Bytes × StreamIo) :=
  if 0 ≤ length then some (st.positionedRead w.toStreamWorld blockId offset length.toNat io)
  else
    match w.backward io.calls with
    | .error e => some (.error e, { io with calls := io.calls + 1 })
    | .ok () => none

def readBlocksI64 (endOff : Int) : Nat → Nat → Bytes → StreamIo →
    Option (Except Error Bytes × StreamIo)
  | 0, _, result, io => some (.ok result, io)
  | fuel + 1, cur, result, io =>
    if cur < endOff then
      match st.blockIdAt (st.blockIndexForPos cur) with
      | .error e => some (.error e, io)
      | .ok blockId =>
        (st.blockEndI64 cur).bind fun blockEnd =>
        (checkedI64 (min endOff blockEnd - cur)).bind fun length =>
        match st.positionedReadI64 w blockId cur length io with
        | none => none
        | some (.error e, io) => some (.error e, io)
        | some (.ok data, io) =>
          if data.length = 0 then
            some (.error (zeroBytesPositionedAt (st.request blockId cur length.toNat) cur
              endOff.toNat), io)
          else
            (checkedI64 (cur + data.length)).bind fun next =>
              readBlocksI64 endOff fuel next.toNat (result ++ data) io
    else some (.ok result, io)

def readExternalRangeI64 (offset : Nat) (endOff : Int) (io : StreamIo) :
    Option (Except Error Bytes × StreamIo) :=
  (st.blockEndI64 offset).bind fun firstBlockEnd =>
    if endOff ≤ firstBlockEnd then
      match st.blockIdAt (st.blockIndexForPos offset) with
      | .error e => some (.error e, io)
      | .ok blockId =>
        (checkedI64 (endOff - offset)).bind fun length =>
        match st.positionedReadI64 w blockId offset length io with
        | none => none
        | some (.error e, io) => some (.error e, io)
        | some (.ok data, io) =>
          if data = [] then
            some (.error (zeroBytesPositioned (st.request blockId offset length.toNat)), io)
          else some (.ok data, io)
    else st.readBlocksI64 w endOff (endOff - offset).toNat offset [] io

def unwound : Error := .internal "panicked"

/-- The stream as the source of a cached read.  After a panic there is no state. -/
def externalI64 : ExternalRangeReader (Option StreamIo) := fun s a e =>
  match s.bind (st.readExternalRangeI64 w a e) with
  | none => (.error unwound, none)
  | some (res, io) => (res, some io)

def readAtCachedI64 (c : PageCache) (offset : Nat) (endOff : Int) (io : StreamIo) :
    Option (Except Error Bytes × StreamIo) :=
  match readThroughCacheI64 (w.cache io.batches) (st.externalI64 w) c.fileId c.pageSize
      st.fileLength offset endOff c.fillMode (some io) with
  | some (res, some io', fills) =>
    some (res, { io' with batches := io'.batches + 1, fills := io'.fills ++ fills })
  | _ => none

def readAtI64 (offset : Nat) (n : UInt64) (io : StreamIo) : Option (Except Error Bytes × StreamIo) :=
  if st.fileLength ≤ offset ∨ n = 0 then some (.ok [], io)
  else
    (checkedI64 (offset + asI64 n.toNat)).bind fun sum =>
      let endOff := min sum st.fileLength
      match st.cache with
      | some c => st.readAtCachedI64 w c offset endOff io
      | none => st.readExternalRangeI64 w offset endOff io

/-! ## Arguments that fit -/

def exactTarget : SeekFrom → Int
  | .start n => n
  | .fromEnd n => st.fileLength + n
  | .current n => st.userPos + n

/-- An `i64` carries the target, or there is nowhere to go. -/
def SeekFits (arg : SeekFrom) : Prop :=
  st.exactTarget arg < 2 ^ 63 ∨ (∃ n, arg = .start n) ∧ st.fileLength = 0

/-- There is nothing to read, or an `i64` carries the end of the range, of the
pages that it touches and of the blocks that are read for it. -/
def ReadFits (offset n : Nat) : Prop :=
  st.fileLength ≤ offset ∨ n = 0 ∨ offset + n < 2 ^ 63 ∧
    match st.cache with
    | none => PagesFit st.status.blockSizeBytes offset (min (offset + n) st.fileLength)
    | some c =>
      PagesFit (max c.pageSize 1) offset (min (offset + n) st.fileLength) ∧
        ∀ p ∈ touchedPages (max c.pageSize 1) st.fileLength offset (min (offset + n) st.fileLength),
          PagesFit st.status.blockSizeBytes p.pageStart p.pageEnd

section Blocks

variable {st : GoosefsFileInStream} {w : MachineWorld} {store : Int → Bytes} {file : Bytes}
  {offset endOff x : Nat}

section

variable (hbs : 0 < st.status.blockSizeBytes)
include hbs

theorem blockStart_eq (x : Nat) :
    st.blockStart (st.blockIndexForPos x) = x / st.status.blockSizeBytes * st.status.blockSizeBytes := by
  rw [blockStart, blockIndexForPos, if_neg (by omega)]

theorem blockEndI64_of_fits
    (hfits : (x / st.status.blockSizeBytes + 1) * st.status.blockSizeBytes < 2 ^ 63) :
    st.blockEndI64 x =
      some ((st.blockStart (st.blockIndexForPos x) + st.status.blockSizeBytes : Nat) : Int) := by
  rw [Nat.add_one_mul] at hfits
  rw [blockEndI64, blockStart_eq hbs, checkedI64_of_lt, bind_some,
    ← Int.natCast_add, checkedI64_of_lt]

theorem blockEndI64_past (hx : x < 2 ^ 63)
    (hpast : 2 ^ 63 ≤ (x / st.status.blockSizeBytes + 1) * st.status.blockSizeBytes) :
    st.blockEndI64 x = none := by
  have hstart := (page_bounds hbs x).1
  rw [Nat.add_one_mul] at hpast
  rw [blockEndI64, blockStart_eq hbs, checkedI64_of_lt, bind_some, checkedI64_of_ge (by omega)]

end

theorem positionedReadI64_of_nat (blockId : Int) (offset length : Nat) (io : StreamIo) :
    st.positionedReadI64 w blockId offset length io =
      some (st.positionedRead w.toStreamWorld blockId offset length io) := by
  rw [positionedReadI64, if_pos (Int.natCast_nonneg length), Int.toNat_natCast]

section

variable (hbs : 0 < st.status.blockSizeBytes)
  (hw : w.Serves store file st)
include hbs hw

theorem readBlocksI64_of_fits (hend : endOff < 2 ^ 63) :
    ∀ (fuel cur : Nat) (result : Bytes) (io : StreamIo),
      PagesFit st.status.blockSizeBytes cur endOff → st.readBlocksI64 w endOff fuel cur result io =
          some (st.readBlocks w.toStreamWorld endOff fuel cur result io) := by
  intro fuel
  induction fuel with
  | zero =>
    intro cur result io _
    rfl
  | succ fuel ih =>
    intro cur result io hfit
    rw [readBlocksI64, readBlocks]
    by_cases hlt : cur < endOff
    · rw [if_pos (by exact_mod_cast hlt), if_pos hlt]
      cases hid : st.blockIdAt (st.blockIndexForPos cur) with
      | error e => rfl
      | ok blockId =>
        have hblock := lt_blockEnd hbs cur
        have hblockEnd := blockEndI64_of_fits hbs (hfit cur (Nat.le_refl _) hlt)
        generalize hE : st.blockStart (st.blockIndexForPos cur) + st.status.blockSizeBytes =
          blockEnd at hblock hblockEnd ⊢
        have hlength : min (endOff : Int) blockEnd - cur = (min endOff blockEnd - cur : Nat) := by
          omega
        simp only [hblockEnd, bind_some]
        rw [hlength, checkedI64_of_lt, bind_some, positionedReadI64_of_nat]
        rcases hread : st.positionedRead w.toStreamWorld blockId cur (min endOff blockEnd - cur) io
          with ⟨_ | data, io'⟩
        · rfl
        · simp only
          split
          · rfl
          · have hdata := positionedRead_ok (n := min endOff blockEnd - cur) hbs hw hid (by omega)
              (by rw [hread])
            have hle : data.length ≤ min endOff blockEnd - cur := by
              rw [hdata]
              exact slice_length_le ..
            rw [← Int.natCast_add, checkedI64_of_lt, bind_some, Int.toNat_natCast]
            exact ih _ _ _ fun x hx => hfit x (by omega)
    · rw [if_neg (by exact_mod_cast hlt), if_neg hlt]

theorem readExternalRangeI64_of_fits (hlt : offset < endOff) (hend : endOff < 2 ^ 63)
    (hfit : PagesFit st.status.blockSizeBytes offset endOff) (io : StreamIo) :
    st.readExternalRangeI64 w offset endOff io =
      some (st.readExternalRange w.toStreamWorld offset endOff io) := by
  have hlength : (endOff : Int) - offset = (endOff - offset : Nat) := by omega
  rw [readExternalRangeI64, blockEndI64_of_fits hbs (hfit offset (Nat.le_refl _) hlt),
    bind_some, readExternalRange]
  by_cases hone : endOff ≤ st.blockStart (st.blockIndexForPos offset) + st.status.blockSizeBytes
  · rw [if_pos (by exact_mod_cast hone), if_pos hone]
    cases hid : st.blockIdAt (st.blockIndexForPos offset) with
    | error e => rfl
    | ok blockId =>
      simp only
      rw [hlength, checkedI64_of_lt, bind_some, positionedReadI64_of_nat]
      rcases st.positionedRead w.toStreamWorld blockId offset (endOff - offset) io
        with ⟨_ | data, io'⟩
      · rfl
      · simp only
        split <;> rfl
  · rw [if_neg (by exact_mod_cast hone), if_neg hone, hlength, Int.toNat_natCast]
    exact readBlocksI64_of_fits hbs hw hend _ _ _ _ hfit

end

theorem blockEnd_le_of_past (hbs : 0 < st.status.blockSizeBytes) {cur : Nat} (hcur : cur ≤ x)
    (hfits : (cur / st.status.blockSizeBytes + 1) * st.status.blockSizeBytes < 2 ^ 63)
    (hpast : 2 ^ 63 ≤ (x / st.status.blockSizeBytes + 1) * st.status.blockSizeBytes) :
    st.blockStart (st.blockIndexForPos cur) + st.status.blockSizeBytes ≤ x := by
  rw [blockStart_eq hbs, ← Nat.add_one_mul]
  by_contra hlast
  have hsame := div_eq_of_page (Nat.le_trans (page_bounds hbs cur).1 hcur) (Nat.not_le.mp hlast)
  rw [hsame] at hpast
  omega

section Past

variable (hbs : 0 < st.status.blockSizeBytes)
  (hw : w.Serves store file st) (hrel : w.Reliable)
  (hres : st.Resolved) (hlen : st.fileLength = file.length) (hend : endOff ≤ file.length)
  (hmax : file.length < 2 ^ 63) {x : Nat} (hx : x < endOff)
  (hpast : 2 ^ 63 ≤ (x / st.status.blockSizeBytes + 1) * st.status.blockSizeBytes)
include hbs hw hrel hres hlen hend hmax hx hpast

theorem readBlocksI64_past : ∀ (fuel cur : Nat) (result : Bytes) (io : StreamIo), cur ≤ x →
    endOff - cur ≤ fuel → st.readBlocksI64 w endOff fuel cur result io = none := by
  intro fuel
  induction fuel with
  | zero =>
    intro cur result io hcur hfuel
    omega
  | succ fuel ih =>
    intro cur result io hcur hfuel
    have hlt : cur < endOff := by omega
    obtain ⟨id, hid⟩ := hres cur (by omega)
    rw [readBlocksI64, if_pos (by exact_mod_cast hlt), hid]
    simp only
    by_cases hfits : (cur / st.status.blockSizeBytes + 1) * st.status.blockSizeBytes < 2 ^ 63
    · have hblock := lt_blockEnd hbs cur
      have hnext := blockEnd_le_of_past hbs hcur hfits hpast
      rw [blockEndI64_of_fits hbs hfits, bind_some]
      generalize hE : st.blockStart (st.blockIndexForPos cur) + st.status.blockSizeBytes = blockEnd
        at hblock hnext ⊢
      have hlength : min (endOff : Int) blockEnd - cur = (blockEnd - cur : Nat) := by omega
      have hread := positionedRead_reliable (n := blockEnd - cur) hbs hw hrel hid (by omega)
        (by omega) io
      have hdata : (slice file cur (blockEnd - cur)).length = blockEnd - cur :=
        slice_length_of_le (by omega)
      rcases hpair : st.positionedRead w.toStreamWorld id cur (blockEnd - cur) io with ⟨res, io'⟩
      rw [hpair] at hread
      simp only at hread
      subst hread
      rw [hlength, checkedI64_of_lt, bind_some, positionedReadI64_of_nat, hpair]
      simp only [hdata]
      rw [if_neg (by omega), ← Int.natCast_add, checkedI64_of_lt, bind_some, Int.toNat_natCast]
      exact ih _ _ _ (by omega) (by omega)
    · rw [blockEndI64_past hbs (by omega) (Nat.not_lt.mp hfits), bind_none]

theorem readExternalRangeI64_past (hoff : offset ≤ x) (io : StreamIo) :
    st.readExternalRangeI64 w offset endOff io = none := by
  rw [readExternalRangeI64]
  by_cases hfits : (offset / st.status.blockSizeBytes + 1) * st.status.blockSizeBytes < 2 ^ 63
  · have hnext := blockEnd_le_of_past hbs hoff hfits hpast
    rw [blockEndI64_of_fits hbs hfits, bind_some, if_neg (by omega)]
    exact readBlocksI64_past hbs hw hrel hres hlen hend hmax hx hpast _ _ _ _ hoff (by omega)
  · rw [blockEndI64_past hbs (by omega) (Nat.not_lt.mp hfits), bind_none]

end Past

end Blocks

/-! ## Reads through the cache -/

section Cached

variable {st : GoosefsFileInStream} {w : MachineWorld} {store : Int → Bytes} {file : Bytes}
  {fileId : String}
  {fillMode : FillMode} {endOff : Nat} {a e offset pageSize : Nat} {s : StreamIo} {σ : Type}
  {ext : ExternalRangeReader σ} {ext' : ExternalRangeReader (Option σ)}

theorem servePage_some {p : PagePlan} (cachedBytes : Bytes) {s : σ}
    (h : ext' (some s) p.pageStart p.pageEnd =
      ((ext s p.pageStart p.pageEnd).1, some (ext s p.pageStart p.pageEnd).2)) :
    servePage ext' fileId endOff fillMode p cachedBytes (some s) =
      let out := servePage ext fileId endOff fillMode p cachedBytes s
      (out.1, some out.2.1, out.2.2) := by
  unfold servePage
  split
  · rfl
  · rw [h]
    rcases ext s p.pageStart p.pageEnd with ⟨_ | pageBytes, s'⟩
    · rfl
    · simp only
      split
      · rfl
      · split <;> split <;> rfl

theorem servePages_some (ext : ExternalRangeReader σ) : ∀ (pages : List (PagePlan × Bytes)) (s : σ),
    (∀ pc ∈ pages, ∀ s, ext' (some s) pc.1.pageStart pc.1.pageEnd =
      ((ext s pc.1.pageStart pc.1.pageEnd).1, some (ext s pc.1.pageStart pc.1.pageEnd).2)) →
    servePages ext' fileId endOff fillMode pages (some s) =
      let out := servePages ext fileId endOff fillMode pages s
      (out.1, some out.2.1, out.2.2) := by
  intro pages
  induction pages with
  | nil =>
    intro s _
    rfl
  | cons pc rest ih =>
    intro s h
    obtain ⟨p, cachedBytes⟩ := pc
    have hpage : servePage ext' fileId endOff fillMode p cachedBytes (some s) = _ :=
      servePage_some cachedBytes (h (p, cachedBytes) (mem_cons_self ..) s)
    rcases hserve : servePage ext fileId endOff fillMode p cachedBytes s with ⟨_ | chunk, s', fills⟩
    · rw [hserve] at hpage
      rw [servePages_cons_error hserve, servePages_cons_error hpage]
    · rw [hserve] at hpage
      rw [servePages_cons_ok hserve, servePages_cons_ok hpage]
      simp only
      rw [ih s' fun pc hpc => h pc (mem_cons_of_mem _ hpc)]

theorem externalI64_of_some {out : Except Error Bytes × StreamIo}
    (h : st.readExternalRangeI64 w a e s = some out) :
    st.externalI64 w (some s) a e = (out.1, some out.2) := by
  rw [externalI64, bind_some, h]

theorem externalI64_of_none (h : st.readExternalRangeI64 w a e s = none) :
    st.externalI64 w (some s) a e = (.error unwound, none) := by
  rw [externalI64, bind_some, h]

theorem readThroughCacheI64_of_pagesFit {cached : List PageReadRequest → List Bytes}
    (hend : endOff ≤ file.length) (hmax : file.length < 2 ^ 63)
    (hfit : PagesFit (max pageSize 1) offset endOff) (s : σ) :
    let pages := touchedPages (max pageSize 1) file.length offset endOff
    readThroughCacheI64 cached ext fileId pageSize file.length offset endOff fillMode s =
      some (servePages ext fileId endOff fillMode (pages.zip (answers cached fileId pages)) s) := by
  have hps : 0 < max pageSize 1 := by omega
  have hmaxmax : readThroughCacheI64 cached ext fileId (max pageSize 1) file.length offset endOff
      fillMode s =
        readThroughCacheI64 cached ext fileId pageSize file.length offset endOff fillMode s := by
    rw [readThroughCacheI64, readThroughCacheI64, Nat.max_eq_left hps]
  rw [← hmaxmax]
  exact readThroughCacheI64_of_fits hps hend hmax hfit s

variable (hbs : 0 < st.status.blockSizeBytes)
  (hw : w.Serves store file st) (hmax : file.length < 2 ^ 63)
include hbs hw hmax

theorem readAtCachedI64_of_fits (hlen : st.fileLength = file.length) {c : PageCache}
    (hle : offset ≤ endOff) (hend : endOff ≤ file.length)
    (hpages : PagesFit (max c.pageSize 1) offset endOff)
    (hblocks : ∀ p ∈ touchedPages (max c.pageSize 1) file.length offset endOff,
      PagesFit st.status.blockSizeBytes p.pageStart p.pageEnd) (io : StreamIo) :
    st.readAtCachedI64 w c offset endOff io =
      some (st.readAtCached w.toStreamWorld c offset endOff io) := by
  have hps : 0 < max c.pageSize 1 := by omega
  obtain ⟨_, hin⟩ := pagePlans_tiles hps hend (endOff - offset) offset hle (Nat.le_refl _)
  have hplans := pagePlans_eq_touchedPages hps hend (endOff - offset) offset (Nat.le_refl _)
  have hread : readThroughCache (w.cache io.batches)
      (fun io a e => st.readExternalRange w.toStreamWorld a e io) c.fileId c.pageSize file.length
      offset endOff c.fillMode io = servePages
        (fun io a e => st.readExternalRange w.toStreamWorld a e io) c.fileId endOff c.fillMode
        ((touchedPages (max c.pageSize 1) file.length offset endOff).zip (answers (w.cache io.batches)
          c.fileId (touchedPages (max c.pageSize 1) file.length offset endOff))) io := by
    rw [readThroughCache, hplans]
    rfl
  rw [hplans] at hin
  have hext : ∀ pc ∈ (touchedPages (max c.pageSize 1) file.length offset endOff).zip
      (answers (w.cache io.batches) c.fileId
        (touchedPages (max c.pageSize 1) file.length offset endOff)), ∀ s,
      st.externalI64 w (some s) pc.1.pageStart pc.1.pageEnd =
        ((st.readExternalRange w.toStreamWorld pc.1.pageStart pc.1.pageEnd s).1,
          some (st.readExternalRange w.toStreamWorld pc.1.pageStart pc.1.pageEnd s).2) := by
    intro pc hpc s
    have hp := (of_mem_zip hpc).1
    obtain ⟨_, hpend, hwant, hinside⟩ := hin _ hp
    exact externalI64_of_some (readExternalRangeI64_of_fits hbs hw (by omega) (by omega)
      (hblocks _ hp) s)
  rw [readAtCachedI64, readAtCached, hlen, readThroughCacheI64_of_pagesFit hend hmax hpages, hread,
    servePages_some (fun io a e => st.readExternalRange w.toStreamWorld a e io) _ io hext]

theorem servePages_past (hrel : w.Reliable) (hres : st.Resolved)
    (hlen : st.fileLength = file.length) : ∀ (pages : List (PagePlan × Bytes)) (io : StreamIo),
      (∀ pc ∈ pages, pc.1.Inside pageSize file.length ∧ pc.2.length ≠ pc.1.want) →
      (∃ pc ∈ pages, ¬ PagesFit st.status.blockSizeBytes pc.1.pageStart pc.1.pageEnd) →
      (servePages (st.externalI64 w) fileId endOff fillMode pages (some io)).2.1 = none := by
  intro pages
  induction pages with
  | nil =>
    rintro io _ ⟨pc, hpc, _⟩
    cases hpc
  | cons pc rest ih =>
    intro io hall hpast
    obtain ⟨p, cachedBytes⟩ := pc
    obtain ⟨hp, hmiss⟩ : p.Inside pageSize file.length ∧ cachedBytes.length ≠ p.want :=
      hall (p, cachedBytes) (mem_cons_self ..)
    have hend := hp.2.1
    by_cases hfit : PagesFit st.status.blockSizeBytes p.pageStart p.pageEnd
    · -- this page arrives whole, so the page that panics comes later
      have hlater : ∃ pc ∈ rest, ¬ PagesFit st.status.blockSizeBytes pc.1.pageStart pc.1.pageEnd := by
        obtain ⟨pc, hpc, hbad⟩ := hpast
        rcases mem_cons.mp hpc with rfl | hpc
        · exact absurd hfit hbad
        · exact ⟨pc, hpc, hbad⟩
      have hlt : p.pageStart < p.pageEnd := by
        obtain ⟨_, _, hwant, hinside⟩ := hp
        omega
      have hext := externalI64_of_some
        (readExternalRangeI64_of_fits hbs hw hlt (by omega) hfit io)
      have hread := readExternalRange_reliable hbs hw hrel hres hlen hlt hend io
      have hok : (servePage (st.externalI64 w) fileId endOff fillMode p cachedBytes (some io)).1 =
          .ok (slice file p.seg.1 p.seg.2) :=
        servePage_of_page hp hmiss (by rw [hext]; exact hread)
      have hstate : (servePage (st.externalI64 w) fileId endOff fillMode p cachedBytes
          (some io)).2.1 = _ := servePage_state ..
      rw [if_neg hmiss, hext] at hstate
      rcases hserve : servePage (st.externalI64 w) fileId endOff fillMode p cachedBytes (some io)
        with ⟨res, s', fills⟩
      rw [hserve] at hok hstate
      simp only at hok hstate
      subst hok hstate
      rw [servePages_cons_ok hserve]
      exact ih _ (fun pc hpc => hall pc (mem_cons_of_mem _ hpc)) hlater
    · simp only [PagesFit, not_forall, Nat.not_lt] at hfit
      obtain ⟨x, hx, hxlt, hbad⟩ := hfit
      have hext := externalI64_of_none (readExternalRangeI64_past hbs hw hrel hres hlen hend hmax
        hxlt hbad hx io)
      have hrefused : servePage (st.externalI64 w) fileId endOff fillMode p cachedBytes (some io) =
          (.error unwound, (st.externalI64 w (some io) p.pageStart p.pageEnd).2, []) :=
        servePage_refused hmiss (by rw [hext])
      rw [servePages_cons_error hrefused, hext]

end Cached

/-! ## Which arguments are served -/

/-- `seek_from` goes to its target, clamped to the file. -/
def SeekExact (st : GoosefsFileInStream) (arg : SeekFrom) : Prop :=
  ∃ st', st.seekFrom arg = some (.ok (max 0 (min (st.exactTarget arg) st.fileLength)).toNat, st') ∧
    st'.userPos = (max 0 (min (st.exactTarget arg) st.fileLength)).toNat

/-- `read_at` returns its range of the file, with all workers that deliver what
they are asked for. -/
def ReadExact (store : Int → Bytes) (file : Bytes) (st : GoosefsFileInStream) (offset : Nat)
    (n : UInt64) : Prop :=
  ∀ w : MachineWorld, w.Exact store file st → w.Reliable → ∀ io,
    ∃ io', st.readAtI64 w offset n io = some (.ok (slice file offset n.toNat), io')

section Exact

variable {st : GoosefsFileInStream} {store : Int → Bytes} {file : Bytes} {offset : Nat} {n : UInt64}
  {arg : SeekFrom} {w : MachineWorld} {c : PageCache} {endOff : Int}

theorem readAtI64_of_fits (h : Tracks file st) (hmax : file.length < 2 ^ 63)
    (hw : w.Exact store file st) (hfits : st.ReadFits offset n.toNat)
    (io : StreamIo) :
    st.readAtI64 w offset n io = some (st.readAt w.toStreamWorld offset n.toNat io) := by
  have hlen := h.length
  have hzero : n = 0 ↔ n.toNat = 0 := by
    rw [← UInt64.toNat_inj]
    rfl
  rw [readAtI64, readAt]
  simp only [hzero]
  split
  · rfl
  · rename_i hsome
    rcases hfits with hpast | hnone | ⟨hsum, hfits⟩
    · exact absurd (.inl hpast) hsome
    · exact absurd (.inr hnone) hsome
    · have hend : min ((offset + n.toNat : Nat) : Int) st.fileLength =
          (min (offset + n.toNat) st.fileLength : Nat) := by omega
      rw [asI64_of_lt (by omega), ← Int.natCast_add, checkedI64_of_lt, bind_some]
      simp only [hend]
      cases hcache : st.cache with
      | none =>
        rw [hcache] at hfits
        exact readExternalRangeI64_of_fits h.blockSize hw.toServes (by omega) (by omega) hfits io
      | some c =>
        rw [hcache] at hfits
        obtain ⟨hpages, hblocks⟩ := hfits
        rw [hlen] at hpages hblocks ⊢
        exact readAtCachedI64_of_fits h.blockSize hw.toServes hmax hlen (by omega) (by omega) hpages
          hblocks io

theorem readExact_of_fits (h : Tracks file st) (hres : st.Resolved) (hmax : file.length < 2 ^ 63)
    (hfits : st.ReadFits offset n.toNat) : ReadExact store file st offset n := by
  intro w hw hrel io
  obtain ⟨hok, hsome⟩ := readAt_spec h hw offset n.toNat io
  obtain ⟨b, hb⟩ := hsome hrel hres
  refine ⟨(st.readAt w.toStreamWorld offset n.toNat io).2, ?_⟩
  rw [readAtI64_of_fits h hmax hw hfits, ← hok b hb, ← hb]

/-! Arguments that do not fit fail already with workers that send one byte at a
time and a cache that has nothing. -/

def byteMachine (store : Int → Bytes) : MachineWorld :=
  { byteWorld store with backward := fun _ => .ok () }

theorem byteWorld_reliable (store : Int → Bytes) : (byteWorld store).Reliable :=
  fun _ => ⟨rfl, fun _ => ⟨_, rfl⟩, fun _ => ⟨_, rfl⟩⟩

theorem readExternalRangeI64_backward (hbs : 0 < st.status.blockSizeBytes) (hres : st.Resolved)
    (hoff : offset < st.fileLength) (hback : ∀ n, w.backward n = .ok ()) (hend : endOff < offset)
    (hmin : -2 ^ 63 ≤ endOff - offset) (hmax : offset < 2 ^ 63) (io : StreamIo) :
    st.readExternalRangeI64 w offset endOff io = none := by
  rw [readExternalRangeI64]
  by_cases hfits : (offset / st.status.blockSizeBytes + 1) * st.status.blockSizeBytes < 2 ^ 63
  · obtain ⟨id, hid⟩ := hres offset hoff
    have hblock := lt_blockEnd hbs offset
    rw [blockEndI64_of_fits hbs hfits, bind_some, if_pos (by omega), hid]
    simp only
    rw [checkedI64_of_lt hmin (by omega), bind_some, positionedReadI64,
      if_neg (by omega), hback]
  · rw [blockEndI64_past hbs hmax (Nat.not_lt.mp hfits), bind_none]

theorem readAtCachedI64_backward (hend : endOff < offset) (io : StreamIo) :
    ∃ io', st.readAtCachedI64 w c offset endOff io = some (.ok [], io') := by
  rw [readAtCachedI64, readThroughCacheI64, planPages, if_neg (by omega), map_some]
  exact ⟨_, rfl⟩

theorem readAtCachedI64_past (h : Tracks file st) (hblocks : st.Holds store file)
    (hres : st.Resolved) (hmax : file.length < 2 ^ 63)
    {endOff : Nat} (hlt : offset < endOff) (hend : endOff ≤ file.length)
    (hpast : ¬ (PagesFit (max c.pageSize 1) offset endOff ∧
      ∀ p ∈ touchedPages (max c.pageSize 1) file.length offset endOff,
        PagesFit st.status.blockSizeBytes p.pageStart p.pageEnd)) (io : StreamIo) :
    st.readAtCachedI64 (byteMachine store) c offset endOff io = none := by
  have hps : 0 < max c.pageSize 1 := by omega
  rw [readAtCachedI64, h.length]
  by_cases hfit : PagesFit (max c.pageSize 1) offset endOff
  · obtain ⟨p, hp, hbad⟩ : ∃ p ∈ touchedPages (max c.pageSize 1) file.length offset endOff,
        ¬ PagesFit st.status.blockSizeBytes p.pageStart p.pageEnd := by
      by_contra hall
      refine hpast ⟨hfit, fun p hp => ?_⟩
      by_contra hbad
      exact hall ⟨p, hp, hbad⟩
    obtain ⟨_, hin⟩ := pagePlans_tiles hps hend (endOff - offset) offset (Nat.le_of_lt hlt)
      (Nat.le_refl _)
    rw [pagePlans_eq_touchedPages hps hend _ _ (Nat.le_refl _)] at hin
    rw [readThroughCacheI64_of_pagesFit hend hmax hfit]
    generalize touchedPages (max c.pageSize 1) file.length offset endOff = pages at hp hin ⊢
    have hne : 0 ≠ pages.length := Nat.ne_of_lt (length_pos_of_mem hp)
    have hanswers : answers ((byteMachine store).cache io.batches) c.fileId
        pages = pages.map fun _ => [] := if_neg hne
    have hzip : pages.zip (pages.map fun _ => ([] : Bytes)) = pages.map fun p => (p, []) :=
      map_prod_left_eq_zip.symm
    have hstate : (servePages (st.externalI64 (byteMachine store)) c.fileId
        endOff c.fillMode (pages.map fun p => (p, [])) (some io)).2.1 = none := by
      have hmissed : ∀ pc ∈ pages.map fun p => (p, ([] : Bytes)),
          pc.1.Inside (max c.pageSize 1) file.length ∧ pc.2.length ≠ pc.1.want := by
        intro pc hpc
        obtain ⟨q, hq, rfl⟩ := mem_map.mp hpc
        exact ⟨hin q hq, Nat.ne_of_lt (hin q hq).2.2.1⟩
      exact servePages_past h.blockSize (byteWorld_exact hblocks).toServes hmax
        (byteWorld_reliable store) hres h.length _ io hmissed ⟨(p, []), mem_map_of_mem hp, hbad⟩
    rw [hanswers, hzip]
    rcases hserve : servePages (st.externalI64 (byteMachine store)) c.fileId
      endOff c.fillMode (pages.map fun p => (p, [])) (some io) with ⟨res, s', fills⟩
    rw [hserve] at hstate
    simp only at hstate
    subst hstate
    rfl
  · simp only [PagesFit, not_forall, Nat.not_lt] at hfit
    obtain ⟨x, hx, hxlt, hbad⟩ := hfit
    rw [readThroughCacheI64, planPages_past hps hend hmax hxlt hbad _ _ hx (by omega), map_none]

theorem not_guarded (hoff : offset < st.fileLength) (hn : 0 < n.toNat) :
    ¬ (st.fileLength ≤ offset ∨ n = 0) := by
  rintro (hle | rfl)
  · omega
  · exact Nat.lt_irrefl 0 hn

section

variable (h : Tracks file st) (hblocks : st.Holds store file) (hres : st.Resolved)
  (hmax : file.length < 2 ^ 63)
include h hblocks hres hmax

theorem readAtI64_past (hsmall : n.toNat < 2 ^ 63) (hpast : ¬ st.ReadFits offset n.toNat)
    (io : StreamIo) :
    st.readAtI64 (byteMachine store) offset n io = none := by
  have hlen := h.length
  simp only [ReadFits, not_or] at hpast
  obtain ⟨hoff, hn0, hpast⟩ := hpast
  have hguard : ¬ (st.fileLength ≤ offset ∨ n = 0) := not_guarded (by omega) (by omega)
  rw [readAtI64, if_neg hguard, asI64_of_lt hsmall]
  rcases Nat.lt_or_ge (offset + n.toNat) (2 ^ 63) with hsum | hsum
  · have hend : min ((offset + n.toNat : Nat) : Int) st.fileLength =
        (min (offset + n.toNat) st.fileLength : Nat) := by omega
    rw [← Int.natCast_add, checkedI64_of_lt, bind_some]
    simp only [hend]
    cases hcache : st.cache with
    | none =>
      simp only [hcache, hsum, true_and] at hpast ⊢
      simp only [PagesFit, not_forall, Nat.not_lt] at hpast
      obtain ⟨x, hx, hxlt, hbad⟩ := hpast
      rw [readExternalRangeI64_past h.blockSize (byteWorld_exact hblocks).toServes
        (byteWorld_reliable store) hres hlen (by omega) hmax hxlt hbad hx]
    | some c =>
      simp only [hcache, hsum, true_and, hlen] at hpast ⊢
      exact readAtCachedI64_past h hblocks hres hmax (by omega) (by omega) hpast io
  · rw [checkedI64_of_ge (by omega), bind_none]

omit hblocks in
/-- A number of bytes that is negative as an `i64` gives no bytes with a cache, and a panic
without one. -/
theorem readAtI64_backward (hoff : offset < st.fileLength) (hbig : 2 ^ 63 ≤ n.toNat)
    {io io' : StreamIo} {bytes : Bytes}
    (hrun : st.readAtI64 (byteMachine store) offset n io =
      some (.ok bytes, io')) : bytes = [] := by
  have hlen := h.length
  have hn := n.toNat_lt
  rw [readAtI64, if_neg (not_guarded hoff (by omega)), asI64_of_ge hbig hn,
    checkedI64_of_lt, bind_some] at hrun
  obtain ⟨endOff, hendOff⟩ :
      ∃ endOff, endOff = min ((offset : Int) + (n.toNat - 2 ^ 64)) (st.fileLength : Int) := ⟨_, rfl⟩
  rw [← hendOff] at hrun
  have hend : endOff < offset := by omega
  cases hcache : st.cache with
  | none =>
    simp only [hcache] at hrun
    rw [readExternalRangeI64_backward h.blockSize hres hoff (w := byteMachine store)
      (fun _ => rfl) hend (by omega) (by omega)] at hrun
    cases hrun
  | some c =>
    simp only [hcache] at hrun
    obtain ⟨io'', hempty⟩ : ∃ io'', st.readAtCachedI64 (byteMachine store)
        c offset endOff io = some (.ok [], io'') := readAtCachedI64_backward hend _
    rw [hempty] at hrun
    exact (Except.ok.inj (Prod.ext_iff.mp (some.inj hrun)).1).symm

theorem fits_of_readExact (hexact : ReadExact store file st offset n) : st.ReadFits offset n.toNat := by
  by_contra hfits
  obtain ⟨io', hrun⟩ := hexact (byteMachine store)
    (byteWorld_exact hblocks) (byteWorld_reliable store) ⟨0, 0, []⟩
  rcases Nat.lt_or_ge n.toNat (2 ^ 63) with hsmall | hbig
  · rw [readAtI64_past h hblocks hres hmax hsmall hfits] at hrun
    cases hrun
  · have hlen := h.length
    have hoff : offset < st.fileLength := Nat.lt_of_not_le fun hle => hfits (.inl hle)
    have hnonempty : slice file offset n.toNat ≠ [] := by
      refine ne_nil_of_length_pos ?_
      rw [slice_length]
      omega
    exact hnonempty (readAtI64_backward h hres hmax hoff hbig hrun)

end

theorem seek_clamps (h : Tracks file st) (t : Int) :
    ∃ st', st.seek t = (.ok (max 0 (min t st.fileLength)).toNat, st') ∧
      st'.userPos = (max 0 (min t st.fileLength)).toNat := by
  have hlen := h.length
  have hclamp : (max 0 (min ((max 0 (min t st.fileLength)).toNat : Int) st.fileLength)).toNat =
      (max 0 (min t st.fileLength)).toNat := by omega
  obtain ⟨st', hseek, _, huser, _⟩ :=
    seek_tracks h (t := (max 0 (min t st.fileLength)).toNat) (by omega)
  have hsame : st.seek t = st.seek ((max 0 (min t st.fileLength)).toNat : Nat) := by
    unfold seek
    rw [hclamp]
  exact ⟨st', hsame.trans hseek, huser⟩

theorem seekExact_of_target (h : Tracks file st)
    (htarget : st.seekTarget arg = some (st.exactTarget arg)) : st.SeekExact arg := by
  obtain ⟨st', hseek, huser⟩ := seek_clamps h (st.exactTarget arg)
  exact ⟨st', by rw [seekFrom, htarget, map_some, hseek], huser⟩

theorem not_seekExact_of_none (htarget : st.seekTarget arg = none) : ¬ st.SeekExact arg := by
  rintro ⟨st', hseek, _⟩
  rw [seekFrom, htarget] at hseek
  cases hseek

theorem seekExact_iff (h : Tracks file st) (hmax : file.length < 2 ^ 63) (harg : arg.InRange) :
    st.SeekExact arg ↔ st.SeekFits arg := by
  have hlen := h.length
  have hpos : st.userPos ≤ file.length := Nat.le_trans (Nat.sub_le ..) h.posLe
  -- a sum with a position of the file can only overflow at the top
  have hsum : ∀ (p : Nat) (n : Int), p ≤ file.length → -2 ^ 63 ≤ n →
      checkedI64 (p + n) = if (p : Int) + n < 2 ^ 63 then some (p + n) else none := by
    intro p n hp hmin
    split
    · exact checkedI64_of_lt (by omega) ‹_›
    · exact checkedI64_of_ge (by omega)
  have hchecked : ∀ arg, st.seekTarget arg =
      (if st.exactTarget arg < 2 ^ 63 then some (st.exactTarget arg) else none) →
      (st.SeekExact arg ↔ st.exactTarget arg < 2 ^ 63) := by
    intro arg htarget
    by_cases hfits : st.exactTarget arg < 2 ^ 63
    · rw [if_pos hfits] at htarget
      exact iff_of_true (seekExact_of_target h htarget) hfits
    · rw [if_neg hfits] at htarget
      exact iff_of_false (not_seekExact_of_none htarget) hfits
  cases arg with
  | fromEnd n =>
    rw [hchecked (.fromEnd n) (hsum _ n (Nat.le_of_eq hlen) harg.1), SeekFits]
    simp
  | current n =>
    rw [hchecked (.current n) (hsum _ n hpos harg.1), SeekFits]
    simp
  | start n =>
    have hn : n < 2 ^ 64 := harg
    have hfits : st.SeekFits (.start n) ↔ n < 2 ^ 63 ∨ st.fileLength = 0 := by
      have hexact : st.exactTarget (.start n) = n := rfl
      simp only [SeekFits, hexact, SeekFrom.start.injEq, exists_eq', true_and]
      omega
    rw [hfits]
    rcases Nat.lt_or_ge n (2 ^ 63) with hsmall | hbig
    · exact iff_of_true (seekExact_of_target h (congrArg some (asI64_of_lt hsmall))) (.inl hsmall)
    · -- the target is negative and the seek goes to the beginning
      obtain ⟨st', hseek, huser⟩ := seek_clamps h (asI64 n)
      have htarget : st.seekFrom (.start n) = some (st.seek (asI64 n)) := rfl
      have hzero : (max 0 (min (asI64 n) st.fileLength)).toNat = 0 := by
        rw [asI64_of_ge hbig hn]
        omega
      have hexact : (max 0 (min (st.exactTarget (.start n)) st.fileLength)).toNat =
          st.fileLength := by
        show (max 0 (min (n : Int) st.fileLength)).toNat = st.fileLength
        omega
      rw [SeekExact, htarget, hseek, hzero, hexact]
      constructor
      · rintro ⟨_, hout, _⟩
        exact .inr (Except.ok.inj (Prod.ext_iff.mp (some.inj hout)).1).symm
      · rintro (hlt | hnil)
        · omega
        · rw [hnil]
          exact ⟨st', rfl, huser.trans hzero⟩

/-- For every `u64`, `i64` and `usize`: `seek_from` goes to its target, clamped to
the file, and `read_at` returns its range of the file, exactly if the numbers on
the way fit into an `i64`. -/
theorem extreme_arguments_iff (h : Tracks file st) (hblocks : st.Holds store file)
    (hres : st.Resolved) (hmax : file.length < 2 ^ 63) :
    (∀ arg, arg.InRange → (st.SeekExact arg ↔ st.SeekFits arg)) ∧
      ∀ (offset : Nat) (n : UInt64), offset < 2 ^ 63 →
        (ReadExact store file st offset n ↔ st.ReadFits offset n.toNat) :=
  ⟨fun _ harg => seekExact_iff h hmax harg, fun _ _ _ =>
    ⟨fits_of_readExact h hblocks hres hmax, readExact_of_fits h hres hmax⟩⟩

end Exact

/-! Five bytes in three blocks. -/

def smallStream (cache : Option PageCache) : GoosefsFileInStream :=
  openStream smallStatus cache false ⟨1, 1⟩ 4

theorem smallStream_tracks (cache : Option PageCache) :
    Tracks [1, 2, 3, 4, 5] (smallStream cache) :=
  tracks_idle rfl Nat.two_pos (Nat.zero_le _) rfl rfl rfl

theorem smallStream_resolved (cache : Option PageCache) : (smallStream cache).Resolved := by
  intro x hx
  have hlt : x < 5 := hx
  have hindex : (smallStream cache).blockIndexForPos x = x / 2 := blockIndexForPos_eq Nat.two_pos x
  have hids : ∀ i, i < 3 → ∃ id, (smallStream cache).blockIdAt i = .ok id := by
    intro i hi
    match i with
    | 0 => exact ⟨7, rfl⟩
    | 1 => exact ⟨8, rfl⟩
    | 2 => exact ⟨9, rfl⟩
  rw [hindex]
  exact hids _ (by omega)

theorem extreme_arguments_iff_small : (smallStream none).SeekExact (.start 9) ∧
      ReadExact smallStore [1, 2, 3, 4, 5] (smallStream none) 1 9 := by
  obtain ⟨hseek, hread⟩ := extreme_arguments_iff (smallStream_tracks none)
    (smallStatus_holds none false ⟨1, 1⟩ 4) (smallStream_resolved none) (by simp)
  have hrange : (SeekFrom.start 9).InRange := by simp [SeekFrom.InRange]
  refine ⟨(hseek (.start 9) hrange).mpr (Or.inl ?_), (hread 1 9 (by simp)).mpr
    (Or.inr (Or.inr ⟨?_, fun x _ hx => ?_⟩))⟩
  · show ((9 : Nat) : Int) < 2 ^ 63
    omega
  · show 1 + 9 < 2 ^ 63
    omega
  · have hlt : x < 5 := hx
    show (x / 2 + 1) * 2 < 2 ^ 63
    omega

/-- `SeekFrom::Start(1 << 63)` goes to the beginning of the file,
`SeekFrom::End(i64::MAX)` panics, and a `read_at` of `usize::MAX` bytes panics
without a cache and returns nothing with one. -/
theorem extreme_arguments_fail :
    ((smallStream none).seekFrom (.start 9223372036854775808)).map Prod.fst = some (.ok 0) ∧
      (smallStream none).seekFrom (.fromEnd 9223372036854775807) = none ∧
      (smallStream none).readAtI64 (byteMachine smallStore) 0 18446744073709551615
        ⟨0, 0, []⟩ = none ∧
      ((smallStream (some ⟨"f", 4, .sync⟩)).readAtI64 (byteMachine smallStore) 0
        18446744073709551615 ⟨0, 0, []⟩).map Prod.fst = some (.ok []) :=
  ⟨by decide +kernel, Option.isNone_iff_eq_none.mp (by decide +kernel),
    Option.isNone_iff_eq_none.mp (by decide +kernel), by decide +kernel⟩

end GoosefsFileInStream

end GooseFS
