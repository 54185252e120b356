import GooseFS.Lib.Checked
import GooseFS.Block.FileInfo
import GooseFS.Cache.CachingReader

/-!
# Range reads through the page cache

What `read_through_cache` asks of the external source, what it writes back and
what it returns, for every pattern of hits, short hits and misses.

The planning loop computes page boundaries as `u64` and casts them to `i64`.
`planPages` is that loop with overflow checks, where an overflow is a panic
(`none`).  It plans the touched pages as long as each of them ends at a number
that an `i64` carries, and panics otherwise: a page that ends past `i64::MAX`
casts to a negative end, which either overflows in the same turn or sends the
position below zero and overflows in the next.  So the read behaves as specified
exactly on the ranges with `PagesFit` (`readThroughCache_serves_iff`).
-/

namespace GooseFS

open Lib List

structure RawPage where
  pageIndex : Nat
  pageStart : Int
  pageEnd : Int
  inPageOff : Nat
  want : Nat
  deriving DecidableEq, Repr

def RawPage.plan (p : RawPage) : PagePlan :=
  ⟨p.pageIndex, p.pageStart.toNat, p.pageEnd.toNat, p.inPageOff, p.want⟩

def PagePlan.raw (p : PagePlan) : RawPage :=
  ⟨p.pageIndex, p.pageStart, p.pageEnd, p.inPageOff, p.want⟩

/-- One turn of the loop: the page at `cur` and the next position. -/
def planPage (pageSize : Nat) (fileLength endOff cur : Int) : Option (RawPage × Int) :=
  let pageIndex := asU64 cur / pageSize
  (checkedU64 (pageIndex * pageSize)).bind fun startBits =>
  (checkedU64 (pageIndex + 1)).bind fun nextIndex =>
  (checkedU64 (nextIndex * pageSize)).bind fun endBits =>
  let pageStart := asI64 startBits
  let pageEnd := min (asI64 endBits) fileLength
  (checkedI64 (cur - pageStart)).bind fun inPageOff =>
  (checkedI64 (min endOff pageEnd - cur)).bind fun want =>
  (checkedI64 (cur + asI64 (asU64 want))).map fun next =>
    (⟨pageIndex, pageStart, pageEnd, asU64 inPageOff, asU64 want⟩, next)

/-- The `while cur < end` loop.  A turn moves forward or makes the next one panic, so the
length of the range and two turns are enough fuel. -/
def planPages (pageSize : Nat) (fileLength endOff : Int) : Nat → Int → Option (List RawPage)
  | 0, _ => some []
  | fuel + 1, cur =>
    if cur < endOff then
      match planPage pageSize fileLength endOff cur with
      | none => none
      | some (page, next) => (planPages pageSize fileLength endOff fuel next).map (page :: ·)
    else some []

section Read

variable {σ : Type}

/-- The replies of the cache.  A wrong number of replies counts as all misses. -/
def answers (cached : List PageReadRequest → List Bytes) (fileId : String)
    (pages : List PagePlan) : List Bytes :=
  let replies := cached (pages.map (PagePlan.request fileId))
  if replies.length = pages.length then replies else pages.map (fun _ => [])

/-- `read_through_cache`, built with overflow checks. -/
def readThroughCacheI64 (cached : List PageReadRequest → List Bytes)
    (ext : ExternalRangeReader σ) (fileId : String) (pageSize : Nat)
    (fileLength offset endOff : Int) (fillMode : FillMode) (s : σ) :
    Option (Except Error Bytes × σ × Fills) :=
  (planPages (max pageSize 1) fileLength endOff ((endOff - offset).toNat + 2) offset).map fun raw =>
    let pages := raw.map RawPage.plan
    servePages ext fileId endOff.toNat fillMode (pages.zip (answers cached fileId pages)) s

end Read

/-! ## The pages of a range -/

/-- The page `i`, clamped to the file, and the part of it that the range wants. -/
def pagePart (pageSize fileLength offset endOff i : Nat) : PagePlan where
  pageIndex := i
  pageStart := i * pageSize
  pageEnd := min ((i + 1) * pageSize) fileLength
  inPageOff := max offset (i * pageSize) - i * pageSize
  want := min endOff (min ((i + 1) * pageSize) fileLength) - max offset (i * pageSize)

/-- The pages from that of the first byte of the range to that of its last. -/
def touchedPages (pageSize fileLength offset endOff : Nat) : List PagePlan :=
  (range' (offset / pageSize)
    (if offset < endOff then (endOff - 1) / pageSize + 1 - offset / pageSize else 0)).map
      (pagePart pageSize fileLength offset endOff)

/-- Every page that the range touches ends at a number that an `i64` carries. -/
def PagesFit (pageSize offset endOff : Nat) : Prop :=
  ∀ x, offset ≤ x → x < endOff → (x / pageSize + 1) * pageSize < 2 ^ 63

section Planner

variable {pageSize fileLength endOff cur : Nat} {n : Int} {x : Nat}

theorem page_bounds (hps : 0 < pageSize) (x : Nat) :
    x / pageSize * pageSize ≤ x ∧ x < (x / pageSize + 1) * pageSize := by
  refine ⟨Nat.div_mul_le_self x pageSize, ?_⟩
  rw [Nat.add_one_mul]
  exact Nat.lt_div_mul_add hps

theorem div_eq_of_page {i : Nat} (hstart : i * pageSize ≤ x) (hstop : x < (i + 1) * pageSize) :
    x / pageSize = i :=
  Nat.div_eq_of_lt_le hstart hstop

theorem pagePlans_eq_touchedPages (hps : 0 < pageSize) (hend : endOff ≤ fileLength) :
    ∀ (fuel cur : Nat), endOff - cur ≤ fuel →
      pagePlans pageSize fileLength endOff fuel cur = touchedPages pageSize fileLength cur endOff := by
  intro fuel
  induction fuel with
  | zero =>
    intro cur hfuel
    rw [touchedPages, if_neg (by omega)]
    rfl
  | succ fuel ih =>
    intro cur hfuel
    by_cases hlt : cur < endOff
    · obtain ⟨hstart, hstop⟩ := page_bounds hps cur
      have hhead : pagePart pageSize fileLength cur endOff (cur / pageSize) =
          ⟨cur / pageSize, cur / pageSize * pageSize, min ((cur / pageSize + 1) * pageSize) fileLength,
            cur - cur / pageSize * pageSize,
            min endOff (min ((cur / pageSize + 1) * pageSize) fileLength) - cur⟩ := by
        rw [pagePart, Nat.max_eq_left hstart]
      rw [pagePlans, if_pos hlt, touchedPages, if_pos hlt]
      simp only
      rw [ih _ (by omega), ← hhead]
      by_cases hlast : endOff ≤ (cur / pageSize + 1) * pageSize
      · -- the range ends on this page
        have hnext : cur + (min endOff (min ((cur / pageSize + 1) * pageSize) fileLength) - cur) =
            endOff := by omega
        have hcount : (endOff - 1) / pageSize = cur / pageSize :=
          div_eq_of_page (by omega) (by omega)
        rw [hnext, touchedPages, if_neg (Nat.lt_irrefl _), hcount, Nat.add_sub_cancel_left]
        rfl
      · have hnext : cur + (min endOff (min ((cur / pageSize + 1) * pageSize) fileLength) - cur) =
            (cur / pageSize + 1) * pageSize := by omega
        have hindex : (cur / pageSize + 1) * pageSize / pageSize = cur / pageSize + 1 :=
          Nat.mul_div_cancel _ hps
        have hle : cur / pageSize + 1 ≤ (endOff - 1) / pageSize :=
          (Nat.le_div_iff_mul_le hps).mpr (by omega)
        have hcount : (endOff - 1) / pageSize + 1 - cur / pageSize =
            (endOff - 1) / pageSize + 1 - (cur / pageSize + 1) + 1 := by omega
        rw [hnext, touchedPages, hindex, if_pos (by omega), hcount, range'_succ, map_cons]
        refine congrArg _ (map_congr_left fun i hi => ?_)
        -- a later page is wanted from its start
        have hi : (cur / pageSize + 1) * pageSize ≤ i * pageSize :=
          Nat.mul_le_mul_right _ (mem_range'_1.mp hi).1
        rw [pagePart, pagePart, Nat.max_eq_right hi, Nat.max_eq_right (by omega)]
    · rw [pagePlans, if_neg hlt, touchedPages, if_neg hlt]
      rfl

theorem asU64_natCast {n : Nat} (h : n < 2 ^ 64) : asU64 n = n := by
  have hn := asU64_of_nonneg (Int.natCast_nonneg n) (by exact_mod_cast h)
  omega

theorem asU64_of_neg (hmin : -2 ^ 64 ≤ n) (hneg : n < 0) : (asU64 n : Int) = n + 2 ^ 64 := by
  rw [asU64, Int.toNat_of_nonneg (Int.emod_nonneg _ (by decide)), ← Int.add_emod_right,
    Int.emod_eq_of_lt (by omega) (by omega)]

theorem asI64_asU64 (hmin : -2 ^ 63 ≤ n) (hneg : n < 0) : asI64 (asU64 n) = n := by
  have hbits := asU64_of_neg (n := n) (by omega) hneg
  rw [asI64_of_ge (by omega) (by omega), hbits, Int.add_sub_cancel]

variable (hps : 0 < pageSize)
include hps

theorem planPage_of_fits (hlt : cur < endOff) (hend : endOff ≤ fileLength)
    (hlen : fileLength < 2 ^ 63) (hfits : (cur / pageSize + 1) * pageSize < 2 ^ 63) :
    let page := pagePart pageSize fileLength cur endOff (cur / pageSize)
    planPage pageSize fileLength endOff cur = some (page.raw, ((cur + page.want : Nat) : Int)) := by
  obtain ⟨hstart, hstop⟩ := page_bounds hps cur
  have hindex : cur / pageSize + 1 ≤ (cur / pageSize + 1) * pageSize :=
    Nat.le_mul_of_pos_right _ hps
  have hpageEnd : min ((((cur / pageSize + 1) * pageSize : Nat) : Int)) fileLength =
      (min ((cur / pageSize + 1) * pageSize) fileLength : Nat) := by omega
  have hoff : (cur : Int) - (cur / pageSize * pageSize : Nat) =
      (cur - cur / pageSize * pageSize : Nat) := by omega
  have hwant : min (endOff : Int) (min ((cur / pageSize + 1) * pageSize) fileLength : Nat) - cur =
      (min endOff (min ((cur / pageSize + 1) * pageSize) fileLength) - cur : Nat) := by omega
  have hle : min endOff (min ((cur / pageSize + 1) * pageSize) fileLength) - cur < 2 ^ 63 ∧
      cur + (min endOff (min ((cur / pageSize + 1) * pageSize) fileLength) - cur) < 2 ^ 63 := by
    omega
  simp only [pagePart, PagePlan.raw, Nat.max_eq_left hstart]
  rw [planPage, asU64_natCast (by omega), checkedU64_of_lt (by omega), Option.bind_some,
    checkedU64_of_lt (by omega), Option.bind_some, checkedU64_of_lt (by omega), Option.bind_some,
    asI64_of_lt (by omega), asI64_of_lt hfits, hpageEnd]
  dsimp only
  rw [hoff, hwant, checkedI64_of_lt, Option.bind_some,
    checkedI64_of_lt, Option.bind_some, asU64_natCast (by omega),
    asU64_natCast (by omega), asI64_of_lt hle.1, ← Int.natCast_add,
    checkedI64_of_lt, Option.map_some]

/-- A turn on a page whose end does not fit panics, or leaves a position from
which the next turn panics. -/
theorem planPage_past (hlt : cur < endOff) (hend : endOff ≤ fileLength) (hlen : fileLength < 2 ^ 63)
    (hpast : 2 ^ 63 ≤ (cur / pageSize + 1) * pageSize) :
    planPage pageSize fileLength endOff cur = none ∨
      ∃ page next, planPage pageSize fileLength endOff cur = some (page, next) ∧
        next < endOff ∧ planPage pageSize fileLength endOff next = none := by
  obtain ⟨hstart, hstop⟩ := page_bounds hps cur
  have hindex : cur / pageSize ≤ cur / pageSize * pageSize := Nat.le_mul_of_pos_right _ hps
  have hadd : (cur / pageSize + 1) * pageSize = cur / pageSize * pageSize + pageSize :=
    Nat.add_one_mul ..
  have hdiv : (cur / pageSize + 1) * pageSize / pageSize = cur / pageSize + 1 :=
    Nat.mul_div_cancel _ hps
  have hnextEnd : (cur / pageSize + 1 + 1) * pageSize = (cur / pageSize + 1) * pageSize + pageSize :=
    Nat.add_one_mul ..
  rw [planPage, asU64_natCast (by omega), checkedU64_of_lt (by omega), Option.bind_some,
    checkedU64_of_lt (by omega), Option.bind_some]
  generalize hstopEq : (cur / pageSize + 1) * pageSize = stop at *
  rcases Nat.lt_or_ge stop (2 ^ 64) with hlow | hhigh
  · -- the end casts to a negative number
    have hpageEnd : min ((stop : Int) - 2 ^ 64) (fileLength : Int) = stop - 2 ^ 64 := by omega
    have hwant : min (endOff : Int) ((stop : Int) - 2 ^ 64) - cur = stop - 2 ^ 64 - cur := by omega
    rw [checkedU64_of_lt hlow, Option.bind_some, asI64_of_ge hpast hlow, hpageEnd,
      asI64_of_lt (by omega)]
    dsimp only
    rw [hwant, checkedI64_of_lt, Option.bind_some]
    rcases Int.lt_or_le ((stop : Int) - 2 ^ 64 - cur) (-2 ^ 63) with hunder | hfits
    · exact .inl (by rw [checkedI64_of_low hunder, Option.bind_none])
    · -- the position moves back to the cast end, on a page that ends past `u64::MAX`
      have hneg : (stop : Int) - 2 ^ 64 < endOff := by omega
      have hnext : (cur : Int) + (stop - 2 ^ 64 - cur) = stop - 2 ^ 64 := by omega
      rw [checkedI64_of_lt hfits (by omega), Option.bind_some, asI64_asU64 hfits (by omega), hnext,
        checkedI64_of_lt]
      refine .inr ⟨_, _, rfl, hneg, ?_⟩
      have hback : asU64 ((stop : Int) - 2 ^ 64) = stop := by
        have hbits := asU64_of_neg (n := (stop : Int) - 2 ^ 64) (by omega) (by omega)
        omega
      rw [planPage, hback, hdiv, hstopEq, checkedU64_of_lt hlow, Option.bind_some,
        checkedU64_of_lt (by omega), Option.bind_some, hnextEnd, checkedU64_of_ge (by omega),
        Option.bind_none]
  · exact .inl (by rw [checkedU64_of_ge hhigh, Option.bind_none])

theorem planPages_of_fits (hend : endOff ≤ fileLength) (hlen : fileLength < 2 ^ 63) :
    ∀ (fuel cur : Nat), PagesFit pageSize cur endOff →
      planPages pageSize fileLength endOff fuel cur =
        some ((pagePlans pageSize fileLength endOff fuel cur).map PagePlan.raw) := by
  intro fuel
  induction fuel with
  | zero =>
    intro cur _
    rfl
  | succ fuel ih =>
    intro cur hfit
    by_cases hlt : cur < endOff
    · have hpage := planPage_of_fits hps hlt hend hlen (hfit cur (Nat.le_refl _) hlt)
      simp only [pagePart, Nat.max_eq_left (page_bounds hps cur).1] at hpage
      rw [planPages, if_pos (by exact_mod_cast hlt), hpage, pagePlans, if_pos hlt]
      simp only
      rw [ih _ fun x hx => hfit x (by omega)]
      rfl
    · rw [planPages, if_neg (by exact_mod_cast hlt), pagePlans, if_neg hlt]
      rfl

theorem planPages_past (hend : endOff ≤ fileLength) (hlen : fileLength < 2 ^ 63) (hx : x < endOff)
    (hpast : 2 ^ 63 ≤ (x / pageSize + 1) * pageSize) : ∀ (fuel cur : Nat), cur ≤ x →
      endOff - cur + 2 ≤ fuel → planPages pageSize fileLength endOff fuel cur = none := by
  intro fuel
  induction fuel with
  | zero =>
    intro cur _ hfuel
    omega
  | succ fuel ih =>
    intro cur hcur hfuel
    have hlt : cur < endOff := by omega
    obtain ⟨hstart, hstop⟩ := page_bounds hps cur
    rw [planPages, if_pos (by exact_mod_cast hlt)]
    by_cases hfits : (cur / pageSize + 1) * pageSize < 2 ^ 63
    · rw [planPage_of_fits hps hlt hend hlen hfits]
      simp only [pagePart, Nat.max_eq_left hstart]
      have hnext : (cur / pageSize + 1) * pageSize ≤ x := by
        by_contra hlast
        rw [div_eq_of_page (i := cur / pageSize) (by omega) (by omega)] at hpast
        omega
      rw [ih _ (by omega) (by omega), Option.map_none]
    · rcases planPage_past hps hlt hend hlen (Nat.not_lt.mp hfits) with
        hnone | ⟨page, next, hsome, hnextLt, hnone⟩
      · rw [hnone]
      · obtain ⟨fuel, rfl⟩ : ∃ n, fuel = n + 1 := ⟨fuel - 1, by omega⟩
        rw [hsome]
        simp only
        rw [planPages, if_pos hnextLt, hnone, Option.map_none]

end Planner

/-! ## What is read, filled and returned -/

structure ExternalRead where
  start : Nat
  stop : Nat
  reply : Except Error Bytes

section Outcome

variable {σ : Type}

def traced (ext : ExternalRangeReader σ) : ExternalRangeReader (σ × List ExternalRead) :=
  fun s a e => ((ext s.1 a e).1, (ext s.1 a e).2, s.2 ++ [⟨a, e, (ext s.1 a e).1⟩])

/-- A reply inside the file that is not short starts with the bytes asked for. -/
def HonestSource (file : Bytes) (ext : ExternalRangeReader σ) : Prop :=
  ∀ s a e b, (ext s a e).1 = .ok b → e ≤ file.length → e - a ≤ b.length →
    slice b 0 (e - a) = slice file a (e - a)

def missed (pages : List (PagePlan × Bytes)) : List PagePlan :=
  (pages.filter fun pc => pc.2.length ≠ pc.1.want).map Prod.fst

variable (file : Bytes) (fileId : String) (fillMode : FillMode)

/-- Each of the pages with its whole content, unless nothing is filled. -/
def trueFills (pages : List PagePlan) : Fills :=
  if fillMode = .none then []
  else pages.map fun p => (p.pageId fileId, slice file p.pageStart (p.pageEnd - p.pageStart))

/-- Each of the pages was read from its start to its end, without a short reply. -/
def ReadInFull : List PagePlan → List ExternalRead → Prop :=
  Forall₂ fun p r => r.start = p.pageStart ∧ r.stop = p.pageEnd ∧
    ∃ b, r.reply = .ok b ∧ p.pageEnd - p.pageStart ≤ b.length

/-- The ways a read with these `misses` ends: the first reply that is an error or short ends
it, without a fill for its page. -/
inductive RangeOutcome (wanted : Bytes) :
    List PagePlan → Except Error Bytes → List ExternalRead → Fills → Prop where
  | served {misses : List PagePlan} {reads : List ExternalRead} (h : ReadInFull misses reads) :
      RangeOutcome wanted misses (.ok wanted) reads (trueFills file fileId fillMode misses)
  | refused {pre post : List PagePlan} {p : PagePlan} {reads : List ExternalRead} {e : Error}
      (h : ReadInFull pre reads) :
      RangeOutcome wanted (pre ++ p :: post) (.error e)
        (reads ++ [⟨p.pageStart, p.pageEnd, .error e⟩]) (trueFills file fileId fillMode pre)
  | short {pre post : List PagePlan} {p : PagePlan} {reads : List ExternalRead} {b : Bytes}
      (h : ReadInFull pre reads) (hb : b.length < p.pageEnd - p.pageStart) :
      RangeOutcome wanted (pre ++ p :: post)
        (.error (shortExternalRead p.pageIndex b.length (p.pageEnd - p.pageStart)))
        (reads ++ [⟨p.pageStart, p.pageEnd, .ok b⟩]) (trueFills file fileId fillMode pre)

variable {file fileId fillMode}

theorem trueFills_nil : trueFills file fileId fillMode [] = [] := by
  rw [trueFills, map_nil, ite_self]

theorem trueFills_cons (p : PagePlan) (ps : List PagePlan) :
    trueFills file fileId fillMode (p :: ps) =
      trueFills file fileId fillMode [p] ++ trueFills file fileId fillMode ps := by
  unfold trueFills
  split
  · rfl
  · rfl

namespace RangeOutcome

variable {wanted : Bytes} {misses : List PagePlan} {out : Except Error Bytes}
  {reads : List ExternalRead} {fills : Fills}

theorem hit (h : RangeOutcome file fileId fillMode wanted misses out reads fills) (chunk : Bytes) :
    RangeOutcome file fileId fillMode (chunk ++ wanted) misses (out.map (chunk ++ ·)) reads fills := by
  cases h with
  | served h => exact .served h
  | refused h => exact .refused h
  | short h hb => exact .short h hb

theorem miss (h : RangeOutcome file fileId fillMode wanted misses out reads fills) (chunk : Bytes)
    {p : PagePlan} {r : ExternalRead} (hr : ReadInFull [p] [r]) :
    RangeOutcome file fileId fillMode (chunk ++ wanted) (p :: misses) (out.map (chunk ++ ·))
      (r :: reads) (trueFills file fileId fillMode [p] ++ fills) := by
  obtain ⟨hr, _⟩ := forall₂_cons.mp hr
  cases h with
  | served h =>
    rw [← trueFills_cons]
    exact .served (.cons hr h)
  | @refused pre post q reads e h =>
    have hout : RangeOutcome file fileId fillMode (chunk ++ wanted) ((p :: pre) ++ q :: post)
        (.error e) ((r :: reads) ++ [⟨q.pageStart, q.pageEnd, .error e⟩])
        (trueFills file fileId fillMode (p :: pre)) := .refused (.cons hr h)
    rw [trueFills_cons] at hout
    exact hout
  | @short pre post q reads b h hb =>
    have hout : RangeOutcome file fileId fillMode (chunk ++ wanted) ((p :: pre) ++ q :: post)
        (.error (shortExternalRead q.pageIndex b.length (q.pageEnd - q.pageStart)))
        ((r :: reads) ++ [⟨q.pageStart, q.pageEnd, .ok b⟩])
        (trueFills file fileId fillMode (p :: pre)) := .short (.cons hr h) hb
    rw [trueFills_cons] at hout
    exact hout

theorem refused_first (p : PagePlan) (post : List PagePlan) (e : Error) :
    RangeOutcome file fileId fillMode wanted (p :: post) (.error e)
      [⟨p.pageStart, p.pageEnd, .error e⟩] [] := by
  have hout : RangeOutcome file fileId fillMode wanted ([] ++ p :: post) (.error e)
      ([] ++ [⟨p.pageStart, p.pageEnd, .error e⟩]) (trueFills file fileId fillMode []) :=
    .refused .nil
  rw [trueFills_nil] at hout
  exact hout

theorem short_first (p : PagePlan) (post : List PagePlan) {b : Bytes}
    (hb : b.length < p.pageEnd - p.pageStart) :
    RangeOutcome file fileId fillMode wanted (p :: post)
      (.error (shortExternalRead p.pageIndex b.length (p.pageEnd - p.pageStart)))
      [⟨p.pageStart, p.pageEnd, .ok b⟩] [] := by
  have hout : RangeOutcome file fileId fillMode wanted ([] ++ p :: post)
      (.error (shortExternalRead p.pageIndex b.length (p.pageEnd - p.pageStart)))
      ([] ++ [⟨p.pageStart, p.pageEnd, .ok b⟩]) (trueFills file fileId fillMode []) :=
    .short .nil hb
  rw [trueFills_nil] at hout
  exact hout

end RangeOutcome

variable {ext : ExternalRangeReader σ} {pageSize endOff : Nat} {p : PagePlan} {cachedBytes : Bytes}
  {s : σ} {rest : List (PagePlan × Bytes)} {b : Bytes} {e : Error} {fills : Fills} {s' : σ}

theorem servePage_read (hsrc : HonestSource file ext) (hp : p.Inside pageSize file.length)
    (hmiss : cachedBytes.length ≠ p.want) (hext : (ext s p.pageStart p.pageEnd).1 = .ok b)
    (hfull : p.pageEnd - p.pageStart ≤ b.length) :
    servePage ext fileId endOff fillMode p cachedBytes s =
      (.ok (slice file p.seg.1 p.seg.2), (ext s p.pageStart p.pageEnd).2,
        trueFills file fileId fillMode [p]) := by
  obtain ⟨_, hend, hwant, hin⟩ := hp
  have hcut : (if p.pageEnd - p.pageStart < b.length then slice b 0 (p.pageEnd - p.pageStart)
      else b) = slice file p.pageStart (p.pageEnd - p.pageStart) := by
    rw [← hsrc s p.pageStart p.pageEnd b hext hend hfull]
    split
    · rfl
    · rw [slice, drop_zero, take_of_length_le (by omega)]
  have hlen : (slice file p.pageStart (p.pageEnd - p.pageStart)).length = p.pageEnd - p.pageStart :=
    slice_length_of_le (by omega)
  have hne : slice file p.pageStart (p.pageEnd - p.pageStart) ≠ [] :=
    ne_nil_of_length_pos (by omega)
  have hstart : min p.inPageOff (p.pageEnd - p.pageStart) = p.inPageOff := by omega
  have hstop : min (p.inPageOff + p.want) (p.pageEnd - p.pageStart) = p.inPageOff + p.want := by
    omega
  have hadv : p.inPageOff + p.want - p.inPageOff = p.want := by omega
  have hseg : slice (slice file p.pageStart (p.pageEnd - p.pageStart)) p.inPageOff p.want =
      slice file p.seg.1 p.seg.2 := slice_slice (by omega)
  have hres : ext s p.pageStart p.pageEnd = (_, _) := Prod.ext hext rfl
  rw [servePage, if_neg hmiss, hres]
  simp only [if_neg (Nat.not_lt.mpr hfull), hcut, hlen, hstart, hstop, hadv,
    if_neg (Nat.ne_of_gt hwant), hseg, hne, false_or]
  rfl

theorem servePage_refused (hmiss : cachedBytes.length ≠ p.want)
    (hext : (ext s p.pageStart p.pageEnd).1 = .error e) :
    servePage ext fileId endOff fillMode p cachedBytes s =
      (.error e, (ext s p.pageStart p.pageEnd).2, []) := by
  have hres : ext s p.pageStart p.pageEnd = (_, _) := Prod.ext hext rfl
  rw [servePage, if_neg hmiss, hres]

theorem servePage_short (hmiss : cachedBytes.length ≠ p.want)
    (hext : (ext s p.pageStart p.pageEnd).1 = .ok b) (hshort : b.length < p.pageEnd - p.pageStart) :
    servePage ext fileId endOff fillMode p cachedBytes s =
      (.error (shortExternalRead p.pageIndex b.length (p.pageEnd - p.pageStart)),
        (ext s p.pageStart p.pageEnd).2, []) := by
  have hres : ext s p.pageStart p.pageEnd = (_, _) := Prod.ext hext rfl
  rw [servePage, if_neg hmiss, hres]
  simp only [if_pos hshort]

theorem servePages_cons_ok {chunk : Bytes}
    (h : servePage ext fileId endOff fillMode p cachedBytes s = (.ok chunk, s', fills)) :
    servePages ext fileId endOff fillMode ((p, cachedBytes) :: rest) s =
      let r := servePages ext fileId endOff fillMode rest s'
      (r.1.map (chunk ++ ·), r.2.1, fills ++ r.2.2) := by
  rw [servePages, h]
  simp only
  rcases servePages ext fileId endOff fillMode rest s' with ⟨_ | out, s'', more⟩
  · rfl
  · rfl

theorem servePages_cons_error
    (h : servePage ext fileId endOff fillMode p cachedBytes s = (.error e, s', fills)) :
    servePages ext fileId endOff fillMode ((p, cachedBytes) :: rest) s = (.error e, s', fills) := by
  rw [servePages, h]

theorem missed_cons_hit (h : cachedBytes.length = p.want) :
    missed ((p, cachedBytes) :: rest) = missed rest := by
  rw [missed, filter_cons_of_neg (by simpa using h)]
  rfl

theorem missed_cons_miss (h : cachedBytes.length ≠ p.want) :
    missed ((p, cachedBytes) :: rest) = p :: missed rest := by
  rw [missed, filter_cons_of_pos (by simpa using h)]
  rfl

theorem traced_snd {a e : Nat} {reply : Except Error Bytes} (h : (ext s a e).1 = reply)
    (before : List ExternalRead) :
    (traced ext (s, before) a e).2 = ((ext s a e).2, before ++ [⟨a, e, reply⟩]) := by
  rw [← h]
  rfl

theorem honest_traced (h : HonestSource file ext) : HonestSource file (traced ext) :=
  fun s a e b hb => h s.1 a e b hb

theorem servePages_outcome (hsrc : HonestSource file ext) :
    ∀ (pages : List (PagePlan × Bytes)) (s : σ) (before : List ExternalRead),
      (∀ pc ∈ pages, pc.1.Inside pageSize file.length ∧ HitTrue file pc) →
      ∃ out s' reads fills, servePages (traced ext) fileId endOff fillMode pages (s, before) =
          (out, (s', before ++ reads), fills) ∧
        RangeOutcome file fileId fillMode
          ((pages.map fun pc => pc.1.seg).flatMap fun g => slice file g.1 g.2) (missed pages)
          out reads fills := by
  intro pages
  induction pages with
  | nil =>
    intro s before _
    refine ⟨.ok [], s, [], [], by rw [servePages, append_nil], ?_⟩
    have hserved : RangeOutcome file fileId fillMode [] [] (.ok []) []
        (trueFills file fileId fillMode []) := .served .nil
    rwa [trueFills_nil] at hserved
  | cons pc rest ih =>
    intro s before hall
    obtain ⟨p, cachedBytes⟩ := pc
    obtain ⟨hp, hhit⟩ := hall (p, cachedBytes) (mem_cons_self ..)
    have hrest : ∀ pc ∈ rest, pc.1.Inside pageSize file.length ∧ HitTrue file pc :=
      fun pc hpc => hall pc (mem_cons_of_mem _ hpc)
    rw [map_cons, flatMap_cons]
    by_cases hc : cachedBytes.length = p.want
    · -- a full hit asks nothing of the source
      obtain ⟨out, s', reads, fills, hrun, hout⟩ := ih s before hrest
      have hpage : servePage (traced ext) fileId endOff fillMode p cachedBytes (s, before) =
          (.ok cachedBytes, (s, before), []) := by rw [servePage, if_pos hc]
      rw [missed_cons_hit hc, servePages_cons_ok hpage, hrun]
      have hchunk : cachedBytes = slice file p.seg.1 p.seg.2 := hhit hc
      exact ⟨_, s', reads, fills, rfl, hchunk ▸ hout.hit cachedBytes⟩
    · rw [missed_cons_miss hc]
      cases hext : (ext s p.pageStart p.pageEnd).1 with
      | error e =>
        have hext' : (traced ext (s, before) p.pageStart p.pageEnd).1 = .error e := hext
        rw [servePages_cons_error (servePage_refused hc hext'), traced_snd hext]
        exact ⟨_, _, _, _, rfl, .refused_first ..⟩
      | ok b =>
        have hext' : (traced ext (s, before) p.pageStart p.pageEnd).1 = .ok b := hext
        by_cases hshort : b.length < p.pageEnd - p.pageStart
        · rw [servePages_cons_error (servePage_short hc hext' hshort), traced_snd hext]
          exact ⟨_, _, _, _, rfl, .short_first _ _ hshort⟩
        · have hfull := Nat.not_lt.mp hshort
          rw [servePages_cons_ok (servePage_read (honest_traced hsrc) hp hc hext' hfull),
            traced_snd hext]
          obtain ⟨out, s', reads, fills, hrun, hout⟩ :=
            ih (ext s p.pageStart p.pageEnd).2 (before ++ [⟨p.pageStart, p.pageEnd, .ok b⟩]) hrest
          rw [hrun, append_assoc]
          exact ⟨_, _, _, _, rfl, hout.miss _ (.cons ⟨rfl, rfl, b, rfl, hfull⟩ .nil)⟩

variable {cached : List PageReadRequest → List Bytes} {offset : Nat}

theorem readThroughCacheI64_of_fits (hps : 0 < pageSize) (hend : endOff ≤ file.length)
    (hlen : file.length < 2 ^ 63) (hfit : PagesFit pageSize offset endOff) (s : σ) :
    let pages := touchedPages pageSize file.length offset endOff
    readThroughCacheI64 cached ext fileId pageSize file.length offset endOff fillMode s =
      some (servePages ext fileId endOff fillMode (pages.zip (answers cached fileId pages)) s) := by
  have hfuel : endOff - offset ≤ ((endOff : Int) - offset).toNat + 2 := by omega
  have hplan := planPages_of_fits hps hend hlen (((endOff : Int) - offset).toNat + 2) offset hfit
  rw [pagePlans_eq_touchedPages hps hend _ _ hfuel] at hplan
  have hraw : ∀ pages : List PagePlan, (pages.map PagePlan.raw).map RawPage.plan = pages := by
    intro pages
    rw [map_map]
    exact map_id _
  rw [readThroughCacheI64, Nat.max_eq_left hps, hplan, Option.map_some]
  simp only [hraw, Int.toNat_natCast]

theorem pagesFit_of_readThroughCacheI64 (hps : 0 < pageSize) (hend : endOff ≤ file.length)
    (hlen : file.length < 2 ^ 63) {s : σ} {out : Except Error Bytes × σ × Fills}
    (h : readThroughCacheI64 cached ext fileId pageSize file.length offset endOff fillMode s =
      some out) : PagesFit pageSize offset endOff := by
  intro x hx hxlt
  by_contra hpast
  have hnone := planPages_past hps hend hlen hxlt (Nat.not_lt.mp hpast)
    (((endOff : Int) - offset).toNat + 2) offset hx (by omega)
  rw [readThroughCacheI64, Nat.max_eq_left hps, hnone] at h
  cases h

/-- A read through the cache does what it should exactly if every page that the
range touches ends at a number that an `i64` carries. -/
theorem readThroughCache_serves_iff (hps : 0 < pageSize) (hle : offset ≤ endOff)
    (hend : endOff ≤ file.length) (hlen : file.length < 2 ^ 63)
    (hcache : TrueCache file pageSize cached) (hsrc : HonestSource file ext) (s : σ) :
    (∃ out s' reads fills,
      readThroughCacheI64 cached (traced ext) fileId pageSize file.length offset endOff fillMode
        (s, []) = some (out, (s', reads), fills) ∧
      let pages := touchedPages pageSize file.length offset endOff
      RangeOutcome file fileId fillMode (slice file offset (endOff - offset))
        (missed (pages.zip (answers cached fileId pages))) out reads fills) ↔
      PagesFit pageSize offset endOff := by
  refine ⟨fun hrun => ?_, fun hfit => ?_⟩
  · obtain ⟨out, s', reads, fills, hrun, _⟩ := hrun
    exact pagesFit_of_readThroughCacheI64 hps hend hlen hrun
  · obtain ⟨htiles, hin⟩ := pagePlans_tiles hps hend (endOff - offset) offset hle (Nat.le_refl _)
    rw [pagePlans_eq_touchedPages hps hend _ _ (Nat.le_refl _)] at htiles hin
    rw [readThroughCacheI64_of_fits hps hend hlen hfit]
    generalize touchedPages pageSize file.length offset endOff = pages at htiles hin ⊢
    have hin : ∀ p ∈ pages, p.Inside (max pageSize 1) file.length := by
      rw [Nat.max_eq_left hps]
      exact hin
    have hreplies : answers cached fileId pages = _ := rfl
    obtain ⟨hall, hsegs⟩ := zip_replies_true fileId hcache hin hreplies
    obtain ⟨out, s', reads, fills, hserve, hout⟩ : ∃ out s' reads fills,
        servePages (traced ext) fileId endOff fillMode (pages.zip (answers cached fileId pages))
          (s, []) = (out, (s', [] ++ reads), fills) ∧ _ := servePages_outcome hsrc _ s [] hall
    rw [hsegs, htiles.flatMap_slice] at hout
    exact ⟨out, s', reads, fills, congrArg some hserve, hout⟩

end Outcome

theorem trueCache_map {file : Bytes} {pageSize : Nat} {f : PageReadRequest → Bytes}
    (h : ∀ r, f r <+: slice file (r.pageId.pageIndex * max pageSize 1 + r.pageOffset) r.len) :
    TrueCache file pageSize (map f) := by
  intro reqs r hr _
  obtain ⟨i, hi⟩ := getElem?_of_mem hr
  rw [getElem?_zip_eq_some, getElem?_map] at hi
  rw [hi.1] at hi
  rw [← Option.some.inj hi.2]
  exact h r.1

def tenBytes : Bytes := [0, 1, 2, 3, 4, 5, 6, 7, 8, 9]

/-- Pages of four bytes: one byte of page 0, all of page 1 and nothing of page 2. -/
def tenBytesCache (r : PageReadRequest) : Bytes :=
  slice tenBytes (r.pageId.pageIndex * 4 + r.pageOffset)
    (min r.len (if r.pageId.pageIndex = 0 then 1 else if r.pageId.pageIndex = 1 then 4 else 0))

def exactSource (file : Bytes) : ExternalRangeReader Unit := fun s a e => (.ok (slice file a (e - a)), s)

theorem honest_exactSource (file : Bytes) : HonestSource file (exactSource file) := by
  intro s a e b hb _ _
  cases hb
  rw [slice, drop_zero, take_of_length_le (slice_length_le ..)]

theorem readThroughCache_serves_iff_tenBytes : ∃ out s' reads fills,
      readThroughCacheI64 (List.map tenBytesCache) (traced (exactSource tenBytes)) "f" 4
        tenBytes.length (2 : Nat) (10 : Nat) .sync ((), []) = some (out, (s', reads), fills) ∧
      let pages := touchedPages 4 tenBytes.length 2 10
      RangeOutcome tenBytes "f" .sync (slice tenBytes 2 8)
        (missed (pages.zip (answers (List.map tenBytesCache) "f" pages))) out reads fills := by
  have hcache : TrueCache tenBytes 4 (List.map tenBytesCache) :=
    trueCache_map fun r => List.take_prefix_take_left (Nat.min_le_left _ _)
  refine (readThroughCache_serves_iff (by decide) (by decide) (by decide) (by decide) hcache
    (honest_exactSource tenBytes) ()).mpr fun x _ hx => ?_
  omega

/-- A page size of `2 ^ 63` makes a read of a file of one byte panic. -/
theorem readThroughCache_panics_hugePage :
    readThroughCacheI64 (List.map fun _ => []) (exactSource [7]) "f" (2 ^ 63) 1 0 1 .sync () =
      none := by
  rfl

end GooseFS
