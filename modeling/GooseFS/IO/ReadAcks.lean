import GooseFS.IO.BlockReader

/-!
# Read acknowledgements

A reader tells the worker how far it has come, once per window of bytes or chunks and
whenever the range is complete.  An acknowledgement that the channel has no room for is
not sent, and a later chunk tries again with a later offset.  `acks_accurate` follows a
reader through any number of `read_chunk` calls on a stream that delivers its range.
-/

namespace GooseFS

open List

namespace GrpcBlockReader

variable {r : GrpcBlockReader} {offset length : Nat}

inductive Opened (offset length : Nat) : GrpcBlockReader → Prop where
  | direct (blockId : Int) (stream : ReadStream) :
      Opened offset length (openDirect blockId offset length stream)
  | sequential (blockId : Int) (tuning : ReadTuning) (tx : List TrySend)
      (items : List StreamItem) :
      Opened offset length (openSequential blockId offset length tuning tx items)

/-- The bytes that `n` calls of `read_chunk` deliver, and the reader after them.  A caller
may go on after a call that delivers nothing. -/
def readChunks : Nat → GrpcBlockReader → Bytes × GrpcBlockReader
  | 0, r => ([], r)
  | n + 1, r =>
    match (readChunks n r).2.readChunk with
    | (.ok (some d), s) => ((readChunks n r).1 ++ d, s)
    | (_, s) => ((readChunks n r).1, s)

def Roomy (r : GrpcBlockReader) : Prop := ∃ tx, r.requestTx = some tx ∧ ∀ t ∈ tx, t = .ok

/-! ## One call -/

theorem maybeSendAck_acks (r : GrpcBlockReader) (n : Nat) : (r.maybeSendAck n).offset = r.offset ∧
      ((r.maybeSendAck n).acks = r.acks ∨
        (r.maybeSendAck n).acks = r.acks ++ [r.offset + r.bytesReceived]) := by
  simp only [maybeSendAck]
  split
  · split
    · exact ⟨rfl, .inl rfl⟩
    · split
      · exact ⟨rfl, .inr rfl⟩
      · exact ⟨rfl, .inl rfl⟩
      · exact ⟨rfl, .inl rfl⟩
  · exact ⟨rfl, .inl rfl⟩

theorem maybeSendAck_roomy (n : Nat) (h : r.Roomy) : (r.maybeSendAck n).Roomy := by
  obtain ⟨tx, htx, hok⟩ := h
  have htail : ∀ t ∈ tx.tail, t = .ok := fun t ht => hok t (mem_of_mem_tail ht)
  simp only [maybeSendAck, htx]
  split
  · split
    · exact ⟨_, rfl, htail⟩
    · exact ⟨_, rfl, htail⟩
    · exact ⟨_, rfl, htail⟩
  · exact ⟨tx, rfl, hok⟩

theorem maybeSendAck_complete (n : Nat) (hroom : r.Roomy) (h : r.length ≤ r.bytesReceived) :
    (r.maybeSendAck n).acks = r.acks ++ [r.offset + r.bytesReceived] := by
  obtain ⟨tx, htx, hok⟩ := hroom
  have hneed : shouldSendAck (r.bytesSinceLastAck + n) (r.chunksSinceLastAck + 1)
      r.ackIntervalBytes r.ackIntervalChunks r.bytesReceived r.length = true := by
    rw [shouldSendAck, decide_eq_true h, Bool.or_true]
  have hhead : tx.headD .ok = .ok := by
    cases tx with
    | nil => rfl
    | cons t rest => exact hok t (mem_cons_self ..)
  simp only [maybeSendAck, hneed, if_true, htx, hhead]

theorem deliver_acks (r : GrpcBlockReader) (d : Bytes) (src : ChunkSource) :
    (r.deliver d src).offset = r.offset ∧ ((r.deliver d src).acks = r.acks ∨
      (r.deliver d src).acks = r.acks ++ [r.offset + (r.bytesReceived + d.length)]) := by
  have h := maybeSendAck_acks
    { r with source := src, bytesReceived := r.bytesReceived + d.length } d.length
  simp only [deliver]
  split
  · exact h
  · exact h

/-- On a channel with room the channel stays open until the range is complete, and then the
whole range is acknowledged. -/
theorem deliver_roomy (d : Bytes) (src : ChunkSource) (hroom : r.Roomy) :
    (r.bytesReceived + d.length < r.length → (r.deliver d src).Roomy) ∧
      (r.length ≤ r.bytesReceived + d.length →
        (r.deliver d src).acks = r.acks ++ [r.offset + (r.bytesReceived + d.length)]) := by
  generalize hr : { r with source := src, bytesReceived := r.bytesReceived + d.length } = r'
  obtain ⟨_, hlen, hreceived⟩ := r'.maybeSendAck_keeps d.length
  have hroom' : r'.Roomy := hr ▸ hroom
  have hdeliver : r.deliver d src = if r'.length ≤ r'.bytesReceived
      then (r'.maybeSendAck d.length).halfClose else r'.maybeSendAck d.length := by
    rw [← hlen, ← hreceived, ← hr]
    rfl
  subst hr
  rw [hdeliver]
  refine ⟨fun hlt => ?_, fun hc => ?_⟩
  · rw [if_neg (Nat.not_le_of_lt hlt)]
    exact maybeSendAck_roomy _ hroom'
  · rw [if_pos hc]
    exact maybeSendAck_complete _ hroom' hc

theorem readChunk_cases (r : GrpcBlockReader) :
    (r.length ≤ r.bytesReceived ∧ r.readChunk = (.ok none, r.halfClose)) ∨
      (r.bytesReceived < r.length ∧ r.source.bytes = []) ∨
      (r.bytesReceived < r.length ∧ ∃ d src, r.readChunk = (.ok (some d), r.deliver d src) ∧
        d ≠ [] ∧ r.source.bytes = d ++ src.bytes) := by
  by_cases hc : r.length ≤ r.bytesReceived
  · exact .inl ⟨hc, readChunk_of_complete hc⟩
  · have hlt := Nat.lt_of_not_le hc
    rcases r.source.pull_spec (drainTaskEnded r.blockId r.bytesReceived r.length) with
      ⟨d, hd, hne, hbytes, _⟩ | ⟨_, hbytes⟩
    · refine .inr (.inr ⟨hlt, d, _, ?_, hne, hbytes⟩)
      rw [readChunk, if_neg hc]
      rcases hpull : r.source.pull (drainTaskEnded r.blockId r.bytesReceived r.length) with
        ⟨res, src⟩
      rw [hpull] at hd
      cases hd
      rfl
    · exact .inr (.inl ⟨hlt, hbytes⟩)

/-! ## Runs -/

/-- What holds after calls on a reader of `range` that have delivered `done`. -/
structure Acking (offset : Nat) (range done : Bytes) (r : GrpcBlockReader) : Prop where
  offset_eq : r.offset = offset
  length_eq : r.length = range.length
  received : r.bytesReceived = done.length
  rest : done ++ r.source.bytes = range
  ascending : r.acks.Pairwise (· < ·)
  covered : ∀ a ∈ r.acks, a ≤ offset + done.length

variable {range done d : Bytes} {src : ChunkSource}

theorem Acking.deliver (h : Acking offset range done r) (hd : d ≠ [])
    (hbytes : r.source.bytes = d ++ src.bytes) :
    Acking offset range (done ++ d) (r.deliver d src) := by
  obtain ⟨hsrc, hlen, hreceived⟩ := r.deliver_keeps d src
  obtain ⟨hoffset, hacks⟩ := r.deliver_acks d src
  have hpos : 0 < d.length := length_pos_iff.mpr hd
  have hgrown : (done ++ d).length = done.length + d.length := length_append
  refine ⟨hoffset.trans h.offset_eq, hlen.trans h.length_eq, ?_, ?_, ?_, ?_⟩
  · rw [hreceived, h.received, hgrown]
  · rw [hsrc, append_assoc, ← hbytes, h.rest]
  · rcases hacks with hacks | hacks
    · exact hacks ▸ h.ascending
    · rw [hacks, h.offset_eq, h.received]
      refine pairwise_append.mpr ⟨h.ascending, pairwise_singleton _ _, ?_⟩
      intro a ha b hb
      have hle := h.covered a ha
      rw [mem_singleton.mp hb]
      omega
  · intro a ha
    rcases hacks with hacks | hacks <;> rw [hacks] at ha
    · have hle := h.covered a ha
      omega
    · rcases mem_append.mp ha with ha | ha
      · have hle := h.covered a ha
        omega
      · rw [mem_singleton.mp ha, h.offset_eq, h.received]
        omega

theorem Acking.next {n : Nat}
    (h : Acking offset range (readChunks n r).1 (readChunks n r).2) :
    (readChunks n r).1 = range ∧ readChunks (n + 1) r = (range, (readChunks n r).2.halfClose) ∨
      ∃ d src, d ≠ [] ∧ (readChunks n r).2.source.bytes = d ++ src.bytes ∧
        readChunks (n + 1) r = ((readChunks n r).1 ++ d, (readChunks n r).2.deliver d src) := by
  have hrest : (readChunks n r).1.length + (readChunks n r).2.source.bytes.length =
      range.length := by
    rw [← length_append, h.rest]
  rcases readChunk_cases (readChunks n r).2 with ⟨hc, hcall⟩ | ⟨hlt, hnil⟩ | ⟨hlt, d, src, hcall, hd, hbytes⟩
  · have hnil : (readChunks n r).2.source.bytes = [] := by
      rw [h.length_eq, h.received] at hc
      exact length_eq_zero_iff.mp (by omega)
    have hdone : (readChunks n r).1 = range := by
      have := h.rest
      rwa [hnil, append_nil] at this
    refine .inl ⟨hdone, ?_⟩
    rw [readChunks, hcall, hdone]
  · rw [h.length_eq, h.received] at hlt
    rw [hnil, length_nil] at hrest
    omega
  · refine .inr ⟨d, src, hd, hbytes, ?_⟩
    rw [readChunks, hcall]

theorem acking_readChunks (h0 : Acking offset range [] r) : ∀ n : Nat,
    Acking offset range (readChunks n r).1 (readChunks n r).2 := by
  intro n
  induction n with
  | zero => exact h0
  | succ n ih =>
    rcases ih.next with ⟨hdone, hnext⟩ | ⟨d, src, hd, hbytes, hnext⟩
    · rw [hnext]
      exact ⟨ih.offset_eq, ih.length_eq, hdone ▸ ih.received, hdone ▸ ih.rest, ih.ascending,
        hdone ▸ ih.covered⟩
    · rw [hnext]
      exact ih.deliver hd hbytes

theorem delivered_readChunks (h0 : Acking offset range [] r) : ∀ n : Nat,
    (readChunks n r).1 = range ∨ n ≤ (readChunks n r).1.length := by
  intro n
  induction n with
  | zero => exact .inr (Nat.zero_le _)
  | succ n ih =>
    rcases (acking_readChunks h0 n).next with ⟨_, hnext⟩ | ⟨d, src, hd, hbytes, hnext⟩
    · exact .inl (congrArg Prod.fst hnext)
    · rw [hnext]
      have hrest := (acking_readChunks h0 n).rest
      rcases ih with hdone | hle
      · rw [hbytes, hdone] at hrest
        have hlen := congrArg List.length hrest
        have hpos := length_pos_iff.mpr hd
        simp only [length_append] at hlen
        omega
      · have hpos := length_pos_iff.mpr hd
        simp only [length_append]
        omega

/-- What a channel with room adds: it is open until the range is complete, and then the
last acknowledgement is that of the whole range. -/
def Prompt (offset : Nat) (range done : Bytes) (r : GrpcBlockReader) : Prop :=
  if done = range then range ≠ [] → r.acks.getLast? = some (offset + range.length) else r.Roomy

theorem prompt_readChunks (h0 : Acking offset range [] r) (hroom : r.Roomy) : ∀ n : Nat,
    Prompt offset range (readChunks n r).1 (readChunks n r).2 := by
  intro n
  induction n with
  | zero =>
    show if [] = range then _ else _
    split
    case isTrue hnil => exact fun hne => absurd hnil.symm hne
    case isFalse => exact hroom
  | succ n ih =>
    have hn := acking_readChunks h0 n
    rcases hn.next with ⟨hdone, hnext⟩ | ⟨d, src, hd, hbytes, hnext⟩
    · rw [hnext]
      rw [Prompt, if_pos hdone] at ih
      rw [Prompt, if_pos rfl]
      exact ih
    · have hpos := length_pos_iff.mpr hd
      have hlen : (readChunks n r).1.length + (d.length + src.bytes.length) = range.length := by
        rw [← length_append, ← hbytes, ← length_append, hn.rest]
      have hopen : (readChunks n r).1 ≠ range := fun h => by rw [h] at hlen; omega
      rw [Prompt, if_neg hopen] at ih
      obtain ⟨hmore, hlast⟩ := deliver_roomy d src ih
      rw [hn.received, hn.length_eq] at hmore hlast
      rw [hnext, Prompt]
      split
      case isTrue hdone =>
        have hend : (readChunks n r).1.length + d.length = range.length :=
          length_append.symm.trans (congrArg List.length hdone)
        intro _
        rw [hlast (Nat.le_of_eq hend.symm), hn.offset_eq, hend]
        exact getLast?_concat ..
      case isFalse hdone =>
        refine hmore (Nat.lt_of_le_of_ne (by omega) fun hend => hdone ?_)
        have hnil : src.bytes = [] := length_eq_zero_iff.mp (by omega)
        have hrest := hn.rest
        rwa [hbytes, hnil, append_nil] at hrest

theorem Opened.acking (h : Opened offset length r) (hexact : r.source.bytes.length = length) :
    Acking offset r.source.bytes [] r := by
  cases h with
  | direct blockId stream => exact ⟨rfl, hexact.symm, rfl, rfl, .nil, by simp [openDirect]⟩
  | sequential blockId tuning tx items =>
    exact ⟨rfl, hexact.symm, rfl, rfl, .nil, by simp [openSequential]⟩

/-- Acknowledgements of a reader whose worker delivers exactly the range, after any number of
calls: they ascend, the one that a call sends names what has been delivered by then, none is
past the range, and on a channel that is never full the last one is the end of the range,
which as many calls as it has bytes deliver. -/
theorem acks_accurate (h : Opened offset length r) (hexact : r.source.bytes.length = length)
    (n : Nat) :
    (readChunks n r).2.acks.Pairwise (· < ·) ∧
      ((readChunks (n + 1) r).2.acks = (readChunks n r).2.acks ∨ (readChunks (n + 1) r).2.acks =
          (readChunks n r).2.acks ++ [offset + (readChunks (n + 1) r).1.length]) ∧
      (∀ a ∈ (readChunks n r).2.acks, a ≤ offset + length) ∧
      (length ≤ n → (readChunks n r).1 = r.source.bytes) ∧
      (r.Roomy → (readChunks n r).1 = r.source.bytes → 0 < length →
        (readChunks n r).2.acks.getLast? = some (offset + length)) := by
  have h0 := h.acking hexact
  have hn := acking_readChunks h0 n
  have hsplit := congrArg List.length hn.rest
  rw [List.length_append, hexact] at hsplit
  refine ⟨hn.ascending, ?_, fun a ha => ?_, fun hcalls => ?_, fun hroom hdone hpos => ?_⟩
  · rcases hn.next with ⟨_, hnext⟩ | ⟨d, src, _, _, hnext⟩
    · exact Or.inl (congrArg (fun out => out.2.acks) hnext)
    · rw [hnext]
      obtain ⟨_, hacks⟩ := (readChunks n r).2.deliver_acks d src
      rw [hn.offset_eq, hn.received, ← List.length_append] at hacks
      exact hacks
  · have hle := hn.covered a ha
    omega
  · refine (delivered_readChunks h0 n).elim id fun hle => ?_
    have hnil : (readChunks n r).2.source.bytes = [] :=
      List.length_eq_zero_iff.mp (by omega)
    have hrest := hn.rest
    rwa [hnil, List.append_nil] at hrest
  · have hprompt := prompt_readChunks h0 hroom n
    rw [Prompt, if_pos hdone, hexact] at hprompt
    exact hprompt fun hnil => by rw [hnil] at hexact; exact absurd hexact (Nat.ne_of_lt hpos)

/-- Five bytes in two chunks with an empty frame between, acknowledged every three bytes; the
channel is full at the first chunk. -/
def smallReader : GrpcBlockReader :=
  openSequential 7 100 5 ⟨3, 10⟩ [.full]
    [.data ⟨some ⟨some [1, 2, 3]⟩⟩, .data ⟨none⟩, .data ⟨some ⟨some [4, 5]⟩⟩, .streamEnd]

theorem acks_accurate_small : (readChunks 2 smallReader).2.acks = [105] ∧
    ∀ a ∈ (readChunks 2 smallReader).2.acks, a ≤ 105 :=
  ⟨by decide +kernel, (acks_accurate (.sequential 7 ⟨3, 10⟩ _ _) (by decide) 2).2.2.1⟩

end GrpcBlockReader

end GooseFS
