import Mathlib.Algebra.Ring.Nat
import Mathlib.Data.List.Sort
import GooseFS.IO.ReplicaWrite

/-!
# Consistent hashing

The part of the worker router that is a function of the worker list: the ring of
virtual nodes, the selection of workers from a ring, the fingerprint that
`update_workers` compares lists by, and the search for a worker on this host.

`xxh3` stands for the XXH3 hash of a byte string and `isLocal` for the test
whether a host name is this machine; both come from outside.
-/

namespace GooseFS

/-! ## Murmur3 -/

namespace Murmur3

def rotateLeft (k n : UInt64) : UInt64 := (k <<< n) ||| (k >>> (64 - n))

def readLe (bytes : Bytes) : UInt64 := bytes.foldr (fun b acc => b.toUInt64 ^^^ (acc <<< 8)) 0

def toLeBytes (n v : Nat) : Bytes := (List.range n).map fun i => UInt8.ofNat (v / 256 ^ i)

def c1 : UInt64 := 0x87c37b91114253d5

def c2 : UInt64 := 0x4cf5ad432745937f

def mixK1 (k : UInt64) : UInt64 := rotateLeft (k * c1) 31 * c2

def mixK2 (k : UInt64) : UInt64 := rotateLeft (k * c2) 33 * c1

def fmix64 (k : UInt64) : UInt64 :=
  let k := k ^^^ (k >>> 33)
  let k := k * 0xff51afd7ed558ccd
  let k := k ^^^ (k >>> 33)
  let k := k * 0xc4ceb9fe1a85ec53
  k ^^^ (k >>> 33)

def mixBlock (h : UInt64 × UInt64) (block : Bytes) : UInt64 × UInt64 :=
  let h1 := (rotateLeft (h.1 ^^^ mixK1 (readLe (block.take 8))) 27 + h.2) * 5 + 0x52dce729
  let h2 := (rotateLeft (h.2 ^^^ mixK2 (readLe (block.drop 8))) 31 + h1) * 5 + 0x38495ab5
  (h1, h2)

/-- The loop over the full blocks: the two halves of the state, and the tail. -/
def mixBlocks : Nat → Bytes → UInt64 × UInt64 → (UInt64 × UInt64) × Bytes
  | 0, data, h => (h, data)
  | n + 1, data, h => mixBlocks n (data.drop 16) (mixBlock h (data.take 16))

def murmurhash3X64128 (data : Bytes) (seed : UInt32) : UInt64 × UInt64 :=
  let ((h1, h2), tail) := mixBlocks (data.length / 16) data (seed.toUInt64, seed.toUInt64)
  let h2 := if 9 ≤ tail.length then h2 ^^^ mixK2 (readLe (tail.drop 8)) else h2
  let h1 := if 1 ≤ tail.length then h1 ^^^ mixK1 (readLe (tail.take 8)) else h1
  let len := UInt64.ofNat data.length
  let h1 := h1 ^^^ len
  let h2 := h2 ^^^ len
  let h1 := h1 + h2
  let h2 := h2 + h1
  let h1 := fmix64 h1
  let h2 := fmix64 h2
  let h1 := h1 + h2
  (h1, h2 + h1)

def guavaLongInt (key : Int64) (index : Int32) : Int64 :=
  (murmurhash3X64128 (toLeBytes 8 key.toUInt64.toNat ++ toLeBytes 4 index.toUInt32.toNat)
    0).1.toInt64

-- Two of the vectors recorded from the Java client.
example : guavaLongInt 42 7 = 1969424773395075097 := by decide +kernel

example : guavaLongInt (-1) 0 = 7097917686268154775 := by decide +kernel

end Murmur3

namespace Router

/-- A worker as the master reports it, with the fields that routing, replica
selection and the write-space filter read. -/
structure WorkerInfo where
  id : Option Int64
  address : Option WorkerNetAddress
  virtualNodeNum : Option Int32
  capacityBytes : Option Int64
  persistUsedBytes : Option Int64
  forbidWrite : Option Bool
  deriving DecidableEq, Repr

/-- The worker as the replica writer sees it; `hasSpace` is the watermark test. -/
def WorkerInfo.forWriter (hasSpace : WorkerInfo → Bool) (w : WorkerInfo) : GooseFS.WorkerInfo :=
  ⟨w.id.map Int64.toInt, w.address, w.forbidWrite, hasSpace w⟩

def virtualNodesPerWorker : Int32 := 5000

def WorkerInfo.virtualNodes (w : WorkerInfo) : Int32 :=
  w.virtualNodeNum.getD virtualNodesPerWorker

/-- Virtual nodes by their hash, with the place of their worker in the list. -/
abbrev HashRing := List (Int64 × Nat)

/-- A negative number of virtual nodes wraps around to an unsigned one. -/
def addVirtualNodes (ring : Std.TreeMap Int64 Nat) (entry : WorkerInfo × Nat) :
    Std.TreeMap Int64 Nat :=
  let workerId := entry.1.id.getD (Int64.ofNat entry.2)
  (List.range entry.1.virtualNodes.toUInt32.toNat).foldl
    (fun ring vn => ring.insert (Murmur3.guavaLongInt workerId (Int32.ofNat vn)) entry.2) ring

def buildHashRing (workers : List WorkerInfo) : HashRing :=
  (workers.zipIdx.foldl addVirtualNodes ∅).toList

theorem buildHashRing_nil : buildHashRing [] = [] := rfl

structure WorkerTuple where
  id : Int64
  host : String
  port : Int32
  vn : Int32
  deriving DecidableEq, Repr

def WorkerTuple.le (a b : WorkerTuple) : Bool :=
  if a.id ≠ b.id then a.id < b.id
  else if a.host ≠ b.host then a.host < b.host
  else if a.port ≠ b.port then a.port < b.port
  else a.vn ≤ b.vn

def WorkerTuple.bytes (t : WorkerTuple) : Bytes :=
  Murmur3.toLeBytes 8 t.id.toUInt64.toNat ++ Murmur3.toLeBytes 4 t.port.toUInt32.toNat ++
    Murmur3.toLeBytes 4 t.vn.toUInt32.toNat ++ Murmur3.toLeBytes 4 t.host.utf8ByteSize ++
    t.host.toUTF8.toList ++ [0]

def WorkerInfo.tuple (w : WorkerInfo) : WorkerTuple where
  id := w.id.getD 0
  host := (w.address.bind WorkerNetAddress.host).getD ""
  port := (w.address.bind WorkerNetAddress.rpcPort).getD 0
  vn := w.virtualNodes

def workersFingerprint (xxh3 : Bytes → UInt64) (workers : List WorkerInfo) : UInt64 :=
  if workers = [] then 0
  else
    let tuples := (workers.map WorkerInfo.tuple).insertionSort fun a b => a.le b = true
    xxh3 (tuples.flatMap WorkerTuple.bytes)

def detectLocalWorker (isLocal : String → Bool) : List WorkerInfo → Int64
  | [] => 0
  | w :: rest =>
    match w.address with
    | none => detectLocalWorker isLocal rest
    | some addr =>
      let host := addr.host.getD ""
      if host ≠ "" ∧ isLocal host then w.id.getD 0
      else detectLocalWorker isLocal rest

def localWorker (isLocal : String → Bool) (workers : List WorkerInfo) : Option Int64 :=
  let detected := detectLocalWorker isLocal workers
  if 0 < detected then some detected else none

/-! ## Selection -/

def workerAddrKey (addr : WorkerNetAddress) : String :=
  addr.host.getD "unknown" ++ ":" ++ toString (addr.rpcPort.getD 0)

/-- The first virtual node at or above `target`, or the first one of all. -/
def ringCeilingWorkerIndex (ring : HashRing) (target : Int64) : Option Nat :=
  ((ring.find? fun node => target ≤ node.1) <|> ring.head?).map Prod.snd

def hashPolicyMaxAttempts : Nat := 100

section Select

variable (blockId : Int64) (workers : List WorkerInfo) (ring : HashRing)
  (isFailed : String → Bool)

/-- The attempts left, the next attempt and the workers visited so far. -/
def selectLoop (skipFailed : Bool) : Nat → Nat → List Nat → Option WorkerInfo
  | 0, _, _ => none
  | left + 1, attempt, visited =>
    if workers.length ≤ visited.length then none
    else
      match ringCeilingWorkerIndex ring (Murmur3.guavaLongInt blockId (Int32.ofNat attempt)) with
      | none => none
      | some idx =>
        let visited := visited.insert idx
        match workers[idx]? with
        | none => selectLoop skipFailed left (attempt + 1) visited
        | some w =>
          if !skipFailed then some w
          else
            match w.address with
            | some addr =>
              if !isFailed (workerAddrKey addr) then some w
              else selectLoop skipFailed left (attempt + 1) visited
            | none => selectLoop skipFailed left (attempt + 1) visited

def consistentHashSelectFromRing (skipFailed : Bool) : Option WorkerInfo :=
  if ring = [] ∨ workers = [] then none
  else selectLoop blockId workers ring isFailed skipFailed hashPolicyMaxAttempts 0 []

structure Selection where
  selected : List WorkerInfo
  hosts : List String
  idxs : List Nat
  visited : List Nat
  deriving DecidableEq, Repr

def selectNLoop (count : Nat) (skipFailed : Bool) : Nat → Nat → Selection → List WorkerInfo
  | 0, _, s => s.selected
  | left + 1, attempt, s =>
    if count ≤ s.selected.length ∨ workers.length ≤ s.visited.length then s.selected
    else
      match ringCeilingWorkerIndex ring (Murmur3.guavaLongInt blockId (Int32.ofNat attempt)) with
      | none => s.selected
      | some idx =>
        let s := { s with visited := s.visited.insert idx }
        if idx ∈ s.idxs then selectNLoop count skipFailed left (attempt + 1) s
        else
          match workers[idx]? with
          | none => selectNLoop count skipFailed left (attempt + 1) s
          | some w =>
            match w.address with
            | none => selectNLoop count skipFailed left (attempt + 1) s
            | some addr =>
              let host := addr.host.getD ""
              if skipFailed ∧ isFailed (workerAddrKey addr) ∨ host ≠ "" ∧ host ∈ s.hosts then
                selectNLoop count skipFailed left (attempt + 1) s
              else
                selectNLoop count skipFailed left (attempt + 1)
                  { selected := s.selected ++ [w], idxs := s.idxs ++ [idx], visited := s.visited
                    hosts := if host ≠ "" then s.hosts ++ [host] else s.hosts }

def consistentHashSelectNFromRing (count : Nat) (skipFailed : Bool) : List WorkerInfo :=
  if count = 0 ∨ ring = [] ∨ workers = [] then []
  else
    selectNLoop blockId workers ring isFailed count skipFailed hashPolicyMaxAttempts 0
      ⟨[], [], [], []⟩

def noWorkersRegistered : Error := .noWorkerAvailable "no workers registered"

def noSuitableWorker : Error :=
  .noWorkerAvailable s!"no suitable worker for block_id={blockId}"

def preferLocal (localId : Option Int64) : Option WorkerInfo := do
  let id ← localId
  let w ← workers.find? fun w => w.id = some id
  let addr ← w.address
  if !isFailed (workerAddrKey addr) then some w else none

def selectWorker (localId : Option Int64) : Except Error WorkerInfo :=
  if workers = [] then .error noWorkersRegistered
  else
    match preferLocal workers isFailed localId <|>
        consistentHashSelectFromRing blockId workers ring isFailed true <|>
        consistentHashSelectFromRing blockId workers ring isFailed false with
    | some w => .ok w
    | none => .error (noSuitableWorker blockId)

def selectWorkers (count : Nat) : Except Error (List WorkerInfo) :=
  if count = 0 then .error (.invalidArgument "count must be greater than 0")
  else if workers = [] then .error noWorkersRegistered
  else
    match consistentHashSelectNFromRing blockId workers ring isFailed count true with
    | [] =>
      match consistentHashSelectNFromRing blockId workers ring isFailed count false with
      | [] => .error (noSuitableWorker blockId)
      | fallback => .ok fallback
    | selected => .ok selected

end Select

end Router

end GooseFS
