import KernelCore.Heap.Basic

namespace KernelCore

namespace Region

/-- Adds the free blocks of the list that starts with a link to the counters. The list ends at the
first link that leads to no intact header. Around a cycle the sums grow until they are no words. -/
def tally (r : Region) (m : Memory) :
    (hops : Nat) → Heap.Statistics → (link : Option Nat) → Except Fault Heap.Statistics
  | _, s, none => .ok s
  | 0, _, some _ => .error .addOverflow
  | hops + 1, s, some off =>
    if r.HoldsHeader off then
      let h := Header.read m (r.start + off)
      if h.isIntact then do
        let free ← Word.add s.free h.size
        let freeBlocks ← Word.add s.freeBlocks 1
        let largestFree := max s.largestFree h.size
        r.tally m hops { s with free, freeBlocks, largestFree } h.next
      else .ok s
    else .ok s

/-- Checks the blocks from the offset `off` on, which follow one another to the end of the region, and
counts the free ones. `freeBefore` tells whether the block in front is free. In a region of less than 2^35 bytes the
count has room in 31 bits. -/
def auditBlocks (r : Region) (m : Memory) (off freeBlocks : Nat) (freeBefore : Bool) :
    Except Fault (Except Heap.Defect Nat) :=
  if inside : off < r.size then
    if r.HoldsHeader off then
      let h := Header.read m (r.start + off)
      if h.isIntact = false then .ok (.error ⟨.badMagic, some off⟩)
      else if h.size % Config.heapAlignment ≠ 0 then .ok (.error ⟨.unalignedSize, some off⟩)
      else if wordLimit ≤ off + Header.width + h.size then .error .addOverflow
      else if r.size < off + Header.width + h.size then .ok (.error ⟨.overrun, some off⟩)
      else if h.isFree && freeBefore then .ok (.error ⟨.adjacentFree, some off⟩)
      else
        r.auditBlocks m (off + Header.width + h.size)
          (if h.isFree then freeBlocks + 1 else freeBlocks) h.isFree
    else .ok (.error ⟨.headerPastEnd, some off⟩)
  else .ok (.ok freeBlocks)
termination_by r.size - off
decreasing_by simp only [Header.width]; omega

/-- Checks the list that starts with a link, behind the block at `prev`, and gives how many of the
`left` blocks that it may have are not in it. -/
def auditList (r : Region) (m : Memory) :
    (left : Nat) → (prev link : Option Nat) → Except Heap.Defect Nat
  | left, _, none => .ok left
  | 0, _, some off => .error ⟨.wildLink, some off⟩
  | left + 1, prev, some off =>
    if r.HoldsHeader off then
      let h := Header.read m (r.start + off)
      if h.isIntact = false ∨ h.isFree = false then .error ⟨.allocatedInList, some off⟩
      else if h.prev ≠ prev ∨ prev.any (off ≤ ·) then .error ⟨.outOfOrder, some off⟩
      else r.auditList m left (some off) h.next
    else .error ⟨.wildLink, some off⟩

/-- Checks that the blocks tile the region, that no two neighbours are free, and that the list holds
exactly the free blocks in the order of their offsets. -/
def audit (r : Region) (m : Memory) (first : Option Nat) : Except Fault (Except Heap.Defect Unit) := do
  match ← r.auditBlocks m 0 0 false with
  | .error defect => pure (.error defect)
  | .ok freeBlocks =>
    match r.auditList m (freeBlocks + 1) none first with
    | .error defect => pure (.error defect)
    | .ok left => pure (if left = 1 then .ok () else .error ⟨.missingFromList, first⟩)

/-- Offsets and sizes of the blocks in the list that starts with a link, up to and including the first
one with a damaged header. -/
def listed (r : Region) (m : Memory) :
    (hops : Nat) → (link : Option Nat) → Except Fault (List (Nat × Nat))
  | _, none => .ok []
  | 0, some _ => .error .endless
  | hops + 1, some off =>
    if r.HoldsHeader off then
      let h := Header.read m (r.start + off)
      if h.isIntact then do
        let rest ← r.listed m hops h.next
        pure ((off, h.size) :: rest)
      else .ok [(off, h.size)]
    else .ok []

end Region

namespace Arena

/-- The counters of the heap. -/
def statistics (a : Arena) : Except Fault Heap.Statistics :=
  let counted : Heap.Statistics := ⟨a.heap.total, a.heap.used, 0, 0, 0⟩
  match a.heap.region with
  | none => .ok counted
  | some r => r.tally a.memory r.hopLimit counted a.heap.first

/-- The verdict of an audit: what is wrong, if anything is. -/
def verdict (a : Arena) : Except Fault (Except HeapError (Option Heap.Defect)) :=
  match a.heap.region with
  | none => .ok (.error .uninitialized)
  | some r => do
    match ← r.audit a.memory a.heap.first with
    | .ok () => pure (.ok none)
    | .error defect => pure (.ok (some defect))

/-- Checks the heap, and reports what is wrong with it. -/
def check : HeapAction Unit := do
  let a ← get
  match ← a.verdict with
  | .error cause => throw cause
  | .ok none => pure ()
  | .ok (some defect) =>
    report (.defect (Word.wrappingAdd a.heap.extent.1 (linkWord defect.place)) defect.kind)
    throw .corrupted

/-- Reports the extent, the counters and the free blocks of the heap. -/
def describe : Machine Arena Unit := do
  let a ← get
  let counters ← a.statistics
  let (start, size) := a.heap.extent
  report (.extent start (start + size))
  report (.counters counters)
  match a.heap.region with
  | none => pure ()
  | some r =>
    let blocks ← r.listed a.memory r.hopLimit a.heap.first
    blocks.forM fun (off, size) => report (.freeBlock (r.start + off) size)

end Arena
end KernelCore
