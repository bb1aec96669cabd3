import KernelCore.Heap.Basic

namespace KernelCore

namespace Region

/-- The links around `off` in the list that goes on from `next`: the last link before `off` and the
first that is not. -/
def around (r : Region) (m : Memory) (off : Nat) :
    (hops : Nat) → (prev next : Option Nat) → Except Fault (Option Nat × Option Nat)
  | _, prev, none => .ok (prev, none)
  | 0, _, some _ => .error .endless
  | hops + 1, prev, some next =>
    if next < off then do
      let h ← r.header m next
      r.around m off hops (some next) h.next
    else .ok (prev, some next)

/-- What a search of the list of free blocks comes to. -/
inductive Fit where
  | found (off : Nat)
  /-- No block is large enough. -/
  | exhausted
  /-- A link leads to no possible header. -/
  | wildLink (off : Nat)
  | badHeader (off : Nat)
deriving DecidableEq, Repr

/-- The first block with at least `need` bytes in the list that starts with a link. -/
def firstFit (r : Region) (m : Memory) (need : Nat) :
    (hops : Nat) → (link : Option Nat) → Except Fault Fit
  | _, none => .ok .exhausted
  | 0, some _ => .error .endless
  | hops + 1, some off =>
    if r.HoldsHeader off then
      let h := Header.read m (r.start + off)
      if h.isIntact then
        if h.isFree ∧ need ≤ h.size then .ok (.found off) else r.firstFit m need hops h.next
      else .ok (.badHeader off)
    else .ok (.wildLink off)

/-- Whether `target` lies inside a free block of the list that starts with a link, but not at its
start. Such an offset was that of a block which has been joined to the free block since. -/
def swallows (r : Region) (m : Memory) (target : Nat) :
    (hops : Nat) → (link : Option Nat) → Except Fault Bool
  | 0, _ => .ok false
  | _, none => .ok false
  | hops + 1, some off =>
    if off ≤ target ∧ r.HoldsHeader off then
      let h := Header.read m (r.start + off)
      if h.isIntact then do
        let stop ← blockEnd off h.size
        if target < stop then .ok (decide (off < target)) else r.swallows m target hops h.next
      else .ok false
    else .ok false

end Region

namespace Arena

/-- Makes `next` the link behind the block at `prev`, or the head of the list if there is no such
block. -/
def linkBehind (r : Region) (prev next : Option Nat) : Machine Arena Unit :=
  match prev with
  | some prev => setNext r prev next
  | none => setFirst next

/-- Makes `prev` the link in front of the block at `next`, if there is such a block. -/
def linkInFront (r : Region) (next prev : Option Nat) : Machine Arena Unit :=
  match next with
  | some next => setPrev r next prev
  | none => pure ()

/-- Takes the block at `off` out of the list of free blocks. -/
def detach (r : Region) (off : Nat) : Machine Arena Unit := do
  let h ← header r off
  linkBehind r h.prev h.next
  linkInFront r h.next h.prev
  let h ← header r off
  setHeader r off { h with next := none, prev := none }

/-- Puts the block at `off` into the list of free blocks, in the order of offsets. -/
def attach (r : Region) (off : Nat) : Machine Arena Unit := do
  let a ← get
  let (prev, next) ← r.around a.memory off r.hopLimit none a.heap.first
  let h ← header r off
  setHeader r off { h with next, prev }
  linkBehind r prev (some off)
  linkInFront r next (some off)

/-- Takes the mark of a header away, so that a stale address of its block is not mistaken for that of
a block. -/
def wipe (r : Region) (off : Nat) : Machine Arena Unit := do
  let h ← header r off
  setHeader r off { h with magic := 0, tag := 0 }

/-- Adds the block at `next`, which has a payload of `size` bytes, to the payload of the block at `off` in
front of it. -/
def merge (r : Region) (off next size : Nat) : Machine Arena Unit := do
  let h ← header r off
  let size ← Word.add h.size (Header.width + size)
  setHeader r off { h with size }
  wipe r next

/-- Joins the free block at `off` with the block behind it, if that one is free too. -/
def joinNext (r : Region) (off : Nat) : Machine Arena Unit := do
  let h ← header r off
  match h.next with
  | none => pure ()
  | some next =>
    if next = (← blockEnd off h.size) then
      let absorbed ← header r next
      if absorbed.isIntact ∧ absorbed.isFree then
        detach r next
        merge r off next absorbed.size

/-- Joins the free block at `off` with the block in front of it, if that one is free too. -/
def joinPrev (r : Region) (off : Nat) : Machine Arena Unit := do
  let h ← header r off
  match h.prev with
  | none => pure ()
  | some prev =>
    let survivor ← header r prev
    if survivor.isIntact ∧ survivor.isFree then
      if (← blockEnd prev survivor.size) = off then
        detach r off
        merge r prev off h.size

/-- Joins the free block at `off` with its free neighbours. -/
def join (r : Region) (off : Nat) : Machine Arena Unit := do
  joinNext r off
  joinPrev r off

/-- Cuts the block at `off` down to `need` bytes, if what is left over can be a block; the rest
becomes a free block. -/
def trim (r : Region) (off need : Nat) : Machine Arena Unit := do
  let h ← header r off
  let least ← Word.add need (Header.width + Config.heapMinPayload)
  if least ≤ h.size then
    let rest ← blockEnd off need
    setHeader r rest (Header.free (h.size - need - Header.width))
    setHeader r off { h with size := need }
    attach r rest
    join r rest

end Arena
end KernelCore
