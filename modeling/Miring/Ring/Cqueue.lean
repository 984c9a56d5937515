import Miring.Ring.Memory

/-!
# The completion queue

`CompletionQueue` of `cqueue.rs`. A handle keeps copies of both indices: it pops at its own
`head`, which frees slots only after `sync` or `drop`, and it sees the posted entries only as
far as its copy of `tail` goes.
-/

namespace Miring.Cqueue

open Sys

/-- `cqueue::Inner`; the pointers are the cells and the slot array of `RingMem`. -/
structure Inner where
  ringMask : UInt32
  ringEntries : UInt32

variable {S C : Type}

def borrowShared (_cq : Inner) : RingProgram S C Unit := do
  let head ← load .cqHead
  store .cqLocalHead head
  let tail ← load .cqTail
  store .cqLocalTail tail

def borrow (cq : Inner) : RingProgram S C Unit := borrowShared cq

/-- Synchronize the handle with the completion queue. -/
def sync : RingProgram S C Unit := do
  let head ← load .cqLocalHead
  store .cqHead head
  let tail ← load .cqTail
  store .cqLocalTail tail

def overflow : RingProgram S C UInt32 := load .cqOverflow

def eventfdDisabled : RingProgram S C Bool := do
  let flags ← load .cqFlags
  pure (flags &&& ioringCqEventfdDisabled != 0)

def capacity (cq : Inner) : Nat := cq.ringEntries.toNat

def len : RingProgram S C Nat := do
  let tail ← load .cqLocalTail
  let head ← load .cqLocalHead
  pure (tail - head).toNat

def isEmpty : RingProgram S C Bool := do
  let len ← len
  pure (len == 0)

def isFull (cq : Inner) : RingProgram S C Bool := do
  let len ← len
  pure (len == capacity cq)

/-- The entry is read after the local head was advanced: `entry.clone()` comes last. -/
def pop (cq : Inner) : RingProgram S C C := do
  let head ← load .cqLocalHead
  store .cqLocalHead (head + 1)
  readCqe (head &&& cq.ringMask).toNat

/-- `Iterator::next` -/
def next (cq : Inner) : RingProgram S C (Option C) := do
  let head ← load .cqLocalHead
  let tail ← load .cqLocalTail
  if head ≠ tail then do
    let entry ← pop cq
    pure (some entry)
  else
    pure none

/-- The loop of `fill`. -/
def popMany (cq : Inner) : Nat → RingProgram S C (List C)
  | 0 => pure []
  | n + 1 => do
      let entry ← pop cq
      let entries ← popMany cq n
      pure (entry :: entries)

/-- Fill a slice of `n` entries; the answer is its initialised part. -/
def fill (cq : Inner) (n : Nat) : RingProgram S C (List C) := do
  let len ← len
  popMany cq (min len n)

/-- The loop of `fill`, with the slots it writes; `none` is a slot that is not initialised. -/
def writeEach (cq : Inner) : List (Option C) → RingProgram S C (List (Option C))
  | [] => pure []
  | _ :: slots => do
      let entry ← pop cq
      let slots ← writeEach cq slots
      pure (some entry :: slots)

/-- `fill` with the slice: what the slice holds behind the call, and the length of the slice
that is returned. -/
def fillSlice (cq : Inner) (entries : List (Option C)) :
    RingProgram S C (List (Option C) × Nat) := do
  let len ← len
  let len := min len entries.length
  let slots ← writeEach cq (entries.take len)
  pure (slots ++ entries.drop len, len)

/-- `Iterator::size_hint` -/
def sizeHint : RingProgram S C (Nat × Option Nat) := do
  let lower ← len
  let upper ← len
  pure (lower, some upper)

/-- `Drop for CompletionQueue` -/
def drop : RingProgram S C Unit := do
  let head ← load .cqLocalHead
  store .cqHead head

end Miring.Cqueue
