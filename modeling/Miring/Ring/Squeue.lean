import Miring.Ring.Memory

/-!
# The submission queue

`SubmissionQueue` of `squeue.rs`. A handle keeps copies of both indices: it pushes at its own
`tail`, which the ring sees only after `sync` or `drop`, and it takes the consumed entries
into account only as far as its copy of `head` goes.
-/

namespace Miring.Squeue

open Sys

/-- `squeue::Inner`; the pointers are the cells and the slot array of `RingMem`. -/
structure Inner where
  ringMask : UInt32
  ringEntries : UInt32

variable {S C : Type}

def borrowShared (_sq : Inner) : RingProgram S C Unit := do
  let head ← load .sqHead
  store .sqLocalHead head
  let tail ← load .sqTail
  store .sqLocalTail tail

def borrow (sq : Inner) : RingProgram S C Unit := borrowShared sq

/-- Synchronize the handle with the submission queue. -/
def sync : RingProgram S C Unit := do
  let tail ← load .sqLocalTail
  store .sqTail tail
  let head ← load .sqHead
  store .sqLocalHead head

def needWakeup : RingProgram S C Bool := do
  let flags ← load .sqFlags
  pure (flags &&& ioringSqNeedWakeup != 0)

def dropped : RingProgram S C UInt32 := load .sqDropped

def cqOverflow : RingProgram S C Bool := do
  let flags ← load .sqFlags
  pure (flags &&& ioringSqCqOverflow != 0)

def taskrun : RingProgram S C Bool := do
  let flags ← load .sqFlags
  pure (flags &&& ioringSqTaskrun != 0)

def capacity (sq : Inner) : Nat := sq.ringEntries.toNat

def len : RingProgram S C Nat := do
  let tail ← load .sqLocalTail
  let head ← load .sqLocalHead
  pure (tail - head).toNat

def isEmpty : RingProgram S C Bool := do
  let len ← len
  pure (len == 0)

def isFull (sq : Inner) : RingProgram S C Bool := do
  let len ← len
  pure (len == capacity sq)

def pushUnchecked (sq : Inner) (entry : S) : RingProgram S C Unit := do
  let tail ← load .sqLocalTail
  writeSqe (tail &&& sq.ringMask).toNat entry
  store .sqLocalTail (tail + 1)

def push (sq : Inner) (entry : S) : RingProgram S C (Except PushError Unit) := do
  let full ← isFull sq
  if !full then do
    pushUnchecked sq entry
    pure (.ok ())
  else
    pure (.error .mk)

/-- The loop of `push_multiple`. -/
def pushAll (sq : Inner) : List S → RingProgram S C Unit
  | [] => pure ()
  | entry :: entries => do
      pushUnchecked sq entry
      pushAll sq entries

def pushMultiple (sq : Inner) (entries : List S) : RingProgram S C (Except PushError Unit) := do
  let len ← len
  -- `capacity() - len()` is checked
  if capacity sq < len then overflowPanic
  else if capacity sq - len < entries.length then pure (.error .mk)
  else do
    pushAll sq entries
    pure (.ok ())

/-- `Drop for SubmissionQueue` -/
def drop : RingProgram S C Unit := do
  let tail ← load .sqLocalTail
  store .sqTail tail

end Miring.Squeue
