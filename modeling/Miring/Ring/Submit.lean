import Miring.Ring.Memory

/-!
# The submitter

`Submitter` of `submit.rs`: `enqueue_sqes` takes the queued entries out of the submission
ring and starts their dispatch thread, and `flush_pending` joins the dispatch threads in the
order of their submission and posts the completions.

Submitting never fails, so the counts are returned without the `io::Result` around them.
-/

namespace Miring

open Sys Dispatch

/-- The fields of `Submitter` other than its pointers into the ring. -/
structure Submitter where
  sqRingMask : UInt32
  sqeStride : Nat
  cqRingMask : UInt32
  cqRingEntries : UInt32
  cqeStride : Nat

namespace Submitter

variable {S C : Type}

def sqLen : RingProgram S C Nat := do
  let head ← load .sqHead
  let tail ← load .sqTail
  pure (tail - head).toNat

/-- The loop that copies `n` entries; it also answers the advanced head. -/
def snapshot (sub : Submitter) : UInt32 → Nat → RingProgram S C (List IoUringSqe × UInt32)
  | sqHead, 0 => pure ([], sqHead)
  | sqHead, n + 1 => do
      let sqIdx := (sqHead &&& sub.sqRingMask).toNat
      let sqe ← readSqe (sqIdx * sub.sqeStride)
      let rest ← snapshot sub (sqHead + 1) n
      pure (sqe :: rest.1, rest.2)

def enqueueSqes (sub : Submitter) (toSubmit : UInt32) : RingProgram S C Nat := do
  let sqHead ← load .sqHead
  let sqTail ← load .sqTail
  let pending := sqTail - sqHead
  let toProcess := min toSubmit pending
  if toProcess = 0 then pure 0
  else do
    let snap ← snapshot sub sqHead toProcess.toNat
    store .sqHead snap.2
    let handle ← spawn snap.1
    pushPending handle
    pure toProcess.toNat

def postCqe (sub : Submitter) (userData : UInt64) (res : Int32) (flags : UInt32) :
    RingProgram S C Unit := do
  let cqTail ← load .cqTail
  let cqHead ← load .cqHead
  notePost ⟨⟨userData, res, flags⟩, cqTail, cqHead⟩
  let cqLen := cqTail - cqHead
  if cqLen ≥ sub.cqRingEntries then do
    let prev ← fetchAdd .cqOverflow 1
    if prev = 0 then discard (fetchOr .sqFlags ioringSqCqOverflow) else pure ()
  else do
    let cqIdx := (cqTail &&& sub.cqRingMask).toNat
    writeCqe (cqIdx * sub.cqeStride) ⟨userData, res, flags⟩
    -- with 32-byte entries the other 16 bytes are zeroed
    (if sub.cqeStride > 16 then zeroExtra (cqIdx * sub.cqeStride) else pure ())
    store .cqTail (cqTail + 1)

/-- A completion is not posted if it succeeded and its request asked for that. -/
def suppressed (cd : CompletionData) : Bool := cd.skipSuccess && decide (0 ≤ cd.result)

/-- The loop over the completion data of a joined thread. -/
def postResults (sub : Submitter) : List CompletionData → RingProgram S C Unit
  | [] => pure ()
  | cd :: cds => do
      (if !suppressed cd then postCqe sub cd.userData cd.result 0 else pure ())
      postResults sub cds

/-- The loop over the drained handles. -/
def joinAll (sub : Submitter) : List Nat → RingProgram S C Unit
  | [] => pure ()
  | handle :: handles => do
      let results ← join handle
      postResults sub results
      joinAll sub handles

def flushPending (sub : Submitter) : RingProgram S C Unit := do
  let batches ← drainPending
  joinAll sub batches

def enter (sub : Submitter) (toSubmit minComplete : UInt32) : RingProgram S C Nat := do
  let submitted ← enqueueSqes sub toSubmit
  (if minComplete > 0 then flushPending sub else pure ())
  pure submitted

def submitAndWait (sub : Submitter) (want : Nat) : RingProgram S C Nat := do
  let len ← sqLen
  let submitted ← enqueueSqes sub (UInt32.ofNat len)
  (if want > 0 then flushPending sub else pure ())
  pure submitted

def submit (sub : Submitter) : RingProgram S C Nat := submitAndWait sub 0

def submitWithArgs (sub : Submitter) (want : Nat) : RingProgram S C Nat := do
  let len ← sqLen
  let submitted ← enqueueSqes sub (UInt32.ofNat len)
  (if want > 0 then flushPending sub else pure ())
  pure submitted

end Submitter

end Miring
