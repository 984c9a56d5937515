import Miring.Ring.Client
import Miring.Stream.Ledger

/-!
# When a ring stands for a pipeline

`SqRefines` and `CqRefines` relate one queue of a ring to its abstract queue: every counter is
the index of the abstract queue modulo `2 ^ 32`, and the slots between the consumer and the
producer hold the entries in between. `Refines` adds the dispatch threads.

Each relation reads only a part of the memory (`sqPart`, `cqPart`, `threadPart`), so an
operation on one queue keeps the relation of the other (`SqRefines.congr`,
`CqRefines.congr`).
-/

namespace Miring.Stream

open Sys Miring.Ring Dispatch Program

variable {S C : Type} [Squeue.EntryMarker S] [Cqueue.EntryMarker C]

/-! ## Runs of the primitive actions -/

section Actions

variable {results : Nat → List CompletionData} {α β : Type} (s : RingMem S C)

@[simp] theorem run_load_bind (c : Cell) (f : UInt32 → RingProgram S C β) :
    run (ringSem results) (load c >>= f) s = run (ringSem results) (f (s.cells c)) s := rfl

@[simp] theorem run_store_bind (c : Cell) (v : UInt32) (f : Unit → RingProgram S C β) :
    run (ringSem results) (store c v >>= f) s =
      run (ringSem results) (f ()) (s.setCell c v) := rfl

@[simp] theorem run_load (c : Cell) :
    run (ringSem results) (load c) s = some (s.cells c, s) := rfl

@[simp] theorem run_store (c : Cell) (v : UInt32) :
    run (ringSem results) (store c v) s = some ((), s.setCell c v) := rfl

@[simp] theorem run_fetchAdd_bind (c : Cell) (v : UInt32) (f : UInt32 → RingProgram S C β) :
    run (ringSem results) (fetchAdd c v >>= f) s =
      run (ringSem results) (f (s.cells c)) (s.setCell c (s.cells c + v)) := rfl

@[simp] theorem run_fetchOr_bind (c : Cell) (v : UInt32) (f : UInt32 → RingProgram S C β) :
    run (ringSem results) (fetchOr c v >>= f) s =
      run (ringSem results) (f (s.cells c)) (s.setCell c (s.cells c ||| v)) := rfl

@[simp] theorem run_notePost_bind (post : Post) (f : Unit → RingProgram S C β) :
    run (ringSem results) (notePost post >>= f) s =
      run (ringSem results) (f ()) { s with posts := s.posts ++ [post] } := rfl

@[simp] theorem run_spawn_bind (sqes : List IoUringSqe) (f : Nat → RingProgram S C β) :
    run (ringSem results) (spawn sqes >>= f) s =
      run (ringSem results) (f s.threads.length) { s with threads := s.threads ++ [sqes] } := rfl

@[simp] theorem run_pushPending_bind (handle : Nat) (f : Unit → RingProgram S C β) :
    run (ringSem results) (pushPending handle >>= f) s =
      run (ringSem results) (f ()) { s with pending := s.pending ++ [handle] } := rfl

@[simp] theorem run_drainPending_bind (f : List Nat → RingProgram S C β) :
    run (ringSem results) (drainPending >>= f) s =
      run (ringSem results) (f s.pending) { s with pending := [] } := rfl

theorem run_join_bind {handle : Nat} (h : handle < s.threads.length)
    (f : List CompletionData → RingProgram S C β) :
    run (ringSem results) (join handle >>= f) s =
      run (ringSem results) (f (results handle)) s :=
  run_act_of (ringSem_join h)

theorem run_writeSqe_bind {index : Nat} (h : index < s.sqes.length) (entry : S)
    (f : Unit → RingProgram S C β) :
    run (ringSem results) (writeSqe index entry >>= f) s =
      run (ringSem results) (f ()) { s with
        sqes := s.sqes.set index entry
        sqeWrites := s.sqeWrites ++ [entry] } :=
  run_act_of (ringSem_writeSqe h entry)

theorem run_readSqe_bind {index : Nat} {e : S} (h : s.sqes[index]? = some e)
    (f : IoUringSqe → RingProgram S C β) :
    run (ringSem results) (readSqe (index * Squeue.EntryMarker.size S) >>= f) s =
      run (ringSem results) (f (Squeue.EntryMarker.sqe e))
        { s with sqeReads := s.sqeReads ++ [Squeue.EntryMarker.sqe e] } :=
  run_act_of (ringSem_readSqe h)

theorem run_readCqe {index : Nat} {e : C} (h : s.cqes[index]? = some e) :
    run (ringSem results) (readCqe index) s =
      some (e, { s with cqeReads := s.cqeReads ++ [e] }) :=
  run_act_of (ringSem_readCqe h)

theorem run_writeCqe_bind {index : Nat} (h : index < s.cqes.length) (cqe : IoUringCqe)
    (f : Unit → RingProgram S C β) :
    run (ringSem results) (writeCqe (index * Cqueue.EntryMarker.size C) cqe >>= f) s =
      run (ringSem results) (f ()) { s with
        cqes := s.cqes.modify index (Cqueue.EntryMarker.writeCqe cqe)
        cqeWrites := s.cqeWrites ++ [cqe] } :=
  run_act_of (ringSem_writeCqe h cqe)

theorem run_zeroExtra_bind {index : Nat} (h : index < s.cqes.length)
    (hSize : 16 < Cqueue.EntryMarker.size C) (f : Unit → RingProgram S C β) :
    run (ringSem results) (zeroExtra (index * Cqueue.EntryMarker.size C) >>= f) s =
      run (ringSem results) (f ())
        { s with cqes := s.cqes.modify index Cqueue.EntryMarker.zeroExtra } :=
  run_act_of (ringSem_zeroExtra h hSize)

theorem run_map (f : α → β) (p : RingProgram S C α) :
    run (ringSem results) (f <$> p) s =
      (run (ringSem results) p s).map fun q => (f q.1, q.2) := by
  rw [map_eq_pure_bind, run_bind]
  cases run (ringSem results) p s <;> rfl

end Actions

/-! ## Parts of the memory -/

structure SqPart (S : Type) where
  head : UInt32
  tail : UInt32
  localHead : UInt32
  localTail : UInt32
  sqes : List S

structure CqPart (C : Type) where
  head : UInt32
  tail : UInt32
  localHead : UInt32
  localTail : UInt32
  overflow : UInt32
  sqFlags : UInt32
  cqes : List C
  posts : List Post

/-- The dispatch threads, and the two cells that no operation writes. -/
structure ThreadPart where
  threads : List (List IoUringSqe)
  pending : List Nat
  dropped : UInt32
  cqFlags : UInt32

section Parts

omit [Squeue.EntryMarker S] [Cqueue.EntryMarker C]

def sqPart (s : RingMem S C) : SqPart S :=
  ⟨s.cells .sqHead, s.cells .sqTail, s.cells .sqLocalHead, s.cells .sqLocalTail, s.sqes⟩

def cqPart (s : RingMem S C) : CqPart C :=
  ⟨s.cells .cqHead, s.cells .cqTail, s.cells .cqLocalHead, s.cells .cqLocalTail,
    s.cells .cqOverflow, s.cells .sqFlags, s.cqes, s.posts⟩

def threadPart (s : RingMem S C) : ThreadPart :=
  ⟨s.threads, s.pending, s.cells .sqDropped, s.cells .cqFlags⟩

/-- A step of the queue of requests. -/
def OnlySq (s s' : RingMem S C) : Prop := cqPart s' = cqPart s ∧ threadPart s' = threadPart s

/-- A step of the queue of completions. -/
def OnlyCq (s s' : RingMem S C) : Prop := sqPart s' = sqPart s ∧ threadPart s' = threadPart s

theorem OnlySq.refl (s : RingMem S C) : OnlySq s s := ⟨rfl, rfl⟩

theorem OnlySq.trans {s s' s'' : RingMem S C} (h : OnlySq s s') (h' : OnlySq s' s'') :
    OnlySq s s'' :=
  ⟨h'.1.trans h.1, h'.2.trans h.2⟩

theorem OnlyCq.refl (s : RingMem S C) : OnlyCq s s := ⟨rfl, rfl⟩

theorem OnlyCq.trans {s s' s'' : RingMem S C} (h : OnlyCq s s') (h' : OnlyCq s' s'') :
    OnlyCq s s'' :=
  ⟨h'.1.trans h.1, h'.2.trans h.2⟩

end Parts

/-! ## Refinement -/

section Refines

omit [Squeue.EntryMarker S]

/-- The queue of requests of a ring stands for `q`. -/
structure SqRefines (ring : IoUring S C) (s : RingMem S C)
    (q : SqLedger S (Squeue.capacity ring.sq)) : Prop where
  head : s.cells .sqHead = UInt32.ofNat q.consumed
  tail : s.cells .sqTail = UInt32.ofNat q.published
  localHead : s.cells .sqLocalHead = UInt32.ofNat q.seen
  localTail : s.cells .sqLocalTail = UInt32.ofNat q.accepted.length
  length : s.sqes.length = Squeue.capacity ring.sq
  holds : Holds s.sqes ring.sq.ringMask q.accepted q.consumed

/-- The indices a post found leave room for another entry. -/
def Post.hasRoom (ring : IoUring S C) (post : Post) : Bool :=
  decide (post.cqTail - post.cqHead < ring.cq.ringEntries)

/-- The flags of the submission ring once `refused` completions had no room. -/
def overflowFlags (refused : Nat) : UInt32 := if refused = 0 then 0 else ioringSqCqOverflow

/-- The queue of completions of a ring stands for `q`. -/
structure CqRefines (ring : IoUring S C) (s : RingMem S C)
    (q : CqLedger IoUringCqe (Cqueue.capacity ring.cq)) : Prop where
  head : s.cells .cqHead = UInt32.ofNat q.released
  tail : s.cells .cqTail = UInt32.ofNat q.posted.length
  localHead : s.cells .cqLocalHead = UInt32.ofNat q.delivered
  localTail : s.cells .cqLocalTail = UInt32.ofNat q.seen
  overflow : s.cells .cqOverflow = UInt32.ofNat q.refused
  sqFlags : s.cells .sqFlags = overflowFlags q.refused
  length : s.cqes.length = Cqueue.capacity ring.cq
  holds : Holds (s.cqes.map Cqueue.EntryMarker.cqe) ring.cq.ringMask q.posted q.delivered
  posts : s.posts.map (fun post => (post.cqe, Post.hasRoom ring post)) = q.attempts

omit [Cqueue.EntryMarker C] in
theorem SqRefines.congr {ring : IoUring S C} {s s' : RingMem S C}
    {q : SqLedger S (Squeue.capacity ring.sq)} (h : SqRefines ring s q)
    (hp : sqPart s' = sqPart s) : SqRefines ring s' q := by
  simp only [sqPart, SqPart.mk.injEq] at hp
  obtain ⟨hHead, hTail, hLocalHead, hLocalTail, hSqes⟩ := hp
  exact ⟨hHead.trans h.head, hTail.trans h.tail, hLocalHead.trans h.localHead,
    hLocalTail.trans h.localTail, hSqes ▸ h.length, hSqes ▸ h.holds⟩

theorem CqRefines.congr {ring : IoUring S C} {s s' : RingMem S C}
    {q : CqLedger IoUringCqe (Cqueue.capacity ring.cq)} (h : CqRefines ring s q)
    (hp : cqPart s' = cqPart s) : CqRefines ring s' q := by
  simp only [cqPart, CqPart.mk.injEq] at hp
  obtain ⟨hHead, hTail, hLocalHead, hLocalTail, hOverflow, hFlags, hCqes, hPosts⟩ := hp
  exact ⟨hHead.trans h.head, hTail.trans h.tail, hLocalHead.trans h.localHead,
    hLocalTail.trans h.localTail, hOverflow.trans h.overflow, hFlags.trans h.sqFlags,
    hCqes ▸ h.length, hCqes ▸ h.holds, hPosts ▸ h.posts⟩

end Refines

/-- The pipeline a ring with these sizes stands for. -/
abbrev RingLedger (ring : IoUring S C) :=
  Ledger S IoUringCqe (Squeue.capacity ring.sq) (Cqueue.capacity ring.cq)

structure Refines (ring : IoUring S C) (s : RingMem S C) (l : RingLedger ring) : Prop where
  sq : SqRefines ring s l.sq
  cq : CqRefines ring s l.cq
  threads : s.threads = l.batches.map (List.map Squeue.EntryMarker.sqe)
  pending : s.pending = l.pending
  dropped : s.cells .sqDropped = 0
  cqFlags : s.cells .cqFlags = 0

section Frame

variable {ring : IoUring S C} {s s' : RingMem S C} {l : RingLedger ring}

/-- An operation on the queue of requests that does not consume. -/
theorem Refines.onlySq (h : Refines ring s l) (hOnly : OnlySq s s')
    {sq : SqLedger S (Squeue.capacity ring.sq)} (hSq : SqRefines ring s' sq)
    (hAccepted : l.sq.accepted <+: sq.accepted) (hConsumed : sq.consumed = l.sq.consumed) :
    Refines ring s' (l.withSq sq hAccepted hConsumed) where
  sq := hSq
  cq := h.cq.congr hOnly.1
  threads := (congrArg ThreadPart.threads hOnly.2).trans h.threads
  pending := (congrArg ThreadPart.pending hOnly.2).trans h.pending
  dropped := (congrArg ThreadPart.dropped hOnly.2).trans h.dropped
  cqFlags := (congrArg ThreadPart.cqFlags hOnly.2).trans h.cqFlags

/-- An operation on the queue of completions. -/
theorem Refines.onlyCq (h : Refines ring s l) (hOnly : OnlyCq s s')
    {cq : CqLedger IoUringCqe (Cqueue.capacity ring.cq)} (hCq : CqRefines ring s' cq) :
    Refines ring s' (l.withCq cq) where
  sq := h.sq.congr hOnly.1
  cq := hCq
  threads := (congrArg ThreadPart.threads hOnly.2).trans h.threads
  pending := (congrArg ThreadPart.pending hOnly.2).trans h.pending
  dropped := (congrArg ThreadPart.dropped hOnly.2).trans h.dropped
  cqFlags := (congrArg ThreadPart.cqFlags hOnly.2).trans h.cqFlags

end Frame

end Miring.Stream
