import Miring.Dispatch.Batch
import Miring.Program.Interleave

/-!
# The memory of a ring

`RingState` and `RingMemory` of `lib.rs` as one state, and the primitive actions on it: a
load, a store or a read-modify-write of one `u32`, an access to one slot, and the operations
on the dispatch threads and the queue of their handles.

The local copies of the indices that a `SubmissionQueue` or a `CompletionQueue` keeps are
cells of the same state. Only the owner of the handle accesses them.

A dispatch thread is known by its number in the order of spawning. What it returns does not
depend on the ring, so the semantics takes it as a parameter.
-/

namespace Miring

open Sys Dispatch Program

/-- The `u32` variables of a ring and of its two queue handles. -/
inductive Cell where
  | sqHead
  | sqTail
  | sqFlags
  | sqDropped
  | cqHead
  | cqTail
  | cqOverflow
  | cqFlags
  /-- `SubmissionQueue::head` -/
  | sqLocalHead
  /-- `SubmissionQueue::tail` -/
  | sqLocalTail
  /-- `CompletionQueue::head` -/
  | cqLocalHead
  /-- `CompletionQueue::tail` -/
  | cqLocalTail
  deriving DecidableEq

/-- A completion that `post_cqe` was called for, with the indices it found. -/
structure Post where
  cqe : IoUringCqe
  cqTail : UInt32
  cqHead : UInt32
  deriving DecidableEq

inductive RingOp (S C : Type) where
  | load (c : Cell)
  | store (c : Cell) (v : UInt32)
  | fetchAdd (c : Cell) (v : UInt32)
  | fetchOr (c : Cell) (v : UInt32)
  /-- `ptr::read` of an `io_uring_sqe` at a byte offset of the SQE array -/
  | readSqe (offset : Nat)
  | writeSqe (index : Nat) (entry : S)
  | readCqe (index : Nat)
  /-- `ptr::write` of an `io_uring_cqe` at a byte offset of the CQE array -/
  | writeCqe (offset : Nat) (cqe : IoUringCqe)
  /-- `ptr::write` of two zeros behind the `io_uring_cqe` at a byte offset -/
  | zeroExtra (offset : Nat)
  | spawn (sqes : List IoUringSqe)
  | pushPending (handle : Nat)
  | drainPending
  | join (handle : Nat)
  /-- a check of the overflow of an arithmetic operation has failed -/
  | overflowPanic
  /-- history only -/
  | notePost (post : Post)

abbrev RingOp.Res {S C : Type} : RingOp S C → Type
  | .load _ => UInt32
  | .store _ _ => Unit
  | .fetchAdd _ _ => UInt32
  | .fetchOr _ _ => UInt32
  | .readSqe _ => IoUringSqe
  | .writeSqe _ _ => Unit
  | .readCqe _ => C
  | .writeCqe _ _ => Unit
  | .zeroExtra _ => Unit
  | .spawn _ => Nat
  | .pushPending _ => Unit
  | .drainPending => List Nat
  | .join _ => List CompletionData
  | .overflowPanic => Empty
  | .notePost _ => Unit

abbrev ringSig (S C : Type) : Signature := ⟨RingOp S C, RingOp.Res⟩

abbrev RingProgram (S C α : Type) := Program (ringSig S C) α

structure RingMem (S C : Type) where
  cells : Cell → UInt32
  sqes : List S
  cqes : List C
  /-- the batches of the dispatch threads spawned so far -/
  threads : List (List IoUringSqe)
  /-- the handles of the threads that were not joined -/
  pending : List Nat
  /-- history: the entries written to SQ slots, and those read from them -/
  sqeWrites : List S
  sqeReads : List IoUringSqe
  /-- history: the calls of `post_cqe`, the CQEs written to slots, and those read -/
  posts : List Post
  cqeWrites : List IoUringCqe
  cqeReads : List C

namespace RingMem

variable {S C : Type}

def setCell (s : RingMem S C) (c : Cell) (v : UInt32) : RingMem S C :=
  { s with cells := Function.update s.cells c v }

@[simp] theorem setCell_cells_self (s : RingMem S C) (c : Cell) (v : UInt32) :
    (s.setCell c v).cells c = v := by
  simp [setCell]

@[simp] theorem setCell_cells_of_ne (s : RingMem S C) {c c' : Cell} (v : UInt32) (h : c' ≠ c) :
    (s.setCell c v).cells c' = s.cells c' := by
  simp [setCell, h]

@[simp] theorem setCell_sqes (s : RingMem S C) (c : Cell) (v : UInt32) :
    (s.setCell c v).sqes = s.sqes := rfl

@[simp] theorem setCell_cqes (s : RingMem S C) (c : Cell) (v : UInt32) :
    (s.setCell c v).cqes = s.cqes := rfl

@[simp] theorem setCell_threads (s : RingMem S C) (c : Cell) (v : UInt32) :
    (s.setCell c v).threads = s.threads := rfl

@[simp] theorem setCell_pending (s : RingMem S C) (c : Cell) (v : UInt32) :
    (s.setCell c v).pending = s.pending := rfl

@[simp] theorem setCell_sqeWrites (s : RingMem S C) (c : Cell) (v : UInt32) :
    (s.setCell c v).sqeWrites = s.sqeWrites := rfl

@[simp] theorem setCell_sqeReads (s : RingMem S C) (c : Cell) (v : UInt32) :
    (s.setCell c v).sqeReads = s.sqeReads := rfl

@[simp] theorem setCell_posts (s : RingMem S C) (c : Cell) (v : UInt32) :
    (s.setCell c v).posts = s.posts := rfl

@[simp] theorem setCell_cqeWrites (s : RingMem S C) (c : Cell) (v : UInt32) :
    (s.setCell c v).cqeWrites = s.cqeWrites := rfl

@[simp] theorem setCell_cqeReads (s : RingMem S C) (c : Cell) (v : UInt32) :
    (s.setCell c v).cqeReads = s.cqeReads := rfl

end RingMem

section Sem

variable {S C : Type} [Squeue.EntryMarker S] [Cqueue.EntryMarker C]

/-- The slot of an array of `n` elements of `size` bytes that starts at a byte offset. -/
def slotAt (size n offset : Nat) : Option Nat :=
  if offset % size = 0 ∧ offset / size < n then some (offset / size) else none

theorem slotAt_mul {size n i : Nat} (hSize : 0 < size) (hi : i < n) :
    slotAt size n (i * size) = some i := by
  simp [slotAt, Nat.mul_div_cancel _ hSize, hi]

theorem slotAt_mul_of_le {size n i : Nat} (hSize : 0 < size) (hi : n ≤ i) :
    slotAt size n (i * size) = none := by
  simp [slotAt, Nat.mul_div_cancel _ hSize, hi]

/-- The effect of an action; `results i` is what dispatch thread `i` returns. -/
def ringSem (results : Nat → List CompletionData) : Semantics (ringSig S C) (RingMem S C)
  | .load c, s => some (s.cells c, s)
  | .store c v, s => some ((), s.setCell c v)
  | .fetchAdd c v, s => some (s.cells c, s.setCell c (s.cells c + v))
  | .fetchOr c v, s => some (s.cells c, s.setCell c (s.cells c ||| v))
  | .readSqe offset, s =>
      ((slotAt (Squeue.EntryMarker.size S) s.sqes.length offset).bind fun i => s.sqes[i]?).map
        fun e =>
          let sqe := Squeue.EntryMarker.sqe e
          (sqe, { s with sqeReads := s.sqeReads ++ [sqe] })
  | .writeSqe index entry, s =>
      if index < s.sqes.length then
        some ((), { s with
          sqes := s.sqes.set index entry
          sqeWrites := s.sqeWrites ++ [entry] })
      else none
  | .readCqe index, s =>
      s.cqes[index]?.map fun e => (e, { s with cqeReads := s.cqeReads ++ [e] })
  | .writeCqe offset cqe, s =>
      (slotAt (Cqueue.EntryMarker.size C) s.cqes.length offset).map fun i =>
        ((), { s with
          cqes := s.cqes.modify i (Cqueue.EntryMarker.writeCqe cqe)
          cqeWrites := s.cqeWrites ++ [cqe] })
  | .zeroExtra offset, s =>
      -- the entry must be larger than an `io_uring_cqe`
      if 16 < Cqueue.EntryMarker.size C then
        (slotAt (Cqueue.EntryMarker.size C) s.cqes.length offset).map fun i =>
          ((), { s with cqes := s.cqes.modify i Cqueue.EntryMarker.zeroExtra })
      else none
  | .spawn sqes, s => some (s.threads.length, { s with threads := s.threads ++ [sqes] })
  | .pushPending handle, s => some ((), { s with pending := s.pending ++ [handle] })
  | .drainPending, s => some (s.pending, { s with pending := [] })
  | .join handle, s => if handle < s.threads.length then some (results handle, s) else none
  | .overflowPanic, _ => none
  | .notePost post, s => some ((), { s with posts := s.posts ++ [post] })

section Accesses

variable {results : Nat → List CompletionData} {s : RingMem S C}

/-- An action starts at most one thread and records at most one post. -/
theorem ringSem_frame {o : RingOp S C} {s' : RingMem S C} {r : RingOp.Res o}
    (h : ringSem results o s = some (r, s')) :
    s'.threads = (match o with
      | .spawn sqes => s.threads ++ [sqes]
      | _ => s.threads) ∧
    s'.posts = (match o with
      | .notePost post => s.posts ++ [post]
      | _ => s.posts) := by
  cases o with
  | load c | store c v | fetchAdd c v | fetchOr c v | spawn sqes | pushPending handle
  | drainPending | notePost post =>
    obtain ⟨-, rfl⟩ := Prod.mk.inj (Option.some.inj h)
    exact ⟨rfl, rfl⟩
  | overflowPanic => cases h
  | readSqe offset | readCqe index | writeCqe offset cqe =>
    obtain ⟨x, -, hEnd⟩ := Option.map_eq_some_iff.mp h
    obtain ⟨-, rfl⟩ := Prod.mk.inj hEnd
    exact ⟨rfl, rfl⟩
  | writeSqe index entry | join handle =>
    rw [ringSem] at h
    split at h
    · obtain ⟨-, rfl⟩ := Prod.mk.inj (Option.some.inj h)
      exact ⟨rfl, rfl⟩
    · cases h
  | zeroExtra offset =>
    rw [ringSem] at h
    split at h
    · obtain ⟨i, -, hEnd⟩ := Option.map_eq_some_iff.mp h
      obtain ⟨-, rfl⟩ := Prod.mk.inj hEnd
      exact ⟨rfl, rfl⟩
    · cases h

theorem ringSem_readSqe {i : Nat} {e : S} (h : s.sqes[i]? = some e) :
    ringSem results (.readSqe (i * Squeue.EntryMarker.size S)) s =
      some (Squeue.EntryMarker.sqe e,
        { s with sqeReads := s.sqeReads ++ [Squeue.EntryMarker.sqe e] }) := by
  have hIndex := (List.getElem?_eq_some_iff.mp h).1
  rw [ringSem, slotAt_mul Squeue.EntryMarker.size_pos hIndex, Option.bind_some, h]
  rfl

theorem ringSem_writeSqe {i : Nat} (h : i < s.sqes.length) (entry : S) :
    ringSem results (.writeSqe i entry) s =
      some ((), { s with sqes := s.sqes.set i entry, sqeWrites := s.sqeWrites ++ [entry] }) := by
  rw [ringSem, if_pos h]

theorem ringSem_readCqe {i : Nat} {e : C} (h : s.cqes[i]? = some e) :
    ringSem results (.readCqe i) s = some (e, { s with cqeReads := s.cqeReads ++ [e] }) := by
  rw [ringSem, h]
  rfl

theorem ringSem_writeCqe {i : Nat} (h : i < s.cqes.length) (cqe : IoUringCqe) :
    ringSem results (.writeCqe (i * Cqueue.EntryMarker.size C) cqe) s =
      some ((), { s with
        cqes := s.cqes.modify i (Cqueue.EntryMarker.writeCqe cqe)
        cqeWrites := s.cqeWrites ++ [cqe] }) := by
  rw [ringSem, slotAt_mul Cqueue.EntryMarker.size_pos h]
  rfl

theorem ringSem_zeroExtra {i : Nat} (h : i < s.cqes.length)
    (hSize : 16 < Cqueue.EntryMarker.size C) :
    ringSem results (.zeroExtra (i * Cqueue.EntryMarker.size C)) s =
      some ((), { s with cqes := s.cqes.modify i Cqueue.EntryMarker.zeroExtra }) := by
  rw [ringSem, if_pos hSize, slotAt_mul Cqueue.EntryMarker.size_pos h]
  rfl

theorem ringSem_join {handle : Nat} (h : handle < s.threads.length) :
    ringSem results (.join handle) s = some (results handle, s) := by
  rw [ringSem, if_pos h]

end Accesses

end Sem

/-! ## Actions as programs -/

variable {S C : Type}

def load (c : Cell) : RingProgram S C UInt32 := .act (.load c) .ret

def store (c : Cell) (v : UInt32) : RingProgram S C Unit := .act (.store c v) .ret

def fetchAdd (c : Cell) (v : UInt32) : RingProgram S C UInt32 := .act (.fetchAdd c v) .ret

def fetchOr (c : Cell) (v : UInt32) : RingProgram S C UInt32 := .act (.fetchOr c v) .ret

def readSqe (offset : Nat) : RingProgram S C IoUringSqe := .act (.readSqe offset) .ret

def writeSqe (index : Nat) (entry : S) : RingProgram S C Unit := .act (.writeSqe index entry) .ret

def readCqe (index : Nat) : RingProgram S C C := .act (.readCqe index) .ret

def writeCqe (offset : Nat) (cqe : IoUringCqe) : RingProgram S C Unit :=
  .act (.writeCqe offset cqe) .ret

def zeroExtra (offset : Nat) : RingProgram S C Unit := .act (.zeroExtra offset) .ret

def spawn (sqes : List IoUringSqe) : RingProgram S C Nat := .act (.spawn sqes) .ret

def pushPending (handle : Nat) : RingProgram S C Unit := .act (.pushPending handle) .ret

def drainPending : RingProgram S C (List Nat) := .act .drainPending .ret

def join (handle : Nat) : RingProgram S C (List CompletionData) := .act (.join handle) .ret

def overflowPanic {α : Type} : RingProgram S C α := .act .overflowPanic nofun

def notePost (post : Post) : RingProgram S C Unit := .act (.notePost post) .ret

end Miring
