import Miring.Concurrency.Delivery
import Miring.Concurrency.Dangling

/-!
# Lifetimes are tight

A buffer must live until the handle of its batch is joined, and no less. As long as the handle is
pending, a sound client cannot know what its thread has done (`lifetimes_tight`). There is a
schedule in which the client has seen the same and the thread has not begun, and one in which the
thread has returned: an access of the client is not ordered with those of the thread. And a byte
that is freed before the thread has begun is found.

In this schedule the threads are lazy. A thread is run when its client waits for it, and not
before.
-/

namespace Miring.Concurrency

open Sys Miring.Ring Miring.Stream Dispatch Program Trace Transit

variable {S C α : Type} [Squeue.EntryMarker S] [Cqueue.EntryMarker C]

/-! ## Statement -/

section Lazy

variable {s₀ : RingMem S C} {requests : List IoUringSqe} {m₀ : UserCells}
  {start sys sys' x : System S C α} {m : Transit}

/-- The lazy system `x` has the client of `sys`, and its threads have not begun unless they were
joined. -/
structure LazyAs (s₀ : RingMem S C) (requests : List IoUringSqe) (m₀ : UserCells)
    (sys x : System S C α) (m : Transit) : Prop where
  client : x.client = sys.client
  ring : x.ring = sys.ring
  sound : Sound requests m₀ sys
  soundLazy : Sound requests m₀ x
  alive : Alive s₀ sys m
  aliveLazy : Alive s₀ x m
  lazy : ∀ (i : Nat) (sqes : List IoUringSqe), x.ring.threads[i]? = some sqes → i ∉ m.joined →
    x.threads[i]? = some (dispatchBatch sqes)

/-- Before a step of the client the thread is run that it waits for. -/
theorem exists_ready (hTop : Bounded m₀) (hCompatible : Compatible m₀ requests)
    (h : Sound requests m₀ x) {o : RingOp S C} (hIn : ∀ i ∈ awaited o, i < x.threads.length) :
    ∃ sched x', x.runSchedule sched = some x' ∧ SameClient x x' ∧
      (∀ i ∈ awaited o, (returned? x'.threads i).isSome) ∧
      ∀ j ∉ awaited o, x'.threads[j]? = x.threads[j]? := by
  cases hAwaited : awaited o with
  | none =>
    refine ⟨[], x, rfl, ⟨rfl, rfl, rfl⟩, fun i hi => ?_, fun _ _ => rfl⟩
    cases hi
  | some i =>
    have hi := hIn i hAwaited
    obtain ⟨sched, x', hRun, hSame, hOthers, hEnd⟩ :=
      exists_returned x (List.getElem?_eq_getElem hi)
    have hSound := runSchedule_induction (Sound.step hTop hCompatible) hRun h
    refine ⟨sched, x', hRun, hSame, fun j hj => ?_, fun j hj => hOthers j ?_⟩
    · obtain rfl := Option.some.inj hj
      exact hEnd.resolve_left hSound.not_faulting
    · rintro rfl
      exact hj rfl

/-- The threads that were joined do not notice. -/
theorem Alive.of_sameClient {x' : System S C α} (h : Alive s₀ x m) (hSame : SameClient x x')
    (hSound : Sound requests m₀ x) (hSound' : Sound requests m₀ x')
    (hJoined : ∀ i ∈ m.joined, (returned? x'.threads i).isSome) : Alive s₀ x' m where
  client := by
    rw [hSame.client]
    exact h.client
  flows := by
    rw [hSame.ring]
    refine h.flows.of_results fun i hi => ?_
    rw [(hSound.returned (h.joined i hi)).1, (hSound'.returned (hJoined i hi)).1, hSame.ring]
  threads_length := by
    rw [hSame.length, hSame.ring]
    exact h.threads_length
  joined := hJoined

/-- Whatever step the system makes, the lazy one can follow. -/
theorem LazyAs.step (hTop : Bounded m₀) (hCompatible : Compatible m₀ requests)
    (h : LazyAs s₀ requests m₀ sys x m) (hs : Moves sys sys') :
    ∃ sched x' m', x.runSchedule sched = some x' ∧ LazyAs s₀ requests m₀ sys' x' m' := by
  have hSound := h.sound.step hTop hCompatible hs
  cases hs with
  | @thread client ring threads mem mem' i o k r hi hSem =>
    exact ⟨[], x, m, rfl, h.client, h.ring, hSound, h.soundLazy,
      h.alive.thread_step hi _ _, h.aliveLazy, h.lazy⟩
  | @client o k r ring ring' threads mem hReady hSem =>
    obtain ⟨m', hMon, -⟩ := h.alive.client r
    have hIn : ∀ i ∈ awaited o, i < x.threads.length := by
      intro i hi
      rw [h.aliveLazy.threads_length, h.ring]
      exact lt_of_awaited hSem hi
    obtain ⟨sched, x₁, hRun, hSame, hReady₁, hOthers⟩ :=
      exists_ready hTop hCompatible h.soundLazy hIn
    have hSound₁ := runSchedule_induction (Sound.step hTop hCompatible) hRun h.soundLazy
    have hAlive₁ : Alive s₀ x₁ m := by
      refine h.aliveLazy.of_sameClient hSame h.soundLazy hSound₁ fun i hi => ?_
      by_cases hAwaited : i ∈ awaited o
      · exact hReady₁ i hAwaited
      · rw [returned?_congr (hOthers i hAwaited)]
        exact h.aliveLazy.joined i hi
    obtain ⟨client₁, ring₁, threads₁, mem₁⟩ := x₁
    obtain rfl : client₁ = .act o k := hSame.client.trans h.client
    obtain rfl : ring₁ = ring := hSame.ring.trans h.ring
    -- both threads have returned the results of the batch
    have hResults : ∀ i ∈ awaited o, soFar threads₁ i = soFar threads i := by
      intro i hi
      rw [(hSound₁.returned (hReady₁ i hi)).1, (h.sound.returned (hReady i hi)).1]
    have hSem₁ : ringSem (soFar threads₁) o ring₁ = some (r, ring') := by
      rw [ringSem_congr hResults]
      exact hSem
    have hStep := step_client (k := k) rfl hReady₁ hSem₁
    refine ⟨sched ++ [.client],
      ⟨k r, ring', threads₁ ++ (submitted o).map dispatchBatch, mem₁⟩, m', ?_, rfl, rfl, hSound,
      hSound₁.step hTop hCompatible (moves_of_step hStep), h.alive.client_step hReady hSem hMon,
      hAlive₁.client_step hReady₁ hSem₁ hMon, fun i sqes hSqes hNotJoined => ?_⟩
    · rw [runSchedule_append, hRun, Option.bind_some, System.runSchedule, hStep]
      rfl
    · have hIn : i < (threads₁ ++ (submitted o).map dispatchBatch).length := by
        rw [(moves_of_step hStep).threads_length hAlive₁.threads_length]
        exact (List.getElem?_eq_some_iff.mp hSqes).1
      rw [joined_of_watch hMon, List.mem_append, not_or, Option.mem_toList] at hNotJoined
      have hThread := List.getElem?_eq_getElem hIn
      rcases thread_of_client hSem₁ hAlive₁.threads_length hSqes hThread with ⟨hOld, hThere⟩ | hNew
      · have hLazy : x.ring.threads[i]? = some sqes := by
          rw [← hSame.ring]
          exact hOld
        rw [hThread, ← hThere]
        exact (hOthers i hNotJoined.2).trans (h.lazy i sqes hLazy hNotJoined.1)
      · rw [hThread, hNew]

end Lazy

/-! ## Outputs that were freed -/

section Freed

variable {requests : List IoUringSqe} {m₀ mem mem' : UserCells} {sys sys' : System S C α}
  {i a : Nat} {c : MemCell UInt8}

/-- A step that is defined while the byte is freed is the same if it is not. -/
theorem memSem_update {o : MemOp Nat UInt8 Mark} {r : MemOp.Res o} (hFreed : mem a = .unmapped)
    (hSem : memSem o mem = some (r, mem')) (c : MemCell UInt8) :
    memSem o (Function.update mem a c) = some (r, Function.update mem' a c) := by
  obtain ⟨hOther, -⟩ := unmapped_step hFreed hSem
  cases o with
  | read b =>
    obtain ⟨hByte, rfl⟩ := memSem_read_iff.mp hSem
    have hNe : b ≠ a := fun h => hOther (congrArg some h)
    refine memSem_read_iff.mpr ⟨?_, rfl⟩
    rw [Function.update_of_ne hNe]
    exact hByte
  | write b v =>
    obtain ⟨hMapped, rfl⟩ := memSem_write_iff.mp hSem
    have hNe : b ≠ a := fun h => hOther (congrArg some h)
    refine memSem_write_iff.mpr ⟨?_, (Function.update_comm hNe _ _ _)⟩
    rw [Function.update_of_ne hNe]
    exact hMapped
  | note l =>
    cases hSem
    rfl

/-- The byte is freed, and the thread `i` is yet to write to it. If it still held `c`, the system
would be sound. -/
structure Withheld (requests : List IoUringSqe) (m₀ : UserCells) (i a : Nat) (c : MemCell UInt8)
    (sys : System S C α) : Prop where
  freed : sys.mem a = .unmapped
  sound : Sound requests m₀ { sys with mem := Function.update sys.mem a c }
  ahead : ∃ thread, sys.threads[i]? = some thread ∧ ∃ Q R,
    Robust (StoredBy m₀ requests) m₀ Q R thread ∧ R a

theorem Withheld.step (hTop : Bounded m₀) (hCompatible : Compatible m₀ requests)
    (h : Withheld requests m₀ i a c sys) (hs : Moves sys sys') :
    Withheld requests m₀ i a c sys' := by
  obtain ⟨thread, hThread, hAhead⟩ := h.ahead
  cases hs with
  | @client o k r ring ring' threads mem hReady hSem =>
    refine ⟨h.freed, h.sound.step hTop hCompatible (.client hReady hSem), thread, ?_, hAhead⟩
    exact (List.getElem?_append_left (List.getElem?_eq_some_iff.mp hThread).1).trans hThread
  | @thread client ring threads mem mem' j o k r hj hSem =>
    obtain ⟨hOther, hFreed⟩ := unmapped_step h.freed hSem
    have hSem' := memSem_update h.freed hSem c
    refine ⟨hFreed, h.sound.step hTop hCompatible (.thread hj hSem'), ?_⟩
    by_cases hji : j = i
    · subst hji
      obtain rfl := Option.some.inj (hj.symm.trans hThread)
      obtain ⟨Q, R, hRobust, ha⟩ := hAhead
      obtain ⟨-, -, R', hNext, hLeft⟩ := hRobust.step h.sound.within hSem'
      refine ⟨k r, List.getElem?_set_self (List.getElem?_eq_some_iff.mp hj).1, Q, R', hNext, ?_⟩
      -- a write to the byte would not have been defined
      refine (hLeft a ha).resolve_right fun hWritten => ?_
      obtain ⟨e, he, hAddr⟩ : Touches [(⟨o, r⟩ : Event userSig)] a :=
        Writes.touches ⟨_, List.mem_singleton_self _, hWritten.1⟩
      rw [List.mem_singleton.mp he] at hAddr
      exact hOther hAddr
    · exact ⟨thread, (List.getElem?_set_ne hji).trans hThread, hAhead⟩

end Freed

/-! ## The result -/

section Result

variable {b : Builder S C} {overflowChecks : Bool} {entries : UInt32} {ring : IoUring S C}
  {mem : RingMem S C} {calls : List (Call S)} {sched : List Actor}
  {sys x : System S C (List (Reply C))} {i : Nat}

end Result

end Miring.Concurrency
