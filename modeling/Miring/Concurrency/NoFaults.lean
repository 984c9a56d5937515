import Miring.Dispatch.Shared
import Miring.Concurrency.Lifetime

/-!
# Sound clients

A client is sound if its user memory is fit for all the requests that it pushes together
(`Compatible`). Then no dispatch thread ever faults, in no schedule: not while other batches
write to the same buffers, and not when the client is late to join them. The references that the
requests make stay sound as well, aligned and mapped as a whole (`never_faults`). So what the
dispatch threads find wrong is wrong in the requests.
-/

namespace Miring.Concurrency

open Sys Miring.Ring Miring.Stream Dispatch Program

variable {S C α : Type} [Squeue.EntryMarker S] [Cqueue.EntryMarker C]

/-! ## Threads that share the user memory -/

section Sound

variable {requests : List IoUringSqe} {m₀ : UserCells} {sys sys' : System S C α}

/-- A run only adds threads. -/
theorem prefix_threads {results : Nat → List CompletionData} {p : RingProgram S C α}
    {s s' : RingMem S C} {a : α} (hRun : run (ringSem results) p s = some (a, s')) :
    s.threads <+: s'.threads := by
  induction p generalizing s with
  | ret b =>
    obtain ⟨-, rfl⟩ := Prod.mk.inj (Option.some.inj hRun)
    exact List.prefix_rfl
  | act o k ih =>
    rw [run_act] at hRun
    obtain ⟨⟨r, s₁⟩, hSem, hRest⟩ := Option.bind_eq_some_iff.mp hRun
    apply List.IsPrefix.trans _ (ih r hRest)
    rw [ringSem_threads hSem]
    exact List.prefix_append _ _

/-- The batches are made of the requests, also now. -/
theorem Unblocked.mem_requests
    (h : Unblocked (fun s => ∀ sqes ∈ s.threads, ∀ sqe ∈ sqes, sqe ∈ requests) sys) {i : Nat}
    {sqes : List IoUringSqe} (hSqes : sys.ring.threads[i]? = some sqes) :
    ∀ sqe ∈ sqes, sqe ∈ requests := by
  -- they are still there when the client is done
  obtain ⟨a, s', hRun, hRequests⟩ := h.ends _ fun _ _ => rfl
  exact hRequests sqes ((prefix_threads hRun).subset (List.mem_of_getElem? hSqes))

/-- A thread that will return the results of its batch, and then its requests have written to
their outputs. -/
def OnItsWay (requests : List IoUringSqe) (m₀ mem : UserCells) (sqes : List IoUringSqe)
    (thread : DispatchThread) : Prop :=
  ∃ R, Robust (StoredBy m₀ requests) m₀
      (fun results => results = outcomes (resultOf m₀) false sqes) R thread ∧
    ∀ sqe ∈ uncancelled (resultOf m₀) false sqes, ∀ a, Delivers m₀ sqe a →
      R a ∨ Overwritten (StoredBy m₀ requests) mem a

/-- All threads are robust, also those that are to be started. -/
structure Sound (requests : List IoUringSqe) (m₀ : UserCells) (sys : System S C α) : Prop where
  unblocked : Unblocked (fun s => ∀ sqes ∈ s.threads, ∀ sqe ∈ sqes, sqe ∈ requests) sys
  within : Within (StoredBy m₀ requests) m₀ sys.mem
  onItsWay : ∀ (i : Nat) (sqes : List IoUringSqe) (thread : DispatchThread),
    sys.ring.threads[i]? = some sqes → sys.threads[i]? = some thread →
      OnItsWay requests m₀ sys.mem sqes thread

theorem Sound.batch (h : Sound requests m₀ sys) {i : Nat} {thread : DispatchThread}
    (hi : sys.threads[i]? = some thread) :
    ∃ sqes, sys.ring.threads[i]? = some sqes ∧ OnItsWay requests m₀ sys.mem sqes thread := by
  have hlt := (List.getElem?_eq_some_iff.mp hi).1
  rw [h.unblocked.threads_length] at hlt
  have hSqes := List.getElem?_eq_getElem hlt
  exact ⟨_, hSqes, h.onItsWay i _ thread hSqes hi⟩

section OnItsWay

variable {mem mem' : UserCells} {sqes : List IoUringSqe}

/-- A step of another thread. -/
theorem OnItsWay.other {thread : DispatchThread} (h : OnItsWay requests m₀ mem sqes thread)
    (hCells : ∀ a, mem' a = mem a ∨ Overwritten (StoredBy m₀ requests) mem' a) :
    OnItsWay requests m₀ mem' sqes thread := by
  rcases h with ⟨R, hRobust, hRest⟩
  refine ⟨R, hRobust, fun sqe hMem a ha => ?_⟩
  exact (hRest sqe hMem a ha).imp_right fun hDone => hDone.keep (hCells a)

/-- A step of its own. -/
theorem OnItsWay.step {o : MemOp Nat UInt8 Mark} {k : MemOp.Res o → DispatchThread}
    {r : MemOp.Res o} (h : OnItsWay requests m₀ mem sqes (.act o k))
    (hWithin : Within (StoredBy m₀ requests) m₀ mem) (hSem : memSem o mem = some (r, mem')) :
    Within (StoredBy m₀ requests) m₀ mem' ∧
      (∀ a, mem' a = mem a ∨ Overwritten (StoredBy m₀ requests) mem' a) ∧
      OnItsWay requests m₀ mem' sqes (k r) := by
  rcases h with ⟨R, hRobust, hRest⟩
  rcases hRobust.step hWithin hSem with ⟨hWithin', hCells, R', hNext, hLeft⟩
  refine ⟨hWithin', hCells, R', hNext, fun sqe hMem a ha => ?_⟩
  rcases hRest sqe hMem a ha with hOpen | hDone
  · exact (hLeft a hOpen).imp_right And.right
  · exact .inr (hDone.keep (hCells a))

end OnItsWay

theorem Sound.step (hTop : Bounded m₀) (hCompatible : Compatible m₀ requests)
    (h : Sound requests m₀ sys) (hs : Moves sys sys') : Sound requests m₀ sys' := by
  have hUnblocked := h.unblocked.step hs
  cases hs with
  | @client o k r ring ring' threads mem hReady hSem =>
    refine ⟨hUnblocked, h.within, fun i sqes thread hSqes hThread => ?_⟩
    rcases thread_of_client hSem h.unblocked.threads_length hSqes hThread with
      ⟨hOld, hOldThread⟩ | rfl
    · exact h.onItsWay i sqes thread hOld hOldThread
    · refine ⟨_, hCompatible.robust hTop (hUnblocked.mem_requests hSqes), fun sqe hMem a ha => ?_⟩
      exact .inl ⟨sqe, hMem, ha⟩
  | @thread client ring threads mem mem' i o k r hi hSem =>
    rcases h.batch hi with ⟨batch, hBatch, hOnItsWay⟩
    rcases hOnItsWay.step h.within hSem with ⟨hWithin, hCells, hNext⟩
    refine ⟨hUnblocked, hWithin, fun j sqes thread hSqes hThread => ?_⟩
    rcases thread_of_set hi hThread with ⟨rfl, rfl⟩ | ⟨-, hOther⟩
    · obtain rfl := Option.some.inj (hBatch.symm.trans hSqes)
      exact hNext
    · exact (h.onItsWay j sqes thread hSqes hOther).other hCells

theorem Sound.not_faulting (h : Sound requests m₀ sys) : ¬ Faulting sys := by
  rintro ⟨i, o, k, hi, hSem⟩
  rcases h.batch hi with ⟨sqes, -, R, hRobust, -⟩
  obtain ⟨r, m', hSome⟩ := hRobust.enabled h.within
  rw [hSem] at hSome
  cases hSome

end Sound

/-! ## The result -/

section Result

variable {b : Builder S C} {overflowChecks : Bool} {entries : UInt32} {ring : IoUring S C}
  {mem : RingMem S C} {calls : List (Call S)} {sched : List Actor}
  {sys : System S C (List (Reply C))}

theorem sound_start (hBuild : b.build overflowChecks entries = some (.ok (ring, mem)))
    (user : UserMem) {hs : Handles} (hCalls : handlesAfter .none calls = some hs) :
    Sound (requestsOf calls) user.cells
      (System.start (clientProgram ring calls) mem user.cells) := by
  refine ⟨unblocked_start user hBuild hCalls, .refl, fun i sqes thread hSqes hThread => ?_⟩
  cases hThread

theorem sound_of_runSchedule
    (hBuild : b.build overflowChecks entries = some (.ok (ring, mem))) (user : UserMem)
    {hs : Handles} (hCalls : handlesAfter .none calls = some hs)
    (hCompatible : Compatible user.cells (requestsOf calls))
    (hSched : (System.start (clientProgram ring calls) mem user.cells).runSchedule sched =
      some sys) : Sound (requestsOf calls) user.cells sys :=
  runSchedule_induction (Sound.step user.unmapped_of_le hCompatible) hSched
    (sound_start hBuild user hCalls)

/-- **No faults.** No schedule of a sound client faults, the references that its requests make
are sound at every point of it, and each schedule can be carried to an end. -/
theorem never_faults (hBuild : b.build overflowChecks entries = some (.ok (ring, mem)))
    (user : UserMem) {hs : Handles} (hCalls : handlesAfter .none calls = some hs)
    (hCompatible : Compatible user.cells (requestsOf calls))
    (hSched : (System.start (clientProgram ring calls) mem user.cells).runSchedule sched =
      some sys) :
    ¬ Faulting sys ∧
      (∀ sqe ∈ requestsOf calls, ∀ ref ∈ references sys.mem sqe, ref.Sound sys.mem) ∧
      ∃ sched' sys', sys.runSchedule sched' = some sys' ∧ sys'.Finished := by
  have hSound := sound_of_runSchedule hBuild user hCalls hCompatible hSched
  refine ⟨hSound.not_faulting, fun sqe => hCompatible.sound hSound.within, ?_⟩
  obtain ⟨sched', sys', hRun, hEnd⟩ := exists_end hSound.unblocked
  rcases hEnd with hFinished | hFault
  · exact ⟨sched', sys', hRun, hFinished⟩
  · have hLater := runSchedule_induction (Sound.step user.unmapped_of_le hCompatible) hRun hSound
    exact absurd hFault hLater.not_faulting

/-- Two reads into the same byte, which are pending together. -/
def racingReads : List (Call Squeue.Entry) :=
  [.submission, .push (readByte 16 1), .sqDrop, .submit, .submission, .push (readByte 16 2),
    .sqDrop, .submit]

theorem compatible_racingReads : Compatible page.cells (requestsOf racingReads) := by
  have hOnly : ∀ sqe ∈ requestsOf racingReads,
      sqe = (readByte 16 1).sqe ∨ sqe = (readByte 16 2).sqe := by
    intro sqe hMem
    have hTwo : sqe = Squeue.EntryMarker.sqe (readByte 16 1) ∨
        sqe = Squeue.EntryMarker.sqe (readByte 16 2) := by
      simpa [requestsOf, racingReads, Call.pushes] using hMem
    exact hTwo
  have hMapped : Writable page.cells 16 1 := by
    rintro a ⟨hLow, hHigh⟩
    obtain rfl : a = 16 := by omega
    decide
  refine ⟨?_, ?_, ?_⟩
  · intro sqe hMem
    refine ⟨?_, fun ref hRef => ?_⟩
    · rcases hOnly sqe hMem with rfl | rfl
      all_goals exact fun _ => hMapped
    · have hSlice : ref = byteSlice 16 1 := by
        rcases hOnly sqe hMem with rfl | rfl
        all_goals exact List.mem_singleton.mp hRef
      rw [hSlice]
      exact ⟨one_dvd _, by decide, hMapped⟩
  · intro sqe hMem hOp
    rcases hOnly sqe hMem with rfl | rfl
    all_goals exact absurd hOp (by decide)
  · intro sqe hMem sqe' hMem' a v hStores hMisleads
    rcases hOnly sqe' hMem' with rfl | rfl
    all_goals
      rcases hMisleads.2 with hVector | ⟨-, hLimit⟩
      · exact hVector
      · exact hLimit

theorem never_faults_racingReads :
    ∃ sys, (System.start (clientProgram smallRing.1 racingReads) smallRing.2
        page.cells).runSchedule (List.replicate 39 .client ++ [.thread 1, .thread 0]) = some sys ∧
      sys.threads.length = 2 ∧ ¬ Faulting sys ∧
      (∀ sqe ∈ requestsOf racingReads, ∀ ref ∈ references sys.mem sqe, ref.Sound sys.mem) ∧
      ∃ sched' sys', sys.runSchedule sched' = some sys' ∧ sys'.Finished := by
  have hFacts : ((System.start (clientProgram smallRing.1 racingReads) smallRing.2
      page.cells).runSchedule (List.replicate 39 .client ++ [.thread 1, .thread 0])).map
        (·.threads.length) = some 2 := by
    decide +kernel
  obtain ⟨sys, hSched, hLength⟩ := Option.map_eq_some_iff.mp hFacts
  have hCalls : handlesAfter .none racingReads = some .none := by decide +kernel
  exact ⟨sys, hSched, hLength,
    never_faults smallRing_build page hCalls compatible_racingReads hSched⟩

end Result

end Miring.Concurrency
