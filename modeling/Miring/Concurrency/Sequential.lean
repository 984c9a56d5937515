import Miring.Concurrency.Lifetime

/-!
# Schedules are sequential runs

Batches that conflict may return different results in different schedules. But whatever a
schedule does, once its client is done, the replies and the ring are those of one sequential run
of the calls, on the results that the dispatch threads have returned (`schedule_sequential`). So
what holds of all sequential runs holds of all schedules: the completion stream, for one.

Two things are kept along a schedule (`Underway`). Every thread has followed a path of its batch,
and what the client has left to do ends where its whole program ends.
-/

namespace Miring.Concurrency

open Sys Miring.Ring Miring.Stream Dispatch Program

variable {S C α : Type} [Squeue.EntryMarker S] [Cqueue.EntryMarker C]

/-! ## Statement -/

/-- A state of the system stands for the client `c` of a sequential run. -/
structure AsSequential (ring : IoUring S C) (mem : RingMem S C) (calls : List (Call S))
    (sys : System S C (List (Reply C))) (traces : Nat → List (Event userSig))
    (results : Nat → List CompletionData) (c : Client S C) : Prop where
  run : (Client.start mem).runCalls ring results calls = some c
  replies : sys.client = .ret (c.history.map (·.2))
  memory : sys.ring = { c.mem with pending := [] }
  /-- the results are those of the dispatch threads -/
  returned : ∀ i < sys.threads.length, returned? sys.threads i = some (results i)
  dispatched : DispatchedAs c.mem.threads traces results
  stream : CompletionStream ring traces results c

/-! ## What schedules keep -/

section Underway

variable {p : RingProgram S C α} {s₀ : RingMem S C} {sys sys' : System S C α}

/-- A schedule that has started with the program `p` and the memory `s₀`. -/
structure Underway (p : RingProgram S C α) (s₀ : RingMem S C) (sys : System S C α) : Prop where
  ends : Ends (fun results x => x = run (ringSem results) p s₀) sys
  threads_length : sys.threads.length = sys.ring.threads.length
  steps : ∀ (i : Nat) (sqes : List IoUringSqe) (thread : DispatchThread),
    sys.ring.threads[i]? = some sqes → sys.threads[i]? = some thread →
      ∃ tr, Steps (dispatchBatch sqes) tr thread

theorem Underway.step (h : Underway p s₀ sys) (hs : Moves sys sys') : Underway p s₀ sys' := by
  refine ⟨h.ends.step hs, hs.threads_length h.threads_length, fun i sqes thread => ?_⟩
  cases hs with
  | @client o k r ring ring' threads mem hReady hSem =>
    intro hSqes hThread
    rcases thread_of_client hSem h.threads_length hSqes hThread with ⟨hOld, hOldThread⟩ | rfl
    · exact h.steps i sqes thread hOld hOldThread
    · exact ⟨[], .refl _⟩
  | @thread client ring threads mem mem' j o k r hj hSem =>
    intro hSqes hThread
    rcases thread_of_set hj hThread with ⟨rfl, rfl⟩ | ⟨-, hOther⟩
    · obtain ⟨tr, hSteps⟩ := h.steps j sqes _ hSqes hj
      exact ⟨_, hSteps.snoc r⟩
    · exact h.steps i sqes thread hSqes hOther

theorem underway_start (h : s₀.threads = []) (user : UserMem) :
    Underway p s₀ (System.start p s₀ user.cells) where
  ends _ _ := rfl
  threads_length := by
    rw [System.start, h]
    rfl
  steps i sqes thread hSqes := by
    change s₀.threads[i]? = some sqes at hSqes
    rw [h] at hSqes
    cases hSqes

end Underway

/-! ## The calls of a client -/

section Calls

variable {results : Nat → List CompletionData} {ring : IoUring S C}

/-- A client makes the calls of its program, and its history are these with their replies. -/
theorem runCalls_of_run {c : Client S C} {calls : List (Call S)} {hs : Handles}
    (hCalls : handlesAfter c.handles calls = some hs) {replies : List (Reply C)}
    {s : RingMem S C}
    (hRun : run (ringSem results) (callsProgram ring calls) c.mem = some (replies, s)) :
    ∃ c', c.runCalls ring results calls = some c' ∧ c'.mem = s ∧
      c'.history.map (·.2) = c.history.map (·.2) ++ replies := by
  induction calls generalizing c replies with
  | nil =>
    obtain ⟨rfl, rfl⟩ := Prod.mk.inj (Option.some.inj hRun)
    exact ⟨c, rfl, rfl, (List.append_nil _).symm⟩
  | cons call calls ih =>
    obtain ⟨hs₁, hCall, hRest⟩ := Option.bind_eq_some_iff.mp hCalls
    obtain ⟨reply, s₁, hFirst, hTail⟩ := run_bind_iff.mp hRun
    obtain ⟨replies', s₂, hMore, hRet⟩ := run_bind_iff.mp hTail
    obtain ⟨rfl, rfl⟩ := Prod.mk.inj (Option.some.inj hRet)
    obtain ⟨c', hRun', hMem, hHistory⟩ :=
      ih (c := ⟨s₁, hs₁, c.history ++ [(call, reply)]⟩) hRest hMore
    refine ⟨c', ?_, hMem, ?_⟩
    · rw [Client.runCalls, Client.step, hCall, Option.bind_some, hFirst]
      exact hRun'
    · rw [hHistory, List.map_append, List.append_assoc]
      rfl

end Calls

/-! ## The result -/

section Result

variable {b : Builder S C} {overflowChecks : Bool} {entries : UInt32} {ring : IoUring S C}
  {mem : RingMem S C} {user : UserMem} {calls : List (Call S)} {sched : List Actor}
  {sys : System S C (List (Reply C))}

/-- **Schedules are sequential runs.** When the client of a schedule is done, there is a
sequential run of its calls, on results that the batches can return, with the same replies and
the same ring. -/
theorem schedule_sequential (hBuild : b.build overflowChecks entries = some (.ok (ring, mem)))
    {hs : Handles} (hCalls : handlesAfter .none calls = some hs)
    (hSched : (System.start (clientProgram ring calls) mem user.cells).runSchedule sched =
      some sys) {replies : List (Reply C)} (hDone : sys.client = .ret replies) :
    ∃ traces results c, AsSequential ring mem calls sys traces results c := by
  have hNew : mem.threads = [] := by
    obtain ⟨rfl, -⟩ := Builder.build_ok hBuild
    rfl
  have hUnderway := runSchedule_induction Underway.step hSched (underway_start hNew user)
  obtain ⟨m, hAlive⟩ := alive_of_build hBuild hSched
  have hReturned := hAlive.returned_of_done hBuild hDone
  -- the run on the results of the threads
  have hEnds := hUnderway.ends (soFar sys.threads) fun _ _ => rfl
  have hRefines := start_refines b hBuild
  obtain ⟨replies', s', hRun, hClient, -⟩ :=
    run_clientProgram (soFar sys.threads) hRefines.mem hRefines.idle hCalls
  rw [hDone] at hEnds
  obtain ⟨rfl, hRing⟩ := Prod.mk.inj (Option.some.inj (hEnds.trans hClient))
  obtain ⟨c, hRun', rfl, hHistory⟩ := runCalls_of_run hCalls hRun
  have hResults : ∀ i < sys.threads.length,
      returned? sys.threads i = some (soFar sys.threads i) := by
    intro i hi
    obtain ⟨cds, hRet⟩ := Option.isSome_iff_exists.mp (hReturned i hi)
    rw [soFar, hRet]
    rfl
  -- and their paths
  have hThreads : sys.ring.threads = c.mem.threads := by rw [hRing]
  have hPaths : ∀ (i : Nat) (sqes : List IoUringSqe), c.mem.threads[i]? = some sqes →
      ∃ tr, Path (dispatchBatch sqes) tr (soFar sys.threads i) := by
    intro i sqes hSqes
    rw [← hThreads] at hSqes
    have hi : i < sys.threads.length := by
      rw [hUnderway.threads_length]
      exact (List.getElem?_eq_some_iff.mp hSqes).1
    obtain ⟨tr, hSteps⟩ :=
      hUnderway.steps i sqes _ hSqes (returned?_eq_some_iff.mp (hResults i hi))
    exact ⟨tr, hSteps.path⟩
  obtain ⟨traces, hDispatched⟩ := exists_traces hPaths
  refine ⟨traces, soFar sys.threads, c, hRun', ?_, hRing, hResults, hDispatched,
    completionStream_of_run hBuild hRun' hDispatched⟩
  rw [hDone, hHistory]
  rfl

/-- Two reads into the same byte, which are pending together, and the first completion. -/
def racingCalls : List (Call Squeue.Entry) :=
  [.submission, .push (readByte 16 1), .sqDrop, .submit, .submission, .push (readByte 16 2),
    .sqDrop, .submit, .completion, .next]

/-- The second thread runs before the first one. -/
def overtaking : List Actor :=
  List.replicate 37 .client ++ List.replicate 4 (.thread 1) ++ List.replicate 4 (.thread 0) ++
    List.replicate 24 .client

theorem schedule_sequential_racingCalls :
    ∃ sys, (System.start (clientProgram smallRing.1 racingCalls) smallRing.2
        page.cells).runSchedule overtaking = some sys ∧ sys.threads.length = 2 ∧
      ∃ traces results c,
        AsSequential smallRing.1 smallRing.2 racingCalls sys traces results c := by
  have hFacts : ((System.start (clientProgram smallRing.1 racingCalls) smallRing.2
      page.cells).runSchedule overtaking).map
        (fun sys => ((replies? sys).isSome, sys.threads.length)) = some (true, 2) := by
    decide +kernel
  obtain ⟨sys, hSched, hEnd⟩ := Option.map_eq_some_iff.mp hFacts
  obtain ⟨hReplies, hLength⟩ := Prod.mk.inj hEnd
  obtain ⟨replies, hDone⟩ := Option.isSome_iff_exists.mp hReplies
  have hCalls : handlesAfter .none racingCalls = some ⟨false, true⟩ := by decide +kernel
  exact ⟨sys, hSched, hLength,
    schedule_sequential smallRing_build hCalls hSched (replies?_eq_some_iff.mp hDone)⟩

end Result

end Miring.Concurrency
