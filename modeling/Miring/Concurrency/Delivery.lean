import Miring.Concurrency.NoFaults
import Miring.Concurrency.Sequential

/-!
# What sound clients get

The requests of a sound client may race: two reads that are pending together may fill the same
buffer, and a write may send a buffer that another batch is filling. Still nothing that the
client sees depends on the schedule. Its replies, and all of the ring, are those of a run in
which the dispatch threads are replaced by a function of their batches (`replies_determined`).

And data come before completions (`delivered_before_posted`). In every state of every schedule
the completions so far are those of whole batches, and all requests of these batches that were
not cancelled have written to their buffers. Only the address of an ACCEPT is not promised: how
much of it is filled depends on the length that the request finds, and another one may have
zeroed this length.
-/

namespace Miring.Concurrency

open Sys Miring.Ring Miring.Stream Dispatch Program

variable {S C α : Type} [Squeue.EntryMarker S] [Cqueue.EntryMarker C]

/-! ## Statement -/

/-- What the threads of a ring return if `f` answers their requests. -/
def emulated (f : IoUringSqe → Int32) (s : RingMem S C) (i : Nat) : List CompletionData :=
  outcomes f false (s.threads.getD i [])

/-- A client alone: to join a thread is to ask `f`. -/
def emulatedSem (f : IoUringSqe → Int32) : Semantics (ringSig S C) (RingMem S C) :=
  fun o s => ringSem (emulated f s) o s

/-- The buffers that the requests of a batch fill, without the addresses of ACCEPT. No thread
answers PIPE there. -/
def Buffer (m₀ : UserCells) (requests sqes : List IoUringSqe) (a : Nat) : Prop :=
  (∃ sqe ∈ uncancelled (resultOf m₀) false sqes, Delivers m₀ sqe a) ∧
    ∀ sqe ∈ requests, sqe.opcode.toNat = ioringOpPipe → ¬ Output m₀ sqe a

/-- The completions so far are those of the first `n` batches, whose data have arrived. -/
structure Delivered (m₀ : UserCells) (requests : List IoUringSqe) (sys : System S C α) : Prop where
  posts : ∃ n ≤ sys.threads.length,
    sys.ring.posts.map (·.cqe) <+:
      (List.range n).flatMap (answers (emulated (resultOf m₀) sys.ring)) ∧
    ∀ (i : Nat) (sqes : List IoUringSqe), i < n → sys.ring.threads[i]? = some sqes →
      ∀ a, Buffer m₀ requests sqes a → sys.mem a = .byte 0
  /-- nothing else has changed -/
  elsewhere : ∀ a, (∀ sqe ∈ requests, ¬ Output m₀ sqe a) → sys.mem a = m₀ a

/-! ## Clients without threads -/

section Emulated

variable {results : Nat → List CompletionData} {f : IoUringSqe → Int32} {p : RingProgram S C α}
  {s s' : RingMem S C} {a : α}

/-- The results of a run are those of `f`, so `f` can be asked for them. -/
theorem run_emulatedSem (hRun : run (ringSem results) p s = some (a, s'))
    (hResults : ∀ i < s'.threads.length, results i = emulated f s' i) :
    run (emulatedSem f) p s = some (a, s') := by
  induction p generalizing s with
  | ret b => exact hRun
  | act o k ih =>
    rw [run_act] at hRun
    obtain ⟨⟨r, s₁⟩, hSem, hRest⟩ := Option.bind_eq_some_iff.mp hRun
    have hPrefix : s.threads <+: s'.threads := by
      apply List.IsPrefix.trans _ (prefix_threads hRest)
      rw [ringSem_threads hSem]
      exact List.prefix_append _ _
    have hSem' : emulatedSem f o s = some (r, s₁) := by
      rw [← hSem]
      apply ringSem_congr
      intro i hi
      have hlt := lt_of_awaited hSem hi
      obtain ⟨later, hThreads⟩ := hPrefix
      have hBound : i < s'.threads.length := by
        rw [← hThreads, List.length_append]
        omega
      -- the batch of the thread is the same in the end
      rw [hResults i hBound, emulated, emulated, ← hThreads, List.getD_eq_getElem?_getD,
        List.getD_eq_getElem?_getD, List.getElem?_append_left hlt]
    rw [run_act_of hSem']
    exact ih r hRest

end Emulated

/-! ## Threads that have returned -/

section Returned

variable {requests : List IoUringSqe} {m₀ : UserCells} {sys : System S C α}

/-- A thread that has returned: its results, and its buffers. -/
theorem Sound.returned (h : Sound requests m₀ sys) {i : Nat}
    (hi : (returned? sys.threads i).isSome) :
    soFar sys.threads i = emulated (resultOf m₀) sys.ring i ∧
      ∀ sqes, sys.ring.threads[i]? = some sqes → ∀ a, Buffer m₀ requests sqes a →
        sys.mem a = .byte 0 := by
  obtain ⟨results, hReturned⟩ := Option.isSome_iff_exists.mp hi
  rcases h.batch (returned?_eq_some_iff.mp hReturned) with ⟨batch, hBatch, R, hRobust, hRest⟩
  rcases hRobust.returned with ⟨hResults, hNone⟩
  constructor
  · rw [soFar, hReturned, Option.getD_some, hResults, emulated, List.getD_eq_getElem?_getD,
      hBatch, Option.getD_some]
  · intro sqes hSqes a ha
    obtain rfl := Option.some.inj (hBatch.symm.trans hSqes)
    rcases ha with ⟨⟨sqe, hMem, hDelivers⟩, hNoPipe⟩
    rcases (hRest sqe hMem a hDelivers).resolve_left (hNone a) with ⟨v, hByte, hStored⟩
    rcases hStored with ⟨sqe', hIn, hOutput, hZero | hPipe⟩
    · rw [hByte, hZero]
    · exact absurd hOutput (hNoPipe sqe' hIn hPipe)

theorem Sound.elsewhere (h : Sound requests m₀ sys) {a : Nat}
    (ha : ∀ sqe ∈ requests, ¬ Output m₀ sqe a) : sys.mem a = m₀ a := by
  apply (h.within.cell a).resolve_right
  rintro ⟨v, -, sqe, hIn, hOutput, -⟩
  exact ha sqe hIn hOutput

end Returned

/-! ## The result -/

section Result

variable {b : Builder S C} {overflowChecks : Bool} {entries : UInt32} {ring : IoUring S C}
  {mem : RingMem S C} {calls : List (Call S)} {sched : List Actor}
  {sys : System S C (List (Reply C))}

/-- **Replies are determined.** When a sound client is done, its replies and the ring are those
of its calls alone, whatever the schedule was. -/
theorem replies_determined (hBuild : b.build overflowChecks entries = some (.ok (ring, mem)))
    (user : UserMem) {hs : Handles} (hCalls : handlesAfter .none calls = some hs)
    (hCompatible : Compatible user.cells (requestsOf calls))
    (hSched : (System.start (clientProgram ring calls) mem user.cells).runSchedule sched =
      some sys) {replies : List (Reply C)} (hDone : sys.client = .ret replies) :
    run (emulatedSem (resultOf user.cells)) (clientProgram ring calls) mem =
      some (replies, sys.ring) := by
  have hSound := sound_of_runSchedule hBuild user hCalls hCompatible hSched
  have hNew : mem.threads = [] := by
    obtain ⟨rfl, -⟩ := Builder.build_ok hBuild
    rfl
  have hUnderway := runSchedule_induction Underway.step hSched (underway_start hNew user)
  have hEnds := hUnderway.ends (soFar sys.threads) fun _ _ => rfl
  rw [hDone] at hEnds
  obtain ⟨m, hAlive⟩ := alive_of_build hBuild hSched
  apply run_emulatedSem hEnds.symm
  intro i hi
  rw [← hUnderway.threads_length] at hi
  exact (hSound.returned (hAlive.returned_of_done hBuild hDone i hi)).1

theorem compatible_racingCalls : Compatible page.cells (requestsOf racingCalls) :=
  compatible_racingReads

/-- The second of the racing reads is executed first. -/
theorem replies_determined_racingCalls :
    ∃ sys replies, (System.start (clientProgram smallRing.1 racingCalls) smallRing.2
        page.cells).runSchedule overtaking = some sys ∧
      run (emulatedSem (resultOf page.cells)) (clientProgram smallRing.1 racingCalls)
        smallRing.2 = some (replies, sys.ring) := by
  have hFacts : ((System.start (clientProgram smallRing.1 racingCalls) smallRing.2
      page.cells).runSchedule overtaking).map (fun sys => (replies? sys).isSome) =
      some true := by
    decide +kernel
  obtain ⟨sys, hSched, hEnd⟩ := Option.map_eq_some_iff.mp hFacts
  obtain ⟨replies, hDone⟩ := Option.isSome_iff_exists.mp hEnd
  have hCalls : handlesAfter .none racingCalls = some ⟨false, true⟩ := by decide +kernel
  exact ⟨sys, replies, hSched, replies_determined smallRing_build page hCalls
    compatible_racingCalls hSched (replies?_eq_some_iff.mp hDone)⟩

/-- **Data before completions**, in every state of every schedule of a sound client. -/
theorem delivered_before_posted
    (hBuild : b.build overflowChecks entries = some (.ok (ring, mem))) (user : UserMem)
    {hs : Handles} (hCalls : handlesAfter .none calls = some hs)
    (hCompatible : Compatible user.cells (requestsOf calls))
    (hSched : (System.start (clientProgram ring calls) mem user.cells).runSchedule sched =
      some sys) : Delivered user.cells (requestsOf calls) sys := by
  have hSound := sound_of_runSchedule hBuild user hCalls hCompatible hSched
  obtain ⟨m, hAlive⟩ := alive_of_build hBuild hSched
  obtain ⟨n, hn, hReturned, hPosts⟩ := hAlive.posts_returned hBuild
  refine ⟨⟨n, hn, ?_, fun i sqes hi => (hSound.returned (hReturned i hi)).2 sqes⟩,
    fun _ => hSound.elsewhere⟩
  have hAnswers : (List.range n).flatMap (answers (soFar sys.threads)) =
      (List.range n).flatMap (answers (emulated (resultOf user.cells) sys.ring)) := by
    apply List.flatMap_congr
    intro i hi
    have hEq := (hSound.returned (hReturned i (List.mem_range.mp hi))).1
    rw [answers, answers, hEq]
  rw [← hAnswers]
  exact hPosts

theorem delivered_before_posted_racingCalls :
    ∃ sys, (System.start (clientProgram smallRing.1 racingCalls) smallRing.2
        page.cells).runSchedule overtaking = some sys ∧
      sys.ring.posts.map (·.cqe.userData) = [1, 2] ∧
      Delivered page.cells (requestsOf racingCalls) sys := by
  have hFacts : ((System.start (clientProgram smallRing.1 racingCalls) smallRing.2
      page.cells).runSchedule overtaking).map (·.ring.posts.map (·.cqe.userData)) =
      some [1, 2] := by
    decide +kernel
  obtain ⟨sys, hSched, hPosts⟩ := Option.map_eq_some_iff.mp hFacts
  have hCalls : handlesAfter .none racingCalls = some ⟨false, true⟩ := by decide +kernel
  exact ⟨sys, hSched, hPosts,
    delivered_before_posted smallRing_build page hCalls compatible_racingCalls hSched⟩

end Result

end Miring.Concurrency
