import Miring.Stream.Batching
import Miring.Stream.Overflow

/-!
# When completions become visible

The README says that the dispatch thread "joins on the next `submit()` call". The code joins
later on purpose: `enqueue_sqes` leaves the threads running, and only `flush_pending` joins
them, which a submitting call reaches if it waits for completions. So `submit` leaves every
earlier batch where it was (`submit_leaves_pending`). Behind a submitting call that waits,
all batches have been joined, and a client that still holds its `CompletionQueue` sees every
posted completion once it has called `sync` (`visible_after_submit`).
-/

namespace Miring

/-- Whether a submitting call flushes the pending batches. -/
def Call.waits {S : Type} : Call S → Option Bool
  | .submit => some false
  | .submitAndWait want => some (decide (want > 0))
  | .submitWithArgs want => some (decide (want > 0))
  | .enter _ minComplete => some (decide (minComplete > 0))
  | _ => none

/-- How many completions a call can take. -/
def Call.reaps {S : Type} : Call S → Option Nat
  | .next => some 1
  | .fill n => some n
  | _ => none

end Miring

namespace Miring.Stream

open Sys Miring.Ring Dispatch Program Submitter

variable {S C : Type} [Squeue.EntryMarker S] [Cqueue.EntryMarker C]

/-- Every batch has been joined, and its completions that are not suppressed were posted or,
without room, counted. -/
structure AllJoined (ring : IoUring S C) (results : Nat → List CompletionData)
    (c : Client S C) : Prop where
  pending : c.mem.pending = []
  posted : postedCqes c = offered ((List.range c.mem.threads.length).flatMap results)
  overflow : c.mem.cells .cqOverflow =
    UInt32.ofNat (c.mem.posts.filter fun post => !Post.hasRoom ring post).length

/-- The completions that found room, in order. -/
def roomyCqes (ring : IoUring S C) (c : Client S C) : List IoUringCqe :=
  (c.mem.posts.filter (Post.hasRoom ring)).map (·.cqe)

/-- Behind `sync`, a call that reaps gets the next of the completions that found room. -/
def VisibleAfterSync (ring : IoUring S C) (results : Nat → List CompletionData)
    (c : Client S C) : Prop :=
  ∀ (reap : Call S) (n : Nat), reap.reaps = some n →
    ∃ c', c.runCalls ring results [.cqSync, reap] = some c' ∧
      (deliveredIn c'.history).map Cqueue.EntryMarker.cqe =
        (roomyCqes ring c).take ((deliveredIn c.history).length + n)

/-- The batches behind a submitting call that does not wait: those before it, and its own. -/
structure LeavesPending (c₀ c : Client S C) : Prop where
  posted : postedCqes c = postedCqes c₀
  threads : c₀.mem.threads <+: c.mem.threads
  pending : c.mem.pending = c₀.mem.pending ++
    List.range' c₀.mem.threads.length (c.mem.threads.length - c₀.mem.threads.length)

section Ledger

omit [Squeue.EntryMarker S] [Cqueue.EntryMarker C]

variable {ring : IoUring S C} {answers : Nat → List IoUringCqe} {l : RingLedger ring}

variable (answers l) in
theorem call_of_waits {call : Call S} {waits : Bool} (h : call.waits = some waits) :
    ∃ k, Ledger.call answers l call = Ledger.submit answers l k waits := by
  cases call with
  | submit => exact ⟨l.sq.ready, by rw [← Option.some.inj h]; rfl⟩
  | submitAndWait want => exact ⟨l.sq.ready, by rw [← Option.some.inj h]; rfl⟩
  | submitWithArgs want => exact ⟨l.sq.ready, by rw [← Option.some.inj h]; rfl⟩
  | enter toSubmit minComplete => exact ⟨toSubmit.toNat, by rw [← Option.some.inj h]; rfl⟩
  | _ => cases h

theorem enqueue_batches (l : RingLedger ring) (k : Nat) :
    l.batches <+: (l.enqueue k).2.batches := by
  unfold Ledger.enqueue
  split
  · exact List.prefix_rfl
  · exact List.prefix_append _ _

theorem call_of_reaps {call : Call S} {n : Nat} (h : call.reaps = some n) :
    (Ledger.call answers l call).2 = l.withCq (l.cq.take n).2 := by
  cases call with
  | next => rw [← Option.some.inj h]; rfl
  | fill n => rw [← Option.some.inj h]; rfl
  | _ => cases h

theorem handles_of_reaps {call : Call S} {n : Nat} (h : call.reaps = some n) {hs : Handles}
    (hCq : hs.cq = true) : call.handles hs = some hs := by
  cases call with
  | next => exact if_pos hCq
  | fill n => exact if_pos hCq
  | _ => cases h

end Ledger

section Client

variable {ring : IoUring S C} {results : Nat → List CompletionData} {c : Client S C}
  {l : RingLedger ring}

theorem refused_eq (h : ClientRefines ring c l) :
    l.cq.refused = (c.mem.posts.filter fun post => !Post.hasRoom ring post).length := by
  rw [CqLedger.refused, ← h.mem.cq.posts, refusedOf, List.filter_map, List.length_map]
  rfl

/-- Where the pipeline has answered every batch. -/
theorem allJoined_of_flushed (h : ClientRefines ring c l)
    (hRecorded : Recorded (answers results) (cqeHistory c.history) l)
    (hFlushed : l.flushed = l.batches.length) : AllJoined ring results c where
  pending := by
    rw [h.mem.pending, Ledger.pending, hFlushed, Nat.sub_self]
    rfl
  posted := by
    have hAttempts := hRecorded.attempts
    have hThreads := congrArg List.length h.mem.threads
    rw [List.length_map] at hThreads
    rw [← h.mem.cq.posts, List.map_map, offered_flatMap, hFlushed, ← hThreads] at hAttempts
    exact hAttempts
  overflow := by rw [h.mem.cq.overflow, refused_eq h]

/-- A client with a `CompletionQueue` can reap everything that found room. -/
theorem visible_of_refines (h : ClientRefines ring c l)
    (hRecorded : Recorded (answers results) (cqeHistory c.history) l)
    (hCq : c.handles.cq = true) : VisibleAfterSync ring results c := by
  intro reap n hReaps
  have hSync : (Call.cqSync : Call S).handles c.handles = some c.handles := if_pos hCq
  have hCalls : handlesAfter c.handles [.cqSync, reap] = some c.handles := by
    simp only [handlesAfter, hSync, handles_of_reaps hReaps hCq, Option.bind_some]
  obtain ⟨c', hRun, -, hHistory, -⟩ := runCalls_refines results h _ hCalls
  refine ⟨c', hRun, ?_⟩
  have hBehind := recorded_runCalls hRecorded [.cqSync, reap]
  rw [← hHistory] at hBehind
  -- the pipeline behind the two calls
  let l₁ := (Ledger.call (answers results) l (.cqSync : Call S)).2
  have hEnd : (Ledger.runCalls (answers results) l [.cqSync, reap]).2 =
      l₁.withCq (l₁.cq.take n).2 := call_of_reaps hReaps
  have hDelivered := hBehind.delivered
  rw [hEnd, deliveredIn_cqeHistory] at hDelivered
  have hBefore := hRecorded.delivered
  rw [deliveredIn_cqeHistory] at hBefore
  have hLength : (deliveredIn c.history).length = l.cq.delivered := by
    have hLe := l.cq.delivered_le_length
    have hLengths := congrArg List.length hBefore
    rw [List.length_map, List.length_take] at hLengths
    omega
  have hTake : (l₁.cq.take n).2.delivered =
      l.cq.delivered + min (l.cq.posted.length - l.cq.delivered) n := rfl
  have hPosted : (l₁.withCq (l₁.cq.take n).2).cq.posted = l.cq.posted := rfl
  have hRoomy : roomyCqes ring c = l.cq.posted := (posted_eq h).symm
  rw [← hDelivered, hPosted, hRoomy, hLength]
  change l.cq.posted.take (l₁.cq.take n).2.delivered = _
  rw [hTake, List.take_eq_take_iff]
  omega

end Client

/-- **Visibility.** Behind a submitting call that waits, every batch has been joined, and the
completions that found room can be reaped behind `sync`. Any other submitting call joins
nothing. -/
theorem visible_after_submit {b : Builder S C} {overflowChecks : Bool} {entries : UInt32}
    {ring : IoUring S C} {mem : RingMem S C}
    (hBuild : b.build overflowChecks entries = some (.ok (ring, mem)))
    {results : Nat → List CompletionData} {calls : List (Call S)} {c₀ c : Client S C}
    (hRun : (Client.start mem).runCalls ring results calls = some c₀)
    {call : Call S} {waits : Bool} (hWaits : call.waits = some waits)
    (hStep : c₀.step ring results call = some c) :
    (waits = true → AllJoined ring results c ∧
      (c.handles.cq = true → VisibleAfterSync ring results c)) ∧
    (waits = false → LeavesPending c₀ c) := by
  obtain ⟨hHistory₀, h₀⟩ := exists_ledger hBuild hRun
  have hRecorded₀ := recorded_run ring (answers results) calls
  rw [← hHistory₀] at hRecorded₀
  let l₀ := (Ledger.runCalls (answers results) (startLedger ring) calls).2
  obtain ⟨hs, hCall, -⟩ := Option.bind_eq_some_iff.mp hStep
  obtain ⟨c', hStep', -, hHistory, h⟩ := step_refines results h₀ hCall
  obtain rfl := Option.some.inj (hStep.symm.trans hStep')
  have hRecorded := hRecorded₀.snoc (records_call (answers results) l₀ call)
  rw [← hHistory] at hRecorded
  obtain ⟨k, hSubmit⟩ := call_of_waits (answers results) l₀ hWaits
  rw [hSubmit] at h hRecorded
  constructor
  · rintro rfl
    exact ⟨allJoined_of_flushed h hRecorded rfl, visible_of_refines h hRecorded⟩
  · rintro rfl
    have hBatches : l₀.batches <+: (l₀.enqueue k).2.batches := enqueue_batches l₀ k
    have hFlushed := enqueue_flushed l₀ k
    have hCq := enqueue_cq l₀ k
    have hLe := l₀.flushed_le
    have hLength := hBatches.length_le
    have hThreads : c.mem.threads = (l₀.enqueue k).2.batches.map _ := h.mem.threads
    have hPending : c.mem.pending = (l₀.enqueue k).2.pending := h.mem.pending
    have hPosts : postedCqes c = (l₀.enqueue k).2.cq.attempts.map (·.1) := by
      have hAttempts := congrArg (List.map (·.1)) h.mem.cq.posts
      rw [List.map_map] at hAttempts
      exact hAttempts
    have hPosts₀ : postedCqes c₀ = l₀.cq.attempts.map (·.1) := by
      have hAttempts := congrArg (List.map (·.1)) h₀.mem.cq.posts
      rw [List.map_map] at hAttempts
      exact hAttempts
    refine ⟨?_, ?_, ?_⟩
    · rw [hPosts, hPosts₀, hCq]
    · rw [hThreads, h₀.mem.threads]
      exact hBatches.map _
    · rw [hPending, h₀.mem.pending, hThreads, h₀.mem.threads, List.length_map, List.length_map,
        Ledger.pending, Ledger.pending, hFlushed]
      have hAppend : List.range' l₀.flushed (l₀.batches.length - l₀.flushed) ++
          List.range' (l₀.flushed + (l₀.batches.length - l₀.flushed))
            ((l₀.enqueue k).2.batches.length - l₀.batches.length) =
          List.range' l₀.flushed (l₀.batches.length - l₀.flushed +
            ((l₀.enqueue k).2.batches.length - l₀.batches.length)) := List.range'_append_1
      rw [Nat.add_sub_cancel' hLe] at hAppend
      rw [hAppend]
      congr 1
      omega

/-! ### Two submits while both handles of `split` live -/

/-- Request 0 was submitted, request 1 is published. -/
def splitCalls : List (Call Squeue.Entry) :=
  [.split, .push (nop 0), .sqSync, .submit, .sqSync, .push (nop 1), .sqSync]

/-- The second submit leaves the first batch pending, so that the client sees no completion
behind `sync`, although both would find room. -/
theorem submit_leaves_pending :
    ∃ c₀ c c', (Client.start smallRing.2).runCalls smallRing.1 (nopAnswers twoBatches)
        splitCalls = some c₀ ∧
      c₀.step smallRing.1 (nopAnswers twoBatches) .submit = some c ∧
      c.runCalls smallRing.1 (nopAnswers twoBatches) [.cqSync, .next] = some c' ∧
      DispatchedAs c.mem.threads (nopTraces twoBatches) (nopAnswers twoBatches) ∧
      c₀.mem.threads.length = 1 ∧ c.mem.pending = [0, 1] ∧ c.mem.posts = [] ∧
      endsEmpty c'.history = true := by
  obtain ⟨c₀, hRun, hHandles, -, h₀⟩ := runCalls_refines (nopAnswers twoBatches)
    (start_refines _ smallRing_build) splitCalls rfl
  have hCall : (Call.submit : Call Squeue.Entry).handles c₀.handles = some ⟨true, true⟩ := by
    rw [hHandles]
    rfl
  obtain ⟨c, hStep, hHandles', -, h⟩ := step_refines (nopAnswers twoBatches) h₀ hCall
  have hCalls : handlesAfter c.handles [(.cqSync : Call Squeue.Entry), .next] =
      some ⟨true, true⟩ := by
    rw [hHandles']
    rfl
  obtain ⟨c', hRun', -⟩ := runCalls_refines (nopAnswers twoBatches) h _ hCalls
  have hFacts : ((Client.start smallRing.2).runCalls smallRing.1 (nopAnswers twoBatches)
      splitCalls).bind (fun c₀ => (c₀.step smallRing.1 (nopAnswers twoBatches) .submit).bind
        fun c => (c.runCalls smallRing.1 (nopAnswers twoBatches) [.cqSync, .next]).map fun c' =>
          (c₀.mem.threads.length, c.mem.threads, c.mem.pending, c.mem.posts,
            endsEmpty c'.history)) = some (1, twoBatches, [0, 1], [], true) := by decide +kernel
  simp only [hRun, hStep, hRun', Option.bind_some, Option.map_some, Option.some.injEq,
    Prod.mk.injEq] at hFacts
  obtain ⟨hLength, hThreads, hPending, hPosts, hEmpty⟩ := hFacts
  refine ⟨c₀, c, c', hRun, hStep, hRun', ?_, hLength, hPending, hPosts, hEmpty⟩
  rw [hThreads]
  exact dispatchedAs_nops (by decide)

theorem visible_after_submit_split :
    ∃ c, AllJoined smallRing.1 (nopAnswers twoBatches) c ∧
      VisibleAfterSync smallRing.1 (nopAnswers twoBatches) c ∧ c.mem.threads = twoBatches := by
  obtain ⟨c₀, hRun, hHandles, -, h₀⟩ := runCalls_refines (nopAnswers twoBatches)
    (start_refines _ smallRing_build) splitCalls rfl
  have hCall : (Call.submitAndWait 1 : Call Squeue.Entry).handles c₀.handles =
      some ⟨true, true⟩ := by
    rw [hHandles]
    rfl
  obtain ⟨c, hStep, hHandles', -⟩ := step_refines (nopAnswers twoBatches) h₀ hCall
  have hFacts : ((Client.start smallRing.2).runCalls smallRing.1 (nopAnswers twoBatches)
      splitCalls).bind (fun c₀ => (c₀.step smallRing.1 (nopAnswers twoBatches)
        (.submitAndWait 1)).map fun c => c.mem.threads) = some twoBatches := by decide +kernel
  simp only [hRun, hStep, Option.bind_some, Option.map_some, Option.some.injEq] at hFacts
  have hWaits : (Call.submitAndWait 1 : Call Squeue.Entry).waits = some true := rfl
  obtain ⟨hJoined, hVisible⟩ := (visible_after_submit smallRing_build hRun hWaits hStep).1 rfl
  exact ⟨c, hJoined, hVisible (by rw [hHandles']), hFacts⟩

end Miring.Stream
