import Miring.Stream.History

/-!
# The completion stream

What a client gets out of a ring, from end to end (`completion_stream`). The requests taken
out of the submission ring are the first accepted entries, as many as the submitting calls
have counted. The completions handed to the client, followed by those that still lie in the
completion ring, are the completions that `post_cqe` found room for, and it was called for
the outcome of every request of the joined batches, in order, except where the request asked
for no completion on success.
-/

namespace Miring.Stream

open Sys Miring.Ring Dispatch Program Submitter

variable {S C : Type} [Squeue.EntryMarker S] [Cqueue.EntryMarker C]

/-- The slots between the client and the tail of the completion ring. -/
def unread (ring : IoUring S C) (c : Client S C) : List (Option C) :=
  let head := c.mem.cells (if c.handles.cq then .cqLocalHead else .cqHead)
  window c.mem.cqes ring.cq.ringMask head (dist head (c.mem.cells .cqTail))

/-- How many dispatch threads have been joined. -/
def joined (c : Client S C) : Nat := c.mem.threads.length - c.mem.pending.length

/-- The outcomes of the requests of the joined batches. -/
def flushedOutcomes (results : Nat → List CompletionData) (c : Client S C) :
    List CompletionData :=
  (List.range (joined c)).flatMap results

/-- The completions that `post_cqe` was called for, in order. -/
def postedCqes (c : Client S C) : List IoUringCqe := c.mem.posts.map (·.cqe)

/-- The completions handed to the client, followed by those that it has not read. -/
def stream (ring : IoUring S C) (c : Client S C) : List (Option IoUringCqe) :=
  ((deliveredIn c.history).map some ++ unread ring c).map (Option.map Cqueue.EntryMarker.cqe)

structure CompletionStream (ring : IoUring S C) (traces : Nat → List (Event userSig))
    (results : Nat → List CompletionData) (c : Client S C) : Prop where
  /-- The counts do not exceed the accepted entries. -/
  consumed_le : submittedIn c.history ≤ (acceptedIn c.history).length
  /-- The consumed requests are the first accepted ones. -/
  consumed : c.mem.threads.flatten =
    ((acceptedIn c.history).map Squeue.EntryMarker.sqe).take (submittedIn c.history)
  /-- The batches that wait to be joined are the last ones. -/
  pending : c.mem.pending = List.range' (joined c) c.mem.pending.length
  /-- The outcomes of a batch are those of its requests, in order. -/
  answered : ∀ i sqes, c.mem.threads[i]? = some sqes → Answers (traces i) sqes (results i)
  /-- `post_cqe` was called for every outcome that is not suppressed. -/
  posts : c.mem.posts.map (·.cqe) = offered (flushedOutcomes results c)
  /-- The stream consists of the posts that found room. -/
  posted : stream ring c = (c.mem.posts.filter (Post.hasRoom ring)).map fun post => some post.cqe
  /-- The stream is an in-order subsequence of the outcomes. -/
  sublist : (stream ring c).Sublist ((flushedOutcomes results c).map fun cd => some (cqeOf cd))

theorem offered_sublist (cds : List CompletionData) : (offered cds).Sublist (cds.map cqeOf) :=
  List.filter_sublist.map _

theorem offered_flatMap (results : Nat → List CompletionData) (is : List Nat) :
    is.flatMap (answers results) = offered (is.flatMap results) := by
  induction is with
  | nil => rfl
  | cons i is ih =>
    rw [List.flatMap_cons, List.flatMap_cons, ih]
    simp [answers, offered]

section Client

variable {ring : IoUring S C} {c : Client S C} {l : RingLedger ring}

theorem joined_eq (h : ClientRefines ring c l) : joined c = l.flushed := by
  have hFlushed := l.flushed_le
  rw [joined, h.mem.threads, h.mem.pending, Ledger.pending, List.length_range', List.length_map]
  omega

theorem unread_eq (h : ClientRefines ring c l) :
    (unread ring c).map (Option.map Cqueue.EntryMarker.cqe) = l.cq.unread.map some := by
  have hHead : c.mem.cells (if c.handles.cq then .cqLocalHead else .cqHead) =
      UInt32.ofNat l.cq.delivered := by
    cases hCq : c.handles.cq with
    | true => exact h.mem.cq.localHead
    | false =>
      rw [← h.idle.released hCq]
      exact h.mem.cq.head
  have hLe := l.cq.delivered_le_length
  have hLength := l.cq.length_le
  have hReleased := l.cq.released_le
  have hCap : Cqueue.capacity ring.cq < 2 ^ 32 := UInt32.toNat_lt _
  have hDist : dist (UInt32.ofNat l.cq.delivered) (c.mem.cells .cqTail) =
      l.cq.posted.length - l.cq.delivered := by
    rw [h.mem.cq.tail, Ring.dist]
    refine toNat_ofNat_sub hLe ?_
    change (postedOf l.cq.attempts).length - l.cq.delivered < 2 ^ 32
    omega
  have hMap : ∀ n, (window c.mem.cqes ring.cq.ringMask (UInt32.ofNat l.cq.delivered) n).map
      (Option.map Cqueue.EntryMarker.cqe) = window (c.mem.cqes.map Cqueue.EntryMarker.cqe)
        ring.cq.ringMask (UInt32.ofNat l.cq.delivered) n := by
    intro n
    simp [window]
  simp only [unread, hHead, hDist, hMap]
  exact h.mem.cq.holds

theorem stream_eq (h : ClientRefines ring c l)
    (hRecorded : l.cq.posted.take l.cq.delivered =
      (deliveredIn c.history).map Cqueue.EntryMarker.cqe) :
    stream ring c = l.cq.posted.map some := by
  have hDelivered : ((deliveredIn c.history).map some).map (Option.map Cqueue.EntryMarker.cqe) =
      (l.cq.posted.take l.cq.delivered).map some := by
    rw [hRecorded]
    simp
  rw [stream, List.map_append, unread_eq h, hDelivered, ← List.map_append, CqLedger.unread,
    List.take_append_drop]

theorem posted_eq (h : ClientRefines ring c l) :
    l.cq.posted = (c.mem.posts.filter (Post.hasRoom ring)).map (·.cqe) := by
  rw [CqLedger.posted, ← h.mem.cq.posts, postedOf, List.filter_map, List.map_map]
  rfl

/-- The stream of a client that stands for a pipeline. -/
theorem completionStream_of_refines {results : Nat → List CompletionData}
    {traces : Nat → List (Event userSig)} (h : ClientRefines ring c l)
    (hRecorded : Recorded (answers results) (cqeHistory c.history) l)
    (hDispatched : DispatchedAs c.mem.threads traces results) :
    CompletionStream ring traces results c := by
  have hAccepted := hRecorded.accepted
  have hConsumed := hRecorded.consumed
  have hDelivered := hRecorded.delivered
  rw [acceptedIn_cqeHistory] at hAccepted
  rw [submittedIn_cqeHistory] at hConsumed
  rw [deliveredIn_cqeHistory] at hDelivered
  have hStream := stream_eq h hDelivered
  have hPosts : c.mem.posts.map (·.cqe) = offered (flushedOutcomes results c) := by
    have hAttempts := hRecorded.attempts
    rw [← h.mem.cq.posts, List.map_map, offered_flatMap, ← joined_eq h] at hAttempts
    exact hAttempts
  refine ⟨?_, ?_, ?_, ?_, hPosts, ?_, ?_⟩
  · rw [← hAccepted, ← hConsumed]
    exact Nat.le_trans l.sq.consumed_le l.sq.published_le
  · rw [h.mem.threads, ← List.map_flatten, l.batches_eq, hAccepted, hConsumed, List.map_take]
  · rw [joined_eq h, h.mem.pending, Ledger.pending, List.length_range']
  · intro i sqes hi
    exact answers_of_path (hDispatched i sqes hi)
  · rw [hStream, posted_eq h, List.map_map]
    rfl
  · have hSub : l.cq.posted.Sublist ((flushedOutcomes results c).map cqeOf) := by
      refine (postedOf_sublist l.cq.attempts).trans ?_
      rw [← h.mem.cq.posts, List.map_map]
      refine List.Sublist.trans ?_ (offered_sublist _)
      rw [← hPosts]
      exact List.Sublist.refl _
    rw [hStream]
    have hMap := hSub.map some
    rwa [List.map_map] at hMap

end Client

/-- The stream of a run from a new instance. -/
theorem completionStream_of_run {b : Builder S C} {overflowChecks : Bool} {entries : UInt32}
    {ring : IoUring S C} {mem : RingMem S C}
    (hBuild : b.build overflowChecks entries = some (.ok (ring, mem)))
    {traces : Nat → List (Event userSig)} {results : Nat → List CompletionData}
    {calls : List (Call S)} {c : Client S C}
    (hRun : (Client.start mem).runCalls ring results calls = some c)
    (hDispatched : DispatchedAs c.mem.threads traces results) :
    CompletionStream ring traces results c := by
  obtain ⟨hHistory, h⟩ := exists_ledger hBuild hRun
  refine completionStream_of_refines h ?_ hDispatched
  rw [hHistory]
  exact recorded_run ring (answers results) calls

/-- **The completion stream.** Whatever calls the borrow rules allow, in any number, they are
all defined, and the client gets the completions of its requests in order. -/
theorem completion_stream {b : Builder S C} {overflowChecks : Bool} {entries : UInt32}
    {ring : IoUring S C} {mem : RingMem S C}
    (hBuild : b.build overflowChecks entries = some (.ok (ring, mem)))
    (traces : Nat → List (Event userSig)) (results : Nat → List CompletionData)
    (calls : List (Call S)) {hs : Handles} (hCalls : handlesAfter .none calls = some hs) :
    ∃ c, (Client.start mem).runCalls ring results calls = some c ∧
      (DispatchedAs c.mem.threads traces results → CompletionStream ring traces results c) := by
  obtain ⟨c, hRun, -⟩ := runCalls_refines results (start_refines b hBuild) calls hCalls
  exact ⟨c, hRun, fun hDispatched => completionStream_of_run hBuild hRun hDispatched⟩

/-! ### A client with one request -/

/-- A request without effect. -/
def nop (userData : UInt64) : Squeue.Entry := ⟨{ userData }⟩

theorem smallRing_built :
    ((Builder.default : Builder Squeue.Entry Cqueue.Entry).built true 1).isSome := by
  decide +kernel

/-- The default instance with one slot in the submission ring and two in the completion
ring. -/
def smallRing : IoUring Squeue.Entry Cqueue.Entry × RingMem Squeue.Entry Cqueue.Entry :=
  let b : Builder Squeue.Entry Cqueue.Entry := .default
  (b.built true 1).get smallRing_built

theorem smallRing_build :
    Builder.default.build true 1 = some (.ok (smallRing.1, smallRing.2)) :=
  Builder.build_of_built smallRing_built

/-- Push a request and submit it alone. -/
def submitOne (userData : UInt64) : List (Call Squeue.Entry) :=
  [.submission, .push (nop userData), .sqDrop, .submit]

/-- From the push of a request to its completion. -/
def nopCalls : List (Call Squeue.Entry) :=
  submitOne 7 ++ [.completion, .next, .next, .cqDrop]

theorem completion_stream_nop :
    ∃ c, (Client.start smallRing.2).runCalls smallRing.1 (nopAnswers [[(nop 7).sqe]])
        nopCalls = some c ∧
      CompletionStream smallRing.1 (nopTraces [[(nop 7).sqe]]) (nopAnswers [[(nop 7).sqe]]) c := by
  obtain ⟨c, hRun, hStream⟩ := completion_stream smallRing_build (nopTraces [[(nop 7).sqe]])
    (nopAnswers [[(nop 7).sqe]]) nopCalls rfl
  refine ⟨c, hRun, hStream ?_⟩
  have hThreads : ((Client.start smallRing.2).runCalls smallRing.1 (nopAnswers [[(nop 7).sqe]])
      nopCalls).map (fun c => c.mem.threads) = some [[(nop 7).sqe]] := by decide +kernel
  rw [hRun, Option.map_some, Option.some.injEq] at hThreads
  rw [hThreads]
  exact dispatchedAs_nops (by decide)

end Miring.Stream
