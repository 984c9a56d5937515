import Miring.Stream.Completion

/-!
# Completions that find no room

Every instance reports `IORING_FEAT_NODROP`, "io_uring supports never dropping completion
events". But `post_cqe` counts a completion that finds the ring full and forgets it, so a
client that flushes more completions than the ring has slots never gets the rest, however
often it drains the ring (`nodrop_loses_completion`). A drained run has delivered every
completion exactly when each of its posts found room (`nodrop_iff`).
-/

namespace Miring.Stream

open Sys Miring.Ring Dispatch Program Submitter

variable {S C : Type} [Squeue.EntryMarker S] [Cqueue.EntryMarker C]

/-- The run ends with a call of `next` that finds the queue empty. -/
def endsEmpty (history : List (Call S × Reply C)) : Bool :=
  match history.getLast? with
  | some (.next, .entry none) => true
  | _ => false

/-- A run that ends with the drain of the completion queue: the last call of `completion`
yields an empty queue. -/
structure Drained (ring : IoUring S C) (results : Nat → List CompletionData)
    (mem : RingMem S C) (calls : List (Call S)) (c : Client S C) : Prop where
  run : (Client.start mem).runCalls ring results (calls ++ [.completion, .next]) = some c
  empty : endsEmpty c.history = true

/-- Every consumed request that is not suppressed has been delivered exactly once. -/
def AllDelivered (results : Nat → List CompletionData) (c : Client S C) : Prop :=
  ((deliveredIn c.history).map Cqueue.EntryMarker.cqe).Perm
    (offered ((List.range c.mem.threads.length).flatMap results))

/-- Every instance reports the feature. -/
theorem isFeatureNodrop_of_build {b : Builder S C} {overflowChecks : Bool} {entries : UInt32}
    {ring : IoUring S C} {mem : RingMem S C}
    (hBuild : b.build overflowChecks entries = some (.ok (ring, mem))) :
    ring.params.isFeatureNodrop = true := by
  rw [Parameters.isFeatureNodrop, Builder.features_of_build hBuild]
  decide

omit [Squeue.EntryMarker S] [Cqueue.EntryMarker C] in
/-- Behind a drain, the client has read everything that was posted. -/
theorem ledger_of_drain {ring : IoUring S C} (answers : Nat → List IoUringCqe)
    (l : RingLedger ring)
    (hEmpty : (Ledger.runCalls answers l [.completion, .next]).1.getLast? =
      some (.next, .entry none)) :
    let l' := (Ledger.runCalls answers l [.completion, .next]).2
    l'.flushed = l'.batches.length ∧ l'.cq.posted.take l'.cq.delivered = l'.cq.posted := by
  intro l'
  let l₁ := (Ledger.call answers l .completion).2
  have hHead : (l₁.cq.take 1).1.head? = none := by
    simp only [Ledger.runCalls, List.getLast?_cons_cons, List.getLast?_singleton,
      Option.some.injEq, Prod.mk.injEq] at hEmpty
    exact Reply.entry.inj hEmpty.2
  have hNil : (l₁.cq.take 1).1 = [] := List.head?_eq_none_iff.mp hHead
  have hSeen : l₁.cq.seen = l₁.cq.posted.length := rfl
  have hLe : l₁.cq.delivered ≤ l₁.cq.posted.length := l₁.cq.delivered_le_length
  have hLen : l₁.cq.len = 0 := by
    have hLength := congrArg List.length hNil
    simp only [CqLedger.take, CqLedger.unread, List.length_take, List.length_drop,
      List.length_nil] at hLength
    simp only [CqLedger.len] at hLength ⊢
    omega
  have hDelivered : l'.cq.delivered = l₁.cq.posted.length := by
    have hMin : min l₁.cq.len 1 = 0 := by omega
    have hTake : l'.cq.delivered = l₁.cq.delivered + min l₁.cq.len 1 := rfl
    simp only [CqLedger.len] at hLen
    omega
  refine ⟨rfl, ?_⟩
  rw [hDelivered]
  exact List.take_length

theorem postedOf_perm_iff {β : Type} (attempts : List (β × Bool)) :
    (postedOf attempts).Perm (attempts.map (·.1)) ↔ ∀ x ∈ attempts, x.2 = true := by
  constructor
  · intro h
    have hLength := h.length_eq
    rw [postedOf, List.length_map, List.length_map] at hLength
    exact List.filter_eq_self.mp (List.filter_sublist.eq_of_length hLength)
  · intro h
    rw [postedOf, List.filter_eq_self.mpr h]

/-- The last reply of a drained run, read on the pipeline. -/
theorem drained_last {ring : IoUring S C} {results : Nat → List CompletionData}
    {mem : RingMem S C} {calls : List (Call S)} {c : Client S C} {l : RingLedger ring}
    {before : List (Call S × Reply IoUringCqe)}
    (hDrained : Drained ring results mem calls c)
    (hHistory : cqeHistory c.history =
      before ++ (Ledger.runCalls (answers results) l [.completion, .next]).1) :
    (Ledger.runCalls (answers results) l [.completion, .next]).1.getLast? =
      some (.next, .entry none) := by
  have hLast : c.history.getLast? = some (.next, .entry none) := by
    have hEmpty := hDrained.empty
    unfold endsEmpty at hEmpty
    split at hEmpty
    · assumption
    · cases hEmpty
  have hMapped : (cqeHistory c.history).getLast? = some (.next, .entry none) := by
    rw [cqeHistory, List.getLast?_map, hLast]
    rfl
  rw [hHistory, List.getLast?_append_of_ne_nil _ (by simp [Ledger.runCalls])] at hMapped
  exact hMapped

/-- **When nothing is lost.** Every instance reports NODROP; a drained run on it has delivered
every completion if and only if each of its posts found room in the ring. -/
theorem nodrop_iff {b : Builder S C} {overflowChecks : Bool} {entries : UInt32}
    {ring : IoUring S C} {mem : RingMem S C}
    (hBuild : b.build overflowChecks entries = some (.ok (ring, mem)))
    {results : Nat → List CompletionData} {calls : List (Call S)} {c : Client S C}
    (hDrained : Drained ring results mem calls c) :
    ring.params.isFeatureNodrop = true ∧
      (AllDelivered results c ↔ ∀ post ∈ c.mem.posts, Post.hasRoom ring post = true) := by
  refine ⟨isFeatureNodrop_of_build hBuild, ?_⟩
  obtain ⟨hHistory, h⟩ := exists_ledger hBuild hDrained.run
  have hRecorded := recorded_run ring (answers results)
    (calls ++ [.completion, .next])
  rw [← hHistory] at hRecorded
  have hDrain := ledger_of_drain (answers results)
    (Ledger.runCalls (answers results) (startLedger ring) calls).2
    (drained_last hDrained (by rw [hHistory, Ledger.runCalls_append]))
  rw [Ledger.runCalls_append] at h hRecorded
  obtain ⟨hFlushed, hTake⟩ := hDrain
  -- what the client holds is what was posted, and what was offered are all completions
  have hDelivered := hRecorded.delivered
  rw [deliveredIn_cqeHistory] at hDelivered
  have hPosted := hDelivered.symm.trans hTake
  have hOffered := hRecorded.attempts
  have hThreads := congrArg List.length h.mem.threads
  rw [List.length_map] at hThreads
  rw [offered_flatMap] at hOffered
  have hAll : offered ((List.range c.mem.threads.length).flatMap results) =
      c.mem.posts.map (·.cqe) := by
    rw [hThreads, ← hFlushed, ← hOffered, ← h.mem.cq.posts, List.map_map]
    rfl
  have hPerm := postedOf_perm_iff
    (c.mem.posts.map fun post => (post.cqe, Post.hasRoom ring post))
  rw [AllDelivered, hPosted, hAll, CqLedger.posted, ← h.mem.cq.posts]
  rw [List.map_map] at hPerm
  refine hPerm.trans ?_
  simp

/-! ### Three requests and a completion ring of two slots -/

def overflowBatches : List (List IoUringSqe) :=
  [[(nop 0).sqe], [(nop 1).sqe], [(nop 2).sqe]]

/-- Submit the batches, reap two completions and look again. -/
def overflowCalls : List (Call Squeue.Entry) :=
  submitOne 0 ++ submitOne 1 ++ submitOne 2 ++ [.completion, .next, .next, .cqDrop]

/-- The run of the three requests, up to the call that finds the queue empty. -/
theorem overflow_drained :
    ∃ c, Drained smallRing.1 (nopAnswers overflowBatches) smallRing.2 overflowCalls c ∧
      c.mem.threads = overflowBatches ∧ (deliveredIn c.history).length = 2 := by
  have hCalls : handlesAfter (Client.start smallRing.2).handles
      (overflowCalls ++ [.completion, .next]) = some ⟨false, true⟩ := rfl
  obtain ⟨c, hRun, -⟩ := runCalls_refines (nopAnswers overflowBatches)
    (start_refines _ smallRing_build) _ hCalls
  have hFacts : ((Client.start smallRing.2).runCalls smallRing.1 (nopAnswers overflowBatches)
      (overflowCalls ++ [.completion, .next])).map (fun c => (endsEmpty c.history,
        c.mem.threads, (deliveredIn c.history).length)) = some (true, overflowBatches, 2) := by
    decide +kernel
  rw [hRun, Option.map_some, Option.some.injEq, Prod.mk.injEq, Prod.mk.injEq] at hFacts
  obtain ⟨hEmpty, hThreads, hLength⟩ := hFacts
  exact ⟨c, ⟨hRun, hEmpty⟩, hThreads, hLength⟩

/-- The third of three completions is lost, although the client reaps and flushes until the
queue is empty. -/
theorem nodrop_loses_completion :
    ∃ c, Drained smallRing.1 (nopAnswers overflowBatches) smallRing.2 overflowCalls c ∧
      DispatchedAs c.mem.threads (nopTraces overflowBatches) (nopAnswers overflowBatches) ∧
      smallRing.1.params.isFeatureNodrop = true ∧
      ¬ AllDelivered (nopAnswers overflowBatches) c := by
  obtain ⟨c, hDrained, hThreads, hLength⟩ := overflow_drained
  refine ⟨c, hDrained, ?_, by decide +kernel, ?_⟩
  · rw [hThreads]
    exact dispatchedAs_nops (by decide)
  · intro hAll
    have hOffered := hAll.length_eq
    rw [List.length_map, hLength, hThreads] at hOffered
    exact absurd hOffered (by decide +kernel)

theorem nodrop_iff_overflow :
    ∃ c, Drained smallRing.1 (nopAnswers overflowBatches) smallRing.2 overflowCalls c ∧
      smallRing.1.params.isFeatureNodrop = true ∧
      (AllDelivered (nopAnswers overflowBatches) c ↔
        ∀ post ∈ c.mem.posts, Post.hasRoom smallRing.1 post = true) := by
  obtain ⟨c, hDrained, -⟩ := overflow_drained
  exact ⟨c, hDrained, nodrop_iff smallRing_build hDrained⟩

end Miring.Stream
