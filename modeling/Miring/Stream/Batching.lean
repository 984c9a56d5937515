import Miring.Stream.Completion

/-!
# Batches that are cut at chain boundaries

A list of requests can be fed to a ring in many ways: in one batch or in several, with the
joins of the dispatch threads anywhere between them. As long as every cut lies behind a
request that is not linked to the next, and the result of a dispatch depends only on its
request, the way makes no difference (`batching_unobservable`): the completions are those of
the list dispatched as one batch.
-/

namespace Miring.Stream

open Sys Miring.Ring Dispatch Program Submitter

variable {S C : Type} [Squeue.EntryMarker S] [Cqueue.EntryMarker C]

/-- Every batch but the last ends a chain. -/
def CutAtBoundaries (batches : List (List IoUringSqe)) : Prop :=
  ∀ batch ∈ batches.dropLast, EndsChain batch

/-- The outcomes of a list do not depend on how it is cut. -/
theorem outcomes_flatten (f : IoUringSqe → Int32) {batches : List (List IoUringSqe)}
    (h : CutAtBoundaries batches) :
    batches.flatMap (outcomes f false) = outcomes f false batches.flatten := by
  induction batches with
  | nil => rfl
  | cons batch batches ih =>
    cases batches with
    | nil => simp
    | cons next batches =>
      have hEnds : EndsChain batch := h batch (by simp)
      have hRest : CutAtBoundaries (next :: batches) := by
        intro x hx
        apply h x
        rw [List.dropLast_cons_cons]
        exact List.mem_cons_of_mem _ hx
      rw [List.flatMap_cons, ih hRest]
      exact (outcomes_append hEnds f _).symm

theorem flatMap_range {α β : Type} {xs : List α} {results : Nat → List β} {g : α → List β}
    (h : ∀ i x, xs[i]? = some x → results i = g x) :
    (List.range xs.length).flatMap results = xs.flatMap g := by
  have hMap : (List.range xs.length).map results = xs.map g := by
    apply List.ext_getElem?
    intro i
    rw [List.getElem?_map, List.getElem?_map]
    rcases Nat.lt_or_ge i xs.length with hi | hi
    · have hx : xs[i]? = some xs[i] := List.getElem?_eq_getElem hi
      rw [List.getElem?_range hi, hx, Option.map_some, Option.map_some, h i _ hx]
    · have hRange : (List.range xs.length)[i]? = none :=
        List.getElem?_eq_none (by rw [List.length_range]; exact hi)
      rw [hRange, List.getElem?_eq_none hi]
      rfl
  rw [List.flatMap_def, List.flatMap_def, hMap]

/-- One way of feeding the requests `sqes` to a ring. The result of each dispatch is given by
`f`, and no completion finds the ring full. -/
structure Fed (f : IoUringSqe → Int32) (ring : IoUring S C) (mem : RingMem S C)
    (traces : Nat → List (Event userSig)) (results : Nat → List CompletionData)
    (calls : List (Call S)) (sqes : List IoUringSqe) (c : Client S C) : Prop where
  run : (Client.start mem).runCalls ring results calls = some c
  consumed : c.mem.threads.flatten = sqes
  cuts : CutAtBoundaries c.mem.threads
  dispatched : DispatchedAs c.mem.threads traces results
  dispatchedBy : ∀ i < c.mem.threads.length, DispatchedBy f (traces i)
  room : ∀ post ∈ c.mem.posts, Post.hasRoom ring post = true

/-- The completions that the next flush will offer. -/
def pendingCqes (results : Nat → List CompletionData) (c : Client S C) : List IoUringCqe :=
  offered (c.mem.pending.flatMap results)

section Fed

variable {f : IoUringSqe → Int32} {ring : IoUring S C} {mem : RingMem S C}
  {traces : Nat → List (Event userSig)} {results : Nat → List CompletionData}
  {calls : List (Call S)} {sqes : List IoUringSqe} {c : Client S C}

/-- The dispatch threads return the outcomes of the list as one batch. -/
theorem Fed.results_eq (h : Fed f ring mem traces results calls sqes c) :
    (List.range c.mem.threads.length).flatMap results = outcomes f false sqes := by
  have hOutcomes : ∀ i batch, c.mem.threads[i]? = some batch →
      results i = outcomes f false batch := by
    intro i batch hBatch
    have hi := (List.getElem?_eq_some_iff.mp hBatch).1
    exact outcomes_of_path (h.dispatched i batch hBatch) (h.dispatchedBy i hi)
  rw [flatMap_range hOutcomes, outcomes_flatten f h.cuts, h.consumed]

theorem offered_append (xs ys : List CompletionData) :
    offered (xs ++ ys) = offered xs ++ offered ys := by
  simp [offered]

/-- What was posted and what waits to be posted are the completions of the list. -/
theorem Fed.posted_append_pending {b : Builder S C} {overflowChecks : Bool} {entries : UInt32}
    (hBuild : b.build overflowChecks entries = some (.ok (ring, mem)))
    (h : Fed f ring mem traces results calls sqes c) :
    postedCqes c ++ pendingCqes results c = offered (outcomes f false sqes) := by
  have hStream := completionStream_of_run hBuild h.run h.dispatched
  obtain ⟨-, hRefines⟩ := exists_ledger hBuild h.run
  have hLe : joined c ≤ c.mem.threads.length := Nat.sub_le _ _
  have hLength : c.mem.pending.length = c.mem.threads.length - joined c := by
    have hJoined := joined_eq hRefines
    rw [hRefines.mem.pending, hRefines.mem.threads, hJoined, Ledger.pending,
      List.length_range', List.length_map]
  have hPending := hStream.pending
  rw [hLength] at hPending
  rw [postedCqes, pendingCqes, hStream.posts, flushedOutcomes, hPending, ← offered_append,
    ← List.flatMap_append, range_append_range' hLe, h.results_eq]

/-- Behind the last flush, the client gets the completions of the list. -/
theorem Fed.stream_eq {b : Builder S C} {overflowChecks : Bool} {entries : UInt32}
    (hBuild : b.build overflowChecks entries = some (.ok (ring, mem)))
    (h : Fed f ring mem traces results calls sqes c) : stream ring c = (postedCqes c).map some := by
  have hStream := completionStream_of_run hBuild h.run h.dispatched
  have hAll : c.mem.posts.filter (Post.hasRoom ring) = c.mem.posts :=
    List.filter_eq_self.mpr h.room
  rw [hStream.posted, hAll, postedCqes, List.map_map]
  rfl

theorem Fed.submitted_eq {b : Builder S C} {overflowChecks : Bool} {entries : UInt32}
    (hBuild : b.build overflowChecks entries = some (.ok (ring, mem)))
    (h : Fed f ring mem traces results calls sqes c) :
    submittedIn c.history = sqes.length := by
  have hStream := completionStream_of_run hBuild h.run h.dispatched
  have hLe := hStream.consumed_le
  rw [← h.consumed, hStream.consumed, List.length_take, List.length_map]
  omega

end Fed

/-- What a client cannot tell apart: the counts, the completions once all are posted, and
what it receives of them. -/
structure SameCompletions (ring ring' : IoUring S C) (results results' : Nat → List CompletionData)
    (c c' : Client S C) : Prop where
  counts : submittedIn c.history = submittedIn c'.history
  /-- posted or still to be posted -/
  completions : postedCqes c ++ pendingCqes results c = postedCqes c' ++ pendingCqes results' c'
  posted : c.mem.pending = [] → c'.mem.pending = [] → postedCqes c = postedCqes c'
  received : c.mem.pending = [] → c'.mem.pending = [] → stream ring c = stream ring' c'

/-- **Batching.** Two ways of feeding the same requests, on rings of any sizes, with every
cut at a chain boundary, give the same counts in total and the same completions. -/
theorem batching_unobservable {b b' : Builder S C} {overflowChecks overflowChecks' : Bool}
    {entries entries' : UInt32} {ring ring' : IoUring S C} {mem mem' : RingMem S C}
    (hBuild : b.build overflowChecks entries = some (.ok (ring, mem)))
    (hBuild' : b'.build overflowChecks' entries' = some (.ok (ring', mem')))
    {f : IoUringSqe → Int32} {traces traces' : Nat → List (Event userSig)}
    {results results' : Nat → List CompletionData} {calls calls' : List (Call S)}
    {sqes : List IoUringSqe} {c c' : Client S C}
    (h : Fed f ring mem traces results calls sqes c)
    (h' : Fed f ring' mem' traces' results' calls' sqes c') :
    SameCompletions ring ring' results results' c c' := by
  have hCompletions : postedCqes c ++ pendingCqes results c =
      postedCqes c' ++ pendingCqes results' c' :=
    (h.posted_append_pending hBuild).trans (h'.posted_append_pending hBuild').symm
  have hPosted : c.mem.pending = [] → c'.mem.pending = [] → postedCqes c = postedCqes c' := by
    intro hNil hNil'
    have hNone : pendingCqes results c = [] := by rw [pendingCqes, hNil]; rfl
    have hNone' : pendingCqes results' c' = [] := by rw [pendingCqes, hNil']; rfl
    rwa [hNone, hNone', List.append_nil, List.append_nil] at hCompletions
  refine ⟨?_, hCompletions, hPosted, ?_⟩
  · exact (h.submitted_eq hBuild).trans (h'.submitted_eq hBuild').symm
  · intro hNil hNil'
    rw [h.stream_eq hBuild, h'.stream_eq hBuild', hPosted hNil hNil']

/-! ### Two requests in two batches or in one -/

/-- The default instance with two slots in the submission ring. -/
def wideRing : IoUring Squeue.Entry Cqueue.Entry × RingMem Squeue.Entry Cqueue.Entry :=
  let b : Builder Squeue.Entry Cqueue.Entry := .default
  (b.built true 2).get (by decide +kernel)

theorem wideRing_build : Builder.default.build true 2 = some (.ok (wideRing.1, wideRing.2)) :=
  Builder.build_of_built (by decide +kernel)

def twoBatches : List (List IoUringSqe) := [[(nop 0).sqe], [(nop 1).sqe]]

def oneBatch : List (List IoUringSqe) := [[(nop 0).sqe, (nop 1).sqe]]

/-- Two submitting calls and a flush behind them. -/
def twoBatchCalls : List (Call Squeue.Entry) := submitOne 0 ++ submitOne 1 ++ [.completion]

/-- One submitting call that flushes. -/
def oneBatchCalls : List (Call Squeue.Entry) :=
  [.submission, .pushMultiple [nop 0, nop 1], .sqDrop, .enter 8 1]

theorem fed_twoBatches :
    ∃ c, Fed (fun _ => 0) smallRing.1 smallRing.2 (nopTraces twoBatches) (nopAnswers twoBatches)
      twoBatchCalls twoBatches.flatten c ∧ c.mem.pending = [] ∧
      postedCqes c = [⟨0, 0, 0⟩, ⟨1, 0, 0⟩] := by
  have hCalls : handlesAfter (Client.start smallRing.2).handles twoBatchCalls =
      some ⟨false, true⟩ := rfl
  obtain ⟨c, hRun, -⟩ := runCalls_refines (nopAnswers twoBatches)
    (start_refines _ smallRing_build) _ hCalls
  have hFacts : ((Client.start smallRing.2).runCalls smallRing.1 (nopAnswers twoBatches)
      twoBatchCalls).map (fun c => (c.mem.threads, c.mem.pending, postedCqes c,
        c.mem.posts.all (Post.hasRoom smallRing.1))) =
      some (twoBatches, [], [⟨0, 0, 0⟩, ⟨1, 0, 0⟩], true) := by
    decide +kernel
  rw [hRun, Option.map_some, Option.some.injEq, Prod.mk.injEq, Prod.mk.injEq,
    Prod.mk.injEq] at hFacts
  obtain ⟨hThreads, hPending, hPosted, hRoom⟩ := hFacts
  refine ⟨c, ⟨hRun, by rw [hThreads], ?_, ?_, fun i _ => dispatchedBy_nopTrace _,
    List.all_eq_true.mp hRoom⟩, hPending, hPosted⟩
  · rw [hThreads]
    intro batch hBatch
    obtain rfl := List.mem_singleton.mp hBatch
    intro sqe hsqe
    cases hsqe
    decide
  · rw [hThreads]
    exact dispatchedAs_nops (by decide)

theorem fed_oneBatch :
    ∃ c, Fed (fun _ => 0) wideRing.1 wideRing.2 (nopTraces oneBatch) (nopAnswers oneBatch)
      oneBatchCalls twoBatches.flatten c ∧ c.mem.pending = [] := by
  have hCalls : handlesAfter (Client.start wideRing.2).handles oneBatchCalls =
      some .none := rfl
  obtain ⟨c, hRun, -⟩ := runCalls_refines (nopAnswers oneBatch)
    (start_refines _ wideRing_build) _ hCalls
  have hFacts : ((Client.start wideRing.2).runCalls wideRing.1 (nopAnswers oneBatch)
      oneBatchCalls).map (fun c => (c.mem.threads, c.mem.pending,
        c.mem.posts.all (Post.hasRoom wideRing.1))) = some (oneBatch, [], true) := by
    decide +kernel
  rw [hRun, Option.map_some, Option.some.injEq, Prod.mk.injEq, Prod.mk.injEq] at hFacts
  obtain ⟨hThreads, hPending, hRoom⟩ := hFacts
  refine ⟨c, ⟨hRun, by rw [hThreads]; rfl, ?_, ?_, fun i _ => dispatchedBy_nopTrace _,
    List.all_eq_true.mp hRoom⟩, hPending⟩
  · rw [hThreads]
    intro batch hBatch
    cases hBatch
  · rw [hThreads]
    exact dispatchedAs_nops (by decide)

theorem batching_unobservable_nops :
    ∃ c c', Fed (fun _ => 0) smallRing.1 smallRing.2 (nopTraces twoBatches)
        (nopAnswers twoBatches) twoBatchCalls twoBatches.flatten c ∧
      Fed (fun _ => 0) wideRing.1 wideRing.2 (nopTraces oneBatch) (nopAnswers oneBatch)
        oneBatchCalls twoBatches.flatten c' ∧
      c.mem.pending = [] ∧ c'.mem.pending = [] ∧
      SameCompletions smallRing.1 wideRing.1 (nopAnswers twoBatches) (nopAnswers oneBatch) c c' ∧
      postedCqes c' = [⟨0, 0, 0⟩, ⟨1, 0, 0⟩] := by
  obtain ⟨c, h, hPending, hPosted⟩ := fed_twoBatches
  obtain ⟨c', h', hPending'⟩ := fed_oneBatch
  have hSame := batching_unobservable smallRing_build wideRing_build h h'
  refine ⟨c, c', h, h', hPending, hPending', hSame, ?_⟩
  rw [← hSame.posted hPending hPending', hPosted]

end Miring.Stream
