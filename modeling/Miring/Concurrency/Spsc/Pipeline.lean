import Miring.Concurrency.Transit

/-!
# The whole pipeline between three parties

The producer, the submitter and the consumer of `split` work at the same time. In every state
that a schedule reaches, the entries that were pushed have gone into the batches of the dispatch
threads, in order; the threads that the submitter has joined are the oldest ones, and none is lost
between them and those that wait; what the joined ones have returned was posted in order; each
post was either written to the completion ring or counted as refused; and what was popped are the
written completions, in order (`spsc_pipeline`).

The protocol `spsc` says what the parties may do to the two rings, and `Transit.watch` what the
submitter does in between.
-/

namespace Miring.Concurrency

open Sys Miring.Ring Miring.Stream Dispatch Program Protocol Transit

variable {S C : Type} [Squeue.EntryMarker S] [Cqueue.EntryMarker C]

/-! ## Statement -/

/-- What holds in every state `s` behind `s₀`, for the threads that the submitter has joined on the
way, the completions posted and the number of those that were refused. -/
structure PipelineState (ring : IoUring S C) (results : Nat → List CompletionData)
    (s₀ s : RingMem S C) (joined : List Nat) (posted : List IoUringCqe) (refused : Nat) : Prop where
  /-- the batches of the new threads -/
  batches : ∃ batches, s.threads = s₀.threads ++ batches ∧
    batches.flatten <+: (queuedEntries ring s₀ ++ s.sqeWrites).map Squeue.EntryMarker.sqe
  /-- behind the joined threads stand those that a flush has taken, those that wait in the list,
  and one whose handle is not queued yet -/
  inOrder : ∃ (toJoin : List Nat) (fresh : Option Nat),
    joined ++ toJoin ++ s.pending ++ fresh.toList = s₀.pending ++
      List.range' s₀.threads.length (s.threads.length - s₀.threads.length)
  answered : posted <+: joined.flatMap (answers results)
  posts : s.posts.map (·.cqe) = s₀.posts.map (·.cqe) ++ posted
  written : s.cqeWrites.Sublist posted
  /-- but for the last post, each one was written or refused -/
  refused_ge : posted.length ≤ s.cqeWrites.length + refused + 1
  refused_le : s.cqeWrites.length + refused ≤ posted.length
  overflow : s.cells .cqOverflow = s₀.cells .cqOverflow + UInt32.ofNat refused
  popped : s.cqeReads.map Cqueue.EntryMarker.cqe <+: unreadCqes ring s₀ ++ s.cqeWrites
  sqFlags : s.cells .sqFlags = s₀.cells .sqFlags ∨
    s.cells .sqFlags = s₀.cells .sqFlags ||| ioringSqCqOverflow
  dropped : s.cells .sqDropped = s₀.cells .sqDropped
  cqFlags : s.cells .cqFlags = s₀.cells .cqFlags

/-! ## The parties -/

section Parties

variable {ring : IoUring S C}

/-- The owner of a queue handle does nothing that the monitor follows. -/
theorem only_call {call : Call S} {i : Party} (hParty : Call.party call = some i)
    (hi : i ≠ .submitter) : Only Unseen (call.program ring) := by
  cases call with
  | push entry => exact (only_push _ entry).map
  | pushMultiple entries => exact (only_pushMultiple _ entries).map
  | sqSync => exact only_sqSync.map
  | sqDrop => exact only_sqDrop.map
  | next => exact (only_next _).map
  | fill n => exact (only_fill _ n).map
  | cqSync => exact only_cqSync.map
  | cqDrop => exact only_cqDrop.map
  | query q => exact only_query ring q
  | submit | submitAndWait want | submitWithArgs want | enter toSubmit minComplete =>
    exact absurd (Option.some.inj hParty).symm hi
  | submission | completion | split => cases hParty

theorem only_calls {calls : List (Call S)} {i : Party}
    (hCalls : ∀ call ∈ calls, Call.party call = some i) (hi : i ≠ .submitter) :
    Only Unseen (callsProgram ring calls) := by
  induction calls with
  | nil => exact .ret _
  | cons call calls ih =>
    refine (only_call (hCalls call List.mem_cons_self) hi).bind fun reply => ?_
    exact (ih fun c hc => hCalls c (List.mem_cons_of_mem _ hc)).bind fun replies => .ret _

end Parties

/-! ## The result -/

section Result

variable {ring : IoUring S C} {results : Nat → List CompletionData} {s₀ s : RingMem S C}
  {g : Queues ring} {m : Transit}

/-- The two rings and what is between them. -/
theorem pipelineState_of_flows (hRings : SpscState ring s₀ s)
    (hFlows : Flows results (forgetLogs s₀) s m) :
    PipelineState ring results s₀ s m.joined m.posted m.refused := by
  have hReads : s.sqeReads = m.batches.flatten ++ m.copied := hFlows.reads
  have hWrites : s.cqeWrites = m.written := hFlows.writes
  have hThreads : s.threads = s₀.threads ++ m.batches := hFlows.threads
  have hOrder := hFlows.order
  have hCounted := hFlows.counted
  have hCurrent : m.current.toList.length ≤ 1 := Option.length_toList_le
  refine {
    batches := ⟨m.batches, hThreads, ?_⟩
    inOrder := ?_
    answered := ⟨m.owed, hFlows.answered⟩
    posts := hFlows.posts
    written := ?_
    refused_ge := ?_
    refused_le := ?_
    overflow := hFlows.overflow
    popped := hRings.cqReads
    sqFlags := hFlows.sqFlags
    dropped := hFlows.dropped
    cqFlags := hFlows.cqFlags }
  · refine List.IsPrefix.trans ?_ hRings.sqReads
    rw [hReads]
    exact List.prefix_append _ _
  · have hNew : s.threads.length - s₀.threads.length = m.batches.length := by
      rw [hThreads, List.length_append]
      omega
    rw [hNew]
    exact ⟨m.toJoin, m.fresh, hOrder⟩
  · rw [hWrites]
    exact (List.sublist_append_left _ _).trans hFlows.resolved
  · rw [hWrites]
    omega
  · rw [hWrites]
    omega

/-- **From the producer to the consumer**, in every state that a schedule of the three parties
reaches. -/
theorem spsc_pipeline (ring : IoUring S C) (results : Nat → List CompletionData)
    {s₀ : RingMem S C} (hSplit : SplitState ring s₀) {calls : Party → List (Call S)}
    (hCalls : ∀ i, ∀ call ∈ calls i, Call.party call = some i) {sched : List Party}
    {P : Pool Party (ringSig S C) (RingMem S C) (List (Reply C))}
    (hRun : (parties ring calls s₀).runSchedule (ringSem results) sched = some P) :
    ∃ posted refused, PipelineState ring results s₀ P.state
      (joins ((parties ring calls s₀).trace (ringSem results) .submitter sched))
      posted refused := by
  obtain ⟨g, hStands, -⟩ := safe_of_reach (start_stands hSplit) (start_rest hSplit)
    (fun i => triple_calls (hCalls i)) (Pool.reach_of_runSchedule hRun)
  have hWatched : Pool.Watched watch (Flows results (forgetLogs s₀)) Unseen
      (fun _ m => Resting m) .submitter (parties ring calls s₀) {} :=
    ⟨obeys_calls ring ⟨rfl, rfl, rfl, rfl, rfl⟩ _, fun j hj => only_calls (hCalls j) hj,
      flows_start results _⟩
  obtain ⟨m, hMon, hEnd⟩ := Pool.watched_of_runSchedule (flows_lockStep results _)
    (fun o s r s' m hQuiet hSem h => flows_unseen hQuiet hSem h) hWatched hRun
  have hJoined : m.joined = joins _ := joined_of_run hMon
  rw [← hJoined]
  exact ⟨_, _, pipelineState_of_flows (spscState_of_stands hStands) hEnd.rel⟩

theorem spsc_pipeline_nop :
    ∃ P posted refused, (parties smallRing.1 oneRequest smallRing.2).runSchedule
        (ringSem (nopAnswers [[(nop 7).sqe]])) staleTail = some P ∧
      P.state.cqeWrites = [⟨7, 0, 0⟩] ∧
      PipelineState smallRing.1 (nopAnswers [[(nop 7).sqe]]) smallRing.2 P.state [0]
        posted refused := by
  have hFacts : ((parties smallRing.1 oneRequest smallRing.2).runSchedule
      (ringSem (nopAnswers [[(nop 7).sqe]])) staleTail).map (fun P => P.state.cqeWrites) =
      some [⟨7, 0, 0⟩] := by decide +kernel
  have hJoins : joins ((parties smallRing.1 oneRequest smallRing.2).trace
      (ringSem (nopAnswers [[(nop 7).sqe]])) .submitter staleTail) = [0] := by decide +kernel
  obtain ⟨P, hP, hWrites⟩ := Option.map_eq_some_iff.mp hFacts
  obtain ⟨posted, refused, hState⟩ := spsc_pipeline smallRing.1 (nopAnswers [[(nop 7).sqe]])
    splitState_smallRing party_of_oneRequest hP
  rw [hJoins] at hState
  exact ⟨P, posted, refused, hP, hWrites, hState⟩

end Result

end Miring.Concurrency
