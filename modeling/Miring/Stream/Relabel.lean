import Miring.Stream.Completion

/-!
# User data

An instance hands the user data of a request back with its completion and does nothing else
with them. Some other fields of a request are not looked at at all. So a client that renames its
user data, and fills these fields as it likes, sees the same replies with the completions renamed,
and its dispatch threads make the same accesses (`user_data_opaque`).

The pipeline is generic in its requests and completions. What it does with them commutes with
any map of the ones and of the others (`Ledger.runCalls_map`).
-/

namespace Miring.Stream

open Sys Miring.Ring Dispatch Program

/-! ## Maps of pipelines -/

section Maps

variable {α α' β β' : Type} {sqCap cqCap cap : Nat} (g : α → α') (h : β → β')

@[simps] def SqLedger.map (q : SqLedger α cap) : SqLedger α' cap where
  accepted := q.accepted.map g
  published := q.published
  consumed := q.consumed
  seen := q.seen
  seen_le := q.seen_le
  consumed_le := q.consumed_le
  published_le := by rw [List.length_map]; exact q.published_le
  length_le := by rw [List.length_map]; exact q.length_le

def mapAttempts (attempts : List (β × Bool)) : List (β' × Bool) :=
  attempts.map fun x => (h x.1, x.2)

theorem postedOf_map (attempts : List (β × Bool)) :
    postedOf (mapAttempts h attempts) = (postedOf attempts).map h := by
  rw [postedOf, mapAttempts, List.filter_map, List.map_map, postedOf, List.map_map]
  rfl

theorem refusedOf_map (attempts : List (β × Bool)) :
    refusedOf (mapAttempts h attempts) = refusedOf attempts := by
  rw [refusedOf, mapAttempts, List.filter_map, List.length_map]
  rfl

@[simps] def CqLedger.map (q : CqLedger β cap) : CqLedger β' cap where
  attempts := mapAttempts h q.attempts
  delivered := q.delivered
  released := q.released
  seen := q.seen
  released_le := q.released_le
  delivered_le := q.delivered_le
  seen_le := by rw [postedOf_map, List.length_map]; exact q.seen_le
  length_le := by rw [postedOf_map, List.length_map]; exact q.length_le

@[simps] def Ledger.map (l : Ledger α β sqCap cqCap) : Ledger α' β' sqCap cqCap where
  sq := l.sq.map g
  cq := l.cq.map h
  batches := l.batches.map (List.map g)
  flushed := l.flushed
  batches_eq := by
    rw [← List.map_flatten, l.batches_eq, List.map_take]
    rfl
  flushed_le := by rw [List.length_map]; exact l.flushed_le

variable {g h}

/-- A queue of requests is given by its entries and counters. -/
theorem SqLedger.eq_of {q q' : SqLedger α cap} (hAccepted : q.accepted = q'.accepted)
    (hPublished : q.published = q'.published) (hConsumed : q.consumed = q'.consumed)
    (hSeen : q.seen = q'.seen) : q = q' := by
  cases q
  cases q'
  cases hAccepted
  cases hPublished
  cases hConsumed
  cases hSeen
  rfl

theorem CqLedger.eq_of {q q' : CqLedger β cap} (hAttempts : q.attempts = q'.attempts)
    (hDelivered : q.delivered = q'.delivered) (hReleased : q.released = q'.released)
    (hSeen : q.seen = q'.seen) : q = q' := by
  cases q
  cases q'
  cases hAttempts
  cases hDelivered
  cases hReleased
  cases hSeen
  rfl

theorem Ledger.eq_of {l l' : Ledger α β sqCap cqCap} (hSq : l.sq = l'.sq) (hCq : l.cq = l'.cq)
    (hBatches : l.batches = l'.batches) (hFlushed : l.flushed = l'.flushed) : l = l' := by
  cases l
  cases l'
  cases hSq
  cases hCq
  cases hBatches
  cases hFlushed
  rfl

/-! ### The queue of requests -/

section Requests

variable (q : SqLedger α cap)

theorem SqLedger.len_map : (q.map g).len = q.len := by
  show (q.accepted.map g).length - q.seen = _
  rw [List.length_map]
  rfl

theorem SqLedger.refresh_map : (q.map g).refresh = q.refresh.map g := rfl

theorem SqLedger.publish_map : (q.map g).publish = q.publish.map g := by
  apply SqLedger.eq_of
  · rfl
  · exact List.length_map _
  · rfl
  · rfl

/-- Entries are accepted or not, whatever they are. -/
theorem SqLedger.offer_map (xs : List α) :
    (q.map g).offer (xs.map g) = ((q.offer xs).1, (q.offer xs).2.map g) := by
  unfold SqLedger.offer
  by_cases hRoom : xs.length ≤ cap - q.len
  · have hRoom' : (xs.map g).length ≤ cap - (q.map g).len := by
      rw [List.length_map, SqLedger.len_map]
      exact hRoom
    rw [dif_pos hRoom, dif_pos hRoom']
    congr 1
    exact SqLedger.eq_of List.map_append.symm rfl rfl rfl
  · have hRoom' : ¬ (xs.map g).length ≤ cap - (q.map g).len := by
      rw [List.length_map, SqLedger.len_map]
      exact hRoom
    rw [dif_neg hRoom, dif_neg hRoom']

theorem SqLedger.batch_map (n : Nat) : (q.map g).batch n = (q.batch n).map g := by
  show ((q.accepted.map g).drop q.consumed).take n = _
  rw [SqLedger.batch, List.map_take, List.map_drop]

end Requests

/-! ### The queue of completions -/

section Completions

variable (q : CqLedger β cap)

theorem CqLedger.posted_map : (q.map h).posted = q.posted.map h := postedOf_map h q.attempts

theorem CqLedger.refused_map : (q.map h).refused = q.refused := refusedOf_map h q.attempts

theorem CqLedger.hasRoom_map : (q.map h).hasRoom = q.hasRoom := by
  rw [CqLedger.hasRoom, CqLedger.posted_map, List.length_map]
  rfl

theorem CqLedger.post_map (x : β) : (q.map h).post (h x) = (q.post x).map h := by
  apply CqLedger.eq_of
  · show mapAttempts h q.attempts ++ [(h x, (q.map h).hasRoom)] = mapAttempts h (q.attempts ++ _)
    rw [CqLedger.hasRoom_map, mapAttempts, mapAttempts, List.map_append]
    rfl
  · rfl
  · rfl
  · rfl

theorem CqLedger.postAll_map (xs : List β) :
    (q.map h).postAll (xs.map h) = (q.postAll xs).map h := by
  induction xs generalizing q with
  | nil => rfl
  | cons x xs ih =>
    rw [List.map_cons, CqLedger.postAll, List.foldl_cons, CqLedger.post_map]
    exact ih (q.post x)

theorem CqLedger.refresh_map : (q.map h).refresh = q.refresh.map h := by
  apply CqLedger.eq_of
  · rfl
  · rfl
  · rfl
  · show (q.map h).posted.length = _
    rw [CqLedger.posted_map, List.length_map]
    rfl

theorem CqLedger.take_map (n : Nat) :
    (q.map h).take n = ((q.take n).1.map h, (q.take n).2.map h) := by
  have hUnread : (q.map h).unread = q.unread.map h := by
    rw [CqLedger.unread, CqLedger.posted_map, CqLedger.unread, List.map_drop]
    rfl
  unfold CqLedger.take
  rw [hUnread, List.map_take]
  rfl

end Completions

/-! ### The pipeline -/

section Pipeline

variable (l : Ledger α β sqCap cqCap)

theorem Ledger.pending_map : (l.map g h).pending = l.pending := by
  show List.range' l.flushed ((l.batches.map (List.map g)).length - l.flushed) = _
  rw [List.length_map]
  rfl

theorem Ledger.offer_map (xs : List α) :
    (l.map g h).offer (xs.map g) = ((l.offer xs).1, (l.offer xs).2.map g h) := by
  have hSq := l.sq.offer_map (g := g) xs
  have hAccepted := congrArg Prod.fst hSq
  have hQueue := congrArg Prod.snd hSq
  exact Prod.ext hAccepted (Ledger.eq_of hQueue rfl rfl rfl)

theorem Ledger.publish_map : (l.map g h).publish = l.publish.map g h :=
  Ledger.eq_of l.sq.publish_map rfl rfl rfl

theorem Ledger.enqueue_map (k : Nat) :
    (l.map g h).enqueue k = ((l.enqueue k).1, (l.enqueue k).2.map g h) := by
  unfold Ledger.enqueue
  by_cases hZero : min k l.sq.ready = 0
  · rw [if_pos hZero, if_pos (show min k (l.map g h).sq.ready = 0 from hZero)]
  · rw [if_neg hZero, if_neg (show ¬ min k (l.map g h).sq.ready = 0 from hZero)]
    refine Prod.ext rfl (Ledger.eq_of rfl rfl ?_ rfl)
    show l.batches.map (List.map g) ++ [(l.sq.map g).batch _] = (l.batches ++ [_]).map _
    rw [SqLedger.batch_map, List.map_append]
    rfl

variable {answers : Nat → List β} {answers' : Nat → List β'}

theorem Ledger.flush_map (hAnswers : ∀ i, answers' i = (answers i).map h) :
    (l.map g h).flush answers' = (l.flush answers).map g h := by
  have hCqes : (l.map g h).pending.flatMap answers' = (l.pending.flatMap answers).map h := by
    rw [Ledger.pending_map, List.map_flatMap, funext hAnswers]
  apply Ledger.eq_of
  · rfl
  · show (l.cq.map h).postAll ((l.map g h).pending.flatMap answers') = _
    rw [hCqes, CqLedger.postAll_map]
    rfl
  · rfl
  · exact List.length_map _

theorem Ledger.flushIf_map (hAnswers : ∀ i, answers' i = (answers i).map h) (b : Bool) :
    (l.map g h).flushIf answers' b = (l.flushIf answers b).map g h := by
  cases b with
  | true => exact l.flush_map hAnswers
  | false => rfl

end Pipeline

end Maps

/-! ## Maps of runs -/

section Runs

variable {S C : Type} {ring : IoUring S C} {g : S → S} {h : IoUringCqe → IoUringCqe}
  {answers answers' : Nat → List IoUringCqe}

/-- A call with other entries. -/
def Call.map (g : S → S) : Call S → Call S
  | .push entry => .push (g entry)
  | .pushMultiple entries => .pushMultiple (entries.map g)
  | call => call

def mapHistory (g : S → S) (h : IoUringCqe → IoUringCqe)
    (history : List (Call S × Reply IoUringCqe)) : List (Call S × Reply IoUringCqe) :=
  history.map fun x => (Call.map g x.1, x.2.map h)

theorem Call.handles_map (hs : Handles) (call : Call S) :
    (Call.map g call).handles hs = call.handles hs := by
  cases call <;> rfl

theorem handlesAfter_map (hs : Handles) (calls : List (Call S)) :
    handlesAfter hs (calls.map (Call.map g)) = handlesAfter hs calls := by
  induction calls generalizing hs with
  | nil => rfl
  | cons call calls ih =>
    rw [List.map_cons, handlesAfter, handlesAfter, Call.handles_map]
    congr 1
    funext hs'
    exact ih hs'

theorem Ledger.query_map (l : RingLedger ring) (q : Query) :
    Ledger.query (l.map g h : RingLedger ring) q = (Ledger.query l q).map h := by
  have hSqLen : (l.map g h : RingLedger ring).sq.len = l.sq.len := l.sq.len_map
  have hRefused : (l.map g h : RingLedger ring).cq.refused = l.cq.refused := l.cq.refused_map
  cases q <;> simp only [Ledger.query, Reply.map, hSqLen, hRefused] <;> rfl

theorem Ledger.submit_map (hAnswers : ∀ i, answers' i = (answers i).map h)
    (l : RingLedger ring) (k : Nat) (wait : Bool) :
    Ledger.submit answers' (l.map g h : RingLedger ring) k wait =
      ((Ledger.submit answers l k wait).1.map h, (Ledger.submit answers l k wait).2.map g h) := by
  rw [Ledger.submit, Ledger.enqueue_map]
  exact Prod.ext rfl ((l.enqueue k).2.flushIf_map hAnswers wait)

/-- **One call** on the mapped pipeline. -/
theorem Ledger.call_map (hAnswers : ∀ i, answers' i = (answers i).map h) (l : RingLedger ring)
    (call : Call S) :
    Ledger.call answers' (l.map g h : RingLedger ring) (Call.map g call) =
      ((Ledger.call answers l call).1.map h, (Ledger.call answers l call).2.map g h) := by
  have hFlush := l.flush_map (g := g) hAnswers
  cases call with
  | submission => rfl
  | push entry =>
    have hOffer := l.offer_map (g := g) (h := h) [entry]
    rw [List.map_singleton] at hOffer
    rw [Call.map, Ledger.call, hOffer]
    rfl
  | pushMultiple entries =>
    rw [Call.map, Ledger.call, l.offer_map]
    rfl
  | sqSync =>
    refine Prod.ext rfl ?_
    show (l.map g h : RingLedger ring).publish.refreshSq = _
    rw [l.publish_map]
    rfl
  | sqDrop => exact Prod.ext rfl l.publish_map
  | submit => exact Ledger.submit_map hAnswers l _ _
  | submitAndWait want => exact Ledger.submit_map hAnswers l _ _
  | submitWithArgs want => exact Ledger.submit_map hAnswers l _ _
  | enter toSubmit minComplete => exact Ledger.submit_map hAnswers l _ _
  | completion =>
    refine Prod.ext rfl ?_
    show ((l.map g h : RingLedger ring).flush answers').withCq _ = _
    rw [hFlush]
    exact Ledger.eq_of rfl (l.flush answers).cq.refresh_map rfl rfl
  | next =>
    have hTake := l.cq.take_map (h := h) 1
    have hTaken := congrArg Prod.fst hTake
    refine Prod.ext ?_ (Ledger.eq_of rfl (congrArg Prod.snd hTake) rfl rfl)
    show Reply.entry ((l.cq.map h).take 1).1.head? = Reply.entry ((l.cq.take 1).1.head?.map h)
    rw [hTaken, List.head?_map]
  | fill n =>
    have hTake := l.cq.take_map (h := h) n
    have hTaken := congrArg Prod.fst hTake
    refine Prod.ext ?_ (Ledger.eq_of rfl (congrArg Prod.snd hTake) rfl rfl)
    exact congrArg Reply.entries hTaken
  | cqSync => exact Prod.ext rfl (Ledger.eq_of rfl l.cq.release.refresh_map rfl rfl)
  | cqDrop => rfl
  | split =>
    refine Prod.ext rfl ?_
    show ((l.map g h : RingLedger ring).flush answers').refreshSq.withCq
      ((l.map g h : RingLedger ring).flush answers').cq.refresh = _
    rw [hFlush]
    exact Ledger.eq_of rfl (l.flush answers).cq.refresh_map rfl rfl
  | query q => exact Prod.ext (l.query_map q) rfl

/-- A list of calls, by induction on the list. -/
theorem Ledger.runCalls_map (hAnswers : ∀ i, answers' i = (answers i).map h)
    (l : RingLedger ring) (calls : List (Call S)) :
    Ledger.runCalls answers' (l.map g h : RingLedger ring) (calls.map (Call.map g)) =
      (mapHistory g h (Ledger.runCalls answers l calls).1,
        (Ledger.runCalls answers l calls).2.map g h) := by
  induction calls generalizing l with
  | nil => rfl
  | cons call calls ih =>
    rw [List.map_cons, Ledger.runCalls, Ledger.call_map hAnswers]
    simp only [ih]
    rfl

end Runs

/-! ## Statement -/

section Statement

variable (f : UInt64 → UInt64)

/-- The request with other user data, and anything in the fields that no handler looks at. -/
structure Relabelled (sqe sqe' : IoUringSqe) : Prop where
  opcode : sqe'.opcode = sqe.opcode
  flags : sqe'.flags = sqe.flags
  fd : sqe'.fd = sqe.fd
  off : sqe'.off = sqe.off
  addr : sqe'.addr = sqe.addr
  len : sqe'.len = sqe.len
  opFlags : sqe'.opFlags = sqe.opFlags
  addr3 : sqe'.addr3 = sqe.addr3
  userData : sqe'.userData = f sqe.userData

def relabelData (cd : CompletionData) : CompletionData := { cd with userData := f cd.userData }

def relabelCqe (cqe : IoUringCqe) : IoUringCqe := { cqe with userData := f cqe.userData }

def relabelResults (results : Nat → List CompletionData) (i : Nat) : List CompletionData :=
  (results i).map (relabelData f)

/-- What a dispatch thread does to the user memory. -/
def accesses (tr : List (Event userSig)) : List (Event userSig) :=
  tr.filter fun e => (Trace.addr e).isSome

variable {S C : Type} [Squeue.EntryMarker S] [Cqueue.EntryMarker C]

/-- The client `c'` has done what `c` has, with the entries renamed by `g`. -/
structure SameUpTo (g : S → S) (traces : Nat → List (Event userSig))
    (results : Nat → List CompletionData) (c c' : Client S C) : Prop where
  history : cqeHistory c'.history = mapHistory g (relabelCqe f) (cqeHistory c.history)
  overflow : c'.mem.cells .cqOverflow = c.mem.cells .cqOverflow
  threads : List.Forall₂ (List.Forall₂ (Relabelled f)) c.mem.threads c'.mem.threads
  /-- the dispatch threads may run as before -/
  dispatched : DispatchedAs c.mem.threads traces results →
    ∃ traces', DispatchedAs c'.mem.threads traces' (relabelResults f results) ∧
      ∀ i < c.mem.threads.length, accesses (traces' i) = accesses (traces i)

end Statement

/-! ## Dispatch -/

section Dispatch

variable {f : UInt64 → UInt64} {sqe sqe' : IoUringSqe} {sqes sqes' : List IoUringSqe}

/-- No handler looks at the user data. -/
theorem dispatchOp_relabelled (h : Relabelled f sqe sqe') : dispatchOp sqe' = dispatchOp sqe := by
  obtain ⟨hOpcode, hFlags, hFd, hOff, hAddr, hLen, hOpFlags, hAddr3, hUser⟩ := h
  cases sqe
  cases sqe'
  cases hOpcode
  cases hFlags
  cases hFd
  cases hOff
  cases hAddr
  cases hLen
  cases hOpFlags
  cases hAddr3
  rfl

theorem nextCancelChain_relabelled (h : Relabelled f sqe sqe') (cancelChain : Bool)
    (result : Int32) :
    nextCancelChain cancelChain sqe' result = nextCancelChain cancelChain sqe result := by
  unfold nextCancelChain linksToNext isHardlink
  rw [h.flags]

theorem accesses_append (tr tr' : List (Event userSig)) :
    accesses (tr ++ tr') = accesses tr ++ accesses tr' :=
  List.filter_append _ _

theorem path_mark_iff {m : Mark} {tr : List (Event userSig)} {u : Unit} :
    Path (mark m) tr u ↔ tr = [⟨.note m, ()⟩] := by
  rw [mark, path_act_iff]
  constructor
  · rintro ⟨⟨⟩, _, hRet, rfl⟩
    obtain ⟨rfl, -⟩ := path_ret_iff.mp hRet
    rfl
  · rintro rfl
    exact ⟨(), [], path_ret_iff.mpr ⟨rfl, rfl⟩, rfl⟩

theorem path_dispatchUnlessCancelled_relabelled (h : Relabelled f sqe sqe') {cancelChain : Bool}
    {tr : List (Event userSig)} {result : Int32}
    (hPath : Path (dispatchUnlessCancelled cancelChain sqe) tr result) :
    ∃ tr', Path (dispatchUnlessCancelled cancelChain sqe') tr' result ∧
      accesses tr' = accesses tr := by
  cases cancelChain with
  | true => exact ⟨tr, hPath, rfl⟩
  | false =>
    obtain ⟨tr₁, u, tr₂, hEnter, hRest, rfl⟩ := path_bind_iff.mp hPath
    obtain ⟨tr₃, r, tr₄, hOp, hRest', rfl⟩ := path_bind_iff.mp hRest
    obtain ⟨tr₅, u', tr₆, hLeave, hRet, rfl⟩ := path_bind_iff.mp hRest'
    obtain ⟨rfl, rfl⟩ := path_ret_iff.mp hRet
    rw [path_mark_iff.mp hEnter, path_mark_iff.mp hLeave]
    rw [← dispatchOp_relabelled h] at hOp
    refine ⟨_, path_bind_iff.mpr ⟨_, (), _, path_mark_iff.mpr rfl, path_bind_iff.mpr
      ⟨tr₃, result, _, hOp, path_bind_iff.mpr
        ⟨_, (), _, path_mark_iff.mpr rfl, path_ret_iff.mpr ⟨rfl, rfl⟩, rfl⟩, rfl⟩, rfl⟩, ?_⟩
    simp only [accesses_append]
    rfl

/-- The loop over the requests, by induction on these. -/
theorem path_dispatchLoop_relabelled (h : List.Forall₂ (Relabelled f) sqes sqes')
    {cancelChain : Bool} {tr : List (Event userSig)} {results : List CompletionData}
    (hPath : Path (dispatchLoop cancelChain sqes) tr results) :
    ∃ tr', Path (dispatchLoop cancelChain sqes') tr' (results.map (relabelData f)) ∧
      accesses tr' = accesses tr := by
  induction h generalizing cancelChain tr results with
  | nil =>
    obtain ⟨rfl, rfl⟩ := path_ret_iff.mp hPath
    exact ⟨[], path_ret_iff.mpr ⟨rfl, rfl⟩, rfl⟩
  | @cons sqe sqe' sqes sqes' hOne hMore ih =>
    obtain ⟨tr₁, result, tr₂, rest, hHead, hTail, rfl, rfl⟩ := path_dispatchLoop_cons_iff.mp hPath
    obtain ⟨tr₁', hHead', hAccesses₁⟩ := path_dispatchUnlessCancelled_relabelled hOne hHead
    rw [← nextCancelChain_relabelled hOne] at hTail
    obtain ⟨tr₂', hTail', hAccesses₂⟩ := ih hTail
    refine ⟨_, path_dispatchLoop_cons_iff.mpr ⟨tr₁', result, tr₂', _, hHead', hTail', rfl, ?_⟩, ?_⟩
    · have hSkip : skipsSuccess sqe' = skipsSuccess sqe := by
        unfold skipsSuccess
        rw [hOne.flags]
      rw [hOne.userData, hSkip]
      rfl
    · show accesses (tr₁' ++ tr₂') = accesses (tr₁ ++ tr₂)
      rw [accesses_append, accesses_append, hAccesses₁, hAccesses₂]

/-- All dispatch threads of an instance. -/
theorem dispatchedAs_relabelled {threads threads' : List (List IoUringSqe)}
    {traces : Nat → List (Event userSig)} {results : Nat → List CompletionData}
    (h : List.Forall₂ (List.Forall₂ (Relabelled f)) threads threads')
    (hDispatched : DispatchedAs threads traces results) :
    ∃ traces', DispatchedAs threads' traces' (relabelResults f results) ∧
      ∀ i < threads.length, accesses (traces' i) = accesses (traces i) := by
  have hEach : ∀ i sqes', threads'[i]? = some sqes' → ∃ tr',
      Path (dispatchBatch sqes') tr' (relabelResults f results i) ∧
        accesses tr' = accesses (traces i) := by
    intro i sqes' hi'
    obtain ⟨hLt', rfl⟩ := List.getElem?_eq_some_iff.mp hi'
    have hLt : i < threads.length := by
      rw [h.length_eq]
      exact hLt'
    exact path_dispatchLoop_relabelled ((List.forall₂_iff_get.mp h).2 i hLt hLt')
      (hDispatched i _ (List.getElem?_eq_getElem hLt))
  obtain ⟨traces', hTraces'⟩ := exists_traces hEach
  refine ⟨traces', fun i sqes' hi => (hTraces' i sqes' hi).1, ?_⟩
  intro i hi
  rw [h.length_eq] at hi
  exact (hTraces' i _ (List.getElem?_eq_getElem hi)).2

end Dispatch

/-! ## The result -/

section Result

variable {S C : Type} [Squeue.EntryMarker S] [Cqueue.EntryMarker C] {ring : IoUring S C}
  {f : UInt64 → UInt64} {g : S → S} {results : Nat → List CompletionData}

omit [Squeue.EntryMarker S] [Cqueue.EntryMarker C] in
theorem answers_relabelled (i : Nat) :
    answers (relabelResults f results) i = (answers results i).map (relabelCqe f) := by
  rw [answers, offered, relabelResults, List.filter_map, List.map_map, answers, offered,
    List.map_map]
  rfl

/-- The dispatch threads of the mapped pipeline. -/
theorem forall₂_relabelled
    (hg : ∀ entry, Relabelled f (Squeue.EntryMarker.sqe entry) (Squeue.EntryMarker.sqe (g entry)))
    (batches : List (List S)) :
    List.Forall₂ (List.Forall₂ (Relabelled f)) (batches.map (List.map Squeue.EntryMarker.sqe))
      ((batches.map (List.map g)).map (List.map Squeue.EntryMarker.sqe)) := by
  have hEntries : ∀ batch : List S, List.Forall₂ (Relabelled f)
      (batch.map Squeue.EntryMarker.sqe) ((batch.map g).map Squeue.EntryMarker.sqe) := by
    intro batch
    rw [List.map_map, List.forall₂_map_left_iff, List.forall₂_map_right_iff]
    exact List.forall₂_same.mpr fun entry _ => hg entry
  rw [List.map_map, List.forall₂_map_left_iff, List.forall₂_map_right_iff]
  exact List.forall₂_same.mpr fun batch _ => hEntries batch

/-- **User data.** The run of a client that renames its user data is the same run with the
completions renamed. -/
theorem user_data_opaque {b : Builder S C} {overflowChecks : Bool} {entries : UInt32}
    {mem : RingMem S C} (hBuild : b.build overflowChecks entries = some (.ok (ring, mem)))
    (hg : ∀ entry, Relabelled f (Squeue.EntryMarker.sqe entry) (Squeue.EntryMarker.sqe (g entry)))
    {calls : List (Call S)} {c : Client S C}
    (hRun : (Client.start mem).runCalls ring results calls = some c) :
    ∃ c', (Client.start mem).runCalls ring (relabelResults f results)
        (calls.map (Call.map g)) = some c' ∧
      ∀ traces, SameUpTo f g traces results c c' := by
  obtain ⟨hHistory, h⟩ := exists_ledger hBuild hRun
  have hCalls : handlesAfter (Client.start (S := S) mem).handles (calls.map (Call.map g)) =
      some c.handles := by
    rw [handlesAfter_map]
    exact handlesAfter_of_runCalls hRun
  obtain ⟨c', hRun', -, hHistory', h'⟩ := runCalls_refines (relabelResults f results)
    (start_refines b hBuild) _ hCalls
  have hStart : (startLedger ring).map g (relabelCqe f) = startLedger ring := rfl
  rw [← hStart, Ledger.runCalls_map answers_relabelled] at hHistory' h'
  refine ⟨c', hRun', fun traces => ?_⟩
  have hThreads : List.Forall₂ (List.Forall₂ (Relabelled f)) c.mem.threads c'.mem.threads := by
    rw [h.mem.threads, h'.mem.threads]
    exact forall₂_relabelled hg _
  refine ⟨?_, ?_, hThreads, dispatchedAs_relabelled hThreads⟩
  · rw [hHistory, hHistory']
    rfl
  · rw [h'.mem.cq.overflow, h.mem.cq.overflow]
    exact congrArg UInt32.ofNat (CqLedger.refused_map _)

/-! ### A client that forgets its user data -/

/-- The entry with user data 0 and another personality. -/
def forget (entry : Squeue.Entry) : Squeue.Entry := (entry.userData 0).personality 1

theorem relabelled_forget (entry : Squeue.Entry) :
    Relabelled (fun _ => 0) (Squeue.EntryMarker.sqe entry) (Squeue.EntryMarker.sqe (forget entry)) :=
  ⟨rfl, rfl, rfl, rfl, rfl, rfl, rfl, rfl, rfl⟩

theorem user_data_opaque_forget :
    ∃ c c', (Client.start smallRing.2).runCalls smallRing.1 (nopAnswers [[(nop 7).sqe]])
        nopCalls = some c ∧
      SameUpTo (fun _ => 0) forget (nopTraces [[(nop 7).sqe]]) (nopAnswers [[(nop 7).sqe]]) c c' := by
  have hCalls : handlesAfter (Client.start smallRing.2).handles nopCalls = some .none := rfl
  obtain ⟨c, hRun, -⟩ := runCalls_refines (nopAnswers [[(nop 7).sqe]])
    (start_refines _ smallRing_build) nopCalls hCalls
  obtain ⟨c', -, hSame⟩ := user_data_opaque smallRing_build relabelled_forget hRun
  exact ⟨c, c', hRun, hSame _⟩

end Result

end Miring.Stream
