import Miring.Stream.Completion

/-!
# Rounds

Whatever a client has done, it can get the instance back to a state where nothing is on its
way: `recoverCalls` drops the handles, submits what is left and takes all completions. From there a
client that submits a batch and takes its completions before the next batch never loses one,
as long as no batch exceeds the two queues (`recover_and_serve`). Neither the counters, which
wrap around, nor completions lost before make a difference.

On the pipeline, `Ledger.Settled` is the state between two rounds, and a round is computed call
by call (`Ledger.Settled.round`).
-/

namespace Miring.Stream

open Sys Miring.Ring Dispatch Program

/-! ## Settled pipelines -/

section Settled

variable {α β : Type} {sqCap cqCap : Nat}

/-- Nothing is on its way. -/
structure Ledger.Settled (l : Ledger α β sqCap cqCap) : Prop where
  consumed : l.sq.consumed = l.sq.accepted.length
  flushed : l.flushed = l.batches.length
  delivered : l.cq.delivered = l.cq.posted.length
  released : l.cq.released = l.cq.posted.length

theorem Ledger.pending_eq_nil_iff (l : Ledger α β sqCap cqCap) :
    l.pending = [] ↔ l.flushed = l.batches.length := by
  have hLe := l.flushed_le
  rw [pending, List.range'_eq_nil_iff]
  omega

/-- Where nothing is pending, there is nothing to flush. -/
theorem Ledger.flush_of_flushed {answers : Nat → List β} {l : Ledger α β sqCap cqCap}
    (h : l.flushed = l.batches.length) : l.flush answers = l := by
  have hPending := l.pending_eq_nil_iff.mpr h
  unfold Ledger.flush
  simp only [hPending, ← h]
  rfl

/-- With room for all of them, all completions are posted. -/
theorem postAll_of_room {q : CqLedger β cqCap} {xs : List β}
    (h : q.posted.length + xs.length ≤ q.released + cqCap) :
    (q.postAll xs).posted = q.posted ++ xs ∧ (q.postAll xs).refused = q.refused := by
  induction xs generalizing q with
  | nil => exact ⟨(List.append_nil _).symm, rfl⟩
  | cons x xs ih =>
    rw [List.length_cons] at h
    have hLe := q.released_le_posted
    have hRoom : q.hasRoom = true := decide_eq_true (by omega)
    have hPosted : (q.post x).posted = q.posted ++ [x] := by rw [posted_post, if_pos hRoom]
    have hRefused : (q.post x).refused = q.refused := by rw [refused_post, if_pos hRoom]
    obtain ⟨hRestPosted, hRestRefused⟩ := ih (q := q.post x) (by
      rw [hPosted, List.length_append, List.length_singleton]
      show q.posted.length + 1 + xs.length ≤ q.released + cqCap
      omega)
    constructor
    · rw [CqLedger.postAll, List.foldl_cons]
      rw [hPosted, List.append_assoc] at hRestPosted
      exact hRestPosted
    · exact hRestRefused.trans hRefused

end Settled

/-! ## The calls of a client -/

section Calls

variable {S C : Type}

def dropCalls (hs : Handles) : List (Call S) :=
  (if hs.sq then [.sqDrop] else []) ++ (if hs.cq then [.cqDrop] else [])

/-- Drop the handles, submit what is left and take all completions. -/
def recoverCalls (ring : IoUring S C) (hs : Handles) : List (Call S) :=
  dropCalls hs ++ [.submitAndWait 1, .completion, .fill (Cqueue.capacity ring.cq), .cqDrop]

/-- Submit a batch and take its completions. -/
def roundCalls (batch : List S) : List (Call S) :=
  [.submission, .pushMultiple batch, .sqDrop, .submitAndWait 1, .completion,
    .fill batch.length, .cqDrop]

/-- The replies of a round whose batch offers the completions `cqes`. -/
def roundHistory (batch : List S) (cqes : List IoUringCqe) :
    List (Call S × Reply IoUringCqe) :=
  [(.submission, .unit), (.pushMultiple batch, .pushed (.ok ())), (.sqDrop, .unit),
    (.submitAndWait 1, .count batch.length), (.completion, .unit),
    (.fill batch.length, .entries cqes), (.cqDrop, .unit)]

/-- The batch that a round starts; an empty one is not started. -/
def started (batch : List S) : List (List S) := if batch.isEmpty then [] else [batch]

/-- The replies of rounds, where the first batch is taken by the dispatch thread `i`. -/
def roundsHistory (answers : Nat → List IoUringCqe) :
    Nat → List (List S) → List (Call S × Reply IoUringCqe)
  | _, [] => []
  | i, batch :: batches =>
      roundHistory batch (if batch.isEmpty then [] else answers i) ++
        roundsHistory answers (i + (started batch).length) batches

/-- Dropping what is held is always allowed. -/
theorem handlesAfter_dropCalls (hs : Handles) :
    handlesAfter hs (dropCalls hs : List (Call S)) = some .none := by
  obtain ⟨sq, cq⟩ := hs
  cases sq <;> cases cq <;> rfl

theorem handlesAfter_rounds (batches : List (List S)) :
    handlesAfter .none (batches.flatMap roundCalls) = some .none := by
  induction batches with
  | nil => rfl
  | cons batch batches ih =>
    rw [List.flatMap_cons]
    exact ih

end Calls

/-! ## A round on the pipeline -/

section Round

variable {S C : Type} {ring : IoUring S C} {answers : Nat → List IoUringCqe}
  {l : RingLedger ring}

theorem Ledger.runCalls_append_of {l₁ l₂ : RingLedger ring} {calls calls' : List (Call S)}
    {history history' : List (Call S × Reply IoUringCqe)}
    (h : Ledger.runCalls answers l calls = (history, l₁))
    (h' : Ledger.runCalls answers l₁ calls' = (history', l₂)) :
    Ledger.runCalls answers l (calls ++ calls') = (history ++ history', l₂) := by
  rw [Ledger.runCalls_append, h]
  show (history ++ (Ledger.runCalls answers l₁ calls').1, _) = _
  rw [h']

variable (answers)

/-- The batch is accepted and published. -/
theorem Ledger.Settled.push (h : l.Settled) {batch : List S}
    (hFit : batch.length ≤ Squeue.capacity ring.sq) :
    ∃ l' : RingLedger ring,
      Ledger.runCalls answers l [.submission, .pushMultiple batch, .sqDrop] =
        ([(.submission, .unit), (.pushMultiple batch, .pushed (.ok ())), (.sqDrop, .unit)], l') ∧
      l'.sq.accepted = l.sq.accepted ++ batch ∧
      l'.sq.published = l'.sq.accepted.length ∧
      l'.sq.consumed = l.sq.accepted.length ∧
      l'.cq = l.cq ∧ l'.batches = l.batches ∧ l'.flushed = l.flushed := by
  have hLen : l.refreshSq.sq.len = 0 := by
    show l.sq.accepted.length - l.sq.consumed = 0
    rw [h.consumed, Nat.sub_self]
  have hRoom : batch.length ≤ Squeue.capacity ring.sq - l.refreshSq.sq.len := by
    rw [hLen]
    exact hFit
  have hOffer : l.refreshSq.sq.offer batch = (true, l.refreshSq.sq.pushAll batch hRoom) :=
    dif_pos hRoom
  refine ⟨(l.refreshSq.offer batch).2.publish, ?_, ?_, ?_, ?_, rfl, rfl, rfl⟩
  · simp only [Ledger.runCalls, Ledger.call, Ledger.offer, hOffer]
    rfl
  · show (l.refreshSq.sq.offer batch).2.accepted = _
    rw [hOffer]
    rfl
  · rfl
  · show (l.refreshSq.sq.offer batch).2.consumed = _
    rw [hOffer]
    exact h.consumed

/-- The submitted batch is dispatched, and nothing is pending behind that. -/
theorem Ledger.submitAll {batch : List S}
    (hPublished : l.sq.published = l.sq.accepted.length)
    (hBatch : l.sq.accepted.drop l.sq.consumed = batch) :
    ∃ l' : RingLedger ring, Ledger.runCalls answers l [.submitAndWait 1] =
        ([(.submitAndWait 1, .count batch.length)], l'.flush answers) ∧
      l'.sq.accepted = l.sq.accepted ∧ l'.sq.consumed = l.sq.accepted.length ∧
      l'.cq = l.cq ∧ l'.batches = l.batches ++ started batch ∧ l'.flushed = l.flushed := by
  have hLength : l.sq.accepted.length - l.sq.consumed = batch.length := by
    rw [← hBatch, List.length_drop]
  have hReady : l.sq.ready = batch.length := by rw [SqLedger.ready, hPublished, hLength]
  have hLe := Nat.le_trans l.sq.consumed_le l.sq.published_le
  rcases Nat.eq_zero_or_pos batch.length with hZero | hPos
  · have hNil := List.length_eq_zero_iff.mp hZero
    have hEnqueue : l.enqueue l.sq.ready = (batch.length, l) := by
      rw [Ledger.enqueue, if_pos ((Nat.min_self _).trans (hReady.trans hZero)), hZero]
    refine ⟨l, ?_, rfl, by omega, rfl, ?_, rfl⟩
    · simp only [Ledger.runCalls, Ledger.call, Ledger.submit, hEnqueue]
      rfl
    · rw [hNil]
      exact (List.append_nil _).symm
  · have hne : min l.sq.ready l.sq.ready ≠ 0 := by rw [Nat.min_self]; omega
    have hEnqueue : l.enqueue l.sq.ready =
        (batch.length, l.consume (min l.sq.ready l.sq.ready) (Nat.min_le_right _ _)) := by
      rw [Ledger.enqueue, if_neg hne]
      exact congrArg (fun n => (n, _)) ((Nat.min_self _).trans hReady)
    have hTaken : l.sq.batch (min l.sq.ready l.sq.ready) = batch := by
      rw [SqLedger.batch, hBatch, Nat.min_self, hReady, List.take_length]
    refine ⟨l.consume (min l.sq.ready l.sq.ready) (Nat.min_le_right _ _), ?_, rfl, ?_, rfl, ?_,
      rfl⟩
    · simp only [Ledger.runCalls, Ledger.call, Ledger.submit, hEnqueue]
      rfl
    · show l.sq.consumed + min l.sq.ready l.sq.ready = _
      rw [Nat.min_self, hReady]
      omega
    · show l.batches ++ [l.sq.batch _] = _
      have hStarted : started batch = [batch] := by
        rw [started, if_neg]
        simpa using List.ne_nil_of_length_pos hPos
      rw [hTaken, hStarted]

/-- The client takes all completions that there are. -/
theorem Ledger.reap (hFlushed : l.flushed = l.batches.length) {n : Nat}
    (hn : l.cq.posted.length - l.cq.delivered ≤ n) :
    ∃ l' : RingLedger ring,
      Ledger.runCalls answers l ([.completion, .fill n, .cqDrop] : List (Call S)) =
        ([(.completion, .unit), (.fill n, .entries (l.cq.posted.drop l.cq.delivered)),
          (.cqDrop, .unit)], l') ∧
      l'.sq = l.sq ∧ l'.batches = l.batches ∧ l'.flushed = l.flushed ∧
      l'.cq.posted = l.cq.posted ∧ l'.cq.refused = l.cq.refused ∧
      l'.cq.delivered = l.cq.posted.length ∧ l'.cq.released = l.cq.posted.length := by
  have hLe := l.cq.delivered_le_length
  have hMin : min l.cq.refresh.len n = l.cq.posted.length - l.cq.delivered := by
    show min (l.cq.posted.length - l.cq.delivered) n = _
    exact Nat.min_eq_left hn
  have hDelivered : (l.cq.refresh.take n).2.delivered = l.cq.posted.length := by
    show l.cq.delivered + min l.cq.refresh.len n = _
    rw [hMin]
    omega
  have hTaken : (l.cq.refresh.take n).1 = l.cq.posted.drop l.cq.delivered := by
    show (l.cq.posted.drop l.cq.delivered).take (min l.cq.refresh.len n) = _
    rw [hMin, ← List.length_drop, List.take_length]
  refine ⟨l.withCq (l.cq.refresh.take n).2.release, ?_, rfl, rfl, rfl, rfl, rfl, hDelivered,
    hDelivered⟩
  rw [← hTaken]
  simp only [Ledger.runCalls, Ledger.call, Ledger.flush_of_flushed hFlushed]
  rfl

/-- The completions of a batch that is submitted where nothing is pending. -/
theorem flush_started {batch : List S} {l' : RingLedger ring}
    (hFlushed : l'.flushed = l.batches.length) (hBatches : l'.batches = l.batches ++ started batch) :
    l'.pending.flatMap answers = if batch.isEmpty then [] else answers l.batches.length := by
  rw [Ledger.pending, hBatches, hFlushed, List.length_append, Nat.add_sub_cancel_left]
  unfold started
  cases batch.isEmpty with
  | true => rfl
  | false => simp [List.range'_one]

/-- **A round.** The completions of the batch are taken and nothing is on its way again. -/
theorem Ledger.Settled.round (h : l.Settled) {batch : List S}
    (hSq : batch.length ≤ Squeue.capacity ring.sq) (hCq : batch.length ≤ Cqueue.capacity ring.cq)
    (hAnswers : batch ≠ [] → (answers l.batches.length).length ≤ batch.length) :
    ∃ l' : RingLedger ring,
      Ledger.runCalls answers l (roundCalls batch) =
        (roundHistory batch (if batch.isEmpty then [] else answers l.batches.length), l') ∧
      l'.Settled ∧ l'.batches = l.batches ++ started batch ∧ l'.cq.refused = l.cq.refused := by
  obtain ⟨l₁, hPush, hAccepted, hPublished, hConsumed, hCq₁, hBatches₁, hFlushed₁⟩ :=
    h.push answers hSq
  have hBatch : l₁.sq.accepted.drop l₁.sq.consumed = batch := by
    rw [hAccepted, hConsumed, List.drop_left]
  obtain ⟨l₂, hSubmit, hAccepted₂, hConsumed₂, hCq₂, hBatches₂, hFlushed₂⟩ :=
    Ledger.submitAll answers hPublished hBatch
  -- what the batch offers finds room
  rw [hBatches₁] at hBatches₂
  have hPending := flush_started answers (hFlushed₂.trans (hFlushed₁.trans h.flushed))
    hBatches₂
  generalize hCqes : (if batch.isEmpty then [] else answers l.batches.length) = cqes at *
  have hLength : cqes.length ≤ batch.length := by
    rw [← hCqes]
    split
    · exact Nat.zero_le _
    · next hne => exact hAnswers (by simpa using hne)
  have hSame : l₂.cq = l.cq := hCq₂.trans hCq₁
  have hFlush : (l₂.flush answers).cq = l.cq.postAll cqes := by
    rw [Ledger.flush, hPending, hSame]
  have hRoom : l.cq.posted.length + cqes.length ≤ l.cq.released + Cqueue.capacity ring.cq := by
    rw [h.released]
    omega
  obtain ⟨hPosted, hRefused⟩ := postAll_of_room hRoom
  have hDelivered : (l₂.flush answers).cq.delivered = l.cq.posted.length := by
    rw [hFlush, postAll_delivered, h.delivered]
  have hUnread : (l₂.flush answers).cq.posted.drop (l₂.flush answers).cq.delivered = cqes := by
    rw [hDelivered, hFlush, hPosted, List.drop_left]
  obtain ⟨l₃, hReap, hSq₃, hBatches₃, hFlushed₃, hPosted₃, hRefused₃, hDelivered₃, hReleased₃⟩ :=
    Ledger.reap answers (l := l₂.flush answers) (n := batch.length) rfl (by
      rw [← List.length_drop, hUnread]
      exact hLength)
  refine ⟨l₃, ?_, ⟨?_, ?_, ?_, ?_⟩, ?_, ?_⟩
  · have hAll := Ledger.runCalls_append_of hPush (Ledger.runCalls_append_of hSubmit hReap)
    rw [hUnread] at hAll
    exact hAll
  · show l₃.sq.consumed = l₃.sq.accepted.length
    rw [hSq₃]
    exact hConsumed₂.trans (congrArg _ hAccepted₂.symm)
  · rw [hFlushed₃, hBatches₃]
    rfl
  · rw [hDelivered₃, hPosted₃]
  · rw [hReleased₃, hPosted₃]
  · rw [hBatches₃]
    exact hBatches₂
  · rw [hRefused₃, hFlush, hRefused]

/-- All rounds, by induction on the batches. -/
theorem Ledger.Settled.rounds (h : l.Settled) {batches : List (List S)}
    (hFit : ∀ batch ∈ batches, batch.length ≤ Squeue.capacity ring.sq ∧
      batch.length ≤ Cqueue.capacity ring.cq)
    (hAnswers : ∀ i batch, (l.batches ++ batches.flatMap started)[i]? = some batch →
      (answers i).length ≤ batch.length) :
    ∃ l' : RingLedger ring,
      Ledger.runCalls answers l (batches.flatMap roundCalls) =
        (roundsHistory answers l.batches.length batches, l') ∧
      l'.Settled ∧ l'.batches = l.batches ++ batches.flatMap started ∧
      l'.cq.refused = l.cq.refused := by
  induction batches generalizing l with
  | nil => exact ⟨l, rfl, h, (List.append_nil _).symm, rfl⟩
  | cons batch batches ih =>
    obtain ⟨hSq, hCq⟩ := hFit batch List.mem_cons_self
    rw [List.flatMap_cons] at hAnswers
    obtain ⟨l₁, hRun₁, h₁, hBatches₁, hRefused₁⟩ := h.round answers hSq hCq (by
      intro hne
      apply hAnswers
      have hStarted : started batch = [batch] := if_neg (by simpa using hne)
      rw [hStarted, List.getElem?_append_right (Nat.le_refl _), Nat.sub_self]
      rfl)
    obtain ⟨l₂, hRun₂, h₂, hBatches₂, hRefused₂⟩ :=
      ih h₁ (fun b hb => hFit b (List.mem_cons_of_mem _ hb)) (by
        intro i b hb
        apply hAnswers i b
        rwa [hBatches₁, List.append_assoc] at hb)
    refine ⟨l₂, ?_, h₂, ?_, hRefused₂.trans hRefused₁⟩
    · rw [hBatches₁, List.length_append] at hRun₂
      exact Ledger.runCalls_append_of hRun₁ hRun₂
    · rw [hBatches₂, hBatches₁, List.append_assoc, List.flatMap_cons]

/-! ## Recovery on the pipeline -/

/-- Without handles, nothing can be left behind. -/
theorem Ledger.settle (hIdle : Idle .none l) :
    ∃ history, ∃ l' : RingLedger ring,
      Ledger.runCalls answers l ([.submitAndWait 1, .completion,
        .fill (Cqueue.capacity ring.cq), .cqDrop] : List (Call S)) = (history, l') ∧
      l'.Settled := by
  obtain ⟨l₁, hSubmit, hAccepted₁, hConsumed₁, -, -, -⟩ :=
    Ledger.submitAll answers (hIdle.published rfl) rfl
  have hBound := (l₁.flush answers).cq.length_le
  have hReleased := (l₁.flush answers).cq.released_le
  obtain ⟨l₂, hReap, hSq₂, hBatches₂, hFlushed₂, hPosted₂, -, hDelivered₂, hReleased₂⟩ :=
    Ledger.reap (S := S) answers (l := l₁.flush answers)
      (n := Cqueue.capacity ring.cq) rfl (by
        show (postedOf (l₁.flush answers).cq.attempts).length - _ ≤ _
        omega)
  refine ⟨_, l₂, Ledger.runCalls_append_of hSubmit hReap, ?_, ?_, ?_, ?_⟩
  · rw [hSq₂]
    exact hConsumed₁.trans (congrArg _ hAccepted₁.symm)
  · rw [hFlushed₂, hBatches₂]
    rfl
  · rw [hDelivered₂, hPosted₂]
  · rw [hReleased₂, hPosted₂]

end Round

/-! ## Statement -/

section Clients

variable {S C : Type} [Squeue.EntryMarker S] [Cqueue.EntryMarker C]

/-- Nothing is on its way, and nothing has been forgotten but what found no room. -/
structure AtRest (ring : IoUring S C) (c : Client S C) : Prop where
  handles : c.handles = .none
  submitted : c.mem.threads.flatten = (acceptedIn c.history).map Squeue.EntryMarker.sqe
  joined : c.mem.pending = []
  sqEmpty : c.mem.cells .sqHead = c.mem.cells .sqTail
  cqEmpty : c.mem.cells .cqHead = c.mem.cells .cqTail
  delivered : (deliveredIn c.history).map Cqueue.EntryMarker.cqe =
    (c.mem.posts.filter (Post.hasRoom ring)).map (·.cqe)

/-- What the dispatch threads of the rounds are given. -/
def startedSqes (batches : List (List S)) : List (List IoUringSqe) :=
  (batches.flatMap started).map (List.map Squeue.EntryMarker.sqe)

/-- The client `c'` is behind the rounds that `c` makes with the batches. -/
structure Served (ring : IoUring S C) (results : Nat → List CompletionData)
    (batches : List (List S)) (c c' : Client S C) : Prop where
  /-- every batch is accepted, and behind it come its completions -/
  history : cqeHistory c'.history = cqeHistory c.history ++
    roundsHistory (answers results) c.mem.threads.length batches
  threads : c'.mem.threads = c.mem.threads ++ startedSqes batches
  overflow : c'.mem.cells .cqOverflow = c.mem.cells .cqOverflow
  atRest : AtRest ring c'

/-! ## Clients -/

variable {ring : IoUring S C} {results : Nat → List CompletionData} {c : Client S C}
  {l : RingLedger ring}

theorem atRest_of_refines (h : ClientRefines ring c l)
    (hRecorded : Recorded (answers results) (cqeHistory c.history) l) (hSettled : l.Settled)
    (hHandles : c.handles = .none) : AtRest ring c where
  handles := hHandles
  submitted := by
    have hAccepted := hRecorded.accepted
    rw [acceptedIn_cqeHistory] at hAccepted
    rw [h.mem.threads, ← List.map_flatten, l.batches_eq, hSettled.consumed, List.take_length,
      hAccepted]
  joined := by
    rw [h.mem.pending]
    exact l.pending_eq_nil_iff.mpr hSettled.flushed
  sqEmpty := by
    have hPublished : l.sq.published = l.sq.consumed := by
      have := l.sq.consumed_le
      have := l.sq.published_le
      have := hSettled.consumed
      omega
    rw [h.mem.sq.head, h.mem.sq.tail, hPublished]
  cqEmpty := by rw [h.mem.cq.head, h.mem.cq.tail, hSettled.released]
  delivered := by
    have hDelivered := hRecorded.delivered
    rw [deliveredIn_cqeHistory, hSettled.delivered, List.take_length] at hDelivered
    rw [← hDelivered, posted_eq h]

omit [Squeue.EntryMarker S] in
/-- A list of calls keeps what the history records. -/
theorem recorded_step {c' : Client S C} {l' : RingLedger ring} {calls : List (Call S)}
    {history : List (Call S × Reply IoUringCqe)}
    (hRecorded : Recorded (answers results) (cqeHistory c.history) l)
    (hRun : Ledger.runCalls (answers results) l calls = (history, l'))
    (hHistory : cqeHistory c'.history =
      cqeHistory c.history ++ (Ledger.runCalls (answers results) l calls).1) :
    Recorded (answers results) (cqeHistory c'.history) l' := by
  have hAll := recorded_runCalls hRecorded calls
  rw [hRun] at hAll hHistory
  rw [hHistory]
  exact hAll

/-- The recovery of a client that stands for a pipeline. -/
theorem recover_of_refines (h : ClientRefines ring c l)
    (hRecorded : Recorded (answers results) (cqeHistory c.history) l) :
    ∃ c₁ l₁, c.runCalls ring results (recoverCalls ring c.handles) = some c₁ ∧
      c₁.handles = .none ∧ ClientRefines ring c₁ l₁ ∧
      Recorded (answers results) (cqeHistory c₁.history) l₁ ∧ l₁.Settled := by
  obtain ⟨c', hDrop, hNone, hHistory', h'⟩ :=
    runCalls_refines results h _ (handlesAfter_dropCalls c.handles)
  have hRecorded' := recorded_step hRecorded rfl hHistory'
  have hIdle := h'.idle
  rw [hNone] at hIdle
  obtain ⟨history, l₁, hSettle, hSettled⟩ :=
    Ledger.settle (S := S) (answers results) hIdle
  obtain ⟨c₁, hRun₁, hHandles₁, hHistory₁, h₁⟩ := runCalls_refines results h' [.submitAndWait 1,
    .completion, .fill (Cqueue.capacity ring.cq), .cqDrop] (by rw [hNone]; rfl)
  have hRecorded₁ := recorded_step hRecorded' hSettle hHistory₁
  rw [hSettle] at h₁
  refine ⟨c₁, l₁, ?_, hHandles₁, h₁, hRecorded₁, hSettled⟩
  rw [recoverCalls, runCalls_append, hDrop]
  exact hRun₁

/-- A dispatch thread has no more completions than its batch has requests. -/
theorem answers_length_le {threads : List (List IoUringSqe)} {traces : Nat → List (Event userSig)}
    (h : DispatchedAs threads traces results) {i : Nat} {sqes : List IoUringSqe}
    (hi : threads[i]? = some sqes) : (answers results i).length ≤ sqes.length := by
  have hLength := (answers_of_path (h i sqes hi)).length_eq
  rw [answers, offered, List.length_map, hLength]
  exact List.length_filter_le _ _

/-- The rounds of a client that stands for a settled pipeline. -/
theorem served_of_refines (h : ClientRefines ring c l)
    (hRecorded : Recorded (answers results) (cqeHistory c.history) l) (hSettled : l.Settled)
    (hHandles : c.handles = .none) {batches : List (List S)}
    (hFit : ∀ batch ∈ batches, batch.length ≤ Squeue.capacity ring.sq ∧
      batch.length ≤ Cqueue.capacity ring.cq) {traces : Nat → List (Event userSig)}
    (hDispatched : DispatchedAs (c.mem.threads ++ startedSqes batches) traces results) :
    ∃ c₂, c.runCalls ring results (batches.flatMap roundCalls) = some c₂ ∧
      Served ring results batches c c₂ := by
  have hThreads : c.mem.threads ++ startedSqes batches =
      (l.batches ++ batches.flatMap started).map (List.map Squeue.EntryMarker.sqe) := by
    rw [h.mem.threads, List.map_append]
    rfl
  obtain ⟨l₂, hRounds, hSettled₂, hBatches₂, hRefused₂⟩ :=
    hSettled.rounds (answers results) hFit (by
      intro i batch hBatch
      have hMap : (c.mem.threads ++ startedSqes batches)[i]? =
          some (batch.map Squeue.EntryMarker.sqe) := by
        rw [hThreads, List.getElem?_map, hBatch]
        rfl
      have hLe := answers_length_le hDispatched hMap
      rwa [List.length_map] at hLe)
  obtain ⟨c₂, hRun, hHandles₂, hHistory, h₂⟩ := runCalls_refines results h
    (batches.flatMap roundCalls) (by rw [hHandles]; exact handlesAfter_rounds batches)
  have hRecorded₂ := recorded_step hRecorded hRounds hHistory
  rw [hRounds] at h₂ hHistory
  have hLength : c.mem.threads.length = l.batches.length := by rw [h.mem.threads, List.length_map]
  refine ⟨c₂, hRun, ?_, ?_, ?_, atRest_of_refines h₂ hRecorded₂ hSettled₂ hHandles₂⟩
  · rw [hLength]
    exact hHistory
  · rw [hThreads, h₂.mem.threads, hBatches₂]
  · rw [h₂.mem.cq.overflow, h.mem.cq.overflow, hRefused₂]

/-! ## The result -/

/-- **Recovery and service.** Any client can get its instance to rest, and from there every
batch that fits the queues is accepted, and its completions are those that the next `fill`
yields. -/
theorem recover_and_serve {b : Builder S C} {overflowChecks : Bool} {entries : UInt32}
    {mem : RingMem S C} (hBuild : b.build overflowChecks entries = some (.ok (ring, mem)))
    {calls : List (Call S)} (hRun : (Client.start mem).runCalls ring results calls = some c) :
    ∃ c₁, c.runCalls ring results (recoverCalls ring c.handles) = some c₁ ∧ AtRest ring c₁ ∧
      ∀ (batches : List (List S)) (traces : Nat → List (Event userSig)),
        (∀ batch ∈ batches, batch.length ≤ Squeue.capacity ring.sq ∧
          batch.length ≤ Cqueue.capacity ring.cq) →
        DispatchedAs (c₁.mem.threads ++ startedSqes batches) traces results →
        ∃ c₂, c₁.runCalls ring results (batches.flatMap roundCalls) = some c₂ ∧
          Served ring results batches c₁ c₂ := by
  obtain ⟨hHistory, h⟩ := exists_ledger hBuild hRun
  have hRecorded := recorded_run ring (answers results) calls
  rw [← hHistory] at hRecorded
  obtain ⟨c₁, l₁, hRecover, hHandles, h₁, hRecorded₁, hSettled⟩ := recover_of_refines h hRecorded
  refine ⟨c₁, hRecover, atRest_of_refines h₁ hRecorded₁ hSettled hHandles, ?_⟩
  intro batches traces hFit hDispatched
  exact served_of_refines h₁ hRecorded₁ hSettled hHandles hFit hDispatched

end Clients

/-! ### A client that holds both handles and loses completions -/

def lostBatches : List (List IoUringSqe) :=
  [[(nop 0).sqe], [(nop 1).sqe], [(nop 2).sqe], [(nop 3).sqe], [(nop 4).sqe]]

/-- Three submissions, the last of which finds no room for its completion, and an entry that is
pushed and not published; its completion finds no room either. -/
def lostCalls : List (Call Squeue.Entry) :=
  submitOne 0 ++ submitOne 1 ++ submitOne 2 ++ [.completion, .submission, .push (nop 3)]

/-- Behind the recovery, a batch of one request and an empty one. -/
theorem recover_and_serve_lost :
    ∃ c c₁ c₂, (Client.start smallRing.2).runCalls smallRing.1 (nopAnswers lostBatches)
        lostCalls = some c ∧ AtRest smallRing.1 c₁ ∧ c₁.mem.cells .cqOverflow = 2 ∧
      Served smallRing.1 (nopAnswers lostBatches) [[nop 4], []] c₁ c₂ := by
  have hCalls : handlesAfter (Client.start smallRing.2).handles lostCalls =
      some ⟨true, true⟩ := rfl
  have hNops : DispatchedAs lostBatches (nopTraces lostBatches) (nopAnswers lostBatches) :=
    dispatchedAs_nops (by decide)
  obtain ⟨c, hRun, hHandles, -⟩ := runCalls_refines (nopAnswers lostBatches)
    (start_refines _ smallRing_build) lostCalls hCalls
  obtain ⟨c₁, hRecover, hRest, hServe⟩ := recover_and_serve smallRing_build hRun
  rw [hHandles] at hRecover
  have hFacts : ((Client.start smallRing.2).runCalls smallRing.1 (nopAnswers lostBatches)
      (lostCalls ++ recoverCalls smallRing.1 ⟨true, true⟩)).map
        (fun c => (c.mem.threads, c.mem.cells .cqOverflow)) =
      some (lostBatches.take 4, 2) := by
    decide +kernel
  rw [runCalls_append, hRun, Option.bind_some, hRecover, Option.map_some, Option.some.injEq,
    Prod.mk.injEq] at hFacts
  obtain ⟨hThreads, hOverflow⟩ := hFacts
  have hFit : ∀ batch ∈ [[nop 4], []], batch.length ≤ Squeue.capacity smallRing.1.sq ∧
      batch.length ≤ Cqueue.capacity smallRing.1.cq := by
    decide +kernel
  obtain ⟨c₂, -, hServed⟩ := hServe [[nop 4], []] (nopTraces lostBatches) hFit (by
    rw [hThreads]
    exact hNops)
  exact ⟨c, c₁, c₂, hRun, hRest, hOverflow, hServed⟩

end Miring.Stream
