import Miring.Stream.Submit

/-!
# Calls and runs

`Ledger.call` is what a call does to the pipeline and `Ledger.runCalls` what a list of calls
does. A call that the borrow rules allow is defined on the ring, gives the reply of the
pipeline and keeps the refinement (`call_refines results`); hence a list of calls is defined exactly
where the borrow rules allow it, and gives the replies of the pipeline (`runCalls_refines results`).
-/

namespace Miring.Stream

open Sys Miring.Ring Dispatch Program

variable {S C : Type} [Squeue.EntryMarker S] [Cqueue.EntryMarker C]

/-! ## Calls on the pipeline -/

section Call

omit [Squeue.EntryMarker S] [Cqueue.EntryMarker C]

variable {ring : IoUring S C}

def Ledger.query (l : RingLedger ring) : Query → Reply IoUringCqe
  | .sqLen => .number l.sq.len
  | .sqIsEmpty => .flag (l.sq.len == 0)
  | .sqIsFull => .flag (l.sq.len == Squeue.capacity ring.sq)
  | .sqCapacity => .number (Squeue.capacity ring.sq)
  | .sqNeedWakeup => .flag false
  | .sqDropped => .number 0
  | .sqCqOverflow => .flag (l.cq.refused != 0)
  | .sqTaskrun => .flag false
  | .cqLen => .number l.cq.len
  | .cqIsEmpty => .flag (l.cq.len == 0)
  | .cqIsFull => .flag (l.cq.len == Cqueue.capacity ring.cq)
  | .cqCapacity => .number (Cqueue.capacity ring.cq)
  | .cqOverflow => .number (l.cq.refused % 2 ^ 32)
  | .cqEventfdDisabled => .flag false

/-- Submit up to `k` requests and answer the pending batches if `wait` holds. -/
def Ledger.submit (answers : Nat → List IoUringCqe) (l : RingLedger ring) (k : Nat)
    (wait : Bool) : Reply IoUringCqe × RingLedger ring :=
  (.count (l.enqueue k).1, (l.enqueue k).2.flushIf answers wait)

def Ledger.call (answers : Nat → List IoUringCqe) (l : RingLedger ring) :
    Call S → Reply IoUringCqe × RingLedger ring
  | .submission => (.unit, l.refreshSq)
  | .push entry => (.pushed (pushReply (l.offer [entry]).1), (l.offer [entry]).2)
  | .pushMultiple entries => (.pushed (pushReply (l.offer entries).1), (l.offer entries).2)
  | .sqSync => (.unit, l.publish.refreshSq)
  | .sqDrop => (.unit, l.publish)
  | .submit => Ledger.submit answers l l.sq.ready false
  | .submitAndWait want => Ledger.submit answers l l.sq.ready (decide (want > 0))
  | .submitWithArgs want => Ledger.submit answers l l.sq.ready (decide (want > 0))
  | .enter toSubmit minComplete =>
      Ledger.submit answers l toSubmit.toNat (decide (minComplete > 0))
  | .completion => (.unit, (l.flush answers).withCq (l.flush answers).cq.refresh)
  | .next => (.entry (l.cq.take 1).1.head?, l.withCq (l.cq.take 1).2)
  | .fill n => (.entries (l.cq.take n).1, l.withCq (l.cq.take n).2)
  | .cqSync => (.unit, l.withCq l.cq.release.refresh)
  | .cqDrop => (.unit, l.withCq l.cq.release)
  | .split => (.unit, (l.flush answers).refreshSq.withCq (l.flush answers).cq.refresh)
  | .query q => (Ledger.query l q, l)

/-- The replies to a list of calls, and the pipeline behind them. -/
def Ledger.runCalls (answers : Nat → List IoUringCqe) :
    RingLedger ring → List (Call S) → List (Call S × Reply IoUringCqe) × RingLedger ring
  | l, [] => ([], l)
  | l, call :: calls =>
      let next := Ledger.call answers l call
      let rest := Ledger.runCalls answers next.2 calls
      ((call, next.1) :: rest.1, rest.2)

/-- The pipeline of a new instance. -/
def startLedger (ring : IoUring S C) : RingLedger ring := Ledger.empty _ _

/-- A dropped handle has left nothing unpublished or unreleased. -/
structure Idle (h : Handles) (l : RingLedger ring) : Prop where
  published : h.sq = false → l.sq.published = l.sq.accepted.length
  released : h.cq = false → l.cq.released = l.cq.delivered

theorem Idle.of_eq {h : Handles} {l l' : RingLedger ring} (hIdle : Idle h l)
    (hPublished : l'.sq.published = l.sq.published) (hAccepted : l'.sq.accepted = l.sq.accepted)
    (hReleased : l'.cq.released = l.cq.released) (hDelivered : l'.cq.delivered = l.cq.delivered) :
    Idle h l' where
  published hSq := by rw [hPublished, hAccepted]; exact hIdle.published hSq
  released hCq := by rw [hReleased, hDelivered]; exact hIdle.released hCq

/-- While the handle lives, only the completion queue has to be idle. -/
theorem Idle.of_sq {h : Handles} {l l' : RingLedger ring} (hIdle : Idle h l) (hSq : h.sq = true)
    (hReleased : l'.cq.released = l.cq.released) (hDelivered : l'.cq.delivered = l.cq.delivered) :
    Idle h l' where
  published hFalse := by rw [hSq] at hFalse; cases hFalse
  released hCq := by rw [hReleased, hDelivered]; exact hIdle.released hCq

theorem Idle.of_cq {h : Handles} {l l' : RingLedger ring} (hIdle : Idle h l) (hCq : h.cq = true)
    (hPublished : l'.sq.published = l.sq.published) (hAccepted : l'.sq.accepted = l.sq.accepted) :
    Idle h l' where
  published hSq := by rw [hPublished, hAccepted]; exact hIdle.published hSq
  released hFalse := by rw [hCq] at hFalse; cases hFalse

theorem postAll_released {β : Type} {cap : Nat} (q : CqLedger β cap) (xs : List β) :
    (q.postAll xs).released = q.released := by
  induction xs generalizing q with
  | nil => rfl
  | cons x xs ih => exact ih (q.post x)

theorem postAll_delivered {β : Type} {cap : Nat} (q : CqLedger β cap) (xs : List β) :
    (q.postAll xs).delivered = q.delivered := by
  induction xs generalizing q with
  | nil => rfl
  | cons x xs ih => exact ih (q.post x)

theorem Idle.flush {h : Handles} {l : RingLedger ring} (hIdle : Idle h l)
    (answers : Nat → List IoUringCqe) : Idle h (l.flush answers) :=
  hIdle.of_eq rfl rfl (postAll_released _ _) (postAll_delivered _ _)

theorem Idle.flushIf {h : Handles} {l : RingLedger ring} (hIdle : Idle h l)
    (answers : Nat → List IoUringCqe) (b : Bool) : Idle h (l.flushIf answers b) := by
  cases b with
  | true => exact hIdle.flush answers
  | false => exact hIdle

theorem Idle.enqueue {h : Handles} {l : RingLedger ring} (hIdle : Idle h l) (k : Nat) :
    Idle h (l.enqueue k).2 := by
  unfold Ledger.enqueue
  split
  · exact hIdle
  · exact hIdle.of_eq rfl rfl rfl rfl

end Call

/-! ## Refinement of calls -/

section Refinement

variable (results : Nat → List CompletionData) {ring : IoUring S C} {s : RingMem S C}
  {l : RingLedger ring}

theorem overflowFlags_and_needWakeup (n : Nat) :
    (overflowFlags n &&& ioringSqNeedWakeup != 0) = false := by
  unfold overflowFlags
  split <;> decide

theorem overflowFlags_and_taskrun (n : Nat) :
    (overflowFlags n &&& ioringSqTaskrun != 0) = false := by
  unfold overflowFlags
  split <;> decide

theorem overflowFlags_and_cqOverflow (n : Nat) :
    (overflowFlags n &&& ioringSqCqOverflow != 0) = (n != 0) := by
  unfold overflowFlags
  split
  · next h => rw [h]; decide
  · next h => rw [bne_iff_ne.mpr h]; decide

/-- A query changes nothing and its answer is that of the pipeline. -/
theorem query_refines (h : Refines ring s l) (q : Query) :
    ∃ r, run (ringSem results) (q.program ring) s = some (r, s) ∧
      r.map Cqueue.EntryMarker.cqe = Ledger.query l q := by
  have hSqLen := run_sqLen results h.sq
  have hCqLen := run_cqLen results h.cq
  cases q with
  | sqLen =>
    rw [Query.program, run_map, hSqLen]
    exact ⟨_, rfl, rfl⟩
  | sqIsEmpty =>
    rw [Query.program, run_map, Squeue.isEmpty, run_bind_of hSqLen]
    exact ⟨_, rfl, rfl⟩
  | sqIsFull =>
    rw [Query.program, run_map, Squeue.isFull, run_bind_of hSqLen]
    exact ⟨_, rfl, rfl⟩
  | sqCapacity => exact ⟨_, rfl, rfl⟩
  | sqNeedWakeup =>
    refine ⟨_, rfl, ?_⟩
    simp only [Reply.map, Ledger.query, h.cq.sqFlags, overflowFlags_and_needWakeup]
  | sqDropped =>
    refine ⟨_, rfl, ?_⟩
    simp only [Reply.map, Ledger.query, h.dropped, UInt32.toNat_zero]
  | sqCqOverflow =>
    refine ⟨_, rfl, ?_⟩
    simp only [Reply.map, Ledger.query, h.cq.sqFlags, overflowFlags_and_cqOverflow]
  | sqTaskrun =>
    refine ⟨_, rfl, ?_⟩
    simp only [Reply.map, Ledger.query, h.cq.sqFlags, overflowFlags_and_taskrun]
  | cqLen =>
    rw [Query.program, run_map, hCqLen]
    exact ⟨_, rfl, rfl⟩
  | cqIsEmpty =>
    rw [Query.program, run_map, Cqueue.isEmpty, run_bind_of hCqLen]
    exact ⟨_, rfl, rfl⟩
  | cqIsFull =>
    rw [Query.program, run_map, Cqueue.isFull, run_bind_of hCqLen]
    exact ⟨_, rfl, rfl⟩
  | cqCapacity => exact ⟨_, rfl, rfl⟩
  | cqOverflow =>
    refine ⟨_, rfl, ?_⟩
    simp only [Reply.map, Ledger.query, h.cq.overflow, UInt32.toNat_ofNat']
  | cqEventfdDisabled =>
    refine ⟨_, rfl, ?_⟩
    simp only [Reply.map, Ledger.query, h.cqFlags]
    rfl

/-- What has to be shown of a call. -/
def CallRefines (results : Nat → List CompletionData) (s : RingMem S C) (l : RingLedger ring)
    (h' : Handles) (call : Call S) : Prop :=
  ∃ r s', run (ringSem results) (call.program ring) s = some (r, s') ∧
    r.map Cqueue.EntryMarker.cqe = (Ledger.call (answers results) l call).1 ∧
    Refines ring s' (Ledger.call (answers results) l call).2 ∧
    Idle h' (Ledger.call (answers results) l call).2

/-- A call that runs `p` and wraps its answer. -/
theorem CallRefines.of_run {α : Type} {h' : Handles} {call : Call S} {p : RingProgram S C α}
    {f : α → Reply C} {a : α} {s' : RingMem S C} (hCall : call.program ring = f <$> p)
    (hRun : run (ringSem results) p s = some (a, s'))
    (hReply : (f a).map Cqueue.EntryMarker.cqe = (Ledger.call (answers results) l call).1)
    (hRefines : Refines ring s' (Ledger.call (answers results) l call).2)
    (hIdle : Idle h' (Ledger.call (answers results) l call).2) :
    CallRefines results s l h' call := by
  refine ⟨f a, s', ?_, hReply, hRefines, hIdle⟩
  rw [hCall, run_map, hRun]
  rfl

theorem offer_refines (h : Refines ring s l) {s' : RingMem S C} (entries : List S)
    (hSq : SqRefines ring s' (l.sq.offer entries).2) (hOnly : OnlySq s s') :
    Refines ring s' (l.offer entries).2 :=
  h.onlySq hOnly hSq (Ledger.offer_accepted _ _) (Ledger.offer_consumed _ _)

theorem run_completion (h : Refines ring s l) (hReleased : l.cq.released = l.cq.delivered) :
    ∃ s', run (ringSem results) ring.completion s = some ((), s') ∧
      Refines ring s' ((l.flush (answers results)).withCq
        (l.flush (answers results)).cq.refresh) := by
  obtain ⟨s₁, hFlush, hs₁⟩ := run_flushPending results h
  have hReleased₁ : (l.flush (answers results)).cq.released =
      (l.flush (answers results)).cq.delivered :=
    (postAll_released _ _).trans (hReleased.trans (postAll_delivered _ _).symm)
  obtain ⟨s₂, hBorrow, hCq, hOnly⟩ := run_cqBorrow results hs₁.cq hReleased₁
  exact ⟨s₂, (run_bind_of hFlush).trans hBorrow, hs₁.onlyCq hOnly hCq⟩

theorem run_split (h : Refines ring s l) (hPublished : l.sq.published = l.sq.accepted.length)
    (hReleased : l.cq.released = l.cq.delivered) :
    ∃ s', run (ringSem results) ring.split s = some ((), s') ∧
      Refines ring s' ((l.flush (answers results)).refreshSq.withCq
        (l.flush (answers results)).cq.refresh) := by
  obtain ⟨s₁, hFlush, hs₁⟩ := run_flushPending results h
  obtain ⟨s₂, hSq, hSq₂, hOnly₂⟩ := run_sqBorrow results hs₁.sq hPublished
  have hs₂ := hs₁.onlySq hOnly₂ hSq₂ List.prefix_rfl rfl
  have hReleased₁ : (l.flush (answers results)).cq.released =
      (l.flush (answers results)).cq.delivered :=
    (postAll_released _ _).trans (hReleased.trans (postAll_delivered _ _).symm)
  obtain ⟨s₃, hCq, hCq₃, hOnly₃⟩ := run_cqBorrow results hs₂.cq hReleased₁
  exact ⟨s₃, (run_bind_of hFlush).trans ((run_bind_of hSq).trans hCq), hs₂.onlyCq hOnly₃ hCq₃⟩

/-- **One call.** -/
theorem call_refines (h : Refines ring s l) {hs hs' : Handles} (hIdle : Idle hs l) (call : Call S)
    (hCall : call.handles hs = some hs') : CallRefines results s l hs' call := by
  cases call with
  | submission =>
    obtain ⟨hSq, rfl⟩ : hs.sq = false ∧ { hs with sq := true } = hs' := by
      simpa [Call.handles] using hCall
    obtain ⟨s', hRun, hSq', hOnly⟩ :=
      run_sqBorrow results h.sq (hIdle.published hSq)
    exact .of_run results rfl hRun rfl (h.onlySq hOnly hSq' List.prefix_rfl rfl)
      ⟨nofun, hIdle.released⟩
  | push entry =>
    obtain ⟨hSq, rfl⟩ : hs.sq = true ∧ hs = hs' := by simpa [Call.handles] using hCall
    obtain ⟨s', hRun, hSq', hOnly⟩ := run_push results h.sq entry
    exact .of_run results rfl hRun rfl (offer_refines h [entry] hSq' hOnly)
      (hIdle.of_sq hSq rfl rfl)
  | pushMultiple entries =>
    obtain ⟨hSq, rfl⟩ : hs.sq = true ∧ hs = hs' := by simpa [Call.handles] using hCall
    obtain ⟨s', hRun, hSq', hOnly⟩ := run_pushMultiple results h.sq entries
    exact .of_run results rfl hRun rfl (offer_refines h entries hSq' hOnly)
      (hIdle.of_sq hSq rfl rfl)
  | sqSync =>
    obtain ⟨hSq, rfl⟩ : hs.sq = true ∧ hs = hs' := by simpa [Call.handles] using hCall
    obtain ⟨s', hRun, hSq', hOnly⟩ := run_sqSync results h.sq
    exact .of_run results rfl hRun rfl (h.onlySq hOnly hSq' List.prefix_rfl rfl)
      (hIdle.of_sq hSq rfl rfl)
  | sqDrop =>
    obtain ⟨-, rfl⟩ : hs.sq = true ∧ { hs with sq := false } = hs' := by
      simpa [Call.handles] using hCall
    obtain ⟨s', hRun, hSq', hOnly⟩ := run_sqDrop results h.sq
    exact .of_run results rfl hRun rfl (h.onlySq hOnly hSq' List.prefix_rfl rfl)
      ⟨fun _ => rfl, hIdle.released⟩
  | submit =>
    obtain rfl : hs = hs' := by simpa [Call.handles] using hCall
    obtain ⟨s', hRun, hs'⟩ := run_submitAndWait results h 0
    exact .of_run results rfl hRun rfl hs' (hIdle.enqueue _)
  | submitAndWait want =>
    obtain rfl : hs = hs' := by simpa [Call.handles] using hCall
    obtain ⟨s', hRun, hs'⟩ := run_submitAndWait results h want
    exact .of_run results rfl hRun rfl hs' ((hIdle.enqueue _).flushIf _ _)
  | submitWithArgs want =>
    obtain rfl : hs = hs' := by simpa [Call.handles] using hCall
    obtain ⟨s', hRun, hs'⟩ := run_submitWithArgs results h want
    exact .of_run results rfl hRun rfl hs' ((hIdle.enqueue _).flushIf _ _)
  | enter toSubmit minComplete =>
    obtain rfl : hs = hs' := by simpa [Call.handles] using hCall
    obtain ⟨s', hRun, hs'⟩ := run_enter results h toSubmit minComplete
    exact .of_run results rfl hRun rfl hs' ((hIdle.enqueue _).flushIf _ _)
  | completion =>
    obtain ⟨hCq, rfl⟩ : hs.cq = false ∧ { hs with cq := true } = hs' := by
      simpa [Call.handles] using hCall
    obtain ⟨s', hRun, hs'⟩ := run_completion results h (hIdle.released hCq)
    exact .of_run results rfl hRun rfl hs' ⟨hIdle.published, nofun⟩
  | next =>
    obtain ⟨hCq, rfl⟩ : hs.cq = true ∧ hs = hs' := by simpa [Call.handles] using hCall
    obtain ⟨e, s', hRun, he, hCq', hOnly⟩ := run_next results h.cq
    exact .of_run results rfl hRun (congrArg Reply.entry he) (h.onlyCq hOnly hCq')
      (hIdle.of_cq hCq rfl rfl)
  | fill n =>
    obtain ⟨hCq, rfl⟩ : hs.cq = true ∧ hs = hs' := by simpa [Call.handles] using hCall
    obtain ⟨es, s', hRun, hes, hCq', hOnly⟩ := run_fill results h.cq n
    exact .of_run results rfl hRun (congrArg Reply.entries hes) (h.onlyCq hOnly hCq')
      (hIdle.of_cq hCq rfl rfl)
  | cqSync =>
    obtain ⟨hCq, rfl⟩ : hs.cq = true ∧ hs = hs' := by simpa [Call.handles] using hCall
    obtain ⟨s', hRun, hCq', hOnly⟩ := run_cqSync results h.cq
    exact .of_run results rfl hRun rfl (h.onlyCq hOnly hCq') (hIdle.of_cq hCq rfl rfl)
  | cqDrop =>
    obtain ⟨-, rfl⟩ : hs.cq = true ∧ { hs with cq := false } = hs' := by
      simpa [Call.handles] using hCall
    obtain ⟨s', hRun, hCq', hOnly⟩ := run_cqDrop results h.cq
    exact .of_run results rfl hRun rfl (h.onlyCq hOnly hCq') ⟨hIdle.published, fun _ => rfl⟩
  | split =>
    obtain ⟨⟨hSq, hCq⟩, rfl⟩ : (hs.sq = false ∧ hs.cq = false) ∧ ⟨true, true⟩ = hs' := by
      simpa [Call.handles] using hCall
    obtain ⟨s', hRun, hs'⟩ :=
      run_split results h (hIdle.published hSq) (hIdle.released hCq)
    exact .of_run results rfl hRun rfl hs' ⟨nofun, nofun⟩
  | query q =>
    obtain ⟨-, rfl⟩ : q.allowed hs = true ∧ hs = hs' := by simpa [Call.handles] using hCall
    obtain ⟨r, hRun, hReply⟩ := query_refines results h q
    exact ⟨r, s, hRun, hReply, h, hIdle⟩

end Refinement

/-! ## Refinement of runs -/

section Runs

variable (results : Nat → List CompletionData) {ring : IoUring S C}

/-- A history with the completions in place of the entries. -/
def cqeHistory (history : List (Call S × Reply C)) : List (Call S × Reply IoUringCqe) :=
  history.map fun x => (x.1, x.2.map Cqueue.EntryMarker.cqe)

/-- The state of a client and the pipeline it stands for. -/
structure ClientRefines (ring : IoUring S C) (c : Client S C) (l : RingLedger ring) : Prop where
  mem : Refines ring c.mem l
  idle : Idle c.handles l

theorem step_refines {c : Client S C} {l : RingLedger ring} (h : ClientRefines ring c l)
    {call : Call S} {hs : Handles} (hCall : call.handles c.handles = some hs) :
    ∃ c', c.step ring results call = some c' ∧ c'.handles = hs ∧
      cqeHistory c'.history =
        cqeHistory c.history ++ [(call, (Ledger.call (answers results) l call).1)] ∧
      ClientRefines ring c' (Ledger.call (answers results) l call).2 := by
  obtain ⟨r, s', hRun, hReply, hs', hIdle⟩ := call_refines results h.mem h.idle call hCall
  refine ⟨⟨s', hs, c.history ++ [(call, r)]⟩, ?_, rfl, ?_, hs', hIdle⟩
  · simp [Client.step, hCall, hRun]
  · simp [cqeHistory, hReply]

/-- **Runs.** A list of calls that the borrow rules allow is defined, and its replies are
those of the pipeline. -/
theorem runCalls_refines {c : Client S C} {l : RingLedger ring} (h : ClientRefines ring c l)
    (calls : List (Call S)) {hs : Handles} (hCalls : handlesAfter c.handles calls = some hs) :
    ∃ c', c.runCalls ring results calls = some c' ∧ c'.handles = hs ∧
      cqeHistory c'.history =
        cqeHistory c.history ++ (Ledger.runCalls (answers results) l calls).1 ∧
      ClientRefines ring c' (Ledger.runCalls (answers results) l calls).2 := by
  induction calls generalizing c l with
  | nil => exact ⟨c, rfl, Option.some.inj hCalls, by simp [Ledger.runCalls], h⟩
  | cons call calls ih =>
    obtain ⟨hs₁, hCall, hRest⟩ := Option.bind_eq_some_iff.mp hCalls
    obtain ⟨c₁, hStep, rfl, hHistory₁, h₁⟩ := step_refines results h hCall
    obtain ⟨c₂, hRun, hHandles, hHistory₂, h₂⟩ := ih h₁ hRest
    refine ⟨c₂, ?_, hHandles, ?_, h₂⟩
    · rw [Client.runCalls, hStep]
      exact hRun
    · rw [hHistory₂, hHistory₁, List.append_assoc]
      rfl

variable {results}

theorem handlesAfter_of_runCalls {c c' : Client S C} {calls : List (Call S)}
    (h : c.runCalls ring results calls = some c') :
    handlesAfter c.handles calls = some c'.handles := by
  induction calls generalizing c with
  | nil => rw [Option.some.inj h, handlesAfter]
  | cons call calls ih =>
    obtain ⟨c₁, hStep, hRest⟩ := Option.bind_eq_some_iff.mp h
    obtain ⟨hs, hCall, hMap⟩ := Option.bind_eq_some_iff.mp hStep
    obtain ⟨q, -, rfl⟩ := Option.map_eq_some_iff.mp hMap
    rw [handlesAfter, hCall]
    exact ih hRest

theorem runCalls_append {c : Client S C} (calls calls' : List (Call S)) :
    c.runCalls ring results (calls ++ calls') =
      (c.runCalls ring results calls).bind fun c' => c'.runCalls ring results calls' := by
  induction calls generalizing c with
  | nil => rfl
  | cons call calls ih =>
    rw [List.cons_append, Client.runCalls, Client.runCalls]
    cases c.step ring results call with
    | none => rfl
    | some c₁ => exact ih

omit [Squeue.EntryMarker S] [Cqueue.EntryMarker C] in
theorem Ledger.runCalls_append (answers : Nat → List IoUringCqe) (l : RingLedger ring)
    (calls calls' : List (Call S)) :
    Ledger.runCalls answers l (calls ++ calls') =
      let first := Ledger.runCalls answers l calls
      let rest := Ledger.runCalls answers first.2 calls'
      (first.1 ++ rest.1, rest.2) := by
  induction calls generalizing l with
  | nil => rfl
  | cons call calls ih =>
    simp only [List.cons_append, Ledger.runCalls, ih]

/-- A new instance stands for the empty pipeline. -/
theorem start_refines (b : Builder S C) {overflowChecks : Bool} {entries : UInt32}
    {mem : RingMem S C} (h : b.build overflowChecks entries = some (.ok (ring, mem))) :
    ClientRefines ring (Client.start mem) (startLedger ring) := by
  obtain ⟨rfl, -⟩ := Builder.build_ok h
  exact {
    mem := {
      sq := {
        head := rfl
        tail := rfl
        localHead := rfl
        localTail := rfl
        length := List.length_replicate
        holds := Holds.nil _ _ }
      cq := {
        head := rfl
        tail := rfl
        localHead := rfl
        localTail := rfl
        overflow := rfl
        sqFlags := rfl
        length := List.length_replicate
        holds := Holds.nil _ _
        posts := rfl }
      threads := rfl
      pending := rfl
      dropped := rfl
      cqFlags := rfl }
    idle := ⟨fun _ => rfl, fun _ => rfl⟩ }

/-- **Every run of a built instance** is a run of the pipeline. -/
theorem exists_ledger {b : Builder S C} {overflowChecks : Bool} {entries : UInt32}
    {mem : RingMem S C} (hBuild : b.build overflowChecks entries = some (.ok (ring, mem)))
    {calls : List (Call S)} {c : Client S C}
    (hRun : (Client.start mem).runCalls ring results calls = some c) :
    cqeHistory c.history = (Ledger.runCalls (answers results) (startLedger ring) calls).1 ∧
      ClientRefines ring c (Ledger.runCalls (answers results) (startLedger ring) calls).2 := by
  obtain ⟨c', hRun', -, hHistory, h⟩ := runCalls_refines results
    (start_refines b hBuild) calls (handlesAfter_of_runCalls hRun)
  obtain rfl := Option.some.inj (hRun.symm.trans hRun')
  exact ⟨by simpa [Client.start, cqeHistory] using hHistory, h⟩

end Runs

end Miring.Stream
