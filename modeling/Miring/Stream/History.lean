import Miring.Stream.Run

/-!
# What a history says about the pipeline

The pipeline behind a run is determined by what the client has seen and by the results of the
dispatch threads: the accepted entries, the submitted counts and the delivered completions
are those of the recorded replies, and the completions offered so far are those of the
flushed batches (`Recorded`). Every call keeps this (`records_call`), so every run does.
-/

namespace Miring.Stream

open Sys Miring.Ring Dispatch Program

variable {S C D : Type}

/-! ## Reading a history -/

/-- The entries that a call has added to the submission queue. -/
def pushedBy : Call S × Reply D → List S
  | (.push entry, .pushed (.ok _)) => [entry]
  | (.pushMultiple entries, .pushed (.ok _)) => entries
  | _ => []

/-- The count that a submitting call has returned. -/
def countOf : Call S × Reply D → Nat
  | (_, .count n) => n
  | _ => 0

/-- The completion entries that a call has handed to the client. -/
def poppedBy : Call S × Reply D → List D
  | (_, .entry e) => e.toList
  | (_, .entries es) => es
  | _ => []

def acceptedIn (history : List (Call S × Reply D)) : List S := history.flatMap pushedBy

def submittedIn (history : List (Call S × Reply D)) : Nat := (history.map countOf).sum

def deliveredIn (history : List (Call S × Reply D)) : List D := history.flatMap poppedBy

section Map

variable [Cqueue.EntryMarker C] (history : List (Call S × Reply C))

theorem acceptedIn_cqeHistory : acceptedIn (cqeHistory history) = acceptedIn history := by
  induction history with
  | nil => rfl
  | cons x history ih =>
    obtain ⟨call, reply⟩ := x
    have hHead : pushedBy (call, reply.map Cqueue.EntryMarker.cqe) = pushedBy (call, reply) := by
      cases reply with
      | pushed r => cases call <;> cases r <;> rfl
      | _ => cases call <;> rfl
    simp only [acceptedIn, cqeHistory, List.map_cons, List.flatMap_cons] at ih ⊢
    rw [hHead, ih]

theorem submittedIn_cqeHistory : submittedIn (cqeHistory history) = submittedIn history := by
  induction history with
  | nil => rfl
  | cons x history ih =>
    obtain ⟨call, reply⟩ := x
    have hHead : countOf (call, reply.map Cqueue.EntryMarker.cqe) = countOf (call, reply) := by
      cases reply <;> rfl
    simp only [submittedIn, cqeHistory, List.map_cons, List.sum_cons] at ih ⊢
    rw [hHead, ih]

theorem deliveredIn_cqeHistory :
    deliveredIn (cqeHistory history) = (deliveredIn history).map Cqueue.EntryMarker.cqe := by
  induction history with
  | nil => rfl
  | cons x history ih =>
    obtain ⟨call, reply⟩ := x
    have hHead : poppedBy (call, reply.map Cqueue.EntryMarker.cqe) =
        (poppedBy (call, reply)).map Cqueue.EntryMarker.cqe := by
      cases reply with
      | entry e => cases e <;> rfl
      | _ => rfl
    simp only [deliveredIn, cqeHistory, List.map_cons, List.flatMap_cons, List.map_append] at ih ⊢
    rw [hHead, ih]

end Map

/-! ## The pipeline behind a history -/

section Recorded

variable {ring : IoUring S C} {answers : Nat → List IoUringCqe}

structure Recorded (answers : Nat → List IoUringCqe) (history : List (Call S × Reply IoUringCqe))
    (l : RingLedger ring) : Prop where
  accepted : l.sq.accepted = acceptedIn history
  consumed : l.sq.consumed = submittedIn history
  delivered : l.cq.posted.take l.cq.delivered = deliveredIn history
  attempts : l.cq.attempts.map (·.1) = (List.range l.flushed).flatMap answers

/-- What one call adds. -/
structure Records (answers : Nat → List IoUringCqe) (l : RingLedger ring)
    (x : Call S × Reply IoUringCqe) (l' : RingLedger ring) : Prop where
  accepted : l'.sq.accepted = l.sq.accepted ++ pushedBy x
  consumed : l'.sq.consumed = l.sq.consumed + countOf x
  delivered : l'.cq.posted.take l'.cq.delivered = l.cq.posted.take l.cq.delivered ++ poppedBy x
  attempts : l.flushed ≤ l'.flushed ∧ l'.cq.attempts.map (·.1) = l.cq.attempts.map (·.1) ++
    (List.range' l.flushed (l'.flushed - l.flushed)).flatMap answers

theorem range_append_range' {m n : Nat} (h : m ≤ n) :
    List.range m ++ List.range' m (n - m) = List.range n := by
  have hAppend : List.range' 0 m ++ List.range' (0 + m) (n - m) = List.range' 0 (m + (n - m)) :=
    List.range'_append_1
  rw [Nat.zero_add, Nat.add_sub_cancel' h] at hAppend
  rwa [List.range_eq_range', List.range_eq_range']

theorem Recorded.snoc {history : List (Call S × Reply IoUringCqe)} {l l' : RingLedger ring}
    {x : Call S × Reply IoUringCqe} (h : Recorded answers history l)
    (hx : Records answers l x l') : Recorded answers (history ++ [x]) l' where
  accepted := by simp [hx.accepted, h.accepted, acceptedIn]
  consumed := by simp [hx.consumed, h.consumed, submittedIn]
  delivered := by simp [hx.delivered, h.delivered, deliveredIn]
  attempts := by
    obtain ⟨hLe, hAttempts⟩ := hx.attempts
    rw [hAttempts, h.attempts, ← List.flatMap_append, range_append_range' hLe]

/-- A call that leaves the queue of completions and the batches alone. -/
theorem Records.of_sq {l l' : RingLedger ring} {x : Call S × Reply IoUringCqe}
    (hAccepted : l'.sq.accepted = l.sq.accepted ++ pushedBy x)
    (hConsumed : l'.sq.consumed = l.sq.consumed + countOf x) (hPopped : poppedBy x = [])
    (hCq : l'.cq = l.cq) (hFlushed : l'.flushed = l.flushed) : Records answers l x l' where
  accepted := hAccepted
  consumed := hConsumed
  delivered := by rw [hCq, hPopped, List.append_nil]
  attempts := by simp [hCq, hFlushed]

/-- A call that changes only how far the client is in the queue of completions. -/
theorem Records.of_cq {l l' : RingLedger ring} {x : Call S × Reply IoUringCqe}
    (hPushed : pushedBy x = []) (hCount : countOf x = 0) (hSq : l'.sq = l.sq)
    (hDelivered : l'.cq.posted.take l'.cq.delivered =
      l.cq.posted.take l.cq.delivered ++ poppedBy x)
    (hAttempts : l'.cq.attempts = l.cq.attempts) (hFlushed : l'.flushed = l.flushed) :
    Records answers l x l' where
  accepted := by rw [hSq, hPushed, List.append_nil]
  consumed := by rw [hSq, hCount, Nat.add_zero]
  delivered := hDelivered
  attempts := by simp [hAttempts, hFlushed]

/-! ### Flushing -/

theorem postAll_attempts {β : Type} {cap : Nat} (q : CqLedger β cap) (xs : List β) :
    (q.postAll xs).attempts.map (·.1) = q.attempts.map (·.1) ++ xs := by
  induction xs generalizing q with
  | nil => simp [CqLedger.postAll]
  | cons x xs ih =>
    rw [CqLedger.postAll, List.foldl_cons]
    exact (ih (q.post x)).trans (by simp)

theorem prefix_post_posted {β : Type} {cap : Nat} (q : CqLedger β cap) (x : β) :
    q.posted <+: (q.post x).posted := by
  rw [posted_post]
  split
  · exact List.prefix_append _ _
  · exact List.prefix_rfl

theorem prefix_postAll_posted {β : Type} {cap : Nat} (q : CqLedger β cap) (xs : List β) :
    q.posted <+: (q.postAll xs).posted := by
  induction xs generalizing q with
  | nil => exact List.prefix_rfl
  | cons x xs ih => exact (prefix_post_posted q x).trans (ih (q.post x))

theorem take_of_prefix {β : Type} {xs ys : List β} (h : xs <+: ys) {n : Nat} (hn : n ≤ xs.length) :
    ys.take n = xs.take n := by
  obtain ⟨zs, rfl⟩ := h
  exact List.take_append_of_le_length hn

theorem CqLedger.delivered_le_length {β : Type} {cap : Nat} (q : CqLedger β cap) :
    q.delivered ≤ q.posted.length :=
  Nat.le_trans q.delivered_le q.seen_le

theorem flush_delivered (l : RingLedger ring) :
    (l.flush answers).cq.posted.take (l.flush answers).cq.delivered =
      l.cq.posted.take l.cq.delivered := by
  have hDelivered : (l.flush answers).cq.delivered = l.cq.delivered := postAll_delivered _ _
  rw [hDelivered]
  exact take_of_prefix (prefix_postAll_posted _ _) l.cq.delivered_le_length

variable (answers) in
theorem flush_attempts (l : RingLedger ring) :
    l.flushed ≤ (l.flush answers).flushed ∧
      (l.flush answers).cq.attempts.map (·.1) = l.cq.attempts.map (·.1) ++
        (List.range' l.flushed ((l.flush answers).flushed - l.flushed)).flatMap answers :=
  ⟨l.flushed_le, postAll_attempts _ _⟩

theorem enqueue_sq_accepted (l : RingLedger ring) (k : Nat) :
    (l.enqueue k).2.sq.accepted = l.sq.accepted := by
  unfold Ledger.enqueue
  split <;> rfl

theorem enqueue_sq_consumed (l : RingLedger ring) (k : Nat) :
    (l.enqueue k).2.sq.consumed = l.sq.consumed + (l.enqueue k).1 := by
  unfold Ledger.enqueue
  split <;> rfl

theorem enqueue_cq (l : RingLedger ring) (k : Nat) : (l.enqueue k).2.cq = l.cq := by
  unfold Ledger.enqueue
  split <;> rfl

theorem enqueue_flushed (l : RingLedger ring) (k : Nat) :
    (l.enqueue k).2.flushed = l.flushed := by
  unfold Ledger.enqueue
  split <;> rfl

theorem records_submit (l : RingLedger ring) (call : Call S) (k : Nat) (wait : Bool)
    (hPushed : pushedBy (call, (.count (l.enqueue k).1 : Reply IoUringCqe)) = []) :
    Records answers l (call, (Ledger.submit answers l k wait).1)
      (Ledger.submit answers l k wait).2 := by
  have hCq := enqueue_cq l k
  have hFlushed := enqueue_flushed l k
  cases wait with
  | false =>
    refine .of_sq ?_ (enqueue_sq_consumed l k) rfl hCq hFlushed
    rw [Ledger.submit, hPushed, List.append_nil]
    exact enqueue_sq_accepted l k
  | true =>
    refine ⟨?_, enqueue_sq_consumed l k, ?_, ?_⟩
    · rw [Ledger.submit, hPushed, List.append_nil]
      exact enqueue_sq_accepted l k
    · refine (flush_delivered _).trans ?_
      rw [hCq]
      exact (List.append_nil _).symm
    · have hAttempts := flush_attempts answers (l.enqueue k).2
      rw [hCq, hFlushed] at hAttempts
      exact hAttempts

theorem take_eq (q : CqLedger IoUringCqe (Cqueue.capacity ring.cq)) (n : Nat) :
    (q.take n).2.posted.take (q.take n).2.delivered =
      q.posted.take q.delivered ++ (q.take n).1 :=
  List.take_add

theorem head?_toList {β : Type} {xs : List β} (h : xs.length ≤ 1) : xs.head?.toList = xs := by
  match xs, h with
  | [], _ => rfl
  | [x], _ => rfl

/-- Entries that are pushed: all of them are accepted, or none. -/
theorem records_offer (l : RingLedger ring) {call : Call S} {entries : List S}
    (hOk : pushedBy (call, (.pushed (pushReply true) : Reply IoUringCqe)) = entries)
    (hErr : pushedBy (call, (.pushed (pushReply false) : Reply IoUringCqe)) = []) :
    Records answers l (call, .pushed (pushReply (l.offer entries).1)) (l.offer entries).2 := by
  refine .of_sq ?_ (Ledger.offer_consumed _ _) rfl rfl rfl
  simp only [Ledger.offer, Ledger.withSq, SqLedger.offer]
  split
  · rw [hOk]
    rfl
  · rw [hErr, List.append_nil]

variable (answers) in
/-- **One call** adds to the pipeline what its reply shows. -/
theorem records_call (l : RingLedger ring) (call : Call S) :
    Records answers l (call, (Ledger.call answers l call).1) (Ledger.call answers l call).2 := by
  cases call with
  | submission => exact .of_sq (List.append_nil _).symm rfl rfl rfl rfl
  | push entry => exact records_offer l rfl rfl
  | pushMultiple entries => exact records_offer l rfl rfl
  | sqSync => exact .of_sq (List.append_nil _).symm rfl rfl rfl rfl
  | sqDrop => exact .of_sq (List.append_nil _).symm rfl rfl rfl rfl
  | submit => exact records_submit l _ _ _ rfl
  | submitAndWait want => exact records_submit l _ _ _ rfl
  | submitWithArgs want => exact records_submit l _ _ _ rfl
  | enter toSubmit minComplete => exact records_submit l _ _ _ rfl
  | completion =>
    refine ⟨(List.append_nil _).symm, rfl, ?_, flush_attempts answers l⟩
    exact (flush_delivered l).trans (List.append_nil _).symm
  | next =>
    refine .of_cq rfl rfl rfl ?_ rfl rfl
    have hLength : (l.cq.take 1).1.length ≤ 1 := by
      simp only [CqLedger.take, List.length_take]
      omega
    refine (take_eq l.cq 1).trans (congrArg _ ?_)
    exact (head?_toList hLength).symm
  | fill n => exact .of_cq rfl rfl rfl (take_eq l.cq n) rfl rfl
  | cqSync => exact .of_cq rfl rfl rfl (List.append_nil _).symm rfl rfl
  | cqDrop => exact .of_cq rfl rfl rfl (List.append_nil _).symm rfl rfl
  | split =>
    refine ⟨(List.append_nil _).symm, rfl, ?_, flush_attempts answers l⟩
    exact (flush_delivered l).trans (List.append_nil _).symm
  | query q =>
    have hCount : countOf (Call.query (S := S) q, Ledger.query l q) = 0 := by cases q <;> rfl
    have hPopped : poppedBy (Call.query (S := S) q, Ledger.query l q) = [] := by cases q <;> rfl
    refine .of_sq (List.append_nil _).symm ?_ hPopped rfl rfl
    rw [Ledger.call, hCount, Nat.add_zero]

theorem recorded_runCalls {history : List (Call S × Reply IoUringCqe)} {l : RingLedger ring}
    (h : Recorded answers history l) (calls : List (Call S)) :
    Recorded answers (history ++ (Ledger.runCalls answers l calls).1)
      (Ledger.runCalls answers l calls).2 := by
  induction calls generalizing history l with
  | nil => simpa [Ledger.runCalls] using h
  | cons call calls ih =>
    have hRest := ih (h.snoc (records_call answers l call))
    rwa [List.append_assoc] at hRest

theorem recorded_start : Recorded answers [] (startLedger ring) where
  accepted := rfl
  consumed := rfl
  delivered := rfl
  attempts := rfl

variable (ring answers) in
/-- **Runs.** The history of a run from a new instance determines the pipeline. -/
theorem recorded_run (calls : List (Call S)) :
    Recorded answers (Ledger.runCalls answers (startLedger ring) calls).1
      (Ledger.runCalls answers (startLedger ring) calls).2 :=
  recorded_runCalls recorded_start calls

end Recorded

end Miring.Stream
