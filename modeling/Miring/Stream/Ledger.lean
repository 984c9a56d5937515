import Mathlib.Data.List.Basic
import Mathlib.Tactic.Common

/-!
# The abstract pipeline

What a ring is for, without slots, masks or counters: requests of type `α` are accepted into
a bounded queue, taken out of it in batches, and answered by completions of type `β`, which
go through a second bounded queue to the client.

Every index is the number of entries that have passed it since the start. A queue keeps all
entries it was ever given, so an index never moves back, and the distance of two indices is
at most the capacity. These bounds are fields of the structures.

* `SqLedger`: entries are accepted, published to the submitter and consumed by it; `seen` is
  the part of the consumed entries that the producer knows of.
* `CqLedger`: completions are offered and posted if there is room, delivered to the client,
  and released; `seen` is the part of the posted ones that the client knows of.
* `Ledger`: both queues, and the batches between them; the first `flushed` batches have been
  answered.
-/

namespace Miring.Stream

variable {α β : Type}

/-! ## The queue of requests -/

structure SqLedger (α : Type) (cap : Nat) where
  accepted : List α
  published : Nat
  consumed : Nat
  seen : Nat
  seen_le : seen ≤ consumed
  consumed_le : consumed ≤ published
  published_le : published ≤ accepted.length
  length_le : accepted.length ≤ seen + cap

namespace SqLedger

variable {cap : Nat}

@[simps] def empty (cap : Nat) : SqLedger α cap where
  accepted := []
  published := 0
  consumed := 0
  seen := 0
  seen_le := Nat.le_refl _
  consumed_le := Nat.le_refl _
  published_le := Nat.le_refl _
  length_le := Nat.zero_le _

/-- The number of entries the producer takes to be queued. -/
def len (q : SqLedger α cap) : Nat := q.accepted.length - q.seen

theorem len_le (q : SqLedger α cap) : q.len ≤ cap := by
  have := q.length_le
  unfold len
  omega

/-- The producer learns how far the consumer is. -/
@[simps] def refresh (q : SqLedger α cap) : SqLedger α cap :=
  { q with
    seen := q.consumed
    seen_le := Nat.le_refl _
    length_le := by have := q.length_le; have := q.seen_le; omega }

/-- The producer learns how far the consumer was some time ago. -/
@[simps] def refreshTo (q : SqLedger α cap) (k : Nat) (h : q.seen ≤ k) (h' : k ≤ q.consumed) :
    SqLedger α cap :=
  { q with
    seen := k
    seen_le := h'
    length_le := by have := q.length_le; omega }

@[simps] def publish (q : SqLedger α cap) : SqLedger α cap :=
  { q with
    published := q.accepted.length
    consumed_le := Nat.le_trans q.consumed_le q.published_le
    published_le := Nat.le_refl _ }

/-- Accept a list of entries if there is room for all of them. -/
@[simps] def pushAll (q : SqLedger α cap) (xs : List α) (h : xs.length ≤ cap - q.len) : SqLedger α cap :=
  { q with
    accepted := q.accepted ++ xs
    published_le := by rw [List.length_append]; have := q.published_le; omega
    length_le := by
      have := q.length_le
      have := q.seen_le
      have := q.consumed_le
      have := q.published_le
      unfold len at h
      rw [List.length_append]
      omega }

/-- Whether the entries were accepted, and the queue behind that. -/
def offer (q : SqLedger α cap) (xs : List α) : Bool × SqLedger α cap :=
  if h : xs.length ≤ cap - q.len then (true, q.pushAll xs h) else (false, q)

/-- The entries that are published and not consumed. -/
def ready (q : SqLedger α cap) : Nat := q.published - q.consumed

theorem ready_le (q : SqLedger α cap) : q.ready ≤ cap := by
  have := q.length_le
  have := q.seen_le
  have := q.published_le
  unfold ready
  omega

@[simps] def consume (q : SqLedger α cap) (n : Nat) (h : n ≤ q.ready) : SqLedger α cap :=
  { q with
    consumed := q.consumed + n
    seen_le := Nat.le_trans q.seen_le (Nat.le_add_right _ _)
    consumed_le := by have := q.consumed_le; unfold ready at h; omega }

/-- The next `n` entries. -/
def batch (q : SqLedger α cap) (n : Nat) : List α := (q.accepted.drop q.consumed).take n

end SqLedger

/-! ## The queue of completions -/

/-- The offered completions that found room. -/
def postedOf (attempts : List (β × Bool)) : List β := (attempts.filter (·.2)).map (·.1)

def refusedOf (attempts : List (β × Bool)) : Nat := (attempts.filter (!·.2)).length

theorem postedOf_append (xs ys : List (β × Bool)) :
    postedOf (xs ++ ys) = postedOf xs ++ postedOf ys := by
  simp [postedOf]

theorem refusedOf_append (xs ys : List (β × Bool)) :
    refusedOf (xs ++ ys) = refusedOf xs + refusedOf ys := by
  simp [refusedOf]

/-- Each completion with what became of it. -/
theorem postedOf_sublist (attempts : List (β × Bool)) :
    (postedOf attempts).Sublist (attempts.map (·.1)) :=
  List.filter_sublist.map _

structure CqLedger (β : Type) (cap : Nat) where
  attempts : List (β × Bool)
  delivered : Nat
  released : Nat
  seen : Nat
  released_le : released ≤ delivered
  delivered_le : delivered ≤ seen
  seen_le : seen ≤ (postedOf attempts).length
  length_le : (postedOf attempts).length ≤ released + cap

namespace CqLedger

variable {cap : Nat}

@[simps] def empty (cap : Nat) : CqLedger β cap where
  attempts := []
  delivered := 0
  released := 0
  seen := 0
  released_le := Nat.le_refl _
  delivered_le := Nat.le_refl _
  seen_le := Nat.le_refl _
  length_le := Nat.zero_le _

def posted (q : CqLedger β cap) : List β := postedOf q.attempts

def refused (q : CqLedger β cap) : Nat := refusedOf q.attempts

theorem released_le_posted (q : CqLedger β cap) : q.released ≤ q.posted.length :=
  Nat.le_trans q.released_le (Nat.le_trans q.delivered_le q.seen_le)

def hasRoom (q : CqLedger β cap) : Bool := decide (q.posted.length - q.released < cap)

/-- Offer a completion; without room for it, it is only counted. -/
@[simps] def post (q : CqLedger β cap) (x : β) : CqLedger β cap :=
  { q with
    attempts := q.attempts ++ [(x, q.hasRoom)]
    seen_le := by
      rw [postedOf_append, List.length_append]
      exact Nat.le_trans q.seen_le (Nat.le_add_right _ _)
    length_le := by
      have hLen := q.length_le
      have hLe := Nat.le_trans q.released_le (Nat.le_trans q.delivered_le q.seen_le)
      rw [postedOf_append, List.length_append]
      by_cases hRoom : q.hasRoom
      · have hLt : (postedOf q.attempts).length - q.released < cap := of_decide_eq_true hRoom
        have hOne : (postedOf [(x, q.hasRoom)]).length = 1 := by simp [postedOf, hRoom]
        omega
      · have hZero : (postedOf [(x, q.hasRoom)]).length = 0 := by simp [postedOf, hRoom]
        omega }

def postAll (q : CqLedger β cap) (xs : List β) : CqLedger β cap := xs.foldl post q

/-- The client learns which completions there are. -/
@[simps] def refresh (q : CqLedger β cap) : CqLedger β cap :=
  { q with
    seen := q.posted.length
    delivered_le := Nat.le_trans q.delivered_le q.seen_le
    seen_le := Nat.le_refl _ }

/-- The client learns which completions there were some time ago. -/
@[simps] def refreshTo (q : CqLedger β cap) (k : Nat) (h : q.seen ≤ k) (h' : k ≤ q.posted.length) :
    CqLedger β cap :=
  { q with
    seen := k
    delivered_le := Nat.le_trans q.delivered_le h
    seen_le := h' }

@[simps] def release (q : CqLedger β cap) : CqLedger β cap :=
  { q with
    released := q.delivered
    released_le := Nat.le_refl _
    length_le := by have := q.length_le; have := q.released_le; omega }

section Simp

variable (q : CqLedger β cap)

@[simp] theorem posted_refresh : q.refresh.posted = q.posted := rfl

@[simp] theorem posted_refreshTo {k : Nat} (h : q.seen ≤ k) (h' : k ≤ q.posted.length) :
    (q.refreshTo k h h').posted = q.posted := rfl

@[simp] theorem posted_release : q.release.posted = q.posted := rfl

@[simp] theorem refused_refresh : q.refresh.refused = q.refused := rfl

@[simp] theorem refused_release : q.release.refused = q.refused := rfl

end Simp

/-- The number of completions the client takes to be queued. -/
def len (q : CqLedger β cap) : Nat := q.seen - q.delivered

@[simps] def deliver (q : CqLedger β cap) (n : Nat) (h : n ≤ q.len) : CqLedger β cap :=
  { q with
    delivered := q.delivered + n
    released_le := Nat.le_trans q.released_le (Nat.le_add_right _ _)
    delivered_le := by have := q.delivered_le; unfold len at h; omega }

@[simp] theorem posted_deliver (q : CqLedger β cap) {n : Nat} (h : n ≤ q.len) :
    (q.deliver n h).posted = q.posted := rfl

@[simp] theorem refused_deliver (q : CqLedger β cap) {n : Nat} (h : n ≤ q.len) :
    (q.deliver n h).refused = q.refused := rfl

/-- The posted completions that the client has not taken. -/
def unread (q : CqLedger β cap) : List β := q.posted.drop q.delivered

/-- Up to `n` of the completions the client sees. -/
def take (q : CqLedger β cap) (n : Nat) : List β × CqLedger β cap :=
  (q.unread.take (min q.len n), q.deliver (min q.len n) (Nat.min_le_left _ _))

theorem len_le (q : CqLedger β cap) : q.len ≤ cap := by
  have := q.length_le
  have := q.seen_le
  have := q.released_le
  unfold len
  omega

end CqLedger

/-! ## The pipeline -/

structure Ledger (α β : Type) (sqCap cqCap : Nat) where
  sq : SqLedger α sqCap
  cq : CqLedger β cqCap
  batches : List (List α)
  flushed : Nat
  batches_eq : batches.flatten = sq.accepted.take sq.consumed
  flushed_le : flushed ≤ batches.length

namespace Ledger

variable {sqCap cqCap : Nat}

def empty (sqCap cqCap : Nat) : Ledger α β sqCap cqCap where
  sq := .empty sqCap
  cq := .empty cqCap
  batches := []
  flushed := 0
  batches_eq := rfl
  flushed_le := Nat.le_refl _

/-- The batches that wait to be answered. -/
def pending (l : Ledger α β sqCap cqCap) : List Nat :=
  List.range' l.flushed (l.batches.length - l.flushed)

/-- An operation on the queue of requests that does not consume. -/
def withSq (l : Ledger α β sqCap cqCap) (sq : SqLedger α sqCap)
    (h : l.sq.accepted <+: sq.accepted) (hc : sq.consumed = l.sq.consumed) :
    Ledger α β sqCap cqCap :=
  { l with
    sq
    batches_eq := by
      obtain ⟨xs, hxs⟩ := h
      have := l.sq.consumed_le
      have := l.sq.published_le
      rw [l.batches_eq, hc, ← hxs, List.take_append_of_le_length (by omega)] }

def withCq (l : Ledger α β sqCap cqCap) (cq : CqLedger β cqCap) : Ledger α β sqCap cqCap :=
  { l with cq }

theorem offer_accepted (q : SqLedger α sqCap) (xs : List α) :
    q.accepted <+: (q.offer xs).2.accepted := by
  unfold SqLedger.offer
  split
  · exact List.prefix_append _ _
  · exact List.prefix_rfl

theorem offer_consumed (q : SqLedger α sqCap) (xs : List α) :
    (q.offer xs).2.consumed = q.consumed := by
  unfold SqLedger.offer
  split <;> rfl

def offer (l : Ledger α β sqCap cqCap) (xs : List α) : Bool × Ledger α β sqCap cqCap :=
  ((l.sq.offer xs).1, l.withSq (l.sq.offer xs).2 (offer_accepted _ _) (offer_consumed _ _))

def publish (l : Ledger α β sqCap cqCap) : Ledger α β sqCap cqCap :=
  l.withSq l.sq.publish List.prefix_rfl rfl

def refreshSq (l : Ledger α β sqCap cqCap) : Ledger α β sqCap cqCap :=
  l.withSq l.sq.refresh List.prefix_rfl rfl

/-- Take a batch of `n` entries out of the queue of requests. -/
def consume (l : Ledger α β sqCap cqCap) (n : Nat) (h : n ≤ l.sq.ready) :
    Ledger α β sqCap cqCap :=
  { l with
    sq := l.sq.consume n h
    batches := l.batches ++ [l.sq.batch n]
    batches_eq := by
      rw [List.flatten_append, List.flatten_singleton, l.batches_eq]
      exact List.take_add.symm
    flushed_le := by
      rw [List.length_append]
      exact Nat.le_trans l.flushed_le (Nat.le_add_right _ _) }

/-- Submit up to `k` entries; an empty batch is not started. -/
def enqueue (l : Ledger α β sqCap cqCap) (k : Nat) : Nat × Ledger α β sqCap cqCap :=
  if min k l.sq.ready = 0 then (0, l)
  else (min k l.sq.ready, l.consume (min k l.sq.ready) (Nat.min_le_right _ _))

/-- Answer the pending batches in order; batch `i` offers the completions `answers i`. -/
def flush (answers : Nat → List β) (l : Ledger α β sqCap cqCap) : Ledger α β sqCap cqCap :=
  { l with
    cq := l.cq.postAll (l.pending.flatMap answers)
    flushed := l.batches.length
    flushed_le := Nat.le_refl _ }

def flushIf (answers : Nat → List β) (b : Bool) (l : Ledger α β sqCap cqCap) :
    Ledger α β sqCap cqCap :=
  if b then l.flush answers else l

end Ledger

end Miring.Stream
