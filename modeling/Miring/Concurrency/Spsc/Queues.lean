import Miring.Program.Protocol
import Miring.Stream.Submit

/-!
# The protocol of the two queues

After `split` three parties work on one ring at the same time: the owner of the
`SubmissionQueue` (the producer), the owner of the `Submitter`, and the owner of the
`CompletionQueue` (the consumer). Each atomic access to the ring is a step of its own.

The protocol `spsc` says what they rely on. The auxiliary values are the two abstract queues
of the pipeline; `Stands` relates them to the ring and to the logs of the slot accesses. Each
party changes only its own part of the state, and every index only grows.
-/

namespace Miring.Concurrency

open Sys Miring.Ring Miring.Stream Dispatch Program Protocol

variable {S C : Type} [Squeue.EntryMarker S] [Cqueue.EntryMarker C]

inductive Party where
  | producer
  | submitter
  | consumer
  deriving DecidableEq

/-- The party that works on an entry after another one, and the producer after the consumer. -/
def Party.next : Party → Party
  | .producer => .submitter
  | .submitter => .consumer
  | .consumer => .producer

theorem Party.eq_or_next (i j : Party) : j = i ∨ j = i.next ∨ j = i.next.next := by
  cases i <;> cases j <;> simp [Party.next]

/-- The abstract queues of a ring. -/
structure Queues (ring : IoUring S C) where
  sq : SqLedger S (Squeue.capacity ring.sq)
  cq : CqLedger IoUringCqe (Cqueue.capacity ring.cq)

/-- The memory of a ring with the queues it stands for. -/
abbrev QState (ring : IoUring S C) := RingMem S C × Queues ring

/-! ## What the ring stands for -/

/-- The completion ring stands for `q`. The slots are kept until they are released. -/
structure CqStands (ring : IoUring S C) (s : RingMem S C)
    (q : CqLedger IoUringCqe (Cqueue.capacity ring.cq)) : Prop where
  head : s.cells .cqHead = UInt32.ofNat q.released
  tail : s.cells .cqTail = UInt32.ofNat q.posted.length
  localHead : s.cells .cqLocalHead = UInt32.ofNat q.delivered
  localTail : s.cells .cqLocalTail = UInt32.ofNat q.seen
  length : s.cqes.length = Cqueue.capacity ring.cq
  holds : Holds (s.cqes.map Cqueue.EntryMarker.cqe) ring.cq.ringMask q.posted q.released

omit [Squeue.EntryMarker S] in
theorem CqStands.congr {ring : IoUring S C} {s s' : RingMem S C}
    {q : CqLedger IoUringCqe (Cqueue.capacity ring.cq)} (h : CqStands ring s q)
    (hp : cqPart s' = cqPart s) : CqStands ring s' q := by
  simp only [cqPart, CqPart.mk.injEq] at hp
  obtain ⟨hHead, hTail, hLocalHead, hLocalTail, -, -, hCqes, -⟩ := hp
  exact ⟨hHead.trans h.head, hTail.trans h.tail, hLocalHead.trans h.localHead,
    hLocalTail.trans h.localTail, hCqes ▸ h.length, hCqes ▸ h.holds⟩

omit [Squeue.EntryMarker S] in
/-- A write to a slot that leaves the unread completions as they were. -/
theorem CqStands.of_slots {ring : IoUring S C} {s s' : RingMem S C}
    {q : CqLedger IoUringCqe (Cqueue.capacity ring.cq)} (h : CqStands ring s q)
    (hCells : s'.cells = s.cells) (hLength : s'.cqes.length = s.cqes.length)
    (hHolds : Holds (s'.cqes.map Cqueue.EntryMarker.cqe) ring.cq.ringMask q.posted q.released) :
    CqStands ring s' q :=
  ⟨hCells ▸ h.head, hCells ▸ h.tail, hCells ▸ h.localHead, hCells ▸ h.localTail,
    hLength.trans h.length, hHolds⟩

/-- The logs of the slot accesses, and the parts of the queues they tell of. -/
structure LogPart (S C : Type) where
  sqeWrites : List S
  sqeReads : List IoUringSqe
  cqeWrites : List IoUringCqe
  cqeReads : List C
  accepted : List S
  consumed : Nat
  posted : List IoUringCqe
  released : Nat

omit [Squeue.EntryMarker S] [Cqueue.EntryMarker C] in
def logPart {ring : IoUring S C} (x : QState ring) : LogPart S C :=
  ⟨x.1.sqeWrites, x.1.sqeReads, x.1.cqeWrites, x.1.cqeReads, x.2.sq.accepted, x.2.sq.consumed,
    x.2.cq.posted, x.2.cq.released⟩

/-- The queues have grown from `init` by what was written to the slots; and what was read from
the slots are the entries of the queues, in order. -/
structure Logs {ring : IoUring S C} (init : Queues ring) (p : LogPart S C) : Prop where
  pushed : p.accepted <+: init.sq.accepted ++ p.sqeWrites
  copied : p.sqeReads <+: (p.accepted.drop init.sq.consumed).map Squeue.EntryMarker.sqe
  consumed : init.sq.consumed ≤ p.consumed
  posted : p.posted <+: init.cq.posted ++ p.cqeWrites
  popped : p.cqeReads.map Cqueue.EntryMarker.cqe <+: p.posted.drop init.cq.delivered
  released : init.cq.released ≤ p.released

structure Stands (ring : IoUring S C) (init : Queues ring) (x : QState ring) : Prop where
  sq : SqRefines ring x.1 x.2.sq
  cq : CqStands ring x.1 x.2.cq
  logs : Logs init (logPart x)

/-! ## Who owns what -/

section Parts

omit [Squeue.EntryMarker S] [Cqueue.EntryMarker C]

variable {ring : IoUring S C}

/-- The part of the state that only a given party changes. -/
structure ProducerPart (S : Type) where
  sqes : List S
  writes : List S
  accepted : List S
  published : Nat
  seen : Nat

structure SubmitterPart (C : Type) where
  cqes : List C
  threads : List (List IoUringSqe)
  pending : List Nat
  reads : List IoUringSqe
  writes : List IoUringCqe
  consumed : Nat
  posted : List IoUringCqe

structure ConsumerPart (C : Type) where
  reads : List C
  delivered : Nat
  released : Nat
  seen : Nat

def producerPart (x : QState ring) : ProducerPart S :=
  ⟨x.1.sqes, x.1.sqeWrites, x.2.sq.accepted, x.2.sq.published, x.2.sq.seen⟩

def submitterPart (x : QState ring) : SubmitterPart C :=
  ⟨x.1.cqes, x.1.threads, x.1.pending, x.1.sqeReads, x.1.cqeWrites, x.2.sq.consumed,
    x.2.cq.posted⟩

def consumerPart (x : QState ring) : ConsumerPart C :=
  ⟨x.1.cqeReads, x.2.cq.delivered, x.2.cq.released, x.2.cq.seen⟩

/-- The part of a party is the same in two states. -/
def SamePart : Party → QState ring → QState ring → Prop
  | .producer, x, x' => producerPart x' = producerPart x
  | .submitter, x, x' => submitterPart x' = submitterPart x
  | .consumer, x, x' => consumerPart x' = consumerPart x

/-- The indices that another party reads only grow. -/
structure Progress (x x' : QState ring) : Prop where
  accepted : x.2.sq.accepted <+: x'.2.sq.accepted
  published : x.2.sq.published ≤ x'.2.sq.published
  consumed : x.2.sq.consumed ≤ x'.2.sq.consumed
  posted : x.2.cq.posted <+: x'.2.cq.posted
  released : x.2.cq.released ≤ x'.2.cq.released

theorem SamePart.refl (i : Party) (x : QState ring) : SamePart i x x := by cases i <;> rfl

theorem SamePart.trans {i : Party} {x y z : QState ring} (h : SamePart i x y)
    (h' : SamePart i y z) : SamePart i x z := by
  cases i with
  | producer => exact Eq.trans (b := producerPart y) h' h
  | submitter => exact Eq.trans (b := submitterPart y) h' h
  | consumer => exact Eq.trans (b := consumerPart y) h' h

theorem Progress.of_queues {x x' : QState ring} (h : x'.2 = x.2) : Progress x x' := by
  obtain ⟨s, g⟩ := x'
  obtain rfl : g = x.2 := h
  exact ⟨List.prefix_rfl, Nat.le_refl _, Nat.le_refl _, List.prefix_rfl, Nat.le_refl _⟩

theorem Progress.refl (x : QState ring) : Progress x x := .of_queues rfl

theorem Progress.trans {x y z : QState ring} (h : Progress x y) (h' : Progress y z) :
    Progress x z :=
  ⟨h.accepted.trans h'.accepted, Nat.le_trans h.published h'.published,
    Nat.le_trans h.consumed h'.consumed, h.posted.trans h'.posted,
    Nat.le_trans h.released h'.released⟩

end Parts

/-! ## Slot accesses -/

/-- An access to a slot is safe: entries are written only where no queued entry is, and read
only where one is. -/
def SafeAccess (ring : IoUring S C) : RingOp S C → RingMem S C → Prop
  | .writeSqe index _, s => ∀ k < dist (s.cells .sqHead) (s.cells .sqTail),
      index ≠ slot ring.sq.ringMask (s.cells .sqHead + UInt32.ofNat k)
  | .readSqe offset, s => ∃ k < dist (s.cells .sqHead) (s.cells .sqTail),
      offset = slot ring.sq.ringMask (s.cells .sqHead + UInt32.ofNat k) *
        Squeue.EntryMarker.size S
  | .writeCqe offset _, s => ∀ k < dist (s.cells .cqHead) (s.cells .cqTail),
      offset ≠ slot ring.cq.ringMask (s.cells .cqHead + UInt32.ofNat k) *
        Cqueue.EntryMarker.size C
  | .zeroExtra offset, s => ∀ k < dist (s.cells .cqHead) (s.cells .cqTail),
      offset ≠ slot ring.cq.ringMask (s.cells .cqHead + UInt32.ofNat k) *
        Cqueue.EntryMarker.size C
  | .readCqe index, s => ∃ k < dist (s.cells .cqHead) (s.cells .cqTail),
      index = slot ring.cq.ringMask (s.cells .cqHead + UInt32.ofNat k)
  | _, _ => True

def spsc (ring : IoUring S C) (init : Queues ring) :
    Protocol Party (ringSig S C) (RingMem S C) (Queues ring) where
  inv := Stands ring init
  rely i x x' := SamePart i x x' ∧ Progress x x'
  safe := SafeAccess ring
  rely_refl i x := ⟨.refl i x, .refl x⟩
  rely_trans _ _ _ _ h h' := ⟨h.1.trans h'.1, h.2.trans h'.2⟩

variable {ring : IoUring S C} {init : Queues ring} {results : Nat → List CompletionData}

/-! ## Steps -/

section Steps

omit [Cqueue.EntryMarker C] [Squeue.EntryMarker S]

theorem dist_indices {a b cap : Nat} (h : a ≤ b) (hCap : b ≤ a + cap) (hLt : cap < 2 ^ 32) :
    dist (UInt32.ofNat a) (UInt32.ofNat b) = b - a :=
  toNat_ofNat_sub h (by omega)

theorem dist_sq {s : RingMem S C} {q : SqLedger S (Squeue.capacity ring.sq)}
    (h : SqRefines ring s q) :
    dist (s.cells .sqHead) (s.cells .sqTail) = q.published - q.consumed := by
  have hLen := q.length_le
  have hSeen := q.seen_le
  have hPublished := q.published_le
  have hCap : Squeue.capacity ring.sq < 2 ^ 32 := UInt32.toNat_lt _
  rw [h.head, h.tail]
  exact dist_indices q.consumed_le (by omega) hCap

theorem prefix_drop {α : Type} {xs ys : List α} (h : xs <+: ys) {n : Nat} :
    xs.drop n <+: ys.drop n := by
  obtain ⟨zs, rfl⟩ := h
  rw [List.drop_append]
  exact List.prefix_append _ _

theorem prefix_drop_map {α β : Type} {xs ys : List α} (h : xs <+: ys) {n : Nat} {f : α → β} :
    (xs.drop n).map f <+: (ys.drop n).map f :=
  (prefix_drop h).map f

theorem append_prefix_concat {α : Type} (xs ys : List α) (a : α) :
    xs ++ ys <+: xs ++ (ys ++ [a]) := by
  rw [← List.append_assoc]
  exact List.prefix_append _ _

theorem prefix_snoc {α : Type} {xs ys : List α} (h : xs <+: ys) {a : α}
    (ha : ys[xs.length]? = some a) : xs ++ [a] <+: ys := by
  obtain ⟨zs, rfl⟩ := h
  rw [List.getElem?_append_right (Nat.le_refl _), Nat.sub_self] at ha
  cases zs with
  | nil => cases ha
  | cons z zs =>
    obtain rfl := Option.some.inj ha
    exact ⟨zs, by simp⟩

/-- A step of party `i` that leaves the parts of the two others. -/
theorem others_same {i : Party} {x x' : QState ring} (hNext : SamePart i.next x x')
    (hLast : SamePart i.next.next x x') : ∀ j, j ≠ i → SamePart j x x' := by
  intro j hj
  rcases i.eq_or_next j with rfl | rfl | rfl
  · exact absurd rfl hj
  · exact hNext
  · exact hLast

end Steps

omit [Squeue.EntryMarker S] in
theorem dist_cq {s : RingMem S C} {q : CqLedger IoUringCqe (Cqueue.capacity ring.cq)}
    (h : CqStands ring s q) :
    dist (s.cells .cqHead) (s.cells .cqTail) = q.posted.length - q.released := by
  have hLe := q.released_le_posted
  have hCap : Cqueue.capacity ring.cq < 2 ^ 32 := UInt32.toNat_lt _
  rw [h.head, h.tail]
  exact dist_indices hLe q.length_le hCap

theorem allows_of {i : Party} {o : RingOp S C} {x x' : QState ring}
    (hSafe : SafeAccess ring o x.1) (hInv : Stands ring init x')
    (hSame : ∀ j, j ≠ i → SamePart j x x') (hProgress : Progress x x') :
    (spsc ring init).Allows i o x x' :=
  ⟨hSafe, hInv, fun j hj => ⟨hSame j hj, hProgress⟩⟩

theorem stable_of {i : Party} {A : QState ring → Prop}
    (h : ∀ x x', SamePart i x x' → Progress x x' → A x → A x') : (spsc ring init).Stable i A :=
  fun x x' _ _ hR => h x x' hR.1 hR.2

/-- A load, and what its answer tells. -/
theorem triple_load {i : Party} {α : Type} {A : QState ring → Prop} {c : Cell}
    {k : UInt32 → RingProgram S C α} {Q : α → QState ring → Prop}
    (hA : (spsc ring init).Stable i A) (L : UInt32 → QState ring → Prop)
    (hL : ∀ x, Stands ring init x → A x → L (x.1.cells c) x)
    (hk : ∀ v, Triple (ringSem results) (spsc ring init) i (fun x => A x ∧ L v x) (k v) Q) :
    Triple (ringSem results) (spsc ring init) i A (load c >>= k) Q :=
  Triple.act hA (fun x hx ha => ⟨x.1.cells c, x, rfl,
    allows_of trivial hx (fun j _ => .refl j x) (.refl x), ha, hL x hx ha⟩) hk

end Miring.Concurrency
