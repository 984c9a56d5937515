import Miring.Concurrency.Submitters
import Miring.Concurrency.Spsc.Producer
import Miring.Concurrency.Spsc.Submitter
import Miring.Concurrency.Spsc.Consumer

/-!
# One producer, one submitter, one consumer

The three handles of `split`, each used by a thread of its own. In every state that a
schedule reaches, the counters of either ring are in order, modulo `2 ^ 32`, also where the
copies of a handle are out of date; no slot is overwritten before it was read; and what is
read are the entries that were written, in order (`spsc_safety`).
-/

namespace Miring.Concurrency

open Sys Miring.Ring Miring.Stream Dispatch Program Protocol

variable {S C : Type} [Squeue.EntryMarker S] [Cqueue.EntryMarker C]

/-! ## Statement -/

/-- `a ≤ b ≤ c ≤ d ≤ a + entries`, measured from `a` on. -/
structure InOrder (a b c d : UInt32) (entries : Nat) : Prop where
  first : dist a b ≤ dist a c
  second : dist a c ≤ dist a d
  third : dist a d ≤ entries

/-- The party that owns the handle of a call; `submission`, `completion` and `split` borrow the
instance itself. -/
def Query.party : Query → Party
  | .sqLen | .sqIsEmpty | .sqIsFull | .sqCapacity | .sqNeedWakeup | .sqDropped | .sqCqOverflow
  | .sqTaskrun => .producer
  | .cqLen | .cqIsEmpty | .cqIsFull | .cqCapacity | .cqOverflow | .cqEventfdDisabled => .consumer

def Call.party : Call S → Option Party
  | .push _ | .pushMultiple _ | .sqSync | .sqDrop => some .producer
  | .submit | .submitAndWait _ | .submitWithArgs _ | .enter _ _ => some .submitter
  | .next | .fill _ | .cqSync | .cqDrop => some .consumer
  | .query q => some (Query.party q)
  | .submission | .completion | .split => none

/-- One call after another. -/
def callsProgram (ring : IoUring S C) : List (Call S) → RingProgram S C (List (Reply C))
  | [] => pure []
  | call :: calls => do
      let reply ← call.program ring
      let replies ← callsProgram ring calls
      pure (reply :: replies)

omit [Squeue.EntryMarker S] [Cqueue.EntryMarker C] in
/-- The logs of the slot accesses start when the handles are made. -/
def forgetLogs (s : RingMem S C) : RingMem S C :=
  { s with sqeWrites := [], sqeReads := [], cqeWrites := [], cqeReads := [] }

/-- Three threads, each with the handle of its party. -/
def parties (ring : IoUring S C) (calls : Party → List (Call S)) (s : RingMem S C) :
    Pool Party (ringSig S C) (RingMem S C) (List (Reply C)) :=
  ⟨fun i => callsProgram ring (calls i), forgetLogs s⟩

/-- The state behind `split`. -/
structure SplitState (ring : IoUring S C) (s : RingMem S C) : Prop where
  sqLocalHead : s.cells .sqLocalHead = s.cells .sqHead
  sqLocalTail : s.cells .sqLocalTail = s.cells .sqTail
  cqLocalHead : s.cells .cqLocalHead = s.cells .cqHead
  cqLocalTail : s.cells .cqLocalTail = s.cells .cqTail
  queued : dist (s.cells .sqHead) (s.cells .sqTail) ≤ Squeue.capacity ring.sq
  posted : dist (s.cells .cqHead) (s.cells .cqTail) ≤ Cqueue.capacity ring.cq
  sqes : s.sqes.length = Squeue.capacity ring.sq
  cqes : s.cqes.length = Cqueue.capacity ring.cq
  started : ∀ i ∈ s.pending, i < s.threads.length

instance (ring : IoUring S C) (s : RingMem S C) : Decidable (SplitState ring s) :=
  decidable_of_iff
    ((s.cells .sqLocalHead = s.cells .sqHead ∧ s.cells .sqLocalTail = s.cells .sqTail) ∧
      (s.cells .cqLocalHead = s.cells .cqHead ∧ s.cells .cqLocalTail = s.cells .cqTail) ∧
      dist (s.cells .sqHead) (s.cells .sqTail) ≤ Squeue.capacity ring.sq ∧
      dist (s.cells .cqHead) (s.cells .cqTail) ≤ Cqueue.capacity ring.cq ∧
      s.sqes.length = Squeue.capacity ring.sq ∧ s.cqes.length = Cqueue.capacity ring.cq ∧
      ∀ i ∈ s.pending, i < s.threads.length)
    ⟨fun ⟨⟨h₁, h₂⟩, ⟨h₃, h₄⟩, h₅, h₆, h₇, h₈, h₉⟩ => ⟨h₁, h₂, h₃, h₄, h₅, h₆, h₇, h₈, h₉⟩,
      fun h => ⟨⟨h.sqLocalHead, h.sqLocalTail⟩, ⟨h.cqLocalHead, h.cqLocalTail⟩, h.queued,
        h.posted, h.sqes, h.cqes, h.started⟩⟩

/-- The queued entries. -/
def queuedEntries (ring : IoUring S C) (s : RingMem S C) : List S :=
  (window s.sqes ring.sq.ringMask (s.cells .sqHead) (queuedLen s)).filterMap id

/-- The number of completions that were posted and not released. -/
def unreadLen (s : RingMem S C) : Nat := dist (s.cells .cqHead) (s.cells .cqTail)

def unreadCqes (ring : IoUring S C) (s : RingMem S C) : List IoUringCqe :=
  (window (s.cqes.map Cqueue.EntryMarker.cqe) ring.cq.ringMask (s.cells .cqHead)
    (unreadLen s)).filterMap id

/-- What holds in every state `s` behind `s₀`. -/
structure SpscState (ring : IoUring S C) (s₀ s : RingMem S C) : Prop where
  sqOrder : InOrder (s.cells .sqLocalHead) (s.cells .sqHead) (s.cells .sqTail)
    (s.cells .sqLocalTail) (Squeue.capacity ring.sq)
  cqOrder : InOrder (s.cells .cqHead) (s.cells .cqLocalHead) (s.cells .cqLocalTail)
    (s.cells .cqTail) (Cqueue.capacity ring.cq)
  /-- the slots between head and tail hold entries that were completely written -/
  sqSlots : ∃ n, queuedEntries ring s =
    ((queuedEntries ring s₀ ++ s.sqeWrites).drop n).take (queuedLen s)
  cqSlots : ∃ n, unreadCqes ring s =
    ((unreadCqes ring s₀ ++ s.cqeWrites).drop n).take (unreadLen s)
  /-- what `enqueue_sqes` has read are the entries that were pushed, in order -/
  sqReads : s.sqeReads <+:
    (queuedEntries ring s₀ ++ s.sqeWrites).map Squeue.EntryMarker.sqe
  /-- what was popped are the completions that were posted, in order -/
  cqReads : s.cqeReads.map Cqueue.EntryMarker.cqe <+: unreadCqes ring s₀ ++ s.cqeWrites

/-- The next action of every party is defined, and safe if it accesses a slot. -/
def SafeNext (ring : IoUring S C) (results : Nat → List CompletionData)
    (P : Pool Party (ringSig S C) (RingMem S C) (List (Reply C))) : Prop :=
  ∀ i o k, P.progs i = .act o k →
    SafeAccess ring o P.state ∧ ∃ r s', ringSem results o P.state = some (r, s')

/-- A slot that is read belongs to a list of `n` counters from `head` on. -/
def ReadsWithin (ring : IoUring S C) (head : UInt32) (n : Nat) (tr : List (Event (ringSig S C))) :
    Prop :=
  ∀ offset sqe, (⟨.readSqe offset, sqe⟩ : Event (ringSig S C)) ∈ tr →
    ∃ k < n, offset = slot ring.sq.ringMask (head + UInt32.ofNat k) * Squeue.EntryMarker.size S

/-- `enqueue_sqes` reads the slots between the head and the tail that it loaded. -/
def ReadsLoaded (ring : IoUring S C) (tr : List (Event (ringSig S C))) : Prop :=
  ∃ head tail rest, tr = ⟨.load .sqHead, head⟩ :: ⟨.load .sqTail, tail⟩ :: rest ∧
    ReadsWithin ring head (dist head tail) rest

/-! ## The calls of a party -/

variable {ring : IoUring S C} {init : Queues ring} {results : Nat → List CompletionData}

/-- What a party knows between two calls. -/
def Rest (init : Queues ring) : Party → QState ring → Prop
  | .producer => ProducerRest init
  | .submitter => SubmitterRest init []
  | .consumer => ConsumerRest init

theorem stable_rest (i : Party) : (spsc ring init).Stable i (Rest init i) := by
  cases i with
  | producer => exact stable_producerRest
  | submitter => exact stable_copied 0
  | consumer => exact stable_consumerRest

/-- A load whose answer tells nothing. -/
theorem triple_look {i : Party} {α : Type} {A : QState ring → Prop}
    (hA : (spsc ring init).Stable i A) (c : Cell) {k : UInt32 → RingProgram S C α}
    {Q : α → QState ring → Prop}
    (hk : ∀ v, Triple (ringSem results) (spsc ring init) i A (k v) Q) :
    Triple (ringSem results) (spsc ring init) i A (load c >>= k) Q :=
  triple_load hA (fun _ _ => True) (fun _ _ _ => trivial) fun v =>
    (hk v).conseq (fun _ _ h => h.1) fun _ _ _ h => h

theorem triple_query (i : Party) (q : Query) :
    Triple (ringSem results) (spsc ring init) i (Rest init i) (q.program ring)
      fun _ => Rest init i := by
  have hReturn : ∀ r, Triple (ringSem results) (spsc ring init) i (Rest init i)
      (Program.ret r) fun _ : Reply C => Rest init i :=
    fun r => .ret (stable_rest i) fun _ _ h => h
  cases q with
  | sqCapacity | cqCapacity => exact hReturn _
  | sqNeedWakeup | sqCqOverflow | sqTaskrun =>
    exact triple_look (stable_rest i) .sqFlags fun _ => hReturn _
  | sqDropped => exact triple_look (stable_rest i) .sqDropped fun _ => hReturn _
  | cqOverflow => exact triple_look (stable_rest i) .cqOverflow fun _ => hReturn _
  | cqEventfdDisabled => exact triple_look (stable_rest i) .cqFlags fun _ => hReturn _
  | sqLen | sqIsEmpty | sqIsFull =>
    exact triple_look (stable_rest i) .sqLocalTail fun _ =>
      triple_look (stable_rest i) .sqLocalHead fun _ => hReturn _
  | cqLen | cqIsEmpty | cqIsFull =>
    exact triple_look (stable_rest i) .cqLocalTail fun _ =>
      triple_look (stable_rest i) .cqLocalHead fun _ => hReturn _

theorem triple_call {i : Party} {call : Call S} (h : Call.party call = some i) :
    Triple (ringSem results) (spsc ring init) i (Rest init i) (call.program ring)
      fun _ => Rest init i := by
  cases call with
  | submission | completion | split => cases h
  | push entry =>
    cases h
    exact (triple_push entry).map stable_producerRest
  | pushMultiple entries =>
    cases h
    exact (triple_pushMultiple entries).map stable_producerRest
  | sqSync =>
    cases h
    exact triple_sqSync.map stable_producerRest
  | sqDrop =>
    cases h
    exact triple_sqDrop.map stable_producerRest
  | submit =>
    cases h
    exact (triple_submitAndWait 0).map (stable_copied 0)
  | submitAndWait want =>
    cases h
    exact (triple_submitAndWait want).map (stable_copied 0)
  | submitWithArgs want =>
    cases h
    exact (triple_submitWithArgs want).map (stable_copied 0)
  | enter toSubmit minComplete =>
    cases h
    exact (triple_enter toSubmit minComplete).map (stable_copied 0)
  | next =>
    cases h
    exact triple_next.map stable_consumerRest
  | fill n =>
    cases h
    exact (triple_fill n).map stable_consumerRest
  | cqSync =>
    cases h
    exact triple_cqSync.map stable_consumerRest
  | cqDrop =>
    cases h
    exact triple_cqDrop.map stable_consumerRest
  | query q => exact triple_query i q

theorem triple_calls {i : Party} {calls : List (Call S)}
    (h : ∀ call ∈ calls, Call.party call = some i) :
    Triple (ringSem results) (spsc ring init) i (Rest init i) (callsProgram ring calls)
      fun _ => Rest init i := by
  induction calls with
  | nil => exact .ret (stable_rest i) fun _ _ h => h
  | cons call calls ih =>
    refine (triple_call (h call List.mem_cons_self)).bind fun reply => ?_
    refine (ih fun c hc => h c (List.mem_cons_of_mem _ hc)).bind fun replies => ?_
    exact .ret (stable_rest i) fun _ _ h => h

/-! ## The start -/

section Start

theorem postedOf_accepted {β : Type} (xs : List β) : postedOf (xs.map fun x => (x, true)) = xs := by
  simp [postedOf, List.filter_map, Function.comp_def]

variable {s : RingMem S C}

omit [Squeue.EntryMarker S] [Cqueue.EntryMarker C] in
theorem queuedEntries_eq (hs : s.sqes.length = Squeue.capacity ring.sq) :
    window s.sqes ring.sq.ringMask (s.cells .sqHead) (queuedLen s) =
      (queuedEntries ring s).map some :=
  window_eq_map ring.sq_masks hs _ _

omit [Squeue.EntryMarker S] in
theorem unreadCqes_eq (hs : s.cqes.length = Cqueue.capacity ring.cq)
    (hLen : unreadLen s ≤ Cqueue.capacity ring.cq) :
    window (s.cqes.map Cqueue.EntryMarker.cqe) ring.cq.ringMask (s.cells .cqHead) (unreadLen s) =
      (unreadCqes ring s).map some := by
  by_cases hZero : Cqueue.capacity ring.cq = 0
  · have hNone : unreadLen s = 0 := by omega
    rw [unreadCqes, hNone]
    rfl
  · exact window_eq_map (CqRefines.masks ring (Nat.pos_of_ne_zero hZero))
      ((List.length_map _).trans hs) _ _

omit [Squeue.EntryMarker S] [Cqueue.EntryMarker C] in
theorem queuedEntries_length (hs : s.sqes.length = Squeue.capacity ring.sq) :
    (queuedEntries ring s).length = queuedLen s := by
  have hLen := congrArg List.length (queuedEntries_eq hs)
  rw [window_length, List.length_map] at hLen
  exact hLen.symm

omit [Squeue.EntryMarker S] in
theorem unreadCqes_length (hs : s.cqes.length = Cqueue.capacity ring.cq)
    (hLen : unreadLen s ≤ Cqueue.capacity ring.cq) :
    (unreadCqes ring s).length = unreadLen s := by
  have hUnread := congrArg List.length (unreadCqes_eq hs hLen)
  rw [window_length, List.length_map] at hUnread
  exact hUnread.symm

/-- The posted completions, behind as many others as the head says. -/
def startPosted (ring : IoUring S C) (s : RingMem S C) : List IoUringCqe :=
  List.replicate (s.cells .cqHead).toNat ({} : IoUringCqe) ++ unreadCqes ring s

omit [Squeue.EntryMarker S] in
theorem startPosted_length (h : SplitState ring s) :
    (startPosted ring s).length = (s.cells .cqHead).toNat + unreadLen s := by
  rw [startPosted, List.length_append, List.length_replicate,
    unreadCqes_length h.cqes h.posted]

/-- The queues behind `split`. A counter is the index of an entry; that many entries have
passed before. -/
def startSq (ring : IoUring S C) (s : RingMem S C) (h : SplitState ring s) :
    SqLedger S (Squeue.capacity ring.sq) :=
  have hLen := queuedEntries_length h.sqes
  have hQueued := h.queued
  { accepted := List.replicate (s.cells .sqHead).toNat Squeue.EntryMarker.zeroed ++
      queuedEntries ring s
    published := (s.cells .sqHead).toNat + queuedLen s
    consumed := (s.cells .sqHead).toNat
    seen := (s.cells .sqHead).toNat
    seen_le := Nat.le_refl _
    consumed_le := Nat.le_add_right _ _
    published_le := by rw [List.length_append, List.length_replicate, hLen]
    length_le := by
      rw [List.length_append, List.length_replicate, hLen]
      unfold queuedLen
      omega }

def startCq (ring : IoUring S C) (s : RingMem S C) (h : SplitState ring s) :
    CqLedger IoUringCqe (Cqueue.capacity ring.cq) :=
  have hLen := startPosted_length h
  have hPosted := h.posted
  { attempts := (startPosted ring s).map fun cqe => (cqe, true)
    delivered := (s.cells .cqHead).toNat
    released := (s.cells .cqHead).toNat
    seen := (s.cells .cqHead).toNat + unreadLen s
    released_le := Nat.le_refl _
    delivered_le := Nat.le_add_right _ _
    seen_le := by rw [postedOf_accepted, hLen]
    length_le := by
      rw [postedOf_accepted, hLen]
      unfold unreadLen
      omega }

def startQueues (ring : IoUring S C) (s : RingMem S C) (h : SplitState ring s) : Queues ring :=
  ⟨startSq ring s h, startCq ring s h⟩

omit [Squeue.EntryMarker S] in
theorem startCq_posted (h : SplitState ring s) :
    (startCq ring s h).posted = startPosted ring s :=
  postedOf_accepted _

theorem ofNat_add_dist (a b : UInt32) : UInt32.ofNat (a.toNat + dist a b) = b := by
  rw [UInt32.ofNat_add, UInt32.ofNat_toNat, add_dist]

theorem start_stands (h : SplitState ring s) :
    Stands ring (startQueues ring s h) (forgetLogs s, startQueues ring s h) := by
  have hSqLen := queuedEntries_length h.sqes
  have hPosted := startCq_posted h
  have hTail : UInt32.ofNat ((s.cells .sqHead).toNat + queuedLen s) = s.cells .sqTail :=
    ofNat_add_dist _ _
  have hCqTail : UInt32.ofNat ((s.cells .cqHead).toNat + unreadLen s) = s.cells .cqTail :=
    ofNat_add_dist _ _
  refine ⟨⟨?_, ?_, ?_, ?_, h.sqes, ?_⟩, ⟨?_, ?_, ?_, ?_, h.cqes, ?_⟩, ?_⟩
  · exact (UInt32.ofNat_toNat).symm
  · exact hTail.symm
  · exact h.sqLocalHead.trans (UInt32.ofNat_toNat).symm
  · change s.cells .sqLocalTail = UInt32.ofNat (List.replicate _ _ ++ queuedEntries ring s).length
    rw [List.length_append, List.length_replicate, hSqLen, hTail, h.sqLocalTail]
  · refine Holds.of_window ?_ Squeue.EntryMarker.zeroed
    rw [hSqLen]
    exact queuedEntries_eq h.sqes
  · exact (UInt32.ofNat_toNat).symm
  · change s.cells .cqTail = UInt32.ofNat (startCq ring s h).posted.length
    rw [hPosted, startPosted_length h, hCqTail]
  · exact h.cqLocalHead.trans (UInt32.ofNat_toNat).symm
  · exact h.cqLocalTail.trans hCqTail.symm
  · change Holds _ _ (startCq ring s h).posted _
    rw [hPosted]
    refine Holds.of_window ?_ _
    rw [unreadCqes_length h.cqes h.posted]
    exact unreadCqes_eq h.cqes h.posted
  · refine ⟨?_, List.nil_prefix, Nat.le_refl _, ?_, List.nil_prefix, Nat.le_refl _⟩
    · exact (List.append_nil _).symm ▸ List.prefix_rfl
    · exact (List.append_nil _).symm ▸ List.prefix_rfl

theorem start_rest (h : SplitState ring s) (i : Party) :
    Rest (startQueues ring s h) i (forgetLogs s, startQueues ring s h) := by
  cases i with
  | producer => exact List.append_nil _
  | submitter => exact ⟨rfl, List.append_nil _, h.started⟩
  | consumer => rfl

end Start

/-! ## The result -/

section Result

variable {s₀ s : RingMem S C} {g : Queues ring}

theorem inOrder_of_indices {a b c d cap : Nat} (hb : a ≤ b) (hc : b ≤ c) (hd : c ≤ d)
    (hCap : d ≤ a + cap) (hLt : cap < 2 ^ 32) :
    InOrder (UInt32.ofNat a) (UInt32.ofNat b) (UInt32.ofNat c) (UInt32.ofNat d) cap := by
  have hAb := dist_indices hb (show b ≤ a + cap by omega) hLt
  have hAc := dist_indices (Nat.le_trans hb hc) (show c ≤ a + cap by omega) hLt
  have hAd := dist_indices (Nat.le_trans hb (Nat.le_trans hc hd)) hCap hLt
  exact ⟨by rw [hAb, hAc]; omega, by rw [hAc, hAd]; omega, by rw [hAd]; omega⟩

omit [Squeue.EntryMarker S] [Cqueue.EntryMarker C] in
theorem sqOrder_of_stands (h : SqRefines ring s g.sq) :
    InOrder (s.cells .sqLocalHead) (s.cells .sqHead) (s.cells .sqTail) (s.cells .sqLocalTail)
      (Squeue.capacity ring.sq) := by
  rw [h.localHead, h.head, h.tail, h.localTail]
  exact inOrder_of_indices g.sq.seen_le g.sq.consumed_le g.sq.published_le g.sq.length_le
    (UInt32.toNat_lt _)

omit [Squeue.EntryMarker S] in
theorem cqOrder_of_stands (h : CqStands ring s g.cq) :
    InOrder (s.cells .cqHead) (s.cells .cqLocalHead) (s.cells .cqLocalTail) (s.cells .cqTail)
      (Cqueue.capacity ring.cq) := by
  rw [h.localHead, h.head, h.tail, h.localTail]
  exact inOrder_of_indices g.cq.released_le g.cq.delivered_le g.cq.seen_le g.cq.length_le
    (UInt32.toNat_lt _)

/-- The part of a list behind the entries that have left it. -/
theorem take_drop_of_prefix {α : Type} {xs ys : List α} {pad : α} {n m k : Nat}
    (h : xs <+: List.replicate n pad ++ ys) (hn : n ≤ m) (hk : m + k ≤ xs.length) :
    (xs.drop m).take k = (ys.drop (m - n)).take k := by
  obtain ⟨zs, hzs⟩ := h
  have hAll : (xs ++ zs).drop m = ys.drop (m - n) := by
    rw [hzs, List.drop_append, List.length_replicate, List.drop_eq_nil_of_le (by simpa using hn),
      List.nil_append]
  rw [← hAll, List.drop_append_of_le_length (by omega), List.take_append_of_le_length (by
    rw [List.length_drop]
    omega)]

omit [Squeue.EntryMarker S] [Cqueue.EntryMarker C] in
theorem queuedEntries_of_stands (h : SqRefines ring s g.sq) :
    queuedEntries ring s = (g.sq.accepted.drop g.sq.consumed).take (queuedLen s) := by
  have hLen : queuedLen s = g.sq.published - g.sq.consumed := dist_sq h
  have hPublished := g.sq.published_le
  have hConsumed := g.sq.consumed_le
  apply List.map_injective_iff.mpr (Option.some_injective S)
  rw [← queuedEntries_eq h.length, h.head]
  exact h.holds.window_eq (by omega)

omit [Squeue.EntryMarker S] in
theorem unreadCqes_of_stands (h : CqStands ring s g.cq) :
    unreadCqes ring s = (g.cq.posted.drop g.cq.released).take (unreadLen s) := by
  have hLen : unreadLen s = g.cq.posted.length - g.cq.released := dist_cq h
  have hReleased := g.cq.released_le_posted
  have hCap : g.cq.posted.length ≤ g.cq.released + Cqueue.capacity ring.cq := g.cq.length_le
  apply List.map_injective_iff.mpr (Option.some_injective IoUringCqe)
  rw [← unreadCqes_eq h.length (by omega), h.head]
  exact h.holds.window_eq (by omega)

theorem spscState_of_stands {h : SplitState ring s₀}
    (hs : Stands ring (startQueues ring s₀ h) (s, g)) : SpscState ring s₀ s := by
  have hLogs := hs.logs
  have hPushed : g.sq.accepted <+: List.replicate (s₀.cells .sqHead).toNat
      Squeue.EntryMarker.zeroed ++ (queuedEntries ring s₀ ++ s.sqeWrites) := by
    rw [← List.append_assoc]
    exact hLogs.pushed
  have hPosted : g.cq.posted <+: List.replicate (s₀.cells .cqHead).toNat ({} : IoUringCqe) ++
      (unreadCqes ring s₀ ++ s.cqeWrites) := by
    have hPrefix := hLogs.posted
    rw [← List.append_assoc]
    change g.cq.posted <+: (startCq ring s₀ h).posted ++ s.cqeWrites at hPrefix
    rwa [startCq_posted h] at hPrefix
  refine ⟨sqOrder_of_stands hs.sq, cqOrder_of_stands hs.cq,
    ⟨g.sq.consumed - (s₀.cells .sqHead).toNat, ?_⟩,
    ⟨g.cq.released - (s₀.cells .cqHead).toNat, ?_⟩, ?_, ?_⟩
  · have hLen : queuedLen s = g.sq.published - g.sq.consumed := dist_sq hs.sq
    have hPublished := g.sq.published_le
    have hConsumed := g.sq.consumed_le
    have hIn : g.sq.consumed + queuedLen s ≤ g.sq.accepted.length := by omega
    rw [queuedEntries_of_stands hs.sq]
    exact take_drop_of_prefix hPushed hLogs.consumed hIn
  · have hLen : unreadLen s = g.cq.posted.length - g.cq.released := dist_cq hs.cq
    have hReleased := g.cq.released_le_posted
    have hIn : g.cq.released + unreadLen s ≤ g.cq.posted.length := by omega
    rw [unreadCqes_of_stands hs.cq]
    exact take_drop_of_prefix hPosted hLogs.released hIn
  · have hDrop := prefix_drop_map hPushed (n := (s₀.cells .sqHead).toNat)
      (f := Squeue.EntryMarker.sqe)
    rw [List.drop_left' List.length_replicate] at hDrop
    exact hLogs.copied.trans hDrop
  · have hDrop := prefix_drop hPosted (n := (s₀.cells .cqHead).toNat)
    rw [List.drop_left' List.length_replicate] at hDrop
    exact hLogs.popped.trans hDrop

theorem path_snapshot {head : UInt32} {j n : Nat} {tr : List (Event (ringSig S C))}
    {snap : List IoUringSqe × UInt32}
    (h : Path (ring.submitter.snapshot (head + UInt32.ofNat j) n) tr snap) :
    ReadsWithin ring head (j + n) tr := by
  induction n generalizing j tr snap with
  | zero =>
    obtain ⟨rfl, -⟩ := path_ret_iff.mp h
    intro offset sqe hMem
    cases hMem
  | succ n ih =>
    obtain ⟨r, tr', hRest, rfl⟩ := path_act_iff.mp h
    change Path (ring.submitter.snapshot (head + UInt32.ofNat j + 1) n >>= fun rest =>
      .ret (r :: rest.1, rest.2)) tr' snap at hRest
    obtain ⟨tr₁, rest, tr₂, hSnapshot, hRet, rfl⟩ := path_bind_iff.mp hRest
    obtain ⟨rfl, -⟩ := path_ret_iff.mp hRet
    have hNext : head + UInt32.ofNat j + 1 = head + UInt32.ofNat (j + 1) := by
      rw [ofNat_succ, UInt32.add_assoc]
    rw [hNext] at hSnapshot
    intro offset sqe hMem
    rw [List.append_nil] at hMem
    rcases List.mem_cons.mp hMem with hEq | hMem
    · obtain ⟨hOp, -⟩ := Sigma.mk.inj hEq
      exact ⟨j, by omega, RingOp.readSqe.inj hOp⟩
    · obtain ⟨k, hk, hOffset⟩ := ih hSnapshot offset sqe hMem
      exact ⟨k, by omega, hOffset⟩

theorem enqueue_readsLoaded {toSubmit : UInt32} {tr : List (Event (ringSig S C))} {n : Nat}
    (h : Path (ring.submitter.enqueueSqes toSubmit) tr n) : ReadsLoaded ring tr := by
  obtain ⟨head, tr₁, h₁, rfl⟩ := path_act_iff.mp h
  obtain ⟨tail, rest, h₂, rfl⟩ := path_act_iff.mp h₁
  refine ⟨head, tail, rest, rfl, ?_⟩
  have hMin : (min toSubmit (tail - head)).toNat ≤ dist head tail := by
    rw [toNat_min]
    exact Nat.min_le_right _ _
  change Path (if min toSubmit (tail - head) = 0 then _ else _) rest n at h₂
  by_cases hZero : min toSubmit (tail - head) = 0
  · rw [if_pos hZero] at h₂
    obtain ⟨rfl, -⟩ := path_ret_iff.mp h₂
    intro offset sqe hMem
    cases hMem
  · rw [if_neg hZero] at h₂
    generalize (min toSubmit (tail - head)).toNat = m at hMin h₂
    obtain ⟨tr₂, snap, tr₃, hSnapshot, hStore, rfl⟩ := path_bind_iff.mp h₂
    obtain ⟨_, tr₄, hSpawn, rfl⟩ := path_act_iff.mp hStore
    obtain ⟨_, tr₅, hPush, rfl⟩ := path_act_iff.mp hSpawn
    obtain ⟨_, tr₆, hRet, rfl⟩ := path_act_iff.mp hPush
    obtain ⟨rfl, -⟩ := path_ret_iff.mp hRet
    intro offset sqe hMem
    rcases List.mem_append.mp hMem with hRead | hOther
    · have hHere : head = head + UInt32.ofNat 0 := (UInt32.add_zero head).symm
      rw [hHere] at hSnapshot
      obtain ⟨k, hk, hOffset⟩ := path_snapshot hSnapshot offset sqe hRead
      exact ⟨k, by omega, hOffset⟩
    · simp at hOther

end Result

/-- A ring whose handles are up to date. -/
theorem splitState_of_refines {s : RingMem S C} {l : RingLedger ring} (h : Refines ring s l)
    (hSeen : l.sq.seen = l.sq.consumed) (hPublished : l.sq.published = l.sq.accepted.length)
    (hReleased : l.cq.released = l.cq.delivered) (hCqSeen : l.cq.seen = l.cq.posted.length)
    (hFlushed : l.flushed = l.batches.length) : SplitState ring s := by
  have hReady := l.sq.ready_le
  have hLen : l.cq.posted.length ≤ l.cq.released + Cqueue.capacity ring.cq := l.cq.length_le
  have hCap : Cqueue.capacity ring.cq < 2 ^ 32 := UInt32.toNat_lt _
  refine ⟨?_, ?_, ?_, ?_, ?_, ?_, h.sq.length, h.cq.length, ?_⟩
  · rw [h.sq.localHead, h.sq.head, hSeen]
  · rw [h.sq.localTail, h.sq.tail, hPublished]
  · rw [h.cq.localHead, h.cq.head, hReleased]
  · rw [h.cq.localTail, h.cq.tail, hCqSeen]
  · rw [dist_sq h.sq]
    exact hReady
  · rw [h.cq.head, h.cq.tail, dist_indices l.cq.released_le_posted hLen hCap]
    omega
  · have hNone : s.pending = [] := by
      rw [h.pending, Ledger.pending, hFlushed, Nat.sub_self]
      rfl
    intro i hi
    rw [hNone] at hi
    cases hi

/-- Every run that ends with `split` ends in such a state. -/
theorem splitState_of_run {b : Builder S C} {overflowChecks : Bool} {entries : UInt32}
    {mem : RingMem S C} (hBuild : b.build overflowChecks entries = some (.ok (ring, mem)))
    {calls : List (Call S)} {c : Client S C}
    (hRun : (Client.start mem).runCalls ring results (calls ++ [.split]) = some c) :
    SplitState ring c.mem := by
  rw [runCalls_append] at hRun
  obtain ⟨c₀, hRun₀, hSplit⟩ := Option.bind_eq_some_iff.mp hRun
  obtain ⟨c₁, hStep, hEnd⟩ := Option.bind_eq_some_iff.mp hSplit
  obtain rfl := Option.some.inj hEnd
  obtain ⟨-, h₀⟩ := exists_ledger hBuild hRun₀
  obtain ⟨hs, hCall, -⟩ := Option.bind_eq_some_iff.mp hStep
  obtain ⟨c', hStep', -, -, h⟩ := step_refines results h₀ hCall
  obtain rfl := Option.some.inj (hStep.symm.trans hStep')
  obtain ⟨⟨hSq, hCq⟩, -⟩ : (c₀.handles.sq = false ∧ c₀.handles.cq = false) ∧ ⟨true, true⟩ = hs := by
    simpa [Call.handles] using hCall
  exact splitState_of_refines h.mem rfl (h₀.idle.published hSq)
    ((postAll_released _ _).trans ((h₀.idle.released hCq).trans (postAll_delivered _ _).symm))
    rfl rfl

/-- **Safety of the split handles.** For every ring, every start behind `split` and every
interleaving of the three parties: the counters stay in order, no action is undefined or
overwrites an entry that was not read, and what is read was written. -/
theorem spsc_safety (ring : IoUring S C) (results : Nat → List CompletionData)
    {s : RingMem S C} (hSplit : SplitState ring s) {calls : Party → List (Call S)}
    (hCalls : ∀ i, ∀ call ∈ calls i, Call.party call = some i)
    {P : Pool Party (ringSig S C) (RingMem S C) (List (Reply C))}
    (hr : Pool.Reach (ringSem results) (parties ring calls s) P) :
    SpscState ring s P.state ∧ SafeNext ring results P ∧
      ∀ toSubmit tr n, Path (ring.submitter.enqueueSqes toSubmit) tr n → ReadsLoaded ring tr := by
  obtain ⟨g, hInv, hNext⟩ := safe_of_reach (start_stands hSplit) (start_rest hSplit)
    (fun i => triple_calls (hCalls i)) hr
  exact ⟨spscState_of_stands hInv, hNext, fun toSubmit tr n h => enqueue_readsLoaded h⟩

/-! ### One request, with a stale handle -/

/-- A request is pushed, submitted and reaped by three threads. -/
def oneRequest : Party → List (Call Squeue.Entry)
  | .producer => [.push (nop 7), .sqSync]
  | .submitter => [.submitAndWait 1]
  | .consumer => [.cqSync, .next]

theorem party_of_oneRequest (i : Party) : ∀ call ∈ oneRequest i, Call.party call = some i := by
  cases i
  all_goals simp [oneRequest, Call.party]

theorem splitState_smallRing : SplitState smallRing.1 smallRing.2 := by decide +kernel

/-- The consumer copies the tail before the completion is posted. -/
def staleTail : List Party :=
  List.replicate 9 .producer ++ List.replicate 9 .submitter ++ List.replicate 4 .consumer ++
    List.replicate 6 .submitter

theorem spsc_safety_nop :
    ∃ P, (parties smallRing.1 oneRequest smallRing.2).runSchedule
        (ringSem (nopAnswers [[(nop 7).sqe]])) staleTail = some P ∧
      P.state.cqeWrites = [⟨7, 0, 0⟩] ∧ SpscState smallRing.1 smallRing.2 P.state := by
  have hFacts : ((parties smallRing.1 oneRequest smallRing.2).runSchedule
      (ringSem (nopAnswers [[(nop 7).sqe]])) staleTail).map (fun P => P.state.cqeWrites) =
      some [⟨7, 0, 0⟩] := by decide +kernel
  obtain ⟨P, hP, hWrites⟩ := Option.map_eq_some_iff.mp hFacts
  have hReach := Pool.reach_of_runSchedule hP
  exact ⟨P, hP, hWrites,
    (spsc_safety smallRing.1 _ splitState_smallRing party_of_oneRequest hReach).1⟩

theorem quadRing_built :
    ((Builder.default : Builder Squeue.Entry Cqueue.Entry).built true 4).isSome := by
  decide +kernel

/-- The default instance with four slots in the submission ring and eight in the completion
ring. -/
def quadRing : IoUring Squeue.Entry Cqueue.Entry × RingMem Squeue.Entry Cqueue.Entry :=
  let b : Builder Squeue.Entry Cqueue.Entry := .default
  (b.built true 4).get quadRing_built

end Miring.Concurrency
