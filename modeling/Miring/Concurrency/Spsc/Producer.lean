import Miring.Concurrency.Spsc.Queues

/-!
# The producer

The calls of a `SubmissionQueue` keep the protocol: a push writes a slot that holds no queued
entry, since the copy of the head is never ahead of the head.
-/

namespace Miring.Concurrency

open Sys Miring.Ring Miring.Stream Dispatch Program Protocol

variable {S C : Type} [Squeue.EntryMarker S] [Cqueue.EntryMarker C] {ring : IoUring S C}
  {init : Queues ring} {results : Nat → List CompletionData}

/-- Between two calls: everything that was written is accepted. -/
def ProducerRest (init : Queues ring) (x : QState ring) : Prop :=
  init.sq.accepted ++ x.1.sqeWrites = x.2.sq.accepted

/-- There is room for `n` entries as far as the producer knows. -/
def Room (n : Nat) (x : QState ring) : Prop :=
  x.2.sq.accepted.length + n ≤ x.2.sq.seen + Squeue.capacity ring.sq

def AtLocalTail (v : UInt32) (x : QState ring) : Prop := v = UInt32.ofNat x.2.sq.accepted.length

theorem stable_producer (F : ProducerPart S → Prop) :
    (spsc ring init).Stable .producer fun x => F (producerPart x) := by
  apply stable_of
  intro x x' hSame _ hF
  have hPart : producerPart x' = producerPart x := hSame
  rwa [hPart]

theorem stable_producerRest : (spsc ring init).Stable .producer (ProducerRest init) :=
  stable_producer fun p => init.sq.accepted ++ p.writes = p.accepted

theorem stable_room (n : Nat) : (spsc ring init).Stable .producer (Room n) :=
  stable_producer fun p => p.accepted.length + n ≤ p.seen + Squeue.capacity ring.sq

theorem stable_atLocalTail (v : UInt32) : (spsc ring init).Stable .producer (AtLocalTail v) :=
  stable_producer fun p => v = UInt32.ofNat p.accepted.length

/-- A slot was written that the local tail does not count yet. -/
structure Written (init : Queues ring) (entry : S) (x : QState ring) : Prop where
  writes : init.sq.accepted ++ x.1.sqeWrites = x.2.sq.accepted ++ [entry]
  slot : x.1.sqes[slot ring.sq.ringMask (UInt32.ofNat x.2.sq.accepted.length)]? = some entry

theorem stable_written (entry : S) : (spsc ring init).Stable .producer (Written init entry) := by
  apply stable_of
  intro x x' hSame _ h
  have hPart : producerPart x' = producerPart x := hSame
  simp only [producerPart, ProducerPart.mk.injEq] at hPart
  obtain ⟨hSqes, hWrites, hAccepted, -, -⟩ := hPart
  exact ⟨by rw [hWrites, hAccepted]; exact h.writes, by rw [hSqes, hAccepted]; exact h.slot⟩

omit [Squeue.EntryMarker S] [Cqueue.EntryMarker C] in
/-- The slot behind the last accepted entry is not queued. -/
theorem safe_writeSqe {s : RingMem S C} {q : SqLedger S (Squeue.capacity ring.sq)}
    (h : SqRefines ring s q) (hRoom : q.accepted.length < q.seen + Squeue.capacity ring.sq) :
    ∀ k < dist (s.cells .sqHead) (s.cells .sqTail),
      slot ring.sq.ringMask (UInt32.ofNat q.accepted.length) ≠
        slot ring.sq.ringMask (s.cells .sqHead + UInt32.ofNat k) := by
  intro k hk
  have hSeen := q.seen_le
  have hPublished := q.published_le
  have hConsumed := q.consumed_le
  have hLe : q.consumed ≤ q.accepted.length := Nat.le_trans hConsumed hPublished
  rw [dist_sq h] at hk
  rw [h.head, Holds.ofNat_length hLe]
  refine (slot_fresh ring.sq_masks ?_ ?_).symm
  · change _ < Squeue.capacity ring.sq
    omega
  · omega

theorem triple_pushUnchecked (entry : S) (n : Nat) :
    Triple (ringSem results) (spsc ring init) .producer
      (fun x => ProducerRest init x ∧ Room (n + 1) x) (Squeue.pushUnchecked ring.sq entry)
      fun _ x => ProducerRest init x ∧ Room n x := by
  refine triple_load (stable_producerRest.and (stable_room _)) AtLocalTail
    (fun x hx _ => hx.sq.localTail) fun v => ?_
  refine Triple.act (B := fun _ x => (Written init entry x ∧ Room (n + 1) x) ∧ AtLocalTail v x)
    ((stable_producerRest.and (stable_room _)).and (stable_atLocalTail v)) ?_ fun _ => ?_
  · rintro x hx ⟨⟨hRest, hRoom⟩, rfl⟩
    have hSlot := slot_lt_length hx.sq (UInt32.ofNat x.2.sq.accepted.length)
    have hLe := Nat.le_trans x.2.sq.consumed_le x.2.sq.published_le
    have hSeen := x.2.sq.seen_le
    unfold Room at hRoom
    refine ⟨(), (_, x.2), ringSem_writeSqe hSlot entry,
      allows_of (safe_writeSqe hx.sq (by omega)) ?_ (others_same rfl rfl)
        (.of_queues rfl), ⟨⟨?_, ?_⟩, hRoom⟩, rfl⟩
    · exact {
        sq := {
          head := hx.sq.head
          tail := hx.sq.tail
          localHead := hx.sq.localHead
          localTail := hx.sq.localTail
          length := by rw [List.length_set]; exact hx.sq.length
          holds := hx.sq.holds.set ring.sq_masks hLe (by
            change _ < Squeue.capacity ring.sq
            omega) entry }
        cq := hx.cq.congr rfl
        logs := { hx.logs with
          pushed := hx.logs.pushed.trans (append_prefix_concat _ _ _) } }
    · rw [← hRest, List.append_assoc]
    · exact List.getElem?_set_self hSlot
  · refine Triple.act (B := fun _ x => ProducerRest init x ∧ Room n x)
      (((stable_written entry).and (stable_room _)).and (stable_atLocalTail v)) ?_ fun _ =>
      .ret (stable_producerRest.and (stable_room n)) fun _ _ h => h
    rintro x hx ⟨⟨hWritten, hRoom⟩, rfl⟩
    have hLe := Nat.le_trans x.2.sq.consumed_le x.2.sq.published_le
    have hSeen := x.2.sq.seen_le
    unfold Room at hRoom
    have hOne : [entry].length ≤ Squeue.capacity ring.sq - x.2.sq.len := by
      rw [SqLedger.len, List.length_singleton]
      omega
    refine ⟨(), (_, { x.2 with sq := x.2.sq.pushAll [entry] hOne }), rfl,
      allows_of trivial ?_ (others_same rfl rfl) ?_, hWritten.writes, ?_⟩
    · exact {
        sq := {
          head := by simpa using hx.sq.head
          tail := by simpa using hx.sq.tail
          localHead := by simpa using hx.sq.localHead
          localTail := by simp [UInt32.ofNat_add]
          length := hx.sq.length
          holds := hx.sq.holds.snoc hLe hWritten.slot }
        cq := hx.cq.congr (by simp [cqPart])
        logs := { hx.logs with
          pushed := by
            have hAll : x.2.sq.accepted ++ [entry] = init.sq.accepted ++ x.1.sqeWrites :=
              hWritten.writes.symm
            exact hAll ▸ List.prefix_rfl
          copied := hx.logs.copied.trans (prefix_drop_map (List.prefix_append _ _)) } }
    · exact ⟨List.prefix_append _ _, Nat.le_refl _, Nat.le_refl _, List.prefix_rfl, Nat.le_refl _⟩
    · simp only [Room, SqLedger.pushAll_accepted, SqLedger.pushAll_seen, List.length_append,
        List.length_singleton]
      omega

theorem triple_pushAll (entries : List S) :
    Triple (ringSem results) (spsc ring init) .producer
      (fun x => ProducerRest init x ∧ Room entries.length x) (Squeue.pushAll ring.sq entries)
      fun _ x => ProducerRest init x := by
  induction entries with
  | nil =>
    exact .ret (stable_producerRest.and (stable_room _)) fun _ _ h => h.1
  | cons entry entries ih => exact (triple_pushUnchecked entry entries.length).bind fun _ => ih

theorem triple_len :
    Triple (ringSem results) (spsc ring init) .producer (ProducerRest init) Squeue.len
      fun n x => ProducerRest init x ∧ n = x.2.sq.len := by
  let AtLocalHead : UInt32 → QState ring → Prop := fun v x => v = UInt32.ofNat x.2.sq.seen
  have hHead : ∀ v, (spsc ring init).Stable .producer (AtLocalHead v) := fun v =>
    stable_producer fun p => v = UInt32.ofNat p.seen
  refine triple_load stable_producerRest AtLocalTail (fun x hx _ => hx.sq.localTail) fun tail => ?_
  refine triple_load (stable_producerRest.and (stable_atLocalTail tail)) AtLocalHead
    (fun x hx _ => hx.sq.localHead) fun head => ?_
  refine .ret ((stable_producerRest.and (stable_atLocalTail tail)).and (hHead head)) ?_
  rintro x hx ⟨⟨hRest, rfl⟩, rfl⟩
  have hLe := Nat.le_trans x.2.sq.seen_le (Nat.le_trans x.2.sq.consumed_le x.2.sq.published_le)
  have hCap : Squeue.capacity ring.sq < 2 ^ 32 := UInt32.toNat_lt _
  exact ⟨hRest, dist_indices hLe x.2.sq.length_le hCap⟩

omit [Squeue.EntryMarker S] [Cqueue.EntryMarker C] in
theorem room_of_len {n m : Nat} {x : QState ring} (hn : n = x.2.sq.len)
    (h : m ≤ Squeue.capacity ring.sq - n) (hLe : n ≤ Squeue.capacity ring.sq) : Room m x := by
  have hSeen := Nat.le_trans x.2.sq.seen_le (Nat.le_trans x.2.sq.consumed_le x.2.sq.published_le)
  rw [hn, SqLedger.len] at h hLe
  unfold Room
  omega

theorem stable_len (n : Nat) : (spsc ring init).Stable .producer fun x => n = x.2.sq.len :=
  stable_producer fun p => n = p.accepted.length - p.seen

theorem triple_push (entry : S) :
    Triple (ringSem results) (spsc ring init) .producer (ProducerRest init)
      (Squeue.push ring.sq entry) fun _ => ProducerRest init := by
  rw [Squeue.push, Squeue.isFull, bind_assoc]
  refine triple_len.bind fun n => ?_
  rw [pure_bind]
  by_cases hFull : n = Squeue.capacity ring.sq
  · have hBeq : (!(n == Squeue.capacity ring.sq)) = false := by simp [hFull]
    rw [if_neg (by simp [hFull])]
    exact .ret (stable_producerRest.and (stable_len n)) fun _ _ h => h.1
  · rw [if_pos (by simp [hFull])]
    refine Triple.conseq (A := fun x => ProducerRest init x ∧ Room 1 x) ?_ ?_ fun _ _ _ h => h
    · exact (triple_pushUnchecked entry 0).bind fun _ =>
        .ret (stable_producerRest.and (stable_room 0)) fun _ _ h => h.1
    · rintro x hx ⟨hRest, hn⟩
      have hLe := x.2.sq.len_le
      exact ⟨hRest, room_of_len hn (by omega) (by omega)⟩

theorem triple_pushMultiple (entries : List S) :
    Triple (ringSem results) (spsc ring init) .producer (ProducerRest init)
      (Squeue.pushMultiple ring.sq entries) fun _ => ProducerRest init := by
  refine triple_len.bind fun n => ?_
  have hRest : (spsc ring init).Stable .producer (ProducerRest init) := stable_producerRest
  have hStable := hRest.and (stable_len n)
  by_cases hLt : Squeue.capacity ring.sq < n
  · -- the local indices are never further apart than the ring is long
    rintro x hx ⟨hRest, hn⟩
    have hLe := x.2.sq.len_le
    omega
  · rw [if_neg hLt]
    by_cases hMany : Squeue.capacity ring.sq - n < entries.length
    · rw [if_pos hMany]
      exact .ret hStable fun _ _ h => h.1
    · rw [if_neg hMany]
      refine Triple.conseq (A := fun x => ProducerRest init x ∧ Room entries.length x) ?_ ?_
        fun _ _ _ h => h
      · exact (triple_pushAll entries).bind fun _ => .ret stable_producerRest fun _ _ h => h
      · rintro x hx ⟨hRest, hn⟩
        exact ⟨hRest, room_of_len hn (by omega) (by omega)⟩

/-- The store of the local tail that `sync` and `drop` begin with. -/
theorem triple_publish {α : Type} {k : RingProgram S C α} {Q : α → QState ring → Prop}
    (hk : Triple (ringSem results) (spsc ring init) .producer (ProducerRest init) k Q) :
    Triple (ringSem results) (spsc ring init) .producer (ProducerRest init)
      (load .sqLocalTail >>= fun tail => store .sqTail tail >>= fun _ => k) Q := by
  refine triple_load stable_producerRest AtLocalTail (fun x hx _ => hx.sq.localTail) fun v => ?_
  refine Triple.act (B := fun _ => ProducerRest init)
    (stable_producerRest.and (stable_atLocalTail v)) ?_ fun _ => hk
  rintro x hx ⟨hRest, rfl⟩
  refine ⟨(), (_, { x.2 with sq := x.2.sq.publish }), rfl,
    allows_of trivial ?_ (others_same rfl rfl) ?_, hRest⟩
  · exact {
      sq := {
        head := by simpa using hx.sq.head
        tail := by simp
        localHead := by simpa using hx.sq.localHead
        localTail := by simpa using hx.sq.localTail
        length := hx.sq.length
        holds := hx.sq.holds }
      cq := hx.cq.congr (by simp [cqPart])
      logs := hx.logs }
  · exact ⟨List.prefix_rfl, x.2.sq.published_le, Nat.le_refl _, List.prefix_rfl, Nat.le_refl _⟩

theorem triple_sqDrop :
    Triple (ringSem results) (spsc ring init) .producer (ProducerRest init) Squeue.drop
      fun _ => ProducerRest init :=
  triple_publish (k := pure ()) (.ret stable_producerRest fun _ _ h => h)

/-- A value of the head that the producer has loaded: the head may have advanced since. -/
def SawHead (v : UInt32) (x : QState ring) : Prop :=
  ∃ k, v = UInt32.ofNat k ∧ x.2.sq.seen ≤ k ∧ k ≤ x.2.sq.consumed

theorem stable_sawHead (v : UInt32) : (spsc ring init).Stable .producer (SawHead v) := by
  apply stable_of
  intro x x' hSame hProgress ⟨k, hv, hSeen, hLe⟩
  have hPart : producerPart x' = producerPart x := hSame
  refine ⟨k, hv, ?_, Nat.le_trans hLe hProgress.consumed⟩
  have hSame : x'.2.sq.seen = x.2.sq.seen := congrArg ProducerPart.seen hPart
  rw [hSame]
  exact hSeen

theorem triple_sqSync :
    Triple (ringSem results) (spsc ring init) .producer (ProducerRest init) Squeue.sync
      fun _ => ProducerRest init := by
  refine triple_publish ?_
  refine triple_load stable_producerRest SawHead
    (fun x hx _ => ⟨_, hx.sq.head, x.2.sq.seen_le, Nat.le_refl _⟩) fun v => ?_
  refine Triple.act (B := fun _ => ProducerRest init)
    (stable_producerRest.and (stable_sawHead v)) ?_ fun _ =>
      .ret stable_producerRest fun _ _ h => h
  rintro x hx ⟨hRest, k, rfl, hSeen, hLe⟩
  refine ⟨(), (_, { x.2 with sq := x.2.sq.refreshTo k hSeen hLe }), rfl,
    allows_of trivial ?_ (others_same rfl rfl) ?_, hRest⟩
  · exact {
      sq := {
        head := by simpa using hx.sq.head
        tail := by simpa using hx.sq.tail
        localHead := by simp
        localTail := by simpa using hx.sq.localTail
        length := hx.sq.length
        holds := hx.sq.holds }
      cq := hx.cq.congr (by simp [cqPart])
      logs := hx.logs }
  · exact ⟨List.prefix_rfl, Nat.le_refl _, Nat.le_refl _, List.prefix_rfl, Nat.le_refl _⟩

end Miring.Concurrency
