import Miring.Concurrency.Spsc.Queues

/-!
# The consumer

The calls of a `CompletionQueue` keep the protocol: `pop` reads a slot that was posted and is
not released, since the copy of the tail is never ahead of the tail.
-/

namespace Miring.Concurrency

open Sys Miring.Ring Miring.Stream Dispatch Program Protocol

variable {S C : Type} [Squeue.EntryMarker S] [Cqueue.EntryMarker C] {ring : IoUring S C}
  {init : Queues ring} {results : Nat → List CompletionData}

/-- Between two calls: everything that was taken was read. -/
def ConsumerRest (init : Queues ring) (x : QState ring) : Prop :=
  init.cq.delivered + x.1.cqeReads.length = x.2.cq.delivered

/-- The consumer knows of `n` more completions than it has taken. -/
def Seen (n : Nat) (x : QState ring) : Prop := x.2.cq.delivered + n ≤ x.2.cq.seen

def AtCqLocalHead (v : UInt32) (x : QState ring) : Prop := v = UInt32.ofNat x.2.cq.delivered

def AtCqLocalTail (v : UInt32) (x : QState ring) : Prop := v = UInt32.ofNat x.2.cq.seen

/-- The local head was advanced over a completion that is not read yet. -/
structure Taking (init : Queues ring) (v : UInt32) (x : QState ring) : Prop where
  reads : init.cq.delivered + x.1.cqeReads.length + 1 = x.2.cq.delivered
  head : v = UInt32.ofNat (init.cq.delivered + x.1.cqeReads.length)
  released : x.2.cq.released + 1 ≤ x.2.cq.delivered

theorem stable_consumer (F : ConsumerPart C → Prop) :
    (spsc ring init).Stable .consumer fun x => F (consumerPart x) := by
  apply stable_of
  intro x x' hSame _ hF
  have hPart : consumerPart x' = consumerPart x := hSame
  rwa [hPart]

theorem stable_consumerRest : (spsc ring init).Stable .consumer (ConsumerRest init) :=
  stable_consumer fun p => init.cq.delivered + p.reads.length = p.delivered

theorem stable_seen (n : Nat) : (spsc ring init).Stable .consumer (Seen n) :=
  stable_consumer fun p => p.delivered + n ≤ p.seen

theorem stable_atCqLocalHead (v : UInt32) : (spsc ring init).Stable .consumer (AtCqLocalHead v) :=
  stable_consumer fun p => v = UInt32.ofNat p.delivered

theorem stable_atCqLocalTail (v : UInt32) : (spsc ring init).Stable .consumer (AtCqLocalTail v) :=
  stable_consumer fun p => v = UInt32.ofNat p.seen

theorem stable_taking (v : UInt32) : (spsc ring init).Stable .consumer (Taking init v) := by
  apply stable_of
  intro x x' hSame _ h
  have hPart : consumerPart x' = consumerPart x := hSame
  simp only [consumerPart, ConsumerPart.mk.injEq] at hPart
  obtain ⟨hReads, hDelivered, hReleased, -⟩ := hPart
  exact ⟨by rw [hReads, hDelivered]; exact h.reads, by rw [hReads]; exact h.head,
    by rw [hReleased, hDelivered]; exact h.released⟩

/-! ## Taking completions -/

/-- The store of the advanced local head. -/
theorem store_localHead {x : QState ring} {n : Nat} (hx : Stands ring init x)
    (hRest : ConsumerRest init x) (hSeen : Seen (n + 1) x) :
    ∃ x', ringSem results (.store .cqLocalHead (UInt32.ofNat x.2.cq.delivered + 1)) x.1 =
        some ((), x'.1) ∧
      (spsc ring init).Allows .consumer
        (.store .cqLocalHead (UInt32.ofNat x.2.cq.delivered + 1)) x x' ∧
      Taking init (UInt32.ofNat x.2.cq.delivered) x' ∧ Seen n x' := by
  unfold Seen at hSeen
  have hLen : 1 ≤ x.2.cq.len := by
    unfold CqLedger.len
    omega
  have hReleased := x.2.cq.released_le
  refine ⟨(_, { x.2 with cq := x.2.cq.deliver 1 hLen }), rfl,
    allows_of trivial ?_ (others_same rfl rfl)
      ⟨List.prefix_rfl, Nat.le_refl _, Nat.le_refl _, List.prefix_rfl, Nat.le_refl _⟩,
    ⟨?_, ?_, ?_⟩, ?_⟩
  · exact {
      sq := hx.sq.congr (by simp [sqPart])
      cq := {
        head := by simpa using hx.cq.head
        tail := by simpa using hx.cq.tail
        localHead := by simp [UInt32.ofNat_add]
        localTail := by simpa using hx.cq.localTail
        length := hx.cq.length
        holds := hx.cq.holds }
      logs := hx.logs }
  · exact congrArg (· + 1) hRest
  · exact congrArg UInt32.ofNat hRest.symm
  · exact Nat.succ_le_succ hReleased
  · change x.2.cq.delivered + 1 + n ≤ x.2.cq.seen
    omega

/-- The read of the slot behind that. -/
theorem read_slot {x : QState ring} {v : UInt32} (hx : Stands ring init x)
    (hTaking : Taking init v x) :
    ∃ e x', ringSem results (.readCqe (slot ring.cq.ringMask v)) x.1 = some (e, x'.1) ∧
      (spsc ring init).Allows .consumer (.readCqe (slot ring.cq.ringMask v)) x x' ∧
      ConsumerRest init x' ∧ x'.2 = x.2 := by
  obtain ⟨hReads, rfl, hReleased⟩ := hTaking
  have hDelivered := x.2.cq.delivered_le
  have hSeen : x.2.cq.seen ≤ x.2.cq.posted.length := x.2.cq.seen_le
  generalize hIndex : init.cq.delivered + x.1.cqeReads.length = i at hReads
  have hLt : i < x.2.cq.posted.length := by omega
  obtain ⟨k, rfl⟩ := Nat.exists_eq_add_of_le (show x.2.cq.released ≤ i by omega)
  have hGet := (hx.cq.holds.advance (n := k) (by omega)).get hLt
  rw [List.getElem?_map, List.getElem?_eq_getElem hLt] at hGet
  obtain ⟨e, he, hCqe⟩ := Option.map_eq_some_iff.mp hGet
  refine ⟨e, (_, x.2), ringSem_readCqe he, allows_of ⟨k, ?_, ?_⟩ ?_
    (others_same rfl rfl) (.of_queues rfl), ?_, rfl⟩
  · rw [dist_cq hx.cq]
    omega
  · rw [hx.cq.head, UInt32.ofNat_add]
  · have hCq := hx.cq
    refine ⟨hx.sq.congr rfl,
      ⟨hCq.head, hCq.tail, hCq.localHead, hCq.localTail, hCq.length, hCq.holds⟩,
      { hx.logs with popped := ?_ }⟩
    change (x.1.cqeReads ++ [e]).map Cqueue.EntryMarker.cqe <+: _
    rw [List.map_append, List.map_singleton]
    refine prefix_snoc hx.logs.popped ?_
    change (x.2.cq.posted.drop _)[(x.1.cqeReads.map _).length]? = _
    rw [List.length_map, List.getElem?_drop, hIndex, List.getElem?_eq_getElem hLt, hCqe]
  · change init.cq.delivered + (x.1.cqeReads ++ [e]).length = x.2.cq.delivered
    rw [List.length_append, List.length_singleton]
    omega

theorem triple_pop (n : Nat) :
    Triple (ringSem results) (spsc ring init) .consumer
      (fun x => ConsumerRest init x ∧ Seen (n + 1) x) (Cqueue.pop ring.cq)
      fun _ x => ConsumerRest init x ∧ Seen n x := by
  have hRest : (spsc ring init).Stable .consumer (ConsumerRest init) := stable_consumerRest
  refine triple_load (hRest.and (stable_seen _)) AtCqLocalHead
    (fun x hx _ => hx.cq.localHead) fun v => ?_
  refine Triple.act (B := fun _ x => Taking init v x ∧ Seen n x)
    ((hRest.and (stable_seen _)).and (stable_atCqLocalHead v)) ?_ fun _ => ?_
  · rintro x hx ⟨⟨hConsumer, hSeen⟩, rfl⟩
    exact ⟨(), store_localHead hx hConsumer hSeen⟩
  · refine Triple.act (B := fun _ x => ConsumerRest init x ∧ Seen n x)
      ((stable_taking v).and (stable_seen n)) ?_ fun _ =>
      .ret (hRest.and (stable_seen n)) fun _ _ h => h
    rintro x hx ⟨hTaking, hSeen⟩
    obtain ⟨e, x', hsem, hAllows, hConsumer, hSame⟩ := read_slot hx hTaking
    refine ⟨e, x', hsem, hAllows, hConsumer, ?_⟩
    unfold Seen
    rw [hSame]
    exact hSeen

theorem triple_popMany (n : Nat) :
    Triple (ringSem results) (spsc ring init) .consumer
      (fun x => ConsumerRest init x ∧ Seen n x) (Cqueue.popMany ring.cq n)
      fun _ x => ConsumerRest init x := by
  induction n with
  | zero => exact .ret (stable_consumerRest.and (stable_seen 0)) fun _ _ h => h.1
  | succ n ih =>
    refine (triple_pop n).bind fun e => ih.bind fun es => ?_
    exact .ret stable_consumerRest fun _ _ h => h

theorem triple_next :
    Triple (ringSem results) (spsc ring init) .consumer (ConsumerRest init)
      (Cqueue.next ring.cq) fun _ => ConsumerRest init := by
  refine triple_load stable_consumerRest AtCqLocalHead (fun x hx _ => hx.cq.localHead)
    fun head => ?_
  refine triple_load (stable_consumerRest.and (stable_atCqLocalHead head)) AtCqLocalTail
    (fun x hx _ => hx.cq.localTail) fun tail => ?_
  have hRest : (spsc ring init).Stable .consumer (ConsumerRest init) := stable_consumerRest
  have hStable := (hRest.and (stable_atCqLocalHead head)).and (stable_atCqLocalTail tail)
  change Triple _ _ _ _ (if head ≠ tail then _ else _) _
  by_cases hNe : head ≠ tail
  · rw [if_pos hNe]
    refine Triple.conseq (A := fun x => ConsumerRest init x ∧ Seen 1 x)
      ((triple_pop 0).bind fun e => .ret (stable_consumerRest.and (stable_seen 0))
        fun _ _ h => h.1) ?_ fun _ _ _ h => h
    rintro x hx ⟨⟨hConsumer, hHead⟩, hTail⟩
    refine ⟨hConsumer, ?_⟩
    have hDelivered := x.2.cq.delivered_le
    have hDiffer : x.2.cq.delivered ≠ x.2.cq.seen := by
      intro hEq
      apply hNe
      rw [hHead, hTail, hEq]
    unfold Seen
    omega
  · rw [if_neg hNe]
    exact .ret hStable fun _ _ h => h.1.1

theorem triple_fill (n : Nat) :
    Triple (ringSem results) (spsc ring init) .consumer (ConsumerRest init)
      (Cqueue.fill ring.cq n) fun _ => ConsumerRest init := by
  rw [Cqueue.fill, Cqueue.len, bind_assoc]
  refine triple_load stable_consumerRest AtCqLocalTail (fun x hx _ => hx.cq.localTail)
    fun tail => ?_
  rw [bind_assoc]
  refine triple_load (stable_consumerRest.and (stable_atCqLocalTail tail)) AtCqLocalHead
    (fun x hx _ => hx.cq.localHead) fun head => ?_
  refine (triple_popMany _).conseq ?_ fun _ _ _ h => h
  rintro x hx ⟨⟨hRest, rfl⟩, rfl⟩
  refine ⟨hRest, ?_⟩
  have hDelivered := x.2.cq.delivered_le
  have hLen := x.2.cq.len_le
  have hCap : Cqueue.capacity ring.cq < 2 ^ 32 := UInt32.toNat_lt _
  unfold CqLedger.len at hLen
  have hSub := toNat_ofNat_sub hDelivered (by omega)
  unfold Seen
  rw [hSub]
  omega

/-! ## Releasing slots -/

/-- The store of the head that `sync` and `drop` begin with. -/
theorem triple_release {α : Type} {k : RingProgram S C α} {Q : α → QState ring → Prop}
    (hk : Triple (ringSem results) (spsc ring init) .consumer (ConsumerRest init) k Q) :
    Triple (ringSem results) (spsc ring init) .consumer (ConsumerRest init)
      (load .cqLocalHead >>= fun head => store .cqHead head >>= fun _ => k) Q := by
  refine triple_load stable_consumerRest AtCqLocalHead (fun x hx _ => hx.cq.localHead)
    fun v => ?_
  refine Triple.act (B := fun _ => ConsumerRest init)
    (stable_consumerRest.and (stable_atCqLocalHead v)) ?_ fun _ => hk
  rintro x hx ⟨hRest, rfl⟩
  have hReleased := x.2.cq.released_le
  have hPosted : x.2.cq.delivered ≤ x.2.cq.posted.length :=
    Nat.le_trans x.2.cq.delivered_le x.2.cq.seen_le
  refine ⟨(), (_, { x.2 with cq := x.2.cq.release }), rfl,
    allows_of trivial ?_ (others_same rfl rfl) ?_, hRest⟩
  · exact {
      sq := hx.sq.congr (by simp [sqPart])
      cq := {
        head := by simp
        tail := by simpa using hx.cq.tail
        localHead := by simpa using hx.cq.localHead
        localTail := by simpa using hx.cq.localTail
        length := hx.cq.length
        holds := by
          have hHolds := hx.cq.holds.advance (n := x.2.cq.delivered - x.2.cq.released) (by omega)
          rwa [Nat.add_sub_cancel' hReleased] at hHolds }
      logs := { hx.logs with released := Nat.le_trans hx.logs.released hReleased } }
  · exact ⟨List.prefix_rfl, Nat.le_refl _, Nat.le_refl _, List.prefix_rfl, hReleased⟩

theorem triple_cqDrop :
    Triple (ringSem results) (spsc ring init) .consumer (ConsumerRest init) Cqueue.drop
      fun _ => ConsumerRest init :=
  triple_release (k := pure ()) (.ret stable_consumerRest fun _ _ h => h)

/-- A value of the tail that the consumer has loaded: more may be posted since. -/
def SawCqTail (v : UInt32) (x : QState ring) : Prop :=
  ∃ k, v = UInt32.ofNat k ∧ x.2.cq.seen ≤ k ∧ k ≤ x.2.cq.posted.length

theorem stable_sawCqTail (v : UInt32) : (spsc ring init).Stable .consumer (SawCqTail v) := by
  apply stable_of
  intro x x' hSame hProgress ⟨k, hv, hSeen, hLe⟩
  have hPart : consumerPart x' = consumerPart x := hSame
  have hSame : x'.2.cq.seen = x.2.cq.seen := congrArg ConsumerPart.seen hPart
  refine ⟨k, hv, ?_, Nat.le_trans hLe hProgress.posted.length_le⟩
  rw [hSame]
  exact hSeen

theorem triple_cqSync :
    Triple (ringSem results) (spsc ring init) .consumer (ConsumerRest init) Cqueue.sync
      fun _ => ConsumerRest init := by
  refine triple_release ?_
  refine triple_load stable_consumerRest SawCqTail
    (fun x hx _ => ⟨_, hx.cq.tail, x.2.cq.seen_le, Nat.le_refl _⟩) fun v => ?_
  refine Triple.act (B := fun _ => ConsumerRest init)
    (stable_consumerRest.and (stable_sawCqTail v)) ?_ fun _ =>
      .ret stable_consumerRest fun _ _ h => h
  rintro x hx ⟨hRest, k, rfl, hSeen, hLe⟩
  refine ⟨(), (_, { x.2 with cq := x.2.cq.refreshTo k hSeen hLe }), rfl,
    allows_of trivial ?_ (others_same rfl rfl) ?_, hRest⟩
  · exact {
      sq := hx.sq.congr (by simp [sqPart])
      cq := {
        head := by simpa using hx.cq.head
        tail := by simpa using hx.cq.tail
        localHead := by simpa using hx.cq.localHead
        localTail := by simp
        length := hx.cq.length
        holds := hx.cq.holds }
      logs := hx.logs }
  · exact ⟨List.prefix_rfl, Nat.le_refl _, Nat.le_refl _, List.prefix_rfl, Nat.le_refl _⟩

end Miring.Concurrency
