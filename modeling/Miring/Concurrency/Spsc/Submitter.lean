import Miring.Concurrency.Spsc.Queues

/-!
# The submitter

The calls of a `Submitter` keep the protocol: `enqueue_sqes` reads the slots up to a tail that
was stored, and `post_cqe` writes a slot that was released.
-/

namespace Miring.Concurrency

open Sys Miring.Ring Miring.Stream Dispatch Program Protocol Submitter

variable {S C : Type} [Squeue.EntryMarker S] [Cqueue.EntryMarker C] {ring : IoUring S C}
  {init : Queues ring} {hs : List Nat} {results : Nat → List CompletionData}

/-- Behind the copy of `n` further entries of the submission ring: everything up to there was
copied, everything that was written to the completion ring is posted, and the pending
handles and those in `hs` are of started threads. -/
structure Copied (init : Queues ring) (hs : List Nat) (n : Nat) (x : QState ring) : Prop where
  reads : init.sq.consumed + x.1.sqeReads.length = x.2.sq.consumed + n
  writes : init.cq.posted ++ x.1.cqeWrites = x.2.cq.posted
  started : ∀ i ∈ hs ++ x.1.pending, i < x.1.threads.length

/-- Between two calls. -/
def SubmitterRest (init : Queues ring) (hs : List Nat) : QState ring → Prop := Copied init hs 0

theorem stable_submitter (F : SubmitterPart C → Prop) :
    (spsc ring init).Stable .submitter fun x => F (submitterPart x) := by
  apply stable_of
  intro x x' hSame _ hF
  have hPart : submitterPart x' = submitterPart x := hSame
  rwa [hPart]

theorem stable_copied (n : Nat) : (spsc ring init).Stable .submitter (Copied init hs n) := by
  apply stable_of
  intro x x' hSame _ h
  have hPart : submitterPart x' = submitterPart x := hSame
  simp only [submitterPart, SubmitterPart.mk.injEq] at hPart
  obtain ⟨-, hThreads, hPending, hReads, hWrites, hConsumed, hPosted⟩ := hPart
  exact ⟨by rw [hReads, hConsumed]; exact h.reads, by rw [hWrites, hPosted]; exact h.writes,
    by rw [hPending, hThreads]; exact h.started⟩

def AtHead (v : UInt32) (x : QState ring) : Prop := v = UInt32.ofNat x.2.sq.consumed

theorem stable_atHead (v : UInt32) : (spsc ring init).Stable .submitter (AtHead v) :=
  stable_submitter fun p => v = UInt32.ofNat p.consumed

/-- A value of the tail that the submitter has loaded, `n` entries ahead of the head. -/
def SawTail (head tail : UInt32) (x : QState ring) : Prop :=
  head = UInt32.ofNat x.2.sq.consumed ∧ x.2.sq.consumed + dist head tail ≤ x.2.sq.published

theorem stable_sawTail (head tail : UInt32) :
    (spsc ring init).Stable .submitter (SawTail head tail) := by
  apply stable_of
  intro x x' hSame hProgress ⟨hHead, hLe⟩
  have hPart : submitterPart x' = submitterPart x := hSame
  have hConsumed : x'.2.sq.consumed = x.2.sq.consumed := congrArg SubmitterPart.consumed hPart
  have hPublished := hProgress.published
  unfold SawTail
  rw [hConsumed]
  exact ⟨hHead, by omega⟩

/-- `n` more entries than were consumed are published. -/
def Ready (n : Nat) (x : QState ring) : Prop := x.2.sq.consumed + n ≤ x.2.sq.published

theorem stable_ready (n : Nat) : (spsc ring init).Stable .submitter (Ready n) := by
  apply stable_of
  intro x x' hSame hProgress h
  have hPart : submitterPart x' = submitterPart x := hSame
  have hConsumed : x'.2.sq.consumed = x.2.sq.consumed := congrArg SubmitterPart.consumed hPart
  have hPublished := hProgress.published
  unfold Ready at h ⊢
  omega

/-- Reading the slot of the entry behind the copied ones. -/
theorem copy_step {x : QState ring} {v : UInt32} {j n : Nat} (hx : Stands ring init x)
    (hCopied : Copied init hs j x) (hReady : Ready (j + (n + 1)) x) (hHead : AtHead v x) :
    ∃ sqe x', ringSem results (.readSqe (slot ring.sq.ringMask (v + UInt32.ofNat j) *
        Squeue.EntryMarker.size S)) x.1 = some (sqe, x'.1) ∧
      (spsc ring init).Allows .submitter (.readSqe (slot ring.sq.ringMask (v + UInt32.ofNat j) *
        Squeue.EntryMarker.size S)) x x' ∧
      Copied init hs (j + 1) x' ∧ Ready (j + 1 + n) x' ∧ AtHead v x' := by
  have hPublished := x.2.sq.published_le
  unfold Ready at hReady
  obtain rfl := hHead
  have hLt : x.2.sq.consumed + j < x.2.sq.accepted.length := by omega
  have hGet := (hx.sq.holds.advance (n := j) (by omega)).get hLt
  rw [UInt32.ofNat_add, List.getElem?_eq_getElem hLt] at hGet
  refine ⟨_, (_, x.2), ringSem_readSqe hGet, allows_of ⟨j, ?_, ?_⟩ ?_
    (others_same rfl rfl) (.of_queues rfl), ⟨?_, hCopied.writes, hCopied.started⟩, ?_, rfl⟩
  · rw [dist_sq hx.sq]
    omega
  · rw [hx.sq.head]
  · refine ⟨hx.sq.congr rfl, hx.cq.congr rfl, { hx.logs with
      copied := prefix_snoc hx.logs.copied ?_ }⟩
    have hReads := hCopied.reads
    change ((x.2.sq.accepted.drop _).map _)[x.1.sqeReads.length]? = _
    rw [List.getElem?_map, List.getElem?_drop, hReads, List.getElem?_eq_getElem hLt]
    rfl
  · have hReads := hCopied.reads
    change init.sq.consumed + (x.1.sqeReads ++ [_]).length = x.2.sq.consumed + (j + 1)
    rw [List.length_append, List.length_singleton]
    omega
  · change x.2.sq.consumed + (j + 1 + n) ≤ x.2.sq.published
    omega

/-- The loop that copies entries: it reads published slots only. -/
theorem triple_snapshot (v : UInt32) (j n : Nat) :
    Triple (ringSem results) (spsc ring init) .submitter
      (fun x => Copied init hs j x ∧ Ready (j + n) x ∧ AtHead v x)
      (snapshot ring.submitter (v + UInt32.ofNat j) n)
      fun snap x => (Copied init hs (j + n) x ∧ Ready (j + n) x) ∧
        snap.2 = UInt32.ofNat (x.2.sq.consumed + (j + n)) := by
  induction n generalizing j with
  | zero =>
    refine .ret ((stable_copied j).and ((stable_ready _).and (stable_atHead v))) ?_
    rintro x hx ⟨hCopied, hReady, rfl⟩
    exact ⟨⟨hCopied, hReady⟩, by rw [← UInt32.ofNat_add]; rfl⟩
  | succ n ih =>
    refine Triple.act (B := fun _ x => Copied init hs (j + 1) x ∧ Ready (j + 1 + n) x ∧ AtHead v x)
      ((stable_copied j).and ((stable_ready _).and (stable_atHead v))) ?_ fun sqe => ?_
    · rintro x hx ⟨hCopied, hReady, hHead⟩
      exact copy_step hx hCopied hReady hHead
    · have hNext : v + UInt32.ofNat j + 1 = v + UInt32.ofNat (j + 1) := by
        rw [ofNat_succ, UInt32.add_assoc]
      have hLeft : j + 1 + n = j + (n + 1) := by omega
      have hRest := ih (j + 1)
      rw [← hNext] at hRest
      refine hRest.bind fun rest => ?_
      rw [hLeft]
      refine .ret (((stable_copied _).and (stable_ready _)).and ?_) fun _ _ h => h
      exact stable_submitter fun p => rest.2 = UInt32.ofNat (p.consumed + (j + (n + 1)))

/-- The store of the advanced head. -/
theorem store_head {x : QState ring} {n : Nat} (hx : Stands ring init x)
    (hCopied : Copied init hs n x) (hReady : Ready n x) :
    ∃ x', ringSem results (.store .sqHead (UInt32.ofNat (x.2.sq.consumed + n))) x.1 =
        some ((), x'.1) ∧
      (spsc ring init).Allows .submitter
        (.store .sqHead (UInt32.ofNat (x.2.sq.consumed + n))) x x' ∧ SubmitterRest init hs x' := by
  have hPublished := x.2.sq.published_le
  have hn : n ≤ x.2.sq.ready := by
    unfold Ready at hReady
    unfold SqLedger.ready
    omega
  refine ⟨(_, { x.2 with sq := x.2.sq.consume n hn }), rfl,
    allows_of trivial ?_ (others_same rfl rfl) ?_, ⟨?_, hCopied.writes, hCopied.started⟩⟩
  · exact {
      sq := {
        head := by simp
        tail := by simpa using hx.sq.tail
        localHead := by simpa using hx.sq.localHead
        localTail := by simpa using hx.sq.localTail
        length := hx.sq.length
        holds := hx.sq.holds.advance (by unfold Ready at hReady; omega) }
      cq := hx.cq.congr (by simp [cqPart])
      logs := { hx.logs with
        consumed := Nat.le_trans hx.logs.consumed (Nat.le_add_right _ _) } }
  · exact ⟨List.prefix_rfl, Nat.le_refl _, Nat.le_add_right _ _, List.prefix_rfl, Nat.le_refl _⟩
  · have hReads := hCopied.reads
    change _ = x.2.sq.consumed + n + 0
    exact hReads

/-- The dispatch threads are no part of the queues. -/
theorem stands_threads {x : QState ring} (hx : Stands ring init x)
    (threads : List (List IoUringSqe)) (pending : List Nat) :
    Stands ring init ({ x.1 with threads, pending }, x.2) :=
  ⟨hx.sq.congr rfl, hx.cq.congr rfl, hx.logs⟩

/-- The thread of a handle was started. -/
def Started (handle : Nat) (x : QState ring) : Prop := handle < x.1.threads.length

theorem stable_started (handle : Nat) : (spsc ring init).Stable .submitter (Started handle) :=
  stable_submitter fun p => handle < p.threads.length

theorem triple_spawn (sqes : List IoUringSqe) (n : Nat) :
    Triple (ringSem results) (spsc ring init) .submitter (SubmitterRest init hs)
      (do
        let handle ← spawn sqes
        pushPending handle
        pure n) fun _ => SubmitterRest init hs := by
  have hRest : (spsc ring init).Stable .submitter (SubmitterRest init hs) := stable_copied 0
  refine Triple.act (B := fun handle x => SubmitterRest init hs x ∧ Started handle x) hRest ?_
    fun handle => ?_
  · intro x hx hCopied
    refine ⟨_, (_, x.2), rfl, allows_of trivial (stands_threads hx _ _)
      (others_same rfl rfl) (.of_queues rfl), ⟨hCopied.reads, hCopied.writes, ?_⟩, ?_⟩
    · intro i hi
      have hLt := hCopied.started i hi
      change i < (x.1.threads ++ [sqes]).length
      rw [List.length_append]
      omega
    · change x.1.threads.length < (x.1.threads ++ [sqes]).length
      rw [List.length_append, List.length_singleton]
      omega
  · refine Triple.act (B := fun _ => SubmitterRest init hs) (hRest.and (stable_started handle)) ?_
      fun _ => .ret hRest fun _ _ h => h
    rintro x hx ⟨hCopied, hStarted⟩
    refine ⟨(), (_, x.2), rfl, allows_of trivial (stands_threads hx _ _)
      (others_same rfl rfl) (.of_queues rfl), ⟨hCopied.reads, hCopied.writes, ?_⟩⟩
    intro i hi
    change i ∈ hs ++ (x.1.pending ++ [handle]) at hi
    rw [← List.append_assoc] at hi
    rcases List.mem_append.mp hi with hOld | hNew
    · exact hCopied.started i hOld
    · rw [List.mem_singleton.mp hNew]
      exact hStarted

theorem triple_enqueueSqes (toSubmit : UInt32) :
    Triple (ringSem results) (spsc ring init) .submitter (SubmitterRest init hs)
      (enqueueSqes ring.submitter toSubmit) fun _ => SubmitterRest init hs := by
  have hRest : (spsc ring init).Stable .submitter (SubmitterRest init hs) := stable_copied 0
  refine triple_load hRest AtHead (fun x hx _ => hx.sq.head) fun head => ?_
  refine triple_load (hRest.and (stable_atHead head)) (SawTail head) ?_ fun tail => ?_
  · rintro x hx ⟨-, rfl⟩
    refine ⟨rfl, ?_⟩
    have hLe := x.2.sq.consumed_le
    rw [← hx.sq.head, dist_sq hx.sq]
    omega
  by_cases hZero : min toSubmit (tail - head) = 0
  · rw [if_pos hZero]
    exact .ret ((hRest.and (stable_atHead head)).and (stable_sawTail head tail))
      fun _ _ h => h.1.1
  rw [if_neg hZero]
  have hMin : (min toSubmit (tail - head)).toNat ≤ dist head tail := by
    rw [toNat_min]
    exact Nat.min_le_right _ _
  generalize (min toSubmit (tail - head)).toNat = n at hMin ⊢
  have hHere : head + UInt32.ofNat 0 = head := UInt32.add_zero head
  have hSnapshot : Triple (ringSem results) (spsc ring init) .submitter
      (fun x => Copied init hs 0 x ∧ Ready (0 + n) x ∧ AtHead head x) _ _ :=
    triple_snapshot head 0 n
  rw [Nat.zero_add, hHere] at hSnapshot
  refine Triple.conseq (hSnapshot.bind fun snap => ?_) ?_ fun _ _ _ h => h
  · refine Triple.act (B := fun _ => SubmitterRest init hs)
      (((stable_copied _).and (stable_ready _)).and
        (stable_submitter fun p => snap.2 = UInt32.ofNat (p.consumed + n))) ?_
      fun _ => triple_spawn snap.1 n
    rintro x hx ⟨⟨hCopied, hReady⟩, hHead⟩
    rw [hHead]
    exact ⟨(), store_head hx hCopied hReady⟩
  · rintro x hx ⟨⟨hCopied, hHead⟩, -, hSaw⟩
    refine ⟨hCopied, ?_, hHead⟩
    unfold Ready
    omega

/-! ## Posting -/

def AtCqTail (v : UInt32) (x : QState ring) : Prop := v = UInt32.ofNat x.2.cq.posted.length

theorem stable_atCqTail (v : UInt32) : (spsc ring init).Stable .submitter (AtCqTail v) :=
  stable_submitter fun p => v = UInt32.ofNat p.posted.length

/-- A value of the head of the completion ring that the submitter has loaded. -/
def SawCqHead (v : UInt32) (x : QState ring) : Prop :=
  ∃ k, v = UInt32.ofNat k ∧ k ≤ x.2.cq.released ∧
    x.2.cq.posted.length ≤ k + Cqueue.capacity ring.cq

theorem stable_sawCqHead (v : UInt32) : (spsc ring init).Stable .submitter (SawCqHead v) := by
  apply stable_of
  intro x x' hSame hProgress ⟨k, hv, hLe, hLen⟩
  have hPart : submitterPart x' = submitterPart x := hSame
  have hPosted : x'.2.cq.posted = x.2.cq.posted := congrArg SubmitterPart.posted hPart
  exact ⟨k, hv, Nat.le_trans hLe hProgress.released, by rw [hPosted]; exact hLen⟩

def HasRoom (x : QState ring) : Prop :=
  x.2.cq.posted.length < x.2.cq.released + Cqueue.capacity ring.cq

theorem stable_hasRoom : (spsc ring init).Stable .submitter HasRoom := by
  apply stable_of
  intro x x' hSame hProgress h
  have hPart : submitterPart x' = submitterPart x := hSame
  have hPosted : x'.2.cq.posted = x.2.cq.posted := congrArg SubmitterPart.posted hPart
  have hReleased := hProgress.released
  unfold HasRoom at h ⊢
  rw [hPosted]
  omega

omit [Squeue.EntryMarker S] [Cqueue.EntryMarker C] in
/-- The test of `post_cqe` may be out of date, but only on the safe side. -/
theorem hasRoom_of_test {x : QState ring} {cqTail cqHead : UInt32} (hTail : AtCqTail cqTail x)
    (hHead : SawCqHead cqHead x) (h : ¬ cqTail - cqHead ≥ ring.cq.ringEntries) : HasRoom x := by
  obtain ⟨k, rfl, hLe, hLen⟩ := hHead
  obtain rfl := hTail
  have hPosted := x.2.cq.released_le_posted
  have hCap : Cqueue.capacity ring.cq < 2 ^ 32 := UInt32.toNat_lt _
  have hSub := toNat_ofNat_sub (a := k) (b := x.2.cq.posted.length) (Nat.le_trans hLe hPosted)
    (by omega)
  rw [ge_iff_le, UInt32.not_le, UInt32.lt_iff_toNat_lt, hSub] at h
  change _ < Cqueue.capacity ring.cq at h
  unfold HasRoom
  omega

/-- A slot of the completion ring was written that the tail does not count yet. -/
structure Filled (init : Queues ring) (hs : List Nat) (cqe : IoUringCqe) (x : QState ring) : Prop where
  reads : init.sq.consumed + x.1.sqeReads.length = x.2.sq.consumed + 0
  writes : init.cq.posted ++ x.1.cqeWrites = x.2.cq.posted ++ [cqe]
  started : ∀ i ∈ hs ++ x.1.pending, i < x.1.threads.length
  slot : (x.1.cqes.map Cqueue.EntryMarker.cqe)[slot ring.cq.ringMask
    (UInt32.ofNat x.2.cq.posted.length)]? = some cqe

theorem stable_filled (cqe : IoUringCqe) :
    (spsc ring init).Stable .submitter (Filled init hs cqe) := by
  apply stable_of
  intro x x' hSame _ h
  have hPart : submitterPart x' = submitterPart x := hSame
  simp only [submitterPart, SubmitterPart.mk.injEq] at hPart
  obtain ⟨hCqes, hThreads, hPending, hReads, hWrites, hConsumed, hPosted⟩ := hPart
  exact ⟨by rw [hReads, hConsumed]; exact h.reads, by rw [hWrites, hPosted]; exact h.writes,
    by rw [hPending, hThreads]; exact h.started, by rw [hCqes, hPosted]; exact h.slot⟩

/-- The slot behind the last posted completion holds none that was not released. -/
theorem safe_cqSlot {x : QState ring} (hx : Stands ring init x) (hRoom : HasRoom x) :
    ∀ k < dist (x.1.cells .cqHead) (x.1.cells .cqTail),
      slot ring.cq.ringMask (UInt32.ofNat x.2.cq.posted.length) * Cqueue.EntryMarker.size C ≠
        slot ring.cq.ringMask (x.1.cells .cqHead + UInt32.ofNat k) *
          Cqueue.EntryMarker.size C := by
  intro k hk hEq
  have hPosted := x.2.cq.released_le_posted
  unfold HasRoom at hRoom
  have hMasks := CqRefines.masks ring (by omega)
  rw [dist_cq hx.cq] at hk
  rw [hx.cq.head, Holds.ofNat_length hPosted] at hEq
  refine slot_fresh hMasks (n := x.2.cq.posted.length - x.2.cq.released) ?_ ?_
    (Nat.eq_of_mul_eq_mul_right Cqueue.EntryMarker.size_pos hEq).symm
  · omega
  · omega

theorem cqSlot_lt {x : QState ring} (hx : Stands ring init x) (hRoom : HasRoom x) (v : UInt32) :
    slot ring.cq.ringMask v < x.1.cqes.length := by
  have hPosted := x.2.cq.released_le_posted
  unfold HasRoom at hRoom
  rw [hx.cq.length]
  exact slot_lt (CqRefines.masks ring (by omega)) v

theorem triple_writeCqe (cqe : IoUringCqe) (v : UInt32) :
    Triple (ringSem results) (spsc ring init) .submitter
      (fun x => (SubmitterRest init hs x ∧ HasRoom x) ∧ AtCqTail v x)
      (writeCqe (slot ring.cq.ringMask v * Cqueue.EntryMarker.size C) cqe)
      fun _ x => (Filled init hs cqe x ∧ HasRoom x) ∧ AtCqTail v x := by
  refine Triple.act (B := fun _ x => (Filled init hs cqe x ∧ HasRoom x) ∧ AtCqTail v x)
    (((stable_copied 0).and stable_hasRoom).and (stable_atCqTail v)) ?_ fun _ =>
    .ret (((stable_filled cqe).and stable_hasRoom).and (stable_atCqTail v)) fun _ _ h => h
  rintro x hx ⟨⟨hCopied, hRoom⟩, rfl⟩
  have hSlot := cqSlot_lt hx hRoom (UInt32.ofNat x.2.cq.posted.length)
  have hSet := map_modify_writeCqe x.1.cqes
    (slot ring.cq.ringMask (UInt32.ofNat x.2.cq.posted.length)) cqe
  have hPosted := x.2.cq.released_le_posted
  have hWrites := hCopied.writes
  refine ⟨(), (_, x.2), ringSem_writeCqe hSlot cqe,
    allows_of (safe_cqSlot hx hRoom) ?_ (others_same rfl rfl) (.of_queues rfl),
    ⟨⟨hCopied.reads, ?_, hCopied.started, ?_⟩, hRoom⟩, rfl⟩
  · exact {
      sq := hx.sq.congr rfl
      cq := by
        unfold HasRoom at hRoom
        have hMasks := CqRefines.masks ring (by omega)
        refine hx.cq.of_slots rfl ?_ ?_
        · exact List.length_modify _ _ _
        · rw [hSet]
          exact hx.cq.holds.set hMasks hPosted (by omega) cqe
      logs := { hx.logs with
        posted := hx.logs.posted.trans (append_prefix_concat _ _ _) } }
  · change init.cq.posted ++ (x.1.cqeWrites ++ [cqe]) = x.2.cq.posted ++ [cqe]
    rw [← List.append_assoc, hWrites]
  · change ((x.1.cqes.modify _ _).map Cqueue.EntryMarker.cqe)[_]? = some cqe
    rw [hSet]
    exact List.getElem?_set_self (by rw [List.length_map]; exact hSlot)

theorem triple_zeroExtra (cqe : IoUringCqe) (v : UInt32)
    (hSize : 16 < Cqueue.EntryMarker.size C) :
    Triple (ringSem results) (spsc ring init) .submitter
      (fun x => (Filled init hs cqe x ∧ HasRoom x) ∧ AtCqTail v x)
      (zeroExtra (slot ring.cq.ringMask v * Cqueue.EntryMarker.size C))
      fun _ x => (Filled init hs cqe x ∧ HasRoom x) ∧ AtCqTail v x := by
  have hFilled : (spsc ring init).Stable .submitter (Filled init hs cqe) := stable_filled cqe
  have hStable := (hFilled.and stable_hasRoom).and (stable_atCqTail v)
  refine Triple.act (B := fun _ x => (Filled init hs cqe x ∧ HasRoom x) ∧ AtCqTail v x) hStable ?_
    fun _ => .ret hStable fun _ _ h => h
  rintro x hx ⟨⟨hFilled, hRoom⟩, rfl⟩
  have hSlot := cqSlot_lt hx hRoom (UInt32.ofNat x.2.cq.posted.length)
  have hSame := map_modify_zeroExtra x.1.cqes
    (slot ring.cq.ringMask (UInt32.ofNat x.2.cq.posted.length))
  refine ⟨(), (_, x.2), ringSem_zeroExtra hSlot hSize,
    allows_of (safe_cqSlot hx hRoom) ?_ (others_same rfl rfl) (.of_queues rfl),
    ⟨⟨hFilled.reads, hFilled.writes, hFilled.started, ?_⟩, hRoom⟩, rfl⟩
  · exact {
      sq := hx.sq.congr rfl
      cq := by
        refine hx.cq.of_slots rfl ?_ ?_
        · exact List.length_modify _ _ _
        · rw [hSame]
          exact hx.cq.holds
      logs := hx.logs }
  · change ((x.1.cqes.modify _ _).map Cqueue.EntryMarker.cqe)[_]? = some cqe
    rw [hSame]
    exact hFilled.slot

/-- The store of the advanced tail. -/
theorem store_cqTail {x : QState ring} {cqe : IoUringCqe} (hx : Stands ring init x)
    (hFilled : Filled init hs cqe x) (hRoom : HasRoom x) :
    ∃ x', ringSem results (.store .cqTail (UInt32.ofNat x.2.cq.posted.length + 1)) x.1 =
        some ((), x'.1) ∧
      (spsc ring init).Allows .submitter
        (.store .cqTail (UInt32.ofNat x.2.cq.posted.length + 1)) x x' ∧ SubmitterRest init hs x' := by
  have hLe := x.2.cq.released_le_posted
  have hPost : x.2.cq.hasRoom = true := by
    unfold HasRoom at hRoom
    exact decide_eq_true (by omega)
  have hPosted : (x.2.cq.post cqe).posted = x.2.cq.posted ++ [cqe] := by
    rw [posted_post, if_pos hPost]
  refine ⟨(_, { x.2 with cq := x.2.cq.post cqe }), rfl,
    allows_of trivial ?_ (others_same rfl rfl) ?_, ⟨hFilled.reads, ?_, hFilled.started⟩⟩
  · exact {
      sq := hx.sq.congr (by simp [sqPart])
      cq := {
        head := by simpa using hx.cq.head
        tail := by
          rw [hPosted, List.length_append]
          simp [UInt32.ofNat_add]
        localHead := by simpa using hx.cq.localHead
        localTail := by simpa using hx.cq.localTail
        length := hx.cq.length
        holds := by
          rw [hPosted]
          exact hx.cq.holds.snoc hLe hFilled.slot }
      logs := { hx.logs with
        posted := by
          have hAll : (x.2.cq.post cqe).posted = init.cq.posted ++ x.1.cqeWrites :=
            hPosted.trans hFilled.writes.symm
          exact hAll ▸ List.prefix_rfl
        popped := by
          change _ <+: (x.2.cq.post cqe).posted.drop _
          rw [hPosted]
          exact hx.logs.popped.trans (prefix_drop (List.prefix_append _ _)) } }
  · refine ⟨List.prefix_rfl, Nat.le_refl _, Nat.le_refl _, ?_, Nat.le_refl _⟩
    rw [hPosted]
    exact List.prefix_append _ _
  · rw [hPosted]
    exact hFilled.writes

theorem triple_writeSlot (cqe : IoUringCqe) (v : UInt32) :
    Triple (ringSem results) (spsc ring init) .submitter
      (fun x => (SubmitterRest init hs x ∧ HasRoom x) ∧ AtCqTail v x)
      (do
        writeCqe (slot ring.cq.ringMask v * ring.submitter.cqeStride) cqe
        (if ring.submitter.cqeStride > 16 then
          zeroExtra (slot ring.cq.ringMask v * ring.submitter.cqeStride) else pure ())
        store .cqTail (v + 1)) fun _ => SubmitterRest init hs := by
  have hFilled : (spsc ring init).Stable .submitter (Filled init hs cqe) := stable_filled cqe
  have hStable := (hFilled.and stable_hasRoom).and (stable_atCqTail v)
  refine (triple_writeCqe cqe v).bind fun _ => ?_
  refine Triple.bind (Q := fun _ x => (Filled init hs cqe x ∧ HasRoom x) ∧ AtCqTail v x) ?_
    fun _ => ?_
  · by_cases hSize : ring.submitter.cqeStride > 16
    · rw [if_pos hSize]
      exact triple_zeroExtra cqe v hSize
    · rw [if_neg hSize]
      exact .ret hStable fun _ _ h => h
  · refine Triple.act (B := fun _ => SubmitterRest init hs) hStable ?_ fun _ =>
      .ret (stable_copied 0) fun _ _ h => h
    rintro x hx ⟨⟨hFilled, hRoom⟩, rfl⟩
    exact ⟨(), store_cqTail hx hFilled hRoom⟩

theorem stands_posts {x : QState ring} (hx : Stands ring init x) (posts : List Post) :
    Stands ring init ({ x.1 with posts }, x.2) := by
  have hCq := hx.cq
  exact ⟨hx.sq.congr rfl,
    ⟨hCq.head, hCq.tail, hCq.localHead, hCq.localTail, hCq.length, hCq.holds⟩,
    hx.logs⟩

/-- The flags and counters that are no indices. -/
theorem stands_setCell {x : QState ring} (hx : Stands ring init x) {c : Cell}
    (hc : c = .cqOverflow ∨ c = .sqFlags) (v : UInt32) :
    Stands ring init (x.1.setCell c v, x.2) := by
  have hCells : ∀ c', c' ≠ .cqOverflow → c' ≠ .sqFlags →
      (x.1.setCell c v).cells c' = x.1.cells c' := by
    intro c' hOverflow hFlags
    apply RingMem.setCell_cells_of_ne
    rintro rfl
    rcases hc with rfl | rfl
    · exact hOverflow rfl
    · exact hFlags rfl
  exact {
    sq := hx.sq.congr (by rcases hc with rfl | rfl <;> simp [sqPart])
    cq := {
      head := (hCells .cqHead nofun nofun).trans hx.cq.head
      tail := (hCells .cqTail nofun nofun).trans hx.cq.tail
      localHead := (hCells .cqLocalHead nofun nofun).trans hx.cq.localHead
      localTail := (hCells .cqLocalTail nofun nofun).trans hx.cq.localTail
      length := hx.cq.length
      holds := hx.cq.holds }
    logs := hx.logs }

/-- The branch of `post_cqe` for a full ring. -/
theorem triple_countOverflow :
    Triple (ringSem results) (spsc ring init) .submitter (SubmitterRest init hs)
      (do
        let prev ← fetchAdd .cqOverflow 1
        if prev = 0 then discard (fetchOr .sqFlags ioringSqCqOverflow) else pure ())
      fun _ => SubmitterRest init hs := by
  have hRest : (spsc ring init).Stable .submitter (SubmitterRest init hs) := stable_copied 0
  have hReturn : Triple (ringSem results) (spsc ring init) .submitter (SubmitterRest init hs)
      (Program.ret ()) fun _ => SubmitterRest init hs := .ret hRest fun _ _ h => h
  refine Triple.act (B := fun _ => SubmitterRest init hs) hRest ?_ fun prev => ?_
  · intro x hx hCopied
    exact ⟨_, (_, x.2), rfl, allows_of trivial (stands_setCell hx (.inl rfl) _)
      (others_same rfl rfl) (.of_queues rfl), hCopied.reads, hCopied.writes,
      hCopied.started⟩
  · change Triple _ _ _ _ (if prev = 0 then discard (fetchOr .sqFlags ioringSqCqOverflow)
      else pure ()) _
    by_cases hPrev : prev = 0
    · rw [if_pos hPrev]
      refine Triple.act (B := fun _ => SubmitterRest init hs) hRest ?_ fun _ => hReturn
      intro x hx hCopied
      exact ⟨_, (_, x.2), rfl, allows_of trivial (stands_setCell hx (.inr rfl) _)
        (others_same rfl rfl) (.of_queues rfl), hCopied.reads, hCopied.writes,
        hCopied.started⟩
    · rw [if_neg hPrev]
      exact hReturn

theorem triple_postCqe (userData : UInt64) (res : Int32) (flags : UInt32) :
    Triple (ringSem results) (spsc ring init) .submitter (SubmitterRest init hs)
      (postCqe ring.submitter userData res flags) fun _ => SubmitterRest init hs := by
  have hRest : (spsc ring init).Stable .submitter (SubmitterRest init hs) := stable_copied 0
  refine triple_load hRest AtCqTail (fun x hx _ => hx.cq.tail) fun cqTail => ?_
  refine triple_load (hRest.and (stable_atCqTail cqTail)) SawCqHead
    (fun x hx _ => ⟨_, hx.cq.head, Nat.le_refl _, x.2.cq.length_le⟩) fun cqHead => ?_
  have hStable := (hRest.and (stable_atCqTail cqTail)).and (stable_sawCqHead cqHead)
  refine Triple.act (B := fun _ x => (SubmitterRest init hs x ∧ AtCqTail cqTail x) ∧
    SawCqHead cqHead x) hStable ?_ fun _ => ?_
  · rintro x hx ⟨⟨hCopied, hTail⟩, hHead⟩
    exact ⟨(), (_, x.2), rfl, allows_of trivial (stands_posts hx _)
      (others_same rfl rfl) (.of_queues rfl),
      ⟨⟨hCopied.reads, hCopied.writes, hCopied.started⟩, hTail⟩, hHead⟩
  · change Triple _ _ _ _ (if cqTail - cqHead ≥ ring.submitter.cqRingEntries then _ else _) _
    by_cases hFull : cqTail - cqHead ≥ ring.submitter.cqRingEntries
    · rw [if_pos hFull]
      exact triple_countOverflow.conseq (fun _ _ h => h.1.1) fun _ _ _ h => h
    · rw [if_neg hFull]
      refine (triple_writeSlot ⟨userData, res, flags⟩ cqTail).conseq ?_ fun _ _ _ h => h
      rintro x hx ⟨⟨hCopied, hTail⟩, hHead⟩
      exact ⟨⟨hCopied, hasRoom_of_test hTail hHead hFull⟩, hTail⟩

theorem triple_postResults (cds : List CompletionData) :
    Triple (ringSem results) (spsc ring init) .submitter (SubmitterRest init hs)
      (postResults ring.submitter cds) fun _ => SubmitterRest init hs := by
  have hReturn : Triple (ringSem results) (spsc ring init) .submitter (SubmitterRest init hs)
      (Program.ret ()) fun _ => SubmitterRest init hs := .ret (stable_copied 0) fun _ _ h => h
  induction cds with
  | nil => exact hReturn
  | cons cd cds ih =>
    refine Triple.bind (Q := fun _ => SubmitterRest init hs) ?_ fun _ => ih
    cases !suppressed cd with
    | true => exact triple_postCqe cd.userData cd.result 0
    | false => exact hReturn

/-! ## The calls -/

theorem triple_joinAll (handles : List Nat) :
    Triple (ringSem results) (spsc ring init) .submitter (SubmitterRest init handles)
      (joinAll ring.submitter handles) fun _ => SubmitterRest init [] := by
  induction handles with
  | nil => exact .ret (stable_copied 0) fun _ _ h => h
  | cons handle handles ih =>
    refine Triple.act (B := fun _ => SubmitterRest init handles) (stable_copied 0) ?_ fun cds =>
      (triple_postResults cds).bind fun _ => ih
    intro x hx hCopied
    have hStarted := hCopied.started handle List.mem_cons_self
    exact ⟨_, x, ringSem_join hStarted, allows_of trivial hx (fun j _ => .refl j x) (.refl x),
      hCopied.reads, hCopied.writes, fun i hi => hCopied.started i (List.mem_cons_of_mem _ hi)⟩

theorem triple_flushPending :
    Triple (ringSem results) (spsc ring init) .submitter (SubmitterRest init [])
      ring.submitter.flushPending fun _ => SubmitterRest init [] := by
  refine Triple.act (B := SubmitterRest init) (stable_copied 0) ?_ triple_joinAll
  intro x hx hCopied
  refine ⟨x.1.pending, (_, x.2), rfl, allows_of trivial (stands_threads hx _ _)
    (others_same rfl rfl) (.of_queues rfl), ⟨hCopied.reads, hCopied.writes, ?_⟩⟩
  intro i hi
  change i ∈ x.1.pending ++ [] at hi
  rw [List.append_nil] at hi
  exact hCopied.started i hi

theorem triple_sqLen :
    Triple (ringSem results) (spsc ring init) .submitter (SubmitterRest init [])
      sqLen fun _ => SubmitterRest init [] := by
  have hRest : (spsc ring init).Stable .submitter (SubmitterRest init []) := stable_copied 0
  refine triple_load hRest (fun _ _ => True) (fun _ _ _ => trivial) fun head => ?_
  refine triple_load (hRest.and (stable_const True)) (fun _ _ => True) (fun _ _ _ => trivial)
    fun tail => ?_
  exact .ret ((hRest.and (stable_const True)).and (stable_const True)) fun _ _ h => h.1.1

/-- What every submitting call does behind its batch. -/
theorem triple_flushIf (b : Prop) [Decidable b] (submitted : Nat) :
    Triple (ringSem results) (spsc ring init) .submitter (SubmitterRest init [])
      (do
        (if b then ring.submitter.flushPending else pure ())
        pure submitted) fun _ => SubmitterRest init [] := by
  refine Triple.bind (Q := fun _ => SubmitterRest init []) ?_ fun _ =>
    .ret (stable_copied 0) fun _ _ h => h
  by_cases hb : b
  · rw [if_pos hb]
    exact triple_flushPending
  · rw [if_neg hb]
    exact .ret (stable_copied 0) fun _ _ h => h

theorem triple_enter (toSubmit minComplete : UInt32) :
    Triple (ringSem results) (spsc ring init) .submitter (SubmitterRest init [])
      (enter ring.submitter toSubmit minComplete) fun _ => SubmitterRest init [] :=
  (triple_enqueueSqes toSubmit).bind fun submitted => triple_flushIf _ submitted

theorem triple_submitAndWait (want : Nat) :
    Triple (ringSem results) (spsc ring init) .submitter (SubmitterRest init [])
      (submitAndWait ring.submitter want) fun _ => SubmitterRest init [] :=
  triple_sqLen.bind fun _ => (triple_enqueueSqes _).bind fun submitted =>
    triple_flushIf _ submitted

theorem triple_submitWithArgs (want : Nat) :
    Triple (ringSem results) (spsc ring init) .submitter (SubmitterRest init [])
      (submitWithArgs ring.submitter want) fun _ => SubmitterRest init [] :=
  triple_submitAndWait want

end Miring.Concurrency
