import Miring.Stream.Handles

/-!
# What the submitter does

`enqueue_sqes` takes the next published entries as a batch, `post_cqe` offers a completion to
the queue, and `flush_pending` answers the pending batches in order. The entry points of the
submitter are these two, one after the other.
-/

namespace Miring.Stream

open Sys Miring.Ring Dispatch Program Submitter

variable {S C : Type} [Squeue.EntryMarker S] [Cqueue.EntryMarker C]
  (results : Nat → List CompletionData) {ring : IoUring S C} {s : RingMem S C}

/-! ## Posting -/

section Post

variable {q : CqLedger IoUringCqe (Cqueue.capacity ring.cq)}

theorem overflowFlags_or (n : Nat) :
    overflowFlags n ||| ioringSqCqOverflow = overflowFlags (n + 1) := by
  unfold overflowFlags
  by_cases hn : n = 0
  · rw [if_pos hn, if_neg (Nat.succ_ne_zero n)]
    decide
  · rw [if_neg hn, if_neg (Nat.succ_ne_zero n)]
    decide

theorem posted_post {β : Type} {cap : Nat} (q : CqLedger β cap) (x : β) :
    (q.post x).posted = if q.hasRoom then q.posted ++ [x] else q.posted := by
  simp only [CqLedger.posted, CqLedger.post_attempts, postedOf_append]
  cases q.hasRoom <;> simp [postedOf]

theorem refused_post {β : Type} {cap : Nat} (q : CqLedger β cap) (x : β) :
    (q.post x).refused = if q.hasRoom then q.refused else q.refused + 1 := by
  simp only [CqLedger.refused, CqLedger.post_attempts, refusedOf_append]
  cases q.hasRoom <;> simp [refusedOf]

omit [Squeue.EntryMarker S] in
/-- The test of `post_cqe` is the test of the pipeline. -/
theorem full_iff (h : CqRefines ring s q) :
    s.cells .cqTail - s.cells .cqHead ≥ ring.cq.ringEntries ↔ q.hasRoom = false := by
  have hLe := Nat.le_trans q.released_le (Nat.le_trans q.delivered_le q.seen_le)
  have hLen := q.length_le
  have hCap : Cqueue.capacity ring.cq < 2 ^ 32 := UInt32.toNat_lt _
  have hSub := toNat_ofNat_sub hLe (by omega)
  rw [h.head, h.tail, ge_iff_le, UInt32.le_iff_toNat_le, CqLedger.posted, hSub,
    CqLedger.hasRoom, decide_eq_false_iff_not, Nat.not_lt]
  rfl

theorem map_modify_writeCqe (cqes : List C) (i : Nat) (cqe : IoUringCqe) :
    (cqes.modify i (Cqueue.EntryMarker.writeCqe cqe)).map Cqueue.EntryMarker.cqe =
      (cqes.map Cqueue.EntryMarker.cqe).set i cqe := by
  apply List.ext_getElem?
  intro j
  rw [List.getElem?_map, List.getElem?_modify, List.getElem?_set, List.getElem?_map,
    List.length_map]
  by_cases hij : i = j
  · subst hij
    by_cases hi : i < cqes.length
    · simp [hi]
    · simp [hi]
  · simp [hij]

theorem map_modify_zeroExtra (cqes : List C) (i : Nat) :
    (cqes.modify i Cqueue.EntryMarker.zeroExtra).map Cqueue.EntryMarker.cqe =
      cqes.map Cqueue.EntryMarker.cqe := by
  apply List.ext_getElem?
  intro j
  rw [List.getElem?_map, List.getElem?_modify, List.getElem?_map]
  by_cases hij : i = j
  · cases hj : cqes[j]? <;> simp [hij]
  · simp [hij]

/-- The slot of a post: its first 16 bytes are the completion, the other slots are as they
were. -/
theorem run_writeSlot (ring : IoUring S C) {index : Nat} (h : index < s.cqes.length)
    (cqe : IoUringCqe) (v : UInt32) :
    ∃ s', run (ringSem results) (do
        writeCqe (index * ring.submitter.cqeStride) cqe
        (if ring.submitter.cqeStride > 16 then zeroExtra (index * ring.submitter.cqeStride)
          else pure ())
        store .cqTail v) s = some ((), s') ∧
      s'.cells = (s.setCell .cqTail v).cells ∧ s'.sqes = s.sqes ∧ s'.posts = s.posts ∧
      threadPart s' = threadPart s ∧ s'.cqes.length = s.cqes.length ∧
      s'.cqes.map Cqueue.EntryMarker.cqe = (s.cqes.map Cqueue.EntryMarker.cqe).set index cqe := by
  have hStride : ring.submitter.cqeStride = Cqueue.EntryMarker.size C := rfl
  rw [hStride, run_writeCqe_bind s h]
  by_cases hSize : Cqueue.EntryMarker.size C > 16
  · rw [if_pos hSize, run_zeroExtra_bind _ (by simpa using h) hSize]
    refine ⟨_, rfl, rfl, rfl, rfl, rfl, by simp, ?_⟩
    simp [map_modify_zeroExtra, map_modify_writeCqe]
  · rw [if_neg hSize]
    refine ⟨_, rfl, rfl, rfl, rfl, rfl, by simp, ?_⟩
    simp [map_modify_writeCqe]

omit [Squeue.EntryMarker S] in
/-- Without room the completion is only counted. -/
theorem CqRefines.refuse {s' : RingMem S C} {cqe : IoUringCqe} (h : CqRefines ring s q)
    (hRoom : ¬ q.hasRoom)
    (hCells : ∀ c, c ≠ .cqOverflow → c ≠ .sqFlags → s'.cells c = s.cells c)
    (hOverflow : s'.cells .cqOverflow = s.cells .cqOverflow + 1)
    (hFlags : s'.cells .sqFlags = overflowFlags (q.refused + 1)) (hCqes : s'.cqes = s.cqes)
    (hPosts : s'.posts.map (fun post => (post.cqe, Post.hasRoom ring post)) =
      (q.post cqe).attempts) : CqRefines ring s' (q.post cqe) where
  head := (hCells _ (by decide) (by decide)).trans h.head
  tail := by
    rw [hCells _ (by decide) (by decide), h.tail]
    simp [posted_post, hRoom]
  localHead := (hCells _ (by decide) (by decide)).trans h.localHead
  localTail := (hCells _ (by decide) (by decide)).trans h.localTail
  overflow := by simp [hOverflow, refused_post, hRoom, h.overflow, UInt32.ofNat_add]
  sqFlags := by simp [hFlags, refused_post, hRoom]
  length := hCqes ▸ h.length
  holds := by
    rw [hCqes]
    simpa [posted_post, hRoom] using h.holds
  posts := hPosts

theorem run_postCqe (h : CqRefines ring s q) (userData : UInt64) (res : Int32) (flags : UInt32) :
    ∃ s', run (ringSem results) (postCqe ring.submitter userData res flags) s = some ((), s') ∧
      CqRefines ring s' (q.post ⟨userData, res, flags⟩) ∧ OnlyCq s s' := by
  have hFull := full_iff h
  let post : Post := ⟨⟨userData, res, flags⟩, s.cells .cqTail, s.cells .cqHead⟩
  have hPosts : (s.posts ++ [post]).map (fun post => (post.cqe, Post.hasRoom ring post)) =
      (q.post ⟨userData, res, flags⟩).attempts := by
    have hRoom : Post.hasRoom ring post = q.hasRoom := by
      rw [Post.hasRoom, Bool.eq_iff_iff, decide_eq_true_iff, ← not_iff_not, UInt32.not_lt,
        Bool.not_eq_true]
      exact hFull
    rw [List.map_append, h.posts, List.map_singleton, hRoom]
    rfl
  by_cases hRoom : q.hasRoom
  · -- there is room: the slot behind the last entry is written
    have hLt := of_decide_eq_true hRoom
    have hMasks := CqRefines.masks ring (Nat.zero_lt_of_lt hLt)
    have hIndex : (s.cells .cqTail &&& ring.cq.ringMask).toNat < s.cqes.length := by
      rw [h.length]
      exact slot_lt hMasks _
    have hLe := Nat.le_trans q.released_le (Nat.le_trans q.delivered_le q.seen_le)
    obtain ⟨s', hRun, hCells, hSqes, hPosts', hThreads, hLength, hSlots⟩ :=
      run_writeSlot results ring (s := { s with posts := s.posts ++ [post] }) hIndex
        ⟨userData, res, flags⟩ (s.cells .cqTail + 1)
    have hNotFull : ¬ s.cells .cqTail - s.cells .cqHead ≥ ring.submitter.cqRingEntries := by
      intro hge
      rw [hFull.mp hge] at hRoom
      cases hRoom
    refine ⟨s', ?_, ?_, ?_⟩
    · rw [postCqe]
      simp only [run_load_bind, run_notePost_bind]
      rw [if_neg hNotFull]
      exact hRun
    · exact {
        head := by simpa [hCells] using h.head
        tail := by simp [hCells, h.tail, posted_post, hRoom, UInt32.ofNat_add]
        localHead := by simpa [hCells] using h.localHead
        localTail := by simpa [hCells] using h.localTail
        overflow := by simpa [hCells, refused_post, hRoom] using h.overflow
        sqFlags := by simpa [hCells, refused_post, hRoom] using h.sqFlags
        length := hLength.trans h.length
        holds := by
          have hHolds := h.holds.push hMasks ((List.length_map _).trans h.length)
            (Nat.le_trans q.delivered_le q.seen_le)
            (by have := q.released_le; omega) ⟨userData, res, flags⟩
          rw [hSlots, posted_post, if_pos hRoom]
          rw [slot, ← h.tail] at hHolds
          exact hHolds
        posts := by rw [hPosts', ← hPosts] }
    · refine ⟨?_, hThreads⟩
      simp [sqPart, hCells, hSqes]
  · -- no room: the completion is only counted
    have hFull' : s.cells .cqTail - s.cells .cqHead ≥ ring.submitter.cqRingEntries :=
      hFull.mpr (by simpa using hRoom)
    by_cases hZero : s.cells .cqOverflow = 0
    · rw [postCqe]
      simp only [run_load_bind, run_notePost_bind]
      rw [if_pos hFull', run_fetchAdd_bind, if_pos hZero]
      refine ⟨_, rfl, h.refuse hRoom ?_ ?_ ?_ rfl hPosts, ?_⟩
      · intro c hOverflow hFlags
        simp [hOverflow, hFlags]
      · simp
      · simp [h.sqFlags, overflowFlags_or]
      · simp [OnlyCq, sqPart, threadPart]
    · rw [postCqe]
      simp only [run_load_bind, run_notePost_bind]
      rw [if_pos hFull', run_fetchAdd_bind, if_neg hZero]
      have hRefused : q.refused ≠ 0 := by
        intro hq
        rw [h.overflow, hq] at hZero
        exact hZero rfl
      refine ⟨_, rfl, h.refuse hRoom ?_ ?_ ?_ rfl hPosts, ?_⟩
      · intro c hOverflow _
        simp [hOverflow]
      · simp
      · simp [h.sqFlags, overflowFlags, hRefused]
      · simp [OnlyCq, sqPart, threadPart]

/-- The completion that `flush_pending` posts for the data of a request. -/
def cqeOf (cd : CompletionData) : IoUringCqe := ⟨cd.userData, cd.result, 0⟩

/-- What the results of a batch add to the queue of completions. -/
def offered (cds : List CompletionData) : List IoUringCqe :=
  (cds.filter fun cd => !suppressed cd).map cqeOf

theorem run_postResults (cds : List CompletionData) (h : CqRefines ring s q) :
    ∃ s', run (ringSem results) (postResults ring.submitter cds) s = some ((), s') ∧
      CqRefines ring s' (q.postAll (offered cds)) ∧ OnlyCq s s' := by
  induction cds generalizing s q with
  | nil => exact ⟨s, rfl, h, OnlyCq.refl s⟩
  | cons cd cds ih =>
    by_cases hSuppressed : suppressed cd
    · obtain ⟨s', hRest, hs', hOnly⟩ := ih h
      refine ⟨s', ?_, ?_, hOnly⟩
      · simp only [postResults, hSuppressed, Bool.not_true, Bool.false_eq_true, if_false]
        exact hRest
      · simpa [offered, hSuppressed] using hs'
    · obtain ⟨s₁, hRun, hs₁, hOnly₁⟩ :=
        run_postCqe results h cd.userData cd.result 0
      obtain ⟨s₂, hRest, hs₂, hOnly₂⟩ := ih hs₁
      refine ⟨s₂, ?_, ?_, hOnly₁.trans hOnly₂⟩
      · simp only [postResults, hSuppressed, Bool.not_false, if_true]
        rw [run_bind_of hRun]
        exact hRest
      · simpa [offered, hSuppressed, CqLedger.postAll, cqeOf] using hs₂

theorem CqLedger.postAll_append {β : Type} {cap : Nat} (q : CqLedger β cap) (xs ys : List β) :
    q.postAll (xs ++ ys) = (q.postAll xs).postAll ys :=
  List.foldl_append

theorem run_joinAll (handles : List Nat) (h : CqRefines ring s q)
    (hHandles : ∀ i ∈ handles, i < s.threads.length) :
    ∃ s', run (ringSem results) (joinAll ring.submitter handles) s = some ((), s') ∧
      CqRefines ring s' (q.postAll (handles.flatMap fun i => offered (results i))) ∧
      OnlyCq s s' := by
  induction handles generalizing s q with
  | nil => exact ⟨s, rfl, h, OnlyCq.refl s⟩
  | cons i handles ih =>
    obtain ⟨s₁, hRun, hs₁, hOnly₁⟩ := run_postResults results (results i) h
    have hThreads : s₁.threads = s.threads := congrArg ThreadPart.threads hOnly₁.2
    obtain ⟨s₂, hRest, hs₂, hOnly₂⟩ := ih hs₁ fun j hj => by
      rw [hThreads]
      exact hHandles j (List.mem_cons_of_mem _ hj)
    refine ⟨s₂, ?_, ?_, hOnly₁.trans hOnly₂⟩
    · rw [joinAll, run_join_bind _ (hHandles i List.mem_cons_self), run_bind_of hRun]
      exact hRest
    · rw [List.flatMap_cons, CqLedger.postAll_append]
      exact hs₂

end Post

/-! ## Flushing and enqueueing -/

variable {l : RingLedger ring}

/-- The completions of each batch. -/
def answers (results : Nat → List CompletionData) (i : Nat) : List IoUringCqe :=
  offered (results i)

theorem Refines.pending_lt (h : Refines ring s l) : ∀ i ∈ s.pending, i < s.threads.length := by
  intro i hi
  rw [h.pending, Ledger.pending, List.mem_range'_1] at hi
  have := l.flushed_le
  rw [h.threads, List.length_map]
  omega

theorem run_flushPending (h : Refines ring s l) :
    ∃ s', run (ringSem results) (flushPending ring.submitter) s = some ((), s') ∧
      Refines ring s' (l.flush (answers results)) := by
  obtain ⟨s', hRun, hs', hSq, hThreads⟩ := run_joinAll results
    (s := { s with pending := [] }) s.pending (h.cq.congr rfl) h.pending_lt
  refine ⟨s', ?_, ?_⟩
  · rw [flushPending, run_drainPending_bind]
    exact hRun
  · rw [h.pending] at hs'
    exact {
      sq := h.sq.congr hSq
      cq := hs'
      threads := (congrArg ThreadPart.threads hThreads).trans h.threads
      pending := by
        refine (congrArg ThreadPart.pending hThreads).trans ?_
        simp [threadPart, Ledger.pending, Ledger.flush]
      dropped := (congrArg ThreadPart.dropped hThreads).trans h.dropped
      cqFlags := (congrArg ThreadPart.cqFlags hThreads).trans h.cqFlags }

theorem run_flushIf (h : Refines ring s l) (p : Prop) [Decidable p] :
    ∃ s', run (ringSem results) (if p then flushPending ring.submitter else pure ()) s =
        some ((), s') ∧
      Refines ring s' (l.flushIf (answers results) p) := by
  by_cases hp : p
  · obtain ⟨s', hRun, hs'⟩ := run_flushPending results h
    refine ⟨s', ?_, ?_⟩
    · rw [if_pos hp]
      exact hRun
    · simpa [Ledger.flushIf, hp] using hs'
  · refine ⟨s, ?_, ?_⟩
    · rw [if_neg hp]
      rfl
    · simpa [Ledger.flushIf, hp] using h

/-- The copied entries are the next ones of the queue. -/
theorem run_snapshot {items : List S} {r n : Nat}
    (hLength : s.sqes.length = Squeue.capacity ring.sq)
    (h : Holds s.sqes ring.sq.ringMask items r) (hn : r + n ≤ items.length) :
    ∃ reads, run (ringSem results) (snapshot ring.submitter (UInt32.ofNat r) n) s =
      some ((((items.drop r).take n).map Squeue.EntryMarker.sqe, UInt32.ofNat (r + n)),
        { s with sqeReads := reads }) := by
  induction n generalizing r s with
  | zero => exact ⟨s.sqeReads, by simp [snapshot]⟩
  | succ n ih =>
    have hr : r < items.length := by omega
    have hGet := h.get hr
    rw [List.getElem?_eq_getElem hr] at hGet
    obtain ⟨reads, hRest⟩ := ih (r := r + 1)
      (s := { s with sqeReads := s.sqeReads ++ [Squeue.EntryMarker.sqe items[r]] })
      hLength (h.advance (n := 1) (by omega)) (by omega)
    rw [UInt32.ofNat_add] at hRest
    refine ⟨reads, (run_readSqe_bind s hGet _).trans ((run_bind_of hRest).trans ?_)⟩
    rw [List.drop_eq_getElem_cons hr, List.take_succ_cons, List.map_cons]
    simp [Nat.add_assoc, Nat.add_comm 1 n]

theorem run_enqueueSqes (h : Refines ring s l) (toSubmit : UInt32) :
    ∃ s', run (ringSem results) (enqueueSqes ring.submitter toSubmit) s =
        some ((l.enqueue toSubmit.toNat).1, s') ∧
      Refines ring s' (l.enqueue toSubmit.toNat).2 := by
  have hReady := l.sq.ready_le
  have hCap : Squeue.capacity ring.sq < 2 ^ 32 := UInt32.toNat_lt _
  have hSub : (s.cells .sqTail - s.cells .sqHead).toNat = l.sq.ready := by
    rw [h.sq.head, h.sq.tail, toNat_ofNat_sub l.sq.consumed_le (by
      unfold SqLedger.ready at hReady; omega), SqLedger.ready]
  have hMin : (min toSubmit (s.cells .sqTail - s.cells .sqHead)).toNat =
      min toSubmit.toNat l.sq.ready := by
    rw [toNat_min, hSub]
  simp only [enqueueSqes, run_load_bind]
  by_cases hZero : min toSubmit.toNat l.sq.ready = 0
  · have hEq : min toSubmit (s.cells .sqTail - s.cells .sqHead) = 0 :=
      UInt32.toNat_inj.mp (hMin.trans hZero)
    rw [if_pos hEq, Ledger.enqueue, if_pos hZero]
    exact ⟨s, rfl, h⟩
  · have hNe : min toSubmit (s.cells .sqTail - s.cells .sqHead) ≠ 0 := by
      intro h0
      rw [h0] at hMin
      exact hZero hMin.symm
    have hPublished := l.sq.published_le
    have hConsumed := l.sq.consumed_le
    have hn := Nat.min_le_right toSubmit.toNat l.sq.ready
    obtain ⟨reads, hSnap⟩ := run_snapshot results h.sq.length h.sq.holds
      (n := min toSubmit.toNat l.sq.ready) (by unfold SqLedger.ready at hn ⊢; omega)
    rw [if_neg hNe, hMin, Ledger.enqueue, if_neg hZero, h.sq.head, run_bind_of hSnap]
    refine ⟨_, rfl, ?_⟩
    exact {
      sq := {
        head := by simp [Ledger.consume]
        tail := by simpa [Ledger.consume] using h.sq.tail
        localHead := by simpa [Ledger.consume] using h.sq.localHead
        localTail := by simpa [Ledger.consume] using h.sq.localTail
        length := by simpa using h.sq.length
        holds := h.sq.holds.advance (by unfold SqLedger.ready at hn ⊢; omega) }
      cq := h.cq.congr (by simp [cqPart])
      threads := by simp [Ledger.consume, h.threads, SqLedger.batch]
      pending := by
        have hFlushed := l.flushed_le
        simp only [RingMem.setCell_pending, RingMem.setCell_threads, h.pending, h.threads,
          Ledger.pending, Ledger.consume, List.length_append, List.length_map,
          List.length_singleton]
        rw [Nat.sub_add_comm hFlushed, ← List.range'_append, List.range'_one]
        congr 2
        omega
      dropped := by simpa using h.dropped
      cqFlags := by simpa using h.cqFlags }

/-! ## The entry points -/

theorem run_sqLen' (h : Refines ring s l) :
    run (ringSem results) sqLen s = some (l.sq.ready, s) := by
  have hReady := l.sq.ready_le
  have hCap : Squeue.capacity ring.sq < 2 ^ 32 := UInt32.toNat_lt _
  simp only [sqLen, run_load_bind, h.sq.head, h.sq.tail, pure_eq, run_ret]
  rw [toNat_ofNat_sub l.sq.consumed_le (by unfold SqLedger.ready at hReady; omega),
    SqLedger.ready]

/-- Submitting everything that is ready. -/
theorem run_submitAll (h : Refines ring s l) :
    ∃ s', run (ringSem results) (do
        let len ← sqLen
        enqueueSqes ring.submitter (UInt32.ofNat len)) s = some ((l.enqueue l.sq.ready).1, s') ∧
      Refines ring s' (l.enqueue l.sq.ready).2 := by
  have hReady := l.sq.ready_le
  have hCap : Squeue.capacity ring.sq < 2 ^ 32 := UInt32.toNat_lt _
  have hLen : (UInt32.ofNat l.sq.ready).toNat = l.sq.ready := by
    rw [UInt32.toNat_ofNat', Nat.mod_eq_of_lt (by omega)]
  obtain ⟨s', hRun, hs'⟩ :=
    run_enqueueSqes results h (UInt32.ofNat l.sq.ready)
  rw [hLen] at hRun hs'
  exact ⟨s', (run_bind_of (run_sqLen' results h)).trans hRun, hs'⟩

theorem run_enter (h : Refines ring s l) (toSubmit minComplete : UInt32) :
    ∃ s', run (ringSem results) (enter ring.submitter toSubmit minComplete) s =
        some ((l.enqueue toSubmit.toNat).1, s') ∧
      Refines ring s'
        ((l.enqueue toSubmit.toNat).2.flushIf (answers results) (decide (minComplete > 0))) := by
  obtain ⟨s₁, hRun, hs₁⟩ := run_enqueueSqes results h toSubmit
  obtain ⟨s₂, hFlush, hs₂⟩ := run_flushIf results hs₁ (minComplete > 0)
  refine ⟨s₂, ?_, hs₂⟩
  rw [enter, run_bind_of hRun, run_bind_of hFlush]
  rfl

theorem run_submitAndWait (h : Refines ring s l) (want : Nat) :
    ∃ s', run (ringSem results) (submitAndWait ring.submitter want) s =
        some ((l.enqueue l.sq.ready).1, s') ∧
      Refines ring s'
        ((l.enqueue l.sq.ready).2.flushIf (answers results) (decide (want > 0))) := by
  obtain ⟨s₁, hRun, hs₁⟩ := run_submitAll results h
  obtain ⟨s₂, hFlush, hs₂⟩ := run_flushIf results hs₁ (want > 0)
  refine ⟨s₂, ?_, hs₂⟩
  rw [submitAndWait, ← bind_assoc, run_bind_of hRun, run_bind_of hFlush]
  rfl

theorem run_submitWithArgs (h : Refines ring s l) (want : Nat) :
    ∃ s', run (ringSem results) (submitWithArgs ring.submitter want) s =
        some ((l.enqueue l.sq.ready).1, s') ∧
      Refines ring s'
        ((l.enqueue l.sq.ready).2.flushIf (answers results) (decide (want > 0))) :=
  run_submitAndWait results h want

end Miring.Stream
