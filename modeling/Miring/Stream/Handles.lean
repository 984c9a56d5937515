import Miring.Stream.Refines

/-!
# What the queue handles do

One theorem for each operation of a `SubmissionQueue` or `CompletionQueue`: on a ring that
stands for a pipeline it is defined, answers what the pipeline answers, and leaves a ring
that stands for the resulting pipeline. The parts of the memory that belong to the other
queue and to the dispatch threads stay as they are.
-/

namespace Miring.Stream

open Sys Miring.Ring Dispatch Program

variable {S C : Type} [Squeue.EntryMarker S] [Cqueue.EntryMarker C]
  (results : Nat → List CompletionData) {ring : IoUring S C} {s : RingMem S C}

/-! ## The submission queue -/

section Sq

variable {q : SqLedger S (Squeue.capacity ring.sq)}

omit [Squeue.EntryMarker S] [Cqueue.EntryMarker C] in
theorem slot_lt_length (h : SqRefines ring s q) (i : UInt32) :
    (i &&& ring.sq.ringMask).toNat < s.sqes.length := by
  rw [h.length]
  exact slot_lt ring.sq_masks i

theorem run_sqBorrow (h : SqRefines ring s q) (hPublished : q.published = q.accepted.length) :
    ∃ s', run (ringSem results) (Squeue.borrow ring.sq) s = some ((), s') ∧
      SqRefines ring s' q.refresh ∧ OnlySq s s' := by
  refine ⟨_, rfl, ?_, ?_⟩
  · exact {
      head := by simpa using h.head
      tail := by simpa using h.tail
      localHead := by simpa using h.head
      localTail := by simpa [hPublished] using h.tail
      length := h.length
      holds := h.holds }
  · simp [OnlySq, cqPart, threadPart]

theorem run_sqSync (h : SqRefines ring s q) :
    ∃ s', run (ringSem results) Squeue.sync s = some ((), s') ∧
      SqRefines ring s' q.publish.refresh ∧ OnlySq s s' := by
  refine ⟨_, rfl, ?_, ?_⟩
  · exact {
      head := by simpa using h.head
      tail := by simpa using h.localTail
      localHead := by simpa using h.head
      localTail := by simpa using h.localTail
      length := h.length
      holds := h.holds }
  · simp [OnlySq, cqPart, threadPart]

theorem run_sqDrop (h : SqRefines ring s q) :
    ∃ s', run (ringSem results) Squeue.drop s = some ((), s') ∧
      SqRefines ring s' q.publish ∧ OnlySq s s' := by
  refine ⟨_, rfl, ?_, ?_⟩
  · exact {
      head := by simpa using h.head
      tail := by simpa using h.localTail
      localHead := by simpa using h.localHead
      localTail := by simpa using h.localTail
      length := h.length
      holds := h.holds }
  · simp [OnlySq, cqPart, threadPart]

theorem run_sqLen (h : SqRefines ring s q) :
    run (ringSem results) Squeue.len s = some (q.len, s) := by
  have hLe := Nat.le_trans q.seen_le (Nat.le_trans q.consumed_le q.published_le)
  have hLen := q.len_le
  have hCap : Squeue.capacity ring.sq < 2 ^ 32 := UInt32.toNat_lt _
  simp only [Squeue.len, run_load_bind, h.localHead, h.localTail, pure_eq, run_ret]
  rw [toNat_ofNat_sub hLe (by unfold SqLedger.len at hLen; omega), SqLedger.len]

theorem run_pushUnchecked (h : SqRefines ring s q) (entry : S)
    (hRoom : [entry].length ≤ Squeue.capacity ring.sq - q.len) :
    ∃ s', run (ringSem results) (Squeue.pushUnchecked ring.sq entry) s = some ((), s') ∧
      SqRefines ring s' (q.pushAll [entry] hRoom) ∧ OnlySq s s' := by
  have hSlot := slot_lt_length h (s.cells .sqLocalTail)
  have hLe := Nat.le_trans q.consumed_le q.published_le
  have hSeen := q.seen_le
  have hLen := q.length_le
  refine ⟨_, (run_load_bind _ _ _).trans (run_writeSqe_bind _ hSlot _ _), ?_, ?_⟩
  · exact {
      head := by simpa using h.head
      tail := by simpa using h.tail
      localHead := by simpa using h.localHead
      localTail := by simp [h.localTail, SqLedger.pushAll, UInt32.ofNat_add]
      length := by simpa using h.length
      holds := by
        have hHolds := h.holds.push ring.sq_masks h.length hLe (by
          rw [SqLedger.len, List.length_singleton] at hRoom
          change _ < Squeue.capacity ring.sq
          omega) entry
        simpa [slot, ← h.localTail, SqLedger.pushAll] using hHolds }
  · simp [OnlySq, cqPart, threadPart]

theorem SqLedger.pushAll_cons {α : Type} {cap : Nat} (q : SqLedger α cap) (x : α) (xs : List α)
    (h : (x :: xs).length ≤ cap - q.len) :
    ∃ h₁ h₂, q.pushAll (x :: xs) h = (q.pushAll [x] h₁).pushAll xs h₂ := by
  have h₁ : [x].length ≤ cap - q.len := by
    rw [List.length_cons] at h
    rw [List.length_singleton]
    omega
  refine ⟨h₁, ?_, ?_⟩
  · have hLe := Nat.le_trans q.seen_le (Nat.le_trans q.consumed_le q.published_le)
    simp only [SqLedger.len, SqLedger.pushAll, List.length_append, List.length_cons,
      List.length_nil] at h ⊢
    omega
  · simp [SqLedger.pushAll]

theorem run_pushAll (entries : List S) (h : SqRefines ring s q)
    (hRoom : entries.length ≤ Squeue.capacity ring.sq - q.len) :
    ∃ s', run (ringSem results) (Squeue.pushAll ring.sq entries) s = some ((), s') ∧
      SqRefines ring s' (q.pushAll entries hRoom) ∧ OnlySq s s' := by
  induction entries generalizing s q with
  | nil =>
    refine ⟨s, rfl, ?_, OnlySq.refl s⟩
    simpa [SqLedger.pushAll] using h
  | cons entry entries ih =>
    obtain ⟨h₁, h₂, hEq⟩ := SqLedger.pushAll_cons q entry entries hRoom
    obtain ⟨s₁, hRun, hs₁, hOnly₁⟩ := run_pushUnchecked results h entry h₁
    obtain ⟨s₂, hRest, hs₂, hOnly₂⟩ := ih hs₁ h₂
    refine ⟨s₂, ?_, ?_, hOnly₁.trans hOnly₂⟩
    · rw [Squeue.pushAll, run_bind_of hRun]
      exact hRest
    · rw [hEq]
      exact hs₂

/-- What a push of one or of several entries answers. -/
def pushReply (ok : Bool) : Except Squeue.PushError Unit := if ok then .ok () else .error .mk

theorem run_push (h : SqRefines ring s q) (entry : S) :
    ∃ s', run (ringSem results) (Squeue.push ring.sq entry) s =
        some (pushReply (q.offer [entry]).1, s') ∧
      SqRefines ring s' (q.offer [entry]).2 ∧ OnlySq s s' := by
  have hLen := q.len_le
  have hFull : run (ringSem results) (Squeue.isFull ring.sq) s =
      some (q.len == Squeue.capacity ring.sq, s) := by
    rw [Squeue.isFull, run_bind_of (run_sqLen results h)]
    rfl
  by_cases hRoom : [entry].length ≤ Squeue.capacity ring.sq - q.len
  · obtain ⟨s', hRun, hs', hOnly⟩ := run_pushUnchecked results h entry hRoom
    rw [SqLedger.offer, dif_pos hRoom]
    refine ⟨s', ?_, hs', hOnly⟩
    have hNe : (q.len == Squeue.capacity ring.sq) = false := by
      rw [List.length_singleton] at hRoom
      simp only [beq_eq_false_iff_ne]
      omega
    rw [Squeue.push, run_bind_of hFull, hNe]
    simp only [Bool.not_false, if_true]
    rw [run_bind_of hRun]
    rfl
  · rw [SqLedger.offer, dif_neg hRoom]
    refine ⟨s, ?_, h, OnlySq.refl s⟩
    have hEq : (q.len == Squeue.capacity ring.sq) = true := by
      rw [List.length_singleton] at hRoom
      simp only [beq_iff_eq]
      omega
    rw [Squeue.push, run_bind_of hFull, hEq]
    rfl

theorem run_pushMultiple (h : SqRefines ring s q) (entries : List S) :
    ∃ s', run (ringSem results) (Squeue.pushMultiple ring.sq entries) s =
        some (pushReply (q.offer entries).1, s') ∧
      SqRefines ring s' (q.offer entries).2 ∧ OnlySq s s' := by
  have hLen := q.len_le
  rw [Squeue.pushMultiple, run_bind_of (run_sqLen results h), if_neg (by omega)]
  by_cases hRoom : entries.length ≤ Squeue.capacity ring.sq - q.len
  · obtain ⟨s', hRun, hs', hOnly⟩ := run_pushAll results entries h hRoom
    rw [SqLedger.offer, dif_pos hRoom, if_neg (by omega)]
    refine ⟨s', ?_, hs', hOnly⟩
    rw [run_bind_of hRun]
    rfl
  · rw [SqLedger.offer, dif_neg hRoom, if_pos (by omega)]
    exact ⟨s, rfl, h, OnlySq.refl s⟩

end Sq

/-! ## The completion queue -/

section Cq

variable {q : CqLedger IoUringCqe (Cqueue.capacity ring.cq)}

theorem run_cqBorrow (h : CqRefines ring s q) (hReleased : q.released = q.delivered) :
    ∃ s', run (ringSem results) (Cqueue.borrow ring.cq) s = some ((), s') ∧
      CqRefines ring s' q.refresh ∧ OnlyCq s s' := by
  refine ⟨_, rfl, ?_, ?_⟩
  · exact {
      head := by simpa using h.head
      tail := by simpa using h.tail
      localHead := by simpa [hReleased] using h.head
      localTail := by simpa using h.tail
      overflow := by simpa using h.overflow
      sqFlags := by simpa using h.sqFlags
      length := h.length
      holds := h.holds
      posts := h.posts }
  · simp [OnlyCq, sqPart, threadPart]

theorem run_cqSync (h : CqRefines ring s q) :
    ∃ s', run (ringSem results) Cqueue.sync s = some ((), s') ∧
      CqRefines ring s' q.release.refresh ∧ OnlyCq s s' := by
  refine ⟨_, rfl, ?_, ?_⟩
  · exact {
      head := by simpa using h.localHead
      tail := by simpa using h.tail
      localHead := by simpa using h.localHead
      localTail := by simpa using h.tail
      overflow := by simpa using h.overflow
      sqFlags := by simpa using h.sqFlags
      length := h.length
      holds := h.holds
      posts := h.posts }
  · simp [OnlyCq, sqPart, threadPart]

theorem run_cqDrop (h : CqRefines ring s q) :
    ∃ s', run (ringSem results) Cqueue.drop s = some ((), s') ∧
      CqRefines ring s' q.release ∧ OnlyCq s s' := by
  refine ⟨_, rfl, ?_, ?_⟩
  · exact {
      head := by simpa using h.localHead
      tail := by simpa using h.tail
      localHead := by simpa using h.localHead
      localTail := by simpa using h.localTail
      overflow := by simpa using h.overflow
      sqFlags := by simpa using h.sqFlags
      length := h.length
      holds := h.holds
      posts := h.posts }
  · simp [OnlyCq, sqPart, threadPart]

theorem run_cqLen (h : CqRefines ring s q) :
    run (ringSem results) Cqueue.len s = some (q.len, s) := by
  have hLen := q.len_le
  have hCap : Cqueue.capacity ring.cq < 2 ^ 32 := UInt32.toNat_lt _
  simp only [Cqueue.len, run_load_bind, h.localHead, h.localTail, pure_eq, run_ret]
  rw [toNat_ofNat_sub q.delivered_le (by unfold CqLedger.len at hLen; omega), CqLedger.len]

omit [Squeue.EntryMarker S] [Cqueue.EntryMarker C] in
/-- A queue that is not empty has slots. -/
theorem CqRefines.masks (ring : IoUring S C) (h : 0 < Cqueue.capacity ring.cq) :
    Masks ring.cq.ringMask (Cqueue.capacity ring.cq) := by
  refine ring.cq_masks fun hZero => ?_
  rw [Cqueue.capacity, hZero] at h
  exact absurd h (by decide)

theorem run_pop (h : CqRefines ring s q) (hLen : 1 ≤ q.len) :
    ∃ e s', run (ringSem results) (Cqueue.pop ring.cq) s = some (e, s') ∧
      q.unread.take 1 = [Cqueue.EntryMarker.cqe e] ∧
      CqRefines ring s' (q.deliver 1 hLen) ∧ OnlyCq s s' := by
  have hSeen := q.seen_le
  have hLt : q.delivered < q.posted.length := by
    unfold CqLedger.len at hLen
    change _ < (postedOf q.attempts).length
    omega
  have hGet := h.holds.get hLt
  rw [List.getElem?_map, List.getElem?_eq_getElem hLt] at hGet
  obtain ⟨e, he, hCqe⟩ := Option.map_eq_some_iff.mp hGet
  rw [slot, ← h.localHead] at he
  refine ⟨e, _, (run_load_bind _ _ _).trans ((run_store_bind _ _ _ _).trans (run_readCqe _ he)),
    ?_, ?_, ?_⟩
  · rw [CqLedger.unread, List.drop_eq_getElem_cons hLt, hCqe]
    rfl
  · exact {
      head := by simpa using h.head
      tail := by simpa using h.tail
      localHead := by simp [h.localHead, CqLedger.deliver, UInt32.ofNat_add]
      localTail := by simpa using h.localTail
      overflow := by simpa using h.overflow
      sqFlags := by simpa using h.sqFlags
      length := by simpa using h.length
      holds := by simpa using h.holds.advance (n := 1) hLt
      posts := by simpa using h.posts }
  · simp [OnlyCq, sqPart, threadPart]

theorem CqLedger.deliver_succ {β : Type} {cap : Nat} (q : CqLedger β cap) {n : Nat}
    (h : n + 1 ≤ q.len) :
    ∃ h₁ h₂, q.deliver (n + 1) h = (q.deliver 1 h₁).deliver n h₂ ∧
      q.unread.take (n + 1) = q.unread.take 1 ++ (q.deliver 1 h₁).unread.take n := by
  refine ⟨by omega, ?_, ?_, ?_⟩
  · simp only [CqLedger.len, CqLedger.deliver] at h ⊢
    omega
  · simp [CqLedger.deliver, Nat.add_assoc, Nat.add_comm 1 n]
  · rw [Nat.add_comm n 1, List.take_add]
    simp [CqLedger.unread, CqLedger.deliver, CqLedger.posted, List.drop_drop]

theorem run_popMany {n : Nat} (h : CqRefines ring s q) (hLen : n ≤ q.len) :
    ∃ es s', run (ringSem results) (Cqueue.popMany ring.cq n) s = some (es, s') ∧
      es.map Cqueue.EntryMarker.cqe = q.unread.take n ∧
      CqRefines ring s' (q.deliver n hLen) ∧ OnlyCq s s' := by
  induction n generalizing s q with
  | zero =>
    refine ⟨[], s, rfl, by simp, ?_, OnlyCq.refl s⟩
    simpa [CqLedger.deliver] using h
  | succ n ih =>
    obtain ⟨h₁, h₂, hEq, hTake⟩ := CqLedger.deliver_succ q hLen
    obtain ⟨e, s₁, hRun, he, hs₁, hOnly₁⟩ := run_pop results h h₁
    obtain ⟨es, s₂, hRest, hes, hs₂, hOnly₂⟩ := ih hs₁ h₂
    refine ⟨e :: es, s₂, ?_, ?_, ?_, hOnly₁.trans hOnly₂⟩
    · rw [Cqueue.popMany, run_bind_of hRun, run_bind_of hRest]
      rfl
    · rw [List.map_cons, hes, hTake, he]
      rfl
    · rw [hEq]
      exact hs₂

theorem run_next (h : CqRefines ring s q) :
    ∃ e s', run (ringSem results) (Cqueue.next ring.cq) s = some (e, s') ∧
      e.map Cqueue.EntryMarker.cqe = (q.take 1).1.head? ∧
      CqRefines ring s' (q.take 1).2 ∧ OnlyCq s s' := by
  have hLe := q.delivered_le
  have hLen := q.len_le
  have hCap : Cqueue.capacity ring.cq < 2 ^ 32 := UInt32.toNat_lt _
  by_cases hEmpty : q.len = 0
  · have hTake : q.take 1 = ([], q) := by simp [CqLedger.take, hEmpty, CqLedger.deliver]
    have hEq : s.cells .cqLocalHead = s.cells .cqLocalTail := by
      rw [h.localHead, h.localTail]
      unfold CqLedger.len at hEmpty
      congr 1
      omega
    rw [hTake]
    refine ⟨none, s, ?_, rfl, h, OnlyCq.refl s⟩
    simp only [Cqueue.next, run_load_bind, hEq, ne_eq, not_true_eq_false, if_false, pure_eq,
      run_ret]
  · have hMin : min q.len 1 = 1 := by omega
    have hNe : s.cells .cqLocalHead ≠ s.cells .cqLocalTail := by
      intro hEq
      rw [h.localHead, h.localTail] at hEq
      have hSub := toNat_ofNat_sub hLe (by unfold CqLedger.len at hLen; omega)
      rw [hEq, UInt32.sub_self, UInt32.toNat_zero] at hSub
      unfold CqLedger.len at hEmpty
      omega
    obtain ⟨e, s', hRun, he, hs', hOnly⟩ :=
      run_pop results h (by omega : 1 ≤ q.len)
    refine ⟨some e, s', ?_, ?_, ?_, hOnly⟩
    · simp only [Cqueue.next, run_load_bind, hNe, ne_eq, not_false_eq_true, if_true]
      rw [run_bind_of hRun]
      rfl
    · simp [CqLedger.take, hMin, he]
    · simpa only [CqLedger.take, hMin] using hs'

theorem run_fill (h : CqRefines ring s q) (n : Nat) :
    ∃ es s', run (ringSem results) (Cqueue.fill ring.cq n) s = some (es, s') ∧
      es.map Cqueue.EntryMarker.cqe = (q.take n).1 ∧
      CqRefines ring s' (q.take n).2 ∧ OnlyCq s s' := by
  obtain ⟨es, s', hRun, hes, hs', hOnly⟩ :=
    run_popMany results h (Nat.min_le_left q.len n)
  refine ⟨es, s', ?_, hes, hs', hOnly⟩
  rw [Cqueue.fill, run_bind_of (run_cqLen results h)]
  exact hRun

end Cq

end Miring.Stream
