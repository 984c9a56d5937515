import Miring.Program.Similar
import Miring.Ring.Layout
import Miring.Stream.Completion

/-!
# Rings of the four entry sizes

`Submitter` does not know the types of the entries: it works with byte offsets and strides.
Two rings of equal sizes, whatever their entry types are, therefore behave in the same way.
`SameMem` relates their memories, slot by slot through the part that the submitter reads or
writes; every call is `Similar` on both (`similar_call`), and so is every run
(`runCalls_similar`).
-/

namespace Miring.Stream

open Sys Miring.Ring Dispatch Program

variable {S C S' C' : Type} [Squeue.EntryMarker S] [Cqueue.EntryMarker C]
  [Squeue.EntryMarker S'] [Cqueue.EntryMarker C'] [Cqueue.Layout C] [Cqueue.Layout C']

/-! ## Corresponding memories -/

/-- The same completion, and nothing behind it. -/
structure SameCqe (e : C) (e' : C') : Prop where
  cqe : Cqueue.EntryMarker.cqe e = Cqueue.EntryMarker.cqe e'
  left : ExtraZero e
  right : ExtraZero e'

structure SameMem (s : RingMem S C) (s' : RingMem S' C') : Prop where
  cells : s.cells = s'.cells
  sqes : s.sqes.map Squeue.EntryMarker.sqe = s'.sqes.map Squeue.EntryMarker.sqe
  cqes : List.Forall₂ SameCqe s.cqes s'.cqes
  threads : s.threads = s'.threads
  pending : s.pending = s'.pending
  posts : s.posts = s'.posts

/-- Programs on the two rings. -/
abbrev Sim {α α' : Type} (results : Nat → List CompletionData) (Q : α → α' → Prop)
    (p : RingProgram S C α) (p' : RingProgram S' C' α') : Prop :=
  Similar (ringSem results) (ringSem results) SameMem Q p p'

variable {results : Nat → List CompletionData}

/-! ## Actions on both memories -/

omit [Cqueue.Layout C] in
theorem run_action (o : RingOp S C) (s : RingMem S C) :
    run (ringSem results) (.act o .ret : RingProgram S C _) s = ringSem results o s :=
  run_perform (S := ringSig S C) o s

section Actions

theorem SameMem.setCell {s : RingMem S C} {s' : RingMem S' C'} (h : SameMem s s') (c : Cell)
    (v : UInt32) : SameMem (s.setCell c v) (s'.setCell c v) :=
  { h with cells := by rw [RingMem.setCell, RingMem.setCell, h.cells] }

theorem similar_load (c : Cell) :
    Sim results Eq (load c : RingProgram S C _) (load c : RingProgram S' C' _) := by
  intro s s' h
  exact .some ⟨congrFun h.cells c, h⟩

theorem similar_store (c : Cell) (v : UInt32) :
    Sim results Eq (store c v : RingProgram S C _) (store c v : RingProgram S' C' _) := by
  intro s s' h
  exact .some ⟨rfl, h.setCell c v⟩

theorem similar_fetchAdd (c : Cell) (v : UInt32) :
    Sim results Eq (fetchAdd c v : RingProgram S C _) (fetchAdd c v : RingProgram S' C' _) := by
  intro s s' h
  refine .some ⟨congrFun h.cells c, ?_⟩
  rw [h.cells]
  exact h.setCell c _

theorem similar_fetchOr (c : Cell) (v : UInt32) :
    Sim results Eq (fetchOr c v : RingProgram S C _) (fetchOr c v : RingProgram S' C' _) := by
  intro s s' h
  refine .some ⟨congrFun h.cells c, ?_⟩
  rw [h.cells]
  exact h.setCell c _

theorem similar_spawn (sqes : List IoUringSqe) :
    Sim results Eq (spawn sqes : RingProgram S C _) (spawn sqes : RingProgram S' C' _) := by
  intro s s' h
  refine .some ⟨congrArg List.length h.threads, ?_⟩
  exact { h with threads := by rw [h.threads] }

theorem similar_pushPending (handle : Nat) :
    Sim results Eq (pushPending handle : RingProgram S C _)
      (pushPending handle : RingProgram S' C' _) := by
  intro s s' h
  exact .some ⟨rfl, { h with pending := by rw [h.pending] }⟩

theorem similar_drainPending :
    Sim results Eq (drainPending : RingProgram S C _) (drainPending : RingProgram S' C' _) := by
  intro s s' h
  exact .some ⟨h.pending, { h with pending := rfl }⟩

theorem similar_notePost (post : Post) :
    Sim results Eq (notePost post : RingProgram S C _) (notePost post : RingProgram S' C' _) := by
  intro s s' h
  exact .some ⟨rfl, { h with posts := by rw [h.posts] }⟩

theorem similar_overflowPanic {α α' : Type} {Q : α → α' → Prop} :
    Sim results Q (overflowPanic : RingProgram S C α) (overflowPanic : RingProgram S' C' α') := by
  intro s s' h
  exact .none

theorem similar_join (handle : Nat) :
    Sim results Eq (join handle : RingProgram S C _) (join handle : RingProgram S' C' _) := by
  intro s s' h
  have hThreads : s.threads.length = s'.threads.length := congrArg List.length h.threads
  have hRun : ∀ {T D : Type} [Squeue.EntryMarker T] [Cqueue.EntryMarker D] (s : RingMem T D),
      run (ringSem results) (join handle) s =
        if handle < s.threads.length then some (results handle, s) else none := by
    intro T D _ _ s
    exact run_action (.join handle) s
  by_cases hHandle : handle < s.threads.length
  · refine Ends.of_some ((hRun s).trans (if_pos hHandle))
      ((hRun s').trans (if_pos (hThreads ▸ hHandle))) rfl h
  · exact Ends.of_none ((hRun s).trans (if_neg hHandle))
      ((hRun s').trans (if_neg (hThreads ▸ hHandle)))

end Actions

/-! ## Accesses to slots -/

section Slots

/-- The submitter reads the same bytes on both sides, at different offsets. -/
theorem similar_readSqe (i : Nat) :
    Sim results Eq (readSqe (i * Squeue.EntryMarker.size S) : RingProgram S C _)
      (readSqe (i * Squeue.EntryMarker.size S') : RingProgram S' C' _) := by
  intro s s' h
  have hNone : ∀ {T D : Type} [Squeue.EntryMarker T] [Cqueue.EntryMarker D] (s : RingMem T D),
      s.sqes.length ≤ i →
        run (ringSem results) (readSqe (i * Squeue.EntryMarker.size T)) s = none := by
    intro T D _ _ s hi
    refine (run_action (.readSqe _) s).trans ?_
    rw [ringSem, slotAt_mul_of_le Squeue.EntryMarker.size_pos hi]
    rfl
  have hLength : s.sqes.length = s'.sqes.length := by
    rw [← List.length_map Squeue.EntryMarker.sqe, h.sqes, List.length_map]
  rcases Nat.lt_or_ge i s.sqes.length with hi | hi
  · have he := List.getElem?_eq_getElem hi
    have he' := List.getElem?_eq_getElem (hLength ▸ hi : i < s'.sqes.length)
    refine Ends.of_some ((run_action (.readSqe _) s).trans (ringSem_readSqe he))
      ((run_action (.readSqe _) s').trans (ringSem_readSqe he')) ?_ ?_
    · have hMap := congrArg (fun xs => xs[i]?) h.sqes
      simp only [List.getElem?_map, he, he', Option.map_some, Option.some.injEq] at hMap
      exact hMap
    · exact { h with }
  · exact Ends.of_none (hNone s hi) (hNone s' (hLength ▸ hi))

theorem similar_writeSqe (index : Nat) {entry : S} {entry' : S'}
    (hEntry : Squeue.EntryMarker.sqe entry = Squeue.EntryMarker.sqe entry') :
    Sim results Eq (writeSqe index entry : RingProgram S C _)
      (writeSqe index entry' : RingProgram S' C' _) := by
  intro s s' h
  have hLength : s.sqes.length = s'.sqes.length := by
    rw [← List.length_map Squeue.EntryMarker.sqe, h.sqes, List.length_map]
  by_cases hi : index < s.sqes.length
  · refine Ends.of_some ((run_action (.writeSqe _ _) s).trans (ringSem_writeSqe hi entry))
      ((run_action (.writeSqe _ _) s').trans (ringSem_writeSqe (hLength ▸ hi) entry'))
      rfl ?_
    exact { h with sqes := by rw [List.map_set, List.map_set, h.sqes, hEntry] }
  · refine Ends.of_none ((run_action (.writeSqe _ _) s).trans (if_neg hi))
      ((run_action (.writeSqe _ _) s').trans (if_neg (hLength ▸ hi)))

/-- The client reads the slots through their types. -/
theorem similar_readCqe (index : Nat) :
    Sim results SameCqe (readCqe index : RingProgram S C _)
      (readCqe index : RingProgram S' C' _) := by
  intro s s' h
  have hLength := h.cqes.length_eq
  by_cases hi : index < s.cqes.length
  · refine Ends.of_some
      ((run_action (.readCqe _) s).trans (ringSem_readCqe (List.getElem?_eq_getElem hi)))
      ((run_action (.readCqe _) s').trans
        (ringSem_readCqe (List.getElem?_eq_getElem (hLength ▸ hi)))) ?_ ?_
    · exact h.cqes.get hi (hLength ▸ hi)
    · exact { h with }
  · have hNone : ∀ {T D : Type} [Squeue.EntryMarker T] [Cqueue.EntryMarker D] (s : RingMem T D),
        ¬ index < s.cqes.length → run (ringSem results) (readCqe index) s = none := by
      intro T D _ _ s hi
      refine (run_action (.readCqe _) s).trans ?_
      rw [ringSem, List.getElem?_eq_none (Nat.le_of_not_lt hi)]
      rfl
    exact Ends.of_none (hNone s hi) (hNone s' (hLength ▸ hi))

/-- The stores of `post_cqe` to one slot. -/
def storeSlot (i : Nat) (cqe : IoUringCqe) : RingProgram S C Unit := do
  writeCqe (i * Cqueue.EntryMarker.size C) cqe
  if Cqueue.EntryMarker.size C > 16 then zeroExtra (i * Cqueue.EntryMarker.size C) else pure ()

/-- What they leave in it. -/
def written (cqe : IoUringCqe) (e : C) : C :=
  if Cqueue.EntryMarker.size C > 16 then
    Cqueue.EntryMarker.zeroExtra (Cqueue.EntryMarker.writeCqe cqe e)
  else Cqueue.EntryMarker.writeCqe cqe e

omit [Cqueue.Layout C] in
theorem run_storeSlot {s : RingMem S C} {i : Nat} (hi : i < s.cqes.length) (cqe : IoUringCqe) :
    run (ringSem results) (storeSlot i cqe) s =
      some ((), { s with
        cqes := s.cqes.modify i (written cqe)
        cqeWrites := s.cqeWrites ++ [cqe] }) := by
  rw [storeSlot, run_writeCqe_bind s hi]
  by_cases hSize : Cqueue.EntryMarker.size C > 16
  · rw [if_pos hSize]
    refine (run_action (.zeroExtra _) _).trans ?_
    rw [ringSem_zeroExtra (by simpa using hi) hSize, List.modify_modify_eq]
    have hWritten : written (C := C) cqe =
        Cqueue.EntryMarker.zeroExtra ∘ Cqueue.EntryMarker.writeCqe cqe :=
      funext fun e => if_pos hSize
    rw [hWritten]
  · have hWritten : written (C := C) cqe = Cqueue.EntryMarker.writeCqe cqe :=
      funext fun e => if_neg hSize
    rw [if_neg hSize, hWritten]
    rfl

omit [Cqueue.Layout C] in
theorem run_storeSlot_of_le {s : RingMem S C} {i : Nat} (hi : s.cqes.length ≤ i)
    (cqe : IoUringCqe) : run (ringSem results) (storeSlot i cqe) s = none := by
  have hWrite : ringSem results (.writeCqe (i * Cqueue.EntryMarker.size C) cqe) s = none := by
    rw [ringSem, slotAt_mul_of_le Cqueue.EntryMarker.size_pos hi]
    rfl
  change (ringSem results (.writeCqe (i * Cqueue.EntryMarker.size C) cqe) s).bind _ = none
  rw [hWrite]
  rfl

theorem extraZero_written {e : C} (h : ExtraZero e) (cqe : IoUringCqe) :
    ExtraZero (written cqe e) := by
  unfold written
  split
  · next hSize => exact (h.writeCqe cqe).zeroExtra hSize
  · exact h.writeCqe cqe

omit [Cqueue.Layout C] in
theorem cqe_written (cqe : IoUringCqe) (e : C) : Cqueue.EntryMarker.cqe (written cqe e) = cqe := by
  unfold written
  split <;> simp

theorem forall₂_modify {α β : Type} {R : α → β → Prop} {f : α → α} {g : β → β} {xs : List α}
    {ys : List β} (h : List.Forall₂ R xs ys) (hf : ∀ x y, R x y → R (f x) (g y)) (i : Nat) :
    List.Forall₂ R (xs.modify i f) (ys.modify i g) := by
  induction h generalizing i with
  | nil => cases i <;> exact .nil
  | cons hHead hTail ih =>
    cases i with
    | zero => exact .cons (hf _ _ hHead) hTail
    | succ i => exact .cons hHead (ih i)

theorem similar_storeSlot (i : Nat) (cqe : IoUringCqe) :
    Sim results Eq (storeSlot i cqe : RingProgram S C _)
      (storeSlot i cqe : RingProgram S' C' _) := by
  intro s s' h
  have hLength := h.cqes.length_eq
  rcases Nat.lt_or_ge i s.cqes.length with hi | hi
  · refine Ends.of_some (run_storeSlot hi cqe) (run_storeSlot (hLength ▸ hi) cqe) rfl ?_
    refine { h with cqes := forall₂_modify h.cqes ?_ i }
    intro e e' he
    exact ⟨(cqe_written cqe e).trans (cqe_written cqe e').symm, extraZero_written he.left cqe,
      extraZero_written he.right cqe⟩
  · exact Ends.of_none (run_storeSlot_of_le hi cqe) (run_storeSlot_of_le (hLength ▸ hi) cqe)

end Slots

/-! ## The submission queue -/

section Squeue

variable {sq : Squeue.Inner}

theorem similar_sqBorrow :
    Sim results Eq (Squeue.borrow sq : RingProgram S C _)
      (Squeue.borrow sq : RingProgram S' C' _) :=
  (similar_load _).bind_eq fun _ => (similar_store _ _).bind_eq fun _ =>
    (similar_load _).bind_eq fun _ => similar_store _ _

theorem similar_sqSync :
    Sim results Eq (Squeue.sync : RingProgram S C _) (Squeue.sync : RingProgram S' C' _) :=
  (similar_load _).bind_eq fun _ => (similar_store _ _).bind_eq fun _ =>
    (similar_load _).bind_eq fun _ => similar_store _ _

theorem similar_sqDrop :
    Sim results Eq (Squeue.drop : RingProgram S C _) (Squeue.drop : RingProgram S' C' _) :=
  (similar_load _).bind_eq fun _ => similar_store _ _

theorem similar_sqLen :
    Sim results Eq (Squeue.len : RingProgram S C _) (Squeue.len : RingProgram S' C' _) :=
  (similar_load _).bind_eq fun _ => (similar_load _).bind_eq fun _ => .ret rfl

theorem similar_sqIsFull :
    Sim results Eq (Squeue.isFull sq : RingProgram S C _)
      (Squeue.isFull sq : RingProgram S' C' _) :=
  similar_sqLen.bind_eq fun _ => .ret rfl

theorem similar_pushUnchecked {entry : S} {entry' : S'}
    (hEntry : Squeue.EntryMarker.sqe entry = Squeue.EntryMarker.sqe entry') :
    Sim results Eq (Squeue.pushUnchecked sq entry : RingProgram S C _)
      (Squeue.pushUnchecked sq entry' : RingProgram S' C' _) :=
  (similar_load _).bind_eq fun _ => (similar_writeSqe _ hEntry).bind_eq fun _ =>
    similar_store _ _

theorem similar_push {entry : S} {entry' : S'}
    (hEntry : Squeue.EntryMarker.sqe entry = Squeue.EntryMarker.sqe entry') :
    Sim results Eq (Squeue.push sq entry : RingProgram S C _)
      (Squeue.push sq entry' : RingProgram S' C' _) := by
  refine similar_sqIsFull.bind_eq fun full => Similar.ite (fun _ => ?_) fun _ => .ret rfl
  exact (similar_pushUnchecked hEntry).bind_eq fun _ => .ret rfl

theorem similar_pushAll {entries : List S} {entries' : List S'}
    (h : entries.map Squeue.EntryMarker.sqe = entries'.map Squeue.EntryMarker.sqe) :
    Sim results Eq (Squeue.pushAll sq entries : RingProgram S C _)
      (Squeue.pushAll sq entries' : RingProgram S' C' _) := by
  induction entries generalizing entries' with
  | nil =>
    cases entries' with
    | nil => exact .ret rfl
    | cons entry' entries' => cases h
  | cons entry entries ih =>
    cases entries' with
    | nil => cases h
    | cons entry' entries' =>
      obtain ⟨hEntry, hRest⟩ := List.cons.inj h
      exact (similar_pushUnchecked hEntry).bind_eq fun _ => ih hRest

theorem similar_pushMultiple {entries : List S} {entries' : List S'}
    (h : entries.map Squeue.EntryMarker.sqe = entries'.map Squeue.EntryMarker.sqe) :
    Sim results Eq (Squeue.pushMultiple sq entries : RingProgram S C _)
      (Squeue.pushMultiple sq entries' : RingProgram S' C' _) := by
  have hLength : entries.length = entries'.length := by
    rw [← List.length_map Squeue.EntryMarker.sqe, h, List.length_map]
  refine similar_sqLen.bind_eq fun len => ?_
  rw [hLength]
  refine Similar.ite (fun _ => similar_overflowPanic) fun _ => ?_
  refine Similar.ite (fun _ => .ret rfl) fun _ => ?_
  exact (similar_pushAll h).bind_eq fun _ => .ret rfl

end Squeue

/-! ## The completion queue -/

section Cqueue

variable {cq : Cqueue.Inner}

theorem similar_cqBorrow :
    Sim results Eq (Cqueue.borrow cq : RingProgram S C _)
      (Cqueue.borrow cq : RingProgram S' C' _) :=
  (similar_load _).bind_eq fun _ => (similar_store _ _).bind_eq fun _ =>
    (similar_load _).bind_eq fun _ => similar_store _ _

theorem similar_cqSync :
    Sim results Eq (Cqueue.sync : RingProgram S C _) (Cqueue.sync : RingProgram S' C' _) :=
  (similar_load _).bind_eq fun _ => (similar_store _ _).bind_eq fun _ =>
    (similar_load _).bind_eq fun _ => similar_store _ _

theorem similar_cqDrop :
    Sim results Eq (Cqueue.drop : RingProgram S C _) (Cqueue.drop : RingProgram S' C' _) :=
  (similar_load _).bind_eq fun _ => similar_store _ _

theorem similar_cqLen :
    Sim results Eq (Cqueue.len : RingProgram S C _) (Cqueue.len : RingProgram S' C' _) :=
  (similar_load _).bind_eq fun _ => (similar_load _).bind_eq fun _ => .ret rfl

theorem similar_pop :
    Sim results SameCqe (Cqueue.pop cq : RingProgram S C _)
      (Cqueue.pop cq : RingProgram S' C' _) :=
  (similar_load _).bind_eq fun _ => (similar_store _ _).bind_eq fun _ => similar_readCqe _

theorem similar_next :
    Sim results (Option.Rel SameCqe) (Cqueue.next cq : RingProgram S C _)
      (Cqueue.next cq : RingProgram S' C' _) := by
  refine (similar_load _).bind_eq fun head => (similar_load _).bind_eq fun tail => ?_
  refine Similar.ite (fun _ => ?_) fun _ => .ret .none
  exact similar_pop.bind fun _ _ he => .ret (.some he)

theorem similar_popMany (n : Nat) :
    Sim results (List.Forall₂ SameCqe) (Cqueue.popMany cq n : RingProgram S C _)
      (Cqueue.popMany cq n : RingProgram S' C' _) := by
  induction n with
  | zero => exact .ret .nil
  | succ n ih => exact similar_pop.bind fun _ _ he => ih.bind fun _ _ hes => .ret (.cons he hes)

theorem similar_fill (n : Nat) :
    Sim results (List.Forall₂ SameCqe) (Cqueue.fill cq n : RingProgram S C _)
      (Cqueue.fill cq n : RingProgram S' C' _) :=
  similar_cqLen.bind_eq fun _ => similar_popMany _

end Cqueue

/-! ## The submitter -/

section Submitter

variable {ring : IoUring S C} {ring' : IoUring S' C'}

/-- Queues of the same sizes. -/
structure SameSizes (ring : IoUring S C) (ring' : IoUring S' C') : Prop where
  sq : ring.sq = ring'.sq
  cq : ring.cq = ring'.cq

open Submitter

theorem similar_submitterLen :
    Sim results Eq (sqLen : RingProgram S C _) (sqLen : RingProgram S' C' _) :=
  (similar_load _).bind_eq fun _ => (similar_load _).bind_eq fun _ => .ret rfl

theorem similar_snapshot (h : SameSizes ring ring') (sqHead : UInt32) (n : Nat) :
    Sim results Eq (snapshot ring.submitter sqHead n : RingProgram S C _)
      (snapshot ring'.submitter sqHead n : RingProgram S' C' _) := by
  induction n generalizing sqHead with
  | zero => exact .ret rfl
  | succ n ih =>
    have hMask : ring.submitter.sqRingMask = ring'.submitter.sqRingMask :=
      congrArg Squeue.Inner.ringMask h.sq
    rw [snapshot, snapshot, hMask]
    exact (similar_readSqe _).bind_eq fun _ => (ih _).bind_eq fun _ => .ret rfl

theorem similar_enqueueSqes (h : SameSizes ring ring') (toSubmit : UInt32) :
    Sim results Eq (enqueueSqes ring.submitter toSubmit : RingProgram S C _)
      (enqueueSqes ring'.submitter toSubmit : RingProgram S' C' _) := by
  refine (similar_load _).bind_eq fun sqHead => (similar_load _).bind_eq fun sqTail => ?_
  refine Similar.ite (fun _ => .ret rfl) fun _ => ?_
  refine (similar_snapshot h _ _).bind_eq fun snap => (similar_store _ _).bind_eq fun _ => ?_
  exact (similar_spawn _).bind_eq fun _ => (similar_pushPending _).bind_eq fun _ => .ret rfl

theorem similar_postCqe (h : SameSizes ring ring') (userData : UInt64) (res : Int32)
    (flags : UInt32) :
    Sim results Eq (postCqe ring.submitter userData res flags : RingProgram S C _)
      (postCqe ring'.submitter userData res flags : RingProgram S' C' _) := by
  have hEntries : ring.submitter.cqRingEntries = ring'.submitter.cqRingEntries :=
    congrArg Cqueue.Inner.ringEntries h.cq
  have hMask : ring.submitter.cqRingMask = ring'.submitter.cqRingMask :=
    congrArg Cqueue.Inner.ringMask h.cq
  refine (similar_load _).bind_eq fun cqTail => (similar_load _).bind_eq fun cqHead => ?_
  refine (similar_notePost _).bind_eq fun _ => ?_
  rw [hEntries, hMask]
  refine Similar.ite (fun _ => ?_) fun _ => ?_
  · refine (similar_fetchAdd _ _).bind_eq fun prev => ?_
    refine Similar.ite (fun _ => ?_) fun _ => .ret rfl
    exact (similar_fetchOr _ _).map fun _ _ _ => rfl
  · exact (similar_storeSlot _ ⟨userData, res, flags⟩).bind_eq fun _ => similar_store _ _

theorem similar_postResults (h : SameSizes ring ring') (cds : List CompletionData) :
    Sim results Eq (postResults ring.submitter cds : RingProgram S C _)
      (postResults ring'.submitter cds : RingProgram S' C' _) := by
  induction cds with
  | nil => exact .ret rfl
  | cons cd cds ih =>
    refine Similar.bind_eq ?_ fun _ => ih
    exact Similar.ite (fun _ => similar_postCqe h _ _ _) fun _ => .ret rfl

theorem similar_joinAll (h : SameSizes ring ring') (handles : List Nat) :
    Sim results Eq (joinAll ring.submitter handles : RingProgram S C _)
      (joinAll ring'.submitter handles : RingProgram S' C' _) := by
  induction handles with
  | nil => exact .ret rfl
  | cons handle handles ih =>
    refine (similar_join _).bind_eq fun cds => ?_
    exact (similar_postResults h cds).bind_eq fun _ => ih

theorem similar_flushPending (h : SameSizes ring ring') :
    Sim results Eq (flushPending ring.submitter : RingProgram S C _)
      (flushPending ring'.submitter : RingProgram S' C' _) :=
  similar_drainPending.bind_eq fun _ => similar_joinAll h _

/-- What follows the submission in all submitting calls. -/
theorem similar_flushIf (h : SameSizes ring ring') (c : Prop) [Decidable c] (n : Nat) :
    Sim results Eq
      ((if c then flushPending ring.submitter else pure ()) >>= fun _ => pure n :
        RingProgram S C _)
      ((if c then flushPending ring'.submitter else pure ()) >>= fun _ => pure n :
        RingProgram S' C' _) := by
  refine Similar.bind_eq ?_ fun _ => .ret rfl
  exact Similar.ite (fun _ => similar_flushPending h) fun _ => .ret rfl

theorem similar_enter (h : SameSizes ring ring') (toSubmit minComplete : UInt32) :
    Sim results Eq (enter ring.submitter toSubmit minComplete : RingProgram S C _)
      (enter ring'.submitter toSubmit minComplete : RingProgram S' C' _) :=
  (similar_enqueueSqes h _).bind_eq fun _ => similar_flushIf h _ _

theorem similar_submitAndWait (h : SameSizes ring ring') (want : Nat) :
    Sim results Eq (submitAndWait ring.submitter want : RingProgram S C _)
      (submitAndWait ring'.submitter want : RingProgram S' C' _) :=
  similar_submitterLen.bind_eq fun _ => (similar_enqueueSqes h _).bind_eq fun _ =>
    similar_flushIf h _ _

theorem similar_submitWithArgs (h : SameSizes ring ring') (want : Nat) :
    Sim results Eq (submitWithArgs ring.submitter want : RingProgram S C _)
      (submitWithArgs ring'.submitter want : RingProgram S' C' _) :=
  similar_submitterLen.bind_eq fun _ => (similar_enqueueSqes h _).bind_eq fun _ =>
    similar_flushIf h _ _

end Submitter

/-! ## Calls -/

section Calls

/-- The same call with other entries. -/
def Call.mapEntry {T T' : Type} (f : T → T') : Call T → Call T'
  | .submission => .submission
  | .push entry => .push (f entry)
  | .pushMultiple entries => .pushMultiple (entries.map f)
  | .sqSync => .sqSync
  | .sqDrop => .sqDrop
  | .submit => .submit
  | .submitAndWait want => .submitAndWait want
  | .submitWithArgs want => .submitWithArgs want
  | .enter toSubmit minComplete => .enter toSubmit minComplete
  | .completion => .completion
  | .next => .next
  | .fill n => .fill n
  | .cqSync => .cqSync
  | .cqDrop => .cqDrop
  | .split => .split
  | .query q => .query q

/-- Calls that agree in the first 64 bytes of every entry. -/
def SameCall (call : Call S) (call' : Call S') : Prop :=
  Call.mapEntry Squeue.EntryMarker.sqe call = Call.mapEntry Squeue.EntryMarker.sqe call'

/-- Replies that agree in the first 16 bytes of every entry; behind these there are zeros. -/
inductive SameReply : Reply C → Reply C' → Prop where
  | unit : SameReply .unit .unit
  | pushed (r : Except Squeue.PushError Unit) : SameReply (.pushed r) (.pushed r)
  | count (n : Nat) : SameReply (.count n) (.count n)
  | entry {e : Option C} {e' : Option C'} (h : Option.Rel SameCqe e e') :
      SameReply (.entry e) (.entry e')
  | entries {es : List C} {es' : List C'} (h : List.Forall₂ SameCqe es es') :
      SameReply (.entries es) (.entries es')
  | number (n : Nat) : SameReply (.number n) (.number n)
  | flag (b : Bool) : SameReply (.flag b) (.flag b)

variable {ring : IoUring S C} {ring' : IoUring S' C'}

/-- Programs with corresponding replies. -/
abbrev SimReply (results : Nat → List CompletionData) (p : RingProgram S C (Reply C))
    (p' : RingProgram S' C' (Reply C')) : Prop :=
  Sim results SameReply p p'

theorem similar_flag {p : RingProgram S C Bool} {p' : RingProgram S' C' Bool}
    (h : Sim results Eq p p') : SimReply results (Reply.flag <$> p) (Reply.flag <$> p') := by
  refine h.map ?_
  rintro b b' rfl
  exact .flag b

theorem similar_number {α : Type} {p : RingProgram S C α} {p' : RingProgram S' C' α}
    (f : α → Nat) (h : Sim results Eq p p') :
    SimReply results ((fun a => Reply.number (f a)) <$> p)
      ((fun a => Reply.number (f a)) <$> p') := by
  refine h.map ?_
  rintro a a' rfl
  exact .number (f a)

theorem similar_unit {p : RingProgram S C Unit} {p' : RingProgram S' C' Unit}
    (h : Sim results Eq p p') :
    SimReply results ((fun _ => Reply.unit) <$> p) ((fun _ => Reply.unit) <$> p') :=
  h.map fun _ _ _ => .unit

theorem similar_count {p : RingProgram S C Nat} {p' : RingProgram S' C' Nat}
    (h : Sim results Eq p p') : SimReply results (Reply.count <$> p) (Reply.count <$> p') := by
  refine h.map ?_
  rintro n n' rfl
  exact .count n

theorem similar_pushed {p : RingProgram S C (Except Squeue.PushError Unit)}
    {p' : RingProgram S' C' (Except Squeue.PushError Unit)} (h : Sim results Eq p p') :
    SimReply results (Reply.pushed <$> p) (Reply.pushed <$> p') := by
  refine h.map ?_
  rintro r r' rfl
  exact .pushed r

theorem similar_query (h : SameSizes ring ring') (q : Query) :
    SimReply results (q.program ring) (q.program ring') := by
  have hSqCap : Squeue.capacity ring.sq = Squeue.capacity ring'.sq := congrArg _ h.sq
  have hCqCap : Cqueue.capacity ring.cq = Cqueue.capacity ring'.cq := congrArg _ h.cq
  cases q with
  | sqLen => exact similar_number id similar_sqLen
  | sqIsEmpty => exact similar_flag (similar_sqLen.bind_eq fun _ => .ret rfl)
  | sqIsFull =>
    rw [Query.program, Query.program, h.sq]
    exact similar_flag similar_sqIsFull
  | sqCapacity =>
    rw [Query.program, Query.program, hSqCap]
    exact .ret (.number _)
  | sqNeedWakeup => exact similar_flag ((similar_load _).bind_eq fun _ => .ret rfl)
  | sqDropped => exact similar_number UInt32.toNat (similar_load _)
  | sqCqOverflow => exact similar_flag ((similar_load _).bind_eq fun _ => .ret rfl)
  | sqTaskrun => exact similar_flag ((similar_load _).bind_eq fun _ => .ret rfl)
  | cqLen => exact similar_number id similar_cqLen
  | cqIsEmpty => exact similar_flag (similar_cqLen.bind_eq fun _ => .ret rfl)
  | cqIsFull =>
    rw [Query.program, Query.program, h.cq]
    exact similar_flag (similar_cqLen.bind_eq fun _ => .ret rfl)
  | cqCapacity =>
    rw [Query.program, Query.program, hCqCap]
    exact .ret (.number _)
  | cqOverflow => exact similar_number UInt32.toNat (similar_load _)
  | cqEventfdDisabled => exact similar_flag ((similar_load _).bind_eq fun _ => .ret rfl)

theorem similar_completion (h : SameSizes ring ring') :
    Sim results Eq ring.completion ring'.completion := by
  refine (similar_flushPending h).bind_eq fun _ => ?_
  rw [h.cq]
  exact similar_cqBorrow

theorem similar_split (h : SameSizes ring ring') : Sim results Eq ring.split ring'.split := by
  refine (similar_flushPending h).bind_eq fun _ => ?_
  rw [h.sq, h.cq]
  exact similar_sqBorrow.bind_eq fun _ => similar_cqBorrow

/-- **One call.** -/
theorem similar_call (h : SameSizes ring ring') {call : Call S} {call' : Call S'}
    (hCall : SameCall call call') :
    SimReply results (call.program ring) (call'.program ring') := by
  cases call <;> cases call' <;> try cases hCall
  case submission.submission =>
    refine similar_unit ?_
    rw [IoUring.submission, IoUring.submission, h.sq]
    exact similar_sqBorrow
  case push.push entry entry' =>
    refine similar_pushed ?_
    rw [h.sq]
    exact similar_push (Call.push.inj hCall)
  case pushMultiple.pushMultiple entries entries' =>
    refine similar_pushed ?_
    rw [h.sq]
    exact similar_pushMultiple (Call.pushMultiple.inj hCall)
  case sqSync.sqSync => exact similar_unit similar_sqSync
  case sqDrop.sqDrop => exact similar_unit similar_sqDrop
  case submit.submit => exact similar_count (similar_submitAndWait h 0)
  case submitAndWait.submitAndWait => exact similar_count (similar_submitAndWait h _)
  case submitWithArgs.submitWithArgs => exact similar_count (similar_submitWithArgs h _)
  case enter.enter => exact similar_count (similar_enter h _ _)
  case completion.completion => exact similar_unit (similar_completion h)
  case next.next =>
    rw [Call.program, Call.program, h.cq]
    exact similar_next.map fun _ _ he => .entry he
  case fill.fill =>
    rw [Call.program, Call.program, h.cq]
    exact (similar_fill _).map fun _ _ hes => .entries hes
  case cqSync.cqSync => exact similar_unit similar_cqSync
  case cqDrop.cqDrop => exact similar_unit similar_cqDrop
  case split.split => exact similar_unit (similar_split h)
  case query.query => exact similar_query h _

end Calls

omit [Cqueue.EntryMarker C] [Cqueue.EntryMarker C'] [Cqueue.Layout C] [Cqueue.Layout C'] in
/-- A tail may be added to every entry. -/
theorem sameCall_mapEntry {f : S → S'}
    (hf : ∀ e, Squeue.EntryMarker.sqe e = Squeue.EntryMarker.sqe (f e)) (call : Call S) :
    SameCall call (Call.mapEntry f call) := by
  cases call with
  | push entry => exact congrArg Call.push (hf entry)
  | pushMultiple entries =>
    refine congrArg Call.pushMultiple ?_
    rw [List.map_map]
    exact List.map_congr_left fun e _ => hf e
  | _ => rfl

/-! ## Runs -/

section Runs

variable {ring : IoUring S C} {ring' : IoUring S' C'} {c : Client S C} {c' : Client S' C'}

structure SameClient (c : Client S C) (c' : Client S' C') : Prop where
  mem : SameMem c.mem c'.mem
  handles : c.handles = c'.handles
  history : List.Forall₂ (fun x x' => SameCall x.1 x'.1 ∧ SameReply x.2 x'.2) c.history c'.history

omit [Cqueue.EntryMarker C] [Cqueue.EntryMarker C'] [Cqueue.Layout C] [Cqueue.Layout C'] in
theorem handles_of_sameCall {call : Call S} {call' : Call S'} (h : SameCall call call')
    (hs : Handles) : call.handles hs = call'.handles hs := by
  cases call <;> cases call' <;> first | rfl | cases h
  rfl

theorem step_similar (hSizes : SameSizes ring ring') (h : SameClient c c') {call : Call S}
    {call' : Call S'} (hCall : SameCall call call') {c₁ : Client S C}
    (hStep : c.step ring results call = some c₁) :
    ∃ c₁', c'.step ring' results call' = some c₁' ∧ SameClient c₁ c₁' := by
  obtain ⟨hs, hHandles, hMap⟩ := Option.bind_eq_some_iff.mp hStep
  obtain ⟨⟨r, s⟩, hRun, rfl⟩ := Option.map_eq_some_iff.mp hMap
  obtain ⟨r', s', hRun', hReply, hMem⟩ := (similar_call hSizes hCall).run_eq_some h.mem hRun
  have hHandles' : call'.handles c'.handles = some hs := by
    rw [← h.handles, ← handles_of_sameCall hCall]
    exact hHandles
  refine ⟨⟨s', hs, c'.history ++ [(call', r')]⟩, ?_, hMem, rfl, ?_⟩
  · rw [Client.step, hHandles', Option.bind_some, hRun', Option.map_some]
  · exact List.rel_append h.history (.cons ⟨hCall, hReply⟩ .nil)

/-- **Runs.** What is defined on the one ring is defined on the other. -/
theorem runCalls_similar (hSizes : SameSizes ring ring') (h : SameClient c c')
    {calls : List (Call S)} {calls' : List (Call S')} (hCalls : List.Forall₂ SameCall calls calls')
    {c₁ : Client S C} (hRun : c.runCalls ring results calls = some c₁) :
    ∃ c₁', c'.runCalls ring' results calls' = some c₁' ∧ SameClient c₁ c₁' := by
  induction hCalls generalizing c c' with
  | nil =>
    obtain rfl := Option.some.inj hRun
    exact ⟨c', rfl, h⟩
  | cons hCall hRest ih =>
    obtain ⟨c₂, hStep, hTail⟩ := Option.bind_eq_some_iff.mp hRun
    obtain ⟨c₂', hStep', h₂⟩ := step_similar hSizes h hCall hStep
    obtain ⟨c₁', hRun', h₁⟩ := ih h₂ hTail
    refine ⟨c₁', ?_, h₁⟩
    rw [Client.runCalls, hStep']
    exact hRun'

end Runs

/-! ## Statement -/

/-- A built instance. -/
structure Instance (S C : Type) [Squeue.EntryMarker S] [Cqueue.EntryMarker C] where
  builder : Builder S C
  overflowChecks : Bool
  entries : UInt32
  ring : IoUring S C
  mem : RingMem S C
  built : builder.build overflowChecks entries = some (.ok (ring, mem))

namespace Instance

/-- Calls on a new instance. -/
def run (r : Instance S C) (results : Nat → List CompletionData) (calls : List (Call S)) :
    Option (Client S C) :=
  (Client.start r.mem).runCalls r.ring results calls

/-- The instance that `build` returns. -/
def ofBuilt (b : Builder S C) (overflowChecks : Bool) (entries : UInt32)
    (h : (b.built overflowChecks entries).isSome) : Instance S C where
  builder := b
  overflowChecks := overflowChecks
  entries := entries
  ring := ((b.built overflowChecks entries).get h).1
  mem := ((b.built overflowChecks entries).get h).2
  built := Builder.build_of_built h

structure EqualSizes (r : Instance S C) (r' : Instance S' C') : Prop where
  sq : r.ring.sq.ringEntries = r'.ring.sq.ringEntries
  cq : r.ring.cq.ringEntries = r'.ring.cq.ringEntries

/-- Every access of the submitter to a slot, in any call of the run. -/
def SlotAccesses [Squeue.Layout S] (r : Instance S C)
    (results : Nat → List CompletionData) (calls : List (Call S)) : Prop :=
  ∀ before call behind c o t v t', calls = before ++ call :: behind →
    r.run results before = some c →
    Performs (ringSem results) (call.program r.ring) c.mem o t v t' → SlotBytes o t v t'

end Instance

/-- A history without the parts that depend on the entry types. -/
def plainHistory (history : List (Call S × Reply C)) :
    List (Call IoUringSqe × Reply IoUringCqe) :=
  history.map fun x =>
    (Call.mapEntry Squeue.EntryMarker.sqe x.1, x.2.map Cqueue.EntryMarker.cqe)

/-- Two clients that made the same calls cannot tell their instances apart. -/
structure SameRun (c : Client S C) (c' : Client S' C') : Prop where
  /-- the counts, the completions, and what the queries told, the overflow among it -/
  history : plainHistory c.history = plainHistory c'.history
  cells : c.mem.cells = c'.mem.cells
  /-- the dispatch threads have the same batches -/
  threads : c.mem.threads = c'.mem.threads
  posts : c.mem.posts = c'.mem.posts

section Result

theorem reply_map_eq {r : Reply C} {r' : Reply C'} (h : SameReply r r') :
    r.map Cqueue.EntryMarker.cqe = r'.map Cqueue.EntryMarker.cqe := by
  cases h with
  | entry h =>
    cases h with
    | none => rfl
    | some he => rw [Reply.map, Reply.map, Option.map_some, Option.map_some, he.cqe]
  | entries h =>
    rw [Reply.map, Reply.map]
    refine congrArg Reply.entries ?_
    induction h with
    | nil => rfl
    | cons he hes ih => rw [List.map_cons, List.map_cons, he.cqe, ih]
  | _ => rfl

theorem plainHistory_eq {history : List (Call S × Reply C)} {history' : List (Call S' × Reply C')}
    (h : List.Forall₂ (fun x x' => SameCall x.1 x'.1 ∧ SameReply x.2 x'.2) history history') :
    plainHistory history = plainHistory history' := by
  induction h with
  | nil => rfl
  | cons hHead hTail ih =>
    simp only [plainHistory, List.map_cons] at ih ⊢
    rw [ih, reply_map_eq hHead.2, hHead.1]

theorem extraZero_of_forall₂ {es : List C} {es' : List C'} (h : List.Forall₂ SameCqe es es') :
    ∀ e ∈ es', ExtraZero e := by
  induction h with
  | nil => exact fun e he => nomatch he
  | cons hSame hSames ih => exact List.forall_mem_cons.mpr ⟨hSame.right, ih⟩

omit [Squeue.EntryMarker S'] in
theorem extraZero_of_reply {call' : Call S'} {r : Reply C} {r' : Reply C'}
    (h : SameReply r r') : ∀ e ∈ poppedBy (call', r'), ExtraZero e := by
  cases h with
  | entry h =>
    cases h with
    | none => exact fun e he => nomatch he
    | some hSame =>
      intro e he
      obtain rfl := List.mem_singleton.mp he
      exact hSame.right
  | entries h => exact extraZero_of_forall₂ h
  | _ => exact fun e he => nomatch he

/-- Everything that was delivered ends with zeros. -/
theorem extraZero_of_delivered {history : List (Call S × Reply C)}
    {history' : List (Call S' × Reply C')}
    (h : List.Forall₂ (fun x x' => SameCall x.1 x'.1 ∧ SameReply x.2 x'.2) history history') :
    ∀ e ∈ deliveredIn history', ExtraZero e := by
  induction h with
  | nil => exact fun e he => nomatch he
  | cons hHead hTail ih =>
    intro e he
    rw [deliveredIn, List.flatMap_cons] at he
    rcases List.mem_append.mp he with hHere | hRest
    · exact extraZero_of_reply hHead.2 e hHere
    · exact ih e hRest

theorem sameRun_of_sameClient {c : Client S C} {c' : Client S' C'} (h : SameClient c c') :
    SameRun c c' where
  history := plainHistory_eq h.history
  cells := h.mem.cells
  threads := h.mem.threads
  posts := h.mem.posts

variable [Squeue.Layout S] [Squeue.Layout S']

theorem forall₂_replicate {α β : Type} {R : α → β → Prop} {x : α} {y : β} (h : R x y) (n : Nat) :
    List.Forall₂ R (List.replicate n x) (List.replicate n y) := by
  induction n with
  | zero => exact .nil
  | succ n ih => exact .cons h ih

namespace Instance

variable {r : Instance S C} {r' : Instance S' C'}

omit [Cqueue.Layout C] [Cqueue.Layout C'] [Squeue.Layout S] [Squeue.Layout S'] in
theorem EqualSizes.sameSizes (h : EqualSizes r r') : SameSizes r.ring r'.ring := by
  obtain ⟨hSq, hCq⟩ := Builder.build_inner r.built
  obtain ⟨hSq', hCq'⟩ := Builder.build_inner r'.built
  constructor
  · rw [hSq, hSq', h.sq]
  · rw [hCq, hCq', h.cq]

theorem EqualSizes.start (h : EqualSizes r r') :
    SameClient (Client.start r.mem) (Client.start r'.mem) := by
  have hMem := (Builder.build_ok r.built).1
  have hMem' := (Builder.build_ok r'.built).1
  refine ⟨?_, rfl, .nil⟩
  rw [Client.start, Client.start, hMem, hMem', ← h.sq, ← h.cq]
  have hZeroed : SameCqe (Cqueue.EntryMarker.zeroed : C) (Cqueue.EntryMarker.zeroed : C') :=
    ⟨Cqueue.Layout.cqe_zeroed.trans Cqueue.Layout.cqe_zeroed.symm, extraZero_zeroed,
      extraZero_zeroed⟩
  exact {
    cells := rfl
    sqes := by
      rw [Builder.initialMem, Builder.initialMem, List.map_replicate, List.map_replicate,
        Squeue.Layout.sqe_zeroed, Squeue.Layout.sqe_zeroed]
    cqes := forall₂_replicate hZeroed _
    threads := rfl
    pending := rfl
    posts := rfl }

omit [Cqueue.Layout C] [Squeue.Layout S] in
/-- Calls that are allowed are defined. -/
theorem exists_run (r : Instance S C) (results : Nat → List CompletionData) {calls : List (Call S)}
    {hs : Handles} (hAllowed : handlesAfter .none calls = some hs) :
    ∃ c, r.run results calls = some c := by
  obtain ⟨c, hRun, -⟩ := runCalls_refines results (start_refines r.builder r.built) calls hAllowed
  exact ⟨c, hRun⟩

/-- Two instances of equal sizes. -/
theorem run_similar (h : EqualSizes r r') {calls : List (Call S)} {calls' : List (Call S')}
    (hCalls : List.Forall₂ SameCall calls calls') {c : Client S C}
    (hRun : r.run results calls = some c) :
    ∃ c', r'.run results calls' = some c' ∧ SameRun c c' ∧
      ∀ e ∈ deliveredIn c'.history, ExtraZero e := by
  obtain ⟨c', hRun', hSame⟩ := runCalls_similar h.sameSizes h.start hCalls hRun
  exact ⟨c', hRun', sameRun_of_sameClient hSame, extraZero_of_delivered hSame.history⟩

theorem slotAccesses (r : Instance S C) (results : Nat → List CompletionData)
    (calls : List (Call S)) : r.SlotAccesses results calls := by
  intro before call behind c o t v t' hCalls hRun hPerforms
  exact slotBytes_of_ringSem hPerforms.sem_eq

end Instance

end Result

/-- **All entry sizes.** Four instances of equal sizes, one for each pair of entry types, and
the same calls with entries that agree in their first 64 bytes: whatever the dispatch threads
return, the clients see the same, the second half of every completion is zero, and no access
of a submitter leaves its slot. -/
theorem entrySizes_agree {r₁ : Instance Squeue.Entry Cqueue.Entry}
    {r₂ : Instance Squeue.Entry128 Cqueue.Entry} {r₃ : Instance Squeue.Entry Cqueue.Entry32}
    {r₄ : Instance Squeue.Entry128 Cqueue.Entry32} (h₂ : r₁.EqualSizes r₂)
    (h₃ : r₁.EqualSizes r₃) (h₄ : r₁.EqualSizes r₄) {calls : List (Call Squeue.Entry)}
    {calls₂ calls₄ : List (Call Squeue.Entry128)}
    (hCalls₂ : List.Forall₂ SameCall calls calls₂) (hCalls₄ : List.Forall₂ SameCall calls calls₄)
    {hs : Handles} (hAllowed : handlesAfter .none calls = some hs)
    (results : Nat → List CompletionData) :
    ∃ c₁ c₂ c₃ c₄, (r₁.run results calls = some c₁ ∧ r₂.run results calls₂ = some c₂ ∧
        r₃.run results calls = some c₃ ∧ r₄.run results calls₄ = some c₄) ∧
      (SameRun c₁ c₂ ∧ SameRun c₁ c₃ ∧ SameRun c₁ c₄) ∧
      ((∀ e ∈ deliveredIn c₃.history, e.bigCqe = (0, 0)) ∧
        ∀ e ∈ deliveredIn c₄.history, e.bigCqe = (0, 0)) ∧
      r₁.SlotAccesses results calls ∧ r₂.SlotAccesses results calls₂ ∧
      r₃.SlotAccesses results calls ∧ r₄.SlotAccesses results calls₄ := by
  obtain ⟨c₁, hRun₁⟩ := r₁.exists_run results hAllowed
  have hCalls₃ : List.Forall₂ SameCall calls calls := List.forall₂_same.mpr fun _ _ => rfl
  obtain ⟨c₂, hRun₂, hSame₂, -⟩ := Instance.run_similar h₂ hCalls₂ hRun₁
  obtain ⟨c₃, hRun₃, hSame₃, hZero₃⟩ := Instance.run_similar h₃ hCalls₃ hRun₁
  obtain ⟨c₄, hRun₄, hSame₄, hZero₄⟩ := Instance.run_similar h₄ hCalls₄ hRun₁
  refine ⟨c₁, c₂, c₃, c₄, ⟨hRun₁, hRun₂, hRun₃, hRun₄⟩, ⟨hSame₂, hSame₃, hSame₄⟩, ⟨?_, ?_⟩,
    r₁.slotAccesses _ _, r₂.slotAccesses _ _, r₃.slotAccesses _ _, r₄.slotAccesses _ _⟩
  · exact fun e he => bigCqe_of_extraZero (hZero₃ e he)
  · exact fun e he => bigCqe_of_extraZero (hZero₄ e he)

/-! ## A request on the four instances -/

def smallEntry : Instance Squeue.Entry Cqueue.Entry :=
  .ofBuilt .default true 1 smallRing_built

def smallEntry128 : Instance Squeue.Entry128 Cqueue.Entry :=
  .ofBuilt .default true 1 (by decide +kernel)

def smallEntry32 : Instance Squeue.Entry Cqueue.Entry32 :=
  .ofBuilt .default true 1 (by decide +kernel)

def smallBoth : Instance Squeue.Entry128 Cqueue.Entry32 :=
  .ofBuilt .default true 1 (by decide +kernel)

def oneCompletion : List (Call Squeue.Entry) := submitOne 7 ++ [.completion, .next]

/-- The same calls, with a tail of ones. -/
def oneCompletion128 : List (Call Squeue.Entry128) :=
  oneCompletion.map (Call.mapEntry fun e => ⟨e, Vector.replicate 64 1⟩)

theorem entrySizes_agree_nop :
    ∃ c₁ c₂ c₃ c₄,
      (smallEntry.run (nopAnswers [[(nop 7).sqe]]) oneCompletion = some c₁ ∧
        smallEntry128.run (nopAnswers [[(nop 7).sqe]]) oneCompletion128 = some c₂ ∧
        smallEntry32.run (nopAnswers [[(nop 7).sqe]]) oneCompletion = some c₃ ∧
        smallBoth.run (nopAnswers [[(nop 7).sqe]]) oneCompletion128 = some c₄) ∧
      (SameRun c₁ c₂ ∧ SameRun c₁ c₃ ∧ SameRun c₁ c₄) ∧
      ((∀ e ∈ deliveredIn c₃.history, e.bigCqe = (0, 0)) ∧
        ∀ e ∈ deliveredIn c₄.history, e.bigCqe = (0, 0)) ∧
      smallEntry.SlotAccesses (nopAnswers [[(nop 7).sqe]]) oneCompletion ∧
      smallEntry128.SlotAccesses (nopAnswers [[(nop 7).sqe]]) oneCompletion128 ∧
      smallEntry32.SlotAccesses (nopAnswers [[(nop 7).sqe]]) oneCompletion ∧
      smallBoth.SlotAccesses (nopAnswers [[(nop 7).sqe]]) oneCompletion128 := by
  have hCalls : List.Forall₂ SameCall oneCompletion oneCompletion128 := by
    rw [oneCompletion128, List.forall₂_map_right_iff, List.forall₂_same]
    intro call _
    apply sameCall_mapEntry
    exact fun _ => rfl
  have hAllowed : handlesAfter .none oneCompletion = some ⟨false, true⟩ := rfl
  exact entrySizes_agree ⟨by decide +kernel, by decide +kernel⟩
    ⟨by decide +kernel, by decide +kernel⟩ ⟨by decide +kernel, by decide +kernel⟩ hCalls hCalls
    hAllowed _

end Miring.Stream
