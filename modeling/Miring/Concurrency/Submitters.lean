import Miring.Stream.Completion

/-!
# Two threads that submit at once

`IoUring` is `Sync` and `submit` takes `&self`, so two threads may submit on one ring. But
`enqueue_sqes` loads the head, copies the entries and stores the advanced head without any
protection in between. If both threads load the head before one of them has stored it, both
take every entry.

`concurrent_submits_iff` says exactly when the entries are consumed once: the queue is empty,
or in the schedule one thread stores the head before the other one loads it in
`enqueue_sqes`. For a queue of `n` entries the store is action `n + 5` of a thread and the
load is its third one.
-/

namespace Miring.Concurrency

open Sys Miring.Ring Dispatch Program Submitter

variable {S C : Type} [Squeue.EntryMarker S] [Cqueue.EntryMarker C]

/-! ## Statement -/

/-- The number of queued entries. -/
def queuedLen (s : RingMem S C) : Nat := dist (s.cells .sqHead) (s.cells .sqTail)

/-- The queued requests. -/
def queuedSqes (ring : IoUring S C) (s : RingMem S C) : List IoUringSqe :=
  ((window s.sqes ring.sq.ringMask (s.cells .sqHead) (queuedLen s)).filterMap id).map
    Squeue.EntryMarker.sqe

/-- Two threads that call `submit` on the same ring. -/
def submitters (ring : IoUring S C) (s : RingMem S C) : Pool Bool (ringSig S C) (RingMem S C) Nat :=
  ⟨fun _ => ring.submit, s⟩

/-- Both calls have returned, and between them they have consumed every queued request once. -/
structure ConsumedOnce (ring : IoUring S C) (s : RingMem S C)
    (P : Pool Bool (ringSig S C) (RingMem S C) Nat) : Prop where
  counts : ∃ m n, P.result? false = some m ∧ P.result? true = some n ∧ m + n = queuedLen s
  head : P.state.cells .sqHead = s.cells .sqTail
  tail : P.state.cells .sqTail = s.cells .sqTail
  batches : ∃ batches, P.state.threads = s.threads ++ batches ∧
    batches.flatten.Perm (queuedSqes ring s)

/-- In a schedule of two threads, one has performed its head store before the other one
performs the head load of its `enqueue_sqes`. -/
def Serialized (n : Nat) (sched : List Bool) : Prop :=
  ∃ i start, start <+: sched ∧ n + 5 ≤ start.count i ∧ start.count (!i) ≤ 2

/-! ## One call of `submit`, action by action -/

section Programs

variable (ring : IoUring S C)

/-- `enqueue_sqes` behind the head store. -/
def spawning (sqes : List IoUringSqe) (n : Nat) : RingProgram S C Nat :=
  .act (.spawn sqes) fun handle => .act (.pushPending handle) fun _ => .ret n

/-- `enqueue_sqes` behind the loop that copies the entries. -/
def storing (sqes : List IoUringSqe) (n : Nat) (sqHead : UInt32) : RingProgram S C Nat :=
  .act (.store .sqHead sqHead) fun _ => spawning sqes n

/-- `enqueue_sqes` inside the loop: `sqes` are copied, `n` are left. -/
def copying (sqes : List IoUringSqe) (total : Nat) (sqHead : UInt32) (n : Nat) :
    RingProgram S C Nat :=
  snapshot ring.submitter sqHead n >>= fun rest => storing (sqes ++ rest.1) total rest.2

/-- `enqueue_sqes` behind its two loads. -/
def takeBatch (sqHead toProcess : UInt32) : RingProgram S C Nat :=
  if toProcess = 0 then .ret 0 else copying ring [] toProcess.toNat sqHead toProcess.toNat

/-- `enqueue_sqes` behind the load of the head. -/
def loadingTail (len sqHead : UInt32) : RingProgram S C Nat :=
  .act (.load .sqTail) fun sqTail => takeBatch ring sqHead (min len (sqTail - sqHead))

/-- `submit` behind its first load. -/
def measuring (head : UInt32) : RingProgram S C Nat :=
  .act (.load .sqTail) fun tail => enqueueSqes ring.submitter (tail - head)

theorem enqueueSqes_eq (len : UInt32) :
    (enqueueSqes ring.submitter len : RingProgram S C Nat) =
      .act (.load .sqHead) fun sqHead => loadingTail ring len sqHead := rfl

theorem submit_eq :
    ring.submit = (.act (.load .sqHead) fun head => measuring ring head : RingProgram S C Nat) := by
  have hTail : ∀ len : UInt32, ((enqueueSqes ring.submitter len : RingProgram S C Nat) >>=
      fun submitted => pure submitted) = enqueueSqes ring.submitter len := fun len => bind_ret _
  have hLen : ∀ head tail : UInt32, UInt32.ofNat (tail - head).toNat = tail - head :=
    fun head tail => UInt32.ofNat_toNat
  simp only [IoUring.submit, Submitter.submit, submitAndWait, sqLen, measuring, load, act_bind,
    ret_bind, pure_eq, hLen, gt_iff_lt, Nat.lt_irrefl, if_false]
  simp only [pure_eq] at hTail
  simp only [hTail]

theorem takeBatch_zero (sqHead : UInt32) : takeBatch ring sqHead 0 = .ret 0 := rfl

theorem takeBatch_of_ne (sqHead : UInt32) {toProcess : UInt32} (h : toProcess ≠ 0) :
    takeBatch ring sqHead toProcess =
      copying ring [] toProcess.toNat sqHead toProcess.toNat := if_neg h

theorem copying_zero (sqes : List IoUringSqe) (total : Nat) (sqHead : UInt32) :
    copying ring sqes total sqHead 0 = storing sqes total sqHead := by
  rw [copying, snapshot, pure_eq, ret_bind, List.append_nil]

theorem copying_succ (sqes : List IoUringSqe) (total : Nat) (sqHead : UInt32) (n : Nat) :
    copying ring sqes total sqHead (n + 1) =
      .act (.readSqe (slot ring.sq.ringMask sqHead * Squeue.EntryMarker.size S)) fun sqe =>
        copying ring (sqes ++ [sqe]) total (sqHead + 1) n := by
  simp only [copying, snapshot, readSqe, act_bind, ret_bind, bind_assoc, pure_eq]
  congr 1
  funext sqe
  congr 1
  funext rest
  rw [List.append_assoc, List.singleton_append]

end Programs

/-! ## How far a thread is -/

/-- Before its second load of the head; behind it, having found nothing; behind it, having
found the whole queue. Each with the number of actions performed. -/
inductive Phase where
  | early (k : Nat)
  | late (k : Nat)
  | fresh (k : Nat)

namespace Phase

def steps : Phase → Nat
  | early k | late k | fresh k => k

/-- The thread has stored the head of a queue of `n` entries. -/
def stored (n : Nat) : Phase → Bool
  | fresh k => decide (n + 5 ≤ k)
  | _ => false

/-- The number of dispatch threads that it has spawned. -/
def spawned (n : Nat) : Phase → Nat
  | fresh k => if n + 6 ≤ k then 1 else 0
  | _ => 0

end Phase

section Phases

variable (ring : IoUring S C) (s₀ : RingMem S C)

/-- The program that is left of a call of `submit` in a phase. The state that both calls
started in is `s₀`, and `head` is the head now. -/
inductive At (head : UInt32) : Phase → RingProgram S C Nat → Prop where
  | start : At head (.early 0) ring.submit
  | measuring {h : UInt32} (hh : head = s₀.cells .sqHead → h = s₀.cells .sqHead) :
      At head (.early 1) (measuring ring h)
  | measured {len : UInt32}
      (hLen : head = s₀.cells .sqHead → len = s₀.cells .sqTail - s₀.cells .sqHead) :
      At head (.early 2) (enqueueSqes ring.submitter len)
  | lateTail {len : UInt32} : At head (.late 3) (loadingTail ring len (s₀.cells .sqTail))
  | lateDone : At head (.late 4) (.ret 0)
  | freshTail (hne : s₀.cells .sqHead ≠ s₀.cells .sqTail) :
      At head (.fresh 3) (loadingTail ring (s₀.cells .sqTail - s₀.cells .sqHead)
        (s₀.cells .sqHead))
  | copying {j : Nat} (hj : j ≤ queuedLen s₀) :
      At head (.fresh (4 + j)) (copying ring ((queuedSqes ring s₀).take j) (queuedLen s₀)
        (s₀.cells .sqHead + UInt32.ofNat j) (queuedLen s₀ - j))
  | spawning :
      At head (.fresh (queuedLen s₀ + 5)) (spawning (queuedSqes ring s₀) (queuedLen s₀))
  | pushing {handle : Nat} :
      At head (.fresh (queuedLen s₀ + 6)) (.act (.pushPending handle) fun _ => .ret (queuedLen s₀))
  | freshDone : At head (.fresh (queuedLen s₀ + 7)) (.ret (queuedLen s₀))

/-- The phase behind the next action. The third one decides: it loads the head, which is the
tail once the other thread has stored it. -/
inductive Next (head : UInt32) : Phase → Phase → Prop where
  | early {k : Nat} (hk : k < 2) : Next head (.early k) (.early (k + 1))
  | late (hHead : head = s₀.cells .sqTail) : Next head (.early 2) (.late 3)
  | fresh (hHead : head ≠ s₀.cells .sqTail) : Next head (.early 2) (.fresh 3)
  | lateTail : Next head (.late 3) (.late 4)
  | freshNext {k : Nat} (hk : 3 ≤ k) : Next head (.fresh k) (.fresh (k + 1))

/-- What an action that leads to a phase does to the ring. -/
structure Effect (s : RingMem S C) (ph : Phase) (s' : RingMem S C) : Prop where
  tail : s'.cells .sqTail = s.cells .sqTail
  sqes : s'.sqes = s.sqes
  head : s'.cells .sqHead =
    if ph.stored (queuedLen s₀) && ph.steps == queuedLen s₀ + 5 then s₀.cells .sqTail
    else s.cells .sqHead
  threads : s'.threads = s.threads ++
    if ph.spawned (queuedLen s₀) = 1 ∧ ph.steps = queuedLen s₀ + 6 then [queuedSqes ring s₀]
    else []

end Phases

section Step

variable {ring : IoUring S C} {s₀ s s' : RingMem S C} {results : Nat → List CompletionData}

omit [Cqueue.EntryMarker C] in
theorem queuedSqes_length (hSlots : s₀.sqes.length = Squeue.capacity ring.sq) :
    (queuedSqes ring s₀).length = queuedLen s₀ := by
  have hWindow := congrArg List.length
    (window_eq_map ring.sq_masks hSlots (s₀.cells .sqHead) (queuedLen s₀))
  rw [window_length, List.length_map] at hWindow
  rw [queuedSqes, List.length_map]
  exact hWindow.symm

omit [Cqueue.EntryMarker C] in
/-- The slot of the next request holds it. -/
theorem slot_queued (hSlots : s₀.sqes.length = Squeue.capacity ring.sq) {j : Nat}
    (hj : j < queuedLen s₀) :
    ∃ e, s₀.sqes[slot ring.sq.ringMask (s₀.cells .sqHead + UInt32.ofNat j)]? = some e ∧
      (queuedSqes ring s₀)[j]? = some (Squeue.EntryMarker.sqe e) := by
  have hWindow := congrArg (fun xs => xs[j]?)
    (window_eq_map ring.sq_masks hSlots (s₀.cells .sqHead) (queuedLen s₀))
  simp only [List.getElem?_map] at hWindow
  have hLeft : (window s₀.sqes ring.sq.ringMask (s₀.cells .sqHead) (queuedLen s₀))[j]? =
      some s₀.sqes[slot ring.sq.ringMask (s₀.cells .sqHead + UInt32.ofNat j)]? := by
    rw [window, List.getElem?_map, List.getElem?_range hj, Option.map_some]
  rw [hLeft] at hWindow
  obtain ⟨e, he, hSlot⟩ := Option.map_eq_some_iff.mp hWindow.symm
  refine ⟨e, hSlot.symm, ?_⟩
  rw [queuedSqes, List.getElem?_map, he, Option.map_some]

omit [Cqueue.EntryMarker C] in
/-- An action that is neither the head store nor the start of a dispatch thread. -/
theorem Effect.silent {ph : Phase} (hHead : s'.cells .sqHead = s.cells .sqHead)
    (hTail : s'.cells .sqTail = s.cells .sqTail) (hSqes : s'.sqes = s.sqes)
    (hThreads : s'.threads = s.threads)
    (hPhase : ∀ k, ph = .fresh k → k ≠ queuedLen s₀ + 5 ∧ k ≠ queuedLen s₀ + 6) :
    Effect ring s₀ s ph s' := by
  refine ⟨hTail, hSqes, ?_, ?_⟩
  · rw [hHead, if_neg]
    cases ph with
    | fresh k =>
      have hk := (hPhase k rfl).1
      simp only [Phase.stored, Phase.steps, Bool.and_eq_true, decide_eq_true_eq, beq_iff_eq]
      omega
    | _ => simp [Phase.stored]
  · rw [hThreads, if_neg, List.append_nil]
    cases ph with
    | fresh k =>
      have hk := (hPhase k rfl).2
      simp only [Phase.steps]
      omega
    | _ => simp [Phase.spawned]

/-- **One action** of a thread. -/
theorem At.step (hSlots : s₀.sqes.length = Squeue.capacity ring.sq) {ph : Phase}
    {o : RingOp S C} {k : RingOp.Res o → RingProgram S C Nat} {r : RingOp.Res o}
    (h : At ring s₀ (s.cells .sqHead) ph (.act o k)) (hsem : ringSem results o s = some (r, s'))
    (hTail : s.cells .sqTail = s₀.cells .sqTail) (hSqes : s.sqes = s₀.sqes)
    (hHead : s.cells .sqHead = s₀.cells .sqHead ∨ s.cells .sqHead = s₀.cells .sqTail) :
    ∃ ph', Next s₀ (s.cells .sqHead) ph ph' ∧ At ring s₀ (s'.cells .sqHead) ph' (k r) ∧
      Effect ring s₀ s ph' s' := by
  generalize hp : (Program.act o k : RingProgram S C Nat) = p at h
  cases h with
  | start =>
    rw [submit_eq] at hp
    cases hp
    cases hsem
    exact ⟨.early 1, .early (by omega), .measuring id, .silent rfl rfl rfl rfl nofun⟩
  | measuring hh =>
    cases hp
    cases hsem
    refine ⟨.early 2, .early (by omega), ?_, .silent rfl rfl rfl rfl nofun⟩
    rw [hTail]
    exact .measured fun h0 => by rw [hh h0]
  | measured hLen =>
    rw [enqueueSqes_eq] at hp
    cases hp
    cases hsem
    by_cases hDone : s.cells .sqHead = s₀.cells .sqTail
    · refine ⟨.late 3, .late hDone, ?_, .silent rfl rfl rfl rfl nofun⟩
      rw [hDone]
      exact .lateTail
    · have h0 := hHead.resolve_right hDone
      refine ⟨.fresh 3, .fresh hDone, ?_, .silent rfl rfl rfl rfl fun k hk => ?_⟩
      · rw [h0, hLen h0]
        exact .freshTail (by rw [← h0]; exact hDone)
      · obtain rfl := Phase.fresh.inj hk
        omega
  | @lateTail len =>
    cases hp
    cases hsem
    refine ⟨.late 4, .lateTail, ?_, .silent rfl rfl rfl rfl nofun⟩
    have hMin : min len (s.cells .sqTail - s₀.cells .sqTail) = 0 := by
      rw [hTail, UInt32.sub_self]
      apply UInt32.toNat_inj.mp
      rw [toNat_min, UInt32.toNat_zero, Nat.min_zero]
    change At ring s₀ (s.cells .sqHead) (.late 4) (takeBatch ring _ (min len _))
    rw [hMin, takeBatch_zero]
    exact .lateDone
  | lateDone => cases hp
  | freshTail hne =>
    cases hp
    cases hsem
    refine ⟨.fresh 4, .freshNext (by omega), ?_, .silent rfl rfl rfl rfl fun k hk => ?_⟩
    · have hMin : min (s₀.cells .sqTail - s₀.cells .sqHead)
          (s.cells .sqTail - s₀.cells .sqHead) = s₀.cells .sqTail - s₀.cells .sqHead := by
        rw [hTail]
        apply UInt32.toNat_inj.mp
        rw [toNat_min, Nat.min_self]
      have hPos : s₀.cells .sqTail - s₀.cells .sqHead ≠ 0 := by
        intro h0
        apply hne
        apply dist_eq_zero_iff.mp
        rw [Ring.dist, h0]
        rfl
      have hAll := takeBatch_of_ne ring (s₀.cells .sqHead) hPos
      have hCopying : At ring s₀ (s.cells .sqHead) (.fresh (4 + 0)) _ := .copying (Nat.zero_le _)
      have hStart : s₀.cells .sqHead + UInt32.ofNat 0 = s₀.cells .sqHead := UInt32.add_zero _
      rw [List.take_zero, hStart, Nat.sub_zero] at hCopying
      change At ring s₀ (s.cells .sqHead) (.fresh 4) (takeBatch ring _ (min _ _))
      rw [hMin, hAll]
      exact hCopying
    · obtain rfl := Phase.fresh.inj hk
      omega
  | @copying j hj =>
    rcases Nat.lt_or_eq_of_le hj with hLt | rfl
    · -- another entry is copied
      obtain ⟨e, hSlot, hNext⟩ := slot_queued hSlots hLt
      obtain ⟨d, hd⟩ : ∃ d, queuedLen s₀ - j = d + 1 := ⟨queuedLen s₀ - j - 1, by omega⟩
      rw [hd, copying_succ] at hp
      cases hp
      rw [ringSem_readSqe (by rw [hSqes]; exact hSlot)] at hsem
      cases hsem
      refine ⟨.fresh (4 + (j + 1)), .freshNext (by omega), ?_,
        .silent rfl rfl rfl rfl fun k hk => ?_⟩
      · have hTake : (queuedSqes ring s₀).take j ++ [Squeue.EntryMarker.sqe e] =
            (queuedSqes ring s₀).take (j + 1) := by
          rw [List.take_add_one, hNext]
          rfl
        have hCounter : s₀.cells .sqHead + UInt32.ofNat j + 1 =
            s₀.cells .sqHead + UInt32.ofNat (j + 1) := by
          rw [ofNat_succ, UInt32.add_assoc]
        have hLeft : d = queuedLen s₀ - (j + 1) := by omega
        beta_reduce
        rw [hTake, hCounter, hLeft]
        exact .copying hLt
      · obtain rfl := Phase.fresh.inj hk
        omega
    · -- the loop is done
      rw [Nat.sub_self, copying_zero] at hp
      cases hp
      cases hsem
      have hTail' : s₀.cells .sqHead + UInt32.ofNat (queuedLen s₀) = s₀.cells .sqTail :=
        add_dist _ _
      have hAll : (queuedSqes ring s₀).take (queuedLen s₀) = queuedSqes ring s₀ := by
        rw [← queuedSqes_length hSlots, List.take_length]
      rw [hTail', hAll]
      have hPhase : 4 + queuedLen s₀ + 1 = queuedLen s₀ + 5 := by omega
      refine ⟨.fresh (4 + queuedLen s₀ + 1), .freshNext (by omega), ?_, ?_⟩
      · rw [hPhase]
        exact .spawning
      · rw [hPhase]
        refine ⟨by simp, rfl, ?_, ?_⟩
        · simp [Phase.stored, Phase.steps]
        · simp [Phase.steps, Phase.spawned]
  | spawning =>
    cases hp
    cases hsem
    refine ⟨.fresh (queuedLen s₀ + 6), .freshNext (by omega), .pushing, rfl, rfl, ?_, ?_⟩
    · simp [Phase.steps]
    · simp [Phase.steps, Phase.spawned]
  | pushing =>
    cases hp
    cases hsem
    refine ⟨.fresh (queuedLen s₀ + 7), .freshNext (by omega), .freshDone,
      .silent rfl rfl rfl rfl fun k hk => ?_⟩
    obtain rfl := Phase.fresh.inj hk
    omega
  | freshDone => cases hp

theorem At.of_head {head head' : UInt32} {ph : Phase} {p : RingProgram S C Nat}
    (h : At ring s₀ head ph p) (hHead : head' = s₀.cells .sqHead → head' = head) :
    At ring s₀ head' ph p := by
  cases h with
  | start => exact .start
  | measuring hh => exact .measuring fun h0 => hh ((hHead h0).symm.trans h0)
  | measured hLen => exact .measured fun h0 => hLen ((hHead h0).symm.trans h0)
  | lateTail => exact .lateTail
  | lateDone => exact .lateDone
  | freshTail hne => exact .freshTail hne
  | copying hj => exact .copying hj
  | spawning => exact .spawning
  | pushing => exact .pushing
  | freshDone => exact .freshDone

/-- A thread that has not stored the head has not performed that many actions. -/
theorem At.steps_lt {head : UInt32} {ph : Phase} {p : RingProgram S C Nat}
    (h : At ring s₀ head ph p) (hStored : ph.stored (queuedLen s₀) = false) :
    ph.steps < queuedLen s₀ + 5 := by
  cases h <;> simp only [Phase.stored, Phase.steps, decide_eq_false_iff_not] at hStored ⊢ <;> omega

omit [Squeue.EntryMarker S] [Cqueue.EntryMarker C] in
theorem Next.steps {head : UInt32} {ph ph' : Phase} (h : Next s₀ head ph ph') :
    ph'.steps = ph.steps + 1 := by
  cases h <;> rfl

omit [Squeue.EntryMarker S] [Cqueue.EntryMarker C] in
theorem Next.stored {head : UInt32} {ph ph' : Phase} (h : Next s₀ head ph ph') (n : Nat) :
    ph'.stored n = (ph.stored n || (ph'.stored n && ph'.steps == n + 5)) := by
  cases h with
  | @freshNext k hk =>
    rw [Bool.eq_iff_iff]
    simp only [Phase.stored, Phase.steps, Bool.or_eq_true, Bool.and_eq_true, decide_eq_true_eq,
      beq_iff_eq]
    omega
  | fresh _ =>
    have hLt : ¬ n + 5 ≤ 3 := by omega
    simp [Phase.stored, hLt]
  | _ => rfl

omit [Squeue.EntryMarker S] [Cqueue.EntryMarker C] in
theorem Next.spawned {head : UInt32} {ph ph' : Phase} (h : Next s₀ head ph ph') (n : Nat) :
    ph'.spawned n = ph.spawned n + if ph'.spawned n = 1 ∧ ph'.steps = n + 6 then 1 else 0 := by
  cases h with
  | @freshNext k hk =>
    simp only [Phase.spawned, Phase.steps]
    grind
  | fresh _ =>
    have hLt : ¬ n + 6 ≤ 3 := by omega
    simp [Phase.spawned, hLt]
  | _ => rfl

end Step

/-! ## Both threads -/

section Joint

variable {ring : IoUring S C} {s₀ : RingMem S C} {results : Nat → List CompletionData}

/-- Behind a schedule, thread `i` is in phase `ph i`. -/
structure Joint (ring : IoUring S C) (s₀ : RingMem S C) (ph : Bool → Phase) (sched : List Bool)
    (P : Pool Bool (ringSig S C) (RingMem S C) Nat) : Prop where
  steps : ∀ i, (ph i).steps = sched.count i
  programs : ∀ i, At ring s₀ (P.state.cells .sqHead) (ph i) (P.progs i)
  tail : P.state.cells .sqTail = s₀.cells .sqTail
  sqes : P.state.sqes = s₀.sqes
  head : P.state.cells .sqHead =
    if (ph false).stored (queuedLen s₀) || (ph true).stored (queuedLen s₀) then s₀.cells .sqTail
    else s₀.cells .sqHead
  threads : P.state.threads = s₀.threads ++ List.replicate
    ((ph false).spawned (queuedLen s₀) + (ph true).spawned (queuedLen s₀)) (queuedSqes ring s₀)
  fresh : ∀ i k, ph i = .fresh k → s₀.cells .sqHead ≠ s₀.cells .sqTail ∧ 3 ≤ k
  /-- Who found nothing has been overtaken by the other thread. -/
  overtaken : s₀.cells .sqHead ≠ s₀.cells .sqTail → ∀ i k, ph i = .late k →
    ∃ start, start <+: sched ∧ queuedLen s₀ + 5 ≤ start.count (!i) ∧ start.count i ≤ 2
  /-- Who found the queue was not overtaken. -/
  first : ∀ i k, ph i = .fresh k → ∀ start, start <+: sched → start.count i ≤ 2 →
    start.count (!i) < queuedLen s₀ + 5

theorem joint_start : Joint ring s₀ (fun _ => .early 0) [] (submitters ring s₀) where
  steps _ := rfl
  programs _ := .start
  tail := rfl
  sqes := rfl
  head := rfl
  threads := by simp [Phase.spawned, submitters]
  fresh _ _ h := nomatch h
  overtaken _ _ _ h := nomatch h
  first _ _ h := nomatch h

theorem or_threads (f : Bool → Bool) (i : Bool) : (f false || f true) = (f i || f (!i)) := by
  cases i
  · rfl
  · exact Bool.or_comm _ _

theorem add_threads (f : Bool → Nat) (i : Bool) : f false + f true = f i + f (!i) := by
  cases i
  · rfl
  · exact Nat.add_comm _ _

/-- A prefix of a longer schedule is a prefix of the schedule before, or all of it. -/
theorem prefix_concat {sched start : List Bool} {i : Bool} (h : start <+: sched ++ [i]) :
    start <+: sched ∨ start = sched ++ [i] :=
  (List.prefix_concat_iff.mp h).symm

section Thread

variable {ph : Bool → Phase} {sched : List Bool}
  {P : Pool Bool (ringSig S C) (RingMem S C) Nat} {i : Bool} {next : Phase}

theorem Joint.head_cases (h : Joint ring s₀ ph sched P) :
    P.state.cells .sqHead = s₀.cells .sqHead ∨ P.state.cells .sqHead = s₀.cells .sqTail := by
  rw [h.head]
  split
  · exact .inr rfl
  · exact .inl rfl

/-- The head has moved if and only if a thread has stored it. -/
theorem Joint.stored_iff (h : Joint ring s₀ ph sched P)
    (hne : s₀.cells .sqHead ≠ s₀.cells .sqTail) (i : Bool) :
    P.state.cells .sqHead = s₀.cells .sqTail ↔
      (ph i).stored (queuedLen s₀) = true ∨ (ph !i).stored (queuedLen s₀) = true := by
  rw [h.head, or_threads (fun j => (ph j).stored (queuedLen s₀)) i, ← Bool.or_eq_true]
  constructor
  · intro hHead
    by_contra hNot
    rw [if_neg hNot] at hHead
    exact hne hHead
  · intro hStored
    rw [if_pos hStored]

theorem Joint.fresh_next (h : Joint ring s₀ ph sched P)
    (hNext : Next s₀ (P.state.cells .sqHead) (ph i) next) (k : Nat) (hk : next = .fresh k) :
    s₀.cells .sqHead ≠ s₀.cells .sqTail ∧ 3 ≤ k := by
  generalize hPh : ph i = cur at hNext
  cases hNext with
  | fresh hHead =>
    obtain rfl := Phase.fresh.inj hk
    rw [h.head_cases.resolve_right hHead] at hHead
    exact ⟨hHead, Nat.le_refl _⟩
  | freshNext hk' =>
    obtain rfl := Phase.fresh.inj hk
    exact ⟨(h.fresh i _ hPh).1, by omega⟩
  | _ => cases hk

theorem Joint.overtaken_next (h : Joint ring s₀ ph sched P)
    (hNext : Next s₀ (P.state.cells .sqHead) (ph i) next)
    (hne : s₀.cells .sqHead ≠ s₀.cells .sqTail) (k : Nat) (hk : next = .late k) :
    ∃ start, start <+: sched ∧ queuedLen s₀ + 5 ≤ start.count (!i) ∧ start.count i ≤ 2 := by
  generalize hPh : ph i = cur at hNext
  have hSteps := h.steps i
  rw [hPh] at hSteps
  cases hNext with
  | late hHead =>
    -- it found the tail, so the other thread has stored it
    have hStored := (h.stored_iff hne i).mp hHead
    rw [hPh] at hStored
    have hOther := hStored.resolve_left (by simp [Phase.stored])
    have hStepsOther := h.steps (!i)
    generalize ph (!i) = other at hOther hStepsOther
    cases other with
    | fresh k' =>
      have hLe : queuedLen s₀ + 5 ≤ k' := of_decide_eq_true hOther
      simp only [Phase.steps] at hSteps hStepsOther
      exact ⟨sched, List.prefix_rfl, by omega, by omega⟩
    | _ => cases hOther
  | lateTail => exact h.overtaken hne i 3 hPh
  | _ => cases hk

theorem Joint.first_next (h : Joint ring s₀ ph sched P)
    (hNext : Next s₀ (P.state.cells .sqHead) (ph i) next) (k : Nat) (hk : next = .fresh k)
    {start : List Bool} (hStart : start <+: sched) (hCount : start.count i ≤ 2) :
    start.count (!i) < queuedLen s₀ + 5 := by
  generalize hPh : ph i = cur at hNext
  cases hNext with
  | fresh hHead =>
    -- it found the initial head, so the other thread has not stored the tail
    have hne : s₀.cells .sqHead ≠ s₀.cells .sqTail := by
      rwa [h.head_cases.resolve_right hHead] at hHead
    have hStored : (ph !i).stored (queuedLen s₀) = false := by
      rw [Bool.eq_false_iff]
      intro hStored
      exact hHead ((h.stored_iff hne i).mpr (.inr hStored))
    have hLt := (h.programs (!i)).steps_lt hStored
    rw [h.steps] at hLt
    exact Nat.lt_of_le_of_lt (hStart.sublist.count_le _) hLt
  | @freshNext k' _ => exact h.first i k' hPh start hStart hCount
  | _ => cases hk

end Thread

theorem Joint.step (hSlots : s₀.sqes.length = Squeue.capacity ring.sq) {ph : Bool → Phase}
    {sched : List Bool} {P P' : Pool Bool (ringSig S C) (RingMem S C) Nat} {i : Bool}
    (h : Joint ring s₀ ph sched P) (hs : P.step (ringSem results) i = some P') :
    ∃ ph', Joint ring s₀ ph' (sched ++ [i]) P' := by
  obtain ⟨o, k, r, s', hp, hsem, rfl⟩ := Pool.step_iff.mp hs
  have hAt := h.programs i
  rw [hp] at hAt
  obtain ⟨next, hNext, hAt', hEffect⟩ := hAt.step hSlots hsem h.tail h.sqes h.head_cases
  have hOther : (!i) ≠ i := by simp
  have hCountSelf : (sched ++ [i]).count i = sched.count i + 1 := by simp
  have hCountOther : (sched ++ [i]).count (!i) = sched.count (!i) := by
    rw [List.count_append, List.count_singleton]
    simp
  -- only the head store moves the head, and it moves it to the tail
  have hMoved : s'.cells .sqHead = s₀.cells .sqHead →
      s'.cells .sqHead = P.state.cells .sqHead := by
    intro h0
    rw [hEffect.head] at h0 ⊢
    split
    · next hLast =>
      rw [if_pos hLast] at h0
      cases next with
      | fresh k => exact absurd h0.symm (h.fresh_next hNext k rfl).1
      | _ => simp [Phase.stored] at hLast
    · rfl
  refine ⟨Function.update ph i next, ?_, ?_, hEffect.tail.trans h.tail,
    hEffect.sqes.trans h.sqes, ?_, ?_, ?_, ?_, ?_⟩
  · intro j
    rcases Bool.eq_or_eq_not j i with rfl | rfl
    · rw [Function.update_self, hNext.steps, h.steps, hCountSelf]
    · rw [Function.update_of_ne hOther, hCountOther]
      exact h.steps _
  · intro j
    rcases Bool.eq_or_eq_not j i with rfl | rfl
    · simp only [Function.update_self]
      exact hAt'
    · simp only [Function.update_of_ne hOther]
      exact (h.programs _).of_head hMoved
  · have hHead := h.head
    rw [or_threads (fun j => (ph j).stored (queuedLen s₀)) i] at hHead
    rw [or_threads (fun j => (Function.update ph i next j).stored (queuedLen s₀)) i]
    simp only [Function.update_self, Function.update_of_ne hOther]
    have hStored := hNext.stored (queuedLen s₀)
    rw [hEffect.head, hHead]
    generalize (next.stored (queuedLen s₀) && next.steps == queuedLen s₀ + 5) = last at hStored ⊢
    rw [hStored]
    generalize (ph i).stored (queuedLen s₀) = self
    generalize (ph !i).stored (queuedLen s₀) = other
    cases last <;> cases self <;> cases other <;> rfl
  · have hThreads := h.threads
    rw [add_threads (fun j => (ph j).spawned (queuedLen s₀)) i] at hThreads
    rw [add_threads (fun j => (Function.update ph i next j).spawned (queuedLen s₀)) i]
    simp only [Function.update_self, Function.update_of_ne hOther]
    have hSpawned := hNext.spawned (queuedLen s₀)
    rw [hEffect.threads, hThreads, List.append_assoc]
    congr 1
    split at hSpawned
    · next hLast =>
      rw [if_pos hLast, hSpawned, Nat.add_right_comm, List.replicate_succ']
    · next hLast =>
      rw [if_neg hLast, hSpawned, List.append_nil, Nat.add_zero]
  · intro j
    rcases Bool.eq_or_eq_not j i with rfl | rfl
    · rw [Function.update_self]
      exact h.fresh_next hNext
    · rw [Function.update_of_ne hOther]
      exact h.fresh _
  · intro hne j k hk
    have hEarlier : ∃ start, start <+: sched ∧ queuedLen s₀ + 5 ≤ start.count (!j) ∧
        start.count j ≤ 2 := by
      rcases Bool.eq_or_eq_not j i with rfl | rfl
      · rw [Function.update_self] at hk
        exact h.overtaken_next hNext hne k hk
      · rw [Function.update_of_ne hOther] at hk
        exact h.overtaken hne _ k hk
    obtain ⟨start, hStart, hCounts⟩ := hEarlier
    exact ⟨start, hStart.trans (List.prefix_append _ _), hCounts⟩
  · intro j k hk start hStart hCount
    rcases prefix_concat hStart with hBefore | rfl
    · rcases Bool.eq_or_eq_not j i with rfl | rfl
      · rw [Function.update_self] at hk
        exact h.first_next hNext k hk hBefore hCount
      · rw [Function.update_of_ne hOther] at hk
        exact h.first _ k hk start hBefore hCount
    · -- a fresh thread has performed more than two actions
      rcases Bool.eq_or_eq_not j i with rfl | rfl
      · rw [Function.update_self] at hk
        have hk3 := (h.fresh_next hNext k hk).2
        have hSteps := hNext.steps
        rw [hk, h.steps] at hSteps
        simp only [Phase.steps] at hSteps
        omega
      · rw [Function.update_of_ne hOther] at hk
        have hk3 := (h.fresh _ k hk).2
        have hSteps := h.steps (!i)
        rw [hk] at hSteps
        simp only [Phase.steps] at hSteps
        omega

/-- Every schedule of the two calls has a joint description. -/
theorem joint_of_run (hSlots : s₀.sqes.length = Squeue.capacity ring.sq) {sched : List Bool}
    {P : Pool Bool (ringSig S C) (RingMem S C) Nat}
    (hRun : (submitters ring s₀).runSchedule (ringSem results) sched = some P) :
    ∃ ph, Joint ring s₀ ph sched P := by
  refine Pool.runSchedule_invariant (fun sched P => ∃ ph, Joint ring s₀ ph sched P)
    ⟨_, joint_start⟩ ?_ hRun
  rintro sched P i P' ⟨ph, h⟩ hs
  exact h.step hSlots hs

/-- How a call ends: it has taken nothing, or the whole queue. -/
theorem At.done {head : UInt32} {ph : Phase} {n : Nat} (h : At ring s₀ head ph (.ret n)) :
    ph = .late 4 ∧ n = 0 ∨ ph = .fresh (queuedLen s₀ + 7) ∧ n = queuedLen s₀ := by
  generalize hp : (Program.ret n : RingProgram S C Nat) = p at h
  cases h with
  | start =>
    rw [submit_eq] at hp
    cases hp
  | measured _ =>
    rw [enqueueSqes_eq] at hp
    cases hp
  | lateDone =>
    cases hp
    exact .inl ⟨rfl, rfl⟩
  | @copying j hj =>
    generalize queuedLen s₀ - j = left at hp
    cases left with
    | zero =>
      rw [copying_zero] at hp
      cases hp
    | succ left =>
      rw [copying_succ] at hp
      cases hp
  | freshDone =>
    cases hp
    exact .inr ⟨rfl, rfl⟩
  | _ => cases hp

/-- Where one call took the queue and the other one took nothing. -/
theorem Joint.consumedOnce {ph : Bool → Phase} {sched : List Bool}
    {P : Pool Bool (ringSig S C) (RingMem S C) Nat} (h : Joint ring s₀ ph sched P) {i : Bool}
    (hSelf : ph i = .fresh (queuedLen s₀ + 7)) (hOther : ph (!i) = .late 4)
    (hDoneSelf : P.result? i = some (queuedLen s₀)) (hDoneOther : P.result? (!i) = some 0) :
    ConsumedOnce ring s₀ P := by
  have hHead := h.head
  have hThreads := h.threads
  rw [or_threads (fun j => (ph j).stored (queuedLen s₀)) i, hSelf, hOther] at hHead
  rw [add_threads (fun j => (ph j).spawned (queuedLen s₀)) i, hSelf, hOther] at hThreads
  refine ⟨?_, ?_, h.tail, [queuedSqes ring s₀], ?_, by simp⟩
  · cases i with
    | false => exact ⟨queuedLen s₀, 0, hDoneSelf, hDoneOther, rfl⟩
    | true => exact ⟨0, queuedLen s₀, hDoneOther, hDoneSelf, Nat.zero_add _⟩
  · rw [hHead, if_pos]
    simp [Phase.stored]
  · rw [hThreads]
    simp [Phase.spawned]

end Joint

/-- **Concurrent submits.** In a schedule that completes two concurrent calls of `submit`,
every queued request is consumed exactly once if and only if the queue is empty or one of the
threads stores the head before the other one loads it in `enqueue_sqes`. -/
theorem concurrent_submits_iff (ring : IoUring S C) (s : RingMem S C)
    (hSlots : s.sqes.length = Squeue.capacity ring.sq) (results : Nat → List CompletionData)
    {sched : List Bool} {P : Pool Bool (ringSig S C) (RingMem S C) Nat}
    (hRun : (submitters ring s).runSchedule (ringSem results) sched = some P)
    (hDone : ∀ i, (P.result? i).isSome) :
    ConsumedOnce ring s P ↔
      s.cells .sqHead = s.cells .sqTail ∨ Serialized (queuedLen s) sched := by
  obtain ⟨ph, h⟩ := joint_of_run hSlots hRun
  have hEnd : ∀ i, (ph i = .late 4 ∧ P.result? i = some 0) ∨
      (ph i = .fresh (queuedLen s + 7) ∧ P.result? i = some (queuedLen s)) := by
    intro i
    obtain ⟨n, hn⟩ := Option.isSome_iff_exists.mp (hDone i)
    have hAt := h.programs i
    rw [Pool.result?_eq_some_iff.mp hn] at hAt
    rcases hAt.done with ⟨hPh, rfl⟩ | ⟨hPh, rfl⟩
    · exact .inl ⟨hPh, hn⟩
    · exact .inr ⟨hPh, hn⟩
  -- a call that took nothing was overtaken by the other one
  have hSerialized : ∀ i, s.cells .sqHead ≠ s.cells .sqTail → ph i = .late 4 →
      Serialized (queuedLen s) sched := by
    intro i hne hPh
    obtain ⟨start, hStart, hOther, hSelf⟩ := h.overtaken hne i 4 hPh
    exact ⟨!i, start, hStart, hOther, by rwa [Bool.not_not]⟩
  rcases hEnd false with ⟨hFalse, hZero⟩ | ⟨hFalse, hAll⟩
  · rcases hEnd true with ⟨hTrue, hZero'⟩ | ⟨hTrue, hAll'⟩
    · -- both have taken nothing: the queue was empty
      have hEmpty : s.cells .sqHead = s.cells .sqTail := by
        by_contra hne
        obtain ⟨start, hStart, hCount, -⟩ := h.overtaken hne false 4 hFalse
        have hSteps := h.steps true
        have hLe := hStart.sublist.count_le true
        rw [hTrue] at hSteps
        simp only [Phase.steps, Bool.not_false] at hSteps hCount
        omega
      have hLen : queuedLen s = 0 := dist_eq_zero_iff.mpr hEmpty
      refine iff_of_true ⟨⟨0, 0, hZero, hZero', hLen.symm⟩, ?_, h.tail, [], ?_, ?_⟩ (.inl hEmpty)
      · rw [h.head, hFalse, hTrue]
        exact hEmpty
      · rw [h.threads, hFalse, hTrue]
        rfl
      · have hNil : queuedSqes ring s = [] :=
          List.length_eq_zero_iff.mp ((queuedSqes_length hSlots).trans hLen)
        rw [hNil]
        exact .nil
    · have hne := (h.fresh true _ hTrue).1
      exact iff_of_true (h.consumedOnce hTrue hFalse hAll' hZero)
        (.inr (hSerialized false hne hFalse))
  · have hne := (h.fresh false _ hFalse).1
    rcases hEnd true with ⟨hTrue, hZero'⟩ | ⟨hTrue, hAll'⟩
    · exact iff_of_true (h.consumedOnce hFalse hTrue hAll hZero')
        (.inr (hSerialized true hne hTrue))
    · -- both have taken the whole queue
      have hPos : queuedLen s ≠ 0 := fun h0 => hne (dist_eq_zero_iff.mp h0)
      refine iff_of_false ?_ ?_
      · rintro ⟨⟨m, n, hm, hn, hSum⟩, -⟩
        obtain rfl := Option.some.inj (hAll.symm.trans hm)
        obtain rfl := Option.some.inj (hAll'.symm.trans hn)
        omega
      · rintro (hEmpty | ⟨i, start, hStart, hSelf, hOther⟩)
        · exact hne hEmpty
        · have hFresh : ph (!i) = .fresh (queuedLen s + 7) := by
            cases i
            · exact hTrue
            · exact hFalse
          have hLt := h.first (!i) _ hFresh start hStart hOther
          rw [Bool.not_not] at hLt
          omega

/-! ### One queued request -/

open Miring.Stream

/-- The smallest ring with one queued request. -/
def oneQueued : Option (RingMem Squeue.Entry Cqueue.Entry) :=
  ((Client.start smallRing.2).runCalls smallRing.1 (fun _ => [])
    [.submission, .push (nop 7), .sqDrop]).map (·.mem)

/-- Both threads load the head before one of them stores it. -/
def racing : List Bool :=
  List.replicate 3 false ++ List.replicate 3 true ++ List.replicate 5 false ++
    List.replicate 5 true

/-- One call behind the other. -/
def serial : List Bool := List.replicate 8 false ++ List.replicate 4 true

/-- Two calls of `submit` that race for one request both take it. -/
theorem racing_submits_take_twice :
    ∃ s P, oneQueued = some s ∧
      (submitters smallRing.1 s).runSchedule (ringSem fun _ => []) racing = some P ∧
      (∀ i, (P.result? i).isSome) ∧ ¬ ConsumedOnce smallRing.1 s P := by
  have hFacts : (oneQueued.bind fun s =>
      ((submitters smallRing.1 s).runSchedule (ringSem fun _ => []) racing).map fun P =>
        (queuedLen s, P.result? false, P.result? true)) = some (1, some 1, some 1) := by
    decide +kernel
  obtain ⟨s, hs, hRest⟩ := Option.bind_eq_some_iff.mp hFacts
  obtain ⟨P, hP, hEnd⟩ := Option.map_eq_some_iff.mp hRest
  obtain ⟨hLen, hFalse, hTrue⟩ : queuedLen s = 1 ∧ P.result? false = some 1 ∧
      P.result? true = some 1 := by simpa using hEnd
  refine ⟨s, P, hs, hP, ?_, ?_⟩
  · intro i
    cases i
    · rw [hFalse]; rfl
    · rw [hTrue]; rfl
  · rintro ⟨⟨m, n, hm, hn, hSum⟩, -⟩
    obtain rfl := Option.some.inj (hFalse.symm.trans hm)
    obtain rfl := Option.some.inj (hTrue.symm.trans hn)
    omega

theorem concurrent_submits_iff_serial :
    ∃ s P, oneQueued = some s ∧
      (submitters smallRing.1 s).runSchedule (ringSem fun _ => []) serial = some P ∧
      ConsumedOnce smallRing.1 s P := by
  have hFacts : (oneQueued.bind fun s =>
      ((submitters smallRing.1 s).runSchedule (ringSem fun _ => []) serial).map fun P =>
        (queuedLen s, s.sqes.length, P.result? false, P.result? true)) =
      some (1, Squeue.capacity smallRing.1.sq, some 1, some 0) := by
    decide +kernel
  obtain ⟨s, hs, hRest⟩ := Option.bind_eq_some_iff.mp hFacts
  obtain ⟨P, hP, hEnd⟩ := Option.map_eq_some_iff.mp hRest
  obtain ⟨hLen, hSlots, hFalse, hTrue⟩ : queuedLen s = 1 ∧
      s.sqes.length = Squeue.capacity smallRing.1.sq ∧ P.result? false = some 1 ∧
      P.result? true = some 0 := by simpa using hEnd
  have hDone : ∀ i, (P.result? i).isSome := by
    intro i
    cases i
    · rw [hFalse]; rfl
    · rw [hTrue]; rfl
  have hSerialized : Serialized (queuedLen s) serial := by
    rw [hLen]
    exact ⟨false, serial.take 8, List.take_prefix _ _, by decide, by decide⟩
  exact ⟨s, P, hs, hP,
    (concurrent_submits_iff smallRing.1 s hSlots _ hP hDone).mpr (.inr hSerialized)⟩

end Miring.Concurrency
