import Mathlib.Data.List.Basic
import Miring.Stream.Visibility

/-!
# Overflow accounting

The overflow counter of a ring is the number of completions that `post_cqe` has refused,
modulo `2 ^ 32`, and the overflow flag says whether there is one (`overflow_exact`). A refusal
changes nothing but these two, and it finds as many posted completions that were not released
as the ring has slots. Hence the posted, the refused and the suppressed completions add up to
the requests of the joined batches.
-/

namespace Miring.Stream

open Sys Miring.Ring Dispatch Program Submitter

variable {S C : Type} [Squeue.EntryMarker S] [Cqueue.EntryMarker C]

/-! ## Statement -/

/-- The calls of `post_cqe` that found no room. -/
def refusedPosts (ring : IoUring S C) (s : RingMem S C) : List Post :=
  s.posts.filter fun post => !Post.hasRoom ring post

/-- The requests of the joined batches. -/
def flushedSqes (c : Client S C) : List IoUringSqe := (c.mem.threads.take (joined c)).flatten

/-- The completions that were suppressed by `SKIP_SUCCESS`. -/
def suppressedOutcomes (results : Nat → List CompletionData) (c : Client S C) :
    List CompletionData :=
  (flushedOutcomes results c).filter suppressed

structure OverflowExact (ring : IoUring S C) (results : Nat → List CompletionData)
    (c : Client S C) : Prop where
  overflow : run (ringSem results) Cqueue.overflow c.mem =
    some (UInt32.ofNat (refusedPosts ring c.mem).length, c.mem)
  flag : run (ringSem results) Squeue.cqOverflow c.mem =
    some (decide (refusedPosts ring c.mem ≠ []), c.mem)
  /-- A refusal has found a full ring. -/
  full : ∀ post ∈ refusedPosts ring c.mem,
    dist post.cqHead post.cqTail = Cqueue.capacity ring.cq
  tail : c.mem.cells .cqTail = UInt32.ofNat (roomyCqes ring c).length
  conserved : (roomyCqes ring c).length + (refusedPosts ring c.mem).length +
    (suppressedOutcomes results c).length = (flushedSqes c).length

/-- The state behind a refusal: the counter, the flag and the record of the call. -/
def refuse (s : RingMem S C) (cqe : IoUringCqe) : RingMem S C :=
  let s' : RingMem S C :=
    { s with posts := s.posts ++ [⟨cqe, s.cells .cqTail, s.cells .cqHead⟩] }
  let counted := s'.setCell .cqOverflow (s.cells .cqOverflow + 1)
  if s.cells .cqOverflow = 0 then
    counted.setCell .sqFlags (s.cells .sqFlags ||| ioringSqCqOverflow)
  else counted

/-- What a refusal leaves as it was. -/
structure SameRing (s s' : RingMem S C) : Prop where
  head : s'.cells .cqHead = s.cells .cqHead
  tail : s'.cells .cqTail = s.cells .cqTail
  cqes : s'.cqes = s.cqes

/-! ## A refusal -/

section Refusal

variable {ring : IoUring S C} {s s' : RingMem S C} {results : Nat → List CompletionData}

omit [Squeue.EntryMarker S] [Cqueue.EntryMarker C] in
theorem sameRing_refuse (s : RingMem S C) (cqe : IoUringCqe) : SameRing s (refuse s cqe) := by
  unfold refuse
  by_cases hZero : s.cells .cqOverflow = 0
  · rw [if_pos hZero]
    exact ⟨by simp, by simp, rfl⟩
  · rw [if_neg hZero]
    exact ⟨by simp, by simp, rfl⟩

/-- In any state: `post_cqe` on a full ring refuses. -/
theorem run_postCqe_of_full (hFull : s.cells .cqTail - s.cells .cqHead ≥ ring.cq.ringEntries)
    (userData : UInt64) (res : Int32) (flags : UInt32) :
    run (ringSem results) (postCqe ring.submitter userData res flags) s =
      some ((), refuse s ⟨userData, res, flags⟩) := by
  have hTest : s.cells .cqTail - s.cells .cqHead ≥ ring.submitter.cqRingEntries := hFull
  simp only [postCqe, run_load_bind, run_notePost_bind]
  rw [if_pos hTest, run_fetchAdd_bind]
  unfold refuse
  by_cases hZero : s.cells .cqOverflow = 0
  · rw [if_pos hZero]
    simp only [hZero, if_true]
    have hFlags : (({ s with posts := s.posts ++ [⟨⟨userData, res, flags⟩, s.cells .cqTail,
        s.cells .cqHead⟩] } : RingMem S C).setCell .cqOverflow (0 + 1)).cells .sqFlags =
        s.cells .sqFlags := by simp
    rw [← hFlags]
    rfl
  · rw [if_neg hZero, if_neg hZero]
    rfl

end Refusal

/-! ## Full rings -/

/-- No call of `post_cqe` has found more completions than the ring has slots. -/
def PostsBounded (ring : IoUring S C) (s : RingMem S C) : Prop :=
  ∀ post ∈ s.posts, dist post.cqHead post.cqTail ≤ Cqueue.capacity ring.cq

section Posts

variable {ring : IoUring S C} {s s' : RingMem S C} {results : Nat → List CompletionData}

theorem ringSem_posts {o : RingOp S C} {r : (ringSig S C).Res o}
    (h : ringSem results o s = some (r, s')) : s.posts <+: s'.posts := by
  rw [(ringSem_frame h).2]
  cases o with
  | notePost post => exact List.prefix_append _ _
  | _ => exact List.prefix_rfl

/-- The record of the posts only grows. -/
theorem posts_of_run {α : Type} {p : RingProgram S C α} {a : α}
    (h : run (ringSem results) p s = some (a, s')) : s.posts <+: s'.posts := by
  induction p generalizing s with
  | ret b =>
    obtain ⟨-, rfl⟩ := Prod.mk.inj (Option.some.inj h)
    exact List.prefix_rfl
  | act o k ih =>
    rw [run_act] at h
    obtain ⟨⟨r, s₁⟩, hsem, hRest⟩ := Option.bind_eq_some_iff.mp h
    exact (ringSem_posts hsem).trans (ih r hRest)

omit [Squeue.EntryMarker S] in
/-- A run that offers no completion has posted none. -/
theorem posts_eq {q q' : CqLedger IoUringCqe (Cqueue.capacity ring.cq)} (h : CqRefines ring s q)
    (h' : CqRefines ring s' q') (hAttempts : q'.attempts = q.attempts)
    (hPrefix : s.posts <+: s'.posts) : s'.posts = s.posts := by
  have hLength := congrArg List.length (h'.posts.trans (hAttempts.trans h.posts.symm))
  rw [List.length_map, List.length_map] at hLength
  exact (hPrefix.eq_of_length hLength.symm).symm

theorem postsBounded_postCqe {q : CqLedger IoUringCqe (Cqueue.capacity ring.cq)}
    (h : CqRefines ring s q) (hBounded : PostsBounded ring s) {userData : UInt64} {res : Int32}
    {flags : UInt32}
    (hRun : run (ringSem results) (postCqe ring.submitter userData res flags) s = some ((), s')) :
    PostsBounded ring s' := by
  obtain ⟨s₁, hRun₁, h₁, -⟩ := run_postCqe results h userData res flags
  obtain rfl := (Prod.mk.inj (Option.some.inj (hRun₁.symm.trans hRun))).2
  have hRest := hRun
  simp only [postCqe, run_load_bind, run_notePost_bind] at hRest
  have hPrefix := posts_of_run hRest
  have hLength := congrArg List.length h₁.posts
  have hBefore := congrArg List.length h.posts
  rw [CqLedger.post_attempts, List.length_append, List.length_singleton, ← hBefore,
    List.length_map, List.length_map] at hLength
  have hPosts := hPrefix.eq_of_length (by rw [List.length_append, List.length_singleton, hLength])
  have hLen : q.posted.length ≤ q.released + Cqueue.capacity ring.cq := q.length_le
  have hCap : Cqueue.capacity ring.cq < 2 ^ 32 := UInt32.toNat_lt _
  have hDist : dist (s.cells .cqHead) (s.cells .cqTail) = q.posted.length - q.released := by
    rw [h.head, h.tail]
    exact toNat_ofNat_sub q.released_le_posted (by omega)
  intro post hPost
  rw [← hPosts] at hPost
  rcases List.mem_append.mp hPost with hOld | hNew
  · exact hBounded post hOld
  · rw [List.mem_singleton.mp hNew, hDist]
    omega

theorem postsBounded_postResults {cds : List CompletionData}
    {q : CqLedger IoUringCqe (Cqueue.capacity ring.cq)} (h : CqRefines ring s q)
    (hBounded : PostsBounded ring s)
    (hRun : run (ringSem results) (postResults ring.submitter cds) s = some ((), s')) :
    PostsBounded ring s' := by
  induction cds generalizing s q with
  | nil =>
    obtain ⟨-, rfl⟩ := Prod.mk.inj (Option.some.inj hRun)
    exact hBounded
  | cons cd cds ih =>
    by_cases hSuppressed : suppressed cd
    · simp only [postResults, hSuppressed, Bool.not_true, Bool.false_eq_true, if_false] at hRun
      exact ih h hBounded hRun
    · simp only [postResults, hSuppressed, Bool.not_false, if_true] at hRun
      obtain ⟨s₁, hRun₁, h₁, -⟩ := run_postCqe results h cd.userData cd.result 0
      rw [run_bind_of hRun₁] at hRun
      exact ih h₁ (postsBounded_postCqe h hBounded hRun₁) hRun

theorem postsBounded_joinAll {handles : List Nat}
    {q : CqLedger IoUringCqe (Cqueue.capacity ring.cq)} (h : CqRefines ring s q)
    (hBounded : PostsBounded ring s)
    (hRun : run (ringSem results) (joinAll ring.submitter handles) s = some ((), s')) :
    PostsBounded ring s' := by
  induction handles generalizing s q with
  | nil =>
    obtain ⟨-, rfl⟩ := Prod.mk.inj (Option.some.inj hRun)
    exact hBounded
  | cons i handles ih =>
    obtain ⟨⟨cds, s₀⟩, hJoin, hRest⟩ := Option.bind_eq_some_iff.mp hRun
    obtain ⟨rfl, rfl⟩ : results i = cds ∧ s = s₀ := by
      simp only [ringSem] at hJoin
      split at hJoin
      · exact Prod.mk.inj (Option.some.inj hJoin)
      · cases hJoin
    obtain ⟨s₁, hRun₁, h₁, -⟩ := run_postResults results (results i) h
    change run _ (postResults ring.submitter (results i) >>= fun _ =>
      joinAll ring.submitter handles) s = _ at hRest
    rw [run_bind_of hRun₁] at hRest
    exact ih h₁ (postsBounded_postResults h hBounded hRun₁) hRest

theorem postsBounded_flushPending {l : RingLedger ring} (h : Refines ring s l)
    (hBounded : PostsBounded ring s)
    (hRun : run (ringSem results) (flushPending ring.submitter) s = some ((), s')) :
    PostsBounded ring s' := by
  rw [flushPending, run_drainPending_bind] at hRun
  exact postsBounded_joinAll (s := { s with pending := [] }) (h.cq.congr rfl) hBounded hRun

/-- The flush of a submitting call. -/
theorem postsBounded_flushIf {α : Type} {l : RingLedger ring} (h : Refines ring s l)
    (hBounded : PostsBounded ring s) {b : Prop} [Decidable b] {a a' : α}
    (hRun : run (ringSem results) (do
      (if b then flushPending ring.submitter else pure ())
      pure a) s = some (a', s')) : PostsBounded ring s' := by
  by_cases hb : b
  · obtain ⟨s₁, hFlush, -⟩ := run_flushPending results h
    rw [if_pos hb, run_bind_of hFlush] at hRun
    obtain ⟨-, rfl⟩ := Prod.mk.inj (Option.some.inj hRun)
    exact postsBounded_flushPending h hBounded hFlush
  · rw [if_neg hb] at hRun
    obtain ⟨-, rfl⟩ := Prod.mk.inj (Option.some.inj hRun)
    exact hBounded

/-- A submitting call: it takes a batch, and may flush. -/
theorem postsBounded_submit {l : RingLedger ring} (h : Refines ring s l)
    (hBounded : PostsBounded ring s) {p : RingProgram S C Nat} {k n m : Nat} {s₁ : RingMem S C}
    (hp : run (ringSem results) p s = some (n, s₁)) (h₁ : Refines ring s₁ (l.enqueue k).2)
    {b : Prop} [Decidable b]
    (hRun : run (ringSem results) (p >>= fun submitted => do
      (if b then flushPending ring.submitter else pure ())
      pure submitted) s = some (m, s')) : PostsBounded ring s' := by
  rw [run_bind_of hp] at hRun
  refine postsBounded_flushIf h₁ ?_ hRun
  have hPosts := posts_eq h.cq h₁.cq (congrArg CqLedger.attempts (enqueue_cq l k))
    (posts_of_run hp)
  intro post hPost
  rw [hPosts] at hPost
  exact hBounded post hPost

omit [Squeue.EntryMarker S] [Cqueue.EntryMarker C] in
theorem PostsBounded.of_eq (h : PostsBounded ring s) (hPosts : s'.posts = s.posts) :
    PostsBounded ring s' := by
  intro post hPost
  rw [hPosts] at hPost
  exact h post hPost

theorem run_of_run_map {α β : Type} {f : α → β} {p : RingProgram S C α} {b : β}
    (h : run (ringSem results) (f <$> p) s = some (b, s')) :
    ∃ a, run (ringSem results) p s = some (a, s') := by
  rw [run_map] at h
  obtain ⟨⟨a, s₁⟩, hRun, hEnd⟩ := Option.map_eq_some_iff.mp h
  obtain ⟨-, rfl⟩ := Prod.mk.inj hEnd
  exact ⟨a, hRun⟩

/-- A flush, and a program that offers no completion behind it. -/
theorem postsBounded_flush_bind {l l' : RingLedger ring} (h : Refines ring s l)
    (hBounded : PostsBounded ring s) {p : RingProgram S C Unit}
    (hRun : run (ringSem results) (flushPending ring.submitter >>= fun _ => p) s = some ((), s'))
    (h' : Refines ring s' l')
    (hAttempts : l'.cq.attempts = (l.flush (answers results)).cq.attempts) :
    PostsBounded ring s' := by
  obtain ⟨s₁, hFlush, h₁⟩ := run_flushPending results h
  rw [run_bind_of hFlush] at hRun
  exact (postsBounded_flushPending h hBounded hFlush).of_eq
    (posts_eq h₁.cq h'.cq hAttempts (posts_of_run hRun))

theorem postsBounded_call {l : RingLedger ring} (h : Refines ring s l)
    (hBounded : PostsBounded ring s) {call : Call S} {r : Reply C}
    (hRun : run (ringSem results) (call.program ring) s = some (r, s'))
    (h' : Refines ring s' (Ledger.call (answers results) l call).2) : PostsBounded ring s' := by
  have hQuiet : (Ledger.call (answers results) l call).2.cq.attempts = l.cq.attempts →
      PostsBounded ring s' := fun hAttempts =>
    hBounded.of_eq (posts_eq h.cq h'.cq hAttempts (posts_of_run hRun))
  cases call with
  | submission | push | pushMultiple | sqSync | sqDrop | next | fill | cqSync | cqDrop | query =>
    exact hQuiet rfl
  | submit =>
    obtain ⟨n, hRun⟩ := run_of_run_map hRun
    obtain ⟨s₁, hEnqueue, h₁⟩ := run_submitAll results h
    rw [Submitter.submit, submitAndWait, ← bind_assoc] at hRun
    exact postsBounded_submit h hBounded hEnqueue h₁ hRun
  | submitAndWait want =>
    obtain ⟨n, hRun⟩ := run_of_run_map hRun
    obtain ⟨s₁, hEnqueue, h₁⟩ := run_submitAll results h
    rw [submitAndWait, ← bind_assoc] at hRun
    exact postsBounded_submit h hBounded hEnqueue h₁ hRun
  | submitWithArgs want =>
    obtain ⟨n, hRun⟩ := run_of_run_map hRun
    obtain ⟨s₁, hEnqueue, h₁⟩ := run_submitAll results h
    rw [submitWithArgs, ← bind_assoc] at hRun
    exact postsBounded_submit h hBounded hEnqueue h₁ hRun
  | enter toSubmit minComplete =>
    obtain ⟨n, hRun⟩ := run_of_run_map hRun
    obtain ⟨s₁, hEnqueue, h₁⟩ := run_enqueueSqes results h toSubmit
    exact postsBounded_submit h hBounded hEnqueue h₁ hRun
  | completion =>
    obtain ⟨u, hRun⟩ := run_of_run_map hRun
    exact postsBounded_flush_bind h hBounded hRun h' rfl
  | split =>
    obtain ⟨u, hRun⟩ := run_of_run_map hRun
    exact postsBounded_flush_bind h hBounded hRun h' rfl

theorem postsBounded_runCalls {c c' : Client S C} {l : RingLedger ring}
    (h : ClientRefines ring c l) (hBounded : PostsBounded ring c.mem) {calls : List (Call S)}
    (hRun : c.runCalls ring results calls = some c') : PostsBounded ring c'.mem := by
  induction calls generalizing c l with
  | nil =>
    obtain rfl := Option.some.inj hRun
    exact hBounded
  | cons call calls ih =>
    obtain ⟨c₁, hStep, hRest⟩ := Option.bind_eq_some_iff.mp hRun
    obtain ⟨hs, hCall, hProgram⟩ := Option.bind_eq_some_iff.mp hStep
    obtain ⟨⟨r, s₁⟩, hMem, hEnd⟩ := Option.map_eq_some_iff.mp hProgram
    obtain ⟨c₂, hStep', -, -, h₂⟩ := step_refines results h hCall
    obtain rfl := Option.some.inj (hStep.symm.trans hStep')
    subst hEnd
    exact ih h₂ (postsBounded_call h.mem hBounded hMem h₂.mem) hRest

end Posts

/-! ## The result -/

section Result

variable {ring : IoUring S C} {c : Client S C} {l : RingLedger ring}

/-- Each outcome is offered or suppressed. -/
theorem offered_length (cds : List CompletionData) :
    (offered cds).length + (cds.filter suppressed).length = cds.length := by
  have hSplit := cds.length_eq_length_filter_add suppressed
  rw [offered, List.length_map]
  omega

/-- A batch has an outcome for each of its requests. -/
theorem outcomes_length {threads : List (List IoUringSqe)} {traces : Nat → List (Event userSig)}
    {results : Nat → List CompletionData} (h : DispatchedAs threads traces results) {n : Nat}
    (hn : n ≤ threads.length) :
    ((List.range n).flatMap results).length = (threads.take n).flatten.length := by
  induction n with
  | zero => rfl
  | succ n ih =>
    have hLt : n < threads.length := by omega
    have hAnswers := answers_of_path (h n threads[n] (List.getElem?_eq_getElem hLt))
    rw [List.range_succ, List.flatMap_append, List.length_append, ih (by omega),
      List.take_succ_eq_append_getElem hLt, List.flatten_append, List.length_append,
      List.flatMap_singleton, List.flatten_singleton, hAnswers.length_eq]

omit [Squeue.EntryMarker S] [Cqueue.EntryMarker C] in
/-- The posted, the refused and the suppressed completions. -/
theorem conserved_of_posts {traces : Nat → List (Event userSig)}
    {results : Nat → List CompletionData} (hDispatched : DispatchedAs c.mem.threads traces results)
    (hPosts : postedCqes c = offered (flushedOutcomes results c)) :
    (roomyCqes ring c).length + (refusedPosts ring c.mem).length +
      (suppressedOutcomes results c).length = (flushedSqes c).length := by
  have hSplit : (roomyCqes ring c).length + (refusedPosts ring c.mem).length =
      c.mem.posts.length := by
    rw [roomyCqes, List.length_map, refusedPosts]
    exact (List.length_eq_length_filter_add _).symm
  have hOffered : c.mem.posts.length = (offered (flushedOutcomes results c)).length := by
    rw [← hPosts, postedCqes, List.length_map]
  rw [hSplit, hOffered, suppressedOutcomes, offered_length]
  exact outcomes_length hDispatched (Nat.sub_le _ _)

theorem overflow_and_cqOverflow (n : Nat) :
    (overflowFlags n &&& ioringSqCqOverflow != 0) = decide (n ≠ 0) := by
  rw [overflowFlags_and_cqOverflow]
  cases n <;> rfl

end Result

/-- **Overflow accounting.** In every state that a run reaches the overflow counter, the flag
and the tail agree with the calls of `post_cqe`, and those with the flushed requests; and in
any state at all a refusal changes no index and no slot. -/
theorem overflow_exact {b : Builder S C} {overflowChecks : Bool} {entries : UInt32}
    {ring : IoUring S C} {mem : RingMem S C}
    (hBuild : b.build overflowChecks entries = some (.ok (ring, mem)))
    {traces : Nat → List (Event userSig)} {results : Nat → List CompletionData}
    {calls : List (Call S)} {c : Client S C}
    (hRun : (Client.start mem).runCalls ring results calls = some c)
    (hDispatched : DispatchedAs c.mem.threads traces results) :
    OverflowExact ring results c ∧
      ∀ (s : RingMem S C) userData res flags, s.cells .cqTail - s.cells .cqHead ≥ ring.cq.ringEntries →
        ∃ s', run (ringSem results) (postCqe ring.submitter userData res flags) s = some ((), s') ∧
          SameRing s s' := by
  obtain ⟨-, h⟩ := exists_ledger hBuild hRun
  have hStream := completionStream_of_run hBuild hRun hDispatched
  have hBounded : PostsBounded ring c.mem := by
    refine postsBounded_runCalls (start_refines b hBuild) ?_ hRun
    obtain ⟨rfl, -⟩ := Builder.build_ok hBuild
    exact nofun
  have hRefused : ∀ {l : RingLedger ring}, ClientRefines ring c l →
      (refusedPosts ring c.mem).length = l.cq.refused := fun h => (refused_eq h).symm
  generalize (Ledger.runCalls (answers results) (startLedger ring) calls).2 = l at h
  refine ⟨⟨?_, ?_, ?_, ?_, conserved_of_posts hDispatched hStream.posts⟩, ?_⟩
  · rw [hRefused h, ← h.mem.cq.overflow]
    rfl
  · have hFlag := overflow_and_cqOverflow l.cq.refused
    rw [← h.mem.cq.sqFlags, ← hRefused h] at hFlag
    simp only [ne_eq, List.length_eq_zero_iff] at hFlag
    rw [Squeue.cqOverflow, run_load_bind]
    exact congrArg (fun b => some (b, c.mem)) hFlag
  · intro post hPost
    obtain ⟨hMem, hFull⟩ := List.mem_filter.mp hPost
    have hLe := hBounded post hMem
    have hGe : ¬ post.cqTail - post.cqHead < ring.cq.ringEntries := by
      simpa [Post.hasRoom] using hFull
    rw [UInt32.not_lt, UInt32.le_iff_toNat_le] at hGe
    exact Nat.le_antisymm hLe hGe
  · have hRoomy : roomyCqes ring c = l.cq.posted := (posted_eq h).symm
    rw [hRoomy]
    exact h.mem.cq.tail
  · intro s userData res flags hFull
    exact ⟨_, run_postCqe_of_full hFull userData res flags, sameRing_refuse s _⟩

/-- Three requests and a completion ring of two slots: the third completion is refused. -/
theorem overflow_exact_drained :
    ∃ c, (Client.start smallRing.2).runCalls smallRing.1 (nopAnswers overflowBatches)
        (overflowCalls ++ [.completion, .next]) = some c ∧
      OverflowExact smallRing.1 (nopAnswers overflowBatches) c := by
  obtain ⟨c, hDrained, hThreads, -⟩ := overflow_drained
  have hDispatched : DispatchedAs c.mem.threads (nopTraces overflowBatches)
      (nopAnswers overflowBatches) := by
    rw [hThreads]
    exact dispatchedAs_nops (by decide)
  exact ⟨c, hDrained.run, (overflow_exact smallRing_build hDrained.run hDispatched).1⟩

end Miring.Stream
