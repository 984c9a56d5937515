import Miring.Stream.Completion
import Miring.Dispatch.Metadata

/-!
# Metadata of submitted requests

Beside the buffers it transfers, a request may point to metadata: an iovec array, a message
header, a timespec, a socket address, a pathname or an `open_how`. Every instance reports
`IORING_FEAT_SUBMIT_STABLE`, by which these are consumed when the request is. But only the
submission queue entry is copied at submit time. The dispatch thread reads the metadata
later, also when the caller has changed it since (`submitStable_iff`).
-/

namespace Miring.Concurrency

open Sys Miring.Ring Miring.Stream Dispatch Program Trace

/-! ## Accesses of the requests of a batch -/

/-- The request that `dispatch_op` works on behind an event. -/
def requestAfter (current : Option IoUringSqe) : Event userSig → Option IoUringSqe
  | ⟨.note (.enter sqe), _⟩ => some sqe
  | ⟨.note (.leave _ _), _⟩ => none
  | _ => current

/-- The access of an event, with the request it is made for. -/
def accessOf (current : Option IoUringSqe) (e : Event userSig) : List (IoUringSqe × Nat) :=
  match current, addr e with
  | some sqe, some a => [(sqe, a)]
  | _, _ => []

def accesses : Option IoUringSqe → List (Event userSig) → List (IoUringSqe × Nat)
  | _, [] => []
  | current, e :: tr => accessOf current e ++ accesses (requestAfter current e) tr

/-- The bytes of data buffers: what is accessed and is not metadata of the request. -/
def InBuffer (m : UserCells) (accessed : List (IoUringSqe × Nat)) (a : Nat) : Prop :=
  ∃ sqe, (sqe, a) ∈ accessed ∧ ¬ Metadata m sqe a

/-! ## Changes behind the return of submit -/

/-- The dispatch thread of a batch beside its caller. -/
structure Offload where
  thread : UserProgram (List CompletionData)
  mem : UserCells
  /-- whether `submit` has returned -/
  returned : Bool
  request : Option IoUringSqe
  accessed : List (IoUringSqe × Nat)
  /-- the accesses behind the return of `submit` -/
  late : List (IoUringSqe × Nat)

namespace Offload

def start (sqes : List IoUringSqe) (m : UserCells) : Offload :=
  ⟨dispatchBatch sqes, m, false, none, [], []⟩

/-- The thread has performed an action and goes on with `thread`. -/
def observe (s : Offload) (e : Event userSig) (thread : UserProgram (List CompletionData))
    (m : UserCells) : Offload :=
  let access := accessOf s.request e
  { s with
    thread, mem := m
    request := requestAfter s.request e
    accessed := s.accessed ++ access
    late := s.late ++ if s.returned then access else [] }

end Offload

/-- What can happen, in any order: a step of the thread, the return of `submit`, and from then
on a change of a byte that the caller may change. -/
inductive Disturbed (changeable : Nat → Prop) (s : Offload) : Offload → Prop where
  | refl : Disturbed changeable s s
  | act {s' : Offload} {o : MemOp Nat UInt8 Mark}
      {k : MemOp.Res o → UserProgram (List CompletionData)} {r : MemOp.Res o} {m' : UserCells}
      (h : Disturbed changeable s s') (hThread : s'.thread = .act o k)
      (ho : memSem o s'.mem = some (r, m')) : Disturbed changeable s (s'.observe ⟨o, r⟩ (k r) m')
  | submitReturns {s' : Offload} (h : Disturbed changeable s s') :
      Disturbed changeable s { s' with returned := true }
  | change {s' : Offload} {a : Nat} (h : Disturbed changeable s s') (hReturned : s'.returned = true)
      (ha : changeable a) (c : MemCell UInt8) :
      Disturbed changeable s { s' with mem := Function.update s'.mem a c }

/-- The caller changes metadata only. -/
def Changeable (sqes : List IoUringSqe) (m : UserCells) (tr : List (Event userSig)) (a : Nat) :
    Prop :=
  (∃ sqe ∈ sqes, Metadata m sqe a) ∧ ¬ InBuffer m (accesses none tr) a

/-- What `IORING_FEAT_SUBMIT_STABLE` promises of a batch. Without a change of the metadata it
leaves the trace `tr` and returns `results`. -/
structure SubmitStable (sqes : List IoUringSqe) (m : UserCells) (tr : List (Event userSig))
    (results : List CompletionData) : Prop where
  defined : ∀ s o k, Disturbed (Changeable sqes m tr) (.start sqes m) s →
    s.thread = .act o k → ∃ q, memSem o s.mem = some q
  completions : ∀ s results', Disturbed (Changeable sqes m tr) (.start sqes m) s →
    s.thread = .ret results' → offered results' = offered results
  buffers : ∀ s results', Disturbed (Changeable sqes m tr) (.start sqes m) s →
    s.thread = .ret results' → ∀ a, InBuffer m s.accessed a ↔ InBuffer m (accesses none tr) a
  /-- no access to metadata behind the return of `submit` -/
  unread : ∀ s, Disturbed (Changeable sqes m tr) (.start sqes m) s →
    ∀ access ∈ s.late, ¬ Metadata m access.1 access.2

/-! ## When it holds -/

/-- No request with metadata is dispatched; `cancelled` tells whether the first request is
cancelled. -/
def NoneDispatched : Prop → List IoUringSqe → Prop
  | _, [] => True
  | cancelled, sqe :: sqes =>
      (¬ cancelled → ¬ BearsMetadata sqe) ∧
        NoneDispatched (linksToNext sqe = true ∧ (cancelled ∨ Fails sqe ∧ IsSoftLink sqe)) sqes

/-! ## The accesses of a batch -/

section Accesses

variable {current : Option IoUringSqe} {sqe : IoUringSqe} {tr tr' : List (Event userSig)}

theorem accesses_append :
    accesses current (tr ++ tr') =
      accesses current tr ++ accesses (tr.foldl requestAfter current) tr' := by
  induction tr generalizing current with
  | nil => rfl
  | cons e tr ih =>
    rw [List.cons_append, accesses, accesses, ih, List.append_assoc, List.foldl_cons]

theorem requestAfter_of_access {e : Event userSig} (h : (addr e).isSome) :
    requestAfter current e = current := by
  obtain ⟨o, r⟩ := e
  cases o with
  | read a => rfl
  | write a v => rfl
  | note l => cases h

theorem foldl_requestAfter_of_quiet (h : Quiet tr) : tr.foldl requestAfter current = current := by
  induction tr with
  | nil => rfl
  | cons e tr ih =>
    rw [List.foldl_cons, requestAfter_of_access (h e List.mem_cons_self)]
    exact ih fun e' he' => h e' (List.mem_cons_of_mem _ he')

theorem mem_accesses_of_quiet (h : Quiet tr) {access : IoUringSqe × Nat} :
    access ∈ accesses (some sqe) tr ↔ access.1 = sqe ∧ Touches tr access.2 := by
  induction tr with
  | nil => exact iff_of_false nofun fun ⟨_, e, he, _⟩ => nomatch he
  | cons e tr ih =>
    have hAccess := h e List.mem_cons_self
    obtain ⟨a, ha⟩ := Option.isSome_iff_exists.mp hAccess
    have hHead : accessOf (some sqe) e = [(sqe, a)] := by simp only [accessOf, ha]
    rw [accesses, List.mem_append, requestAfter_of_access hAccess,
      ih fun e' he' => h e' (List.mem_cons_of_mem _ he'), hHead, List.mem_singleton, touches_cons,
      ha, Prod.ext_iff, Option.some.injEq]
    constructor
    · rintro (⟨hSqe, hAddr⟩ | ⟨hSqe, hRest⟩)
      · exact ⟨hSqe, .inl hAddr.symm⟩
      · exact ⟨hSqe, .inr hRest⟩
    · rintro ⟨hSqe, hAddr | hRest⟩
      · exact .inl ⟨hSqe, hAddr.symm⟩
      · exact .inr ⟨hSqe, hRest⟩

theorem accesses_cancelled :
    accesses none (Fate.trace sqe .cancelled ++ tr) = accesses none tr := rfl

theorem accesses_ran (h : Quiet tr) {result : Int32} :
    accesses none (Fate.trace sqe (.ran tr result) ++ tr') =
      accesses (some sqe) tr ++ accesses none tr' := by
  change accesses (some sqe) (tr ++ [⟨.note (.leave sqe result), ()⟩] ++ tr') = _
  rw [List.append_assoc, accesses_append, foldl_requestAfter_of_quiet h]
  rfl

/-- A request that goes through `dispatch_op` touches its metadata if it bears any. -/
theorem touched_iff {result : Int32} (hPath : Path (dispatchOp sqe) tr result) (m : UserCells) :
    (∀ a, Touches tr a → ¬ Metadata m sqe a) ↔ ¬ BearsMetadata sqe := by
  constructor
  · intro h hBears
    exact h _ (reaches_of_bears hBears tr result hPath) (metadata_of_bears hBears m)
  · intro h a ha
    exact untouched_of_not_bears h hPath ha m

/-- The batch accesses no metadata if and only if it dispatches no request that bears any. -/
theorem noneDispatched_iff {cancelChain : Bool} {sqes : List IoUringSqe} {fates : List Fate}
    (h : Fated cancelChain sqes fates) (m : UserCells) :
    (∀ access ∈ accesses none (batchTrace sqes fates), ¬ Metadata m access.1 access.2) ↔
      NoneDispatched (cancelChain = true) sqes := by
  induction h with
  | nil => exact iff_of_true nofun trivial
  | @cancelled sqe sqes fates h ih =>
    have hNext : (nextCancelChain true sqe ecanceled = true) =
        (linksToNext sqe = true ∧ (true = true ∨ Fails sqe ∧ IsSoftLink sqe)) := by
      apply propext
      rw [nextCancelChain_eq_true_iff]
      exact and_congr_right fun _ => iff_of_true (.inl rfl) (.inl rfl)
    rw [hNext] at ih
    change (∀ access ∈ accesses none (Fate.trace sqe .cancelled ++ batchTrace sqes fates), _) ↔ _
    rw [accesses_cancelled, ih]
    exact (and_iff_right fun hNot => absurd rfl hNot).symm
  | @ran sqe sqes fates tr result hOp h ih =>
    obtain ⟨hQuiet, hResult⟩ := gives_dispatchOp sqe tr result hOp
    change (∀ access ∈ accesses none (Fate.trace sqe (.ran tr result) ++ batchTrace sqes fates),
      _) ↔ _
    rw [accesses_ran hQuiet, List.forall_mem_append, ih]
    have hOwn : (∀ access ∈ accesses (some sqe) tr, ¬ Metadata m access.1 access.2) ↔
        (¬ false = true → ¬ BearsMetadata sqe) := by
      rw [← touched_iff hOp m]
      constructor
      · intro hNone _ a ha
        exact hNone (sqe, a) ((mem_accesses_of_quiet hQuiet).mpr ⟨rfl, ha⟩)
      · intro hNone access hAccess
        obtain ⟨hSqe, ha⟩ := (mem_accesses_of_quiet hQuiet).mp hAccess
        rw [hSqe]
        exact hNone Bool.false_ne_true _ ha
    rw [NoneDispatched, hOwn]
    refine and_congr_right fun hNone => ?_
    have hNext : (nextCancelChain false sqe result = true) =
        (linksToNext sqe = true ∧ (false = true ∨ Fails sqe ∧ IsSoftLink sqe)) := by
      apply propext
      rw [nextCancelChain_eq_true_iff, hResult (hNone Bool.false_ne_true)]
    rw [hNext]

/-- Every access is made for a request. -/
theorem exists_access_of_touches {cancelChain : Bool} {sqes : List IoUringSqe} {fates : List Fate}
    (h : Fated cancelChain sqes fates) {a : Nat} (ha : Touches (batchTrace sqes fates) a) :
    ∃ sqe, (sqe, a) ∈ accesses none (batchTrace sqes fates) := by
  induction h with
  | nil =>
    obtain ⟨e, he, -⟩ := ha
    cases he
  | @cancelled sqe sqes fates h ih =>
    change Touches (Fate.trace sqe .cancelled ++ batchTrace sqes fates) a at ha
    rcases touches_append.mp ha with ⟨e, he, hAddr⟩ | hRest
    · rw [List.mem_singleton.mp he] at hAddr
      cases hAddr
    · exact ih hRest
  | @ran sqe sqes fates tr result hOp h ih =>
    obtain ⟨hQuiet, -⟩ := gives_dispatchOp sqe tr result hOp
    change Touches (Fate.trace sqe (.ran tr result) ++ batchTrace sqes fates) a at ha
    change ∃ sqe', (sqe', a) ∈ accesses none (Fate.trace sqe (.ran tr result) ++
      batchTrace sqes fates)
    rw [accesses_ran hQuiet]
    rcases touches_append.mp ha with hOwn | hRest
    · have hTouched : Touches tr a := by
        rcases touches_append.mp hOwn with ⟨e, he, hAddr⟩ | ⟨e, he, hAddr⟩
        · rcases List.mem_cons.mp he with rfl | he
          · cases hAddr
          · rcases List.mem_cons.mp he with rfl | he
            · cases hAddr
            · exact ⟨e, he, hAddr⟩
        · rw [List.mem_singleton.mp he] at hAddr
          cases hAddr
      exact ⟨sqe, List.mem_append_left _ ((mem_accesses_of_quiet hQuiet).mpr ⟨rfl, hTouched⟩)⟩
    · obtain ⟨sqe', hMem⟩ := ih hRest
      exact ⟨sqe', List.mem_append_right _ hMem⟩

end Accesses

/-! ## Batches without metadata are stable -/

section Stable

variable {sqes : List IoUringSqe} {m : UserCells} {tr : List (Event userSig)}
  {results : List CompletionData} {changeable : Nat → Prop} {s s' : Offload}

/-- The thread has come some way along the trace `tr`, and will go the rest of it. -/
structure OnCourse (tr : List (Event userSig)) (results : List CompletionData) (s : Offload) :
    Prop where
  course : ∃ past rest, tr = past ++ rest ∧
    exec memSem s.thread s.mem = some (rest, results, stores rest s.mem) ∧
    s.accessed = accesses none past ∧ s.request = past.foldl requestAfter none
  late : ∀ access ∈ s.late, access ∈ s.accessed

theorem onCourse_of_disturbed (hStart : OnCourse tr results s)
    (hClean : ∀ a, changeable a → ¬ Touches tr a) (h : Disturbed changeable s s') :
    OnCourse tr results s' := by
  induction h with
  | refl => exact hStart
  | @act s' o k r m' h hThread ho ih =>
    obtain ⟨past, rest, hTrace, hExec, hAccessed, hRequest⟩ := ih.course
    rw [hThread] at hExec
    obtain ⟨r', m₁, rest', ho', hExec', rfl⟩ := exec_act_iff.mp hExec
    obtain ⟨rfl, rfl⟩ := Prod.mk.inj (Option.some.inj (ho.symm.trans ho'))
    refine ⟨⟨past ++ [⟨o, r⟩], rest', ?_, ?_, ?_, ?_⟩, ?_⟩
    · rw [hTrace, List.append_assoc]
      rfl
    · have hStores := exec_stores hExec'
      rw [hStores] at hExec'
      exact hExec'
    · change s'.accessed ++ accessOf s'.request ⟨o, r⟩ = _
      rw [accesses_append, ← hAccessed, ← hRequest]
      exact congrArg _ (List.append_nil _).symm
    · change requestAfter s'.request ⟨o, r⟩ = _
      rw [List.foldl_append, ← hRequest]
      rfl
    · intro access hAccess
      change access ∈ s'.accessed ++ accessOf s'.request ⟨o, r⟩
      rcases List.mem_append.mp hAccess with hOld | hNew
      · exact List.mem_append_left _ (ih.late access hOld)
      · apply List.mem_append_right
        cases hReturned : s'.returned with
        | true => rwa [hReturned, if_pos rfl] at hNew
        | false =>
          rw [hReturned] at hNew
          cases hNew
  | submitReturns h ih => exact ⟨ih.course, ih.late⟩
  | @change s' a h hReturned ha c ih =>
    obtain ⟨past, rest, hTrace, hExec, hAccessed, hRequest⟩ := ih.course
    refine ⟨⟨past, rest, hTrace, ?_, hAccessed, hRequest⟩, ih.late⟩
    refine exec_congr hExec fun x hx => Function.update_of_ne ?_ _ _
    rintro rfl
    apply hClean x ha
    rw [hTrace]
    exact touches_append.mpr (.inr hx)

theorem accesses_prefix {current : Option IoUringSqe} {past rest : List (Event userSig)}
    {access : IoUringSqe × Nat} (h : access ∈ accesses current past) :
    access ∈ accesses current (past ++ rest) := by
  rw [accesses_append]
  exact List.mem_append_left _ h

/-- A batch that accesses no metadata does not notice a change of it. -/
theorem stable_of_clean {m' : UserCells} (hRun : Runs (dispatchBatch sqes) m tr results m')
    (hClean : ∀ access ∈ accesses none tr, ¬ Metadata m access.1 access.2)
    (hMade : ∀ a, Touches tr a → ∃ sqe, (sqe, a) ∈ accesses none tr) :
    SubmitStable sqes m tr results := by
  have hUntouched : ∀ a, Changeable sqes m tr a → ¬ Touches tr a := by
    intro a ha hTouched
    obtain ⟨sqe, hAccess⟩ := hMade a hTouched
    exact ha.2 ⟨sqe, hAccess, hClean _ hAccess⟩
  have hStart : OnCourse tr results (.start sqes m) := by
    refine ⟨⟨[], tr, rfl, ?_, rfl, rfl⟩, nofun⟩
    have hStores := exec_stores hRun
    rw [hStores] at hRun
    exact hRun
  have hCourse : ∀ s, Disturbed (Changeable sqes m tr) (.start sqes m) s →
      OnCourse tr results s := fun s h => onCourse_of_disturbed hStart hUntouched h
  -- where the thread has returned, it has gone all the way
  have hEnd : ∀ s results', Disturbed (Changeable sqes m tr) (.start sqes m) s →
      s.thread = .ret results' → results' = results ∧ s.accessed = accesses none tr := by
    intro s results' h hThread
    obtain ⟨past, rest, hTrace, hExec, hAccessed, -⟩ := (hCourse s h).course
    rw [hThread] at hExec
    obtain ⟨rfl, hRest⟩ := Prod.mk.inj (Option.some.inj hExec)
    obtain ⟨rfl, -⟩ := Prod.mk.inj hRest
    rw [List.append_nil] at hTrace
    rw [hTrace]
    exact ⟨rfl, hAccessed⟩
  refine ⟨?_, ?_, ?_, ?_⟩
  · intro s o k h hThread
    obtain ⟨past, rest, -, hExec, -⟩ := (hCourse s h).course
    rw [hThread] at hExec
    obtain ⟨r, m₁, rest', ho, -⟩ := exec_act_iff.mp hExec
    exact ⟨(r, m₁), ho⟩
  · intro s results' h hThread
    rw [(hEnd s results' h hThread).1]
  · intro s results' h hThread a
    rw [(hEnd s results' h hThread).2]
  · intro s h access hAccess
    obtain ⟨past, rest, hTrace, -, hAccessed, -⟩ := (hCourse s h).course
    have hPast := (hCourse s h).late access hAccess
    rw [hAccessed] at hPast
    apply hClean access
    rw [hTrace]
    exact accesses_prefix hPast

/-! ## Stable batches do without metadata -/

/-- The schedule in which nothing happens but the rest of the thread. -/
theorem disturbed_of_exec {s₀ : Offload} (h : Disturbed changeable s₀ s)
    (hReturned : s.returned = true) {m' : UserCells} {rest : List (Event userSig)}
    (hExec : exec memSem s.thread s.mem = some (rest, results, m')) :
    ∃ s', Disturbed changeable s₀ s' ∧ s'.late = s.late ++ accesses s.request rest := by
  generalize hThread : s.thread = p at hExec
  induction p generalizing s rest with
  | ret a =>
    obtain ⟨rfl, -⟩ := Prod.mk.inj (Option.some.inj hExec)
    exact ⟨s, h, (List.append_nil _).symm⟩
  | act o k ih =>
    obtain ⟨r, m₁, rest', ho, hRest, rfl⟩ := exec_act_iff.mp hExec
    obtain ⟨s', hs', hLate⟩ := ih r (s := s.observe ⟨o, r⟩ (k r) m₁) (h.act hThread ho)
      hReturned rfl hRest
    refine ⟨s', hs', hLate.trans ?_⟩
    change s.late ++ (if s.returned then accessOf s.request ⟨o, r⟩ else []) ++
      accesses (requestAfter s.request ⟨o, r⟩) rest' = _
    rw [hReturned, if_pos rfl, List.append_assoc]
    rfl

theorem clean_of_stable {m' : UserCells} (hRun : Runs (dispatchBatch sqes) m tr results m')
    (h : SubmitStable sqes m tr results) :
    ∀ access ∈ accesses none tr, ¬ Metadata m access.1 access.2 := by
  have hReturned : Disturbed (Changeable sqes m tr) (.start sqes m)
      { Offload.start sqes m with returned := true } := .submitReturns .refl
  obtain ⟨s, hs, hLate⟩ := disturbed_of_exec hReturned rfl hRun
  have hAll : s.late = accesses none tr := hLate
  rw [← hAll]
  exact h.unread s hs

theorem stable_iff {m' : UserCells} (hRun : Runs (dispatchBatch sqes) m tr results m') :
    SubmitStable sqes m tr results ↔ NoneDispatched False sqes := by
  obtain ⟨fates, hFated, hTrace, -⟩ := path_dispatchLoop_iff.mp (path_of_exec hRun)
  have hNone := noneDispatched_iff hFated m
  rw [← hTrace, Bool.false_eq_true] at hNone
  rw [← hNone]
  refine ⟨clean_of_stable hRun, fun hClean => stable_of_clean hRun hClean ?_⟩
  intro a ha
  rw [hTrace] at ha ⊢
  exact exists_access_of_touches hFated ha

end Stable

section Result

variable {S C : Type} [Squeue.EntryMarker S] [Cqueue.EntryMarker C]

/-- Every instance reports the feature. -/
theorem isFeatureSubmitStable_of_build {b : Builder S C} {overflowChecks : Bool} {entries : UInt32}
    {ring : IoUring S C} {mem : RingMem S C}
    (hBuild : b.build overflowChecks entries = some (.ok (ring, mem))) :
    ring.params.isFeatureSubmitStable = true := by
  rw [Parameters.isFeatureSubmitStable, Builder.features_of_build hBuild]
  decide

/-- **Submit stability.** The feature is reported, and the batch keeps its promise if and only
if it dispatches no request that bears metadata. -/
theorem submitStable_iff {b : Builder S C} {overflowChecks : Bool} {entries : UInt32}
    {ring : IoUring S C} {mem : RingMem S C}
    (hBuild : b.build overflowChecks entries = some (.ok (ring, mem))) {sqes : List IoUringSqe}
    (m : UserMem) {tr : List (Event userSig)} {results : List CompletionData} {m' : UserCells}
    (hRun : Runs (dispatchBatch sqes) m.cells tr results m') :
    ring.params.isFeatureSubmitStable = true ∧
      (SubmitStable sqes m.cells tr results ↔ NoneDispatched False sqes) :=
  ⟨isFeatureSubmitStable_of_build hBuild, stable_iff hRun⟩

end Result

/-! ### An iovec array that is read late -/

/-- A request with one data buffer. -/
def readOne : IoUringSqe := { opcode := 22, addr := 4096, len := 1 }

theorem submitStable_iff_readOne :
    ∃ tr results, smallRing.1.params.isFeatureSubmitStable = true ∧
      SubmitStable [readOne] zeros.cells tr results := by
  have hSome : (exec memSem (dispatchBatch [readOne]) zeros.cells).isSome := by decide +kernel
  obtain ⟨⟨tr, results, m'⟩, hRun⟩ := Option.isSome_iff_exists.mp hSome
  obtain ⟨hFeature, hStable⟩ := submitStable_iff smallRing_build zeros hRun
  exact ⟨tr, results, hFeature, hStable.mpr ⟨fun _ => id, trivial⟩⟩

/-- A `readv` with one iovec, which is empty in a memory of zeros. -/
def readvOne : IoUringSqe := { opcode := 1, addr := 4096, len := 1 }

theorem readv_not_stable :
    smallRing.1.params.isFeatureSubmitStable = true ∧
      ∃ tr results m', Runs (dispatchBatch [readvOne]) zeros.cells tr results m' ∧
        ¬ SubmitStable [readvOne] zeros.cells tr results := by
  have hSome : (exec memSem (dispatchBatch [readvOne]) zeros.cells).isSome := by decide +kernel
  obtain ⟨⟨tr, results, m'⟩, hRun⟩ := Option.isSome_iff_exists.mp hSome
  refine ⟨isFeatureSubmitStable_of_build smallRing_build, tr, results, m', hRun, ?_⟩
  rw [stable_iff hRun]
  intro hNone
  exact hNone.1 id ⟨by decide, by decide⟩

end Miring.Concurrency
