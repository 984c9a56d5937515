import Miring.Dispatch.Batch

/-!
# Link chains

A batch falls into chains: a chain ends with the first request that carries neither
`IO_LINK` nor `IO_HARDLINK`, or with the batch. `ChainFates` says without a flag that is
carried along which requests of a chain are cancelled: those behind a request of the same
chain that was dispatched, failed and is linked softly. `link_chains` is that the dispatch
thread does exactly this, whatever the dispatched requests return.
-/

namespace Miring.Dispatch

open Sys Squeue Program

/-! ## Statement -/

/-- `IO_LINK` without `IO_HARDLINK` -/
def IsSoftLink (sqe : IoUringSqe) : Prop := sqe.flags &&& Flags.ioLink ≠ 0 ∧ isHardlink sqe = false

/-- No chain ends between the requests `j` and `i`. -/
def SameChain (sqes : List IoUringSqe) (j i : Nat) : Prop :=
  ∀ k sqe, j ≤ k → k < i → sqes[k]? = some sqe → linksToNext sqe = true

/-- What becomes of a request: the trace and the result of its dispatch, if there is one. -/
inductive Fate where
  | cancelled
  | ran (tr : List (Event userSig)) (result : Int32)

def Fate.result : Fate → Int32
  | .cancelled => ecanceled
  | .ran _ result => result

/-- What the dispatch thread does for one request. -/
def Fate.trace (sqe : IoUringSqe) : Fate → List (Event userSig)
  | .cancelled => [⟨.note .yieldNow, ()⟩]
  | .ran tr result =>
      ⟨.note .yieldNow, ()⟩ :: ⟨.note (.enter sqe), ()⟩ :: tr ++ [⟨.note (.leave sqe result), ()⟩]

def batchTrace (sqes : List IoUringSqe) (fates : List Fate) : List (Event userSig) :=
  (List.zipWith Fate.trace sqes fates).flatten

def batchResults (sqes : List IoUringSqe) (fates : List Fate) : List CompletionData :=
  List.zipWith (fun sqe fate => ⟨sqe.userData, fate.result, skipsSuccess sqe⟩) sqes fates

/-- A request of the chain of request `i`, before it, was dispatched, failed and is linked
softly. -/
def FailedBefore (sqes : List IoUringSqe) (fates : List Fate) (i : Nat) : Prop :=
  ∃ j sqe tr result, j < i ∧ SameChain sqes j i ∧ sqes[j]? = some sqe ∧
    fates[j]? = some (.ran tr result) ∧ result < 0 ∧ IsSoftLink sqe

structure ChainFates (sqes : List IoUringSqe) (fates : List Fate) : Prop where
  length : fates.length = sqes.length
  ran : ∀ (i : Nat) sqe tr result, sqes[i]? = some sqe → fates[i]? = some (Fate.ran tr result) →
    Path (dispatchOp sqe) tr result
  cancelled : ∀ i < sqes.length, fates[i]? = some Fate.cancelled ↔ FailedBefore sqes fates i

/-! ## The loop -/

/-- The chain flag behind a request. -/
theorem nextCancelChain_eq_true_iff {cancelChain : Bool} {sqe : IoUringSqe} {result : Int32} :
    nextCancelChain cancelChain sqe result = true ↔
      linksToNext sqe = true ∧ (cancelChain = true ∨ result < 0 ∧ IsSoftLink sqe) := by
  have hLinks : linksToNext sqe = true ↔
      sqe.flags &&& Flags.ioLink ≠ 0 ∨ isHardlink sqe = true := by
    rw [linksToNext, Bool.or_eq_true, bne_iff_ne]
  unfold nextCancelChain
  by_cases hNext : linksToNext sqe = true
  · by_cases hHard : isHardlink sqe = true
    · simp [hNext, hHard, IsSoftLink]
    · have hSoft : IsSoftLink sqe :=
        ⟨(hLinks.mp hNext).resolve_right hHard, Bool.eq_false_iff.mpr hHard⟩
      by_cases hNeg : result < 0
      · simp [hNext, hHard, hNeg, hSoft]
      · simp [hNext, hNeg]
  · simp [hNext]

/-- The fates of a list of requests that starts with the chain flag `cancelChain`. -/
inductive Fated : Bool → List IoUringSqe → List Fate → Prop where
  | nil {cancelChain : Bool} : Fated cancelChain [] []
  | cancelled {sqe : IoUringSqe} {sqes : List IoUringSqe} {fates : List Fate}
      (h : Fated (nextCancelChain true sqe ecanceled) sqes fates) :
      Fated true (sqe :: sqes) (.cancelled :: fates)
  | ran {sqe : IoUringSqe} {sqes : List IoUringSqe} {fates : List Fate}
      {tr : List (Event userSig)} {result : Int32} (hOp : Path (dispatchOp sqe) tr result)
      (h : Fated (nextCancelChain false sqe result) sqes fates) :
      Fated false (sqe :: sqes) (.ran tr result :: fates)

theorem path_dispatchUnlessCancelled_false_iff {sqe : IoUringSqe} {tr : List (Event userSig)}
    {result : Int32} :
    Path (dispatchUnlessCancelled false sqe) tr result ↔
      ∃ tr', Path (dispatchOp sqe) tr' result ∧
        tr = ⟨.note (.enter sqe), ()⟩ :: tr' ++ [⟨.note (.leave sqe result), ()⟩] := by
  simp only [dispatchUnlessCancelled, Bool.false_eq_true, if_false, mark, act_bind, ret_bind,
    path_act_iff, path_bind_iff, pure_eq, path_ret_iff]
  constructor
  · rintro ⟨_, _, ⟨tr', _, _, hOp, ⟨u, _, ⟨rfl, rfl⟩, rfl⟩, rfl⟩, rfl⟩
    exact ⟨tr', hOp, rfl⟩
  · rintro ⟨tr', hOp, rfl⟩
    exact ⟨(), _, ⟨tr', result, _, hOp, ⟨(), [], ⟨rfl, rfl⟩, rfl⟩, rfl⟩, rfl⟩

theorem path_dispatchLoop_iff {cancelChain : Bool} {sqes : List IoUringSqe}
    {tr : List (Event userSig)} {results : List CompletionData} :
    Path (dispatchLoop cancelChain sqes) tr results ↔
      ∃ fates, Fated cancelChain sqes fates ∧ tr = batchTrace sqes fates ∧
        results = batchResults sqes fates := by
  induction sqes generalizing cancelChain tr results with
  | nil =>
    rw [dispatchLoop, pure_eq, path_ret_iff]
    constructor
    · rintro ⟨rfl, rfl⟩
      exact ⟨[], .nil, rfl, rfl⟩
    · rintro ⟨fates, hFated, rfl, rfl⟩
      exact ⟨rfl, rfl⟩
  | cons sqe sqes ih =>
    rw [path_dispatchLoop_cons_iff]
    constructor
    · rintro ⟨tr₁, result, tr₂, rest, hOne, hRest, rfl, rfl⟩
      obtain ⟨fates, hFated, rfl, rfl⟩ := ih.mp hRest
      cases cancelChain with
      | true =>
        obtain ⟨rfl, rfl⟩ := path_ret_iff.mp hOne
        exact ⟨.cancelled :: fates, .cancelled hFated, rfl, rfl⟩
      | false =>
        obtain ⟨tr', hOp, rfl⟩ := path_dispatchUnlessCancelled_false_iff.mp hOne
        exact ⟨.ran tr' result :: fates, .ran hOp hFated, rfl, rfl⟩
    · rintro ⟨fates, hFated, rfl, rfl⟩
      cases hFated with
      | @cancelled _ _ fates hFated =>
        exact ⟨[], ecanceled, _, _, .ret _, ih.mpr ⟨fates, hFated, rfl, rfl⟩, rfl, rfl⟩
      | @ran _ _ fates tr' result hOp hFated =>
        exact ⟨_, result, _, _, path_dispatchUnlessCancelled_false_iff.mpr ⟨tr', hOp, rfl⟩,
          ih.mpr ⟨fates, hFated, rfl, rfl⟩, rfl, rfl⟩

/-! ## The loop against the chains -/

/-- `ChainFates` for the rest of a batch: `cancelChain` stands for what came before. -/
structure RestFates (cancelChain : Bool) (sqes : List IoUringSqe) (fates : List Fate) : Prop where
  length : fates.length = sqes.length
  ran : ∀ (i : Nat) sqe tr result, sqes[i]? = some sqe → fates[i]? = some (Fate.ran tr result) →
    Path (dispatchOp sqe) tr result
  cancelled : ∀ i < sqes.length, fates[i]? = some Fate.cancelled ↔
    cancelChain = true ∧ SameChain sqes 0 i ∨ FailedBefore sqes fates i

theorem sameChain_succ {sqe : IoUringSqe} {sqes : List IoUringSqe} {j i : Nat} :
    SameChain (sqe :: sqes) (j + 1) (i + 1) ↔ SameChain sqes j i := by
  constructor
  · intro h k sqe' hj hi hk
    exact h (k + 1) sqe' (by omega) (by omega) hk
  · intro h k sqe' hj hi hk
    cases k with
    | zero => omega
    | succ k => exact h k sqe' (by omega) (by omega) hk

theorem sameChain_zero_succ {sqe : IoUringSqe} {sqes : List IoUringSqe} {i : Nat} :
    SameChain (sqe :: sqes) 0 (i + 1) ↔ linksToNext sqe = true ∧ SameChain sqes 0 i := by
  constructor
  · intro h
    exact ⟨h 0 sqe (by omega) (by omega) rfl,
      fun k sqe' _ hi hk => h (k + 1) sqe' (by omega) (by omega) hk⟩
  · rintro ⟨hFirst, hRest⟩ k sqe' _ hi hk
    cases k with
    | zero =>
      obtain rfl := Option.some.inj hk
      exact hFirst
    | succ k => exact hRest k sqe' (by omega) (by omega) hk

/-- The request that failed is the first one or a later one. -/
theorem failedBefore_succ {sqe : IoUringSqe} {sqes : List IoUringSqe} {fate : Fate}
    {fates : List Fate} {i : Nat} :
    FailedBefore (sqe :: sqes) (fate :: fates) (i + 1) ↔
      (∃ tr result, fate = .ran tr result ∧ result < 0 ∧ IsSoftLink sqe) ∧
          linksToNext sqe = true ∧ SameChain sqes 0 i ∨
        FailedBefore sqes fates i := by
  constructor
  · rintro ⟨j, sqe', tr, result, hj, hChain, hSqe, hFate, hNeg, hSoft⟩
    cases j with
    | zero =>
      obtain rfl := Option.some.inj hSqe
      exact .inl ⟨⟨tr, result, Option.some.inj hFate, hNeg, hSoft⟩, sameChain_zero_succ.mp hChain⟩
    | succ j =>
      exact .inr ⟨j, sqe', tr, result, by omega, sameChain_succ.mp hChain, hSqe, hFate, hNeg, hSoft⟩
  · rintro (⟨⟨tr, result, rfl, hNeg, hSoft⟩, hChain⟩ | ⟨j, sqe', tr, result, hj, hChain, hRest⟩)
    · exact ⟨0, sqe, tr, result, by omega, sameChain_zero_succ.mpr hChain, rfl, rfl, hNeg, hSoft⟩
    · exact ⟨j + 1, sqe', tr, result, by omega, sameChain_succ.mpr hChain, hRest⟩

theorem not_failedBefore_zero (sqes : List IoUringSqe) (fates : List Fate) :
    ¬ FailedBefore sqes fates 0 := by
  rintro ⟨j, sqe, tr, result, hj, -⟩
  omega

/-- The flag behind the first request says whether the second one is cancelled. -/
theorem cancelled_succ_iff {cancelChain : Bool} {sqe : IoUringSqe} {sqes : List IoUringSqe}
    {fate : Fate} {fates : List Fate} (hFate : fate = .cancelled ↔ cancelChain = true) (i : Nat) :
    cancelChain = true ∧ SameChain (sqe :: sqes) 0 (i + 1) ∨
        FailedBefore (sqe :: sqes) (fate :: fates) (i + 1) ↔
      nextCancelChain cancelChain sqe fate.result = true ∧ SameChain sqes 0 i ∨
        FailedBefore sqes fates i := by
  rw [failedBefore_succ, sameChain_zero_succ, nextCancelChain_eq_true_iff, ← or_assoc]
  refine or_congr_left ?_
  cases fate with
  | cancelled =>
    have hCancel := hFate.mp rfl
    constructor
    · rintro (⟨-, hLinks, hChain⟩ | ⟨⟨tr, result, hRan, -⟩, -⟩)
      · exact ⟨⟨hLinks, .inl hCancel⟩, hChain⟩
      · cases hRan
    · rintro ⟨⟨hLinks, -⟩, hChain⟩
      exact .inl ⟨hCancel, hLinks, hChain⟩
  | ran tr result =>
    have hCancel : ¬ cancelChain = true := fun h => nomatch hFate.mpr h
    constructor
    · rintro (⟨h, -⟩ | ⟨⟨tr', result', hRan, hNeg, hSoft⟩, hLinks, hChain⟩)
      · exact absurd h hCancel
      · obtain ⟨rfl, rfl⟩ := Fate.ran.inj hRan
        exact ⟨⟨hLinks, .inr ⟨hNeg, hSoft⟩⟩, hChain⟩
    · rintro ⟨⟨hLinks, h | ⟨hNeg, hSoft⟩⟩, hChain⟩
      · exact absurd h hCancel
      · exact .inr ⟨⟨tr, result, rfl, hNeg, hSoft⟩, hLinks, hChain⟩

theorem restFates_nil_iff {cancelChain : Bool} {fates : List Fate} :
    RestFates cancelChain [] fates ↔ fates = [] := by
  constructor
  · intro h
    exact List.length_eq_zero_iff.mp h.length
  · rintro rfl
    exact ⟨rfl, fun i sqe tr result hSqe => by simp at hSqe, fun i hi => by simp at hi⟩

theorem restFates_cons_iff {cancelChain : Bool} {sqe : IoUringSqe} {sqes : List IoUringSqe}
    {fate : Fate} {fates : List Fate} :
    RestFates cancelChain (sqe :: sqes) (fate :: fates) ↔
      (fate = .cancelled ↔ cancelChain = true) ∧
      (∀ tr result, fate = .ran tr result → Path (dispatchOp sqe) tr result) ∧
      RestFates (nextCancelChain cancelChain sqe fate.result) sqes fates := by
  constructor
  · intro h
    have hFate : fate = .cancelled ↔ cancelChain = true := by
      have hFirst := h.cancelled 0 (by simp)
      constructor
      · rintro rfl
        rcases hFirst.mp rfl with ⟨hCancel, -⟩ | hFailed
        · exact hCancel
        · exact absurd hFailed (not_failedBefore_zero _ _)
      · intro hCancel
        have hSame : SameChain (sqe :: sqes) 0 0 := fun k _ _ hk => by omega
        exact Option.some.inj (hFirst.mpr (.inl ⟨hCancel, hSame⟩))
    refine ⟨hFate, fun tr result hRan => h.ran 0 sqe tr result rfl (by rw [hRan]; rfl), ?_⟩
    refine ⟨Nat.succ.inj h.length, fun i => h.ran (i + 1), fun i hi => ?_⟩
    rw [← cancelled_succ_iff hFate]
    exact h.cancelled (i + 1) (by simpa using hi)
  · rintro ⟨hFate, hRan, h⟩
    refine ⟨congrArg Nat.succ h.length, ?_, ?_⟩
    · intro i sqe' tr result hSqe hResult
      cases i with
      | zero =>
        obtain rfl := Option.some.inj hSqe
        exact hRan tr result (Option.some.inj hResult)
      | succ i => exact h.ran i sqe' tr result hSqe hResult
    · intro i hi
      cases i with
      | zero =>
        constructor
        · intro hFirst
          exact .inl ⟨hFate.mp (Option.some.inj hFirst), fun k _ _ hk => by omega⟩
        · rintro (⟨hCancel, -⟩ | hFailed)
          · exact congrArg some (hFate.mpr hCancel)
          · exact absurd hFailed (not_failedBefore_zero _ _)
      | succ i =>
        rw [cancelled_succ_iff hFate]
        exact h.cancelled i (by simpa using hi)

theorem runs_iff {cancelChain : Bool} {sqes : List IoUringSqe} {fates : List Fate} :
    Fated cancelChain sqes fates ↔ RestFates cancelChain sqes fates := by
  induction sqes generalizing cancelChain fates with
  | nil =>
    rw [restFates_nil_iff]
    constructor
    · intro h
      cases h
      rfl
    · rintro rfl
      exact .nil
  | cons sqe sqes ih =>
    constructor
    · intro h
      cases h with
      | cancelled h => exact restFates_cons_iff.mpr ⟨by simp, nofun, ih.mp h⟩
      | ran hOp h =>
        refine restFates_cons_iff.mpr ⟨by simp, ?_, ih.mp h⟩
        rintro tr result hRan
        obtain ⟨rfl, rfl⟩ := Fate.ran.inj hRan
        exact hOp
    · intro h
      cases fates with
      | nil => cases h.length
      | cons fate fates =>
        obtain ⟨hFate, hRan, hRest⟩ := restFates_cons_iff.mp h
        cases fate with
        | cancelled =>
          obtain rfl := hFate.mp rfl
          exact .cancelled (ih.mpr hRest)
        | ran tr result =>
          obtain rfl : cancelChain = false := Bool.eq_false_iff.mpr fun hc => nomatch hFate.mpr hc
          exact .ran (hRan tr result rfl) (ih.mpr hRest)

/-- **Link chains.** A dispatch thread can do exactly what the chains of its batch allow. -/
theorem link_chains (sqes : List IoUringSqe) (tr : List (Event userSig))
    (results : List CompletionData) :
    Path (dispatchBatch sqes) tr results ↔
      ∃ fates, ChainFates sqes fates ∧ tr = batchTrace sqes fates ∧
        results = batchResults sqes fates := by
  have hChains : ∀ fates, ChainFates sqes fates ↔ Fated false sqes fates := by
    intro fates
    rw [runs_iff]
    constructor
    · intro h
      exact ⟨h.length, h.ran, fun i hi => by simpa using h.cancelled i hi⟩
    · intro h
      exact ⟨h.length, h.ran, fun i hi => by simpa using h.cancelled i hi⟩
  simp only [hChains]
  exact path_dispatchLoop_iff

end Miring.Dispatch
