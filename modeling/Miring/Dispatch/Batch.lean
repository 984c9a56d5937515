import Miring.Dispatch.Handlers
import Miring.Entry
import Mathlib.Data.List.Forall2

/-!
# A batch on its dispatch thread

The closure that `enqueue_sqes` hands to `thread::spawn`: it dispatches the requests of one
submit call in order, cancels the rest of a link chain behind a failed request, and returns
the completion data of every request.

Every completed path of the thread answers each request once and in order
(`answers_of_path`). Where the results of `dispatch_op` are those of a function `f`, the
completion data are computed by `outcomes f` (`outcomes_of_path`), and `outcomes f` of a
list that is cut behind an unlinked request is the concatenation of the outcomes of the
parts (`outcomes_append`).
-/

namespace Miring.Dispatch

open Sys Squeue Program

/-- Result of dispatching a single SQE on the background thread. -/
structure CompletionData where
  userData : UInt64
  result : Int32
  skipSuccess : Bool
  deriving DecidableEq

def ecanceled : Int32 := -125

def skipsSuccess (sqe : IoUringSqe) : Bool := sqe.flags &&& Flags.skipSuccess != 0

def isHardlink (sqe : IoUringSqe) : Bool := sqe.flags &&& Flags.ioHardlink != 0

def linksToNext (sqe : IoUringSqe) : Bool :=
  sqe.flags &&& Flags.ioLink != 0 || isHardlink sqe

/-- The value of `cancel_chain` behind a request. -/
def nextCancelChain (cancelChain : Bool) (sqe : IoUringSqe) (result : Int32) : Bool :=
  let cancelChain :=
    if linksToNext sqe ∧ result < 0 then
      -- the hardlink flag is on the predecessor: its successor runs also if it fails
      if isHardlink sqe then cancelChain else true
    else cancelChain
  if linksToNext sqe then cancelChain else false

def dispatchUnlessCancelled (cancelChain : Bool) (sqe : IoUringSqe) : UserProgram Int32 :=
  if cancelChain then pure ecanceled
  else do
    mark (.enter sqe)
    let result ← dispatchOp sqe
    mark (.leave sqe result)
    pure result

/-- The loop over the requests of a batch. -/
def dispatchLoop (cancelChain : Bool) : List IoUringSqe → UserProgram (List CompletionData)
  | [] => pure []
  | sqe :: sqes => do
      mark .yieldNow
      let result ← dispatchUnlessCancelled cancelChain sqe
      let results ← dispatchLoop (nextCancelChain cancelChain sqe result) sqes
      pure (⟨sqe.userData, result, skipsSuccess sqe⟩ :: results)

/-- The body of the dispatch thread of a batch. -/
def dispatchBatch (sqes : List IoUringSqe) : UserProgram (List CompletionData) :=
  dispatchLoop false sqes

/-! ## Every request is answered -/

/-- The requests that went through `dispatch_op`, with its results. -/
def dispatched (tr : List (Event userSig)) : List (IoUringSqe × Int32) :=
  tr.filterMap fun
    | ⟨.note (.leave sqe result), _⟩ => some (sqe, result)
    | _ => none

theorem dispatched_append (tr tr' : List (Event userSig)) :
    dispatched (tr ++ tr') = dispatched tr ++ dispatched tr' :=
  List.filterMap_append

/-- The data of one request: its own user data and skip flag, and its own dispatch result
unless it was cancelled. -/
def Answer (tr : List (Event userSig)) (sqe : IoUringSqe) (cd : CompletionData) : Prop :=
  cd.userData = sqe.userData ∧ cd.skipSuccess = skipsSuccess sqe ∧
    (cd.result = ecanceled ∨ (sqe, cd.result) ∈ dispatched tr)

/-- Every request of a list is answered, in order. -/
def Answers (tr : List (Event userSig)) (sqes : List IoUringSqe)
    (results : List CompletionData) : Prop :=
  List.Forall₂ (Answer tr) sqes results

theorem Answers.mono {tr tr' : List (Event userSig)} {sqes : List IoUringSqe}
    {results : List CompletionData} (h : Answers tr sqes results)
    (hTr : ∀ x ∈ dispatched tr, x ∈ dispatched tr') : Answers tr' sqes results :=
  h.imp fun _ _ ⟨hUser, hSkip, hResult⟩ => ⟨hUser, hSkip, hResult.imp_right (hTr _)⟩

theorem path_dispatchLoop_cons_iff {cancelChain : Bool} {sqe : IoUringSqe}
    {sqes : List IoUringSqe} {tr : List (Event userSig)} {results : List CompletionData} :
    Path (dispatchLoop cancelChain (sqe :: sqes)) tr results ↔
      ∃ tr₁ result tr₂ rest, Path (dispatchUnlessCancelled cancelChain sqe) tr₁ result ∧
        Path (dispatchLoop (nextCancelChain cancelChain sqe result) sqes) tr₂ rest ∧
        tr = ⟨.note .yieldNow, ()⟩ :: (tr₁ ++ tr₂) ∧
        results = ⟨sqe.userData, result, skipsSuccess sqe⟩ :: rest := by
  simp only [dispatchLoop, mark, act_bind, ret_bind, path_act_iff, path_bind_iff, pure_eq,
    path_ret_iff]
  constructor
  · rintro ⟨⟨⟩, _, ⟨tr₁, result, _, h₁, ⟨tr₂, rest, _, h₂, ⟨rfl, rfl⟩, rfl⟩, rfl⟩, rfl⟩
    exact ⟨tr₁, result, tr₂, rest, h₁, h₂, by rw [List.append_nil], rfl⟩
  · rintro ⟨tr₁, result, tr₂, rest, h₁, h₂, rfl, rfl⟩
    exact ⟨(), _, ⟨tr₁, result, tr₂, h₁, ⟨tr₂, rest, [], h₂, ⟨rfl, rfl⟩, by simp⟩, rfl⟩, rfl⟩

/-- A request goes through `dispatch_op` or is cancelled. -/
theorem path_dispatchUnlessCancelled {cancelChain : Bool} {sqe : IoUringSqe}
    {tr : List (Event userSig)} {result : Int32}
    (h : Path (dispatchUnlessCancelled cancelChain sqe) tr result) :
    if cancelChain then result = ecanceled else (sqe, result) ∈ dispatched tr := by
  cases cancelChain with
  | true => exact (path_ret_iff.mp h).2
  | false =>
    simp only [dispatchUnlessCancelled, Bool.false_eq_true, if_false, mark, act_bind, ret_bind,
      path_act_iff, path_bind_iff, pure_eq, path_ret_iff] at h
    obtain ⟨_, _, ⟨tr₁, _, _, -, ⟨u, _, ⟨rfl, rfl⟩, rfl⟩, rfl⟩, rfl⟩ := h
    rw [if_neg Bool.false_ne_true, ← List.singleton_append, dispatched_append, dispatched_append]
    exact List.mem_append_right _ (List.mem_append_right _ List.mem_cons_self)

theorem answers_of_path_dispatchLoop {cancelChain : Bool} {sqes : List IoUringSqe}
    {tr : List (Event userSig)} {results : List CompletionData}
    (h : Path (dispatchLoop cancelChain sqes) tr results) : Answers tr sqes results := by
  induction sqes generalizing cancelChain tr results with
  | nil =>
    obtain ⟨-, rfl⟩ := path_ret_iff.mp h
    exact .nil
  | cons sqe sqes ih =>
    obtain ⟨tr₁, result, tr₂, rest, hOne, hRest, rfl, rfl⟩ := path_dispatchLoop_cons_iff.mp h
    have hSplit : dispatched (⟨.note .yieldNow, ()⟩ :: (tr₁ ++ tr₂)) =
        dispatched tr₁ ++ dispatched tr₂ := dispatched_append tr₁ tr₂
    have hResult := path_dispatchUnlessCancelled hOne
    refine .cons ⟨rfl, rfl, ?_⟩ ((ih hRest).mono fun x hx => ?_)
    · rw [hSplit]
      cases cancelChain with
      | true => exact .inl hResult
      | false => exact .inr (List.mem_append_left _ hResult)
    · rw [hSplit]
      exact List.mem_append_right _ hx

theorem answers_of_path {sqes : List IoUringSqe} {tr : List (Event userSig)}
    {results : List CompletionData} (h : Path (dispatchBatch sqes) tr results) :
    Answers tr sqes results :=
  answers_of_path_dispatchLoop h

/-! ## Batches whose dispatch results are a function of the request -/

/-- The results of `dispatch_op` in a trace are those of `f`. -/
def DispatchedBy (f : IoUringSqe → Int32) (tr : List (Event userSig)) : Prop :=
  ∀ x ∈ dispatched tr, x.2 = f x.1

/-- The completion data of a list of requests whose dispatch results are given by `f`. -/
def outcomes (f : IoUringSqe → Int32) : Bool → List IoUringSqe → List CompletionData
  | _, [] => []
  | cancelChain, sqe :: sqes =>
      let result := if cancelChain then ecanceled else f sqe
      ⟨sqe.userData, result, skipsSuccess sqe⟩ ::
        outcomes f (nextCancelChain cancelChain sqe result) sqes

/-- `cancel_chain` behind a list of requests. -/
def cancelChainAfter (f : IoUringSqe → Int32) : Bool → List IoUringSqe → Bool
  | cancelChain, [] => cancelChain
  | cancelChain, sqe :: sqes =>
      let result := if cancelChain then ecanceled else f sqe
      cancelChainAfter f (nextCancelChain cancelChain sqe result) sqes

theorem DispatchedBy.of_append {f : IoUringSqe → Int32} {tr tr' : List (Event userSig)}
    (h : DispatchedBy f (tr ++ tr')) : DispatchedBy f tr ∧ DispatchedBy f tr' := by
  simp only [DispatchedBy, dispatched_append, List.mem_append] at h
  exact ⟨fun x hx => h x (.inl hx), fun x hx => h x (.inr hx)⟩

/-- The result of a request is `-ECANCELED` or its own dispatch result. -/
theorem result_of_path {f : IoUringSqe → Int32} {cancelChain : Bool} {sqe : IoUringSqe}
    {tr : List (Event userSig)} {result : Int32}
    (h : Path (dispatchUnlessCancelled cancelChain sqe) tr result) (hf : DispatchedBy f tr) :
    result = if cancelChain then ecanceled else f sqe := by
  have hResult := path_dispatchUnlessCancelled h
  cases cancelChain with
  | true => exact hResult
  | false => exact hf (sqe, result) hResult

theorem outcomes_of_path_dispatchLoop {f : IoUringSqe → Int32} {cancelChain : Bool}
    {sqes : List IoUringSqe} {tr : List (Event userSig)} {results : List CompletionData}
    (h : Path (dispatchLoop cancelChain sqes) tr results) (hf : DispatchedBy f tr) :
    results = outcomes f cancelChain sqes := by
  induction sqes generalizing cancelChain tr results with
  | nil => exact (path_ret_iff.mp h).2
  | cons sqe sqes ih =>
    obtain ⟨tr₁, result, tr₂, rest, hOne, hRest, rfl, rfl⟩ := path_dispatchLoop_cons_iff.mp h
    rw [← List.singleton_append] at hf
    obtain ⟨hf₁, hf₂⟩ := hf.of_append.2.of_append
    have hResult := result_of_path hOne hf₁
    rw [hResult] at hRest
    simp only [outcomes, ← ih hRest hf₂, hResult]

theorem outcomes_of_path {f : IoUringSqe → Int32} {sqes : List IoUringSqe}
    {tr : List (Event userSig)} {results : List CompletionData}
    (h : Path (dispatchBatch sqes) tr results) (hf : DispatchedBy f tr) :
    results = outcomes f false sqes :=
  outcomes_of_path_dispatchLoop h hf

theorem outcomes_append_cancelChainAfter (f : IoUringSqe → Int32) (cancelChain : Bool)
    (xs ys : List IoUringSqe) :
    outcomes f cancelChain (xs ++ ys) =
      outcomes f cancelChain xs ++ outcomes f (cancelChainAfter f cancelChain xs) ys := by
  induction xs generalizing cancelChain with
  | nil => rfl
  | cons sqe xs ih => simp only [List.cons_append, outcomes, cancelChainAfter, ih]

/-- The list ends a chain: it is empty or its last request is not linked to the next. -/
def EndsChain (sqes : List IoUringSqe) : Prop := ∀ sqe ∈ sqes.getLast?, linksToNext sqe = false

theorem nextCancelChain_unlinked {sqe : IoUringSqe} (h : linksToNext sqe = false)
    (cancelChain : Bool) (result : Int32) : nextCancelChain cancelChain sqe result = false := by
  simp [nextCancelChain, h]

theorem cancelChainAfter_concat {last : IoUringSqe} (h : linksToNext last = false)
    (f : IoUringSqe → Int32) (cancelChain : Bool) (init : List IoUringSqe) :
    cancelChainAfter f cancelChain (init ++ [last]) = false := by
  induction init generalizing cancelChain with
  | nil => exact nextCancelChain_unlinked h _ _
  | cons sqe init ih => exact ih _

theorem EndsChain.cancelChainAfter {sqes : List IoUringSqe} (h : EndsChain sqes)
    (f : IoUringSqe → Int32) : cancelChainAfter f false sqes = false := by
  obtain rfl | ⟨init, last, rfl⟩ := List.eq_nil_or_concat' sqes
  · rfl
  · exact cancelChainAfter_concat (h last (by simp)) f false init

/-- **Cuts at chain boundaries.** Behind an unlinked request the thread starts afresh. -/
theorem outcomes_append {xs : List IoUringSqe} (h : EndsChain xs) (f : IoUringSqe → Int32)
    (ys : List IoUringSqe) :
    outcomes f false (xs ++ ys) = outcomes f false xs ++ outcomes f false ys := by
  rw [outcomes_append_cancelChainAfter, h.cancelChainAfter]

/-! ## Batches of no-ops -/

/-- A NOP that does not inject a result. -/
def IsNop (sqe : IoUringSqe) : Prop := sqe.opcode = 0 ∧ sqe.opFlags = 0

instance (sqe : IoUringSqe) : Decidable (IsNop sqe) := inferInstanceAs (Decidable (_ ∧ _))

def nopTrace (sqes : List IoUringSqe) : List (Event userSig) :=
  sqes.flatMap fun sqe =>
    [⟨.note .yieldNow, ()⟩, ⟨.note (.enter sqe), ()⟩, ⟨.note (.leave sqe 0), ()⟩]

def nopResults (sqes : List IoUringSqe) : List CompletionData :=
  sqes.map fun sqe => ⟨sqe.userData, 0, skipsSuccess sqe⟩

theorem dispatchOp_nop {sqe : IoUringSqe} (h : IsNop sqe) : dispatchOp sqe = pure 0 := by
  rw [dispatchOp, h.1]
  change dispatchNop sqe = pure 0
  rw [dispatchNop, h.2]
  rfl

theorem path_nops {sqes : List IoUringSqe} (h : ∀ sqe ∈ sqes, IsNop sqe) :
    Path (dispatchBatch sqes) (nopTrace sqes) (nopResults sqes) := by
  induction sqes with
  | nil => exact .ret _
  | cons sqe sqes ih =>
    have hRest := ih fun sqe' hsqe' => h sqe' (List.mem_cons_of_mem _ hsqe')
    have hChain : nextCancelChain false sqe 0 = false := by
      have hNonneg : ¬ (0 : Int32) < 0 := by decide
      simp [nextCancelChain, hNonneg]
    refine path_dispatchLoop_cons_iff.mpr
      ⟨[⟨.note (.enter sqe), ()⟩, ⟨.note (.leave sqe 0), ()⟩], 0, _, _, ?_, ?_, rfl, rfl⟩
    · rw [dispatchUnlessCancelled, if_neg Bool.false_ne_true,
        dispatchOp_nop (h sqe List.mem_cons_self)]
      simp only [mark, pure_eq, ret_bind, act_bind, path_act_iff, path_ret_iff]
      exact ⟨(), _, ⟨(), _, ⟨rfl, trivial⟩, rfl⟩, rfl⟩
    · rw [hChain]
      exact hRest

theorem dispatched_nopTrace (sqes : List IoUringSqe) :
    dispatched (nopTrace sqes) = sqes.map fun sqe => (sqe, 0) := by
  induction sqes with
  | nil => rfl
  | cons sqe sqes ih =>
    rw [nopTrace, List.flatMap_cons, dispatched_append, List.map_cons]
    exact congrArg (List.cons (sqe, 0)) ih

theorem dispatchedBy_nopTrace (sqes : List IoUringSqe) :
    DispatchedBy (fun _ => 0) (nopTrace sqes) := by
  intro x hx
  rw [dispatched_nopTrace] at hx
  obtain ⟨sqe, -, rfl⟩ := List.mem_map.mp hx
  rfl

end Miring.Dispatch
