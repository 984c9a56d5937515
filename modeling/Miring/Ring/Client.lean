import Miring.Ring.IoUring

/-!
# Clients of an instance

The calls a client can make, the handles it holds, and its runs: a run performs one call
after another and records each call with its reply.

Which handles are alive is all that the borrow rules say about the order of the calls.
`submission_shared` and `completion_shared` allow the same calls as `submission` and
`completion` and allow a handle of the one queue beside an owner of the other, so the rules
here are those of the shared variants. A `Submitter` has no state and can be used at any time.
-/

namespace Miring

open Sys Dispatch Program

/-- Calls that only look at the ring. -/
inductive Query where
  | sqLen | sqIsEmpty | sqIsFull | sqCapacity | sqNeedWakeup | sqDropped | sqCqOverflow | sqTaskrun
  | cqLen | cqIsEmpty | cqIsFull | cqCapacity | cqOverflow | cqEventfdDisabled
  deriving DecidableEq

inductive Call (S : Type) where
  | submission
  | push (entry : S)
  | pushMultiple (entries : List S)
  | sqSync
  | sqDrop
  | submit
  | submitAndWait (want : Nat)
  | submitWithArgs (want : Nat)
  | enter (toSubmit minComplete : UInt32)
  | completion
  | next
  | fill (n : Nat)
  | cqSync
  | cqDrop
  | split
  | query (q : Query)

inductive Reply (C : Type) where
  | unit
  | pushed (r : Except Squeue.PushError Unit)
  | count (n : Nat)
  | entry (e : Option C)
  | entries (es : List C)
  | number (n : Nat)
  | flag (b : Bool)

def Reply.map {C D : Type} (f : C → D) : Reply C → Reply D
  | .unit => .unit
  | .pushed r => .pushed r
  | .count n => .count n
  | .entry e => .entry (e.map f)
  | .entries es => .entries (es.map f)
  | .number n => .number n
  | .flag b => .flag b

/-- Which queue handles are alive. -/
structure Handles where
  sq : Bool
  cq : Bool
  deriving DecidableEq

def Handles.none : Handles := ⟨false, false⟩

/-- The handles a query needs. -/
def Query.allowed (h : Handles) : Query → Bool
  | .sqLen | .sqIsEmpty | .sqIsFull | .sqCapacity | .sqNeedWakeup | .sqDropped | .sqCqOverflow
  | .sqTaskrun => h.sq
  | .cqLen | .cqIsEmpty | .cqIsFull | .cqCapacity | .cqOverflow | .cqEventfdDisabled => h.cq

/-- The handles behind a call; `none` where the borrow rules reject it. -/
def Call.handles {S : Type} (h : Handles) : Call S → Option Handles
  | .submission => if h.sq then none else some { h with sq := true }
  | .push _ | .pushMultiple _ | .sqSync => if h.sq then some h else none
  | .sqDrop => if h.sq then some { h with sq := false } else none
  | .submit | .submitAndWait _ | .submitWithArgs _ | .enter _ _ => some h
  | .completion => if h.cq then none else some { h with cq := true }
  | .next | .fill _ | .cqSync => if h.cq then some h else none
  | .cqDrop => if h.cq then some { h with cq := false } else none
  | .split => if h.sq || h.cq then none else some ⟨true, true⟩
  | .query q => if q.allowed h then some h else none

/-- The handles behind a list of calls. -/
def handlesAfter {S : Type} : Handles → List (Call S) → Option Handles
  | h, [] => some h
  | h, call :: calls => (call.handles h).bind fun h' => handlesAfter h' calls

variable {S C : Type} [Squeue.EntryMarker S] [Cqueue.EntryMarker C]

def Query.program (ring : IoUring S C) : Query → RingProgram S C (Reply C)
  | .sqLen => .number <$> Squeue.len
  | .sqIsEmpty => .flag <$> Squeue.isEmpty
  | .sqIsFull => .flag <$> Squeue.isFull ring.sq
  | .sqCapacity => pure (.number (Squeue.capacity ring.sq))
  | .sqNeedWakeup => .flag <$> Squeue.needWakeup
  | .sqDropped => (fun n => .number n.toNat) <$> Squeue.dropped
  | .sqCqOverflow => .flag <$> Squeue.cqOverflow
  | .sqTaskrun => .flag <$> Squeue.taskrun
  | .cqLen => .number <$> Cqueue.len
  | .cqIsEmpty => .flag <$> Cqueue.isEmpty
  | .cqIsFull => .flag <$> Cqueue.isFull ring.cq
  | .cqCapacity => pure (.number (Cqueue.capacity ring.cq))
  | .cqOverflow => (fun n => .number n.toNat) <$> Cqueue.overflow
  | .cqEventfdDisabled => .flag <$> Cqueue.eventfdDisabled

def Call.program (ring : IoUring S C) : Call S → RingProgram S C (Reply C)
  | .submission => (fun _ => .unit) <$> ring.submission
  | .push entry => .pushed <$> Squeue.push ring.sq entry
  | .pushMultiple entries => .pushed <$> Squeue.pushMultiple ring.sq entries
  | .sqSync => (fun _ => .unit) <$> Squeue.sync
  | .sqDrop => (fun _ => .unit) <$> Squeue.drop
  | .submit => .count <$> ring.submitter.submit
  | .submitAndWait want => .count <$> ring.submitter.submitAndWait want
  | .submitWithArgs want => .count <$> ring.submitter.submitWithArgs want
  | .enter toSubmit minComplete => .count <$> ring.submitter.enter toSubmit minComplete
  | .completion => (fun _ => .unit) <$> ring.completion
  | .next => .entry <$> Cqueue.next ring.cq
  | .fill n => .entries <$> Cqueue.fill ring.cq n
  | .cqSync => (fun _ => .unit) <$> Cqueue.sync
  | .cqDrop => (fun _ => .unit) <$> Cqueue.drop
  | .split => (fun _ => .unit) <$> ring.split
  | .query q => q.program ring

/-- A client of an instance: the memory of the ring, the handles it holds and the calls it
has made with their replies. -/
structure Client (S C : Type) where
  mem : RingMem S C
  handles : Handles
  history : List (Call S × Reply C)

namespace Client

/-- A client that has just built the instance. -/
def start (mem : RingMem S C) : Client S C := ⟨mem, .none, []⟩

def step (ring : IoUring S C) (results : Nat → List CompletionData) (c : Client S C)
    (call : Call S) : Option (Client S C) :=
  (call.handles c.handles).bind fun h =>
    (run (ringSem results) (call.program ring) c.mem).map fun q =>
      ⟨q.2, h, c.history ++ [(call, q.1)]⟩

def runCalls (ring : IoUring S C) (results : Nat → List CompletionData) :
    Client S C → List (Call S) → Option (Client S C)
  | c, [] => some c
  | c, call :: calls => (c.step ring results call).bind fun c' => runCalls ring results c' calls

end Client

/-- Every dispatch thread of a list has followed a path of its batch. -/
def DispatchedAs (threads : List (List IoUringSqe)) (traces : Nat → List (Event userSig))
    (results : Nat → List CompletionData) : Prop :=
  ∀ i sqes, threads[i]? = some sqes → Path (dispatchBatch sqes) (traces i) (results i)

/-- Traces for all threads from a trace for each. -/
theorem exists_traces {threads : List (List IoUringSqe)}
    {P : Nat → List IoUringSqe → List (Event userSig) → Prop}
    (h : ∀ i sqes, threads[i]? = some sqes → ∃ tr, P i sqes tr) :
    ∃ traces : Nat → List (Event userSig),
      ∀ i sqes, threads[i]? = some sqes → P i sqes (traces i) := by
  have hEach : ∀ i, ∃ tr, ∀ sqes, threads[i]? = some sqes → P i sqes tr := by
    intro i
    cases hi : threads[i]? with
    | none => exact ⟨[], fun sqes hSqes => by cases hSqes⟩
    | some batch =>
      obtain ⟨tr, hTrace⟩ := h i batch hi
      refine ⟨tr, fun sqes hSqes => ?_⟩
      obtain rfl := Option.some.inj hSqes
      exact hTrace
  choose traces hTraces using hEach
  exact ⟨traces, hTraces⟩

/-! ## Clients that submit only no-ops -/

/-- The traces of the dispatch threads of some batches of no-ops. -/
def nopTraces (batches : List (List IoUringSqe)) (i : Nat) : List (Event userSig) :=
  nopTrace (batches.getD i [])

def nopAnswers (batches : List (List IoUringSqe)) (i : Nat) : List CompletionData :=
  nopResults (batches.getD i [])

theorem dispatchedAs_nops {batches : List (List IoUringSqe)}
    (h : ∀ batch ∈ batches, ∀ sqe ∈ batch, IsNop sqe) :
    DispatchedAs batches (nopTraces batches) (nopAnswers batches) := by
  intro i sqes hi
  have hSqes : batches.getD i [] = sqes := by rw [List.getD_eq_getElem?_getD, hi, Option.getD_some]
  rw [nopTraces, nopAnswers, hSqes]
  exact path_nops (h sqes (List.mem_of_getElem? hi))

end Miring
