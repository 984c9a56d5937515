import Miring.Concurrency.Transit

/-!
# Pending batches

The whole system: the thread of the client, which works on the ring, and a dispatch thread for
each batch, all of them interrupted before any action, on one user memory. `join` waits until
its thread has returned.

The reference is a run of the client alone that executes a batch completely when it is
submitted. If no two batches that are pending together conflict there, every schedule of the
system ends with the ring and the user memory of the reference (`schedule_independent`). The
client determines the reference, and `Settled` says that the threads of the system will return
what the batches have returned there.
-/

namespace Miring.Concurrency

open Sys Miring.Ring Miring.Stream Dispatch Program Trace

abbrev DispatchThread := UserProgram (List CompletionData)

/-! ## The system -/

/-- What thread `i` has returned. -/
def returned? (threads : List DispatchThread) (i : Nat) : Option (List CompletionData) :=
  match threads[i]? with
  | some (.ret results) => some results
  | _ => none

/-- Every thread has returned. -/
def AllReturned (threads : List DispatchThread) : Prop :=
  ∀ thread ∈ threads, ∃ results, thread = .ret results

section System

variable {S C α : Type}

/-- The batch that an action of the client submits. -/
def submitted : RingOp S C → List (List IoUringSqe)
  | .spawn sqes => [sqes]
  | _ => []

structure System (S C α : Type) where
  client : RingProgram S C α
  ring : RingMem S C
  threads : List DispatchThread
  mem : Mem Nat UInt8

inductive Actor where
  | client
  | thread (i : Nat)

/-- Nothing is left to do. -/
def System.Finished (sys : System S C α) : Prop :=
  (∃ a, sys.client = .ret a) ∧ AllReturned sys.threads

variable [Squeue.EntryMarker S] [Cqueue.EntryMarker C]

/-- The effect of an action of the client; `none` also where it has to wait. -/
def clientSem : Semantics (ringSig S C) (RingMem S C × List DispatchThread) := fun o x =>
  if ∀ i ∈ awaited o, (returned? x.2 i).isSome then
    (ringSem (fun i => (returned? x.2 i).getD []) o x.1).map fun q =>
      (q.1, q.2, x.2 ++ (submitted o).map dispatchBatch)
  else none

def System.step (sys : System S C α) : Actor → Option (System S C α)
  | .client =>
      match sys.client with
      | .ret _ => none
      | .act o k => (clientSem o (sys.ring, sys.threads)).map fun q =>
          { sys with client := k q.1, ring := q.2.1, threads := q.2.2 }
  | .thread i =>
      match sys.threads[i]? with
      | some (.act o k) => (memSem o sys.mem).map fun q =>
          { sys with threads := sys.threads.set i (k q.1), mem := q.2 }
      | _ => none

def System.runSchedule : System S C α → List Actor → Option (System S C α)
  | sys, [] => some sys
  | sys, actor :: sched => (sys.step actor).bind fun sys' => sys'.runSchedule sched

/-! ## The reference -/

/-- The client alone. -/
structure Serial (S C : Type) where
  ring : RingMem S C
  mem : Mem Nat UInt8
  /-- what the batches have returned -/
  results : List (List CompletionData)
  traces : List (List (Event userSig))
  joined : List Nat
  /-- history: the pairs of batches that were pending together -/
  together : List (Nat × Nat)

namespace Serial

def answers (x : Serial S C) (i : Nat) : List CompletionData := x.results.getD i []

/-- The batches that were submitted and not joined. -/
def pending (x : Serial S C) : List Nat :=
  (List.range x.results.length).filter fun i => i ∉ x.joined

/-- Execute the batch that an action starts. -/
def dispatch (x : Serial S C) : RingOp S C → Option (Serial S C)
  | .spawn sqes => (exec memSem (dispatchBatch sqes) x.mem).map fun e =>
      { x with
        mem := e.2.2
        results := x.results ++ [e.2.1]
        traces := x.traces ++ [e.1]
        together := x.together ++ x.pending.map fun i => (x.results.length, i) }
  | .join handle => some { x with joined := x.joined ++ [handle] }
  | _ => some x

/-- No batch writes a byte that another batch, pending together with it, reads or writes. -/
def NoConflict (x : Serial S C) : Prop :=
  ∀ p ∈ x.together, Independent (x.traces.getD p.1 []) (x.traces.getD p.2 [])

instance (x : Serial S C) : Decidable x.NoConflict :=
  inferInstanceAs (Decidable (∀ p ∈ x.together, _))

def start (ring : RingMem S C) (mem : Mem Nat UInt8) : Serial S C :=
  ⟨ring, mem, [], [], [], []⟩

end Serial

/-- The effect of an action of the client that is alone. -/
def serialSem : Semantics (ringSig S C) (Serial S C) := fun o x =>
  (x.dispatch o).bind fun x' =>
    (ringSem x.answers o x.ring).map fun q => (q.1, { x' with ring := q.2 })

def System.start (client : RingProgram S C α) (ring : RingMem S C) (mem : Mem Nat UInt8) :
    System S C α :=
  ⟨client, ring, [], mem⟩

/-- What a state of the system has in common with the end of the reference run. -/
structure AsSerial (replies : α) (x : Serial S C) (sys : System S C α) : Prop where
  /-- no dispatch thread is before an undefined access -/
  defined : ∀ (i : Nat) (o : MemOp Nat UInt8 Mark) (k : MemOp.Res o → DispatchThread),
    sys.threads[i]? = some (.act o k) → ∃ q, memSem o sys.mem = some q
  /-- the calls have had the same replies and the same effect on the ring -/
  calls : ∀ a, sys.client = .ret a → a = replies ∧ sys.ring = x.ring
  memory : ∀ a, sys.client = .ret a → AllReturned sys.threads → sys.mem = x.mem
  /-- the schedule can be carried to an end -/
  ends : ∃ sched sys', sys.runSchedule sched = some sys' ∧ sys'.Finished

/-! ## Actions of the client -/

theorem ringSem_congr {f g : Nat → List CompletionData} {o : RingOp S C} {s : RingMem S C}
    (h : ∀ i ∈ awaited o, f i = g i) : ringSem f o s = ringSem g o s := by
  cases o with
  | join handle =>
    have hEq : f handle = g handle := h handle rfl
    simp only [ringSem, hEq]
  | _ => rfl

theorem ringSem_threads {f : Nat → List CompletionData} {o : RingOp S C} {s s' : RingMem S C}
    {r : RingOp.Res o} (h : ringSem f o s = some (r, s')) :
    s'.threads = s.threads ++ submitted o := by
  rw [(ringSem_frame h).1]
  cases o with
  | spawn sqes => rfl
  | _ => exact (List.append_nil _).symm

/-- An action of the client that is alone: it submits a batch, joins one, or does neither. -/
inductive Serial.Acts (x : Serial S C) : RingOp S C → Serial S C → Prop where
  | spawn {sqes : List IoUringSqe} {tr : List (Event userSig)} {results : List CompletionData}
      {m : Mem Nat UInt8} (h : exec memSem (dispatchBatch sqes) x.mem = some (tr, results, m)) :
      Acts x (.spawn sqes) { x with
        mem := m
        results := x.results ++ [results]
        traces := x.traces ++ [tr]
        together := x.together ++ x.pending.map fun i => (x.results.length, i) }
  | join (handle : Nat) : Acts x (.join handle) { x with joined := x.joined ++ [handle] }
  | other {o : RingOp S C} (hSubmitted : submitted o = []) (hAwaited : awaited o = none) : Acts x o x

omit [Squeue.EntryMarker S] [Cqueue.EntryMarker C] in
theorem Serial.acts_of_dispatch {x x' : Serial S C} {o : RingOp S C} (h : x.dispatch o = some x') :
    x.Acts o x' := by
  cases o with
  | spawn sqes =>
    obtain ⟨⟨tr, results, m⟩, hExec, rfl⟩ := Option.map_eq_some_iff.mp h
    exact .spawn hExec
  | join handle =>
    obtain rfl := Option.some.inj h
    exact .join handle
  | _ =>
    obtain rfl := Option.some.inj h
    exact .other rfl rfl

theorem serialSem_iff {o : RingOp S C} {x x' : Serial S C} {r : RingOp.Res o} :
    serialSem o x = some (r, x') ↔ ∃ x₁ s, x.dispatch o = some x₁ ∧
      ringSem x.answers o x.ring = some (r, s) ∧ x' = { x₁ with ring := s } := by
  unfold serialSem
  constructor
  · intro h
    obtain ⟨x₁, hDispatch, h⟩ := Option.bind_eq_some_iff.mp h
    obtain ⟨⟨r', s⟩, hRing, h⟩ := Option.map_eq_some_iff.mp h
    obtain ⟨rfl, rfl⟩ := Prod.mk.inj h
    exact ⟨x₁, s, hDispatch, hRing, rfl⟩
  · rintro ⟨x₁, s, hDispatch, hRing, rfl⟩
    rw [hDispatch, Option.bind_some, hRing]
    rfl

/-- Only a thread that was started is joined. -/
theorem awaited_lt {o : RingOp S C} {x x' : Serial S C} {r : RingOp.Res o}
    (h : serialSem o x = some (r, x')) {i : Nat} (hi : i ∈ awaited o) :
    i < x.ring.threads.length := by
  obtain ⟨-, s, -, hRing, -⟩ := serialSem_iff.mp h
  cases o with
  | join handle =>
    obtain rfl : handle = i := Option.some.inj hi
    by_contra hNot
    rw [ringSem, if_neg hNot] at hRing
    cases hRing
  | _ => cases hi

/-! ## The threads are on the way to what the batches have returned -/

/-- The threads will do the rest of what the batches of the reference have done; `trs` are the
traces that are left. -/
structure Follows (x : Serial S C) (threads : List DispatchThread) (m : Mem Nat UInt8)
    (trs : List (List (Event userSig))) : Prop where
  settled : Settled threads m trs x.results x.mem
  threads_length : x.ring.threads.length = threads.length
  traces_length : x.traces.length = threads.length
  rest : ∀ {i : Nat} {tr whole}, trs[i]? = some tr → x.traces[i]? = some whole → tr <:+ whole
  joined : ∀ i ∈ x.joined, trs[i]? = some []

section Follows

variable {x x' : Serial S C} {threads : List DispatchThread} {m m' : Mem Nat UInt8}
  {trs : List (List (Event userSig))}

omit [Squeue.EntryMarker S] [Cqueue.EntryMarker C] in
theorem follows_start {ring : RingMem S C} (h : ring.threads = []) (mem : Mem Nat UInt8) :
    Follows (Serial.start ring mem) [] mem [] := by
  refine ⟨.empty mem, ?_, rfl, ?_, ?_⟩
  · exact congrArg List.length h
  · intro i tr whole hTr
    cases hTr
  · intro i hi
    cases hi

theorem returned?_eq_some_iff {i : Nat} {results : List CompletionData} :
    returned? threads i = some results ↔ threads[i]? = some (.ret results) := by
  unfold returned?
  cases threads[i]? with
  | none => simp
  | some thread =>
    cases thread with
    | ret results' => simp
    | act o k => simp

omit [Squeue.EntryMarker S] [Cqueue.EntryMarker C] in
/-- A thread that has returned has returned what its batch has returned in the reference. -/
theorem Follows.answers (h : Follows x threads m trs) {i : Nat}
    (hi : (returned? threads i).isSome) : (returned? threads i).getD [] = x.answers i := by
  obtain ⟨results, hReturned⟩ := Option.isSome_iff_exists.mp hi
  have hResult := h.settled.result (returned?_eq_some_iff.mp hReturned)
  rw [hReturned, Serial.answers, List.getD_eq_getElem?_getD, hResult]

omit [Squeue.EntryMarker S] [Cqueue.EntryMarker C] in
/-- A step of a dispatch thread. -/
theorem Follows.thread_step (h : Follows x threads m trs) {i : Nat} {o : MemOp Nat UInt8 Mark}
    {k : MemOp.Res o → DispatchThread} (hi : threads[i]? = some (.act o k)) {r : MemOp.Res o}
    (ho : memSem o m = some (r, m')) :
    ∃ trs', Follows x (threads.set i (k r)) m' trs' ∧ trs'.flatten.length < trs.flatten.length := by
  obtain ⟨tr, hTr, hSettled⟩ := h.settled.advance hi ho
  have hiTrs := (List.getElem?_eq_some_iff.mp hTr).1
  refine ⟨trs.set i tr, ⟨hSettled, ?_, ?_, ?_, ?_⟩, ?_⟩
  · rw [List.length_set]
    exact h.threads_length
  · rw [List.length_set]
    exact h.traces_length
  · intro j tr' whole hj hWhole
    by_cases hEq : j = i
    · subst hEq
      rw [List.getElem?_set_self hiTrs] at hj
      cases hj
      exact (List.suffix_cons _ _).trans (h.rest hTr hWhole)
    · rw [List.getElem?_set_ne (Ne.symm hEq)] at hj
      exact h.rest hj hWhole
  · intro j hj
    have hDone := h.joined j hj
    have hne : i ≠ j := by
      rintro rfl
      rw [hTr] at hDone
      cases hDone
    rw [List.getElem?_set_ne hne]
    exact hDone
  · exact Settled.length_flatten_set hTr

omit [Squeue.EntryMarker S] [Cqueue.EntryMarker C] in
/-- A new batch does not conflict with what is left of the others. -/
theorem Follows.independent (h : Follows x threads m trs) {tr : List (Event userSig)}
    (hClear : ∀ i ∈ x.pending, Independent tr (x.traces.getD i [])) :
    ∀ tr' ∈ trs, Independent tr tr' := by
  intro tr' hMem
  obtain ⟨i, hi, rfl⟩ := List.getElem_of_mem hMem
  have hTr : trs[i]? = some trs[i] := List.getElem?_eq_getElem hi
  have hiThreads : i < threads.length := by
    rw [← h.settled.traces_length]
    exact hi
  by_cases hJoined : i ∈ x.joined
  · have hNil : trs[i] = [] := Option.some.inj (hTr.symm.trans (h.joined i hJoined))
    rw [hNil]
    exact (independent_nil tr).symm
  · have hPending : i ∈ x.pending := by
      rw [Serial.pending, List.mem_filter, List.mem_range, h.settled.results_length]
      exact ⟨hiThreads, decide_eq_true hJoined⟩
    have hiTraces : i < x.traces.length := by
      rw [h.traces_length]
      exact hiThreads
    have hWhole : x.traces[i]? = some x.traces[i] := List.getElem?_eq_getElem hiTraces
    have hIndependent := hClear i hPending
    rw [List.getD_eq_getElem?_getD, hWhole, Option.getD_some] at hIndependent
    exact (hIndependent.symm.suffix (h.rest hTr hWhole)).symm

theorem independent_of_prefix {trs trs' : List (List (Event userSig))} (h : trs <+: trs')
    {i j : Nat} (hInd : Independent (trs'.getD i []) (trs'.getD j [])) :
    Independent (trs.getD i []) (trs.getD j []) := by
  have hGet : ∀ n, trs.getD n [] = [] ∨ trs.getD n [] = trs'.getD n [] := by
    intro n
    rcases Nat.lt_or_ge n trs.length with hn | hn
    · right
      obtain ⟨ts, rfl⟩ := h
      rw [List.getD_eq_getElem?_getD, List.getD_eq_getElem?_getD, List.getElem?_append_left hn]
    · left
      rw [List.getD_eq_getElem?_getD, List.getElem?_eq_none hn, Option.getD_none]
  rcases hGet i with hi | hi
  · rw [hi]
    exact independent_nil _
  · rcases hGet j with hj | hj
    · rw [hj]
      exact (independent_nil _).symm
    · rw [hi, hj]
      exact hInd

/-- What does not conflict in the end has not conflicted before. -/
theorem noConflict_of_step {o : RingOp S C} {r : RingOp.Res o}
    (hSem : serialSem o x = some (r, x')) (hClear : x'.NoConflict) : x.NoConflict := by
  obtain ⟨x₁, s, hDispatch, -, rfl⟩ := serialSem_iff.mp hSem
  cases Serial.acts_of_dispatch hDispatch with
  | spawn hExec =>
    intro p hp
    exact independent_of_prefix (List.prefix_append _ _) (hClear p (List.mem_append_left _ hp))
  | join handle => exact hClear
  | other hSubmitted hAwaited => exact hClear

theorem noConflict_of_run {p : RingProgram S C α} {a : α}
    (hRun : run serialSem p x = some (a, x')) (hClear : x'.NoConflict) : x.NoConflict := by
  induction p generalizing x with
  | ret b =>
    obtain ⟨-, rfl⟩ := Prod.mk.inj (Option.some.inj hRun)
    exact hClear
  | act o k ih =>
    rw [run_act] at hRun
    obtain ⟨⟨r, x₁⟩, hSem, hRest⟩ := Option.bind_eq_some_iff.mp hRun
    exact noConflict_of_step hSem (ih r hRest)

omit [Squeue.EntryMarker S] [Cqueue.EntryMarker C] in
/-- A batch is submitted: its thread has the whole trace of the reference before it. -/
theorem Follows.spawn (h : Follows x threads m trs) {sqes : List IoUringSqe}
    {tr : List (Event userSig)} {results : List CompletionData} {mEnd : Mem Nat UInt8}
    (hExec : exec memSem (dispatchBatch sqes) x.mem = some (tr, results, mEnd))
    (hNew : ∀ i ∈ x.pending, Independent tr (x.traces.getD i [])) {s : RingMem S C}
    (hThreads : s.threads = x.ring.threads ++ [sqes]) (together : List (Nat × Nat)) :
    Follows { x with
      ring := s
      mem := mEnd
      results := x.results ++ [results]
      traces := x.traces ++ [tr]
      together := together } (threads ++ [dispatchBatch sqes]) m (trs ++ [tr]) := by
  have hTrs := h.settled.traces_length
  have hTraces := h.traces_length
  refine ⟨h.settled.spawn hExec (h.independent hNew), ?_, ?_, ?_, ?_⟩
  · rw [hThreads, List.length_append, List.length_append, h.threads_length]
    rfl
  · rw [List.length_append, List.length_append, hTraces]
    rfl
  · intro i tr' whole hi hWhole
    rcases Nat.lt_or_ge i trs.length with hlt | hge
    · rw [List.getElem?_append_left hlt] at hi
      rw [List.getElem?_append_left (by omega)] at hWhole
      exact h.rest hi hWhole
    · rw [List.getElem?_append_right hge] at hi
      rw [List.getElem?_append_right (by omega)] at hWhole
      have hEq : trs.length = x.traces.length := by omega
      rw [hEq] at hi
      obtain rfl := Option.some.inj (hi.symm.trans hWhole)
      exact List.suffix_rfl
  · intro i hi
    have hDone := h.joined i hi
    rw [List.getElem?_append_left (List.getElem?_eq_some_iff.mp hDone).1]
    exact hDone

/-- **A step of the client**, in the system as in the reference. -/
theorem Follows.client_step (h : Follows x threads m trs) {o : RingOp S C} {r : RingOp.Res o}
    (hSem : serialSem o x = some (r, x'))
    (hReady : ∀ i ∈ awaited o, (returned? threads i).isSome) (hClear : x'.NoConflict) :
    clientSem o (x.ring, threads) =
        some (r, x'.ring, threads ++ (submitted o).map dispatchBatch) ∧
      ∃ trs', Follows x' (threads ++ (submitted o).map dispatchBatch) m trs' := by
  obtain ⟨x₁, s, hDispatch, hRing, rfl⟩ := serialSem_iff.mp hSem
  have hThreads := ringSem_threads hRing
  refine ⟨?_, ?_⟩
  · rw [clientSem, if_pos hReady, ringSem_congr fun i hi => h.answers (hReady i hi), hRing]
    rfl
  cases Serial.acts_of_dispatch hDispatch with
  | @spawn sqes tr results m' hExec =>
    have hNew : ∀ i ∈ x.pending, Independent tr (x.traces.getD i []) := by
      intro i hi
      have hResults := h.settled.results_length
      have hTraces := h.traces_length
      have hlt : i < x.results.length := List.mem_range.mp (List.mem_filter.mp hi).1
      have hPair := hClear (x.results.length, i)
        (List.mem_append_right _ (List.mem_map.mpr ⟨i, hi, rfl⟩))
      simp only [List.getD_eq_getElem?_getD] at hPair ⊢
      rw [hResults, ← hTraces, List.getElem?_concat_length, Option.getD_some,
        List.getElem?_append_left (by omega)] at hPair
      exact hPair
    exact ⟨trs ++ [tr], h.spawn hExec hNew hThreads _⟩
  | join handle =>
    have hReturned := hReady handle rfl
    obtain ⟨results, hResults⟩ := Option.isSome_iff_exists.mp hReturned
    have hNil := h.settled.trace (returned?_eq_some_iff.mp hResults)
    rw [show (submitted (.join handle : RingOp S C)).map dispatchBatch = [] from rfl,
      List.append_nil]
    rw [show submitted (.join handle : RingOp S C) = [] from rfl, List.append_nil] at hThreads
    refine ⟨trs, ⟨h.settled, ?_, h.traces_length, h.rest, ?_⟩⟩
    · change s.threads.length = _
      rw [hThreads]
      exact h.threads_length
    · intro i hi
      rcases List.mem_append.mp hi with hOld | hNew
      · exact h.joined i hOld
      · rw [List.mem_singleton.mp hNew]
        exact hNil
  | other hSubmitted hAwaited =>
    rw [hSubmitted, List.append_nil] at hThreads
    rw [hSubmitted, List.map_nil, List.append_nil]
    refine ⟨trs, ⟨h.settled, ?_, h.traces_length, h.rest, h.joined⟩⟩
    change s.threads.length = _
    rw [hThreads]
    exact h.threads_length

end Follows

/-! ## Schedules -/

theorem runSchedule_append (sys : System S C α) (sched sched' : List Actor) :
    sys.runSchedule (sched ++ sched') =
      (sys.runSchedule sched).bind fun sys' => sys'.runSchedule sched' := by
  induction sched generalizing sys with
  | nil => rfl
  | cons actor sched ih =>
    rw [List.cons_append, System.runSchedule, System.runSchedule]
    cases sys.step actor with
    | none => rfl
    | some sys' => exact ih sys'

/-- The client is where the reference is in some state `x`, from which it ends in `xEnd`. -/
def Tracks (replies : α) (xEnd : Serial S C) (sys : System S C α) : Prop :=
  ∃ x trs, sys.ring = x.ring ∧ Follows x sys.threads sys.mem trs ∧
    run serialSem sys.client x = some (replies, xEnd)

section Tracks

variable {replies : α} {xEnd : Serial S C} {sys sys' : System S C α}

theorem Tracks.step (h : Tracks replies xEnd sys) (hClear : xEnd.NoConflict) {actor : Actor}
    (hStep : sys.step actor = some sys') : Tracks replies xEnd sys' := by
  obtain ⟨x, trs, hRing, hFollows, hRun⟩ := h
  obtain ⟨client, ring, threads, m⟩ := sys
  cases hRing
  cases actor with
  | client =>
    cases client with
    | ret a => cases hStep
    | act o k =>
      obtain ⟨q, hSem, rfl⟩ := Option.map_eq_some_iff.mp hStep
      rw [run_act] at hRun
      obtain ⟨⟨r, x₁⟩, hSerial, hRest⟩ := Option.bind_eq_some_iff.mp hRun
      have hReady : ∀ i ∈ awaited o, (returned? threads i).isSome := by
        by_contra hNot
        rw [clientSem, if_neg hNot] at hSem
        cases hSem
      obtain ⟨hEq, trs', hFollows'⟩ :=
        hFollows.client_step hSerial hReady (noConflict_of_run hRest hClear)
      obtain rfl := Option.some.inj (hEq.symm.trans hSem)
      exact ⟨x₁, trs', rfl, hFollows', hRest⟩
  | thread i =>
    change (match threads[i]? with
      | some (.act o k) => _
      | _ => none) = some sys' at hStep
    split at hStep
    · rename_i o k hi
      obtain ⟨q, hSem, rfl⟩ := Option.map_eq_some_iff.mp hStep
      obtain ⟨trs', hFollows', -⟩ := hFollows.thread_step hi hSem
      exact ⟨x, trs', rfl, hFollows', hRun⟩
    · cases hStep

theorem Tracks.runSchedule (h : Tracks replies xEnd sys) (hClear : xEnd.NoConflict)
    {sched : List Actor} (hSched : sys.runSchedule sched = some sys') :
    Tracks replies xEnd sys' := by
  induction sched generalizing sys with
  | nil =>
    obtain rfl := Option.some.inj hSched
    exact h
  | cons actor sched ih =>
    obtain ⟨sys₁, hStep, hRest⟩ := Option.bind_eq_some_iff.mp hSched
    exact ih (h.step hClear hStep) hRest

/-- The dispatch threads can always run to their ends. -/
theorem exists_allReturned {x : Serial S C} {trs : List (List (Event userSig))}
    (h : Follows x sys.threads sys.mem trs) :
    ∃ sched sys' trs', sys.runSchedule sched = some sys' ∧ sys'.client = sys.client ∧
      sys'.ring = sys.ring ∧ Follows x sys'.threads sys'.mem trs' ∧ AllReturned sys'.threads := by
  generalize hLength : trs.flatten.length = n
  induction n using Nat.strongRecOn generalizing sys trs with
  | ind n ih =>
    by_cases hAll : AllReturned sys.threads
    · exact ⟨[], sys, trs, rfl, rfl, rfl, h, hAll⟩
    · obtain ⟨thread, hMem, hNot⟩ : ∃ thread ∈ sys.threads, ∀ results, thread ≠ .ret results := by
        unfold AllReturned at hAll
        push Not at hAll
        exact hAll
      obtain ⟨i, hi⟩ := List.mem_iff_getElem?.mp hMem
      cases thread with
      | ret results => exact absurd rfl (hNot results)
      | act o k =>
        obtain ⟨r, m', ho⟩ := h.settled.enabled hi
        obtain ⟨trs₁, h₁, hLess⟩ := h.thread_step hi ho
        have hStep : sys.step (.thread i) =
            some { sys with threads := sys.threads.set i (k r), mem := m' } := by
          simp only [System.step, hi, ho, Option.map_some]
        have hDrained : ∃ sched sys' trs',
            System.runSchedule { sys with threads := sys.threads.set i (k r), mem := m' } sched =
              some sys' ∧ sys'.client = sys.client ∧ sys'.ring = sys.ring ∧
              Follows x sys'.threads sys'.mem trs' ∧ AllReturned sys'.threads :=
          ih _ (hLength ▸ hLess) h₁ rfl
        obtain ⟨sched, sys', trs', hRun, hRest⟩ := hDrained
        refine ⟨.thread i :: sched, sys', trs', ?_, hRest⟩
        rw [System.runSchedule, hStep]
        exact hRun

theorem Tracks.exists_finished (h : Tracks replies xEnd sys) (hClear : xEnd.NoConflict) :
    ∃ sched sys', sys.runSchedule sched = some sys' ∧ sys'.Finished := by
  generalize hClient : sys.client = p
  induction p generalizing sys with
  | ret a =>
    obtain ⟨x, trs, -, hFollows, -⟩ := h
    obtain ⟨sched, sys', -, hRun, hSame, -, -, hAll⟩ := exists_allReturned hFollows
    exact ⟨sched, sys', hRun, ⟨a, hSame.trans hClient⟩, hAll⟩
  | act o k ih =>
    obtain ⟨x, trs, hRing, hFollows, hRun⟩ := h
    obtain ⟨sched, sys₁, trs₁, hDrain, hSame, hSameRing, hFollows₁, hAll⟩ :=
      exists_allReturned hFollows
    rw [hClient, run_act] at hRun
    obtain ⟨⟨r, x₂⟩, hSerial, hRest⟩ := Option.bind_eq_some_iff.mp hRun
    -- all threads have returned, so the client does not wait
    have hReady : ∀ i ∈ awaited o, (returned? sys₁.threads i).isSome := by
      intro i hi
      have hlt := awaited_lt hSerial hi
      rw [hFollows₁.threads_length] at hlt
      obtain ⟨results, hReturned⟩ := hAll _ (List.getElem_mem hlt)
      have hGet := List.getElem?_eq_getElem hlt
      rw [hReturned] at hGet
      rw [returned?_eq_some_iff.mpr hGet]
      rfl
    obtain ⟨hSem, trs₂, hFollows₂⟩ :=
      hFollows₁.client_step hSerial hReady (noConflict_of_run hRest hClear)
    have hStep : sys₁.step .client = some ⟨k r, x₂.ring,
        sys₁.threads ++ (submitted o).map dispatchBatch, sys₁.mem⟩ := by
      simp only [System.step, hSame, hClient, hSameRing, hRing, hSem, Option.map_some]
    have hAfter : Tracks replies xEnd ⟨k r, x₂.ring,
        sys₁.threads ++ (submitted o).map dispatchBatch, sys₁.mem⟩ :=
      ⟨x₂, trs₂, rfl, hFollows₂, hRest⟩
    obtain ⟨sched', sys', hRun', hFinished⟩ := ih r hAfter rfl
    refine ⟨sched ++ .client :: sched', sys', ?_, hFinished⟩
    rw [runSchedule_append, hDrain, Option.bind_some, System.runSchedule, hStep]
    exact hRun'

theorem Tracks.asSerial (h : Tracks replies xEnd sys) (hClear : xEnd.NoConflict) :
    AsSerial replies xEnd sys := by
  have hEnds := h.exists_finished hClear
  obtain ⟨x, trs, hRing, hFollows, hRun⟩ := h
  have hEnd : ∀ a, sys.client = .ret a → a = replies ∧ x = xEnd := by
    intro a ha
    rw [ha] at hRun
    exact Prod.mk.inj (Option.some.inj hRun)
  refine ⟨?_, ?_, ?_, hEnds⟩
  · intro i o k hi
    obtain ⟨r, m', ho⟩ := hFollows.settled.enabled hi
    exact ⟨(r, m'), ho⟩
  · intro a ha
    obtain ⟨rfl, rfl⟩ := hEnd a ha
    exact ⟨rfl, hRing⟩
  · intro a ha hAll
    obtain ⟨-, rfl⟩ := hEnd a ha
    exact (hFollows.settled.final_of_returned hAll).symm

end Tracks

/-- **Schedule independence.** Whenever no two batches that are pending together conflict, every
schedule ends with the replies, the ring and the user memory of the reference. -/
theorem schedule_independent {b : Builder S C} {overflowChecks : Bool} {entries : UInt32}
    {ring : IoUring S C} {mem : RingMem S C}
    (hBuild : b.build overflowChecks entries = some (.ok (ring, mem))) (user : UserMem)
    {calls : List (Call S)} {replies : List (Reply C)} {x : Serial S C}
    (hRun : run serialSem (callsProgram ring calls) (.start mem user.cells) = some (replies, x))
    (hClear : x.NoConflict) {sched : List Actor} {sys : System S C (List (Reply C))}
    (hSched : (System.start (callsProgram ring calls) mem user.cells).runSchedule sched =
      some sys) :
    AsSerial replies x sys := by
  have hNone : mem.threads = [] := by
    obtain ⟨rfl, -⟩ := Builder.build_ok hBuild
    rfl
  have hStart : Tracks replies x (System.start (callsProgram ring calls) mem user.cells) :=
    ⟨.start mem user.cells, [], rfl, follows_start hNone user.cells, hRun⟩
  exact (hStart.runSchedule hClear hSched).asSerial hClear

/-! ### Two reads that are pending together -/

def readByte (addr userData : UInt64) : Squeue.Entry := ⟨{ opcode := 22, addr, len := 1, userData }⟩

/-- Two submits, and only then the completions. -/
def twoReads : List (Call Squeue.Entry) :=
  [.submission, .push (readByte 16 1), .sqDrop, .submit, .submission, .push (readByte 32 2),
    .sqDrop, .submitAndWait 1]

/-- The first 64 addresses are mapped. -/
def page : UserMem := ⟨fun a => if a < 64 then .byte 7 else .unmapped, by
  intro a ha
  exact if_neg (by omega)⟩

/-- The thread of the second batch runs before the thread of the first. -/
def secondFirst : List Actor :=
  List.replicate 39 .client ++ List.replicate 4 (.thread 1) ++ List.replicate 4 (.thread 0) ++
    List.replicate 12 .client

theorem schedule_independent_twoReads :
    ∃ replies x sys, (System.start (callsProgram smallRing.1 twoReads) smallRing.2
        page.cells).runSchedule secondFirst = some sys ∧
      x.ring.posts.map (·.cqe.userData) = [1, 2] ∧ AsSerial replies x sys := by
  have hSerial : (run serialSem (callsProgram smallRing.1 twoReads)
      (.start smallRing.2 page.cells)).map (fun q =>
        (q.2.ring.posts.map (·.cqe.userData), decide q.2.NoConflict)) = some ([1, 2], true) := by
    decide +kernel
  have hSched : ((System.start (callsProgram smallRing.1 twoReads) smallRing.2
      page.cells).runSchedule secondFirst).isSome := by
    decide +kernel
  obtain ⟨⟨replies, x⟩, hRun, hFacts⟩ := Option.map_eq_some_iff.mp hSerial
  obtain ⟨hPosts, hClear⟩ := Prod.mk.inj hFacts
  obtain ⟨sys, hSys⟩ := Option.isSome_iff_exists.mp hSched
  exact ⟨replies, x, sys, hSys, hPosts,
    schedule_independent smallRing_build page hRun (of_decide_eq_true hClear) hSys⟩

end System

end Miring.Concurrency
