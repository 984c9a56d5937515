import Miring.Program.Progress
import Miring.Concurrency.Transit
import Miring.Concurrency.Schedule

/-!
# Lifetimes

How long a buffer must live, in every schedule of the whole system and whether its batches
conflict or not. A completion is only posted when the thread of its batch has returned
(`posted_after_return`), so a buffer may be freed once its completion was seen. And the drop of
the instance waits for every thread (`drop_waits`), also for those whose completions nobody has
asked for.

Waiting for a thread is all that a client ever waits for. So a schedule can always be carried to
an end, unless a thread is before a faulting access (`never_deadlocks`).
-/

namespace Miring.Concurrency

open Sys Miring.Ring Miring.Stream Dispatch Program Transit

variable {S C α : Type}

/-! ## Statement -/

/-- What the threads have returned so far. -/
def soFar (threads : List DispatchThread) (i : Nat) : List CompletionData :=
  (returned? threads i).getD []

/-- What was posted comes from threads that have returned. -/
structure PostedAfterReturn (sys : System S C α) : Prop where
  posts : ∃ n ≤ sys.threads.length, (∀ i < n, (returned? sys.threads i).isSome) ∧
    sys.ring.posts.map (·.cqe) <+: (List.range n).flatMap (answers (soFar sys.threads))
  /-- nothing else was written to the slots of the completion ring -/
  writes : sys.ring.cqeWrites.Sublist (sys.ring.posts.map (·.cqe))

/-- A dispatch thread is before an access that is not defined. -/
def Faulting (sys : System S C α) : Prop :=
  ∃ (i : Nat) (o : MemOp Nat UInt8 Mark) (k : MemOp.Res o → DispatchThread),
    sys.threads[i]? = some (.act o k) ∧ memSem o sys.mem = none

/-! ## The threads of a system -/

section Threads

variable {threads : List DispatchThread}

theorem returned?_congr {threads' : List DispatchThread} {i : Nat}
    (h : threads'[i]? = threads[i]?) : returned? threads' i = returned? threads i := by
  apply Option.ext
  intro results
  rw [returned?_eq_some_iff, returned?_eq_some_iff, h]

theorem returned?_append {i : Nat} (h : (returned? threads i).isSome) (ts : List DispatchThread) :
    returned? (threads ++ ts) i = returned? threads i := by
  obtain ⟨results, hReturned⟩ := Option.isSome_iff_exists.mp h
  have hGet := returned?_eq_some_iff.mp hReturned
  rw [hReturned, returned?_eq_some_iff,
    List.getElem?_append_left (List.getElem?_eq_some_iff.mp hGet).1, hGet]

/-- A step of a thread that has not returned. -/
theorem returned?_set {i j : Nat} (h : (returned? threads j).isSome) {o : MemOp Nat UInt8 Mark}
    {k : MemOp.Res o → DispatchThread} (hi : threads[i]? = some (.act o k))
    (thread : DispatchThread) : returned? (threads.set i thread) j = returned? threads j := by
  obtain ⟨results, hReturned⟩ := Option.isSome_iff_exists.mp h
  have hGet := returned?_eq_some_iff.mp hReturned
  have hne : i ≠ j := by
    rintro rfl
    rw [hi] at hGet
    cases hGet
  rw [hReturned, returned?_eq_some_iff, List.getElem?_set_ne hne, hGet]

/-- After a step of one thread. -/
theorem thread_of_set {i j : Nat} {p p' thread : DispatchThread} (hi : threads[i]? = some p)
    (hj : (threads.set i p')[j]? = some thread) :
    i = j ∧ thread = p' ∨ i ≠ j ∧ threads[j]? = some thread := by
  by_cases hij : i = j
  · subst hij
    rw [List.getElem?_set_self (List.getElem?_eq_some_iff.mp hi).1] at hj
    exact .inl ⟨rfl, (Option.some.inj hj).symm⟩
  · rw [List.getElem?_set_ne hij] at hj
    exact .inr ⟨hij, hj⟩

theorem allReturned_of_below
    (h : ∀ i < threads.length, (returned? threads i).isSome) : AllReturned threads := by
  intro thread hMem
  obtain ⟨i, hi, rfl⟩ := List.getElem_of_mem hMem
  obtain ⟨results, hReturned⟩ := Option.isSome_iff_exists.mp (h i hi)
  have hGet := returned?_eq_some_iff.mp hReturned
  rw [List.getElem?_eq_getElem hi] at hGet
  exact ⟨results, Option.some.inj hGet⟩

end Threads

variable [Squeue.EntryMarker S] [Cqueue.EntryMarker C]

/-! ## Moves -/

section Steps

variable {sys sys' : System S C α}

/-- A step of the system: of the client, or of one dispatch thread. -/
inductive Moves : System S C α → System S C α → Prop where
  | client {o : RingOp S C} {k : RingOp.Res o → RingProgram S C α} {r : RingOp.Res o}
      {ring ring' : RingMem S C} {threads : List DispatchThread} {mem : Mem Nat UInt8}
      (hReady : ∀ i ∈ awaited o, (returned? threads i).isSome)
      (hSem : ringSem (soFar threads) o ring = some (r, ring')) :
      Moves ⟨.act o k, ring, threads, mem⟩
        ⟨k r, ring', threads ++ (submitted o).map dispatchBatch, mem⟩
  | thread {client : RingProgram S C α} {ring : RingMem S C} {threads : List DispatchThread}
      {mem mem' : Mem Nat UInt8} {i : Nat} {o : MemOp Nat UInt8 Mark}
      {k : MemOp.Res o → DispatchThread} {r : MemOp.Res o} (hi : threads[i]? = some (.act o k))
      (hSem : memSem o mem = some (r, mem')) :
      Moves ⟨client, ring, threads, mem⟩ ⟨client, ring, threads.set i (k r), mem'⟩

theorem moves_of_step {actor : Actor} (h : sys.step actor = some sys') : Moves sys sys' := by
  obtain ⟨client, ring, threads, mem⟩ := sys
  cases actor with
  | client =>
    cases client with
    | ret a => cases h
    | act o k =>
      obtain ⟨q, hClient, rfl⟩ := Option.map_eq_some_iff.mp h
      obtain ⟨hReady, hSem⟩ := Option.ite_none_right_eq_some.mp hClient
      obtain ⟨⟨r, ring'⟩, hRing, rfl⟩ := Option.map_eq_some_iff.mp hSem
      exact .client hReady hRing
  | thread i =>
    simp only [System.step] at h
    split at h
    · next o k hi =>
      obtain ⟨⟨r, mem'⟩, hSem, rfl⟩ := Option.map_eq_some_iff.mp h
      exact .thread hi hSem
    · cases h

/-- After a step of the client. -/
theorem thread_of_client {results : Nat → List CompletionData} {o : RingOp S C}
    {r : RingOp.Res o} {ring ring' : RingMem S C} {threads : List DispatchThread}
    (hSem : ringSem results o ring = some (r, ring'))
    (hLength : threads.length = ring.threads.length) {i : Nat} {sqes : List IoUringSqe}
    {thread : DispatchThread} (hSqes : ring'.threads[i]? = some sqes)
    (hThread : (threads ++ (submitted o).map dispatchBatch)[i]? = some thread) :
    ring.threads[i]? = some sqes ∧ threads[i]? = some thread ∨ thread = dispatchBatch sqes := by
  have hThreads := ringSem_threads hSem
  rcases Nat.lt_or_ge i ring.threads.length with hOld | hNew
  · rw [hThreads, List.getElem?_append_left hOld] at hSqes
    rw [List.getElem?_append_left (by omega)] at hThread
    exact .inl ⟨hSqes, hThread⟩
  · rw [hThreads, List.getElem?_append_right hNew] at hSqes
    rw [List.getElem?_append_right (by omega), hLength, List.getElem?_map, hSqes] at hThread
    exact .inr (Option.some.inj hThread).symm

/-- Each batch has its thread. -/
theorem Moves.threads_length (hs : Moves sys sys')
    (h : sys.threads.length = sys.ring.threads.length) :
    sys'.threads.length = sys'.ring.threads.length := by
  cases hs with
  | @client o k r ring ring' threads mem hReady hSem =>
    change (threads ++ (submitted o).map dispatchBatch).length = ring'.threads.length
    rw [ringSem_threads hSem, List.length_append, List.length_append, List.length_map]
    exact congrArg (· + _) h
  | thread hi hSem =>
    rw [List.length_set]
    exact h

/-- The invariant rule for the schedules of a system. -/
theorem runSchedule_induction {P : System S C α → Prop}
    (hStep : ∀ {x x' : System S C α}, P x → Moves x x' → P x') {sched : List Actor}
    (hRun : sys.runSchedule sched = some sys') (h : P sys) : P sys' := by
  induction sched generalizing sys with
  | nil =>
    obtain rfl := Option.some.inj hRun
    exact h
  | cons actor sched ih =>
    obtain ⟨sys₁, hFirst, hRest⟩ := Option.bind_eq_some_iff.mp hRun
    exact ih hRest (hStep h (moves_of_step hFirst))

end Steps

/-! ## What was joined has returned -/

section Alive

variable {s₀ : RingMem S C} {sys sys' : System S C α} {m : Transit}

/-- The client is watched, and what it has joined has returned. -/
structure Alive (s₀ : RingMem S C) (sys : System S C α) (m : Transit) : Prop where
  client : Obeys watch (fun _ m' => Closed m') sys.client m
  flows : Flows (soFar sys.threads) s₀ sys.ring m
  threads_length : sys.threads.length = sys.ring.threads.length
  joined : ∀ i ∈ m.joined, (returned? sys.threads i).isSome

/-- A step of the client: the monitor takes it. -/
theorem Alive.client_step {o : RingOp S C} {k : RingOp.Res o → RingProgram S C α}
    {r : RingOp.Res o} {ring ring' : RingMem S C} {threads : List DispatchThread} {mem : Mem Nat UInt8}
    (h : Alive s₀ ⟨.act o k, ring, threads, mem⟩ m)
    (hReady : ∀ i ∈ awaited o, (returned? threads i).isSome)
    (hSem : ringSem (soFar threads) o ring = some (r, ring')) {m' : Transit}
    (hMon : watch m ⟨o, r⟩ = some m') :
    Alive s₀ ⟨k r, ring', threads ++ (submitted o).map dispatchBatch, mem⟩ m' := by
  have hMoves : Moves ⟨.act o k, ring, threads, mem⟩
      ⟨k r, ring', threads ++ (submitted o).map dispatchBatch, mem⟩ :=
    .client hReady hSem
  have hLength := hMoves.threads_length h.threads_length
  obtain ⟨m'', hTaken, hRest⟩ := h.client r
  obtain rfl := Option.some.inj (hTaken.symm.trans hMon)
  have hFlows := flows_lockStep (soFar threads) s₀ hSem hMon h.flows
  have hJoined : ∀ i ∈ m''.joined, (returned? threads i).isSome := by
    intro i hi
    rw [joined_of_watch hMon] at hi
    rcases List.mem_append.mp hi with hOld | hNew
    · exact h.joined i hOld
    · exact hReady i (Option.mem_toList.mp hNew)
  refine ⟨hRest, hFlows.of_results fun i hi => ?_, hLength, fun i hi => ?_⟩
  · rw [soFar, returned?_append (hJoined i hi), soFar]
  · rw [returned?_append (hJoined i hi)]
    exact hJoined i hi

omit [Squeue.EntryMarker S] [Cqueue.EntryMarker C] in
theorem Alive.thread_step {client : RingProgram S C α} {ring : RingMem S C}
    {threads : List DispatchThread} {mem : Mem Nat UInt8}
    (h : Alive s₀ ⟨client, ring, threads, mem⟩ m) {i : Nat} {o : MemOp Nat UInt8 Mark}
    {k : MemOp.Res o → DispatchThread} (hi : threads[i]? = some (.act o k)) (r : MemOp.Res o)
    (mem' : Mem Nat UInt8) : Alive s₀ ⟨client, ring, threads.set i (k r), mem'⟩ m := by
  refine ⟨h.client, h.flows.of_results fun j hj => ?_, ?_, fun j hj => ?_⟩
  · rw [soFar, returned?_set (h.joined j hj) hi, soFar]
  · rw [List.length_set]
    exact h.threads_length
  · rw [returned?_set (h.joined j hj) hi]
    exact h.joined j hj

theorem Alive.step (h : Alive s₀ sys m) (hs : Moves sys sys') : ∃ m', Alive s₀ sys' m' := by
  cases hs with
  | @client o k r ring ring' threads mem hReady hSem =>
    obtain ⟨m', hMon, -⟩ := h.client r
    exact ⟨m', h.client_step hReady hSem hMon⟩
  | thread hi hSem => exact ⟨m, h.thread_step hi _ _⟩

theorem alive_of_runSchedule (h : Alive s₀ sys m) {sched : List Actor}
    (hRun : sys.runSchedule sched = some sys') : ∃ m', Alive s₀ sys' m' :=
  runSchedule_induction (P := fun x => ∃ m', Alive s₀ x m')
    (fun ⟨_, hAlive⟩ hs => hAlive.step hs) hRun ⟨m, h⟩

end Alive

/-! ## Completions and the drop -/

section Result

variable {b : Builder S C} {overflowChecks : Bool} {entries : UInt32} {ring : IoUring S C}
  {mem : RingMem S C} {user : UserMem} {calls : List (Call S)} {sched : List Actor}
  {sys : System S C (List (Reply C))}

theorem alive_start (hBuild : b.build overflowChecks entries = some (.ok (ring, mem)))
    (calls : List (Call S)) (user : UserMem) :
    Alive mem (System.start (clientProgram ring calls) mem user.cells) {} := by
  refine ⟨?_, flows_start _ mem, ?_, ?_⟩
  · exact obeys_clientProgram ring ⟨rfl, rfl, rfl, rfl, rfl⟩ calls
  · obtain ⟨rfl, -⟩ := Builder.build_ok hBuild
    rfl
  · intro i hi
    cases hi

theorem alive_of_build (hBuild : b.build overflowChecks entries = some (.ok (ring, mem)))
    (hSched : (System.start (clientProgram ring calls) mem user.cells).runSchedule sched =
      some sys) : ∃ m, Alive mem sys m :=
  alive_of_runSchedule (alive_start hBuild calls user) hSched

/-- The threads of a new instance are joined in the order of their numbers. -/
theorem order_of_build (hBuild : b.build overflowChecks entries = some (.ok (ring, mem)))
    {m : Transit} (h : Alive mem sys m) :
    m.joined ++ m.toJoin ++ sys.ring.pending ++ m.fresh.toList =
      List.range sys.threads.length := by
  have hOrder := h.flows.order
  have hThreads := h.flows.threads
  have hLength := h.threads_length
  obtain ⟨rfl, -⟩ := Builder.build_ok hBuild
  rw [hOrder, hLength, hThreads, List.range_eq_range']
  rfl

/-- A new instance has posted nothing. -/
theorem Alive.posts_of_build (hBuild : b.build overflowChecks entries = some (.ok (ring, mem)))
    {m : Transit} (h : Alive mem sys m) : sys.ring.posts.map (·.cqe) = m.posted := by
  have hPosts := h.flows.posts
  obtain ⟨rfl, -⟩ := Builder.build_ok hBuild
  exact hPosts

theorem eq_range_of_prefix {xs : List Nat} {n : Nat} (h : xs <+: List.range n) :
    xs = List.range xs.length ∧ xs.length ≤ n := by
  have hLe := h.length_le
  rw [List.length_range] at hLe
  refine ⟨?_, hLe⟩
  rw [List.prefix_iff_eq_take.mp h, List.take_range, List.length_range, Nat.min_eq_left hLe]

/-- What was posted are the answers of the first threads, which have returned. -/
theorem Alive.posts_returned (hBuild : b.build overflowChecks entries = some (.ok (ring, mem)))
    {m : Transit} (h : Alive mem sys m) :
    ∃ n ≤ sys.threads.length, (∀ i < n, (returned? sys.threads i).isSome) ∧
      sys.ring.posts.map (·.cqe) <+: (List.range n).flatMap (answers (soFar sys.threads)) := by
  have hOrder := order_of_build hBuild h
  rw [List.append_assoc, List.append_assoc] at hOrder
  obtain ⟨hRange, hLe⟩ := eq_range_of_prefix ⟨_, hOrder⟩
  refine ⟨m.joined.length, hLe, fun i hi => ?_, ?_⟩
  · apply h.joined
    rw [hRange]
    exact List.mem_range.mpr hi
  · rw [← hRange, h.posts_of_build hBuild, ← h.flows.answered]
    exact List.prefix_append _ _

/-- **Completions come last.** In every state of every schedule, what was posted are the answers
of threads that have returned. -/
theorem posted_after_return (hBuild : b.build overflowChecks entries = some (.ok (ring, mem)))
    (hSched : (System.start (clientProgram ring calls) mem user.cells).runSchedule sched =
      some sys) : PostedAfterReturn sys := by
  obtain ⟨m, hAlive⟩ := alive_of_build hBuild hSched
  refine ⟨hAlive.posts_returned hBuild, ?_⟩
  have hWrites := hAlive.flows.writes
  rw [hAlive.posts_of_build hBuild]
  obtain ⟨rfl, -⟩ := Builder.build_ok hBuild
  rw [show (Builder.initialMem ring.sq.ringEntries ring.cq.ringEntries :
    RingMem S C).cqeWrites = [] from rfl, List.nil_append] at hWrites
  rw [hWrites]
  exact (List.sublist_append_left _ _).trans hAlive.flows.resolved

theorem posted_after_return_twoReads :
    ∃ sys, (System.start (clientProgram smallRing.1 twoReads) smallRing.2
        page.cells).runSchedule secondFirst = some sys ∧
      sys.ring.posts.map (·.cqe.userData) = [1, 2] ∧ PostedAfterReturn sys := by
  have hFacts : ((System.start (clientProgram smallRing.1 twoReads) smallRing.2
      page.cells).runSchedule secondFirst).map (·.ring.posts.map (·.cqe.userData)) =
      some [1, 2] := by
    decide +kernel
  obtain ⟨sys, hSched, hPosts⟩ := Option.map_eq_some_iff.mp hFacts
  exact ⟨sys, hSched, hPosts, posted_after_return smallRing_build hSched⟩

/-- When the client is done, it has joined all threads. -/
theorem Alive.returned_of_done
    (hBuild : b.build overflowChecks entries = some (.ok (ring, mem))) {m : Transit}
    (h : Alive mem sys m) {replies : List (Reply C)} (hDone : sys.client = .ret replies) :
    ∀ i < sys.threads.length, (returned? sys.threads i).isSome := by
  have hOrder := order_of_build hBuild h
  have hClient := h.client
  rw [hDone] at hClient
  have hClosed : Closed m := hClient
  obtain ⟨hPending, -⟩ := h.flows.drained hClosed.drained
  rw [hClosed.toJoin, hClosed.fresh, hPending, List.append_nil, List.append_nil,
    Option.toList_none, List.append_nil] at hOrder
  intro i hi
  apply h.joined
  rw [hOrder]
  exact List.mem_range.mpr hi

/-- **The drop waits.** When a client has dropped its instance, all dispatch threads have
returned: nothing can touch user memory any more. -/
theorem drop_waits (hBuild : b.build overflowChecks entries = some (.ok (ring, mem)))
    (hSched : (System.start (clientProgram ring calls) mem user.cells).runSchedule sched =
      some sys) {replies : List (Reply C)} (hDone : sys.client = .ret replies) :
    AllReturned sys.threads := by
  obtain ⟨m, hAlive⟩ := alive_of_build hBuild hSched
  exact allReturned_of_below (hAlive.returned_of_done hBuild hDone)

/-- A read whose completion nobody asks for. -/
def oneRead : List (Call Squeue.Entry) := [.submission, .push (readByte 16 1), .sqDrop, .submit]

/-- The drop has drained the handles and waits for the thread. -/
def untilJoin : List Actor := List.replicate 20 .client

/-- What the client returns, if it is done. -/
def replies? (sys : System S C α) : Option α :=
  match sys.client with
  | .ret a => some a
  | .act _ _ => none

omit [Squeue.EntryMarker S] [Cqueue.EntryMarker C] in
theorem replies?_eq_some_iff {sys : System S C α} {a : α} :
    replies? sys = some a ↔ sys.client = .ret a := by
  unfold replies?
  cases sys.client with
  | ret b => simp
  | act o k => simp

theorem drop_waits_oneRead :
    ∃ sys, (System.start (clientProgram smallRing.1 oneRead) smallRing.2
        page.cells).runSchedule (untilJoin ++ List.replicate 4 (.thread 0) ++ [.client]) =
        some sys ∧ sys.threads.length = 1 ∧ AllReturned sys.threads := by
  have hFacts : ((System.start (clientProgram smallRing.1 oneRead) smallRing.2
      page.cells).runSchedule (untilJoin ++ List.replicate 4 (.thread 0) ++ [.client])).map
        (fun sys => ((replies? sys).isSome, sys.threads.length)) = some (true, 1) := by
    decide +kernel
  obtain ⟨sys, hSched, hEnd⟩ := Option.map_eq_some_iff.mp hFacts
  obtain ⟨hReplies, hLength⟩ := Prod.mk.inj hEnd
  obtain ⟨replies, hDone⟩ := Option.isSome_iff_exists.mp hReplies
  exact ⟨sys, hSched, hLength,
    drop_waits smallRing_build hSched (replies?_eq_some_iff.mp hDone)⟩

end Result

/-! ## A client never waits for long -/

section Client

variable {results : Nat → List CompletionData} {ring : IoUring S C} {s : RingMem S C}
  {l : RingLedger ring}

/-- The calls that the borrow rules allow. -/
theorem run_calls (results : Nat → List CompletionData) (h : Refines ring s l)
    {hs hs' : Handles} (hIdle : Idle hs l) {calls : List (Call S)}
    (hCalls : handlesAfter hs calls = some hs') :
    ∃ replies s', run (ringSem results) (callsProgram ring calls) s = some (replies, s') ∧
      Refines ring s' (Ledger.runCalls (answers results) l calls).2 := by
  induction calls generalizing s l hs with
  | nil => exact ⟨[], s, rfl, h⟩
  | cons call calls ih =>
    obtain ⟨hs₁, hCall, hRest⟩ := Option.bind_eq_some_iff.mp hCalls
    obtain ⟨reply, s₁, hRun, -, h₁, hIdle₁⟩ := call_refines results h hIdle call hCall
    obtain ⟨replies, s₂, hRun₂, h₂⟩ := ih h₁ hIdle₁ hRest
    refine ⟨reply :: replies, s₂, ?_, h₂⟩
    rw [callsProgram, run_bind_of hRun, run_bind_of hRun₂]
    rfl

theorem run_joinEach {handles : List Nat} (h : ∀ i ∈ handles, i < s.threads.length) :
    run (ringSem results) (RingMemory.joinEach handles) s = some ((), s) := by
  induction handles with
  | nil => rfl
  | cons handle handles ih =>
    rw [RingMemory.joinEach, run_join_bind s (h handle List.mem_cons_self)]
    exact ih fun i hi => h i (List.mem_cons_of_mem _ hi)

/-- Whatever the threads return, a client comes to its end if it does not have to wait, and the
drop has only taken the handles. -/
theorem run_clientProgram (results : Nat → List CompletionData) (h : Refines ring s l)
    {hs hs' : Handles} (hIdle : Idle hs l) {calls : List (Call S)}
    (hCalls : handlesAfter hs calls = some hs') :
    ∃ replies s', run (ringSem results) (callsProgram ring calls) s = some (replies, s') ∧
      run (ringSem results) (clientProgram ring calls) s =
        some (replies, { s' with pending := [] }) ∧
      Refines ring s' (Ledger.runCalls (answers results) l calls).2 := by
  obtain ⟨replies, s₁, hRun, h₁⟩ := run_calls results h hIdle hCalls
  have hDrop : run (ringSem results) RingMemory.drop s₁ =
      some ((), { s₁ with pending := [] }) := by
    rw [RingMemory.drop, run_drainPending_bind]
    exact run_joinEach h₁.pending_lt
  refine ⟨replies, s₁, hRun, ?_, h₁⟩
  rw [clientProgram, run_bind_of hRun, run_bind_of hDrop]
  rfl

/-! ### The requests of a client -/

/-- The entries that a call offers to the submission queue. -/
def Call.pushes : Call S → List S
  | .push entry => [entry]
  | .pushMultiple entries => entries
  | _ => []

/-- The requests that a client may submit. -/
def requestsOf (calls : List (Call S)) : List IoUringSqe :=
  (calls.flatMap Call.pushes).map Squeue.EntryMarker.sqe

omit [Squeue.EntryMarker S] [Cqueue.EntryMarker C] in
theorem mem_pushes {call : Call S} {reply : Reply IoUringCqe} {entry : S}
    (h : entry ∈ pushedBy (call, reply)) : entry ∈ Call.pushes call := by
  cases call with
  | push e | pushMultiple es =>
    cases reply with
    | pushed r =>
      cases r with
      | ok u => exact h
      | error e => cases h
    | unit | count n | entry e | entries es | number n | flag b => cases h
  | _ => cases h

omit [Squeue.EntryMarker S] [Cqueue.EntryMarker C] in
theorem mem_acceptedIn {answers : Nat → List IoUringCqe} {calls : List (Call S)} {entry : S}
    (h : entry ∈ acceptedIn (Ledger.runCalls answers l calls).1) :
    entry ∈ calls.flatMap Call.pushes := by
  induction calls generalizing l with
  | nil => cases h
  | cons call calls ih =>
    rw [Ledger.runCalls, acceptedIn, List.flatMap_cons] at h
    rw [List.flatMap_cons]
    rcases List.mem_append.mp h with hFirst | hRest
    · exact List.mem_append_left _ (mem_pushes hFirst)
    · exact List.mem_append_right _ (ih hRest)

/-- The batches of a new instance are made of the entries that were offered. -/
theorem mem_requestsOf {answers : Nat → List IoUringCqe} {calls : List (Call S)}
    (h : Refines ring s (Ledger.runCalls answers (startLedger ring) calls).2)
    {sqes : List IoUringSqe} (hSqes : sqes ∈ s.threads) {sqe : IoUringSqe} (hSqe : sqe ∈ sqes) :
    sqe ∈ requestsOf calls := by
  rw [h.threads] at hSqes
  obtain ⟨batch, hBatch, rfl⟩ := List.mem_map.mp hSqes
  obtain ⟨entry, hEntry, rfl⟩ := List.mem_map.mp hSqe
  have hAccepted := List.mem_flatten.mpr ⟨batch, hBatch, hEntry⟩
  rw [Ledger.batches_eq] at hAccepted
  have hIn := List.mem_of_mem_take hAccepted
  rw [(recorded_run ring answers calls).accepted] at hIn
  exact List.mem_map_of_mem (mem_acceptedIn hIn)

end Client

section Progress

variable {sys sys' : System S C α} {Q : RingMem S C → Prop}

/-- Whatever the threads that are left return, what the client has left to do ends as `E` says. -/
def Ends (E : (Nat → List CompletionData) → Option (α × RingMem S C) → Prop)
    (sys : System S C α) : Prop :=
  ∀ results : Nat → List CompletionData,
    (∀ i, (returned? sys.threads i).isSome → results i = soFar sys.threads i) →
      E results (run (ringSem results) sys.client sys.ring)

theorem Ends.step {E : (Nat → List CompletionData) → Option (α × RingMem S C) → Prop}
    (h : Ends E sys) (hs : Moves sys sys') : Ends E sys' := by
  cases hs with
  | @client o k r ring ring' threads mem hReady hSem =>
    intro results hResults
    have hOld : ∀ i, (returned? threads i).isSome → results i = soFar threads i := by
      intro i hi
      have hSame := returned?_append hi ((submitted o).map dispatchBatch)
      rw [hResults i (by rw [hSame]; exact hi), soFar, hSame, soFar]
    have hSem' : ringSem results o ring = some (r, ring') := by
      rw [ringSem_congr fun i hi => hOld i (hReady i hi)]
      exact hSem
    have hEnd := h results hOld
    rw [run_act_of hSem'] at hEnd
    exact hEnd
  | @thread client ring threads mem mem' i o k r hi hSem =>
    intro results hResults
    refine h results fun j hj => ?_
    have hSame := returned?_set hj hi (k r)
    rw [hResults j (by rw [hSame]; exact hj), soFar, hSame, soFar]

/-- The client has a run to its end, and it ends in `Q`. -/
structure Unblocked (Q : RingMem S C → Prop) (sys : System S C α) : Prop where
  ends : Ends (fun _ x => ∃ a s', x = some (a, s') ∧ Q s') sys
  threads_length : sys.threads.length = sys.ring.threads.length

theorem Unblocked.step (h : Unblocked Q sys) (hs : Moves sys sys') : Unblocked Q sys' :=
  ⟨h.ends.step hs, hs.threads_length h.threads_length⟩

/-- Only a thread that was started is joined. -/
theorem lt_of_awaited {results : Nat → List CompletionData} {o : RingOp S C} {s s' : RingMem S C}
    {r : RingOp.Res o} (hSem : ringSem results o s = some (r, s')) {i : Nat}
    (hi : i ∈ awaited o) : i < s.threads.length := by
  cases o with
  | join handle =>
    obtain rfl := Option.some.inj hi
    exact (Option.ite_none_right_eq_some.mp hSem).1
  | load c | store c v | fetchAdd c v | fetchOr c v | readSqe offset | writeSqe index entry
  | readCqe index | writeCqe offset cqe | zeroExtra offset | spawn sqes | pushPending handle
  | drainPending | overflowPanic | notePost post => cases hi

/-- The client is where it was. -/
structure SameClient (sys sys' : System S C α) : Prop where
  client : sys'.client = sys.client
  ring : sys'.ring = sys.ring
  length : sys'.threads.length = sys.threads.length

omit [Squeue.EntryMarker S] [Cqueue.EntryMarker C] in
theorem SameClient.trans {x y z : System S C α} (h : SameClient x y) (h' : SameClient y z) :
    SameClient x z :=
  ⟨h'.client.trans h.client, h'.ring.trans h.ring, h'.length.trans h.length⟩

/-- A dispatch thread is run to its end, or to a faulting access, while the others stay. -/
theorem exists_returned (sys : System S C α) {i : Nat} {thread : DispatchThread}
    (hi : sys.threads[i]? = some thread) :
    ∃ sched sys', sys.runSchedule sched = some sys' ∧ SameClient sys sys' ∧
      (∀ j, j ≠ i → sys'.threads[j]? = sys.threads[j]?) ∧
      (Faulting sys' ∨ (returned? sys'.threads i).isSome) := by
  induction thread generalizing sys with
  | ret results =>
    refine ⟨[], sys, rfl, ⟨rfl, rfl, rfl⟩, fun _ _ => rfl, .inr ?_⟩
    rw [returned?_eq_some_iff.mpr hi]
    rfl
  | act o k ih =>
    cases hSem : memSem o sys.mem with
    | none =>
      exact ⟨[], sys, rfl, ⟨rfl, rfl, rfl⟩, fun _ _ => rfl, .inl ⟨i, o, k, hi, hSem⟩⟩
    | some q =>
      have hStep : sys.step (.thread i) =
          some { sys with threads := sys.threads.set i (k q.1), mem := q.2 } := by
        simp only [System.step, hi, hSem, Option.map_some]
      have hNext : (sys.threads.set i (k q.1))[i]? = some (k q.1) :=
        List.getElem?_set_self (List.getElem?_eq_some_iff.mp hi).1
      obtain ⟨sched, sys', hRun, hSame, hOthers, hEnd⟩ :=
        ih q.1 { sys with threads := sys.threads.set i (k q.1), mem := q.2 } hNext
      refine ⟨.thread i :: sched, sys', ?_, ?_, fun j hj => ?_, hEnd⟩
      · rw [System.runSchedule, hStep]
        exact hRun
      · exact ⟨hSame.client, hSame.ring, hSame.length.trans List.length_set⟩
      · rw [hOthers j hj]
        exact List.getElem?_set_ne hj.symm

/-- The dispatch threads are run to their ends one after another. -/
theorem exists_returned_below (sys : System S C α) {n : Nat} (hn : n ≤ sys.threads.length) :
    ∃ sched sys', sys.runSchedule sched = some sys' ∧ SameClient sys sys' ∧
      (Faulting sys' ∨ ∀ i < n, (returned? sys'.threads i).isSome) := by
  induction n with
  | zero => exact ⟨[], sys, rfl, ⟨rfl, rfl, rfl⟩, .inr fun i hi => absurd hi (Nat.not_lt_zero i)⟩
  | succ n ih =>
    obtain ⟨sched, sys₁, hRun, hSame, hEnd⟩ := ih (by omega)
    rcases hEnd with hFault | hReturned
    · exact ⟨sched, sys₁, hRun, hSame, .inl hFault⟩
    · have hIn : n < sys₁.threads.length := by
        rw [hSame.length]
        exact hn
      obtain ⟨sched', sys₂, hRun', hSame', hOthers, hEnd'⟩ :=
        exists_returned sys₁ (List.getElem?_eq_getElem hIn)
      refine ⟨sched ++ sched', sys₂, ?_, hSame.trans hSame', ?_⟩
      · rw [runSchedule_append, hRun]
        exact hRun'
      · refine hEnd'.imp_right fun hLast i hi => ?_
        rcases Nat.lt_or_eq_of_le (Nat.le_of_lt_succ hi) with hOld | rfl
        · rw [returned?_congr (hOthers i (Nat.ne_of_lt hOld))]
          exact hReturned i hOld
        · exact hLast

/-- A client that need not wait makes its next step. -/
theorem step_client {o : RingOp S C} {k : RingOp.Res o → RingProgram S C α} {r : RingOp.Res o}
    {ring' : RingMem S C} (hClient : sys.client = .act o k)
    (hReady : ∀ i ∈ awaited o, (returned? sys.threads i).isSome)
    (hSem : ringSem (soFar sys.threads) o sys.ring = some (r, ring')) :
    sys.step .client =
      some ⟨k r, ring', sys.threads ++ (submitted o).map dispatchBatch, sys.mem⟩ := by
  have hClientSem : clientSem o (sys.ring, sys.threads) =
      some (r, ring', sys.threads ++ (submitted o).map dispatchBatch) := by
    rw [clientSem, if_pos hReady]
    exact Option.map_eq_some_iff.mpr ⟨_, hSem, rfl⟩
  simp only [System.step, hClient, hClientSem, Option.map_some]

/-- By induction on what the client has left: before each of its actions, all threads are run
to their ends. -/
theorem exists_end (h : Unblocked Q sys) :
    ∃ sched sys', sys.runSchedule sched = some sys' ∧ (sys'.Finished ∨ Faulting sys') := by
  generalize hClient : sys.client = p
  induction p generalizing sys with
  | ret a =>
    obtain ⟨sched, sys₁, hRun, hSame, hEnd⟩ := exists_returned_below sys (Nat.le_refl _)
    refine ⟨sched, sys₁, hRun, ?_⟩
    rcases hEnd with hFault | hReturned
    · exact .inr hFault
    · rw [← hSame.length] at hReturned
      exact .inl ⟨⟨a, hSame.client.trans hClient⟩, allReturned_of_below hReturned⟩
  | act o k ih =>
    obtain ⟨sched, sys₁, hRun, hSame, hEnd⟩ := exists_returned_below sys (Nat.le_refl _)
    rcases hEnd with hFault | hReturned
    · exact ⟨sched, sys₁, hRun, .inr hFault⟩
    have hReady₁ : Unblocked Q sys₁ := runSchedule_induction Unblocked.step hRun h
    obtain ⟨a, s', hRest, -⟩ := hReady₁.ends (soFar sys₁.threads) fun _ _ => rfl
    rw [hSame.client, hClient, run_act] at hRest
    obtain ⟨⟨r, ring'⟩, hSem, -⟩ := Option.bind_eq_some_iff.mp hRest
    have hWait : ∀ i ∈ awaited o, (returned? sys₁.threads i).isSome := by
      intro i hi
      apply hReturned
      rw [← hSame.length, hReady₁.threads_length]
      exact lt_of_awaited hSem hi
    have hStep := step_client (hSame.client.trans hClient) hWait hSem
    obtain ⟨sched', sys', hRun', hEnd'⟩ := ih r (hReady₁.step (moves_of_step hStep)) rfl
    refine ⟨sched ++ .client :: sched', sys', ?_, hEnd'⟩
    rw [runSchedule_append, hRun, Option.bind_some, System.runSchedule, hStep]
    exact hRun'

end Progress

section Result

variable {b : Builder S C} {overflowChecks : Bool} {entries : UInt32} {ring : IoUring S C}
  {mem : RingMem S C} {user : UserMem} {calls : List (Call S)} {sched : List Actor}
  {sys : System S C (List (Reply C))}

/-- The threads of a client of a new instance get the entries that it has pushed. -/
theorem unblocked_start (user : UserMem)
    (hBuild : b.build overflowChecks entries = some (.ok (ring, mem))) {hs : Handles}
    (hCalls : handlesAfter .none calls = some hs) :
    Unblocked (fun s => ∀ sqes ∈ s.threads, ∀ sqe ∈ sqes, sqe ∈ requestsOf calls)
      (System.start (clientProgram ring calls) mem user.cells) := by
  have hRefines := start_refines b hBuild
  refine ⟨fun results _ => ?_, ?_⟩
  · obtain ⟨replies, s', -, hRun, h⟩ := run_clientProgram results hRefines.mem
      hRefines.idle hCalls
    refine ⟨replies, _, hRun, fun sqes hSqes sqe hSqe => ?_⟩
    exact mem_requestsOf h hSqes hSqe
  · obtain ⟨rfl, -⟩ := Builder.build_ok hBuild
    rfl

/-- **No deadlock.** Every schedule of a client that keeps the borrow rules can be carried to a
state where everything is done or an access to user memory faults; in any other state somebody
can go on. -/
theorem never_deadlocks (hBuild : b.build overflowChecks entries = some (.ok (ring, mem)))
    {hs : Handles} (hCalls : handlesAfter .none calls = some hs)
    (hSched : (System.start (clientProgram ring calls) mem user.cells).runSchedule sched =
      some sys) :
    (∃ sched' sys', sys.runSchedule sched' = some sys' ∧ (sys'.Finished ∨ Faulting sys')) ∧
      (sys.Finished ∨ Faulting sys ∨ ∃ actor sys', sys.step actor = some sys') := by
  have hStart := unblocked_start user hBuild hCalls
  obtain ⟨sched', sys', hRun, hEnd⟩ :=
    exists_end (runSchedule_induction Unblocked.step hSched hStart)
  refine ⟨⟨sched', sys', hRun, hEnd⟩, ?_⟩
  cases sched' with
  | nil =>
    obtain rfl := Option.some.inj hRun
    rcases hEnd with hFinished | hFault
    · exact .inl hFinished
    · exact .inr (.inl hFault)
  | cons actor sched' =>
    obtain ⟨sys₁, hStep, -⟩ := Option.bind_eq_some_iff.mp hRun
    exact .inr (.inr ⟨actor, sys₁, hStep⟩)

/-- The client waits, and the thread can go on. -/
theorem never_deadlocks_oneRead :
    ∃ sys, (System.start (clientProgram smallRing.1 oneRead) smallRing.2
        page.cells).runSchedule untilJoin = some sys ∧ sys.step .client = none ∧
      (sys.Finished ∨ Faulting sys ∨ ∃ actor sys', sys.step actor = some sys') := by
  have hFacts : ((System.start (clientProgram smallRing.1 oneRead) smallRing.2
      page.cells).runSchedule untilJoin).map (fun sys => (sys.step .client).isNone) =
      some true := by
    decide +kernel
  obtain ⟨sys, hSched, hNone⟩ := Option.map_eq_some_iff.mp hFacts
  have hCalls : handlesAfter .none oneRead = some .none := by decide +kernel
  exact ⟨sys, hSched, Option.isNone_iff_eq_none.mp hNone,
    (never_deadlocks smallRing_build hCalls hSched).2⟩

end Result

end Miring.Concurrency
