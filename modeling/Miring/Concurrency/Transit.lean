import Miring.Program.Monitor
import Miring.Concurrency.Spsc.Safety

/-!
# The way of a request through the submitter

`Transit.watch` is a monitor for what a `Submitter` does between the two rings. The entries it has
copied go to one new thread, whose handle is queued; the handles are drained together and joined
in that order; what a thread returns is posted completely and in order; and each post either
writes its completion to a slot or counts it as refused. The cells that tell of refused
completions are written in no other way.

Every call of a client obeys the monitor, and so does the drop of the ring (`obeys_calls`,
`obeys_clientProgram`). In step with a ring, the monitor says what the ring has done with the
entries it was given, in the middle of a call as well as between two calls (`Flows`,
`flows_lockStep`).
-/

namespace Miring.Concurrency

open Sys Miring.Ring Miring.Stream Dispatch Program

variable {S C : Type}

/-! ## The monitor -/

/-- Where the entries and the completions are. -/
structure Transit where
  /-- entries that were copied and not handed to a thread -/
  copied : List IoUringSqe := []
  /-- the batches of the threads -/
  batches : List (List IoUringSqe) := []
  /-- the handle of a thread that is not queued yet -/
  fresh : Option Nat := none
  /-- the handles that were drained and not joined -/
  toJoin : List Nat := []
  joined : List Nat := []
  /-- completions of joined threads that were not posted -/
  owed : List IoUringCqe := []
  posted : List IoUringCqe := []
  /-- the completion that was posted last, if it was neither written nor refused -/
  current : Option IoUringCqe := none
  written : List IoUringCqe := []
  refused : Nat := 0
  /-- no thread was started since the handles were drained -/
  drained : Bool := false

namespace Transit

/-- The cells that the parties advance. -/
def isIndex : Cell → Bool
  | .sqFlags | .sqDropped | .cqOverflow | .cqFlags => false
  | _ => true

def watch : Monitor (ringSig S C) Transit
  | m, ⟨.readSqe _, sqe⟩ => some { m with copied := m.copied ++ [sqe] }
  | m, ⟨.spawn sqes, handle⟩ =>
      if m.copied = sqes ∧ m.fresh = none then
        some { m with
          copied := []
          batches := m.batches ++ [sqes]
          fresh := some handle
          drained := false }
      else none
  | m, ⟨.pushPending handle, _⟩ =>
      if m.fresh = some handle then some { m with fresh := none } else none
  | m, ⟨.drainPending, handles⟩ =>
      if m.fresh = none ∧ m.toJoin = [] then
        some { m with toJoin := handles, drained := true }
      else none
  | m, ⟨.join handle, cds⟩ =>
      if m.toJoin.head? = some handle then
        some { m with
          toJoin := m.toJoin.tail
          joined := m.joined ++ [handle]
          owed := m.owed ++ offered cds }
      else none
  | m, ⟨.notePost post, _⟩ =>
      if m.owed.head? = some post.cqe ∧ m.current = none then
        some { m with
          owed := m.owed.tail
          posted := m.posted ++ [post.cqe]
          current := some post.cqe }
      else none
  | m, ⟨.writeCqe _ cqe, _⟩ =>
      if m.current = some cqe then
        some { m with current := none, written := m.written ++ [cqe] }
      else none
  | m, ⟨.fetchAdd c v, _⟩ =>
      if c = .cqOverflow ∧ v = 1 ∧ m.current.isSome then
        some { m with current := none, refused := m.refused + 1 }
      else none
  | m, ⟨.fetchOr c v, _⟩ => if c = .sqFlags ∧ v = ioringSqCqOverflow then some m else none
  | m, ⟨.store c _, _⟩ => if isIndex c then some m else none
  | m, _ => some m

/-- The actions that do not concern the submitter. -/
def Unseen : RingOp S C → Prop
  | .load _ | .writeSqe _ _ | .readCqe _ | .overflowPanic => True
  | .store c _ => isIndex c = true
  | _ => False

theorem watch_unseen {o : RingOp S C} (r : RingOp.Res o) (h : Unseen o) (m : Transit) :
    watch m ⟨o, r⟩ = some m := by
  cases o with
  | store c v => exact if_pos h
  | load c | writeSqe index entry | readCqe index | overflowPanic => rfl
  | fetchAdd c v | fetchOr c v | readSqe offset | writeCqe offset cqe | zeroExtra offset
  | spawn sqes | pushPending handle | drainPending | join handle | notePost post => exact h.elim

/-- A thread was joined and `owed` is left of what it has returned. -/
structure Posting (m : Transit) (toJoin : List Nat) (owed : List IoUringCqe) : Prop where
  copied : m.copied = []
  fresh : m.fresh = none
  toJoin : m.toJoin = toJoin
  owed : m.owed = owed
  current : m.current = none

/-- Between two calls. -/
abbrev Resting (m : Transit) : Prop := Posting m [] []

end Transit

open Transit

/-- The dispatch thread that an action waits for. -/
def awaited : RingOp S C → Option Nat
  | .join handle => some handle
  | _ => none

/-- The dispatch threads that were joined in a trace, in order. -/
def joins (tr : List (Event (ringSig S C))) : List Nat := tr.flatMap fun e => (awaited e.1).toList

theorem joined_of_watch {o : RingOp S C} {r : RingOp.Res o} {m m' : Transit}
    (h : watch m ⟨o, r⟩ = some m') : m'.joined = m.joined ++ (awaited o).toList := by
  cases o with
  | join handle =>
    obtain ⟨-, hEq⟩ := Option.ite_none_right_eq_some.mp h
    obtain rfl := Option.some.inj hEq
    rfl
  | load c | writeSqe index entry | readCqe index | overflowPanic | zeroExtra offset
  | readSqe offset =>
    obtain rfl := Option.some.inj h
    exact (List.append_nil _).symm
  | store c v | fetchAdd c v | fetchOr c v | spawn sqes | pushPending handle | drainPending
  | notePost post | writeCqe offset cqe =>
    obtain ⟨-, hEq⟩ := Option.ite_none_right_eq_some.mp h
    obtain rfl := Option.some.inj hEq
    exact (List.append_nil _).symm

/-- The monitor keeps the threads that were joined. -/
theorem joined_of_run {tr : List (Event (ringSig S C))} {m m' : Transit}
    (h : Monitor.run watch m tr = some m') : m'.joined = m.joined ++ joins tr := by
  induction tr generalizing m with
  | nil =>
    obtain rfl := Option.some.inj h
    exact (List.append_nil _).symm
  | cons e tr ih =>
    obtain ⟨m₁, hMon, hRest⟩ := Option.bind_eq_some_iff.mp h
    rw [ih hRest, joined_of_watch hMon, List.append_assoc]
    rfl

/-! ## The handles -/

section Handles

variable {α : Type}

theorem only_load (c : Cell) : Only Unseen (load c : RingProgram S C UInt32) :=
  ⟨trivial, fun _ => .ret _⟩

theorem only_store {c : Cell} (h : isIndex c = true) (v : UInt32) :
    Only Unseen (store c v : RingProgram S C Unit) :=
  ⟨h, fun _ => .ret _⟩

/-- One index is loaded and another one stored. -/
theorem only_copy {c c' : Cell} (h : isIndex c' = true) :
    Only Unseen (load c >>= store c' : RingProgram S C Unit) :=
  (only_load c).bind fun v => only_store h v

theorem only_sqBorrow (sq : Squeue.Inner) : Only Unseen (Squeue.borrow sq : RingProgram S C Unit) :=
  (only_load _).bind fun v => (only_store rfl v).bind fun _ => only_copy rfl

theorem only_sqSync : Only Unseen (Squeue.sync : RingProgram S C Unit) :=
  (only_load _).bind fun v => (only_store rfl v).bind fun _ => only_copy rfl

theorem only_sqDrop : Only Unseen (Squeue.drop : RingProgram S C Unit) := only_copy rfl

theorem only_sqLen : Only Unseen (Squeue.len : RingProgram S C Nat) :=
  (only_load _).bind fun _ => (only_load _).bind fun _ => .ret _

theorem only_pushUnchecked (sq : Squeue.Inner) (entry : S) :
    Only Unseen (Squeue.pushUnchecked sq entry : RingProgram S C Unit) :=
  (only_load _).bind fun _ => ⟨trivial, fun _ => only_store rfl _⟩

theorem only_push (sq : Squeue.Inner) (entry : S) :
    Only Unseen (Squeue.push sq entry : RingProgram S C (Except Squeue.PushError Unit)) := by
  refine Only.bind (only_sqLen.bind fun _ => .ret _) fun full => .ite ?_ (.ret _)
  exact (only_pushUnchecked sq entry).bind fun _ => .ret _

theorem only_pushAll (sq : Squeue.Inner) (entries : List S) :
    Only Unseen (Squeue.pushAll sq entries : RingProgram S C Unit) := by
  induction entries with
  | nil => exact .ret _
  | cons entry entries ih => exact (only_pushUnchecked sq entry).bind fun _ => ih

theorem only_pushMultiple (sq : Squeue.Inner) (entries : List S) :
    Only Unseen (Squeue.pushMultiple sq entries :
      RingProgram S C (Except Squeue.PushError Unit)) := by
  refine only_sqLen.bind fun len => .ite ⟨trivial, fun r => nomatch r⟩ (.ite (.ret _) ?_)
  exact (only_pushAll sq entries).bind fun _ => .ret _

theorem only_cqBorrow (cq : Cqueue.Inner) : Only Unseen (Cqueue.borrow cq : RingProgram S C Unit) :=
  (only_load _).bind fun v => (only_store rfl v).bind fun _ => only_copy rfl

theorem only_cqSync : Only Unseen (Cqueue.sync : RingProgram S C Unit) :=
  (only_load _).bind fun v => (only_store rfl v).bind fun _ => only_copy rfl

theorem only_cqDrop : Only Unseen (Cqueue.drop : RingProgram S C Unit) := only_copy rfl

theorem only_cqLen : Only Unseen (Cqueue.len : RingProgram S C Nat) :=
  (only_load _).bind fun _ => (only_load _).bind fun _ => .ret _

theorem only_pop (cq : Cqueue.Inner) : Only Unseen (Cqueue.pop cq : RingProgram S C C) :=
  (only_load _).bind fun _ => (only_store rfl _).bind fun _ => ⟨trivial, fun _ => .ret _⟩

theorem only_next (cq : Cqueue.Inner) :
    Only Unseen (Cqueue.next cq : RingProgram S C (Option C)) := by
  refine (only_load _).bind fun head => (only_load _).bind fun tail => .ite ?_ (.ret _)
  exact (only_pop cq).bind fun _ => .ret _

theorem only_popMany (cq : Cqueue.Inner) (n : Nat) :
    Only Unseen (Cqueue.popMany cq n : RingProgram S C (List C)) := by
  induction n with
  | zero => exact .ret _
  | succ n ih => exact (only_pop cq).bind fun _ => ih.bind fun _ => .ret _

theorem only_fill (cq : Cqueue.Inner) (n : Nat) :
    Only Unseen (Cqueue.fill cq n : RingProgram S C (List C)) :=
  only_cqLen.bind fun _ => only_popMany cq _

theorem only_query [Squeue.EntryMarker S] [Cqueue.EntryMarker C] (ring : IoUring S C) (q : Query) :
    Only Unseen (q.program ring) := by
  cases q with
  | sqCapacity | cqCapacity => exact .ret _
  | sqLen => exact only_sqLen.map
  | sqIsEmpty | sqIsFull => exact Only.map (only_sqLen.bind fun _ => .ret _)
  | sqNeedWakeup | sqCqOverflow | sqTaskrun =>
    exact Only.map ((only_load .sqFlags).bind fun _ => .ret _)
  | sqDropped => exact (only_load .sqDropped).map
  | cqLen => exact only_cqLen.map
  | cqIsEmpty | cqIsFull => exact Only.map (only_cqLen.bind fun _ => .ret _)
  | cqOverflow => exact (only_load .cqOverflow).map
  | cqEventfdDisabled => exact Only.map ((only_load .cqFlags).bind fun _ => .ret _)

/-- What only works on a handle leaves the monitor where it is. -/
theorem Transit.Posting.only {m : Transit} {js : List Nat} {owed : List IoUringCqe}
    (h : Posting m js owed) {p : RingProgram S C α} (hp : Only Unseen p) :
    Obeys watch (fun _ m' => Posting m' js owed) p m := by
  refine (hp.obeys (m := m) fun o r ho => watch_unseen r ho m).mono ?_
  intro a m' hEq
  rw [hEq]
  exact h

end Handles

/-! ## The submitter -/

section Submitter

open Submitter

variable {sub : Submitter} {m : Transit} {α : Type}

/-- A load tells nothing. -/
theorem obeys_load {c : Cell} {k : UInt32 → RingProgram S C α} {Q : α → Transit → Prop}
    (hk : ∀ v, Obeys watch Q (k v) m) : Obeys watch Q (load c >>= k) m :=
  fun v => ⟨m, rfl, hk v⟩

theorem obeys_sqLen (h : Resting m) :
    Obeys watch (fun _ m' => Resting m') (sqLen : RingProgram S C Nat) m :=
  obeys_load fun _ => obeys_load fun _ => h

/-- The copied entries are those that are answered. -/
theorem obeys_snapshot (sqHead : UInt32) (n : Nat) (m : Transit) :
    Obeys watch (fun x m' => m' = { m with copied := m.copied ++ x.1 })
      (snapshot sub sqHead n : RingProgram S C (List IoUringSqe × UInt32)) m := by
  induction n generalizing sqHead m with
  | zero =>
    change m = { m with copied := m.copied ++ [] }
    rw [List.append_nil]
  | succ n ih =>
    intro sqe
    refine ⟨{ m with copied := m.copied ++ [sqe] }, rfl, ?_⟩
    refine (ih (sqHead + 1) _).bind ?_
    rintro rest m' rfl
    change _ = { m with copied := m.copied ++ sqe :: rest.1 }
    rw [List.append_assoc]
    rfl

/-- The whole snapshot goes to one thread, and the handle of the thread is queued. -/
theorem obeys_enqueueSqes (h : Resting m) (toSubmit : UInt32) :
    Obeys watch (fun _ m' => Resting m')
      (enqueueSqes sub toSubmit : RingProgram S C Nat) m := by
  refine obeys_load fun sqHead => obeys_load fun sqTail => .ite (fun _ => h) fun _ => ?_
  refine (obeys_snapshot sqHead _ m).bind ?_
  rintro snap m' rfl
  have hCopied : m.copied ++ snap.1 = snap.1 := by
    rw [h.copied]
    rfl
  intro u
  refine ⟨_, rfl, fun handle => ⟨_, if_pos ⟨hCopied, h.fresh⟩, fun u => ⟨_, if_pos rfl, ?_⟩⟩⟩
  exact ⟨rfl, rfl, h.toJoin, h.owed, h.current⟩

/-- A post is either refused, which is counted, or written. -/
theorem obeys_postCqe {js : List Nat} {owed : List IoUringCqe} {userData : UInt64} {res : Int32}
    {flags : UInt32} (h : Posting m js (⟨userData, res, flags⟩ :: owed)) :
    Obeys watch (fun _ m' => Posting m' js owed)
      (postCqe sub userData res flags : RingProgram S C Unit) m := by
  refine obeys_load fun cqTail => obeys_load fun cqHead => ?_
  have hNote : m.owed.head? = some ⟨userData, res, flags⟩ ∧ m.current = none := by
    rw [h.owed]
    exact ⟨rfl, h.current⟩
  have hTail : m.owed.tail = owed := by
    rw [h.owed]
    rfl
  intro u
  refine ⟨_, if_pos hNote, .ite (fun _ => ?_) fun _ => ?_⟩
  · intro prev
    refine ⟨_, rfl, .ite (fun _ => ?_) fun _ => ?_⟩
    · exact fun _ => ⟨_, rfl, h.copied, h.fresh, h.toJoin, hTail, rfl⟩
    · exact ⟨h.copied, h.fresh, h.toJoin, hTail, rfl⟩
  · intro u
    refine ⟨_, if_pos rfl, ?_⟩
    have hWritten : Posting { m with
        owed := m.owed.tail
        posted := m.posted ++ [⟨userData, res, flags⟩]
        current := none
        written := m.written ++ [⟨userData, res, flags⟩] } js owed :=
      ⟨h.copied, h.fresh, h.toJoin, hTail, rfl⟩
    have hTailStored : ∀ {m' : Transit}, Posting m' js owed →
        Obeys watch (fun _ m' => Posting m' js owed)
          (store .cqTail (cqTail + 1) : RingProgram S C Unit) m' :=
      fun hm' u => ⟨_, rfl, hm'⟩
    change Obeys watch _ ((if sub.cqeStride > 16 then zeroExtra _ else pure ()) >>= fun _ =>
      store .cqTail (cqTail + 1)) _
    refine Obeys.bind (Q := fun _ m' => Posting m' js owed) (.ite (fun _ => ?_) fun _ => ?_)
      fun _ _ => hTailStored
    · exact fun u => ⟨_, rfl, hWritten⟩
    · exact hWritten

/-- Everything that a thread has returned is posted, except for what is suppressed. -/
theorem obeys_postResults {js : List Nat} {cds : List CompletionData}
    (h : Posting m js (offered cds)) :
    Obeys watch (fun _ m' => Posting m' js []) (postResults sub cds : RingProgram S C Unit) m := by
  induction cds generalizing m with
  | nil => exact h
  | cons cd cds ih =>
    refine Obeys.bind (.ite (fun hPosted => ?_) fun hSuppressed => ?_) fun _ m' hm' => ih hm'
    · have hOffered : offered (cd :: cds) = cqeOf cd :: offered cds := by
        simp [offered, hPosted]
      rw [hOffered] at h
      exact obeys_postCqe h
    · have hOffered : offered (cd :: cds) = offered cds := by
        simp [offered, hSuppressed]
      rw [hOffered] at h
      exact h

theorem obeys_joinAll {handles : List Nat} (h : Posting m handles []) :
    Obeys watch (fun _ m' => Resting m') (joinAll sub handles : RingProgram S C Unit) m := by
  induction handles generalizing m with
  | nil => exact h
  | cons handle handles ih =>
    have hNext : m.toJoin.head? = some handle := by
      rw [h.toJoin]
      rfl
    intro cds
    refine ⟨_, if_pos hNext, (obeys_postResults ?_).bind fun _ m' hm' => ih hm'⟩
    refine ⟨h.copied, h.fresh, ?_, ?_, h.current⟩
    · change m.toJoin.tail = handles
      rw [h.toJoin]
      rfl
    · change m.owed ++ offered cds = offered cds
      rw [h.owed]
      rfl

theorem obeys_flushPending (h : Resting m) :
    Obeys watch (fun _ m' => Resting m') (flushPending sub : RingProgram S C Unit) m :=
  fun _ => ⟨_, if_pos ⟨h.fresh, h.toJoin⟩,
    obeys_joinAll ⟨h.copied, h.fresh, rfl, h.owed, h.current⟩⟩

theorem obeys_flushIf (h : Resting m) {c : Prop} [Decidable c] :
    Obeys watch (fun _ m' => Resting m')
      (if c then flushPending sub else pure () : RingProgram S C Unit) m :=
  .ite (fun _ => obeys_flushPending h) fun _ => h

theorem obeys_enter (h : Resting m) (toSubmit minComplete : UInt32) :
    Obeys watch (fun _ m' => Resting m')
      (enter sub toSubmit minComplete : RingProgram S C Nat) m :=
  (obeys_enqueueSqes h toSubmit).bind fun _ _ hm => (obeys_flushIf hm).bind fun _ _ hm' => hm'

theorem obeys_submitAndWait (h : Resting m) (want : Nat) :
    Obeys watch (fun _ m' => Resting m') (submitAndWait sub want : RingProgram S C Nat) m :=
  (obeys_sqLen h).bind fun _ _ h₁ => (obeys_enqueueSqes h₁ _).bind fun _ _ h₂ =>
    (obeys_flushIf h₂).bind fun _ _ h₃ => h₃

end Submitter

/-! ## Calls and clients -/

section Clients

variable [Squeue.EntryMarker S] [Cqueue.EntryMarker C] (ring : IoUring S C) {m : Transit}

theorem obeys_call (h : Resting m) (call : Call S) :
    Obeys watch (fun _ m' => Resting m') (call.program ring) m := by
  cases call with
  | submission => exact h.only (only_sqBorrow _).map
  | push entry => exact h.only (only_push _ entry).map
  | pushMultiple entries => exact h.only (only_pushMultiple _ entries).map
  | sqSync => exact h.only only_sqSync.map
  | sqDrop => exact h.only only_sqDrop.map
  | submit => exact (obeys_submitAndWait h 0).map
  | submitAndWait want => exact (obeys_submitAndWait h want).map
  | submitWithArgs want => exact (obeys_submitAndWait h want).map
  | enter toSubmit minComplete => exact (obeys_enter h toSubmit minComplete).map
  | completion =>
    exact Obeys.map ((obeys_flushPending h).bind fun _ _ hm => hm.only (only_cqBorrow _))
  | next => exact h.only (only_next _).map
  | fill n => exact h.only (only_fill _ n).map
  | cqSync => exact h.only only_cqSync.map
  | cqDrop => exact h.only only_cqDrop.map
  | split =>
    exact Obeys.map ((obeys_flushPending h).bind fun _ _ hm =>
      hm.only ((only_sqBorrow _).bind fun _ => only_cqBorrow _))
  | query q => exact h.only (only_query ring q)

theorem obeys_calls (h : Resting m) (calls : List (Call S)) :
    Obeys watch (fun _ m' => Resting m') (callsProgram ring calls) m := by
  induction calls generalizing m with
  | nil => exact h
  | cons call calls ih =>
    refine (obeys_call ring h call).bind fun _ _ hm => ?_
    exact (ih hm).bind fun _ _ hm' => hm'

/-- A client that makes some calls and then drops the instance. -/
def clientProgram (calls : List (Call S)) : RingProgram S C (List (Reply C)) := do
  let replies ← callsProgram ring calls
  RingMemory.drop
  pure replies

/-- All threads were joined. -/
structure Closed (m : Transit) : Prop where
  fresh : m.fresh = none
  toJoin : m.toJoin = []
  drained : m.drained = true

omit [Squeue.EntryMarker S] [Cqueue.EntryMarker C] in
theorem obeys_joinEach {handles : List Nat} (hFresh : m.fresh = none) (hJoin : m.toJoin = handles)
    (hDrained : m.drained = true) :
    Obeys watch (fun _ m' => Closed m') (RingMemory.joinEach handles : RingProgram S C Unit) m := by
  induction handles generalizing m with
  | nil => exact ⟨hFresh, hJoin, hDrained⟩
  | cons handle handles ih =>
    have hNext : m.toJoin.head? = some handle := by
      rw [hJoin]
      rfl
    intro cds
    refine ⟨_, if_pos hNext, ih hFresh ?_ hDrained⟩
    change m.toJoin.tail = handles
    rw [hJoin]
    rfl

omit [Squeue.EntryMarker S] [Cqueue.EntryMarker C] in
theorem obeys_drop (h : Resting m) :
    Obeys watch (fun _ m' => Closed m') (RingMemory.drop : RingProgram S C Unit) m :=
  fun _ => ⟨_, if_pos ⟨h.fresh, h.toJoin⟩, obeys_joinEach h.fresh rfl rfl⟩

theorem obeys_clientProgram (h : Resting m) (calls : List (Call S)) :
    Obeys watch (fun _ m' => Closed m') (clientProgram ring calls) m :=
  (obeys_calls ring h calls).bind fun _ _ hm => (obeys_drop hm).bind fun _ _ hm' => hm'

end Clients

/-! ## In step with the ring -/

section Flows

/-- What the ring has done since `s₀`, when dispatch thread `i` returns `results i`. -/
structure Flows (results : Nat → List CompletionData) (s₀ s : RingMem S C) (m : Transit) : Prop where
  threads : s.threads = s₀.threads ++ m.batches
  /-- the batches are the copied entries, cut into pieces -/
  reads : s.sqeReads = s₀.sqeReads ++ m.batches.flatten ++ m.copied
  /-- the threads are joined in the order in which they were started -/
  order : m.joined ++ m.toJoin ++ s.pending ++ m.fresh.toList =
    s₀.pending ++ List.range' s₀.threads.length m.batches.length
  /-- what the joined threads have returned is posted in order -/
  answered : m.posted ++ m.owed = m.joined.flatMap (answers results)
  posts : s.posts.map (·.cqe) = s₀.posts.map (·.cqe) ++ m.posted
  writes : s.cqeWrites = s₀.cqeWrites ++ m.written
  /-- each post was written or refused -/
  resolved : (m.written ++ m.current.toList).Sublist m.posted
  counted : m.written.length + m.refused + m.current.toList.length = m.posted.length
  overflow : s.cells .cqOverflow = s₀.cells .cqOverflow + UInt32.ofNat m.refused
  sqFlags : s.cells .sqFlags = s₀.cells .sqFlags ∨
    s.cells .sqFlags = s₀.cells .sqFlags ||| ioringSqCqOverflow
  dropped : s.cells .sqDropped = s₀.cells .sqDropped
  cqFlags : s.cells .cqFlags = s₀.cells .cqFlags
  drained : m.drained = true → s.pending = [] ∧ m.fresh = none

variable {results : Nat → List CompletionData} {s₀ s s' : RingMem S C} {m m' : Transit}

theorem flows_start (results : Nat → List CompletionData) (s : RingMem S C) :
    Flows results s s {} := by
  refine ⟨?_, ?_, ?_, rfl, ?_, ?_, ?_, rfl, ?_, .inl rfl, rfl, rfl, nofun⟩
  all_goals simp

/-- Nothing happens that the monitor follows. -/
theorem Flows.congr (h : Flows results s₀ s m) (hThreads : s'.threads = s.threads)
    (hReads : s'.sqeReads = s.sqeReads) (hPending : s'.pending = s.pending)
    (hPosts : s'.posts = s.posts) (hWrites : s'.cqeWrites = s.cqeWrites)
    (hCells : ∀ c, isIndex c = false → s'.cells c = s.cells c) : Flows results s₀ s' m where
  threads := hThreads.trans h.threads
  reads := hReads.trans h.reads
  order := by rw [hPending]; exact h.order
  answered := h.answered
  posts := by rw [hPosts]; exact h.posts
  writes := hWrites.trans h.writes
  resolved := h.resolved
  counted := h.counted
  overflow := (hCells _ rfl).trans h.overflow
  sqFlags := by rw [hCells _ rfl]; exact h.sqFlags
  dropped := (hCells _ rfl).trans h.dropped
  cqFlags := (hCells _ rfl).trans h.cqFlags
  drained := by rw [hPending]; exact h.drained

theorem Flows.of_results (h : Flows results s₀ s m) {results' : Nat → List CompletionData}
    (hSame : ∀ i ∈ m.joined, results' i = results i) : Flows results' s₀ s m where
  threads := h.threads
  reads := h.reads
  order := h.order
  answered := by
    rw [h.answered]
    apply List.flatMap_congr
    intro i hi
    rw [answers, answers, hSame i hi]
  posts := h.posts
  writes := h.writes
  resolved := h.resolved
  counted := h.counted
  overflow := h.overflow
  sqFlags := h.sqFlags
  dropped := h.dropped
  cqFlags := h.cqFlags
  drained := h.drained

theorem setCell_of_isIndex {c : Cell} (hc : isIndex c = true) (v : UInt32) (s : RingMem S C) :
    ∀ c', isIndex c' = false → (s.setCell c v).cells c' = s.cells c' := by
  intro c' hc'
  refine RingMem.setCell_cells_of_ne s v ?_
  rintro rfl
  rw [hc] at hc'
  cases hc'

variable [Squeue.EntryMarker S] [Cqueue.EntryMarker C]

theorem flows_unseen {o : RingOp S C} {r : RingOp.Res o} (hQuiet : Unseen o)
    (hSem : ringSem results o s = some (r, s')) (h : Flows results s₀ s m) :
    Flows results s₀ s' m := by
  cases o with
  | load c =>
    obtain ⟨-, rfl⟩ := Prod.mk.inj (Option.some.inj hSem)
    exact h
  | store c v =>
    obtain ⟨-, rfl⟩ := Prod.mk.inj (Option.some.inj hSem)
    exact h.congr rfl rfl rfl rfl rfl (setCell_of_isIndex hQuiet v s)
  | writeSqe index entry =>
    obtain ⟨-, hEq⟩ := Option.ite_none_right_eq_some.mp hSem
    obtain ⟨-, rfl⟩ := Prod.mk.inj (Option.some.inj hEq)
    exact h.congr rfl rfl rfl rfl rfl fun _ _ => rfl
  | readCqe index =>
    obtain ⟨e, -, hEq⟩ := Option.map_eq_some_iff.mp hSem
    obtain ⟨-, rfl⟩ := Prod.mk.inj hEq
    exact h.congr rfl rfl rfl rfl rfl fun _ _ => rfl
  | overflowPanic => cases hSem
  | fetchAdd c v | fetchOr c v | readSqe offset | writeCqe offset cqe | zeroExtra offset
  | spawn sqes | pushPending handle | drainPending | join handle | notePost post =>
    exact hQuiet.elim

theorem or_sqCqOverflow (v : UInt32) :
    v ||| ioringSqCqOverflow ||| ioringSqCqOverflow = v ||| ioringSqCqOverflow := by
  rw [UInt32.or_assoc, UInt32.or_self]

/-- **The monitor is right**: one case for each action that it follows. -/
theorem flows_lockStep (results : Nat → List CompletionData) (s₀ : RingMem S C) :
    LockStep (ringSem results) watch (Flows results s₀) := by
  intro o s r s' m m' hSem hMon h
  cases o with
  | load c =>
    obtain rfl := Option.some.inj hMon
    exact flows_unseen (o := .load c) trivial hSem h
  | writeSqe index entry =>
    obtain rfl := Option.some.inj hMon
    exact flows_unseen (o := .writeSqe index entry) trivial hSem h
  | readCqe index =>
    obtain rfl := Option.some.inj hMon
    exact flows_unseen (o := .readCqe index) trivial hSem h
  | overflowPanic => cases hSem
  | store c v =>
    obtain ⟨hIndex, hEq⟩ := Option.ite_none_right_eq_some.mp hMon
    obtain rfl := Option.some.inj hEq
    exact flows_unseen (o := .store c v) hIndex hSem h
  | zeroExtra offset =>
    obtain rfl := Option.some.inj hMon
    obtain ⟨-, hEq⟩ := Option.ite_none_right_eq_some.mp hSem
    obtain ⟨i, -, hEnd⟩ := Option.map_eq_some_iff.mp hEq
    obtain ⟨-, rfl⟩ := Prod.mk.inj hEnd
    exact h.congr rfl rfl rfl rfl rfl fun _ _ => rfl
  | readSqe offset =>
    obtain ⟨e, -, hEnd⟩ := Option.map_eq_some_iff.mp hSem
    obtain ⟨rfl, rfl⟩ := Prod.mk.inj hEnd
    obtain rfl := Option.some.inj hMon
    refine { h with reads := ?_ }
    change s.sqeReads ++ [_] = s₀.sqeReads ++ m.batches.flatten ++ (m.copied ++ [_])
    rw [h.reads, List.append_assoc _ m.copied]
  | spawn sqes =>
    obtain ⟨⟨hCopied, hFresh⟩, hEq⟩ := Option.ite_none_right_eq_some.mp hMon
    obtain rfl := Option.some.inj hEq
    obtain ⟨rfl, rfl⟩ := Prod.mk.inj (Option.some.inj hSem)
    have hOrder := h.order
    have hThreads := h.threads
    have hReads := h.reads
    rw [hFresh, Option.toList_none, List.append_nil] at hOrder
    refine { h with threads := ?_, reads := ?_, order := ?_, drained := nofun }
    · change s.threads ++ [sqes] = s₀.threads ++ (m.batches ++ [sqes])
      rw [hThreads, List.append_assoc]
    · change s.sqeReads = s₀.sqeReads ++ (m.batches ++ [sqes]).flatten ++ []
      rw [hReads, hCopied, List.flatten_append, List.flatten_singleton, List.append_nil,
        List.append_assoc]
    · change m.joined ++ m.toJoin ++ s.pending ++ [s.threads.length] =
        s₀.pending ++ List.range' s₀.threads.length (m.batches ++ [sqes]).length
      rw [hOrder, hThreads, List.length_append, List.length_append, List.length_singleton,
        ← List.range'_append_1, List.range'_one, List.append_assoc]
  | pushPending handle =>
    obtain ⟨hFresh, hEq⟩ := Option.ite_none_right_eq_some.mp hMon
    obtain rfl := Option.some.inj hEq
    obtain ⟨-, rfl⟩ := Prod.mk.inj (Option.some.inj hSem)
    have hOrder := h.order
    rw [hFresh, Option.toList_some] at hOrder
    refine { h with order := ?_, drained := ?_ }
    · change m.joined ++ m.toJoin ++ (s.pending ++ [handle]) ++ [] = _
      rw [← hOrder, List.append_nil, List.append_assoc _ s.pending]
    · intro hDrained
      rw [(h.drained hDrained).2] at hFresh
      cases hFresh
  | drainPending =>
    obtain ⟨⟨hFresh, hJoin⟩, hEq⟩ := Option.ite_none_right_eq_some.mp hMon
    obtain ⟨rfl, rfl⟩ := Prod.mk.inj (Option.some.inj hSem)
    obtain rfl := Option.some.inj hEq
    have hOrder := h.order
    rw [hJoin, List.append_nil] at hOrder
    refine { h with order := ?_, drained := fun _ => ⟨rfl, hFresh⟩ }
    change m.joined ++ s.pending ++ [] ++ m.fresh.toList = _
    rw [List.append_nil]
    exact hOrder
  | join handle =>
    obtain ⟨hHead, hEq⟩ := Option.ite_none_right_eq_some.mp hMon
    obtain ⟨-, hEnd⟩ := Option.ite_none_right_eq_some.mp hSem
    obtain ⟨rfl, rfl⟩ := Prod.mk.inj (Option.some.inj hEnd)
    obtain rfl := Option.some.inj hEq
    obtain ⟨handles, hJoin⟩ := List.head?_eq_some_iff.mp hHead
    have hOrder := h.order
    have hAnswered := h.answered
    rw [hJoin] at hOrder
    refine { h with order := ?_, answered := ?_ }
    · change m.joined ++ [handle] ++ m.toJoin.tail ++ s.pending ++ m.fresh.toList = _
      rw [← hOrder, hJoin, List.tail_cons, List.append_assoc m.joined, List.singleton_append]
    · change m.posted ++ (m.owed ++ offered (results handle)) =
        (m.joined ++ [handle]).flatMap (answers results)
      rw [List.flatMap_append, ← hAnswered, List.flatMap_singleton, List.append_assoc]
      rfl
  | notePost post =>
    obtain ⟨⟨hHead, hCurrent⟩, hEq⟩ := Option.ite_none_right_eq_some.mp hMon
    obtain ⟨-, rfl⟩ := Prod.mk.inj (Option.some.inj hSem)
    obtain rfl := Option.some.inj hEq
    obtain ⟨owed, hOwed⟩ := List.head?_eq_some_iff.mp hHead
    have hAnswered := h.answered
    have hPosts := h.posts
    have hResolved := h.resolved
    have hCounted := h.counted
    rw [hOwed] at hAnswered
    rw [hCurrent, Option.toList_none, List.append_nil] at hResolved
    rw [hCurrent] at hCounted
    refine { h with answered := ?_, posts := ?_, resolved := ?_, counted := ?_ }
    · change m.posted ++ [post.cqe] ++ m.owed.tail = _
      rw [← hAnswered, hOwed, List.tail_cons, List.append_assoc, List.singleton_append]
    · change (s.posts ++ [post]).map (·.cqe) = s₀.posts.map (·.cqe) ++ (m.posted ++ [post.cqe])
      rw [List.map_append, hPosts, List.append_assoc]
      rfl
    · exact hResolved.append (List.Sublist.refl _)
    · change m.written.length + m.refused + 1 = (m.posted ++ [post.cqe]).length
      rw [List.length_append, ← hCounted]
      rfl
  | writeCqe offset cqe =>
    obtain ⟨hCurrent, hEq⟩ := Option.ite_none_right_eq_some.mp hMon
    obtain ⟨i, -, hEnd⟩ := Option.map_eq_some_iff.mp hSem
    obtain ⟨-, rfl⟩ := Prod.mk.inj hEnd
    obtain rfl := Option.some.inj hEq
    have hWrites := h.writes
    have hResolved := h.resolved
    have hCounted := h.counted
    rw [hCurrent] at hResolved hCounted
    refine { h with writes := ?_, resolved := ?_, counted := ?_ }
    · change s.cqeWrites ++ [cqe] = s₀.cqeWrites ++ (m.written ++ [cqe])
      rw [hWrites, List.append_assoc]
    · change ((m.written ++ [cqe]) ++ []).Sublist m.posted
      rw [List.append_nil]
      exact hResolved
    · change (m.written ++ [cqe]).length + m.refused + 0 = m.posted.length
      rw [List.length_append, ← hCounted, Option.toList_some, List.length_singleton]
      omega
  | fetchAdd c v =>
    obtain ⟨⟨rfl, rfl, hSome⟩, hEq⟩ := Option.ite_none_right_eq_some.mp hMon
    obtain ⟨cqe, hCurrent⟩ := Option.isSome_iff_exists.mp hSome
    obtain ⟨-, rfl⟩ := Prod.mk.inj (Option.some.inj hSem)
    obtain rfl := Option.some.inj hEq
    have hResolved := h.resolved
    have hCounted := h.counted
    have hOverflow := h.overflow
    have hOther : ∀ c, c ≠ .cqOverflow →
        (s.setCell .cqOverflow (s.cells .cqOverflow + 1)).cells c = s.cells c :=
      fun c hc => RingMem.setCell_cells_of_ne s _ hc
    rw [hCurrent] at hCounted
    refine { h with
      resolved := ?_
      counted := ?_
      overflow := ?_
      sqFlags := ?_
      dropped := (hOther .sqDropped nofun).trans h.dropped
      cqFlags := (hOther .cqFlags nofun).trans h.cqFlags }
    · change (m.written ++ []).Sublist m.posted
      rw [List.append_nil]
      exact (List.sublist_append_left _ _).trans hResolved
    · change m.written.length + (m.refused + 1) + 0 = m.posted.length
      rw [← hCounted, Option.toList_some, List.length_singleton]
      omega
    · change (s.setCell .cqOverflow (s.cells .cqOverflow + 1)).cells .cqOverflow =
        s₀.cells .cqOverflow + UInt32.ofNat (m.refused + 1)
      rw [RingMem.setCell_cells_self, hOverflow, UInt32.ofNat_add, UInt32.add_assoc]
      rfl
    · rw [hOther .sqFlags nofun]
      exact h.sqFlags
  | fetchOr c v =>
    obtain ⟨⟨rfl, rfl⟩, hEq⟩ := Option.ite_none_right_eq_some.mp hMon
    obtain ⟨-, rfl⟩ := Prod.mk.inj (Option.some.inj hSem)
    obtain rfl := Option.some.inj hEq
    have hOther : ∀ c, c ≠ .sqFlags →
        (s.setCell .sqFlags (s.cells .sqFlags ||| ioringSqCqOverflow)).cells c = s.cells c :=
      fun c hc => RingMem.setCell_cells_of_ne s _ hc
    refine { h with
      overflow := (hOther .cqOverflow nofun).trans h.overflow
      sqFlags := ?_
      dropped := (hOther .sqDropped nofun).trans h.dropped
      cqFlags := (hOther .cqFlags nofun).trans h.cqFlags }
    right
    rw [RingMem.setCell_cells_self]
    rcases h.sqFlags with hFlags | hFlags
    · rw [hFlags]
    · rw [hFlags, or_sqCqOverflow]

end Flows

end Miring.Concurrency
