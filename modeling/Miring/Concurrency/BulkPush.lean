import Miring.Concurrency.Spsc.Safety

/-!
# Pushing several entries

`push_multiple` tests once whether there is room and then writes without a test; `push` tests
before each write. In every state that a `SubmissionQueue` can be in, also where its copy of
the head is out of date and where the counters wrap, the two agree: `push_multiple` succeeds
exactly where each `push` of a sequence does, and then it leaves the state that the sequence
leaves; otherwise it changes nothing (`pushMultiple_allOrNothing`).
-/

namespace Miring.Concurrency

open Sys Miring.Ring Miring.Stream Dispatch Program Protocol

variable {S C : Type} [Squeue.EntryMarker S] [Cqueue.EntryMarker C]

/-! ## Statement -/

/-- Push entries one by one, up to the first that finds no room. -/
def pushEach (sq : Squeue.Inner) : List S → RingProgram S C (Except Squeue.PushError Unit)
  | [] => pure (.ok ())
  | entry :: entries => do
      let reply ← Squeue.push sq entry
      match reply with
      | .ok () => pushEach sq entries
      | .error e => pure (.error e)

/-- The states in which the owner of a `SubmissionQueue` can make a call: behind a run of a
client that holds one, and behind a schedule of the three parties, which starts with counters
of any value. -/
inductive HandleState (ring : IoUring S C) : RingMem S C → Prop where
  | run {b : Builder S C} {overflowChecks : Bool} {entries : UInt32} {mem : RingMem S C}
      (hBuild : b.build overflowChecks entries = some (.ok (ring, mem)))
      {results : Nat → List CompletionData} {calls : List (Call S)} {c : Client S C}
      (hRun : (Client.start mem).runCalls ring results calls = some c)
      (hHandle : c.handles.sq = true) : HandleState ring c.mem
  | schedule {s : RingMem S C} (hSplit : SplitState ring s) {calls : Party → List (Call S)}
      (hCalls : ∀ i, ∀ call ∈ calls i, Call.party call = some i)
      {results : Nat → List CompletionData}
      {P : Pool Party (ringSig S C) (RingMem S C) (List (Reply C))}
      (hReach : Pool.Reach (ringSem results) (parties ring calls s) P) :
      HandleState ring P.state

/-- `len()` of the handle. -/
def handleLen (s : RingMem S C) : Nat := dist (s.cells .sqLocalHead) (s.cells .sqLocalTail)

/-- The slots from the head of the handle on that hold queued entries. -/
def handleEntries (ring : IoUring S C) (s : RingMem S C) (n : Nat) : List (Option S) :=
  window s.sqes ring.sq.ringMask (s.cells .sqLocalHead) n

/-- `push_multiple` has answered `r` in state `s` and left state `s'`. -/
structure AllOrNothing (ring : IoUring S C) (results : Nat → List CompletionData)
    (entries : List S) (s : RingMem S C) (r : Except Squeue.PushError Unit)
    (s' : RingMem S C) : Prop where
  /-- `capacity() - len()` does not underflow -/
  len : run (ringSem results) Squeue.len s = some (handleLen s, s)
  len_le : handleLen s ≤ Squeue.capacity ring.sq
  ok_iff : r = .ok () ↔ ∃ s₁, run (ringSem results) (pushEach ring.sq entries) s = some (.ok (), s₁)
  ok : r = .ok () → run (ringSem results) (pushEach ring.sq entries) s = some (.ok (), s')
  error : r ≠ .ok () → s' = s
  /-- only the tail of the handle moves -/
  cells : ∀ c, c ≠ .sqLocalTail → s'.cells c = s.cells c
  bounded : handleLen s' ≤ Squeue.capacity ring.sq
  queued : handleEntries ring s' (handleLen s) = handleEntries ring s (handleLen s)

/-! ## One entry -/

section Push

omit [Squeue.EntryMarker S] [Cqueue.EntryMarker C]

/-- What the states of a handle have in common. -/
structure InBounds (ring : IoUring S C) (s : RingMem S C) : Prop where
  len_le : handleLen s ≤ Squeue.capacity ring.sq
  length : s.sqes.length = Squeue.capacity ring.sq

/-- The state behind a write at the tail of the handle. -/
def pushed (ring : IoUring S C) (s : RingMem S C) (entry : S) : RingMem S C :=
  ({ s with
    sqes := s.sqes.set (slot ring.sq.ringMask (s.cells .sqLocalTail)) entry
    sqeWrites := s.sqeWrites ++ [entry] } : RingMem S C).setCell .sqLocalTail
      (s.cells .sqLocalTail + 1)

/-- The state behind several writes. -/
def pushedAll (ring : IoUring S C) (s : RingMem S C) (entries : List S) : RingMem S C :=
  entries.foldl (pushed ring) s

variable {ring : IoUring S C} {s : RingMem S C}

theorem pushed_cells (entry : S) {c : Cell} (hc : c ≠ .sqLocalTail) :
    (pushed ring s entry).cells c = s.cells c :=
  RingMem.setCell_cells_of_ne _ _ hc

theorem handleLen_pushed (hRoom : handleLen s < Squeue.capacity ring.sq)
    (entry : S) : handleLen (pushed ring s entry) = handleLen s + 1 := by
  have hCap : Squeue.capacity ring.sq < 2 ^ 32 := UInt32.toNat_lt _
  have hHead : (pushed ring s entry).cells .sqLocalHead = s.cells .sqLocalHead :=
    pushed_cells entry (by decide)
  have hTail : (pushed ring s entry).cells .sqLocalTail = s.cells .sqLocalTail + 1 := by
    simp [pushed]
  rw [handleLen, hHead, hTail]
  exact dist_succ (Nat.lt_of_le_of_lt hRoom hCap)

/-- A write at the tail touches none of the slots between head and tail. -/
theorem handleEntries_pushed (hRoom : handleLen s < Squeue.capacity ring.sq) (entry : S)
    {n : Nat} (hn : n ≤ handleLen s) :
    handleEntries ring (pushed ring s entry) n = handleEntries ring s n := by
  have hHead : (pushed ring s entry).cells .sqLocalHead = s.cells .sqLocalHead :=
    pushed_cells entry (by decide)
  rw [handleEntries, hHead]
  apply window_set
  intro i hi
  have hFresh : slot ring.sq.ringMask (s.cells .sqLocalHead + UInt32.ofNat i) ≠
      slot ring.sq.ringMask (s.cells .sqLocalHead + UInt32.ofNat (handleLen s)) :=
    slot_fresh ring.sq_masks hRoom (Nat.lt_of_lt_of_le hi hn)
  rwa [handleLen, add_dist] at hFresh

/-- One of the free slots is taken. -/
theorem room_of_pushed {n : Nat} (hRoom : handleLen s + (n + 1) ≤ Squeue.capacity ring.sq)
    (entry : S) : handleLen s < Squeue.capacity ring.sq ∧
      handleLen (pushed ring s entry) + n ≤ Squeue.capacity ring.sq := by
  have hHere : handleLen s < Squeue.capacity ring.sq := by omega
  refine ⟨hHere, ?_⟩
  rw [handleLen_pushed hHere]
  omega

theorem inBounds_pushed (h : InBounds ring s) (hRoom : handleLen s < Squeue.capacity ring.sq)
    (entry : S) : InBounds ring (pushed ring s entry) := by
  constructor
  · rw [handleLen_pushed hRoom]
    exact hRoom
  · simpa [pushed] using h.length

end Push

section Runs

variable {ring : IoUring S C} {s : RingMem S C} {results : Nat → List CompletionData}

theorem run_len (s : RingMem S C) :
    run (ringSem results) Squeue.len s = some (handleLen s, s) := rfl

theorem run_pushUnchecked_eq (h : InBounds ring s) (entry : S) :
    run (ringSem results) (Squeue.pushUnchecked ring.sq entry) s =
      some ((), pushed ring s entry) := by
  have hSlot : slot ring.sq.ringMask (s.cells .sqLocalTail) < s.sqes.length := by
    rw [h.length]
    exact slot_lt ring.sq_masks _
  exact (run_load_bind _ _ _).trans (run_writeSqe_bind _ hSlot _ _)

theorem run_push_of_room (h : InBounds ring s) (hRoom : handleLen s < Squeue.capacity ring.sq)
    (entry : S) :
    run (ringSem results) (Squeue.push ring.sq entry) s = some (.ok (), pushed ring s entry) := by
  have hFull : run (ringSem results) (Squeue.isFull ring.sq) s = some (false, s) := by
    rw [Squeue.isFull, run_bind_of (run_len s)]
    simp only [pure_eq, run_ret, Option.some.injEq, Prod.mk.injEq, and_true, beq_eq_false_iff_ne]
    omega
  rw [Squeue.push, run_bind_of hFull]
  simp only [Bool.not_false, if_true]
  rw [run_bind_of (run_pushUnchecked_eq h entry)]
  rfl

theorem run_push_of_full (hFull : handleLen s = Squeue.capacity ring.sq) (entry : S) :
    run (ringSem results) (Squeue.push ring.sq entry) s = some (.error .mk, s) := by
  have hTest : run (ringSem results) (Squeue.isFull ring.sq) s = some (true, s) := by
    rw [Squeue.isFull, run_bind_of (run_len s), hFull]
    simp
  rw [Squeue.push, run_bind_of hTest]
  rfl

/-! ## Several entries -/

/-- As many writes as there is room for. -/
theorem run_pushAll_eq {entries : List S} (h : InBounds ring s)
    (hRoom : handleLen s + entries.length ≤ Squeue.capacity ring.sq) :
    run (ringSem results) (Squeue.pushAll ring.sq entries) s =
      some ((), pushedAll ring s entries) := by
  induction entries generalizing s with
  | nil => rfl
  | cons entry entries ih =>
    obtain ⟨hHere, hRest⟩ := room_of_pushed hRoom entry
    rw [Squeue.pushAll, run_bind_of (run_pushUnchecked_eq h entry)]
    exact ih (inBounds_pushed h hHere entry) hRest

theorem run_pushEach_of_room {entries : List S} (h : InBounds ring s)
    (hRoom : handleLen s + entries.length ≤ Squeue.capacity ring.sq) :
    run (ringSem results) (pushEach ring.sq entries) s =
      some (.ok (), pushedAll ring s entries) := by
  induction entries generalizing s with
  | nil => rfl
  | cons entry entries ih =>
    obtain ⟨hHere, hRest⟩ := room_of_pushed hRoom entry
    rw [pushEach, run_bind_of (run_push_of_room h hHere entry)]
    exact ih (inBounds_pushed h hHere entry) hRest

/-- One entry too many: some `push` of the sequence is refused. -/
theorem run_pushEach_of_full {entries : List S} (h : InBounds ring s)
    (hRoom : Squeue.capacity ring.sq < handleLen s + entries.length) :
    ∃ s₁, run (ringSem results) (pushEach ring.sq entries) s = some (.error .mk, s₁) := by
  induction entries generalizing s with
  | nil =>
    rw [List.length_nil] at hRoom
    exact absurd h.len_le (by omega)
  | cons entry entries ih =>
    rw [List.length_cons] at hRoom
    rcases Nat.lt_or_eq_of_le h.len_le with hHere | hFull
    · have hRest : Squeue.capacity ring.sq < handleLen (pushed ring s entry) + entries.length := by
        rw [handleLen_pushed hHere]
        omega
      obtain ⟨s₁, hRun⟩ := ih (inBounds_pushed h hHere entry) hRest
      refine ⟨s₁, ?_⟩
      rw [pushEach, run_bind_of (run_push_of_room h hHere entry)]
      exact hRun
    · refine ⟨s, ?_⟩
      rw [pushEach, run_bind_of (run_push_of_full hFull entry)]
      rfl

omit [Squeue.EntryMarker S] [Cqueue.EntryMarker C] in
/-- What several writes leave as it was. -/
theorem pushedAll_spec {entries : List S} (h : InBounds ring s)
    (hRoom : handleLen s + entries.length ≤ Squeue.capacity ring.sq) :
    handleLen (pushedAll ring s entries) = handleLen s + entries.length ∧
      (∀ c, c ≠ .sqLocalTail → (pushedAll ring s entries).cells c = s.cells c) ∧
      ∀ n ≤ handleLen s, handleEntries ring (pushedAll ring s entries) n =
        handleEntries ring s n := by
  induction entries generalizing s with
  | nil => exact ⟨rfl, fun c hc => rfl, fun n hn => rfl⟩
  | cons entry entries ih =>
    rw [List.length_cons] at hRoom ⊢
    have hHere : handleLen s < Squeue.capacity ring.sq := by omega
    have hLen := handleLen_pushed hHere entry
    obtain ⟨hRest, hCells, hEntries⟩ := ih (inBounds_pushed h hHere entry) (by omega)
    refine ⟨?_, ?_, ?_⟩
    · rw [pushedAll, List.foldl_cons]
      change handleLen (pushedAll ring (pushed ring s entry) entries) = _
      omega
    · intro c hc
      exact (hCells c hc).trans (pushed_cells entry hc)
    · intro n hn
      exact (hEntries n (by omega)).trans (handleEntries_pushed hHere entry hn)

theorem run_pushMultiple_of_room {entries : List S} (h : InBounds ring s)
    (hRoom : handleLen s + entries.length ≤ Squeue.capacity ring.sq) :
    run (ringSem results) (Squeue.pushMultiple ring.sq entries) s =
      some (.ok (), pushedAll ring s entries) := by
  rw [Squeue.pushMultiple, run_bind_of (run_len s), if_neg (by omega), if_neg (by omega),
    run_bind_of (run_pushAll_eq h hRoom)]
  rfl

theorem run_pushMultiple_of_full {entries : List S} (h : InBounds ring s)
    (hRoom : Squeue.capacity ring.sq < handleLen s + entries.length) :
    run (ringSem results) (Squeue.pushMultiple ring.sq entries) s = some (.error .mk, s) := by
  have hLe := h.len_le
  rw [Squeue.pushMultiple, run_bind_of (run_len s), if_neg (by omega), if_pos (by omega)]
  rfl

/-- In every state within the bounds, for every list of entries. -/
theorem allOrNothing_of_inBounds (h : InBounds ring s) (entries : List S) :
    ∃ r s', run (ringSem results) (Squeue.pushMultiple ring.sq entries) s = some (r, s') ∧
      AllOrNothing ring results entries s r s' := by
  by_cases hRoom : handleLen s + entries.length ≤ Squeue.capacity ring.sq
  · have hEach : run (ringSem results) (pushEach ring.sq entries) s =
        some (.ok (), pushedAll ring s entries) := run_pushEach_of_room h hRoom
    obtain ⟨hLen, hCells, hEntries⟩ := pushedAll_spec h hRoom
    refine ⟨.ok (), pushedAll ring s entries, run_pushMultiple_of_room h hRoom, ?_⟩
    exact {
      len := run_len s
      len_le := h.len_le
      ok_iff := ⟨fun _ => ⟨_, hEach⟩, fun _ => rfl⟩
      ok := fun _ => hEach
      error := fun hErr => absurd rfl hErr
      cells := hCells
      bounded := hLen ▸ hRoom
      queued := hEntries _ (Nat.le_refl _) }
  · have hFull : ∃ s₁, run (ringSem results) (pushEach ring.sq entries) s =
        some (.error .mk, s₁) := run_pushEach_of_full h (Nat.lt_of_not_le hRoom)
    obtain ⟨s₁, hEach⟩ := hFull
    have hNotOk : ¬ ∃ s₁, run (ringSem results) (pushEach ring.sq entries) s =
        some (.ok (), s₁) := by
      rintro ⟨s₂, hOk⟩
      cases hEach.symm.trans hOk
    refine ⟨.error .mk, s, run_pushMultiple_of_full h (Nat.lt_of_not_le hRoom), ?_⟩
    exact {
      len := run_len s
      len_le := h.len_le
      ok_iff := ⟨nofun, fun hOk => absurd hOk hNotOk⟩
      ok := nofun
      error := fun _ => rfl
      cells := fun _ _ => rfl
      bounded := h.len_le
      queued := rfl }

end Runs

/-! ## The states of a handle -/

section Result

variable {ring : IoUring S C} {s : RingMem S C}

omit [Squeue.EntryMarker S] [Cqueue.EntryMarker C] in
theorem inBounds_of_refines {q : SqLedger S (Squeue.capacity ring.sq)}
    (h : SqRefines ring s q) : InBounds ring s := by
  refine ⟨?_, h.length⟩
  have hSeen := Nat.le_trans q.seen_le (Nat.le_trans q.consumed_le q.published_le)
  have hLen : q.accepted.length ≤ q.seen + Squeue.capacity ring.sq := q.length_le
  rw [handleLen, h.localHead, h.localTail, dist_indices hSeen hLen (UInt32.toNat_lt _)]
  omega

theorem inBounds_of_handleState (h : HandleState ring s) : InBounds ring s := by
  cases h with
  | run hBuild hRun hHandle =>
    obtain ⟨-, hRefines⟩ := exists_ledger hBuild hRun
    exact inBounds_of_refines hRefines.mem.sq
  | schedule hSplit hCalls hReach =>
    obtain ⟨g, hStands, -⟩ := safe_of_reach (start_stands hSplit) (start_rest hSplit)
      (fun i => triple_calls (hCalls i)) hReach
    exact inBounds_of_refines hStands.sq

end Result

/-- **All or nothing.** In every state of a handle and for entries in any number,
`push_multiple` is defined, and it pushes all of them or none, as `push` would. -/
theorem pushMultiple_allOrNothing {ring : IoUring S C} {s : RingMem S C}
    (h : HandleState ring s) (results : Nat → List CompletionData) (entries : List S) :
    ∃ r s', run (ringSem results) (Squeue.pushMultiple ring.sq entries) s = some (r, s') ∧
      AllOrNothing ring results entries s r s' :=
  allOrNothing_of_inBounds (inBounds_of_handleState h) entries

/-! ### A copy that is out of date -/

/-- A ring of four slots whose submission counters are about to wrap. -/
def wrapping : RingMem Squeue.Entry Cqueue.Entry :=
  [Cell.sqHead, .sqTail, .sqLocalHead, .sqLocalTail].foldl (fun s c => s.setCell c 0xFFFFFFFD)
    quadRing.2

theorem splitState_wrapping : SplitState quadRing.1 wrapping := by decide +kernel

def twoRequests : Party → List (Call Squeue.Entry)
  | .producer => [.pushMultiple [nop 1, nop 2], .sqSync]
  | .submitter => [.submit]
  | .consumer => []

/-- The producer copies the head before the submitter has consumed the two requests. -/
def staleHead : List Party := List.replicate 12 .producer ++ List.replicate 9 .submitter

/-- The ring is empty, but the handle knows of two free slots only: two entries are pushed across
the wrap, and three are refused. -/
theorem pushMultiple_allOrNothing_wrapping :
    ∃ P s', (parties quadRing.1 twoRequests wrapping).runSchedule (ringSem fun _ => [])
        staleHead = some P ∧
      queuedLen P.state = 0 ∧ handleLen P.state = 2 ∧
      P.state.cells .sqLocalTail = 0xFFFFFFFF ∧ s'.cells .sqLocalTail = 1 ∧
      run (ringSem fun _ => []) (Squeue.pushMultiple quadRing.1.sq [nop 3, nop 4]) P.state =
        some (.ok (), s') ∧
      AllOrNothing quadRing.1 (fun _ => []) [nop 3, nop 4] P.state (.ok ()) s' ∧
      run (ringSem fun _ => []) (Squeue.pushMultiple quadRing.1.sq [nop 3, nop 4, nop 5]) P.state =
        some (.error .mk, P.state) ∧
      AllOrNothing quadRing.1 (fun _ => []) [nop 3, nop 4, nop 5] P.state (.error .mk)
        P.state := by
  have hFacts : ((parties quadRing.1 twoRequests wrapping).runSchedule (ringSem fun _ => [])
      staleHead).map (fun P => (queuedLen P.state, handleLen P.state,
        P.state.cells .sqLocalTail)) = some (0, 2, 0xFFFFFFFF) := by
    decide +kernel
  obtain ⟨P, hP, hCounts⟩ := Option.map_eq_some_iff.mp hFacts
  rw [Prod.mk.injEq, Prod.mk.injEq] at hCounts
  obtain ⟨hQueued, hLen, hTail⟩ := hCounts
  have hCalls : ∀ i, ∀ call ∈ twoRequests i, Call.party call = some i := by
    intro i
    cases i
    all_goals simp [twoRequests, Call.party]
  have hState : HandleState quadRing.1 P.state :=
    .schedule splitState_wrapping hCalls (Pool.reach_of_runSchedule hP)
  have hCap : Squeue.capacity quadRing.1.sq = 4 := by decide +kernel
  have hBounds := inBounds_of_handleState hState
  obtain ⟨r, s', hRun, hAll⟩ := pushMultiple_allOrNothing hState (fun _ => []) [nop 3, nop 4]
  have hRoom : run (ringSem fun _ => []) (Squeue.pushMultiple quadRing.1.sq [nop 3, nop 4])
      P.state = some (.ok (), pushedAll quadRing.1 P.state [nop 3, nop 4]) :=
    run_pushMultiple_of_room hBounds (by simp [hLen, hCap])
  obtain ⟨rfl, rfl⟩ := Prod.mk.inj (Option.some.inj (hRun.symm.trans hRoom))
  obtain ⟨r, s'', hRun', hAll'⟩ :=
    pushMultiple_allOrNothing hState (fun _ => []) [nop 3, nop 4, nop 5]
  have hFull : run (ringSem fun _ => [])
      (Squeue.pushMultiple quadRing.1.sq [nop 3, nop 4, nop 5]) P.state =
        some (.error .mk, P.state) :=
    run_pushMultiple_of_full hBounds (by simp [hLen, hCap])
  obtain ⟨rfl, rfl⟩ := Prod.mk.inj (Option.some.inj (hRun'.symm.trans hFull))
  refine ⟨P, pushedAll quadRing.1 P.state [nop 3, nop 4], hP, hQueued, hLen, hTail, ?_, hRun,
    hAll, hRun', hAll'⟩
  simp [pushedAll, pushed, hTail]

end Miring.Concurrency
