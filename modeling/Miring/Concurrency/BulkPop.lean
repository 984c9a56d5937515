import Miring.Concurrency.Spsc.Safety

/-!
# Popping several entries

`fill` computes once how many entries it takes and then pops without a test; `next` compares
the indices of the handle before each pop. In every state that a `CompletionQueue` can be in,
also where its copy of the tail is out of date and where the counters wrap, `fill` answers
what as many calls of `next` answer and leaves the state that they leave. However both are
mixed with each other and with `sync`, every posted entry is taken once and in its turn, and
the head that `sync` or `drop` publishes stands behind the last of them (`fill_agrees`).
-/

namespace Miring.Concurrency

open Sys Miring.Ring Miring.Stream Dispatch Program Protocol

variable {S C : Type} [Squeue.EntryMarker S] [Cqueue.EntryMarker C]

/-! ## Statement -/

/-- The states in which the owner of a `CompletionQueue` can make a call: behind a run of a
client that holds one, and behind a schedule of the three parties, which starts with counters
of any value. -/
inductive CqHandleState (ring : IoUring S C) : RingMem S C → Prop where
  | run {b : Builder S C} {overflowChecks : Bool} {entries : UInt32} {mem : RingMem S C}
      (hBuild : b.build overflowChecks entries = some (.ok (ring, mem)))
      {results : Nat → List CompletionData} {calls : List (Call S)} {c : Client S C}
      (hRun : (Client.start mem).runCalls ring results calls = some c)
      (hHandle : c.handles.cq = true) : CqHandleState ring c.mem
  | schedule {s : RingMem S C} (hSplit : SplitState ring s) {calls : Party → List (Call S)}
      (hCalls : ∀ i, ∀ call ∈ calls i, Call.party call = some i)
      {results : Nat → List CompletionData}
      {P : Pool Party (ringSig S C) (RingMem S C) (List (Reply C))}
      (hReach : Pool.Reach (ringSem results) (parties ring calls s) P) :
      CqHandleState ring P.state

/-- `len()` of the handle. -/
def cqLen (s : RingMem S C) : Nat := dist (s.cells .cqLocalHead) (s.cells .cqLocalTail)

/-- The posted entries that the handle has not taken, also those it does not know of. -/
def untaken (ring : IoUring S C) (s : RingMem S C) : List (Option C) :=
  window s.cqes ring.cq.ringMask (s.cells .cqLocalHead)
    (dist (s.cells .cqLocalHead) (s.cells .cqTail))

/-- The entries between the two indices of the ring. -/
def unreleased (ring : IoUring S C) (s : RingMem S C) : List (Option C) :=
  window s.cqes ring.cq.ringMask (s.cells .cqHead) (dist (s.cells .cqHead) (s.cells .cqTail))

/-- One call of `next` after another. -/
def nexts (cq : Cqueue.Inner) : Nat → RingProgram S C (List (Option C))
  | 0 => pure []
  | n + 1 => do
      let entry ← Cqueue.next cq
      let entries ← nexts cq n
      pure (entry :: entries)

/-- Some calls of `next` have yielded `es` from state `s` on and left state `s'`. -/
structure Iterated (ring : IoUring S C) (results : Nat → List CompletionData)
    (s : RingMem S C) (es : List C) (s' : RingMem S C) : Prop where
  nexts : run (ringSem results) (nexts ring.cq es.length) s = some (es.map some, s')
  length_le : es.length ≤ cqLen s
  len : run (ringSem results) Cqueue.len s' = some (cqLen s - es.length, s')
  sizeHint : run (ringSem results) Cqueue.sizeHint s' =
    some ((cqLen s - es.length, some (cqLen s - es.length)), s')
  more : es.length < cqLen s →
    ∃ e s'', run (ringSem results) (Cqueue.next ring.cq) s' = some (some e, s'')
  ended : es.length = cqLen s →
    run (ringSem results) (Cqueue.next ring.cq) s' = some (none, s')

/-- `fill` has written `es` to the first of the slots and left state `s'`, as `next` would. -/
structure FilledSlots (ring : IoUring S C) (results : Nat → List CompletionData)
    (slots : List (Option C)) (s : RingMem S C) (es : List C) (s' : RingMem S C) : Prop where
  length : es.length = min (cqLen s) slots.length
  fill : run (ringSem results) (Cqueue.fill ring.cq slots.length) s = some (es, s')
  fillSlice : run (ringSem results) (Cqueue.fillSlice ring.cq slots) s =
    some ((es.map some ++ slots.drop es.length, es.length), s')
  iterated : Iterated ring results s es s'

/-- Calls that move the head of the handle or publish it. -/
inductive Pick where
  | next
  | fill (n : Nat)
  | sync

/-- The entries a call yields. -/
def Pick.program (cq : Cqueue.Inner) : Pick → RingProgram S C (List C)
  | .next => Option.toList <$> Cqueue.next cq
  | .fill n => Cqueue.fill cq n
  | .sync => (fun _ => []) <$> Cqueue.sync

def picks (cq : Cqueue.Inner) : List Pick → RingProgram S C (List C)
  | [] => pure []
  | pick :: rest => do
      let entries ← pick.program cq
      let others ← picks cq rest
      pure (entries ++ others)

/-- A mixture of calls has yielded `es` from state `s` on and left state `s'`. -/
structure Mixed (ring : IoUring S C) (results : Nat → List CompletionData) (mixture : List Pick)
    (s : RingMem S C) (es : List C) (s' : RingMem S C) : Prop where
  yields : run (ringSem results) (picks ring.cq mixture) s = some (es, s')
  /-- none of the posted entries is skipped or comes twice -/
  taken : untaken ring s = es.map some ++ untaken ring s'
  /-- what is published stands behind the entries taken -/
  synced : ∃ s'', run (ringSem results) Cqueue.sync s' = some ((), s'') ∧
    s''.cells .cqHead = s.cells .cqLocalHead + UInt32.ofNat es.length ∧
    unreleased ring s'' = untaken ring s' ∧ untaken ring s'' = untaken ring s'
  dropped : ∃ s'', run (ringSem results) Cqueue.drop s' = some ((), s'') ∧
    s''.cells .cqHead = s.cells .cqLocalHead + UInt32.ofNat es.length ∧
    unreleased ring s'' = untaken ring s'
  /-- without a `sync` in between, the mixture is an iteration -/
  iterated : Pick.sync ∉ mixture → Iterated ring results s es s'

/-! ## One entry -/

section Pop

omit [Squeue.EntryMarker S] [Cqueue.EntryMarker C]

/-- What the states of a handle have in common. -/
structure CqInBounds (ring : IoUring S C) (s : RingMem S C) : Prop where
  /-- the copy of the tail is not ahead of the tail -/
  len_le : cqLen s ≤ dist (s.cells .cqLocalHead) (s.cells .cqTail)
  posted_le : dist (s.cells .cqLocalHead) (s.cells .cqTail) ≤ Cqueue.capacity ring.cq
  length : s.cqes.length = Cqueue.capacity ring.cq

/-- The next `n` slots of the handle. -/
def ahead (ring : IoUring S C) (s : RingMem S C) (n : Nat) : List (Option C) :=
  window s.cqes ring.cq.ringMask (s.cells .cqLocalHead) n

/-- The state behind pops that have answered `es`. -/
def popped (s : RingMem S C) (es : List C) : RingMem S C :=
  ({ s with cqeReads := s.cqeReads ++ es } : RingMem S C).setCell .cqLocalHead
    (s.cells .cqLocalHead + UInt32.ofNat es.length)

variable {ring : IoUring S C} {s : RingMem S C}

@[simp] theorem popped_cqes (s : RingMem S C) (es : List C) : (popped s es).cqes = s.cqes := rfl

@[simp] theorem popped_localHead (s : RingMem S C) (es : List C) :
    (popped s es).cells .cqLocalHead = s.cells .cqLocalHead + UInt32.ofNat es.length := by
  simp [popped]

theorem popped_cells (s : RingMem S C) (es : List C) {c : Cell} (hc : c ≠ .cqLocalHead) :
    (popped s es).cells c = s.cells c :=
  RingMem.setCell_cells_of_ne _ _ hc

@[simp] theorem popped_localTail (s : RingMem S C) (es : List C) :
    (popped s es).cells .cqLocalTail = s.cells .cqLocalTail :=
  popped_cells s es (by decide)

@[simp] theorem popped_tail (s : RingMem S C) (es : List C) :
    (popped s es).cells .cqTail = s.cells .cqTail :=
  popped_cells s es (by decide)

@[simp] theorem popped_nil (s : RingMem S C) : popped s [] = s := by
  simp [popped, RingMem.setCell]

theorem popped_popped (s : RingMem S C) (es es' : List C) :
    popped (popped s es) es' = popped s (es ++ es') := by
  simp [popped, RingMem.setCell, UInt32.ofNat_add, UInt32.add_assoc]

theorem cqLen_popped {es : List C} (h : es.length ≤ cqLen s) :
    cqLen (popped s es) = cqLen s - es.length := by
  rw [cqLen, popped_localHead, popped_localTail]
  exact dist_add_left h

/-- The tail is nearer by the number of the pops. -/
theorem tailDist_popped {es : List C}
    (h : es.length ≤ dist (s.cells .cqLocalHead) (s.cells .cqTail)) :
    dist ((popped s es).cells .cqLocalHead) ((popped s es).cells .cqTail) =
      dist (s.cells .cqLocalHead) (s.cells .cqTail) - es.length := by
  rw [popped_localHead, popped_tail]
  exact dist_add_left h

variable (ring) in
theorem ahead_popped (s : RingMem S C) (es : List C) (n : Nat) :
    ahead ring s (es.length + n) = ahead ring s es.length ++ ahead ring (popped s es) n := by
  rw [ahead, window_add, ahead, ahead, popped_localHead, popped_cqes]

theorem inBounds_popped (h : CqInBounds ring s) {es : List C} (hLen : es.length ≤ cqLen s) :
    CqInBounds ring (popped s es) := by
  have hLe := h.len_le
  have hPosted := h.posted_le
  have hTail := tailDist_popped (Nat.le_trans hLen hLe)
  refine ⟨?_, ?_, h.length⟩
  · rw [hTail, cqLen_popped hLen]
    omega
  · rw [hTail]
    omega

/-- The slots up to the copy of the tail hold entries. -/
theorem exists_ahead (h : CqInBounds ring s) {n : Nat} (hn : n ≤ cqLen s) :
    ∃ es : List C, ahead ring s n = es.map some ∧ es.length = n := by
  rcases Nat.eq_zero_or_pos n with rfl | hPos
  · exact ⟨[], rfl, rfl⟩
  · have hLe := h.len_le
    have hPosted := h.posted_le
    have hMasks := CqRefines.masks ring (show 0 < Cqueue.capacity ring.cq by omega)
    have hAll := window_eq_map hMasks h.length (s.cells .cqLocalHead) n
    refine ⟨_, hAll, ?_⟩
    rw [← List.length_map (f := some), ← hAll, window_length]

/-- The first slot ahead, and the slots behind it. -/
theorem ahead_cons {e : C} {es : List C}
    (h : ahead ring s (e :: es).length = (e :: es).map some) :
    s.cqes[slot ring.cq.ringMask (s.cells .cqLocalHead)]? = some e ∧
      ahead ring (popped s [e]) es.length = es.map some := by
  rw [ahead, List.length_cons, window_cons, List.map_cons] at h
  obtain ⟨hFirst, hRest⟩ := List.cons.inj h
  refine ⟨hFirst, ?_⟩
  rw [ahead, popped_localHead, popped_cqes]
  exact hRest

/-- The next entry of a handle that knows of one. -/
theorem exists_next (h : CqInBounds ring s) (hPos : 0 < cqLen s) :
    ∃ e : C, ahead ring s [e].length = [e].map some := by
  obtain ⟨es, hAhead, hOne⟩ := exists_ahead h hPos
  obtain ⟨e, rfl⟩ := List.length_eq_one_iff.mp hOne
  exact ⟨e, hAhead⟩

end Pop

section Runs

variable {ring : IoUring S C} {s : RingMem S C} {results : Nat → List CompletionData}

theorem run_cqLen_eq (s : RingMem S C) :
    run (ringSem results) Cqueue.len s = some (cqLen s, s) := rfl

theorem run_sizeHint_eq (s : RingMem S C) :
    run (ringSem results) Cqueue.sizeHint s = some ((cqLen s, some (cqLen s)), s) := rfl

theorem run_pop_eq {e : C}
    (h : s.cqes[slot ring.cq.ringMask (s.cells .cqLocalHead)]? = some e) :
    run (ringSem results) (Cqueue.pop ring.cq) s = some (e, popped s [e]) :=
  (run_load_bind _ _ _).trans ((run_store_bind _ _ _ _).trans (run_readCqe _ h))

theorem run_next_of_pos {e : C} (hLen : 0 < cqLen s)
    (h : s.cqes[slot ring.cq.ringMask (s.cells .cqLocalHead)]? = some e) :
    run (ringSem results) (Cqueue.next ring.cq) s = some (some e, popped s [e]) := by
  have hNe : s.cells .cqLocalHead ≠ s.cells .cqLocalTail := by
    intro hEq
    have hZero : cqLen s = 0 := dist_eq_zero_iff.mpr hEq
    omega
  rw [Cqueue.next, run_load_bind, run_load_bind, if_pos hNe, run_bind_of (run_pop_eq h)]
  rfl

theorem run_next_of_zero (hLen : cqLen s = 0) :
    run (ringSem results) (Cqueue.next ring.cq) s = some (none, s) := by
  have hEq : s.cells .cqLocalHead = s.cells .cqLocalTail := dist_eq_zero_iff.mp hLen
  rw [Cqueue.next, run_load_bind, run_load_bind, if_neg (not_not_intro hEq)]
  rfl

/-! ## Several entries -/

/-- The three loops pop the entries ahead: that of `fill`, the same with the slots, and
`next` again and again. -/
theorem run_popMany_eq {es : List C} (h : ahead ring s es.length = es.map some) :
    run (ringSem results) (Cqueue.popMany ring.cq es.length) s = some (es, popped s es) := by
  induction es generalizing s with
  | nil =>
    rw [popped_nil]
    rfl
  | cons e es ih =>
    obtain ⟨hFirst, hRest⟩ := ahead_cons h
    rw [List.length_cons, Cqueue.popMany, run_bind_of (run_pop_eq hFirst),
      run_bind_of (ih hRest), popped_popped]
    rfl

theorem run_writeEach_eq {es : List C} {slots : List (Option C)}
    (hSlots : slots.length = es.length) (h : ahead ring s es.length = es.map some) :
    run (ringSem results) (Cqueue.writeEach ring.cq slots) s =
      some (es.map some, popped s es) := by
  induction es generalizing s slots with
  | nil =>
    rw [List.length_eq_zero_iff.mp hSlots, popped_nil]
    rfl
  | cons e es ih =>
    obtain ⟨hFirst, hRest⟩ := ahead_cons h
    obtain ⟨v, slots, rfl⟩ := List.exists_cons_of_length_eq_add_one hSlots
    rw [Cqueue.writeEach, run_bind_of (run_pop_eq hFirst),
      run_bind_of (ih (Nat.succ.inj hSlots) hRest), popped_popped]
    rfl

theorem run_nexts_eq {es : List C} (hLen : es.length ≤ cqLen s)
    (h : ahead ring s es.length = es.map some) :
    run (ringSem results) (nexts ring.cq es.length) s = some (es.map some, popped s es) := by
  induction es generalizing s with
  | nil =>
    rw [popped_nil]
    rfl
  | cons e es ih =>
    obtain ⟨hFirst, hRest⟩ := ahead_cons h
    rw [List.length_cons] at hLen
    have hOne : cqLen (popped s [e]) = cqLen s - [e].length :=
      cqLen_popped (Nat.le_trans (Nat.le_add_left 1 _) hLen)
    have hLeft : es.length ≤ cqLen (popped s [e]) := by
      rw [hOne, List.length_singleton]
      omega
    rw [List.length_cons, nexts, run_bind_of (run_next_of_pos (by omega) hFirst),
      run_bind_of (ih hLeft hRest), popped_popped]
    rfl

/-- As many entries as the handle knows of can be iterated. -/
theorem iterated_popped (h : CqInBounds ring s) {es : List C} (hLen : es.length ≤ cqLen s)
    (hAhead : ahead ring s es.length = es.map some) :
    Iterated ring results s es (popped s es) := by
  have hRest : cqLen (popped s es) = cqLen s - es.length := cqLen_popped hLen
  refine ⟨run_nexts_eq hLen hAhead, hLen, ?_, ?_, ?_, ?_⟩
  · rw [run_cqLen_eq, hRest]
  · rw [run_sizeHint_eq, hRest]
  · intro hMore
    have hPos : 0 < cqLen (popped s es) := by omega
    obtain ⟨e, hNext⟩ := exists_next (inBounds_popped h hLen) hPos
    exact ⟨e, _, run_next_of_pos hPos (ahead_cons hNext).1⟩
  · intro hEnded
    exact run_next_of_zero (by omega)

/-- The entries that `fill` takes. -/
theorem exists_fill (h : CqInBounds ring s) (n : Nat) :
    ∃ es : List C, es.length = min (cqLen s) n ∧ es.length ≤ cqLen s ∧
      ahead ring s es.length = es.map some ∧
      run (ringSem results) (Cqueue.fill ring.cq n) s = some (es, popped s es) := by
  obtain ⟨es, hAhead, hLength⟩ := exists_ahead h (Nat.min_le_left (cqLen s) n)
  rw [← hLength] at hAhead
  refine ⟨es, hLength, hLength ▸ Nat.min_le_left _ _, hAhead, ?_⟩
  rw [Cqueue.fill, run_bind_of (run_cqLen_eq s), ← hLength]
  exact run_popMany_eq hAhead

/-- `fill`, for a slice of any length. -/
theorem exists_filledSlots (h : CqInBounds ring s) (slots : List (Option C)) :
    ∃ es, FilledSlots ring results slots s es (popped s es) := by
  obtain ⟨es, hLength, hLen, hAhead, hFill⟩ := exists_fill h slots.length
  have hTaken : (slots.take es.length).length = es.length := by
    rw [List.length_take, hLength, Nat.min_eq_left (Nat.min_le_right _ _)]
  refine ⟨es, hLength, hFill, ?_, iterated_popped h hLen hAhead⟩
  rw [Cqueue.fillSlice, run_bind_of (run_cqLen_eq s)]
  simp only [← hLength]
  rw [run_bind_of (run_writeEach_eq hTaken hAhead)]
  rfl

/-- Iteration, as far as the handle knows. -/
theorem exists_iterated (h : CqInBounds ring s) {n : Nat} (hn : n ≤ cqLen s) :
    ∃ es s', es.length = n ∧ Iterated ring results s es s' := by
  obtain ⟨es, hAhead, rfl⟩ := exists_ahead h hn
  exact ⟨es, popped s es, rfl, iterated_popped h hn hAhead⟩

end Runs

/-! ## Mixed calls -/

section Mixture

omit [Squeue.EntryMarker S] [Cqueue.EntryMarker C]

/-- Between two states of a handle, `es` was taken. -/
structure Took (ring : IoUring S C) (s : RingMem S C) (es : List C) (s' : RingMem S C) :
    Prop where
  inBounds : CqInBounds ring s'
  untaken : untaken ring s = es.map some ++ untaken ring s'
  head : s'.cells .cqLocalHead = s.cells .cqLocalHead + UInt32.ofNat es.length

variable {ring : IoUring S C} {s s' s'' : RingMem S C} {es es' : List C}

theorem Took.refl (h : CqInBounds ring s) : Took ring s [] s := ⟨h, rfl, by simp⟩

theorem Took.trans (h : Took ring s es s') (h' : Took ring s' es' s'') :
    Took ring s (es ++ es') s'' := by
  refine ⟨h'.inBounds, ?_, ?_⟩
  · rw [h.untaken, h'.untaken, List.map_append, List.append_assoc]
  · rw [h'.head, h.head, UInt32.add_assoc, List.length_append, UInt32.ofNat_add]

theorem took_popped (h : CqInBounds ring s) (hLen : es.length ≤ cqLen s)
    (hAhead : ahead ring s es.length = es.map some) : Took ring s es (popped s es) := by
  refine ⟨inBounds_popped h hLen, ?_, popped_localHead s es⟩
  have hKnown : es.length ≤ dist (s.cells .cqLocalHead) (s.cells .cqTail) :=
    Nat.le_trans hLen h.len_le
  have hRest := tailDist_popped hKnown
  have hSplit := ahead_popped ring s es
    (dist (s.cells .cqLocalHead) (s.cells .cqTail) - es.length)
  rw [Nat.add_sub_cancel' hKnown, hAhead, ← hRest] at hSplit
  exact hSplit

/-- The state behind `sync`. -/
def synced (s : RingMem S C) : RingMem S C :=
  (s.setCell .cqHead (s.cells .cqLocalHead)).setCell .cqLocalTail (s.cells .cqTail)

/-- The state behind `drop`. -/
def dropped (s : RingMem S C) : RingMem S C := s.setCell .cqHead (s.cells .cqLocalHead)

theorem untaken_synced (ring : IoUring S C) (s : RingMem S C) :
    untaken ring (synced s) = untaken ring s := by
  simp [untaken, synced]

theorem unreleased_synced (ring : IoUring S C) (s : RingMem S C) :
    unreleased ring (synced s) = untaken ring s := by
  simp [unreleased, untaken, synced]

theorem unreleased_dropped (ring : IoUring S C) (s : RingMem S C) :
    unreleased ring (dropped s) = untaken ring s := by
  simp [unreleased, untaken, dropped]

theorem inBounds_synced (h : CqInBounds ring s) : CqInBounds ring (synced s) := by
  have hPosted := h.posted_le
  refine ⟨?_, ?_, h.length⟩
  · simp [cqLen, synced]
  · simpa [synced] using hPosted

theorem took_synced (h : CqInBounds ring s) : Took ring s [] (synced s) := by
  refine ⟨inBounds_synced h, (untaken_synced ring s).symm, ?_⟩
  simp [synced]

end Mixture

section Picks

variable {ring : IoUring S C} {s : RingMem S C} (results : Nat → List CompletionData)

/-- One call. Only `sync` moves more than the head of the handle. -/
theorem exists_took (h : CqInBounds ring s) (pick : Pick) :
    ∃ es s', run (ringSem results) (pick.program ring.cq) s = some (es, s') ∧
      Took ring s es s' ∧ (pick ≠ .sync → es.length ≤ cqLen s ∧ s' = popped s es) := by
  cases pick with
  | next =>
    rcases Nat.eq_zero_or_pos (cqLen s) with hZero | hPos
    · refine ⟨[], s, ?_, Took.refl h, fun _ => ⟨Nat.zero_le _, (popped_nil s).symm⟩⟩
      rw [Pick.program, run_map, run_next_of_zero hZero]
      rfl
    · obtain ⟨e, hNext⟩ := exists_next h hPos
      refine ⟨[e], popped s [e], ?_, took_popped h hPos hNext, fun _ => ⟨hPos, rfl⟩⟩
      rw [Pick.program, run_map, run_next_of_pos hPos (ahead_cons hNext).1]
      rfl
  | fill n =>
    obtain ⟨es, -, hLen, hAhead, hFill⟩ := exists_fill h n
    exact ⟨es, popped s es, hFill, took_popped h hLen hAhead, fun _ => ⟨hLen, rfl⟩⟩
  | sync => exact ⟨[], synced s, rfl, took_synced h, fun hNe => absurd rfl hNe⟩

/-- Call after call. -/
theorem exists_tookAll (h : CqInBounds ring s) (mixture : List Pick) :
    ∃ es s', run (ringSem results) (picks ring.cq mixture) s = some (es, s') ∧
      Took ring s es s' ∧ (.sync ∉ mixture → es.length ≤ cqLen s ∧ s' = popped s es) := by
  induction mixture generalizing s with
  | nil => exact ⟨[], s, rfl, Took.refl h, fun _ => ⟨Nat.zero_le _, (popped_nil s).symm⟩⟩
  | cons pick mixture ih =>
    obtain ⟨es, s₁, hRun, hTook, hPops⟩ := exists_took results h pick
    obtain ⟨es', s₂, hRest, hTook', hPops'⟩ := ih hTook.inBounds
    refine ⟨es ++ es', s₂, ?_, hTook.trans hTook', ?_⟩
    · rw [picks, run_bind_of hRun, run_bind_of hRest]
      rfl
    · intro hSync
      rw [List.mem_cons, not_or] at hSync
      obtain ⟨hLen, rfl⟩ := hPops (Ne.symm hSync.1)
      obtain ⟨hLen', rfl⟩ := hPops' hSync.2
      rw [cqLen_popped hLen] at hLen'
      refine ⟨?_, popped_popped s es es'⟩
      rw [List.length_append]
      omega

/-- A mixture of calls, from every state within the bounds. -/
theorem exists_mixed (h : CqInBounds ring s) (mixture : List Pick) :
    ∃ es s', Mixed ring results mixture s es s' := by
  obtain ⟨es, s', hRun, hTook, hPops⟩ := exists_tookAll results h mixture
  refine ⟨es, s', hRun, hTook.untaken, ?_, ?_, ?_⟩
  · refine ⟨synced s', rfl, ?_, unreleased_synced ring s', untaken_synced ring s'⟩
    rw [← hTook.head]
    simp [synced]
  · refine ⟨dropped s', rfl, ?_, unreleased_dropped ring s'⟩
    rw [← hTook.head]
    simp [dropped]
  · intro hSync
    obtain ⟨hLen, rfl⟩ := hPops hSync
    refine iterated_popped h hLen ?_
    -- the entries taken are the first of the window up to the tail
    have hKnown := Nat.le_trans hLen h.len_le
    have hFirst := congrArg (List.take es.length) hTook.untaken
    rw [untaken, window_take _ _ hKnown, List.take_left' (List.length_map some)] at hFirst
    exact hFirst

end Picks

/-! ## The states of a handle -/

section Result

variable {ring : IoUring S C} {s : RingMem S C}

omit [Squeue.EntryMarker S] [Cqueue.EntryMarker C] in
theorem inBounds_of_inOrder (h : InOrder (s.cells .cqHead) (s.cells .cqLocalHead)
      (s.cells .cqLocalTail) (s.cells .cqTail) (Cqueue.capacity ring.cq))
    (hLength : s.cqes.length = Cqueue.capacity ring.cq) : CqInBounds ring s := by
  have hFirst := h.first
  have hSecond := h.second
  have hThird := h.third
  have hTail := dist_sub (Nat.le_trans hFirst hSecond)
  refine ⟨?_, ?_, hLength⟩
  · rw [cqLen, dist_sub hFirst, hTail]
    omega
  · rw [hTail]
    omega

theorem inBounds_of_cqHandleState (h : CqHandleState ring s) : CqInBounds ring s := by
  cases h with
  | run hBuild hRun hHandle =>
    obtain ⟨-, hRefines⟩ := exists_ledger hBuild hRun
    have hCq := hRefines.mem.cq
    refine inBounds_of_inOrder ?_ hCq.length
    rw [hCq.head, hCq.localHead, hCq.localTail, hCq.tail]
    exact inOrder_of_indices (CqLedger.released_le _) (CqLedger.delivered_le _)
      (CqLedger.seen_le _) (CqLedger.length_le _) (UInt32.toNat_lt _)
  | schedule hSplit hCalls hReach =>
    obtain ⟨g, hStands, -⟩ := safe_of_reach (start_stands hSplit) (start_rest hSplit)
      (fun i => triple_calls (hCalls i)) hReach
    exact inBounds_of_inOrder (cqOrder_of_stands hStands.cq) hStands.cq.length

end Result

/-- **`fill` agrees with iteration.** In every state of a handle, for a slice of any length,
for iteration as far as the handle knows, and for every mixture of the calls. -/
theorem fill_agrees {ring : IoUring S C} {s : RingMem S C} (h : CqHandleState ring s)
    (results : Nat → List CompletionData) :
    (∀ slots, ∃ es s', FilledSlots ring results slots s es s') ∧
      (∀ n ≤ cqLen s, ∃ es s', es.length = n ∧ Iterated ring results s es s') ∧
      ∀ mixture, ∃ es s', Mixed ring results mixture s es s' := by
  have hBounds := inBounds_of_cqHandleState h
  refine ⟨?_, ?_, ?_⟩
  · intro slots
    obtain ⟨es, hFilled⟩ := exists_filledSlots hBounds slots
    exact ⟨es, popped s es, hFilled⟩
  · intro n hn
    exact exists_iterated hBounds hn
  · intro mixture
    exact exists_mixed results hBounds mixture

/-! ### Across the wrap -/

/-- A ring whose completion counters are about to wrap. -/
def cqWrapping : RingMem Squeue.Entry Cqueue.Entry :=
  [Cell.cqHead, .cqTail, .cqLocalHead, .cqLocalTail].foldl (fun s c => s.setCell c 0xFFFFFFFE)
    quadRing.2

theorem splitState_cqWrapping : SplitState quadRing.1 cqWrapping := by decide +kernel

def threeRequests : Party → List (Call Squeue.Entry)
  | .producer => [.pushMultiple [nop 1, nop 2, nop 3], .sqSync]
  | .submitter => [.submitAndWait 1]
  | .consumer => [.cqSync]

/-- The consumer copies the tail between the second and the third post. -/
def betweenPosts : List Party :=
  List.replicate 15 .producer ++ List.replicate 22 .submitter ++ List.replicate 4 .consumer ++
    List.replicate 5 .submitter

/-- Three completions stand in the ring, across the wrap, and the handle knows of two. -/
theorem fill_agrees_wrapped :
    ∃ P, (parties quadRing.1 threeRequests cqWrapping).runSchedule
        (ringSem (nopAnswers [[(nop 1).sqe, (nop 2).sqe, (nop 3).sqe]])) betweenPosts = some P ∧
      P.state.cells .cqHead = 0xFFFFFFFE ∧ P.state.cells .cqTail = 1 ∧ cqLen P.state = 2 ∧
      (∀ slots, ∃ es s', FilledSlots quadRing.1 (fun _ => []) slots P.state es s') ∧
      (∀ n ≤ cqLen P.state, ∃ es s', es.length = n ∧
        Iterated quadRing.1 (fun _ => []) P.state es s') ∧
      ∀ mixture, ∃ es s', Mixed quadRing.1 (fun _ => []) mixture P.state es s' := by
  have hFacts : ((parties quadRing.1 threeRequests cqWrapping).runSchedule
      (ringSem (nopAnswers [[(nop 1).sqe, (nop 2).sqe, (nop 3).sqe]])) betweenPosts).map
        (fun P => (P.state.cells .cqHead, P.state.cells .cqTail, cqLen P.state)) =
      some (0xFFFFFFFE, 1, 2) := by
    decide +kernel
  obtain ⟨P, hP, hCounts⟩ := Option.map_eq_some_iff.mp hFacts
  rw [Prod.mk.injEq, Prod.mk.injEq] at hCounts
  obtain ⟨hHead, hTail, hLen⟩ := hCounts
  have hCalls : ∀ i, ∀ call ∈ threeRequests i, Call.party call = some i := by
    intro i
    cases i
    all_goals simp [threeRequests, Call.party]
  have hReach := Pool.reach_of_runSchedule hP
  exact ⟨P, hP, hHead, hTail, hLen,
    fill_agrees (.schedule splitState_cqWrapping hCalls hReach) _⟩

end Miring.Concurrency
