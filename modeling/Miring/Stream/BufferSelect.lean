import Miring.Stream.Completion

/-!
# Buffer selection

A read with `BUFFER_SELECT` asks the kernel to pick one of the buffers that PROVIDE_BUFFERS
has put into a group, and the flags of its completion name the picked buffer. The README
lists buffer selection as emulated, but no handler looks at the group, and `flush_pending`
posts every completion with flags 0. So no completion ever names a buffer
(`buffer_never_reported`).
-/

namespace Miring.Stream

open Sys Miring.Ring Dispatch Program Submitter

variable {S C : Type} [Squeue.EntryMarker S] [Cqueue.EntryMarker C]

/-- The opcodes that read into a selected buffer. -/
def readsIntoSelected (sqe : IoUringSqe) : Bool :=
  sqe.opcode.toNat ∈ [ioringOpRead, ioringOpReadv, ioringOpRecv, ioringOpRecvmsg,
    ioringOpReadMultishot]

/-- Request `p` provides buffer `bid` of a group. -/
structure Provides (p : IoUringSqe) (group bid : UInt16) : Prop where
  opcode : p.opcode.toNat = ioringOpProvideBuffers
  group : p.bufIndex = group
  first_le : p.off.toNat ≤ bid.toNat
  lt_last : bid.toNat < p.off.toNat + asUsize p.fd

/-- Where buffer `bid` of the range that `p` provides starts. -/
def bufferAddr (p : IoUringSqe) (bid : UInt16) : Nat :=
  p.addr.toNat + (bid.toNat - p.off.toNat) * p.len.toNat

/-- A completion `cqe` that the client got for request `j` of batch `i`: a successful read
with buffer selection. -/
structure SelectedRead (ring : IoUring S C) (results : Nat → List CompletionData)
    (c : Client S C) (i j : Nat) (sqe : IoUringSqe) (cqe : IoUringCqe) : Prop where
  consumed : (c.mem.threads[i]?.bind fun sqes => sqes[j]?) = some sqe
  family : readsIntoSelected sqe = true
  selects : sqe.flags &&& Squeue.Flags.bufferSelect ≠ 0
  outcome : (results i)[j]?.map cqeOf = some { cqe with flags := 0 }
  received : some cqe ∈ stream ring c
  positive : 0 < cqe.res

/-- The completion names a buffer that an earlier request of the same group has provided, and
the data went there. -/
def ReportsBuffer (traces : Nat → List (Event userSig)) (results : Nat → List CompletionData)
    (c : Client S C) (i j : Nat) (sqe : IoUringSqe) (cqe : IoUringCqe) : Prop :=
  ∃ bid, Cqueue.bufferSelect cqe.flags = some bid ∧
    ∃ i' j' p cd, (i' < i ∨ i' = i ∧ j' < j) ∧
      (c.mem.threads[i']?.bind fun sqes => sqes[j']?) = some p ∧
      (results i')[j']? = some cd ∧ 0 ≤ cd.result ∧ Provides p sqe.bufIndex bid ∧
      ∀ k < asUsize cqe.res, Trace.Writes (traces i) (bufferAddr p bid + k)

/-- No completion carries flags. -/
theorem flags_of_received {ring : IoUring S C} {traces : Nat → List (Event userSig)}
    {results : Nat → List CompletionData} {c : Client S C}
    (h : CompletionStream ring traces results c) {cqe : IoUringCqe}
    (hCqe : some cqe ∈ stream ring c) : cqe.flags = 0 := by
  obtain ⟨cd, -, hcd⟩ := List.mem_map.mp (h.sublist.subset hCqe)
  obtain rfl : cqeOf cd = cqe := Option.some.inj hcd
  rfl

/-- **No run reports a selected buffer.** -/
theorem buffer_never_reported {b : Builder S C} {overflowChecks : Bool} {entries : UInt32}
    {ring : IoUring S C} {mem : RingMem S C}
    (hBuild : b.build overflowChecks entries = some (.ok (ring, mem)))
    {traces : Nat → List (Event userSig)} {results : Nat → List CompletionData}
    {calls : List (Call S)} {c : Client S C}
    (hRun : (Client.start mem).runCalls ring results calls = some c)
    (hDispatched : DispatchedAs c.mem.threads traces results)
    {i j : Nat} {sqe : IoUringSqe} {cqe : IoUringCqe}
    (hRead : SelectedRead ring results c i j sqe cqe) :
    ¬ ReportsBuffer traces results c i j sqe cqe := by
  have hStream := completionStream_of_run hBuild hRun hDispatched
  have hFlags := flags_of_received hStream hRead.received
  rintro ⟨bid, hSelect, -⟩
  rw [hFlags] at hSelect
  have hNone : Cqueue.bufferSelect 0 = none := by decide
  rw [hNone] at hSelect
  cases hSelect

/-! ### One provided buffer and one read -/

/-- Buffer 5 of group 3: one byte at address 4096. -/
def provideOne : Squeue.Entry :=
  ⟨{ opcode := 31, fd := 1, addr := 4096, len := 1, off := 5, bufIndex := 3 }⟩

/-- A read of one byte that selects from group 3. -/
def readSelected : Squeue.Entry :=
  ⟨{ opcode := 22, flags := Squeue.Flags.bufferSelect, addr := 8192, len := 1, bufIndex := 3
     userData := 1 }⟩

def selectCalls : List (Call Squeue.Entry) :=
  [.submission, .push provideOne, .sqDrop, .submit, .submission, .push readSelected, .sqDrop,
    .submit, .completion, .next, .next]

/-- What the two dispatch threads do on a memory of zeros. -/
def selectTraces : Nat → List (Event userSig)
  | 0 => [⟨.note .yieldNow, ()⟩, ⟨.note (.enter provideOne.sqe), ()⟩, ⟨.read 4096, (0 : UInt8)⟩,
      ⟨.read 4096, (0 : UInt8)⟩, ⟨.note (.leave provideOne.sqe 0), ()⟩]
  | _ => [⟨.note .yieldNow, ()⟩, ⟨.note (.enter readSelected.sqe), ()⟩, ⟨.write 8192 0, ()⟩,
      ⟨.note (.leave readSelected.sqe 1), ()⟩]

def selectResults : Nat → List CompletionData
  | 0 => [⟨0, 0, false⟩]
  | _ => [⟨1, 1, false⟩]

theorem select_run :
    ∃ c, (Client.start smallRing.2).runCalls smallRing.1 selectResults selectCalls = some c ∧
      DispatchedAs c.mem.threads selectTraces selectResults ∧
      SelectedRead smallRing.1 selectResults c 1 0 readSelected.sqe ⟨1, 1, 0⟩ := by
  obtain ⟨c, hRun, -⟩ := runCalls_refines selectResults (start_refines _ smallRing_build)
    selectCalls rfl
  have hFacts : ((Client.start smallRing.2).runCalls smallRing.1 selectResults
      selectCalls).map (fun c => (c.mem.threads, decide (some ⟨1, 1, 0⟩ ∈ stream smallRing.1 c)))
        = some ([[provideOne.sqe], [readSelected.sqe]], true) := by decide +kernel
  rw [hRun, Option.map_some, Option.some.injEq, Prod.mk.injEq, decide_eq_true_eq] at hFacts
  obtain ⟨hThreads, hReceived⟩ := hFacts
  refine ⟨c, hRun, ?_, ⟨by rw [hThreads]; rfl, by decide, by decide, rfl, hReceived, by decide⟩⟩
  rw [hThreads]
  intro i sqes hi
  match i, hi with
  | 0, hi =>
    obtain rfl := Option.some.inj hi
    have hExec : exec memSem (dispatchBatch [provideOne.sqe]) (fun _ => .byte 0) =
        some (selectTraces 0, selectResults 0, fun _ => .byte 0) := rfl
    exact path_of_exec hExec
  | 1, hi =>
    obtain rfl := Option.some.inj hi
    have hExec : exec memSem (dispatchBatch [readSelected.sqe]) (fun _ => .byte 0) =
        some (selectTraces 1, selectResults 1,
          Function.update (fun _ => .byte 0) 8192 (.byte 0)) := rfl
    exact path_of_exec hExec

/-- The completion of a read of one byte, behind the completion of a request that provides a
buffer, names no buffer. -/
theorem select_reports_nothing :
    ∃ c, (Client.start smallRing.2).runCalls smallRing.1 selectResults selectCalls = some c ∧
      DispatchedAs c.mem.threads selectTraces selectResults ∧
      SelectedRead smallRing.1 selectResults c 1 0 readSelected.sqe ⟨1, 1, 0⟩ ∧
      ¬ ReportsBuffer selectTraces selectResults c 1 0 readSelected.sqe ⟨1, 1, 0⟩ := by
  obtain ⟨c, hRun, hDispatched, hRead⟩ := select_run
  refine ⟨c, hRun, hDispatched, hRead, ?_⟩
  rintro ⟨bid, hSelect, -⟩
  exact absurd hSelect (by simp [Cqueue.bufferSelect])

theorem buffer_never_reported_select :
    ∃ c, (Client.start smallRing.2).runCalls smallRing.1 selectResults selectCalls = some c ∧
      ¬ ReportsBuffer selectTraces selectResults c 1 0 readSelected.sqe ⟨1, 1, 0⟩ := by
  obtain ⟨c, hRun, hDispatched, hRead⟩ := select_run
  exact ⟨c, hRun, buffer_never_reported smallRing_build hRun hDispatched hRead⟩

end Miring.Stream
