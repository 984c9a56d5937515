import Miring.Opcode.Builders

/-!
# The descriptor of an entry

A descriptor goes into two fields of the entry: its number into `fd`, and the flag
`FIXED_FILE` tells whether that number is the index of a registered file. `assign_fd!`
establishes both, and every builder but one keeps them through its later assignments.
`ReadMulti` assigns the flags where its siblings add to them (`targetsKept_iff`).
-/

namespace Miring.Opcode

open Sys Miring.Types

/-! ## Statement -/

/-- The two fields tell the target. -/
def Assigned : Target → IoUringSqe → Prop
  | .fd n, sqe => sqe.flags &&& Squeue.Flags.fixedFile = 0 ∧ sqe.fd = n
  | .fixed idx, sqe => sqe.flags &&& Squeue.Flags.fixedFile ≠ 0 ∧ sqe.fd.toUInt32 = idx

namespace Op

/-- The descriptor that is stored in `sqe.fd`. -/
def target : Op → Option Target
  | .readv b => some b.fd
  | .writev b => some b.fd
  | .fsync b => some b.fd
  | .readFixed b => some b.fd
  | .writeFixed b => some b.fd
  | .pollAdd b => some b.fd
  | .syncFileRange b => some b.fd
  | .sendMsg b => some b.fd
  | .recvMsg b => some b.fd
  | .accept b => some b.fd
  | .connect b => some b.fd
  | .fallocate b => some b.fd
  | .openAt b => some b.dirfd
  | .close b => some b.fd
  | .statx b => some b.dirfd
  | .read b => some b.fd
  | .write b => some b.fd
  | .send b => some b.fd
  | .recv b => some b.fd
  | .openAt2 b => some b.dirfd
  | .epollCtl b => some b.epfd
  | .splice b => some b.fdOut
  | .tee b => some b.fdOut
  | .shutdown b => some b.fd
  | .renameAt b => some b.olddirfd
  | .unlinkAt b => some b.dirfd
  | .mkDirAt b => some b.dirfd
  | .symlinkAt b => some b.newdirfd
  | .linkAt b => some b.olddirfd
  | .sendZc b => some b.fd
  | .sendMsgZc b => some b.fd
  | .ftruncate b => some b.fd
  | .bind b => some b.fd
  | .listen b => some b.fd
  | .fadvise b => some b.fd
  | .acceptMulti b => some b.fd
  | .recvMulti b => some b.fd
  | .recvMsgMulti b => some b.fd
  | .recvBundle b => some b.fd
  | .recvMultiBundle b => some b.fd
  | .sendBundle b => some b.fd
  | .readMulti b => some b.fd
  | .fgetXattr b => some b.fd
  | .fsetXattr b => some b.fd
  | .uringCmd16 b => some b.fd
  | .uringCmd80 b => some b.fd
  | .setSockOpt b => some b.fd
  | .recvZc b => some b.fd
  | .epollWait b => some b.fd
  | .readvFixed b => some b.fd
  | .writevFixed b => some b.fd
  | _ => none

/-- The same arguments with another descriptor. -/
def withTarget (target : Target) : Op → Op
  | .readv b => .readv { b with fd := target }
  | .writev b => .writev { b with fd := target }
  | .fsync b => .fsync { b with fd := target }
  | .readFixed b => .readFixed { b with fd := target }
  | .writeFixed b => .writeFixed { b with fd := target }
  | .pollAdd b => .pollAdd { b with fd := target }
  | .syncFileRange b => .syncFileRange { b with fd := target }
  | .sendMsg b => .sendMsg { b with fd := target }
  | .recvMsg b => .recvMsg { b with fd := target }
  | .accept b => .accept { b with fd := target }
  | .connect b => .connect { b with fd := target }
  | .fallocate b => .fallocate { b with fd := target }
  | .openAt b => .openAt { b with dirfd := target }
  | .close b => .close { b with fd := target }
  | .statx b => .statx { b with dirfd := target }
  | .read b => .read { b with fd := target }
  | .write b => .write { b with fd := target }
  | .send b => .send { b with fd := target }
  | .recv b => .recv { b with fd := target }
  | .openAt2 b => .openAt2 { b with dirfd := target }
  | .epollCtl b => .epollCtl { b with epfd := target }
  | .splice b => .splice { b with fdOut := target }
  | .tee b => .tee { b with fdOut := target }
  | .shutdown b => .shutdown { b with fd := target }
  | .renameAt b => .renameAt { b with olddirfd := target }
  | .unlinkAt b => .unlinkAt { b with dirfd := target }
  | .mkDirAt b => .mkDirAt { b with dirfd := target }
  | .symlinkAt b => .symlinkAt { b with newdirfd := target }
  | .linkAt b => .linkAt { b with olddirfd := target }
  | .sendZc b => .sendZc { b with fd := target }
  | .sendMsgZc b => .sendMsgZc { b with fd := target }
  | .ftruncate b => .ftruncate { b with fd := target }
  | .bind b => .bind { b with fd := target }
  | .listen b => .listen { b with fd := target }
  | .fadvise b => .fadvise { b with fd := target }
  | .acceptMulti b => .acceptMulti { b with fd := target }
  | .recvMulti b => .recvMulti { b with fd := target }
  | .recvMsgMulti b => .recvMsgMulti { b with fd := target }
  | .recvBundle b => .recvBundle { b with fd := target }
  | .recvMultiBundle b => .recvMultiBundle { b with fd := target }
  | .sendBundle b => .sendBundle { b with fd := target }
  | .readMulti b => .readMulti { b with fd := target }
  | .fgetXattr b => .fgetXattr { b with fd := target }
  | .fsetXattr b => .fsetXattr { b with fd := target }
  | .uringCmd16 b => .uringCmd16 { b with fd := target }
  | .uringCmd80 b => .uringCmd80 { b with fd := target }
  | .setSockOpt b => .setSockOpt { b with fd := target }
  | .recvZc b => .recvZc { b with fd := target }
  | .epollWait b => .epollWait { b with fd := target }
  | .readvFixed b => .readvFixed { b with fd := target }
  | .writevFixed b => .writevFixed { b with fd := target }
  | op => op

def isReadMulti : Op → Bool
  | .readMulti _ => true
  | _ => false

end Op

/-- For every descriptor that could stand in place of its own, a builder makes an entry that
tells it; two descriptors of different kinds do not make the same entry. -/
structure TargetsKept (overflowChecks : Bool) (op : Op) : Prop where
  assigned : ∀ t sqe, (op.withTarget t).sqe overflowChecks = some sqe → Assigned t sqe
  apart : ∀ n m sqe sqe', (op.withTarget (.fd n)).sqe overflowChecks = some sqe →
    (op.withTarget (.fixed m)).sqe overflowChecks = some sqe' → sqe ≠ sqe'

/-! ## Assignments to the two fields -/

variable {t : Target} {sqe sqe' : IoUringSqe}

/-- An assignment to other fields. -/
theorem Assigned.congr (h : Assigned t sqe) (hFlags : sqe'.flags = sqe.flags)
    (hFd : sqe'.fd = sqe.fd) : Assigned t sqe' := by
  cases t with
  | fd n => exact ⟨hFlags ▸ h.1, hFd ▸ h.2⟩
  | fixed idx => exact ⟨hFlags ▸ h.1, hFd ▸ h.2⟩

/-- `assign_fd!` on an entry whose flags are still zero. -/
theorem assigned_assignFd (t : Target) (hFlags : sqe.flags = 0) : Assigned t (assignFd sqe t) := by
  cases t with
  | fd n =>
    refine ⟨?_, rfl⟩
    change sqe.flags &&& _ = 0
    rw [hFlags]
    rfl
  | fixed idx =>
    refine ⟨?_, UInt32.toUInt32_toInt32 idx⟩
    change (sqe.flags ||| _) &&& _ ≠ 0
    rw [hFlags]
    decide

/-- `BUFFER_SELECT` is another bit. -/
theorem Assigned.orBufferSelect (h : Assigned t sqe) : Assigned t (orBufferSelect sqe) := by
  have hKept : (sqe.flags ||| Squeue.Flags.bufferSelect) &&& Squeue.Flags.fixedFile =
      sqe.flags &&& Squeue.Flags.fixedFile := by
    have hDistrib : (sqe.flags ||| Squeue.Flags.bufferSelect) &&& Squeue.Flags.fixedFile =
        (sqe.flags &&& Squeue.Flags.fixedFile) |||
          (Squeue.Flags.bufferSelect &&& Squeue.Flags.fixedFile) :=
      UInt8.toBitVec_inj.1 BitVec.and_or_distrib_right
    rw [hDistrib]
    exact UInt8.or_zero
  cases t with
  | fd n => exact ⟨hKept.trans h.1, h.2⟩
  | fixed idx => exact ⟨fun hZero => h.1 (hKept.symm.trans hZero), h.2⟩

theorem Assigned.setFileIndex (h : Assigned t sqe) {overflowChecks : Bool}
    {fileIndex : Option UInt32}
    (hSet : setFileIndex overflowChecks fileIndex sqe = some sqe') : Assigned t sqe' := by
  cases fileIndex with
  | none =>
    obtain rfl := Option.some.inj hSet
    exact h
  | some idx =>
    obtain ⟨i, -, rfl⟩ := Option.map_eq_some_iff.mp hSet
    exact h.congr rfl rfl

theorem Assigned.assignFdIn (h : Assigned t sqe) (fdIn : Target) :
    Assigned t (assignFdIn sqe fdIn) := by
  cases fdIn with
  | fd n => exact h.congr rfl rfl
  | fixed idx => exact h.congr rfl rfl

theorem Assigned.setDestAddr (h : Assigned t sqe) (destAddr : Ptr) (destAddrLen : UInt16) :
    Assigned t (setDestAddr destAddr destAddrLen sqe) := by
  unfold Opcode.setDestAddr
  split
  · exact h.congr rfl rfl
  · exact h

theorem Assigned.setCmdBuf (h : Assigned t sqe) (bufIndex : Option UInt16) :
    Assigned t (setCmdBuf bufIndex sqe) := by
  cases bufIndex with
  | none => exact h
  | some bufIndex => exact h.congr rfl rfl

theorem Assigned.ite (h : Assigned t sqe) (h' : Assigned t sqe') (b : Bool) :
    Assigned t (if b then sqe else sqe') := by
  cases b
  · exact h'
  · exact h

/-- Two entries of different kinds. -/
theorem Assigned.ne {n : Int32} {m : UInt32} (h : Assigned (.fd n) sqe)
    (h' : Assigned (.fixed m) sqe') : sqe ≠ sqe' := by
  rintro rfl
  exact h'.1 h.1

/-! ## The builders -/

/-- The three builders with a raw slot number and a descriptor. -/
theorem assigned_of_fileIndex {overflowChecks : Bool} {fileIndex : Option UInt32}
    (h : Assigned t sqe)
    (hSqe : ((setFileIndex overflowChecks fileIndex sqe).map Squeue.Entry.mk |>.map Built.entry
      |>.map Built.sqe) = some sqe') : Assigned t sqe' := by
  rw [Option.map_map, Option.map_map, Option.map_eq_some_iff] at hSqe
  obtain ⟨sqe₁, hSet, rfl⟩ := hSqe
  exact h.setFileIndex hSet

/-- Every builder but `ReadMulti` keeps what `assign_fd!` has assigned. -/
theorem assigned_of_sqe {overflowChecks : Bool} {op : Op} (hOther : op.isReadMulti = false)
    (hTarget : op.target = some t) (hSqe : op.sqe overflowChecks = some sqe) :
    Assigned t sqe := by
  have hAssign : ∀ (opcode : UInt8) (target : Target),
      Assigned target (assignFd { opcode := opcode } target) :=
    fun _ target => assigned_assignFd target rfl
  cases op
  case readMulti b => cases hOther
  case accept b | openAt b | openAt2 b =>
    obtain rfl := Option.some.inj hTarget
    refine assigned_of_fileIndex ?_ hSqe
    exact (hAssign _ _).congr rfl rfl
  all_goals first
    | (cases hTarget; done)
    | obtain rfl := Option.some.inj hTarget
  all_goals obtain rfl := Option.some.inj hSqe
  case pollAdd b | acceptMulti b =>
    refine Assigned.ite ?_ ?_ _
    · exact (hAssign _ _).congr rfl rfl
    · exact (hAssign _ _).congr rfl rfl
  case recvMulti b | recvMsgMulti b | recvBundle b | recvMultiBundle b | sendBundle b =>
    refine Assigned.congr (Assigned.orBufferSelect ?_) rfl rfl
    exact (hAssign _ _).congr rfl rfl
  case splice b | tee b =>
    refine Assigned.assignFdIn ?_ _
    exact (hAssign _ _).congr rfl rfl
  case send b | sendZc b =>
    refine Assigned.setDestAddr ?_ _ _
    exact (hAssign _ _).congr rfl rfl
  case uringCmd16 b | uringCmd80 b =>
    refine Assigned.setCmdBuf ?_ _
    exact (hAssign _ _).congr rfl rfl
  all_goals exact (hAssign _ _).congr rfl rfl

theorem target_withTarget {op : Op} (h : op.target.isSome) (t : Target) :
    (op.withTarget t).target = some t := by
  cases op <;> first | rfl | cases h

theorem isReadMulti_withTarget (op : Op) (t : Target) :
    (op.withTarget t).isReadMulti = op.isReadMulti := by
  cases op <;> rfl

/-! ## The result -/

/-- `ReadMulti` makes the same entry for a descriptor and for the registered file of the same
number. -/
theorem readMulti_confused (overflowChecks : Bool) (b : ReadMulti) :
    ¬ TargetsKept overflowChecks (.readMulti b) := by
  intro h
  exact h.apart 0 0 _ _ rfl rfl rfl

/-- **Descriptors and registered files.** The builders that tell the two apart, whatever their
other arguments and options, are all but `ReadMulti`. -/
theorem targetsKept_iff (overflowChecks : Bool) {op : Op} (h : op.target.isSome) :
    TargetsKept overflowChecks op ↔ op.isReadMulti = false := by
  constructor
  · intro hKept
    cases op
    case readMulti b => exact absurd hKept (readMulti_confused overflowChecks b)
    all_goals rfl
  · intro hOther
    have hAssigned : ∀ t sqe, (op.withTarget t).sqe overflowChecks = some sqe →
        Assigned t sqe := by
      intro t sqe hSqe
      exact assigned_of_sqe ((isReadMulti_withTarget op t).trans hOther)
        (target_withTarget h t) hSqe
    refine ⟨hAssigned, ?_⟩
    intro n m sqe sqe' hFd hFixed
    exact (hAssigned _ _ hFd).ne (hAssigned _ _ hFixed)

/-- A receive of a bundle, which sets `BUFFER_SELECT` as well. -/
theorem targetsKept_iff_recvBundle :
    (Op.recvBundle { fd := .fd 3, bufGroup := 7 }).target.isSome ∧
      (TargetsKept true (.recvBundle { fd := .fd 3, bufGroup := 7 }) ↔
        (Op.recvBundle { fd := .fd 3, bufGroup := 7 }).isReadMulti = false) :=
  ⟨rfl, targetsKept_iff true rfl⟩

/-- The registered file 3 is lost. -/
theorem readMulti_fixed_lost :
    ∃ sqe, (Op.readMulti { fd := .fixed 3, len := 64, bufGroup := 7 }).sqe true = some sqe ∧
      sqe.flags &&& Squeue.Flags.fixedFile = 0 ∧
      (Op.readMulti { fd := .fd 3, len := 64, bufGroup := 7 }).sqe true = some sqe ∧
      ¬ TargetsKept true (.readMulti { fd := .fixed 3, len := 64, bufGroup := 7 }) :=
  ⟨_, rfl, by decide, by decide, readMulti_confused true _⟩

end Miring.Opcode
