import Miring.Opcode.Pointers

/-!
# Probing for opcodes

`Probe` of `register.rs`, and `register_probe`, which marks the opcodes of the table
`HANDLED_OPCODES`. The table is kept by hand beside the match of `dispatch_op`. They agree: a
probe answers that an opcode is supported exactly if `dispatch_op` has an arm for it, and every
builder is supported (`register_probe_exact`).
-/

namespace Miring.Register

open Sys Miring.Dispatch Miring.Opcode Program

/-! ## Probes -/

/-- `Probe::COUNT` -/
abbrev Probe.count : Nat := 64

structure Probe where
  supported : Vector Bool Probe.count
  deriving DecidableEq

namespace Probe

def new : Probe := ⟨.replicate count false⟩

def isSupported (probe : Probe) (opcode : UInt8) : Bool :=
  probe.supported[opcode.toNat]?.getD false

/-- Mark a specific opcode as supported. -/
def setSupported (probe : Probe) (opcode : UInt8) : Probe :=
  if h : opcode.toNat < count then
    ⟨probe.supported.set opcode.toNat true h⟩
  else probe

end Probe

/-- All opcodes handled by `dispatch_op`. -/
def handledOpcodes : List Nat :=
  [ioringOpNop, ioringOpRead, ioringOpReadFixed, ioringOpRecv, ioringOpWrite, ioringOpWriteFixed,
    ioringOpSend, ioringOpSendZc, ioringOpReadv, ioringOpWritev, ioringOpRecvmsg,
    ioringOpSendmsg, ioringOpSendmsgZc, ioringOpTimeout, ioringOpLinkTimeout, ioringOpConnect,
    ioringOpAccept, ioringOpOpenat, ioringOpOpenat2, ioringOpStatx, ioringOpUnlinkat,
    ioringOpMkdirat, ioringOpRenameat, ioringOpSymlinkat, ioringOpLinkat, ioringOpBind,
    ioringOpEpollCtl, ioringOpFilesUpdate, ioringOpProvideBuffers, ioringOpFsetxattr,
    ioringOpSetxattr, ioringOpFgetxattr, ioringOpGetxattr, ioringOpEpollWait,
    ioringOpReadvFixed, ioringOpWritevFixed, ioringOpReadMultishot, ioringOpFutexWait,
    ioringOpFutexWake, ioringOpFutexWaitv, ioringOpWaitid, ioringOpPipe,
    ioringOpClose, ioringOpFsync, ioringOpSyncFileRange, ioringOpFallocate, ioringOpFtruncate,
    ioringOpShutdown, ioringOpPollAdd, ioringOpPollRemove, ioringOpAsyncCancel,
    ioringOpTimeoutRemove, ioringOpSplice, ioringOpTee, ioringOpRemoveBuffers, ioringOpFadvise,
    ioringOpMadvise, ioringOpMsgRing, ioringOpListen, ioringOpUringCmd, ioringOpRecvZc,
    ioringOpSocket, ioringOpFixedFdInstall]

def registerProbe (probe : Probe) : Probe :=
  handledOpcodes.foldl (fun probe op => probe.setSupported (.ofNat op)) probe

/-! ## Statement -/

/-- `-ENOSYS` -/
def enosys : Int32 := -38

/-- Some request with the opcode is dispatched to a handler of its own. -/
def Handled (opcode : UInt8) : Prop :=
  ∃ (sqe : IoUringSqe) (m m' : UserCells) (r : Int32), sqe.opcode = opcode ∧
    run memSem (dispatchOp sqe) m = some (r, m') ∧ r ≠ enosys

/-- The probe tells what the dispatcher does. -/
structure ProbeExact (probe : Probe) : Prop where
  supported_iff : ∀ opcode, (registerProbe probe).isSupported opcode = true ↔
    probe.isSupported opcode = true ∨ Handled opcode
  /-- a request that is not supported is refused, and its pointers are not looked at -/
  refused : ∀ sqe m, (registerProbe .new).isSupported sqe.opcode = false →
    run memSem (dispatchOp sqe) m = some (enosys, m)
  /-- whatever can be built is supported -/
  built : ∀ overflowChecks op sqe, Op.sqe overflowChecks op = some sqe →
    (registerProbe probe).isSupported sqe.opcode = true

/-! ## Marking -/

section Marking

variable (probe : Probe) (opcode : UInt8)

theorem isSupported_new : Probe.new.isSupported opcode = false := by
  unfold Probe.isSupported Probe.new
  rw [Vector.getElem?_replicate]
  split
  · rfl
  · rfl

/-- Only the opcode itself is marked, and only if it is in range. -/
theorem isSupported_setSupported (op : UInt8) :
    (probe.setSupported op).isSupported opcode = true ↔
      probe.isSupported opcode = true ∨ op = opcode ∧ op.toNat < Probe.count := by
  unfold Probe.setSupported
  by_cases hRange : op.toNat < Probe.count
  · rw [dif_pos hRange]
    unfold Probe.isSupported
    by_cases hSame : op = opcode
    · rw [← hSame, Vector.getElem?_set_self hRange]
      exact iff_of_true rfl (.inr ⟨rfl, hRange⟩)
    · have hne : op.toNat ≠ opcode.toNat := fun h => hSame (UInt8.toNat_inj.mp h)
      rw [Vector.getElem?_set_ne hRange hne]
      simp [hSame]
  · rw [dif_neg hRange]
    simp [hRange]

/-- The fold over a table, by induction on the table. -/
theorem isSupported_foldl (table : List Nat) :
    (table.foldl (fun probe op => probe.setSupported (.ofNat op)) probe).isSupported opcode =
        true ↔
      probe.isSupported opcode = true ∨
        ∃ op ∈ table, UInt8.ofNat op = opcode ∧ (UInt8.ofNat op).toNat < Probe.count := by
  induction table generalizing probe with
  | nil => simp
  | cons op table ih =>
    rw [List.foldl_cons, ih, isSupported_setSupported, List.exists_mem_cons_iff, or_assoc]

/-- No entry of the table is out of range. -/
theorem mem_handledOpcodes_iff :
    opcode.toNat ∈ handledOpcodes ↔ ∃ op ∈ handledOpcodes, UInt8.ofNat op = opcode ∧
      (UInt8.ofNat op).toNat < Probe.count := by
  have hTable : handledOpcodes.all (· < 63) = true := by decide
  have hSmall : ∀ op ∈ handledOpcodes, op < 63 := by simpa using hTable
  constructor
  · intro hMem
    refine ⟨opcode.toNat, hMem, UInt8.ofNat_toNat, ?_⟩
    have := hSmall _ hMem
    rw [UInt8.ofNat_toNat]
    unfold Probe.count
    omega
  · rintro ⟨op, hMem, rfl, -⟩
    have := hSmall _ hMem
    rw [UInt8.toNat_ofNat', Nat.mod_eq_of_lt (by omega)]
    exact hMem

theorem isSupported_registerProbe :
    (registerProbe probe).isSupported opcode = true ↔
      probe.isSupported opcode = true ∨ opcode.toNat ∈ handledOpcodes := by
  rw [mem_handledOpcodes_iff]
  exact isSupported_foldl probe opcode handledOpcodes

end Marking

/-! ## The table and the dispatcher -/

section Table

/-- A request with an opcode that is not in the table reaches no handler. -/
theorem dispatchOp_of_not_mem {sqe : IoUringSqe} (h : sqe.opcode.toNat ∉ handledOpcodes) :
    dispatchOp sqe = pure enosys := by
  unfold dispatchOp
  split
  case h_64 => rfl
  all_goals
    next hOp =>
      rw [hOp] at h
      simp [handledOpcodes] at h

/-- The request with null pointers and no sizes. -/
theorem handled_of_mem {opcode : UInt8} (h : opcode.toNat ∈ handledOpcodes) : Handled opcode := by
  have hTable : handledOpcodes.all (fun op =>
      ((run memSem (dispatchOp { opcode := .ofNat op }) fun _ => .unmapped).map
        fun q => decide (q.1 ≠ enosys)) == some true) = true := by
    decide +kernel
  have hAnswer := eq_of_beq (List.all_eq_true.mp hTable _ h)
  obtain ⟨⟨r, m'⟩, hRun, hr⟩ := Option.map_eq_some_iff.mp hAnswer
  rw [UInt8.ofNat_toNat] at hRun
  exact ⟨_, _, m', r, rfl, hRun, of_decide_eq_true hr⟩

theorem handled_iff {opcode : UInt8} : Handled opcode ↔ opcode.toNat ∈ handledOpcodes := by
  constructor
  · rintro ⟨sqe, m, m', r, rfl, hRun, hr⟩
    by_contra hOther
    rw [dispatchOp_of_not_mem hOther] at hRun
    obtain ⟨rfl, -⟩ := Prod.mk.inj (Option.some.inj hRun)
    exact hr rfl
  · exact handled_of_mem

end Table

/-! ## The builders -/

section Builders

variable {overflowChecks : Bool} {sqe : IoUringSqe} {opcode : UInt8}

/-- The opcode is in the table. -/
def listed (opcode : UInt8) : Bool := handledOpcodes.contains opcode.toNat

theorem listed_assignFd (fd : Types.Target) (h : listed opcode = true) :
    listed (assignFd { opcode := opcode } fd).opcode = true := by
  rw [assignFd_opcode]
  exact h

theorem assignFdIn_opcode (sqe : IoUringSqe) (fdIn : Types.Target) :
    (assignFdIn sqe fdIn).opcode = sqe.opcode := by
  cases fdIn with
  | fd n => rfl
  | fixed idx => rfl

theorem setCmdBuf_opcode (bufIndex : Option UInt16) (sqe : IoUringSqe) :
    (setCmdBuf bufIndex sqe).opcode = sqe.opcode := by
  cases bufIndex with
  | none => rfl
  | some bufIndex => rfl

theorem pollAdd_opcode (b : PollAdd) : b.build.sqe.opcode = .ofNat ioringOpPollAdd := by
  unfold PollAdd.build
  split
  · exact assignFd_opcode _ _
  · exact assignFd_opcode _ _

theorem acceptMulti_opcode (b : AcceptMulti) : b.build.sqe.opcode = .ofNat ioringOpAccept := by
  unfold AcceptMulti.build
  split
  · exact assignFd_opcode _ _
  · exact assignFd_opcode _ _

theorem msgRingSendFd_opcode (b : MsgRingSendFd) :
    b.build.sqe.opcode = .ofNat ioringOpMsgRing := by
  unfold MsgRingSendFd.build
  cases b.srcFd with
  | fd src => rfl
  | fixed idx => rfl

/-- Every builder sets an opcode of the table, whatever its arguments. -/
theorem listed_of_sqe {op : Op} (h : op.sqe overflowChecks = some sqe) :
    listed sqe.opcode = true := by
  cases op
  -- these may panic
  case accept b | openAt b | openAt2 b =>
    obtain ⟨spliceFdIn, rfl⟩ := sqe_of_setFileIndex h
    exact listed_assignFd _ rfl
  case socket b =>
    obtain ⟨spliceFdIn, rfl⟩ := sqe_of_setFileIndex h
    rfl
  all_goals obtain rfl := Option.some.inj h
  case pollAdd b =>
    show listed b.build.sqe.opcode = true
    rw [pollAdd_opcode]
    rfl
  case acceptMulti b =>
    show listed b.build.sqe.opcode = true
    rw [acceptMulti_opcode]
    rfl
  case msgRingSendFd b =>
    show listed b.build.sqe.opcode = true
    rw [msgRingSendFd_opcode]
    rfl
  case pipe b =>
    show listed b.build.sqe.opcode = true
    rw [pipe_opcode]
    rfl
  case send b | sendZc b =>
    show listed (setDestAddr _ _ _).opcode = true
    rw [(setDestAddr_fields _ _ _).1]
    exact listed_assignFd _ rfl
  case splice b | tee b =>
    show listed (assignFdIn _ _).opcode = true
    rw [assignFdIn_opcode]
    exact listed_assignFd _ rfl
  case uringCmd16 b | uringCmd80 b =>
    show listed (setCmdBuf _ _).opcode = true
    rw [setCmdBuf_opcode]
    exact listed_assignFd _ rfl
  all_goals first
    | rfl
    | exact listed_assignFd _ rfl

end Builders

/-! ## The result -/

theorem register_probe_exact (probe : Probe) : ProbeExact probe where
  supported_iff opcode := by
    rw [isSupported_registerProbe, handled_iff]
  refused sqe m h := by
    have hOther : sqe.opcode.toNat ∉ handledOpcodes := by
      intro hMem
      rw [(isSupported_registerProbe .new sqe.opcode).mpr (.inr hMem)] at h
      cases h
    rw [dispatchOp_of_not_mem hOther]
    rfl
  built overflowChecks op sqe h := by
    apply (isSupported_registerProbe probe sqe.opcode).mpr
    right
    exact List.contains_iff_mem.mp (listed_of_sqe h)

end Miring.Register
