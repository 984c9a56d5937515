import Miring.Dispatch.Links
import Miring.Dispatch.Transfer

/-!
# What a dispatch touches

Two judgements about every completed run of a program, whatever the memory: `Gives p Q`, that
it leaves no marks and its answer satisfies `Q`, and `Reaches p a`, that it accesses the byte
at `a`. Both have a rule for each way to put programs together.
-/

namespace Miring.Dispatch

open Sys Program Trace

/-- No marks, only accesses. -/
def Quiet (tr : List (Event userSig)) : Prop := ∀ e ∈ tr, (addr e).isSome

def Gives {α : Type} (p : UserProgram α) (Q : α → Prop) : Prop :=
  ∀ tr a, Path p tr a → Quiet tr ∧ Q a

abbrev Silent {α : Type} (p : UserProgram α) : Prop := Gives p fun _ => True

def Reaches {α : Type} (p : UserProgram α) (a : Nat) : Prop :=
  ∀ tr x, Path p tr x → Touches tr a

/-! ## Answers -/

section Gives

variable {α β : Type} {Q : α → Prop}

theorem Gives.ret {a : α} (h : Q a) : Gives (pure a) Q := by
  intro tr b hPath
  obtain ⟨rfl, rfl⟩ := path_ret_iff.mp hPath
  exact ⟨nofun, h⟩

theorem Gives.bind {R : β → Prop} {p : UserProgram β} {f : β → UserProgram α} (h : Gives p R)
    (hf : ∀ b, R b → Gives (f b) Q) : Gives (p >>= f) Q := by
  intro tr a hPath
  obtain ⟨tr₁, b, tr₂, hFirst, hRest, rfl⟩ := path_bind_iff.mp hPath
  obtain ⟨hQuiet, hb⟩ := h tr₁ b hFirst
  obtain ⟨hQuiet', ha⟩ := hf b hb tr₂ a hRest
  refine ⟨?_, ha⟩
  intro e he
  rcases List.mem_append.mp he with he | he
  · exact hQuiet e he
  · exact hQuiet' e he

/-- Behind a program whose answer does not matter. -/
theorem Silent.bind {p : UserProgram β} {f : β → UserProgram α} (h : Silent p)
    (hf : ∀ b, Gives (f b) Q) : Gives (p >>= f) Q :=
  Gives.bind h fun b _ => hf b

theorem Gives.mono {Q' : α → Prop} {p : UserProgram α} (h : Gives p Q) (hQ : ∀ a, Q a → Q' a) :
    Gives p Q' := by
  intro tr a hPath
  obtain ⟨hQuiet, ha⟩ := h tr a hPath
  exact ⟨hQuiet, hQ a ha⟩

theorem Gives.ite {c : Prop} [Decidable c] {p q : UserProgram α} (hp : c → Gives p Q)
    (hq : ¬ c → Gives q Q) : Gives (if c then p else q) Q := by
  by_cases hc : c
  · rw [if_pos hc]
    exact hp hc
  · rw [if_neg hc]
    exact hq hc

theorem silent_act {o : userSig.Op} (ho : ∀ r, (addr ⟨o, r⟩).isSome) :
    Silent (.act o .ret : UserProgram (userSig.Res o)) := by
  intro tr b hPath
  obtain ⟨r, tr', hRet, rfl⟩ := path_act_iff.mp hPath
  obtain ⟨rfl, -⟩ := path_ret_iff.mp hRet
  refine ⟨?_, trivial⟩
  intro e he
  rw [List.mem_singleton.mp he]
  exact ho r

theorem silent_readU8 (p : Nat) : Silent (readU8 p) := silent_act fun _ => rfl

theorem silent_writeU8 (p : Nat) (v : UInt8) : Silent (writeU8 p v) := silent_act fun _ => rfl

theorem silent_readLe (p n : Nat) : Silent (readLe p n) := by
  induction n generalizing p with
  | zero => exact .ret trivial
  | succ n ih => exact (silent_readU8 p).bind fun _ => (ih (p + 1)).bind fun _ => .ret trivial

theorem silent_writeLe (p n v : Nat) : Silent (writeLe p n v) := by
  induction n generalizing p v with
  | zero => exact .ret trivial
  | succ n ih => exact (silent_writeU8 p _).bind fun _ => ih (p + 1) (v / 256)

theorem silent_fill (p n : Nat) : Silent (fill p n) := by
  induction n generalizing p with
  | zero => exact .ret trivial
  | succ n ih => exact (silent_writeU8 p 0).bind fun _ => ih (p + 1)

theorem silent_readBytes (p n : Nat) : Silent (readBytes p n) := by
  induction n generalizing p with
  | zero => exact .ret trivial
  | succ n ih => exact (silent_readU8 p).bind fun _ => ih (p + 1)

theorem silent_walkCstr (p : Nat) : Silent (walkCstr p) := by
  unfold walkCstr
  generalize 2 ^ 64 - p = fuel
  induction fuel generalizing p with
  | zero => exact (silent_readU8 p).bind fun _ => .ret trivial
  | succ fuel ih =>
    exact (silent_readU8 p).bind fun b => .ite (fun _ => .ret trivial) fun _ => ih (p + 1)

/-- `if !ptr.is_null() { … }` and the like -/
theorem silent_unless {c : Prop} [Decidable c] {p : UserProgram Unit} (h : Silent p) :
    Silent (if c then pure () else p) :=
  .ite (fun _ => .ret trivial) fun _ => h

theorem silent_walkIovecs {touch : Nat → Nat → UserProgram Unit}
    (hTouch : ∀ p n, Silent (touch p n)) (iov n total : Nat) :
    Silent (walkIovecs touch iov n total) := by
  have hOne : ∀ iov total, Silent (walkIovec touch iov total) := by
    intro iov total
    refine (silent_readLe iov 8).bind fun base => .ite (fun _ => .ret trivial) fun _ => ?_
    refine (silent_readLe (iov + 8) 8).bind fun len => .ite (fun _ => .ret trivial) fun _ => ?_
    exact (hTouch base len).bind fun _ => (silent_readLe (iov + 8) 8).bind fun _ => .ret trivial
  induction n generalizing iov total with
  | zero => exact .ret trivial
  | succ n ih => exact (hOne iov total).bind fun total => ih (iov + iovecSize) total

theorem silent_walkMsgHdr {touch : Nat → Nat → UserProgram Unit}
    (hTouch : ∀ p n, Silent (touch p n)) (hdr : Nat) : Silent (walkMsgHdr touch hdr) := by
  have hBuf : ∀ ptr len, Silent len → Silent (walkHdrBuf touch ptr len) := by
    intro ptr len hLen
    refine (silent_readLe ptr 8).bind fun base => .ite (fun _ => .ret trivial) fun _ => ?_
    exact hLen.bind fun n => silent_unless (hTouch base n)
  refine (hBuf _ _ (silent_readLe _ 4)).bind fun _ => ?_
  refine (hBuf _ _ (silent_readLe _ 8)).bind fun _ => ?_
  refine (silent_readLe _ 8).bind fun iov => .ite (fun _ => .ret trivial) fun _ => ?_
  refine (silent_readLe _ 8).bind fun n => .ite (fun _ => .ret trivial) fun _ => ?_
  exact (silent_walkIovecs hTouch iov n 0).bind fun _ => .ret trivial

end Gives

/-! ## Bytes that are always accessed -/

section Reaches

variable {α β : Type} {a : Nat}

theorem Reaches.bind {p : UserProgram β} (h : Reaches p a) (f : β → UserProgram α) :
    Reaches (p >>= f) a := by
  intro tr x hPath
  obtain ⟨tr₁, b, tr₂, hFirst, -, rfl⟩ := path_bind_iff.mp hPath
  exact touches_append.mpr (.inl (h tr₁ b hFirst))

theorem Reaches.behind (p : UserProgram β) {f : β → UserProgram α} (h : ∀ b, Reaches (f b) a) :
    Reaches (p >>= f) a := by
  intro tr x hPath
  obtain ⟨tr₁, b, tr₂, -, hRest, rfl⟩ := path_bind_iff.mp hPath
  exact touches_append.mpr (.inr (h b tr₂ x hRest))

theorem reaches_readU8 (p : Nat) : Reaches (readU8 p) p := by
  intro tr x hPath
  obtain ⟨r, tr', -, rfl⟩ := path_act_iff.mp hPath
  exact touches_cons.mpr (.inl rfl)

theorem reaches_writeU8 (p : Nat) (v : UInt8) : Reaches (writeU8 p v) p := by
  intro tr x hPath
  obtain ⟨r, tr', -, rfl⟩ := path_act_iff.mp hPath
  exact touches_cons.mpr (.inl rfl)

theorem reaches_readLe {p n : Nat} (h : 0 < n) : Reaches (readLe p n) p := by
  obtain ⟨k, rfl⟩ := Nat.exists_eq_add_one_of_ne_zero (Nat.ne_of_gt h)
  exact (reaches_readU8 p).bind _

theorem reaches_writeLe {p n : Nat} (h : 0 < n) (v : Nat) : Reaches (writeLe p n v) p := by
  obtain ⟨k, rfl⟩ := Nat.exists_eq_add_one_of_ne_zero (Nat.ne_of_gt h)
  exact (reaches_writeU8 p _).bind _

theorem reaches_fill {p n : Nat} (h : 0 < n) : Reaches (fill p n) p := by
  obtain ⟨k, rfl⟩ := Nat.exists_eq_add_one_of_ne_zero (Nat.ne_of_gt h)
  exact (reaches_writeU8 p 0).bind _

theorem reaches_readBytes {p n : Nat} (h : 0 < n) : Reaches (readBytes p n) p := by
  obtain ⟨k, rfl⟩ := Nat.exists_eq_add_one_of_ne_zero (Nat.ne_of_gt h)
  exact (reaches_readU8 p).bind _

theorem reaches_walkCstr (p : Nat) : Reaches (walkCstr p) p := by
  unfold walkCstr
  cases 2 ^ 64 - p with
  | zero => exact (reaches_readU8 p).bind _
  | succ fuel => exact (reaches_readU8 p).bind _

theorem reaches_walkIovecs (touch : Nat → Nat → UserProgram Unit) {iov n : Nat} (h : 0 < n)
    (total : Nat) : Reaches (walkIovecs touch iov n total) iov := by
  obtain ⟨k, rfl⟩ := Nat.exists_eq_add_one_of_ne_zero (Nat.ne_of_gt h)
  have hOne : Reaches (walkIovec touch iov total) iov := (reaches_readLe (by decide)).bind _
  exact hOne.bind _

theorem reaches_walkMsgHdr (touch : Nat → Nat → UserProgram Unit) (hdr : Nat) :
    Reaches (walkMsgHdr touch hdr) hdr := by
  have hName : Reaches (walkHdrBuf touch (hdr + MsgHdr.msgName)
      (readU32 (hdr + MsgHdr.msgNamelen))) hdr := (reaches_readLe (by decide)).bind _
  exact hName.bind _

/-- `if !ptr.is_null() { … }` and the like -/
theorem Reaches.unless {c : Prop} [Decidable c] (hc : ¬ c) {p : UserProgram Unit}
    (h : Reaches p a) : Reaches (if c then pure () else p) a := by
  rw [if_neg hc]
  exact h

end Reaches

/-! ## The pointers of the handlers -/

section Handlers

variable {sqe : IoUringSqe}

theorem reaches_dispatchBufFill (hAddr : sqe.addr.toNat ≠ 0) (hLen : sqe.len.toNat ≠ 0) :
    Reaches (dispatchBufFill sqe) sqe.addr.toNat := by
  rw [dispatchBufFill, if_neg (not_or.mpr ⟨hAddr, hLen⟩)]
  exact (reaches_fill (Nat.pos_of_ne_zero hLen)).bind _

theorem reaches_dispatchBufSink (hAddr : sqe.addr.toNat ≠ 0) (hLen : sqe.len.toNat ≠ 0) :
    Reaches (dispatchBufSink sqe) sqe.addr.toNat := by
  rw [dispatchBufSink, if_neg (not_or.mpr ⟨hAddr, hLen⟩)]
  exact (reaches_readBytes (Nat.pos_of_ne_zero hLen)).bind _

theorem reaches_dispatchReadv (hAddr : sqe.addr.toNat ≠ 0) (hLen : sqe.len.toNat ≠ 0) :
    Reaches (dispatchReadv sqe) sqe.addr.toNat := by
  rw [dispatchReadv, if_neg (not_or.mpr ⟨hAddr, hLen⟩)]
  exact (reaches_walkIovecs fill (Nat.pos_of_ne_zero hLen) 0).bind _

theorem reaches_dispatchWritev (hAddr : sqe.addr.toNat ≠ 0) (hLen : sqe.len.toNat ≠ 0) :
    Reaches (dispatchWritev sqe) sqe.addr.toNat := by
  rw [dispatchWritev, if_neg (not_or.mpr ⟨hAddr, hLen⟩)]
  exact (reaches_walkIovecs readBytes (Nat.pos_of_ne_zero hLen) 0).bind _

theorem reaches_dispatchRecvmsg (hAddr : sqe.addr.toNat ≠ 0) :
    Reaches (dispatchRecvmsg sqe) sqe.addr.toNat := by
  rw [dispatchRecvmsg, if_neg hAddr]
  exact reaches_walkMsgHdr fill _

theorem reaches_dispatchSendmsg (hAddr : sqe.addr.toNat ≠ 0) :
    Reaches (dispatchSendmsg sqe) sqe.addr.toNat := by
  rw [dispatchSendmsg, if_neg hAddr]
  exact reaches_walkMsgHdr readBytes _

theorem reaches_dispatchTimeout (hAddr : sqe.addr.toNat ≠ 0) :
    Reaches (dispatchTimeout sqe) sqe.addr.toNat := by
  rw [dispatchTimeout, if_neg hAddr]
  exact (reaches_readBytes (by decide)).bind _

theorem reaches_dispatchConnect (hAddr : sqe.addr.toNat ≠ 0) (hLen : sqe.off.toNat ≠ 0) :
    Reaches (dispatchConnect sqe) sqe.addr.toNat := by
  rw [dispatchConnect, if_neg (not_or.mpr ⟨hAddr, hLen⟩)]
  exact (reaches_readBytes (Nat.pos_of_ne_zero hLen)).bind _

theorem reaches_dispatchAccept (hAddr : sqe.addr.toNat ≠ 0) (hOff : sqe.off.toNat ≠ 0) :
    Reaches (dispatchAccept sqe) sqe.off.toNat := by
  rw [dispatchAccept, if_pos ⟨hAddr, hOff⟩]
  exact (reaches_readLe (by decide)).bind _

/-- The address of a connection is written where its length is not zero. -/
theorem touches_dispatchAccept (hAddr : sqe.addr.toNat ≠ 0) (hOff : sqe.off.toNat ≠ 0)
    {m m' : UserCells} {tr : List (Event userSig)} {r : Int32}
    (hLen : peek m sqe.off.toNat 4 ≠ 0) (hRun : Runs (dispatchAccept sqe) m tr r m') :
    Touches tr sqe.addr.toNat := by
  rw [dispatchAccept, if_pos ⟨hAddr, hOff⟩] at hRun
  obtain ⟨tr₁, n, m₁, tr₂, hRead, hRest, rfl⟩ := exec_bind_iff.mp hRun
  obtain ⟨rfl, -⟩ := runs_readLe hRead
  have hFill : Reaches (if peek m sqe.off.toNat 4 = 0 then pure () else
      fill sqe.addr.toNat (peek m sqe.off.toNat 4)) sqe.addr.toNat :=
    .unless hLen (reaches_fill (Nat.pos_of_ne_zero hLen))
  exact touches_append.mpr (.inr (hFill.bind _ tr₂ r (path_of_exec hRest)))

theorem reaches_dispatchOpenat (hPath : sqe.addr.toNat ≠ 0) :
    Reaches (dispatchOpenat sqe) sqe.addr.toNat := by
  rw [dispatchOpenat, if_neg hPath]
  exact (reaches_walkCstr _).bind _

theorem reaches_dispatchOpenat2 (hPath : sqe.addr.toNat ≠ 0) :
    Reaches (dispatchOpenat2 sqe) sqe.addr.toNat := by
  rw [dispatchOpenat2, if_neg hPath]
  exact (reaches_walkCstr _).bind _

theorem reaches_dispatchOpenat2_how (hPath : sqe.addr.toNat ≠ 0) (hHow : sqe.off.toNat ≠ 0) :
    Reaches (dispatchOpenat2 sqe) sqe.off.toNat := by
  rw [dispatchOpenat2, if_neg hPath]
  exact .behind _ fun _ => (Reaches.unless hHow (reaches_readBytes (by decide))).bind _

theorem reaches_dispatchStatx (hPath : sqe.addr.toNat ≠ 0) :
    Reaches (dispatchStatx sqe) sqe.addr.toNat :=
  (Reaches.unless hPath (reaches_walkCstr _)).bind _

theorem reaches_dispatchStatx_buf (hBuf : sqe.off.toNat ≠ 0) :
    Reaches (dispatchStatx sqe) sqe.off.toNat :=
  .behind _ fun _ => (Reaches.unless hBuf (reaches_fill (by decide))).bind _

theorem reaches_dispatchPathname (hPath : sqe.addr.toNat ≠ 0) :
    Reaches (dispatchPathname sqe) sqe.addr.toNat := by
  rw [dispatchPathname, if_neg hPath]
  exact (reaches_walkCstr _).bind _

theorem reaches_dispatchPathname2 (hPath : sqe.addr.toNat ≠ 0) (hPath2 : sqe.off.toNat ≠ 0) :
    Reaches (dispatchPathname2 sqe) sqe.addr.toNat ∧
      Reaches (dispatchPathname2 sqe) sqe.off.toNat := by
  rw [dispatchPathname2, if_neg (not_or.mpr ⟨hPath, hPath2⟩)]
  exact ⟨(reaches_walkCstr _).bind _, .behind _ fun _ => (reaches_walkCstr _).bind _⟩

theorem reaches_dispatchEpollCtl (hEv : sqe.addr.toNat ≠ 0) :
    Reaches (dispatchEpollCtl sqe) sqe.addr.toNat := by
  rw [dispatchEpollCtl, if_neg hEv]
  exact (reaches_readBytes (by decide)).bind _

theorem reaches_dispatchFilesUpdate (hFds : sqe.addr.toNat ≠ 0) (hLen : sqe.len.toNat ≠ 0) :
    Reaches (dispatchFilesUpdate sqe) sqe.addr.toNat := by
  rw [dispatchFilesUpdate, if_neg (not_or.mpr ⟨hFds, hLen⟩)]
  exact (reaches_readBytes (Nat.mul_pos (Nat.pos_of_ne_zero hLen) (by decide))).bind _

theorem reaches_dispatchProvideBuffers (hAddr : sqe.addr.toNat ≠ 0) (hLen : sqe.len.toNat ≠ 0)
    (hNbufs : asUsize sqe.fd ≠ 0) : Reaches (dispatchProvideBuffers sqe) sqe.addr.toNat := by
  rw [dispatchProvideBuffers, if_neg (not_or.mpr ⟨hAddr, not_or.mpr ⟨hLen, hNbufs⟩⟩)]
  exact (reaches_readU8 _).bind _

theorem reaches_dispatchEpollWait (hEvents : sqe.addr.toNat ≠ 0) (hMax : sqe.len.toNat ≠ 0) :
    Reaches (dispatchEpollWait sqe) sqe.addr.toNat := by
  rw [dispatchEpollWait, if_neg (not_or.mpr ⟨hEvents, hMax⟩)]
  exact (reaches_fill (Nat.mul_pos (Nat.pos_of_ne_zero hMax) (by decide))).bind _

theorem reaches_dispatchXattrSet (hName : sqe.addr.toNat ≠ 0) :
    Reaches (dispatchXattrSet sqe) sqe.addr.toNat :=
  (Reaches.unless hName (reaches_walkCstr _)).bind _

theorem reaches_dispatchXattrSet_value (hValue : sqe.off.toNat ≠ 0) (hLen : sqe.len.toNat ≠ 0) :
    Reaches (dispatchXattrSet sqe) sqe.off.toNat :=
  .behind _ fun _ => (Reaches.unless (not_or.mpr ⟨hValue, hLen⟩)
    (reaches_readBytes (Nat.pos_of_ne_zero hLen))).bind _

theorem reaches_dispatchXattrSet_path (hOp : sqe.opcode.toNat = ioringOpSetxattr)
    (hPath : sqe.addr3.toNat ≠ 0) : Reaches (dispatchXattrSet sqe) sqe.addr3.toNat :=
  .behind _ fun _ => .behind _ fun _ => (Reaches.unless (not_or.mpr ⟨not_not.mpr hOp, hPath⟩)
    (reaches_walkCstr _)).bind _

theorem reaches_dispatchXattrGet (hName : sqe.addr.toNat ≠ 0) :
    Reaches (dispatchXattrGet sqe) sqe.addr.toNat :=
  (Reaches.unless hName (reaches_walkCstr _)).bind _

theorem reaches_dispatchXattrGet_value (hValue : sqe.off.toNat ≠ 0) (hLen : sqe.len.toNat ≠ 0) :
    Reaches (dispatchXattrGet sqe) sqe.off.toNat :=
  .behind _ fun _ => (Reaches.unless (not_or.mpr ⟨hValue, hLen⟩)
    (reaches_fill (Nat.pos_of_ne_zero hLen))).bind _

theorem reaches_dispatchXattrGet_path (hOp : sqe.opcode.toNat = ioringOpGetxattr)
    (hPath : sqe.addr3.toNat ≠ 0) : Reaches (dispatchXattrGet sqe) sqe.addr3.toNat :=
  .behind _ fun _ => .behind _ fun _ => (Reaches.unless (not_or.mpr ⟨not_not.mpr hOp, hPath⟩)
    (reaches_walkCstr _)).bind _

theorem reaches_dispatchFutexRead (hFutex : sqe.addr.toNat ≠ 0) :
    Reaches (dispatchFutexRead sqe) sqe.addr.toNat := by
  rw [dispatchFutexRead, if_neg hFutex]
  exact (reaches_readLe (by decide)).bind _

theorem reaches_dispatchFutexWaitv (hArr : sqe.addr.toNat ≠ 0) (hNr : sqe.len.toNat ≠ 0) :
    Reaches (dispatchFutexWaitv sqe) sqe.addr.toNat := by
  rw [dispatchFutexWaitv, if_neg (not_or.mpr ⟨hArr, hNr⟩)]
  obtain ⟨n, hn⟩ := Nat.exists_eq_add_one_of_ne_zero hNr
  rw [hn]
  have hFirst : Reaches (walkFutexWaitv sqe.addr.toNat (n + 1)) sqe.addr.toNat :=
    (reaches_readBytes (by decide)).bind _
  exact hFirst.bind _

theorem reaches_dispatchWaitid (hInfop : sqe.off.toNat ≠ 0) :
    Reaches (dispatchWaitid sqe) sqe.off.toNat :=
  (Reaches.unless hInfop (reaches_fill (by decide))).bind _

theorem reaches_dispatchPipe (hFds : sqe.addr.toNat ≠ 0) :
    Reaches (dispatchPipe sqe) sqe.addr.toNat := by
  rw [dispatchPipe, if_neg hFds]
  exact (reaches_writeLe (by decide) 42).bind _

end Handlers

end Miring.Dispatch
