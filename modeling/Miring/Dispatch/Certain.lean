import Miring.Dispatch.Valid

/-!
# The bytes that every dispatch accesses

Which bytes a request accesses depends on the memory: on the pointers of an iovec array, or on
the length of a pathname. `Certain sqe` are those that it accesses whatever the memory holds,
and there is a memory in which it accesses no others (`certain_iff`).

So a request with a dangling pointer to such a byte cannot be dispatched unnoticed. That is
what the emulation is for.

Only accesses are counted here, and references are taken to be aligned. A debug build stops at
an unaligned one, so that there the request has no run to the end at all (`Reference.Sound`).
-/

namespace Miring.Dispatch

open Sys Program Trace

/-! ## Statement -/

/-- The pointers of a message header that are read in any case. -/
def InHdrPtrs (hdr a : Nat) : Prop :=
  InBytes (hdr + MsgHdr.msgName) 8 a ∨ InBytes (hdr + MsgHdr.msgControl) 8 a ∨
    InBytes (hdr + MsgHdr.msgIov) 8 a

/-- The bytes that a request accesses in every memory. -/
def Certain (sqe : IoUringSqe) : Nat → Prop :=
  let addr := sqe.addr.toNat
  let off := sqe.off.toNat
  let addr3 := sqe.addr3.toNat
  let len := sqe.len.toNat
  match sqe.opcode.toNat with
  | ioringOpRead | ioringOpReadFixed | ioringOpRecv | ioringOpReadMultishot | ioringOpWrite
  | ioringOpWriteFixed | ioringOpSend | ioringOpSendZc =>
      fun a => addr ≠ 0 ∧ InBytes addr len a
  | ioringOpReadv | ioringOpWritev | ioringOpReadvFixed | ioringOpWritevFixed =>
      fun a => addr ≠ 0 ∧ ∃ i < len, InBytes (addr + iovecSize * i) 8 a
  | ioringOpRecvmsg | ioringOpSendmsg | ioringOpSendmsgZc =>
      fun a => addr ≠ 0 ∧ InHdrPtrs addr a
  | ioringOpTimeout | ioringOpLinkTimeout => fun a => addr ≠ 0 ∧ InBytes addr timespecSize a
  | ioringOpConnect | ioringOpBind => fun a => addr ≠ 0 ∧ InBytes addr off a
  | ioringOpAccept => fun a => (addr ≠ 0 ∧ off ≠ 0) ∧ InBytes off 4 a
  | ioringOpOpenat | ioringOpUnlinkat | ioringOpMkdirat => fun a => addr ≠ 0 ∧ a = addr
  | ioringOpOpenat2 =>
      fun a => addr ≠ 0 ∧ (a = addr ∨ off ≠ 0 ∧ InBytes off openHowSize a)
  | ioringOpStatx => fun a => addr ≠ 0 ∧ a = addr ∨ off ≠ 0 ∧ InBytes off statxSize a
  | ioringOpRenameat | ioringOpSymlinkat | ioringOpLinkat =>
      fun a => (addr ≠ 0 ∧ off ≠ 0) ∧ (a = addr ∨ a = off)
  | ioringOpEpollCtl => fun a => addr ≠ 0 ∧ InBytes addr epollEventSize a
  | ioringOpFilesUpdate => fun a => addr ≠ 0 ∧ InBytes addr (len * 4) a
  | ioringOpProvideBuffers => fun a =>
      (addr ≠ 0 ∧ len ≠ 0 ∧ asUsize sqe.fd ≠ 0) ∧
        (a = addr ∨ a = addr + (saturatingMul (asUsize sqe.fd) len - 1))
  | ioringOpFsetxattr | ioringOpFgetxattr => fun a =>
      addr ≠ 0 ∧ a = addr ∨ off ≠ 0 ∧ InBytes off len a
  | ioringOpSetxattr | ioringOpGetxattr => fun a =>
      addr ≠ 0 ∧ a = addr ∨ off ≠ 0 ∧ InBytes off len a ∨ addr3 ≠ 0 ∧ a = addr3
  | ioringOpEpollWait => fun a => addr ≠ 0 ∧ InBytes addr (len * epollEventSize) a
  | ioringOpFutexWait | ioringOpFutexWake => fun a => addr ≠ 0 ∧ InBytes addr 4 a
  | ioringOpFutexWaitv => fun a =>
      addr ≠ 0 ∧ ∃ i < len, InBytes (addr + futexWaitvSize * i) 20 a
  | ioringOpWaitid => fun a => off ≠ 0 ∧ InBytes off siginfoSize a
  | ioringOpPipe => fun a => addr ≠ 0 ∧ InBytes addr pipeFdsSize a
  | _ => fun _ => False

/-! ## Least footprints -/

section Least

variable {α β : Type} {R R' : Nat → Prop} {x : α}

/-- Every run of the program accesses the bytes of `R`, and a run on zeros accesses no others.
It answers `x`. -/
structure Least (p : UserProgram α) (R : Nat → Prop) (x : α) : Prop where
  reaches : ∀ a, R a → Reaches p a
  attained : (∀ a, R a → a < 2 ^ 64) →
    ∃ tr, Runs p zeros.cells tr x zeros.cells ∧ ∀ a, Touches tr a → R a

theorem least_ret (x : α) : Least (pure x) (fun _ => False) x where
  reaches _ ha := ha.elim
  attained _ := by
    refine ⟨[], rfl, fun a ha => ?_⟩
    rcases ha with ⟨e, he, -⟩
    cases he

theorem Least.congr {p : UserProgram α} (h : Least p R x) (hR : ∀ a, R' a ↔ R a) :
    Least p R' x := by
  obtain rfl : R' = R := funext fun a => propext (hR a)
  exact h

/-- The second program accesses its bytes whatever the first one answers. -/
theorem Least.bind {p : UserProgram β} {b : β} {f : β → UserProgram α} (h : Least p R b)
    (hf : Least (f b) R' x) (hReaches : ∀ b' a, R' a → Reaches (f b') a) :
    Least (p >>= f) (fun a => R a ∨ R' a) x where
  reaches a ha := by
    rcases ha with hFirst | hSecond
    · exact (h.reaches a hFirst).bind f
    · exact .behind p fun b' => hReaches b' a hSecond
  attained hBound := by
    obtain ⟨tr, hRun, hOnly⟩ := h.attained fun a ha => hBound a (.inl ha)
    obtain ⟨tr', hRun', hOnly'⟩ := hf.attained fun a ha => hBound a (.inr ha)
    refine ⟨tr ++ tr', exec_bind_iff.mpr ⟨tr, b, _, tr', hRun, hRun', rfl⟩, fun a ha => ?_⟩
    rcases touches_append.mp ha with hFirst | hSecond
    · exact .inl (hOnly a hFirst)
    · exact .inr (hOnly' a hSecond)

/-- Only the first program accesses memory in any case. -/
theorem Least.stop {p : UserProgram β} {b : β} {f : β → UserProgram α} (h : Least p R b)
    (hf : f b = pure x) : Least (p >>= f) R x := by
  have hRest : Least (f b) (fun _ => False) x := by
    rw [hf]
    exact least_ret x
  exact (h.bind hRest fun _ _ ha => ha.elim).congr fun a => (or_false (R a)).symm.to_iff

theorem Least.seq {p : UserProgram Unit} {q : UserProgram α} (h : Least p R ())
    (hq : Least q R' x) : Least (p >>= fun _ => q) (fun a => R a ∨ R' a) x :=
  h.bind hq fun _ => hq.reaches

/-- A program behind a check. -/
theorem least_ite {c : Prop} [Decidable c] {e : α} {p : UserProgram α} (h : ¬ c → Least p R x) :
    Least (if c then pure e else p) (fun a => ¬ c ∧ R a) (if c then e else x) := by
  by_cases hc : c
  · rw [if_pos hc, if_pos hc]
    exact (least_ret e).congr fun a => iff_of_false (fun ha => ha.1 hc) id
  · rw [if_neg hc, if_neg hc]
    exact (h hc).congr fun a => and_iff_right hc

theorem least_unless {c : Prop} [Decidable c] {p : UserProgram Unit} (h : ¬ c → Least p R ()) :
    Least (if c then pure () else p) (fun a => ¬ c ∧ R a) () :=
  least_ite h

end Least

/-! ### Accesses -/

section Accesses

theorem inBytes_succ {p n a : Nat} : InBytes p (n + 1) a ↔ a = p ∨ InBytes (p + 1) n a := by
  unfold InBytes
  omega

theorem inBytes_zero {p a : Nat} : InBytes p 0 a ↔ False := by
  rw [iff_false, InBytes]
  omega

theorem least_act {o : userSig.Op} {p : Nat} {r : userSig.Res o}
    (hAddr : ∀ r, addr (⟨o, r⟩ : Event userSig) = some p)
    (hSem : p < 2 ^ 64 → memSem (L := Mark) o zeros.cells = some (r, zeros.cells)) :
    Least (.act o .ret : UserProgram (userSig.Res o)) (· = p) r where
  reaches a ha := by
    subst ha
    intro tr x hPath
    obtain ⟨r', tr', -, rfl⟩ := path_act_iff.mp hPath
    exact touches_cons.mpr (.inl (hAddr r'))
  attained hBound := by
    refine ⟨[⟨o, r⟩], exec_act_iff.mpr ⟨r, _, [], hSem (hBound p rfl), rfl, rfl⟩, fun a ha => ?_⟩
    rcases touches_cons.mp ha with hHere | ⟨e, he, -⟩
    · exact (Option.some.inj ((hAddr r).symm.trans hHere)).symm
    · cases he

theorem least_readU8 (p : Nat) : Least (readU8 p) (· = p) 0 :=
  least_act (fun _ => rfl) fun hp => memSem_read_iff.mpr ⟨if_pos hp, rfl⟩

theorem least_writeU8 (p : Nat) : Least (writeU8 p 0) (· = p) () := by
  refine least_act (fun _ => rfl) fun hp => memSem_write_iff.mpr ⟨?_, ?_⟩
  · rw [show zeros.cells p = .byte 0 from if_pos hp]
    simp
  · symm
    exact Function.update_eq_self_iff.mpr (if_pos hp).symm

theorem least_readLe (p n : Nat) : Least (readLe p n) (InBytes p n) 0 := by
  induction n generalizing p with
  | zero => exact (least_ret 0).congr fun _ => inBytes_zero
  | succ n ih =>
    have hRest := (ih (p + 1)).stop (f := fun rest => pure (0 + 256 * rest)) rfl
    refine ((least_readU8 p).bind hRest fun b a ha => ?_).congr fun _ => inBytes_succ
    exact ((ih (p + 1)).reaches a ha).bind _

theorem least_writeLe (p n : Nat) : Least (writeLe p n 0) (InBytes p n) () := by
  induction n generalizing p with
  | zero => exact (least_ret ()).congr fun _ => inBytes_zero
  | succ n ih => exact ((least_writeU8 p).seq (ih (p + 1))).congr fun _ => inBytes_succ

theorem least_fill (p n : Nat) : Least (fill p n) (InBytes p n) () := by
  induction n generalizing p with
  | zero => exact (least_ret ()).congr fun _ => inBytes_zero
  | succ n ih => exact ((least_writeU8 p).seq (ih (p + 1))).congr fun _ => inBytes_succ

theorem least_readBytes (p n : Nat) : Least (readBytes p n) (InBytes p n) () := by
  induction n generalizing p with
  | zero => exact (least_ret ()).congr fun _ => inBytes_zero
  | succ n ih =>
    refine ((least_readU8 p).bind (ih (p + 1)) fun _ => ?_).congr fun _ => inBytes_succ
    exact (ih (p + 1)).reaches

/-- A string of zeros ends where it starts. -/
theorem least_walkCstr (p : Nat) : Least (walkCstr p) (· = p) () := by
  unfold walkCstr
  cases 2 ^ 64 - p with
  | zero => exact (least_readU8 p).stop rfl
  | succ fuel => exact (least_readU8 p).stop rfl

end Accesses

/-! ### Walks -/

section Walks

variable {touch : Nat → Nat → UserProgram Unit}

theorem least_walkIovec (iov total : Nat) :
    Least (walkIovec touch iov total) (InBytes iov 8) total :=
  (least_readLe iov 8).stop rfl

/-- One of the fields of `size` bytes that start an entry of an array. -/
theorem inFields_succ {p step size n a : Nat} :
    (∃ i < n + 1, InBytes (p + step * i) size a) ↔
      InBytes p size a ∨ ∃ i < n, InBytes (p + step + step * i) size a := by
  constructor
  · rintro ⟨i, hi, ha⟩
    cases i with
    | zero => exact .inl ha
    | succ i =>
      rw [Nat.mul_succ, Nat.add_comm (step * i), ← Nat.add_assoc] at ha
      exact .inr ⟨i, by omega, ha⟩
  · rintro (ha | ⟨i, hi, ha⟩)
    · exact ⟨0, by omega, ha⟩
    · refine ⟨i + 1, by omega, ?_⟩
      rw [Nat.mul_succ, Nat.add_comm (step * i), ← Nat.add_assoc]
      exact ha

theorem inFields_zero {p step size a : Nat} :
    (∃ i < 0, InBytes (p + step * i) size a) ↔ False := by
  simp

theorem least_walkIovecs (iov n total : Nat) :
    Least (walkIovecs touch iov n total) (fun a => ∃ i < n, InBytes (iov + iovecSize * i) 8 a)
      total := by
  induction n generalizing iov total with
  | zero => exact (least_ret total).congr fun _ => inFields_zero
  | succ n ih =>
    refine ((least_walkIovec iov total).bind (ih (iov + iovecSize) total) fun b => ?_).congr
      fun _ => inFields_succ
    exact (ih (iov + iovecSize) b).reaches

theorem least_walkHdrBuf (ptr : Nat) (len : UserProgram Nat) :
    Least (walkHdrBuf touch ptr len) (InBytes ptr 8) () :=
  (least_readLe ptr 8).stop rfl

theorem least_walkMsgHdr (hdr : Nat) :
    Least (walkMsgHdr touch hdr) (InHdrPtrs hdr) (asI32 0) :=
  (least_walkHdrBuf _ _).seq ((least_walkHdrBuf _ _).seq ((least_readLe _ 8).stop rfl))

theorem least_walkFutexWaitv (entry n : Nat) :
    Least (walkFutexWaitv entry n) (fun a => ∃ i < n, InBytes (entry + futexWaitvSize * i) 20 a)
      () := by
  induction n generalizing entry with
  | zero => exact (least_ret ()).congr fun _ => inFields_zero
  | succ n ih =>
    exact ((least_readBytes entry 20).seq (ih (entry + futexWaitvSize))).congr
      fun _ => inFields_succ

end Walks

/-! ### Handlers -/

section Handlers

variable {sqe : IoUringSqe}

/-- A handler that touches the `n` bytes at a pointer, after a check. -/
theorem least_pointer {c : Prop} [Decidable c] {e x : Int32} {walk : UserProgram Unit}
    {R : Nat → Prop} (h : Least walk R ()) :
    Least (if c then pure e else do
      walk
      pure x) (fun a => ¬ c ∧ R a) (if c then e else x) :=
  least_ite fun _ => h.stop rfl

/-- The same with a check that the array is not empty. -/
theorem least_array {addr n : Nat} {e x : Int32} {walk : UserProgram Unit} {R : Nat → Prop}
    (h : Least walk R ()) (hEmpty : n = 0 → ∀ a, ¬ R a) :
    Least (if addr = 0 ∨ n = 0 then pure e else do
      walk
      pure x) (fun a => addr ≠ 0 ∧ R a) (if addr = 0 ∨ n = 0 then e else x) := by
  refine (least_pointer h).congr fun a => ?_
  rw [not_or]
  constructor
  · rintro ⟨hAddr, ha⟩
    exact ⟨⟨hAddr, fun hn => hEmpty hn a ha⟩, ha⟩
  · rintro ⟨⟨hAddr, -⟩, ha⟩
    exact ⟨hAddr, ha⟩

theorem least_vectors {touch : Nat → Nat → UserProgram Unit} {iov n : Nat} :
    Least (if iov = 0 ∨ n = 0 then pure 0 else do
      let total ← walkIovecs touch iov n 0
      pure (asI32 total)) (fun a => iov ≠ 0 ∧ ∃ i < n, InBytes (iov + iovecSize * i) 8 a)
      (if iov = 0 ∨ n = 0 then 0 else asI32 0) := by
  have hWalk : Least (do
      let total ← walkIovecs touch iov n 0
      pure (asI32 total)) (fun a => ∃ i < n, InBytes (iov + iovecSize * i) 8 a) (asI32 0) :=
    (least_walkIovecs iov n 0).stop rfl
  refine (least_ite (c := iov = 0 ∨ n = 0) (e := 0) fun _ => hWalk).congr fun a => ?_
  rw [not_or]
  constructor
  · rintro ⟨hIov, i, hi, ha⟩
    exact ⟨⟨hIov, by omega⟩, i, hi, ha⟩
  · rintro ⟨⟨hIov, -⟩, ha⟩
    exact ⟨hIov, ha⟩

theorem not_inBytes_of_zero {p n : Nat} (h : n = 0) (a : Nat) : ¬ InBytes p n a := by
  rw [h]
  exact inBytes_zero.mp

theorem least_dispatchAccept :
    Least (dispatchAccept sqe)
      (fun a => (sqe.addr.toNat ≠ 0 ∧ sqe.off.toNat ≠ 0) ∧ InBytes sqe.off.toNat 4 a) 42 := by
  unfold dispatchAccept
  by_cases h : sqe.addr.toNat ≠ 0 ∧ sqe.off.toNat ≠ 0
  · rw [if_pos h]
    have hWrite : Least (do
        writeLe sqe.off.toNat 4 0
        pure (42 : Int32)) (InBytes sqe.off.toNat 4) 42 :=
      (least_writeLe _ 4).stop rfl
    have hWalk : Least (do
        let addrlen ← readU32 sqe.off.toNat
        (if addrlen = 0 then pure () else fill sqe.addr.toNat addrlen)
        writeLe sqe.off.toNat 4 0
        pure (42 : Int32)) (fun a => InBytes sqe.off.toNat 4 a ∨ InBytes sqe.off.toNat 4 a) 42 :=
      -- a length of zero is read
      (least_readLe _ 4).bind hWrite fun _ a ha => .behind _ fun _ => hWrite.reaches a ha
    refine hWalk.congr fun a => ?_
    rw [or_self]
    exact and_iff_right h
  · rw [if_neg h]
    exact (least_ret 42).congr fun a => iff_of_false (fun ha => h ha.1) id

theorem least_dispatchOpenat2 :
    Least (dispatchOpenat2 sqe) (fun a => sqe.addr.toNat ≠ 0 ∧
      (a = sqe.addr.toNat ∨ sqe.off.toNat ≠ 0 ∧ InBytes sqe.off.toNat openHowSize a))
      (if sqe.addr.toNat = 0 then -14 else 42) :=
  least_ite fun _ => (least_walkCstr _).seq ((least_unless fun _ => least_readBytes _ _).stop rfl)

theorem least_dispatchStatx :
    Least (dispatchStatx sqe) (fun a => sqe.addr.toNat ≠ 0 ∧ a = sqe.addr.toNat ∨
      sqe.off.toNat ≠ 0 ∧ InBytes sqe.off.toNat statxSize a) 0 :=
  (least_unless fun _ => least_walkCstr _).seq
    ((least_unless fun _ => least_fill _ _).stop rfl)

theorem least_dispatchPathname2 :
    Least (dispatchPathname2 sqe) (fun a => (sqe.addr.toNat ≠ 0 ∧ sqe.off.toNat ≠ 0) ∧
      (a = sqe.addr.toNat ∨ a = sqe.off.toNat))
      (if sqe.addr.toNat = 0 ∨ sqe.off.toNat = 0 then -14 else 0) := by
  have hBoth : Least (do
      walkCstr sqe.addr.toNat
      walkCstr sqe.off.toNat
      pure (0 : Int32)) (fun a => a = sqe.addr.toNat ∨ a = sqe.off.toNat) 0 :=
    (least_walkCstr _).seq ((least_walkCstr _).stop rfl)
  refine (least_ite (c := sqe.addr.toNat = 0 ∨ sqe.off.toNat = 0) (e := -14)
    fun _ => hBoth).congr fun a => ?_
  rw [not_or]

theorem least_dispatchProvideBuffers :
    Least (dispatchProvideBuffers sqe) (fun a =>
      (sqe.addr.toNat ≠ 0 ∧ sqe.len.toNat ≠ 0 ∧ asUsize sqe.fd ≠ 0) ∧
        (a = sqe.addr.toNat ∨
          a = sqe.addr.toNat + (saturatingMul (asUsize sqe.fd) sqe.len.toNat - 1)))
      (if sqe.addr.toNat = 0 ∨ sqe.len.toNat = 0 ∨ asUsize sqe.fd = 0 then 0 else 0) := by
  have hLast : Least (do
      let _ ← readU8 (sqe.addr.toNat + (saturatingMul (asUsize sqe.fd) sqe.len.toNat - 1))
      pure (0 : Int32))
      (· = sqe.addr.toNat + (saturatingMul (asUsize sqe.fd) sqe.len.toNat - 1)) 0 :=
    (least_readU8 _).stop rfl
  have hBoth := (least_readU8 sqe.addr.toNat).bind hLast fun _ => hLast.reaches
  refine (least_ite (c := sqe.addr.toNat = 0 ∨ sqe.len.toNat = 0 ∨ asUsize sqe.fd = 0) (e := 0)
    fun _ => hBoth).congr fun a => ?_
  rw [not_or, not_or]

/-- Name, value and path of an extended attribute. -/
theorem least_xattr {touch : Nat → Nat → UserProgram Unit}
    (hTouch : ∀ p n, Least (touch p n) (InBytes p n) ()) {c : Prop} [Decidable c] (x : Int32) :
    Least (do
      (if sqe.addr.toNat = 0 then pure () else walkCstr sqe.addr.toNat)
      (if sqe.off.toNat = 0 ∨ sqe.len.toNat = 0 then pure ()
        else touch sqe.off.toNat sqe.len.toNat)
      (if c ∨ sqe.addr3.toNat = 0 then pure () else walkCstr sqe.addr3.toNat)
      pure x)
      (fun a => sqe.addr.toNat ≠ 0 ∧ a = sqe.addr.toNat ∨
        sqe.off.toNat ≠ 0 ∧ InBytes sqe.off.toNat sqe.len.toNat a ∨
          ¬ c ∧ sqe.addr3.toNat ≠ 0 ∧ a = sqe.addr3.toNat) x := by
  have hValue := least_unless (c := sqe.off.toNat = 0 ∨ sqe.len.toNat = 0)
    fun _ => hTouch sqe.off.toNat sqe.len.toNat
  have hPath := least_unless (c := c ∨ sqe.addr3.toNat = 0) fun _ => least_walkCstr sqe.addr3.toNat
  have hName := least_unless (c := sqe.addr.toNat = 0) fun _ => least_walkCstr sqe.addr.toNat
  have hLast := hPath.stop (f := fun _ => pure x) rfl
  refine (hName.seq (hValue.seq hLast)).congr fun a => ?_
  have hGiven : (¬ sqe.off.toNat = 0 ∧ ¬ sqe.len.toNat = 0) ∧
      InBytes sqe.off.toNat sqe.len.toNat a ↔
        sqe.off.toNat ≠ 0 ∧ InBytes sqe.off.toNat sqe.len.toNat a := by
    rw [and_assoc]
    refine and_congr_right fun _ => and_iff_right_of_imp fun ha hLen => ?_
    exact not_inBytes_of_zero hLen a ha
  rw [not_or, not_or, hGiven, and_assoc]

theorem least_dispatchFutexRead :
    Least (dispatchFutexRead sqe) (fun a => sqe.addr.toNat ≠ 0 ∧ InBytes sqe.addr.toNat 4 a)
      (if sqe.addr.toNat = 0 then -14 else 0) := by
  refine least_ite fun _ => ?_
  exact (least_readLe _ 4).stop (f := fun _ => pure 0) rfl

theorem least_dispatchWaitid :
    Least (dispatchWaitid sqe)
      (fun a => sqe.off.toNat ≠ 0 ∧ InBytes sqe.off.toNat siginfoSize a) 0 :=
  (least_unless fun _ => least_fill _ _).stop (f := fun _ => pure 0) rfl

theorem least_dispatchXattrSet :
    Least (dispatchXattrSet sqe) (fun a => sqe.addr.toNat ≠ 0 ∧ a = sqe.addr.toNat ∨
      sqe.off.toNat ≠ 0 ∧ InBytes sqe.off.toNat sqe.len.toNat a ∨
        ¬ sqe.opcode.toNat ≠ ioringOpSetxattr ∧ sqe.addr3.toNat ≠ 0 ∧ a = sqe.addr3.toNat) 0 :=
  least_xattr least_readBytes 0

theorem least_dispatchXattrGet :
    Least (dispatchXattrGet sqe) (fun a => sqe.addr.toNat ≠ 0 ∧ a = sqe.addr.toNat ∨
      sqe.off.toNat ≠ 0 ∧ InBytes sqe.off.toNat sqe.len.toNat a ∨
        ¬ sqe.opcode.toNat ≠ ioringOpGetxattr ∧ sqe.addr3.toNat ≠ 0 ∧ a = sqe.addr3.toNat)
      (asI32 sqe.len.toNat) :=
  least_xattr least_fill (asI32 sqe.len.toNat)

/-- The operations on descriptors have no path. -/
theorem Least.noPath {p : UserProgram Int32} {P Q R : Nat → Prop} {c : Prop} {x : Int32}
    (h : Least p (fun a => P a ∨ Q a ∨ ¬ c ∧ R a) x) (hc : c) :
    Least p (fun a => P a ∨ Q a) x := by
  refine h.congr fun a => ?_
  rw [or_iff_left fun hPath : ¬ c ∧ R a => hPath.1 hc]

theorem Least.withPath {p : UserProgram Int32} {P Q R : Nat → Prop} {c : Prop} {x : Int32}
    (h : Least p (fun a => P a ∨ Q a ∨ ¬ c ∧ R a) x) (hc : ¬ c) :
    Least p (fun a => P a ∨ Q a ∨ R a) x := by
  refine h.congr fun a => ?_
  rw [and_iff_right hc]

/-- An integer may be written that is not zero. -/
theorem reaches_inBytes_writeLe {p n a : Nat} (h : InBytes p n a) (v : Nat) :
    Reaches (writeLe p n v) a := by
  induction n generalizing p v with
  | zero => exact (inBytes_zero.mp h).elim
  | succ n ih =>
    rcases inBytes_succ.mp h with rfl | hRest
    · exact (reaches_writeU8 a _).bind _
    · exact .behind _ fun _ => ih hRest (v / 256)

theorem inBytes_of_path_writeLe {p n v : Nat} {tr : List (Event userSig)} {u : Unit}
    (hPath : Path (writeLe p n v) tr u) {a : Nat} (ha : Touches tr a) : InBytes p n a := by
  induction n generalizing p v tr with
  | zero =>
    obtain ⟨rfl, -⟩ := path_ret_iff.mp hPath
    rcases ha with ⟨e, he, -⟩
    cases he
  | succ n ih =>
    obtain ⟨r, tr', hRest, rfl⟩ := path_act_iff.mp hPath
    rcases touches_cons.mp ha with hHere | hThere
    · exact inBytes_succ.mpr (.inl (Option.some.inj hHere).symm)
    · exact inBytes_succ.mpr (.inr (ih hRest hThere))

end Handlers

/-! ## Threads and batches -/

section Batches

variable {β : Type} {a : Nat}

theorem Reaches.later {p q : UserProgram β} {tr : List (Event userSig)}
    (h : Reaches p a) (hSteps : Steps p tr q) (hNotYet : ¬ Touches tr a) : Reaches q a := by
  intro tr' x hPath
  exact (touches_append.mp (h _ x (path_of_steps hSteps hPath))).resolve_left hNotYet

end Batches

/-! ## The result -/

section Result

/-- Every run of the program accesses the bytes of `R`, and there is one that accesses no
others. -/
structure LeastFootprint (p : UserProgram Int32) (R : Nat → Prop) : Prop where
  reaches : ∀ a, R a → Reaches p a
  attained : (∀ a, R a → a < 2 ^ 64) →
    ∃ (user : UserMem) (tr : List (Event userSig)) (r : Int32) (m' : UserCells),
      Runs p user.cells tr r m' ∧ ∀ a, Touches tr a → R a

theorem Least.footprint {p : UserProgram Int32} {R : Nat → Prop} {x : Int32} (h : Least p R x) :
    LeastFootprint p R where
  reaches := h.reaches
  attained hBound := by
    obtain ⟨tr, hRun, hOnly⟩ := h.attained hBound
    exact ⟨zeros, tr, x, _, hRun, hOnly⟩

variable {sqe : IoUringSqe}

/-- The descriptors that PIPE writes are not zero, so its memory does not stay as it was. -/
theorem footprint_dispatchPipe : LeastFootprint (dispatchPipe sqe)
    (fun a => sqe.addr.toNat ≠ 0 ∧ InBytes sqe.addr.toNat pipeFdsSize a) where
  reaches a ha := by
    rcases ha with ⟨hAddr, hLow, hHigh⟩
    unfold pipeFdsSize at hHigh
    rw [dispatchPipe, if_neg hAddr]
    by_cases hFirst : a < sqe.addr.toNat + 4
    · exact (reaches_inBytes_writeLe ⟨hLow, hFirst⟩ 42).bind _
    · have hSecond : InBytes (sqe.addr.toNat + 4) 4 a := ⟨by omega, by omega⟩
      exact .behind _ fun _ => (reaches_inBytes_writeLe hSecond 43).bind _
  attained hBound := by
    have hWritable : sqe.addr.toNat ≠ 0 → Writable zeros.cells sqe.addr.toNat pipeFdsSize := by
      intro hAddr a ha
      rw [show zeros.cells a = .byte 0 from if_pos (hBound a ⟨hAddr, ha⟩)]
      simp
    obtain ⟨r, m', hRun⟩ := completes_dispatchPipe.mpr hWritable
    rw [run_eq_exec] at hRun
    obtain ⟨⟨tr, -⟩, hExec, rfl⟩ := Option.map_eq_some_iff.mp hRun
    refine ⟨zeros, tr, r, m', hExec, fun a ha => ?_⟩
    have hPath := path_of_exec hExec
    rw [dispatchPipe] at hPath
    by_cases hNull : sqe.addr.toNat = 0
    · rw [if_pos hNull] at hPath
      obtain ⟨rfl, -⟩ := path_ret_iff.mp hPath
      rcases ha with ⟨e, he, -⟩
      cases he
    · rw [if_neg hNull] at hPath
      obtain ⟨tr₁, u, tr₂, hFirst, hRest, rfl⟩ := path_bind_iff.mp hPath
      obtain ⟨tr₃, u', tr₄, hSecond, hRet, rfl⟩ := path_bind_iff.mp hRest
      obtain ⟨rfl, -⟩ := path_ret_iff.mp hRet
      rw [List.append_nil] at ha
      refine ⟨hNull, ?_⟩
      rcases touches_append.mp ha with ha | ha
      · exact (inBytes_of_path_writeLe hFirst ha).sub (by omega) (by unfold pipeFdsSize; omega)
      · exact (inBytes_of_path_writeLe hSecond ha).sub (by omega) (by unfold pipeFdsSize; omega)

theorem footprint_dispatchOp (sqe : IoUringSqe) : LeastFootprint (dispatchOp sqe) (Certain sqe) := by
  have hLen := not_inBytes_of_zero (p := sqe.addr.toNat) (n := sqe.len.toNat)
  unfold dispatchOp
  split
  case h_64 =>
    have hNone : Certain sqe = fun _ => False := by
      unfold Certain
      split
      all_goals first | rfl | contradiction
    rw [hNone]
    exact (least_ret _).footprint
  all_goals unfold Certain
  case h_1 hOp =>
    rw [hOp]
    unfold dispatchNop
    split
    · exact (least_ret _).footprint
    · exact (least_ret _).footprint
  case h_2 hOp | h_3 hOp | h_4 hOp | h_37 hOp =>
    rw [hOp]
    exact (least_array (least_fill _ _) hLen).footprint
  case h_5 hOp | h_6 hOp | h_7 hOp | h_8 hOp =>
    rw [hOp]
    exact (least_array (least_readBytes _ _) hLen).footprint
  case h_9 hOp | h_10 hOp | h_35 hOp | h_36 hOp =>
    rw [hOp]
    exact least_vectors.footprint
  case h_11 hOp | h_12 hOp | h_13 hOp =>
    rw [hOp]
    exact (least_ite fun _ => least_walkMsgHdr _).footprint
  case h_14 hOp | h_15 hOp =>
    rw [hOp]
    exact (least_pointer (least_readBytes _ _)).footprint
  case h_16 hOp | h_26 hOp =>
    rw [hOp]
    exact (least_array (least_readBytes _ _) not_inBytes_of_zero).footprint
  case h_17 hOp =>
    rw [hOp]
    exact least_dispatchAccept.footprint
  case h_18 hOp | h_21 hOp | h_22 hOp =>
    rw [hOp]
    exact (least_pointer (least_walkCstr _)).footprint
  case h_19 hOp =>
    rw [hOp]
    exact least_dispatchOpenat2.footprint
  case h_20 hOp =>
    rw [hOp]
    exact least_dispatchStatx.footprint
  case h_23 hOp | h_24 hOp | h_25 hOp =>
    rw [hOp]
    exact least_dispatchPathname2.footprint
  case h_27 hOp =>
    rw [hOp]
    exact (least_pointer (least_readBytes _ _)).footprint
  case h_28 hOp =>
    rw [hOp]
    refine (least_array (least_readBytes _ _) fun hZero => ?_).footprint
    exact not_inBytes_of_zero (by omega)
  case h_29 hOp =>
    rw [hOp]
    exact least_dispatchProvideBuffers.footprint
  case h_34 hOp =>
    rw [hOp]
    refine (least_array (least_fill _ _) fun hZero => ?_).footprint
    exact not_inBytes_of_zero (by rw [hZero, Nat.zero_mul])
  case h_30 hOp =>
    have hOther : sqe.opcode.toNat ≠ ioringOpSetxattr := by rw [hOp]; decide
    rw [hOp]
    exact (least_dispatchXattrSet.noPath hOther).footprint
  case h_31 hOp =>
    rw [hOp]
    exact (least_dispatchXattrSet.withPath (not_not.mpr hOp)).footprint
  case h_32 hOp =>
    have hOther : sqe.opcode.toNat ≠ ioringOpGetxattr := by rw [hOp]; decide
    rw [hOp]
    exact (least_dispatchXattrGet.noPath hOther).footprint
  case h_33 hOp =>
    rw [hOp]
    exact (least_dispatchXattrGet.withPath (not_not.mpr hOp)).footprint
  case h_38 hOp | h_39 hOp =>
    rw [hOp]
    exact least_dispatchFutexRead.footprint
  case h_40 hOp =>
    rw [hOp]
    refine (least_array (least_walkFutexWaitv _ _) fun hZero a ha => ?_).footprint
    rcases ha with ⟨i, hi, -⟩
    omega
  case h_41 hOp =>
    rw [hOp]
    exact least_dispatchWaitid.footprint
  case h_42 hOp =>
    rw [hOp]
    exact footprint_dispatchPipe
  -- the handlers that answer a constant
  all_goals
    next hOp =>
      rw [hOp]
      exact (least_ret _).footprint

/-- **What every dispatch accesses.** A byte is certain if and only if the request accesses it in
every user memory, provided that the certain bytes fit into the address space at all. -/
theorem certain_iff (hFits : ∀ a, Certain sqe a → a < 2 ^ 64) (a : Nat) :
    Certain sqe a ↔
      ∀ (user : UserMem) (tr : List (Event userSig)) (r : Int32) (m' : UserCells),
        Runs (dispatchOp sqe) user.cells tr r m' → Touches tr a := by
  have hFootprint := footprint_dispatchOp sqe
  constructor
  · intro ha user tr r m' hRun
    exact hFootprint.reaches a ha tr r (path_of_exec hRun)
  · intro hAll
    obtain ⟨user, tr, r, m', hRun, hOnly⟩ := hFootprint.attained hFits
    exact hOnly a (hAll user tr r m' hRun)

/-- Of an iovec the pointer is read in any case, and the length only if the pointer is not
null. -/
theorem certain_iff_scatterReadv :
    Certain scatterReadv 8192 ∧ ¬ Certain scatterReadv 8200 ∧ ∀ a, Certain scatterReadv a ↔
      ∀ (user : UserMem) (tr : List (Event userSig)) (r : Int32) (m' : UserCells),
        Runs (dispatchOp scatterReadv) user.cells tr r m' → Touches tr a := by
  have hAt : ∀ a, Certain scatterReadv a ↔ ∃ i < 4, InBytes (8192 + iovecSize * i) 8 a :=
    fun a => and_iff_right (show (8192 : UInt64).toNat ≠ 0 by decide)
  refine ⟨(hAt _).mpr ⟨0, by omega, by decide, by decide⟩, fun h => ?_, certain_iff fun a ha => ?_⟩
  · obtain ⟨i, -, hLow, hHigh⟩ := (hAt _).mp h
    unfold iovecSize at hLow hHigh
    omega
  · obtain ⟨i, hi, -, hHigh⟩ := (hAt a).mp ha
    unfold iovecSize at hHigh
    omega

end Result

end Miring.Dispatch
