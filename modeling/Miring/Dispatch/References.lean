import Miring.Dispatch.Needs

/-!
# References

The handlers of the source reach user memory through slices, through a borrowed message header,
and through reads and writes of whole structures. Such a reference must be sound, also where not
all of its bytes are accessed: its address is a multiple of the alignment, it is not larger than
`isize::MAX`, and it is mapped from its first byte to its last. Otherwise a debug build stops
where the reference is made. (The single bytes of a string need nothing but to be readable.)

`tracked` is `dispatch_op` with a list of the references that it makes; without the list it is
the handler (`erase_tracked`). Where a request does not write to the structures it is walking,
the memory before the dispatch tells all of them (`references_of_run`).
-/

namespace Miring.Dispatch

open Sys Program

/-- A reference to the `size` bytes at `addr`. -/
structure Reference where
  addr : Nat
  size : Nat
  align : Nat
  deriving DecidableEq

/-- `isize::MAX` -/
def isizeMax : Nat := 2 ^ 63 - 1

structure Reference.Sound (m : UserCells) (ref : Reference) : Prop where
  aligned : ref.align ∣ ref.addr
  sized : ref.size ≤ isizeMax
  mapped : Writable m ref.addr ref.size

/-! ## The handlers with their references -/

/-- A slice of bytes. -/
def byteSlice (p n : Nat) : Reference := ⟨p, n, 1⟩

/-- `&[Iovec]` -/
def iovecSlice (p n : Nat) : Reference := ⟨p, iovecSize * n, 8⟩

/-- The references of the handlers that make the same ones in every memory. -/
def fixedReferences (sqe : IoUringSqe) : List Reference :=
  let addr := sqe.addr.toNat
  let off := sqe.off.toNat
  let len := sqe.len.toNat
  let nbufs := asUsize sqe.fd
  match sqe.opcode.toNat with
  | ioringOpRead | ioringOpReadFixed | ioringOpRecv | ioringOpReadMultishot
  | ioringOpWrite | ioringOpWriteFixed | ioringOpSend | ioringOpSendZc =>
      if addr = 0 ∨ len = 0 then [] else [byteSlice addr len]
  | ioringOpTimeout | ioringOpLinkTimeout => if addr = 0 then [] else [⟨addr, timespecSize, 8⟩]
  | ioringOpConnect | ioringOpBind => if addr = 0 ∨ off = 0 then [] else [byteSlice addr off]
  | ioringOpOpenat2 => if addr = 0 ∨ off = 0 then [] else [⟨off, openHowSize, 8⟩]
  | ioringOpStatx => if off = 0 then [] else [byteSlice off statxSize]
  | ioringOpEpollCtl => if addr = 0 then [] else [byteSlice addr epollEventSize]
  | ioringOpFilesUpdate => if addr = 0 ∨ len = 0 then [] else [⟨addr, len * 4, 4⟩]
  | ioringOpProvideBuffers =>
      if addr = 0 ∨ len = 0 ∨ nbufs = 0 then [] else [byteSlice addr (saturatingMul nbufs len)]
  | ioringOpFsetxattr | ioringOpSetxattr | ioringOpFgetxattr | ioringOpGetxattr =>
      if off = 0 ∨ len = 0 then [] else [byteSlice off len]
  | ioringOpEpollWait => if addr = 0 ∨ len = 0 then [] else [byteSlice addr (len * epollEventSize)]
  | ioringOpFutexWait | ioringOpFutexWake => if addr = 0 then [] else [⟨addr, 4, 4⟩]
  | ioringOpFutexWaitv =>
      if addr = 0 ∨ len = 0 then [] else [⟨addr, futexWaitvSize * len, 8⟩]
  | ioringOpWaitid => if off = 0 then [] else [byteSlice off siginfoSize]
  | ioringOpPipe => if addr = 0 then [] else [⟨addr, 4, 4⟩, ⟨addr + 4, 4, 4⟩]
  | _ => []

/-- An observer who writes down the references. -/
def tracking (t : Touch) : Observer t (List Reference) where
  buffer p n refs := refs ++ [byteSlice p n]
  array p n refs := refs ++ [iovecSlice p n]
  target p n refs := refs ++ [byteSlice p n]
  visit p n := (fun _ refs => refs ++ [byteSlice p n]) <$> t.run p n
  erase p n := by
    rw [Functor.map_map]
    exact id_map _
  spec h := by
    rw [Runs, exec_map] at h
    obtain ⟨⟨tr, u, m⟩, hTouch, hEnd⟩ := Option.map_eq_some_iff.mp h
    simp only [Prod.mk.injEq] at hEnd
    obtain ⟨-, rfl, rfl⟩ := hEnd
    exact ⟨rfl, t.runs hTouch⟩

def trackVec (t : Touch) (sqe : IoUringSqe) : UserProgram (Int32 × List Reference) :=
  let iovPtr := sqe.addr.toNat
  let nrVecs := sqe.len.toNat
  if iovPtr = 0 ∨ nrVecs = 0 then pure (0, []) else observeArray (tracking t) iovPtr nrVecs []

def trackMsg (t : Touch) (sqe : IoUringSqe) : UserProgram (Int32 × List Reference) :=
  let hdrPtr := sqe.addr.toNat
  if hdrPtr = 0 then pure (-14, [])
  else observeMsgHdr (tracking t) hdrPtr [⟨hdrPtr, MsgHdr.size, 8⟩]

/-- The length is read and written through the same pointer. -/
def trackAccept (sqe : IoUringSqe) : UserProgram (Int32 × List Reference) :=
  let addr := sqe.addr.toNat
  let addrlenPtr := sqe.off.toNat
  if addr ≠ 0 ∧ addrlenPtr ≠ 0 then do
    let addrlen ← readU32 addrlenPtr
    (if addrlen = 0 then pure () else fill addr addrlen)
    writeLe addrlenPtr 4 0
    pure (42, ⟨addrlenPtr, 4, 4⟩ :: if addrlen = 0 then [] else [byteSlice addr addrlen])
  else
    pure (42, [])

/-- `dispatch_op` with the references that it makes. -/
def tracked (sqe : IoUringSqe) : UserProgram (Int32 × List Reference) :=
  match sqe.opcode.toNat with
  | ioringOpReadv | ioringOpReadvFixed => trackVec fillTouch sqe
  | ioringOpWritev | ioringOpWritevFixed => trackVec readTouch sqe
  | ioringOpRecvmsg => trackMsg fillTouch sqe
  | ioringOpSendmsg | ioringOpSendmsgZc => trackMsg readTouch sqe
  | ioringOpAccept => trackAccept sqe
  | _ => (·, fixedReferences sqe) <$> dispatchOp sqe

/-- The dispatch comes to an end, and all its references are sound. -/
def Defined (m : UserCells) (sqe : IoUringSqe) : Prop :=
  ∃ r refs m', run memSem (tracked sqe) m = some ((r, refs), m') ∧ ∀ ref ∈ refs, ref.Sound m

/-! ### Without the references -/

theorem erase_trackVec (t : Touch) (sqe : IoUringSqe) :
    Prod.fst <$> trackVec t sqe =
      (if sqe.addr.toNat = 0 ∨ sqe.len.toNat = 0 then pure 0
      else walkIovecs t.run sqe.addr.toNat sqe.len.toNat 0 >>= fun total =>
        pure (asI32 total)) :=
  erase_unless (erase_observeArray (tracking t) _ _ _)

theorem erase_trackMsg (t : Touch) (sqe : IoUringSqe) :
    Prod.fst <$> trackMsg t sqe =
      if sqe.addr.toNat = 0 then pure (-14) else walkMsgHdr t.run sqe.addr.toNat :=
  erase_unless (erase_observeMsgHdr (tracking t) _ _)

theorem erase_trackAccept (sqe : IoUringSqe) :
    Prod.fst <$> trackAccept sqe = dispatchAccept sqe := by
  change Prod.fst <$> (if _ then _ else _) = if _ then _ else _
  by_cases hGiven : sqe.addr.toNat ≠ 0 ∧ sqe.off.toNat ≠ 0
  · rw [if_pos hGiven, if_pos hGiven]
    simp only [map_bind, map_pure]
  · rw [if_neg hGiven, if_neg hGiven]
    rfl

/-- **The references are only written down.** -/
theorem erase_tracked (sqe : IoUringSqe) : Prod.fst <$> tracked sqe = dispatchOp sqe := by
  unfold tracked
  split
  case h_1 hOp | h_2 hOp =>
    unfold dispatchOp
    rw [hOp]
    exact erase_trackVec fillTouch sqe
  case h_3 hOp | h_4 hOp =>
    unfold dispatchOp
    rw [hOp]
    exact erase_trackVec readTouch sqe
  case h_5 hOp =>
    unfold dispatchOp
    rw [hOp]
    exact erase_trackMsg fillTouch sqe
  case h_6 hOp | h_7 hOp =>
    unfold dispatchOp
    rw [hOp]
    exact erase_trackMsg readTouch sqe
  case h_8 hOp =>
    unfold dispatchOp
    rw [hOp]
    exact erase_trackAccept sqe
  case h_9 =>
    rw [Functor.map_map]
    exact id_map _

/-! ## The references in the memory before -/

def bufferReference (p n : Nat) : List Reference := if p = 0 ∨ n = 0 then [] else [byteSlice p n]

def targetReferences (m : UserCells) (iov : Nat) : Nat → List Reference
  | 0 => []
  | n + 1 =>
      bufferReference (peek m iov 8) (peek m (iov + 8) 8) ++
        targetReferences m (iov + iovecSize) n

/-- An array of iovecs and its targets. -/
def arrayReferences (m : UserCells) (iov n : Nat) : List Reference :=
  if iov = 0 ∨ n = 0 then [] else iovecSlice iov n :: targetReferences m iov n

/-- The name, the control data and the targets. -/
def msgReferences (m : UserCells) (hdr : Nat) : List Reference :=
  bufferReference (peek m (hdr + MsgHdr.msgName) 8) (peek m (hdr + MsgHdr.msgNamelen) 4) ++
  bufferReference (peek m (hdr + MsgHdr.msgControl) 8) (peek m (hdr + MsgHdr.msgControllen) 8) ++
  arrayReferences m (peek m (hdr + MsgHdr.msgIov) 8) (peek m (hdr + MsgHdr.msgIovlen) 8)

/-- The references that a request is going to make. -/
def references (m : UserCells) (sqe : IoUringSqe) : List Reference :=
  let addr := sqe.addr.toNat
  let off := sqe.off.toNat
  match sqe.opcode.toNat with
  | ioringOpReadv | ioringOpReadvFixed | ioringOpWritev | ioringOpWritevFixed =>
      arrayReferences m addr sqe.len.toNat
  | ioringOpRecvmsg | ioringOpSendmsg | ioringOpSendmsgZc =>
      if addr = 0 then [] else ⟨addr, MsgHdr.size, 8⟩ :: msgReferences m addr
  | ioringOpAccept =>
      if addr ≠ 0 ∧ off ≠ 0 then ⟨off, 4, 4⟩ :: bufferReference addr (peek m off 4) else []
  | _ => fixedReferences sqe

theorem mem_bufferReference {p n : Nat} {ref : Reference} :
    ref ∈ bufferReference p n ↔ (p ≠ 0 ∧ n ≠ 0) ∧ ref = byteSlice p n := by
  rw [bufferReference, ← not_or]
  by_cases hNone : p = 0 ∨ n = 0
  · simp [hNone]
  · simp [hNone]

/-- The references to buffers are byte slices. -/
theorem align_of_mem_targetReferences {m : UserCells} {iov n : Nat} {ref : Reference}
    (h : ref ∈ targetReferences m iov n) : ref.align = 1 := by
  induction n generalizing iov with
  | zero => cases h
  | succ n ih =>
    rcases List.mem_append.mp h with hFirst | hRest
    · rw [(mem_bufferReference.mp hFirst).2, byteSlice]
    · exact ih hRest

/-! ### While the structures stay as they are -/

section Spared

variable {t : Touch} {K : Nat → Prop} {m m₀ : UserCells}

/-- The access to a buffer leaves the cells of `K` alone. -/
def Touch.Spares (t : Touch) (K : Nat → Prop) (ref : Reference) : Prop :=
  ∀ m a, K a → t.after m ref.addr ref.size a = m a

theorem spares_read (K : Nat → Prop) (ref : Reference) : readTouch.Spares K ref :=
  fun _ _ _ => rfl

theorem spares_fill {ref : Reference} (h : ∀ a, K a → ¬ InBytes ref.addr ref.size a) :
    fillTouch.Spares K ref :=
  fun _ a ha => if_neg (h a ha)

/-- The targets, by induction on the number of iovecs. -/
theorem tracking_targets {iov n : Nat} (hK : ∀ a, InBytes iov (iovecSize * n) a → K a)
    (hSame : ∀ a, K a → m a = m₀ a)
    (hSpares : ∀ ref ∈ targetReferences m₀ iov n, t.Spares K ref) (refs : List Reference) :
    (tracking t).targets (targets t m iov n) refs = refs ++ targetReferences m₀ iov n := by
  induction n generalizing iov m refs with
  | zero => exact (List.append_nil refs).symm
  | succ n ih =>
    have hBytes : ∀ k, k ≤ 8 → peek m (iov + k) 8 = peek m₀ (iov + k) 8 := by
      intro k hk
      refine peek_congr fun a ha => hSame a (hK a (ha.sub (by omega) ?_))
      rw [Nat.mul_succ]
      unfold iovecSize
      omega
    have hBase : peek m iov 8 = peek m₀ iov 8 := hBytes 0 (Nat.zero_le 8)
    have hRest : ∀ a, InBytes (iov + iovecSize) (iovecSize * n) a → K a := by
      intro a ha
      refine hK a (ha.sub (by omega) ?_)
      rw [Nat.mul_succ]
      omega
    rw [targetReferences] at hSpares ⊢
    rw [targets, hBase, hBytes 8 (Nat.le_refl 8)]
    by_cases hNone : peek m₀ iov 8 = 0 ∨ peek m₀ (iov + 8) 8 = 0
    · rw [bufferReference, if_pos hNone] at hSpares ⊢
      rw [if_pos hNone]
      exact ih hRest hSame hSpares refs
    · rw [bufferReference, if_neg hNone] at hSpares ⊢
      rw [if_neg hNone, ← List.append_assoc]
      refine ih hRest (fun a ha => ?_) (fun ref hRef => ?_) _
      · exact (hSpares _ (List.mem_append_left _ List.mem_cons_self) m a ha).trans (hSame a ha)
      · exact hSpares ref (List.mem_append_right _ hRef)

theorem tracking_hdrBuf (m : UserCells) (ptr len : Nat) (refs : List Reference) :
    (tracking t).hdrBuf m ptr len refs = refs ++ bufferReference (peek m ptr 8) len := by
  rw [Observer.hdrBuf, bufferReference]
  split
  · exact (List.append_nil refs).symm
  · rfl

theorem afterHdrBuf_spared {ptr len : Nat}
    (h : ∀ ref ∈ bufferReference (peek m ptr 8) len, t.Spares K ref) :
    ∀ a, K a → afterHdrBuf t m ptr len a = m a := by
  intro a ha
  rw [afterHdrBuf]
  rw [bufferReference] at h
  split at h
  · rw [if_pos ‹_›]
  · rw [if_neg ‹_›]
    exact h _ List.mem_cons_self m a ha

/-- The header and its iovecs are found as they were. -/
theorem tracking_msg {hdr : Nat} (hHdr : ∀ a, InBytes hdr MsgHdr.size a → K a)
    (hIov : ∀ a, InMsgIov m hdr a → K a)
    (hSpares : ∀ ref ∈ msgReferences m hdr, ref.align = 1 → t.Spares K ref)
    (refs : List Reference) :
    (tracking t).msg m hdr refs = refs ++ msgReferences m hdr := by
  have hField : ∀ {m' : UserCells} {k n : Nat}, (∀ a, K a → m' a = m a) → k + n ≤ MsgHdr.size →
      peek m' (hdr + k) n = peek m (hdr + k) n :=
    fun h hkn => peek_congr fun a ha => h a (hHdr a (ha.field hkn))
  have hAlign : ∀ {p n : Nat} {ref : Reference}, ref ∈ bufferReference p n → ref.align = 1 := by
    intro p n ref h
    rw [(mem_bufferReference.mp h).2, byteSlice]
  rw [msgReferences] at hSpares ⊢
  have hName := fun ref h => hSpares ref
    (List.mem_append_left _ (List.mem_append_left _ h)) (hAlign h)
  have hControl := fun ref h => hSpares ref
    (List.mem_append_left _ (List.mem_append_right _ h)) (hAlign h)
  have hSame₁ := afterHdrBuf_spared hName
  have hSame₂ : ∀ a, K a → afterHdrBufs t m hdr a = m a := by
    intro a ha
    rw [afterHdrBufs, hField hSame₁ (by decide)]
    refine (afterHdrBuf_spared (fun ref h => hControl ref ?_) a ha).trans (hSame₁ a ha)
    rwa [hField hSame₁ (by decide)] at h
  rw [Observer.msg, Observer.hdrBufs, tracking_hdrBuf, tracking_hdrBuf,
    hField hSame₁ (by decide), hField hSame₁ (by decide), hField hSame₂ (by decide),
    hField hSame₂ (by decide), arrayReferences]
  by_cases hNone : peek m (hdr + MsgHdr.msgIov) 8 = 0 ∨ peek m (hdr + MsgHdr.msgIovlen) 8 = 0
  · rw [if_pos hNone, if_pos hNone, List.append_nil, List.append_assoc]
  · rw [arrayReferences, if_neg hNone] at hSpares
    rw [if_neg hNone, if_neg hNone, tracking_targets
      (fun a ha => hIov a ⟨(not_or.mp hNone).1, ha⟩) hSame₂ fun ref h =>
        hSpares ref (List.mem_append_right _ (List.mem_cons_of_mem _ h))
          (align_of_mem_targetReferences h)]
    simp [tracking]

end Spared

/-! ### A dispatch -/

section Tracked

variable {m m' : UserCells} {sqe : IoUringSqe} {r : Int32} {refs : List Reference}
  {tr : List (Event userSig)}

/-- What the references to buffers cover, the kernel may write. -/
theorem inTargets_of_reference {iov n a : Nat} {ref : Reference}
    (h : ref ∈ targetReferences m iov n) (ha : InBytes ref.addr ref.size a) :
    InTargets m iov n a := by
  induction n generalizing iov with
  | zero => cases h
  | succ n ih =>
    rcases List.mem_append.mp h with hFirst | hRest
    · obtain ⟨⟨hBase, -⟩, rfl⟩ := mem_bufferReference.mp hFirst
      exact inTargets_succ.mpr (.inl ⟨hBase, ha⟩)
    · exact inTargets_succ.mpr (.inr (ih hRest))

theorem inHdrBuf_of_reference {ptr len a : Nat} {ref : Reference}
    (h : ref ∈ bufferReference (peek m ptr 8) len) (ha : InBytes ref.addr ref.size a) :
    InHdrBuf m ptr len a := by
  obtain ⟨⟨hBase, -⟩, rfl⟩ := mem_bufferReference.mp h
  exact ⟨hBase, ha⟩

theorem inMsgBufs_of_reference {hdr a : Nat} {ref : Reference} (h : ref ∈ msgReferences m hdr)
    (hAlign : ref.align = 1) (ha : InBytes ref.addr ref.size a) : InMsgBufs m hdr a := by
  rcases List.mem_append.mp h with hBufs | hArray
  · rcases List.mem_append.mp hBufs with hName | hControl
    · exact .inl (inHdrBuf_of_reference hName ha)
    · exact .inr (.inl (inHdrBuf_of_reference hControl ha))
  · rw [arrayReferences] at hArray
    split at hArray
    · cases hArray
    · next hSome =>
      rcases List.mem_cons.mp hArray with rfl | hTargets
      · cases hAlign
      · exact .inr (.inr ⟨(not_or.mp hSome).1, inTargets_of_reference hTargets ha⟩)

theorem references_trackVec (t : Touch)
    (hSpares : sqe.addr.toNat ≠ 0 →
      ∀ ref ∈ targetReferences m sqe.addr.toNat sqe.len.toNat,
        t.Spares (InBytes sqe.addr.toNat (iovecSize * sqe.len.toNat)) ref)
    (h : Runs (trackVec t sqe) m tr (r, refs) m') :
    refs = arrayReferences m sqe.addr.toNat sqe.len.toNat := by
  change Runs (if _ then _ else _) _ _ _ _ at h
  rw [arrayReferences]
  by_cases hNone : sqe.addr.toNat = 0 ∨ sqe.len.toNat = 0
  · rw [if_pos hNone] at h ⊢
    exact congrArg Prod.snd (runs_ret h).1
  · rw [if_neg hNone] at h ⊢
    have hNotes := (Prod.mk.inj (runs_observeArray (tracking t) h)).2
    rw [hNotes, tracking_targets (fun _ ha => ha) (fun _ _ => rfl)
      (hSpares (not_or.mp hNone).1)]
    rfl

theorem references_trackMsg (t : Touch)
    (hSpares : sqe.addr.toNat ≠ 0 → ∀ ref ∈ msgReferences m sqe.addr.toNat, ref.align = 1 →
      t.Spares (fun a => InBytes sqe.addr.toNat MsgHdr.size a ∨ InMsgIov m sqe.addr.toNat a) ref)
    (h : Runs (trackMsg t sqe) m tr (r, refs) m') :
    refs = if sqe.addr.toNat = 0 then [] else
      ⟨sqe.addr.toNat, MsgHdr.size, 8⟩ :: msgReferences m sqe.addr.toNat := by
  change Runs (if _ then _ else _) _ _ _ _ at h
  by_cases hNull : sqe.addr.toNat = 0
  · rw [if_pos hNull] at h ⊢
    exact congrArg Prod.snd (runs_ret h).1
  · rw [if_neg hNull] at h ⊢
    have hNotes := (Prod.mk.inj (runs_observeMsgHdr (tracking t) h)).2
    rw [hNotes, tracking_msg (fun _ => .inl) (fun _ => .inr) (hSpares hNull),
      List.singleton_append]

theorem references_trackAccept (h : Runs (trackAccept sqe) m tr (r, refs) m') :
    refs = if sqe.addr.toNat ≠ 0 ∧ sqe.off.toNat ≠ 0 then
      ⟨sqe.off.toNat, 4, 4⟩ :: bufferReference sqe.addr.toNat (peek m sqe.off.toNat 4) else [] := by
  change Runs (if _ then _ else _) _ _ _ _ at h
  by_cases hGiven : sqe.addr.toNat ≠ 0 ∧ sqe.off.toNat ≠ 0
  · rw [if_pos hGiven] at h ⊢
    obtain ⟨tr₁, hRest⟩ := runs_readLe_bind h
    obtain ⟨tr₂, u, m₁, tr₃, -, hRest⟩ := runs_bind hRest
    obtain ⟨tr₄, v, m₂, tr₅, -, hRet⟩ := runs_bind hRest
    have hRefs := congrArg Prod.snd (runs_ret hRet).1
    rw [bufferReference]
    simp only [hGiven.1, false_or]
    exact hRefs
  · rw [if_neg hGiven] at h ⊢
    exact congrArg Prod.snd (runs_ret h).1

/-- **The memory before tells the references** of a dispatch that does not write to the
structures it is walking. -/
theorem references_of_run (hApart : VectorsApart m sqe)
    (h : Runs (tracked sqe) m tr (r, refs) m') : refs = references m sqe := by
  unfold VectorsApart at hApart
  unfold tracked at h
  unfold references
  split at h
  case h_1 hOp | h_2 hOp =>
    rw [hOp] at hApart
    refine references_trackVec fillTouch (fun hNull ref hRef => spares_fill fun a ha hIn => ?_) h
    exact hApart hNull a ha (inTargets_of_reference hRef hIn)
  case h_3 | h_4 =>
    exact references_trackVec readTouch (fun _ ref _ => spares_read _ ref) h
  case h_5 hOp =>
    rw [hOp] at hApart
    refine references_trackMsg fillTouch
      (fun hNull ref hRef hAlign => spares_fill fun a ha hIn => ?_) h
    exact hApart hNull a ha (inMsgBufs_of_reference hRef hAlign hIn)
  case h_6 | h_7 =>
    exact references_trackMsg readTouch (fun _ ref _ _ => spares_read _ ref) h
  case h_8 => exact references_trackAccept h
  case h_9 =>
    rw [Runs, exec_map] at h
    obtain ⟨x, -, hEnd⟩ := Option.map_eq_some_iff.mp h
    exact (Prod.mk.inj (Prod.mk.inj (Prod.mk.inj hEnd).2).1).2.symm

end Tracked

end Miring.Dispatch
