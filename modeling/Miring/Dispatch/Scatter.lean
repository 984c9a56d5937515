import Miring.Dispatch.Outputs

/-!
# The four walks over an iovec array

READV, WRITEV, RECVMSG and SENDMSG walk an iovec array, each with a loop of its own. On one
array, the vectored request and the message without a name or control data run alike, in every
memory. A walk that reads leaves the memory as it was, and where it ends, the walk that writes
ends with the same result, provided that it does not write to the array (`walkers_agree`).

The latter is shown by induction on the number of iovecs. What has been written so far cannot
unmap a target, and the rest of the array still is as it was at the start.
-/

namespace Miring.Dispatch

open Sys Program

/-! ## Completed accesses -/

section Accesses

variable {m m' : UserCells}

theorem run_readU8_bind_iff {α : Type} {p : Nat} {f : UInt8 → UserProgram α} {a : α} :
    run memSem (readU8 p >>= f) m = some (a, m') ↔
      ∃ b, m p = .byte b ∧ run memSem (f b) m = some (a, m') := by
  rw [run_bind_iff]
  constructor
  · rintro ⟨b, m₁, hRead, hRest⟩
    obtain ⟨hByte, rfl⟩ := memSem_read_iff.mp ((run_perform _ _).symm.trans hRead)
    exact ⟨b, hByte, hRest⟩
  · rintro ⟨b, hByte, hRest⟩
    exact ⟨b, m, (run_perform _ _).trans (memSem_read_iff.mpr ⟨hByte, rfl⟩), hRest⟩

theorem run_readLe_iff {p n v : Nat} :
    run memSem (readLe p n) m = some (v, m') ↔ HoldsLe m p n v ∧ m' = m := by
  induction n generalizing p v m' with
  | zero =>
    constructor
    · intro h
      obtain ⟨rfl, rfl⟩ := Prod.mk.inj (Option.some.inj h)
      exact ⟨rfl, rfl⟩
    · rintro ⟨rfl, rfl⟩
      rfl
  | succ n ih =>
    rw [readLe, run_readU8_bind_iff]
    constructor
    · rintro ⟨b, hByte, hRest⟩
      obtain ⟨rest, m₁, hLoop, hRet⟩ := run_bind_iff.mp hRest
      obtain ⟨hHolds, rfl⟩ := ih.mp hLoop
      obtain ⟨rfl, rfl⟩ := Prod.mk.inj (Option.some.inj hRet)
      have hLt := UInt8.toNat_lt b
      have hLow : UInt8.ofNat (b.toNat + 256 * rest) = b := by
        rw [← UInt8.toNat_inj, UInt8.toNat_ofNat']
        omega
      have hHigh : (b.toNat + 256 * rest) / 256 = rest := by omega
      rw [HoldsLe, hLow, hHigh]
      exact ⟨⟨hByte, hHolds⟩, rfl⟩
    · rintro ⟨⟨hByte, hHolds⟩, rfl⟩
      have hValue : (UInt8.ofNat v).toNat + 256 * (v / 256) = v := by
        rw [UInt8.toNat_ofNat']
        omega
      refine ⟨_, hByte, ?_⟩
      rw [run_bind_of (ih.mpr ⟨hHolds, rfl⟩), hValue]
      rfl

theorem peek_of_holdsLe {p n v : Nat} (h : HoldsLe m p n v) : peek m p n = v := by
  induction n generalizing p v with
  | zero => exact h.symm
  | succ n ih =>
    obtain ⟨hByte, hRest⟩ := h
    rw [peek, byteAt, hByte, ih hRest, UInt8.toNat_ofNat']
    omega

theorem mapped_of_run {p n : Nat} {u : Unit}
    (h : run memSem (readBytes p n) m = some (u, m')) :
    ∀ a, InBytes p n a → m a ≠ .unmapped := by
  induction n generalizing p with
  | zero =>
    intro a ha
    exact absurd ha (not_inBytes_zero p a)
  | succ n ih =>
    intro a ha
    obtain ⟨b, hByte, hRest⟩ := run_readU8_bind_iff.mp h
    by_cases hHere : a = p
    · rw [hHere, hByte]
      nofun
    · obtain ⟨hLow, hHigh⟩ := ha
      exact ih hRest a ⟨by omega, by omega⟩

/-- A range that is mapped can be filled. -/
theorem exists_run_fill {p n : Nat} (h : ∀ a, InBytes p n a → m a ≠ .unmapped) :
    ∃ m', run memSem (fill p n) m = some ((), m') := by
  induction n generalizing p m with
  | zero => exact ⟨m, rfl⟩
  | succ n ih =>
    have hWrite : run memSem (writeU8 p 0) m = some ((), Function.update m p (.byte 0)) :=
      (run_perform _ _).trans (memSem_write_iff.mpr ⟨h p ⟨Nat.le_refl p, by omega⟩, rfl⟩)
    rw [fill, run_bind_of hWrite]
    apply ih
    intro a ha
    have hOut : a ≠ p := fun hHere => by unfold InBytes at ha; omega
    rw [Function.update_of_ne hOut]
    exact h a (ha.sub (by omega) (by omega))

/-- The read of an integer in a completed run. -/
theorem run_readLe_bind_iff {α : Type} {p n : Nat} {f : Nat → UserProgram α} {a : α} :
    run memSem (readLe p n >>= f) m = some (a, m') ↔
      ∃ v, HoldsLe m p n v ∧ run memSem (f v) m = some (a, m') := by
  rw [run_bind_iff]
  constructor
  · rintro ⟨v, m₁, hRead, hRest⟩
    obtain ⟨hHolds, rfl⟩ := run_readLe_iff.mp hRead
    exact ⟨v, hHolds, hRest⟩
  · rintro ⟨v, hHolds, hRest⟩
    exact ⟨v, m, run_readLe_iff.mpr ⟨hHolds, rfl⟩, hRest⟩

theorem run_readUsize_bind {α : Type} {p v : Nat} (f : Nat → UserProgram α)
    (h : HoldsLe m p 8 v) : run memSem (readUsize p >>= f) m = run memSem (f v) m :=
  run_bind_of (run_readLe_iff.mpr ⟨h, rfl⟩)

end Accesses

/-! ## A message with the same iovecs -/

section Message

variable {m : UserCells} {touch : Nat → Nat → UserProgram Unit}

/-- A message header for the `n` iovecs at `iov`, without a name or control data. -/
structure ScatterHeader (m : UserCells) (hdr iov n : Nat) : Prop where
  nonnull : hdr ≠ 0
  name : HoldsLe m (hdr + MsgHdr.msgName) 8 0
  control : HoldsLe m (hdr + MsgHdr.msgControl) 8 0
  iov : HoldsLe m (hdr + MsgHdr.msgIov) 8 iov
  iovlen : HoldsLe m (hdr + MsgHdr.msgIovlen) 8 n

theorem run_walkHdrBuf_null {ptr : Nat} (len : UserProgram Nat) (h : HoldsLe m ptr 8 0) :
    run memSem (walkHdrBuf touch ptr len) m = some ((), m) :=
  run_readUsize_bind _ h

/-- The walk over the message is the walk over its iovecs. -/
theorem run_walkMsgHdr {hdr iov n : Nat} (h : ScatterHeader m hdr iov n) :
    run memSem (walkMsgHdr touch hdr) m =
      run memSem (if iov = 0 ∨ n = 0 then pure 0 else do
        let total ← walkIovecs touch iov n 0
        pure (asI32 total)) m := by
  rw [walkMsgHdr, run_bind_of (run_walkHdrBuf_null _ h.name),
    run_bind_of (run_walkHdrBuf_null _ h.control), run_readUsize_bind _ h.iov]
  by_cases hNull : iov = 0
  · rw [if_pos hNull, if_pos (.inl hNull)]
    rfl
  · rw [if_neg hNull, run_readUsize_bind _ h.iovlen]
    by_cases hEmpty : n = 0
    · rw [if_pos hEmpty, if_pos (.inr hEmpty)]
      rfl
    · rw [if_neg hEmpty, if_neg (not_or.mpr ⟨hNull, hEmpty⟩)]

end Message

/-! ## The walk that reads and the walk that writes -/

section Walks

variable {m m₀ m' : UserCells}

/-- One iovec, which is not in its own target: the memory `m₀` is read, and `m` is written. -/
theorem exists_run_walkIovec {iov total total' : Nat}
    (hSame : ∀ a, InBytes iov iovecSize a → m a = m₀ a)
    (hApart : ∀ a, InBytes iov iovecSize a → ¬ InTarget m₀ iov a)
    (hMapped : ∀ a, m₀ a ≠ .unmapped → m a ≠ .unmapped)
    (h : run memSem (walkIovec readBytes iov total) m₀ = some (total', m')) :
    ∃ m₁, run memSem (walkIovec fill iov total) m = some (total', m₁) := by
  have hField : ∀ {k v}, k + 8 ≤ iovecSize → HoldsLe m₀ (iov + k) 8 v → HoldsLe m (iov + k) 8 v := by
    intro k v hk
    refine holdsLe_congr fun a ha => hSame a (ha.sub (by omega) ?_)
    omega
  obtain ⟨base, hBase, hRest⟩ := run_readLe_bind_iff.mp h
  have hBase' : HoldsLe m iov 8 base := hField (k := 0) (by decide) hBase
  rw [walkIovec, run_readUsize_bind _ hBase']
  by_cases hNull : base = 0
  · rw [if_pos hNull] at hRest ⊢
    obtain ⟨rfl, -⟩ := Prod.mk.inj (Option.some.inj hRest)
    exact ⟨m, rfl⟩
  · rw [if_neg hNull] at hRest ⊢
    obtain ⟨len, hLen, hRest⟩ := run_readLe_bind_iff.mp hRest
    rw [run_readUsize_bind _ (hField (by decide) hLen)]
    by_cases hEmpty : len = 0
    · rw [if_pos hEmpty] at hRest ⊢
      obtain ⟨rfl, -⟩ := Prod.mk.inj (Option.some.inj hRest)
      exact ⟨m, rfl⟩
    · rw [if_neg hEmpty] at hRest ⊢
      obtain ⟨u, m₁, hTouch, hTail⟩ := run_bind_iff.mp hRest
      rw [(keeps_readBytes base len).run hTouch] at hTail
      obtain ⟨added, hAdded, hRet⟩ := run_readLe_bind_iff.mp hTail
      obtain ⟨rfl, -⟩ := Prod.mk.inj (Option.some.inj hRet)
      obtain ⟨m₂, hFill⟩ := exists_run_fill fun a ha => hMapped a (mapped_of_run hTouch a ha)
      -- the length is found again, since the target is elsewhere
      have hFound : HoldsLe m₂ (iov + 8) 8 added := by
        refine holdsLe_congr (fun a ha => ?_) (hField (by decide) hAdded)
        apply ((sets_fill base len).run hFill).outside
        intro hIn
        refine hApart a (ha.sub (by omega) (by unfold iovecSize; omega)) ?_
        rw [InTarget, peek_of_holdsLe hBase, peek_of_holdsLe hLen]
        exact ⟨hNull, hIn⟩
      exact ⟨m₂, (run_bind_of hFill).trans (run_readUsize_bind _ hFound)⟩

/-- The loop, by induction on the number of iovecs. -/
theorem exists_run_walkIovecs {iov n total total' : Nat} (hArray : ArrayIntact m₀ m iov n)
    (hMapped : ∀ a, m₀ a ≠ .unmapped → m a ≠ .unmapped)
    (h : run memSem (walkIovecs readBytes iov n total) m₀ = some (total', m')) :
    ∃ m₁, run memSem (walkIovecs fill iov n total) m = some (total', m₁) := by
  induction n generalizing iov total m with
  | zero =>
    obtain ⟨rfl, -⟩ := Prod.mk.inj (Option.some.inj h)
    exact ⟨m, rfl⟩
  | succ n ih =>
    obtain ⟨total₁, m₁, hOne, hLoop⟩ := run_bind_iff.mp h
    obtain ⟨m₂, hWalk⟩ := exists_run_walkIovec hArray.head hArray.ownTarget hMapped hOne
    rw [(keeps_walkIovec keeps_readBytes iov total).run hOne] at hLoop
    have hFilled := (sets_walkIovec iov total).run hWalk
    rw [walkIovecs, run_bind_of hWalk]
    refine ih (hArray.tail (hFilled.congr fun a => (hArray.inTarget a).symm)) ?_ hLoop
    intro a ha
    exact hFilled.mapped (hMapped a ha)

end Walks

/-! ## The result -/

section Result

variable {m : UserCells} {vec msg : IoUringSqe}

/-- The four walks over the iovecs of the request `vec`, which are also those of the message of
`msg`. -/
structure WalkersAgree (m : UserCells) (vec msg : IoUringSqe) : Prop where
  read : run memSem (dispatchReadv vec) m = run memSem (dispatchRecvmsg msg) m
  write : run memSem (dispatchWritev vec) m = run memSem (dispatchSendmsg msg) m
  write_keeps : ∀ r m', run memSem (dispatchWritev vec) m = some (r, m') → m' = m
  results_eq : ∀ r r' m₁ m₂, run memSem (dispatchReadv vec) m = some (r, m₁) →
    run memSem (dispatchWritev vec) m = some (r', m₂) → r = r'
  /-- where the gather buffers can be read, the scatter buffers can be written -/
  read_of_write : ∀ r m', run memSem (dispatchWritev vec) m = some (r, m') →
    ∃ m₁, run memSem (dispatchReadv vec) m = some (r, m₁)

theorem exists_run_dispatchReadv
    (hApart : ∀ a, InBytes vec.addr.toNat (iovecSize * vec.len.toNat) a →
      ¬ InTargets m vec.addr.toNat vec.len.toNat a) {r : Int32} {m' : UserCells}
    (h : run memSem (dispatchWritev vec) m = some (r, m')) :
    ∃ m₁, run memSem (dispatchReadv vec) m = some (r, m₁) := by
  unfold dispatchWritev at h
  unfold dispatchReadv
  by_cases hNull : vec.addr.toNat = 0 ∨ vec.len.toNat = 0
  · rw [if_pos hNull] at h ⊢
    obtain ⟨rfl, -⟩ := Prod.mk.inj (Option.some.inj h)
    exact ⟨m, rfl⟩
  · rw [if_neg hNull] at h ⊢
    obtain ⟨total, m₁, hWalk, hRet⟩ := run_bind_iff.mp h
    obtain ⟨rfl, -⟩ := Prod.mk.inj (Option.some.inj hRet)
    obtain ⟨m₂, hRead⟩ := exists_run_walkIovecs (.start hApart) (fun _ => id) hWalk
    exact ⟨m₂, run_bind_of hRead⟩

/-- **The walks agree** on one iovec array, whatever its length and the lengths in it. -/
theorem walkers_agree
    (hHeader : ScatterHeader m msg.addr.toNat vec.addr.toNat vec.len.toNat)
    (hApart : ∀ a, InBytes vec.addr.toNat (iovecSize * vec.len.toNat) a →
      ¬ InTargets m vec.addr.toNat vec.len.toNat a) : WalkersAgree m vec msg where
  read := by
    rw [dispatchRecvmsg, if_neg hHeader.nonnull, run_walkMsgHdr hHeader]
    rfl
  write := by
    rw [dispatchSendmsg, if_neg hHeader.nonnull, run_walkMsgHdr hHeader]
    rfl
  write_keeps _ _ h := (keeps_dispatchWritev vec).run h
  results_eq r r' m₁ m₂ hRead hWrite := by
    obtain ⟨m₃, h⟩ := exists_run_dispatchReadv hApart hWrite
    exact (Prod.mk.inj (Option.some.inj (hRead.symm.trans h))).1
  read_of_write _ _ h := exists_run_dispatchReadv hApart h

/-- A message with the iovecs of `scatterReadv`. -/
def scatterMsg : IoUringSqe := { opcode := 10, addr := 4096 }

theorem walkers_agree_scatterMem : WalkersAgree scatterMem scatterReadv scatterMsg ∧
    (run memSem (dispatchSendmsg scatterMsg) scatterMem).map Prod.fst = some 8 := by
  refine ⟨walkers_agree ⟨?_, ?_, ?_, ?_, ?_⟩ scatterMem_apart, ?_⟩
  all_goals decide +kernel

end Result

end Miring.Dispatch
