import Miring.Program.Progress
import Miring.Dispatch.Scatter

/-!
# What the walks need

The accesses of the dispatch handlers come to an end if and only if the memory they reach is
fit for them. A buffer that the kernel reads must be initialised and one it writes mapped, a
string must be NUL-terminated, and an iovec array or a message header must be readable and lead
to such buffers. A null pointer needs nothing, and neither does a length of 0.

The walks over iovecs and messages are the same for both directions. So they are treated once,
for an access `touch` that needs `ok`. While the kernel writes to the buffers it must not write
to what it is still walking (`Steady`).
-/

namespace Miring.Dispatch

open Sys Program

/-! ## Fit memory -/

/-- The `n` bytes at `p` are initialised. -/
def Readable (m : UserCells) (p n : Nat) : Prop := ∀ a, InBytes p n a → ∃ b, m a = .byte b

/-- The `n` bytes at `p` are mapped. -/
def Writable (m : UserCells) (p n : Nat) : Prop := ∀ a, InBytes p n a → m a ≠ .unmapped

/-- The bytes from `p` on are initialised up to a NUL. -/
def Terminated (m : UserCells) (p : Nat) : Prop := ∃ n, Readable m p n ∧ m (p + n) = .byte 0

/-- The iovec at `iov` can be read, and its target is `ok`. -/
def ValidIovec (ok : Nat → Nat → Prop) (m : UserCells) (iov : Nat) : Prop :=
  Readable m iov 8 ∧ (peek m iov 8 ≠ 0 →
    Readable m (iov + 8) 8 ∧ ok (peek m iov 8) (peek m (iov + 8) 8))

def ValidIovecs (ok : Nat → Nat → Prop) (m : UserCells) (iov n : Nat) : Prop :=
  ∀ i < n, ValidIovec ok m (iov + iovecSize * i)

/-- The pointer at `ptr` and the length in the `k` bytes at `q` can be read, and the buffer is
`ok`. -/
def ValidHdrBuf (ok : Nat → Nat → Prop) (m : UserCells) (ptr q k : Nat) : Prop :=
  Readable m ptr 8 ∧ (peek m ptr 8 ≠ 0 → Readable m q k ∧ ok (peek m ptr 8) (peek m q k))

def ValidMsg (ok : Nat → Nat → Prop) (m : UserCells) (hdr : Nat) : Prop :=
  ValidHdrBuf ok m (hdr + MsgHdr.msgName) (hdr + MsgHdr.msgNamelen) 4 ∧
  ValidHdrBuf ok m (hdr + MsgHdr.msgControl) (hdr + MsgHdr.msgControllen) 8 ∧
  Readable m (hdr + MsgHdr.msgIov) 8 ∧ (peek m (hdr + MsgHdr.msgIov) 8 ≠ 0 →
    Readable m (hdr + MsgHdr.msgIovlen) 8 ∧
      ValidIovecs ok m (peek m (hdr + MsgHdr.msgIov) 8) (peek m (hdr + MsgHdr.msgIovlen) 8))

/-! ## Accesses -/

section Accesses

variable {α : Type} {m m' : UserCells}

theorem readable_zero (m : UserCells) (p : Nat) : Readable m p 0 :=
  fun a ha => absurd ha (not_inBytes_zero p a)

theorem readable_succ {p n : Nat} :
    Readable m p (n + 1) ↔ (∃ b, m p = .byte b) ∧ Readable m (p + 1) n := by
  constructor
  · intro h
    refine ⟨h p ⟨Nat.le_refl p, by omega⟩, ?_⟩
    intro a ha
    exact h a (ha.sub (by omega) (by omega))
  · rintro ⟨hFirst, hRest⟩ a ⟨hLow, hHigh⟩
    by_cases hHere : a = p
    · rw [hHere]
      exact hFirst
    · exact hRest a ⟨by omega, by omega⟩

theorem writable_zero (m : UserCells) (p : Nat) : Writable m p 0 :=
  fun a ha => absurd ha (not_inBytes_zero p a)

theorem writable_succ {p n : Nat} :
    Writable m p (n + 1) ↔ m p ≠ .unmapped ∧ Writable m (p + 1) n := by
  constructor
  · intro h
    refine ⟨h p ⟨Nat.le_refl p, by omega⟩, ?_⟩
    intro a ha
    exact h a (ha.sub (by omega) (by omega))
  · rintro ⟨hFirst, hRest⟩ a ⟨hLow, hHigh⟩
    by_cases hHere : a = p
    · rw [hHere]
      exact hFirst
    · exact hRest a ⟨by omega, by omega⟩

theorem writable_congr (h : ∀ a, m' a = .unmapped ↔ m a = .unmapped) {p n : Nat} :
    Writable m' p n ↔ Writable m p n := by
  simp only [Writable, ne_eq, h]

theorem readable_congr {p n : Nat} (h : ∀ a, InBytes p n a → m' a = m a) :
    Readable m' p n ↔ Readable m p n := by
  constructor
  · intro hReadable a ha
    rw [← h a ha]
    exact hReadable a ha
  · intro hReadable a ha
    rw [h a ha]
    exact hReadable a ha

theorem terminated_iff {p : Nat} :
    Terminated m p ↔ ∃ b, m p = .byte b ∧ (b ≠ 0 → Terminated m (p + 1)) := by
  constructor
  · rintro ⟨n, hReadable, hNul⟩
    cases n with
    | zero => exact ⟨0, hNul, fun h => absurd rfl h⟩
    | succ n =>
      obtain ⟨⟨b, hByte⟩, hRest⟩ := readable_succ.mp hReadable
      refine ⟨b, hByte, fun _ => ⟨n, hRest, ?_⟩⟩
      rwa [Nat.add_right_comm]
  · rintro ⟨b, hByte, hRest⟩
    by_cases hZero : b = 0
    · exact ⟨0, readable_zero m p, by rw [hZero] at hByte; exact hByte⟩
    · obtain ⟨n, hReadable, hNul⟩ := hRest hZero
      refine ⟨n + 1, readable_succ.mpr ⟨⟨b, hByte⟩, hReadable⟩, ?_⟩
      rwa [Nat.add_right_comm] at hNul

/-- What is initialised stays so, whatever is written. -/
theorem readable_of_run {p n : Nat} {q : UserProgram α} {x : α} (h : Readable m p n)
    (hRun : run memSem q m = some (x, m')) : Readable m' p n := by
  induction q generalizing m with
  | ret y =>
    obtain ⟨-, rfl⟩ := Prod.mk.inj (Option.some.inj hRun)
    exact h
  | act o k ih =>
    rw [run_act] at hRun
    obtain ⟨⟨r, m₁⟩, hSem, hRest⟩ := Option.bind_eq_some_iff.mp hRun
    apply ih r _ hRest
    cases o with
    | read b =>
      obtain ⟨-, rfl⟩ := memSem_read_iff.mp hSem
      exact h
    | write b v =>
      obtain ⟨-, rfl⟩ := memSem_write_iff.mp hSem
      intro a ha
      by_cases hHere : a = b
      · exact ⟨v, by rw [hHere]; exact Function.update_self _ _ _⟩
      · obtain ⟨w, hByte⟩ := h a ha
        exact ⟨w, (Function.update_of_ne hHere _ _).trans hByte⟩
    | note l =>
      cases hSem
      exact h

theorem completes_readU8_bind {p : Nat} {f : UInt8 → UserProgram α} :
    Completes memSem (readU8 p >>= f) m ↔ ∃ b, m p = .byte b ∧ Completes memSem (f b) m := by
  rw [readU8, act_bind, completes_act_iff]
  constructor
  · rintro ⟨b, m₁, hRead, hRest⟩
    obtain ⟨hByte, rfl⟩ := memSem_read_iff.mp hRead
    exact ⟨b, hByte, hRest⟩
  · rintro ⟨b, hByte, hRest⟩
    exact ⟨b, m, memSem_read_iff.mpr ⟨hByte, rfl⟩, hRest⟩

theorem completes_readU8 {p : Nat} : Completes memSem (readU8 p) m ↔ Readable m p 1 := by
  rw [readable_succ, and_iff_left (readable_zero m (p + 1)), ← bind_ret (readU8 p),
    completes_readU8_bind]
  exact exists_congr fun b => and_iff_left (completes_ret b m)

theorem completes_readBytes {p n : Nat} :
    Completes memSem (readBytes p n) m ↔ Readable m p n := by
  induction n generalizing p with
  | zero => exact iff_of_true (completes_ret () m) (readable_zero m p)
  | succ n ih =>
    rw [readBytes, completes_readU8_bind, readable_succ, exists_and_right, ih]

/-- The answer is what the bytes hold. -/
theorem run_readLe_peek_iff {p n : Nat} {f : Nat → UserProgram α} {x : α} :
    run memSem (readLe p n >>= f) m = some (x, m') ↔
      Readable m p n ∧ run memSem (f (peek m p n)) m = some (x, m') := by
  induction n generalizing p f with
  | zero => exact (and_iff_right (readable_zero m p)).symm
  | succ n ih =>
    rw [readLe, bind_assoc, run_readU8_bind_iff, readable_succ]
    constructor
    · rintro ⟨b, hByte, hRest⟩
      rw [bind_assoc, ih] at hRest
      refine ⟨⟨⟨b, hByte⟩, hRest.1⟩, ?_⟩
      rw [peek, byteAt, hByte]
      exact hRest.2
    · rintro ⟨⟨⟨b, hByte⟩, hReadable⟩, hRest⟩
      refine ⟨b, hByte, ?_⟩
      rw [peek, byteAt, hByte] at hRest
      rw [bind_assoc, ih]
      exact ⟨hReadable, hRest⟩

theorem completes_readLe_bind {p n : Nat} {f : Nat → UserProgram α} :
    Completes memSem (readLe p n >>= f) m ↔
      Readable m p n ∧ Completes memSem (f (peek m p n)) m := by
  simp only [Completes, run_readLe_peek_iff, exists_and_left]

/-- An integer is written where its bytes are mapped. -/
theorem completes_writeLe {p n v : Nat} :
    Completes memSem (writeLe p n v) m ↔ Writable m p n := by
  induction n generalizing p v m with
  | zero => exact iff_of_true (completes_ret () m) (writable_zero m p)
  | succ n ih =>
    rw [writeLe, writeU8, act_bind, completes_act_iff, writable_succ]
    have hRest : ∀ b, m p ≠ .unmapped → (Writable (Function.update m p (.byte b)) (p + 1) n ↔
        Writable m (p + 1) n) := by
      intro b hMapped
      refine writable_congr fun a => ?_
      by_cases hHere : a = p
      · rw [hHere, Function.update_self]
        exact iff_of_false (by simp) hMapped
      · rw [Function.update_of_ne hHere]
    constructor
    · rintro ⟨u, m₁, hWrite, hLoop⟩
      obtain ⟨hMapped, rfl⟩ := memSem_write_iff.mp hWrite
      exact ⟨hMapped, (hRest _ hMapped).mp (ih.mp hLoop)⟩
    · rintro ⟨hMapped, hLoop⟩
      exact ⟨(), _, memSem_write_iff.mpr ⟨hMapped, rfl⟩, ih.mpr ((hRest _ hMapped).mpr hLoop)⟩

theorem completes_fill {p n : Nat} : Completes memSem (fill p n) m ↔ Writable m p n := by
  rw [← writeLe_zero]
  exact completes_writeLe

end Accesses

/-! ## Strings -/

section Strings

variable {α : Type} {m m' : UserCells}

/-- No address from `2 ^ 64` on is mapped. -/
def Bounded (m : UserCells) : Prop := ∀ a, 2 ^ 64 ≤ a → m a = .unmapped

theorem Bounded.run (h : Bounded m) {p : UserProgram α} {x : α}
    (hRun : Program.run memSem p m = some (x, m')) : Bounded m' :=
  fun a ha => (unmapped_of_run hRun a).mpr (h a ha)

/-- The walk ends at a NUL, or it faults at the latest where the address space ends. -/
theorem completes_walkCstrWithin (hTop : Bounded m) {fuel p : Nat} (hFuel : 2 ^ 64 ≤ p + fuel) :
    Completes memSem (walkCstrWithin fuel p) m ↔ Terminated m p := by
  induction fuel generalizing p with
  | zero =>
    have hOff : ∀ b, m p ≠ .byte b := by
      intro b hByte
      rw [hTop p hFuel] at hByte
      exact nomatch hByte
    rw [walkCstrWithin, completes_readU8_bind, terminated_iff]
    exact iff_of_false (fun ⟨b, hByte, _⟩ => hOff b hByte) fun ⟨b, hByte, _⟩ => hOff b hByte
  | succ fuel ih =>
    rw [walkCstrWithin, completes_readU8_bind, terminated_iff]
    refine exists_congr fun b => and_congr_right fun _ => ?_
    refine completes_unless.trans (imp_congr_right fun _ => ih ?_)
    omega

theorem completes_walkCstr (hTop : Bounded m) {p : Nat} :
    Completes memSem (walkCstr p) m ↔ Terminated m p := by
  apply completes_walkCstrWithin hTop
  omega

end Strings

/-! ## Buffers that a structure in memory leads to

The walks over such structures are the same for a kernel that reads the buffers and one that
writes them. `touch` is the access to one buffer, and it needs `ok`. While the buffers are
touched, the structures `K` must stay as they were in the memory `m₀`.
-/

section Walks

variable {m m₀ m₁ : UserCells} {touch : Nat → Nat → UserProgram Unit}
  {ok : UserCells → Nat → Nat → Prop} {K : Nat → Prop}

structure Needs (touch : Nat → Nat → UserProgram Unit) (ok : UserCells → Nat → Nat → Prop) :
    Prop where
  completes : ∀ m p n, Completes memSem (touch p n) m ↔ ok m p n
  empty : ∀ m p, ok m p 0

theorem needs_readBytes : Needs readBytes Readable :=
  ⟨fun _ _ _ => completes_readBytes, readable_zero⟩

theorem needs_fill : Needs fill Writable := ⟨fun _ _ _ => completes_fill, writable_zero⟩

/-- For a reader, `m` is as good as `m₀`. -/
structure Alike (ok : UserCells → Nat → Nat → Prop) (K : Nat → Prop) (m₀ m : UserCells) :
    Prop where
  same : ∀ a, K a → m a = m₀ a
  ok_iff : ∀ p n, ok m p n ↔ ok m₀ p n

/-- The access to this buffer does not change what is walked. -/
def Steady (touch : Nat → Nat → UserProgram Unit) (ok : UserCells → Nat → Nat → Prop)
    (K : Nat → Prop) (m₀ : UserCells) (p n : Nat) : Prop :=
  ∀ m m' u, Alike ok K m₀ m → run memSem (touch p n) m = some (u, m') → Alike ok K m₀ m'

theorem Alike.refl (ok : UserCells → Nat → Nat → Prop) (K : Nat → Prop) (m : UserCells) :
    Alike ok K m m :=
  ⟨fun _ _ => rfl, fun _ _ => Iff.rfl⟩

theorem steady_readBytes (p n : Nat) : Steady readBytes Readable K m₀ p n := by
  intro m m' u hAlike hRun
  rw [(keeps_readBytes p n).run hRun]
  exact hAlike

theorem steady_fill {p n : Nat} (hApart : ∀ a, K a → ¬ InBytes p n a) :
    Steady fill Writable K m₀ p n := by
  intro m m' u hAlike hRun
  constructor
  · intro a ha
    rw [((sets_fill p n).run hRun).outside a (hApart a ha)]
    exact hAlike.same a ha
  · intro q k
    rw [← hAlike.ok_iff]
    exact writable_congr (unmapped_of_run hRun)

/-- `if len > 0 { touch the slice }` -/
theorem Needs.unless (h : Needs touch ok) {p n : Nat} :
    Completes memSem (if n = 0 then pure () else touch p n) m ↔ ok m p n := by
  refine completes_unless.trans ?_
  rw [h.completes]
  refine ⟨fun hTouch => ?_, fun hOk _ => hOk⟩
  by_cases hEmpty : n = 0
  · rw [hEmpty]
    exact h.empty m p
  · exact hTouch hEmpty

section Parts

variable {p n q k ptr iov : Nat}

theorem Alike.peek (h : Alike ok K m₀ m) (hK : ∀ a, InBytes p n a → K a) :
    peek m p n = peek m₀ p n :=
  peek_congr fun a ha => h.same a (hK a ha)

theorem Alike.readable (h : Alike ok K m₀ m) (hK : ∀ a, InBytes p n a → K a) :
    Readable m p n ↔ Readable m₀ p n :=
  readable_congr fun a ha => h.same a (hK a ha)

theorem Alike.validHdrBuf (h : Alike ok K m₀ m) (hPtr : ∀ a, InBytes ptr 8 a → K a)
    (hLen : ∀ a, InBytes q k a → K a) :
    ValidHdrBuf (ok m) m ptr q k ↔ ValidHdrBuf (ok m₀) m₀ ptr q k := by
  simp only [ValidHdrBuf, h.peek hPtr, h.peek hLen, h.readable hPtr, h.readable hLen, h.ok_iff]

theorem Alike.validIovec (h : Alike ok K m₀ m) (hK : ∀ a, InBytes iov iovecSize a → K a) :
    ValidIovec (ok m) m iov ↔ ValidIovec (ok m₀) m₀ iov := by
  have hBase : ∀ a, InBytes iov 8 a → K a :=
    fun a ha => hK a (ha.sub (Nat.le_refl iov) (by unfold iovecSize; omega))
  have hLen : ∀ a, InBytes (iov + 8) 8 a → K a :=
    fun a ha => hK a (ha.sub (by omega) (by unfold iovecSize; omega))
  simp only [ValidIovec, h.peek hBase, h.peek hLen, h.readable hBase, h.readable hLen, h.ok_iff]

/-! ### One buffer -/

theorem completes_walkHdrBuf (h : Needs touch ok) :
    Completes memSem (walkHdrBuf touch ptr (readLe q k)) m ↔ ValidHdrBuf (ok m) m ptr q k := by
  rw [walkHdrBuf, readUsize, completes_readLe_bind, ValidHdrBuf]
  refine and_congr_right fun _ => completes_unless.trans (imp_congr_right fun _ => ?_)
  rw [completes_readLe_bind, h.unless]

theorem completes_walkIovec (h : Needs touch ok) (total : Nat) :
    Completes memSem (walkIovec touch iov total) m ↔ ValidIovec (ok m) m iov := by
  rw [walkIovec, readUsize, completes_readLe_bind, ValidIovec]
  refine and_congr_right fun _ => completes_unless.trans (imp_congr_right fun _ => ?_)
  rw [readUsize, completes_readLe_bind, ← h.unless]
  refine and_congr_right fun hLen => (completes_unless.trans ?_).trans completes_unless.symm
  refine imp_congr_right fun _ => completes_before fun u m' hRun => ?_
  -- the length can be read again
  rw [completes_readLe_bind]
  exact ⟨readable_of_run hLen hRun, completes_ret _ _⟩

/-- The walk of one buffer leads to a memory that is as good. -/
theorem Alike.walkHdrBuf (hAlike : Alike ok K m₀ m) (hPtr : ∀ a, InBytes ptr 8 a → K a)
    (hLen : ∀ a, InBytes q k a → K a)
    (hSteady : Dispatch.peek m₀ ptr 8 ≠ 0 →
      Steady touch ok K m₀ (Dispatch.peek m₀ ptr 8) (Dispatch.peek m₀ q k))
    {u : Unit} (hRun : run memSem (walkHdrBuf touch ptr (readLe q k)) m = some (u, m₁)) :
    Alike ok K m₀ m₁ := by
  obtain ⟨-, hRest⟩ := run_readLe_peek_iff.mp hRun
  rw [hAlike.peek hPtr] at hRest
  by_cases hNull : Dispatch.peek m₀ ptr 8 = 0
  · rw [if_pos hNull] at hRest
    obtain ⟨-, rfl⟩ := Prod.mk.inj (Option.some.inj hRest)
    exact hAlike
  · rw [if_neg hNull] at hRest
    obtain ⟨-, hTouch⟩ := run_readLe_peek_iff.mp hRest
    rw [hAlike.peek hLen] at hTouch
    by_cases hEmpty : Dispatch.peek m₀ q k = 0
    · rw [if_pos hEmpty] at hTouch
      obtain ⟨-, rfl⟩ := Prod.mk.inj (Option.some.inj hTouch)
      exact hAlike
    · rw [if_neg hEmpty] at hTouch
      exact hSteady hNull m m₁ u hAlike hTouch

theorem Alike.walkIovec (hAlike : Alike ok K m₀ m) (hK : ∀ a, InBytes iov iovecSize a → K a)
    (hSteady : Dispatch.peek m₀ iov 8 ≠ 0 →
      Steady touch ok K m₀ (Dispatch.peek m₀ iov 8) (Dispatch.peek m₀ (iov + 8) 8))
    {total total' : Nat} (hRun : run memSem (walkIovec touch iov total) m = some (total', m₁)) :
    Alike ok K m₀ m₁ := by
  have hBase : ∀ a, InBytes iov 8 a → K a :=
    fun a ha => hK a (ha.sub (Nat.le_refl iov) (by unfold iovecSize; omega))
  have hLen : ∀ a, InBytes (iov + 8) 8 a → K a :=
    fun a ha => hK a (ha.sub (by omega) (by unfold iovecSize; omega))
  obtain ⟨-, hRest⟩ := run_readLe_peek_iff.mp hRun
  rw [hAlike.peek hBase] at hRest
  by_cases hNull : Dispatch.peek m₀ iov 8 = 0
  · rw [if_pos hNull] at hRest
    obtain ⟨-, rfl⟩ := Prod.mk.inj (Option.some.inj hRest)
    exact hAlike
  · rw [if_neg hNull] at hRest
    obtain ⟨-, hLast⟩ := run_readLe_peek_iff.mp hRest
    rw [hAlike.peek hLen] at hLast
    by_cases hEmpty : Dispatch.peek m₀ (iov + 8) 8 = 0
    · rw [if_pos hEmpty] at hLast
      obtain ⟨-, rfl⟩ := Prod.mk.inj (Option.some.inj hLast)
      exact hAlike
    · rw [if_neg hEmpty] at hLast
      obtain ⟨u, m₂, hTouch, hRest⟩ := run_bind_iff.mp hLast
      obtain ⟨-, hRet⟩ := run_readLe_peek_iff.mp hRest
      obtain ⟨-, rfl⟩ := Prod.mk.inj (Option.some.inj hRet)
      exact hSteady hNull m m₂ u hAlike hTouch

end Parts

/-! ### Arrays and messages -/

theorem validIovecs_succ {ok : Nat → Nat → Prop} {iov n : Nat} :
    ValidIovecs ok m iov (n + 1) ↔
      ValidIovec ok m iov ∧ ValidIovecs ok m (iov + iovecSize) n := by
  have hShift : ∀ i, iov + iovecSize * (i + 1) = iov + iovecSize + iovecSize * i := by
    intro i
    rw [Nat.mul_succ]
    omega
  constructor
  · intro h
    refine ⟨h 0 (Nat.succ_pos n), fun i hi => ?_⟩
    rw [← hShift]
    exact h (i + 1) (Nat.succ_lt_succ hi)
  · rintro ⟨hFirst, hRest⟩ i hi
    cases i with
    | zero => exact hFirst
    | succ i =>
      rw [hShift]
      exact hRest i (Nat.lt_of_succ_lt_succ hi)

/-- The array is walked in a memory that is as good as `m₀`, by induction on its length. -/
theorem completes_walkIovecs (h : Needs touch ok) {iov n : Nat} (total : Nat)
    (hAlike : Alike ok K m₀ m)
    (hK : ∀ a, InBytes iov (iovecSize * n) a → K a)
    (hSteady : ∀ i < n, peek m₀ (iov + iovecSize * i) 8 ≠ 0 → Steady touch ok K m₀
      (peek m₀ (iov + iovecSize * i) 8) (peek m₀ (iov + iovecSize * i + 8) 8)) :
    Completes memSem (walkIovecs touch iov n total) m ↔ ValidIovecs (ok m₀) m₀ iov n := by
  induction n generalizing iov total m with
  | zero => exact iff_of_true (completes_ret total m) fun i hi => absurd hi (Nat.not_lt_zero i)
  | succ n ih =>
    have hFirst : ∀ a, InBytes iov iovecSize a → K a := by
      intro a ha
      refine hK a (ha.sub (Nat.le_refl iov) ?_)
      rw [Nat.mul_succ]
      omega
    have hOthers : ∀ a, InBytes (iov + iovecSize) (iovecSize * n) a → K a := by
      intro a ha
      refine hK a (ha.sub (by omega) ?_)
      rw [Nat.mul_succ]
      omega
    have hTail : ∀ i < n, peek m₀ (iov + iovecSize + iovecSize * i) 8 ≠ 0 → Steady touch ok K m₀
        (peek m₀ (iov + iovecSize + iovecSize * i) 8)
        (peek m₀ (iov + iovecSize + iovecSize * i + 8) 8) := by
      intro i hi
      have hShift : iov + iovecSize + iovecSize * i = iov + iovecSize * (i + 1) := by
        rw [Nat.mul_succ]
        omega
      rw [hShift]
      exact hSteady (i + 1) (Nat.succ_lt_succ hi)
    have hLoop : ∀ {total' m₁}, run memSem (walkIovec touch iov total) m = some (total', m₁) →
        (Completes memSem (walkIovecs touch (iov + iovecSize) n total') m₁ ↔
          ValidIovecs (ok m₀) m₀ (iov + iovecSize) n) := by
      intro total' m₁ hRun
      exact ih total' (hAlike.walkIovec hFirst (hSteady 0 (Nat.succ_pos n)) hRun) hOthers hTail
    rw [walkIovecs, completes_bind_iff, validIovecs_succ, ← hAlike.validIovec hFirst,
      ← completes_walkIovec h total]
    constructor
    · rintro ⟨total', m₁, hRun, hRest⟩
      exact ⟨⟨total', m₁, hRun⟩, (hLoop hRun).mp hRest⟩
    · rintro ⟨⟨total', m₁, hRun⟩, hRest⟩
      exact ⟨total', m₁, hRun, (hLoop hRun).mpr hRest⟩

/-- A field of the header. -/
theorem InBytes.field {hdr k n a : Nat} (h : InBytes (hdr + k) n a) (hField : k + n ≤ MsgHdr.size) :
    InBytes hdr MsgHdr.size a :=
  h.sub (by omega) (by omega)

/-- The name and the control data are touched before the array is walked. -/
theorem completes_walkMsgHdr (h : Needs touch ok) {hdr : Nat}
    (hHdr : ∀ a, InBytes hdr MsgHdr.size a → K a) (hIov : ∀ a, InMsgIov m hdr a → K a)
    (hName : peek m (hdr + MsgHdr.msgName) 8 ≠ 0 → Steady touch ok K m
      (peek m (hdr + MsgHdr.msgName) 8) (peek m (hdr + MsgHdr.msgNamelen) 4))
    (hControl : peek m (hdr + MsgHdr.msgControl) 8 ≠ 0 → Steady touch ok K m
      (peek m (hdr + MsgHdr.msgControl) 8) (peek m (hdr + MsgHdr.msgControllen) 8))
    (hTargets : peek m (hdr + MsgHdr.msgIov) 8 ≠ 0 →
      ∀ i < peek m (hdr + MsgHdr.msgIovlen) 8,
        peek m (peek m (hdr + MsgHdr.msgIov) 8 + iovecSize * i) 8 ≠ 0 → Steady touch ok K m
          (peek m (peek m (hdr + MsgHdr.msgIov) 8 + iovecSize * i) 8)
          (peek m (peek m (hdr + MsgHdr.msgIov) 8 + iovecSize * i + 8) 8)) :
    Completes memSem (walkMsgHdr touch hdr) m ↔ ValidMsg (ok m) m hdr := by
  have hField : ∀ {k n}, k + n ≤ MsgHdr.size → ∀ a, InBytes (hdr + k) n a → K a :=
    fun hkn a ha => hHdr a (ha.field hkn)
  -- the part behind the name and the control data, in a memory that is as good
  have hLast : ∀ {m₂}, Alike ok K m m₂ → (Completes memSem (do
      let msgIov ← readUsize (hdr + MsgHdr.msgIov)
      if msgIov = 0 then pure (asI32 0)
      else do
        let msgIovlen ← readUsize (hdr + MsgHdr.msgIovlen)
        if msgIovlen = 0 then pure (asI32 0)
        else do
          let total ← walkIovecs touch msgIov msgIovlen 0
          pure (asI32 total)) m₂ ↔
      Readable m (hdr + MsgHdr.msgIov) 8 ∧ (peek m (hdr + MsgHdr.msgIov) 8 ≠ 0 →
        Readable m (hdr + MsgHdr.msgIovlen) 8 ∧ ValidIovecs (ok m) m
          (peek m (hdr + MsgHdr.msgIov) 8) (peek m (hdr + MsgHdr.msgIovlen) 8))) := by
    intro m₂ hAlike
    rw [readUsize, completes_readLe_bind, hAlike.readable (hField (by decide)),
      hAlike.peek (hField (by decide))]
    refine and_congr_right fun _ => completes_unless.trans (imp_congr_right fun hBase => ?_)
    rw [readUsize, completes_readLe_bind, hAlike.readable (hField (by decide)),
      hAlike.peek (hField (by decide))]
    refine and_congr_right fun _ => completes_unless.trans ?_
    have hWalk := completes_walkIovecs h 0 hAlike (fun a ha => hIov a ⟨hBase, ha⟩)
      (hTargets hBase)
    rw [← hWalk]
    refine (imp_congr_right fun _ => completes_map).trans ?_
    refine ⟨fun hLoop => ?_, fun hLoop _ => hLoop⟩
    by_cases hEmpty : peek m (hdr + MsgHdr.msgIovlen) 8 = 0
    · rw [hEmpty]
      exact completes_ret 0 m₂
    · exact hLoop hEmpty
  rw [walkMsgHdr, completes_bind_iff, ValidMsg, ← completes_walkHdrBuf h]
  constructor
  · rintro ⟨u, m₁, hRun₁, hRest⟩
    have hAlike₁ := (Alike.refl ok K m).walkHdrBuf (hField (by decide)) (hField (by decide))
      hName hRun₁
    obtain ⟨u', m₂, hRun₂, hRest₂⟩ := completes_bind_iff.mp hRest
    have hAlike₂ := hAlike₁.walkHdrBuf (hField (by decide)) (hField (by decide)) hControl hRun₂
    refine ⟨⟨u, m₁, hRun₁⟩, ?_, (hLast hAlike₂).mp hRest₂⟩
    rw [← hAlike₁.validHdrBuf (hField (by decide)) (hField (by decide)), ← completes_walkHdrBuf h]
    exact ⟨u', m₂, hRun₂⟩
  · rintro ⟨⟨u, m₁, hRun₁⟩, hValid, hRest⟩
    have hAlike₁ := (Alike.refl ok K m).walkHdrBuf (hField (by decide)) (hField (by decide))
      hName hRun₁
    rw [← hAlike₁.validHdrBuf (hField (by decide)) (hField (by decide)),
      ← completes_walkHdrBuf h] at hValid
    obtain ⟨u', m₂, hRun₂⟩ := hValid
    have hAlike₂ := hAlike₁.walkHdrBuf (hField (by decide)) (hField (by decide)) hControl hRun₂
    exact ⟨u, m₁, hRun₁, completes_bind_iff.mpr ⟨u', m₂, hRun₂, (hLast hAlike₂).mpr hRest⟩⟩

end Walks

end Miring.Dispatch
