import Miring.Dispatch.Handlers

/-!
# Observed walks

The walks over iovec arrays and message headers with an observer beside them, who notes each
buffer, each array and each target on the way. Without the notes they are the walks of the
handlers (`erase_observeArray`, `erase_observeMsgHdr`). What is noted in a completed execution is
a function of the memory (`runs_observeArray`, `runs_observeMsgHdr`).

A target can cover the iovecs that follow, and its own. So the memory is carried along, and of
each target there are two lengths: the one it had when it was accessed, and the one that the
iovec holds behind the access (`IovTarget`).
-/

namespace Miring.Dispatch

open Program

abbrev UserCells := Mem Nat UInt8

/-! ## Completed executions -/

/-- A completed execution. -/
abbrev Runs {α : Type} (p : UserProgram α) (m : UserCells) (tr : List (Event userSig)) (a : α)
    (m' : UserCells) : Prop :=
  exec memSem p m = some (tr, a, m')

theorem runs_read_bind {α : Type} {p : Nat} {f : UInt8 → UserProgram α} {m m' : UserCells}
    {tr : List (Event userSig)} {a : α} (h : Runs (readU8 p >>= f) m tr a m') :
    ∃ b tr', m p = .byte b ∧ Runs (f b) m tr' a m' := by
  obtain ⟨b, m₁, tr', hRead, hRest, -⟩ := exec_act_iff.mp h
  obtain ⟨hByte, rfl⟩ := memSem_read_iff.mp hRead
  exact ⟨b, tr', hByte, hRest⟩

theorem runs_write_bind {α : Type} {p : Nat} {v : UInt8} {f : Unit → UserProgram α}
    {m m' : UserCells} {tr : List (Event userSig)} {a : α}
    (h : Runs (writeU8 p v >>= f) m tr a m') :
    ∃ tr', Runs (f ()) (Function.update m p (.byte v)) tr' a m' := by
  obtain ⟨u, m₁, tr', hWrite, hRest, -⟩ := exec_act_iff.mp h
  obtain ⟨-, rfl⟩ := memSem_write_iff.mp hWrite
  exact ⟨tr', hRest⟩

theorem runs_bind {α β : Type} {p : UserProgram α} {f : α → UserProgram β} {m m' : UserCells}
    {tr : List (Event userSig)} {b : β} (h : Runs (p >>= f) m tr b m') :
    ∃ tr₁ a m₁ tr₂, Runs p m tr₁ a m₁ ∧ Runs (f a) m₁ tr₂ b m' := by
  obtain ⟨tr₁, a, m₁, tr₂, h₁, h₂, -⟩ := exec_bind_iff.mp h
  exact ⟨tr₁, a, m₁, tr₂, h₁, h₂⟩

theorem runs_ret {α : Type} {a b : α} {m m' : UserCells} {tr : List (Event userSig)}
    (h : Runs (pure a) m tr b m') : b = a ∧ m' = m := by
  obtain ⟨-, hEnd⟩ := Prod.mk.inj (Option.some.inj h)
  obtain ⟨rfl, rfl⟩ := Prod.mk.inj hEnd
  exact ⟨rfl, rfl⟩

theorem exec_map {α β : Type} (f : α → β) (p : UserProgram α) (m : UserCells) :
    exec memSem (f <$> p) m = (exec memSem p m).map fun x => (x.1, f x.2.1, x.2.2) := by
  rw [map_eq_pure_bind, exec_bind]
  cases exec memSem p m with
  | none => rfl
  | some x => simp

/-! ## Accesses to a buffer -/

/-- `fill` with a counter. -/
def countFill (p : Nat) : Nat → UserProgram Nat
  | 0 => pure 0
  | n + 1 => do
      writeU8 p 0
      let k ← countFill (p + 1) n
      pure (k + 1)

/-- `readBytes` with a counter. -/
def countRead (p : Nat) : Nat → UserProgram Nat
  | 0 => pure 0
  | n + 1 => do
      let _ ← readU8 p
      let k ← countRead (p + 1) n
      pure (k + 1)

/-- `n` zeros at `p`. -/
def zeroed (m : UserCells) (p n : Nat) : UserCells :=
  fun a => if p ≤ a ∧ a < p + n then .byte 0 else m a

/-- How the bytes of a buffer are accessed: all of them, once each. -/
structure Touch where
  run : Nat → Nat → UserProgram Unit
  count : Nat → Nat → UserProgram Nat
  /-- the memory afterwards -/
  after : UserCells → Nat → Nat → UserCells
  erase : ∀ p n, (fun _ => ()) <$> count p n = run p n
  spec : ∀ {p n m tr k m'}, Runs (count p n) m tr k m' → k = n ∧ m' = after m p n
  zeroes : ∀ m p n a, after m p n a = m a ∨ after m p n a = .byte 0

theorem erase_countFill (p n : Nat) : (fun _ => ()) <$> countFill p n = fill p n := by
  induction n generalizing p with
  | zero => rfl
  | succ n ih =>
    rw [countFill, fill, ← ih]
    simp only [map_bind, ← map_eq_pure_bind, Functor.map_map]

theorem erase_countRead (p n : Nat) : (fun _ => ()) <$> countRead p n = readBytes p n := by
  induction n generalizing p with
  | zero => rfl
  | succ n ih =>
    rw [countRead, readBytes, ← ih]
    simp only [map_bind, ← map_eq_pure_bind, Functor.map_map]

theorem zeroed_update (m : UserCells) (p n : Nat) :
    zeroed (Function.update m p (.byte 0)) (p + 1) n = zeroed m p (n + 1) := by
  funext a
  by_cases hHere : a = p
  · rw [zeroed, if_neg (by omega), hHere, Function.update_self, zeroed, if_pos (by omega)]
  · rw [zeroed, zeroed, Function.update_of_ne hHere]
    have hIff : (p + 1 ≤ a ∧ a < p + 1 + n) ↔ (p ≤ a ∧ a < p + (n + 1)) := by omega
    simp only [hIff]

theorem runs_countFill {p n : Nat} {m m' : UserCells} {tr : List (Event userSig)} {k : Nat}
    (h : Runs (countFill p n) m tr k m') : k = n ∧ m' = zeroed m p n := by
  induction n generalizing p m m' tr k with
  | zero =>
    obtain ⟨rfl, rfl⟩ := runs_ret h
    refine ⟨rfl, funext fun a => ?_⟩
    rw [zeroed, if_neg (by omega)]
  | succ n ih =>
    obtain ⟨tr', hRest⟩ := runs_write_bind h
    obtain ⟨tr₁, k₁, m₁, tr₂, hLoop, hRet⟩ := runs_bind hRest
    obtain ⟨rfl, rfl⟩ := ih hLoop
    obtain ⟨rfl, rfl⟩ := runs_ret hRet
    exact ⟨rfl, zeroed_update m p k₁⟩

theorem runs_countRead {p n : Nat} {m m' : UserCells} {tr : List (Event userSig)} {k : Nat}
    (h : Runs (countRead p n) m tr k m') : k = n ∧ m' = m := by
  induction n generalizing p m' tr k with
  | zero => exact runs_ret h
  | succ n ih =>
    obtain ⟨b, tr', -, hRest⟩ := runs_read_bind h
    obtain ⟨tr₁, k₁, m₁, tr₂, hLoop, hRet⟩ := runs_bind hRest
    obtain ⟨rfl, rfl⟩ := ih hLoop
    exact runs_ret hRet

theorem zeroed_zeroes (m : UserCells) (p n a : Nat) :
    zeroed m p n a = m a ∨ zeroed m p n a = .byte 0 := by
  unfold zeroed
  split
  · exact .inr rfl
  · exact .inl rfl

/-- The kernel writes to the buffer. -/
def fillTouch : Touch :=
  ⟨fill, countFill, zeroed, erase_countFill, runs_countFill, zeroed_zeroes⟩

/-- The kernel reads the buffer. -/
def readTouch : Touch :=
  ⟨readBytes, countRead, fun m _ _ => m, erase_countRead, runs_countRead, fun _ _ _ _ => .inl rfl⟩

/-! ## Integers in memory -/

def byteAt (m : UserCells) (a : Nat) : UInt8 :=
  match m a with
  | .byte b => b
  | _ => 0

/-- The integer in the `n` bytes at `p`. -/
def peek (m : UserCells) (p : Nat) : Nat → Nat
  | 0 => 0
  | n + 1 => (byteAt m p).toNat + 256 * peek m (p + 1) n

section Integers

variable {m m' : UserCells} {tr : List (Event userSig)}

theorem runs_readLe {p n v : Nat} (h : Runs (readLe p n) m tr v m') :
    v = peek m p n ∧ m' = m := by
  induction n generalizing p v m' tr with
  | zero => exact runs_ret h
  | succ n ih =>
    obtain ⟨b, tr', hByte, hRest⟩ := runs_read_bind h
    obtain ⟨tr₁, rest, m₁, tr₂, hLoop, hRet⟩ := runs_bind hRest
    obtain ⟨rfl, rfl⟩ := ih hLoop
    obtain ⟨rfl, rfl⟩ := runs_ret hRet
    have hAt : byteAt m' p = b := by rw [byteAt, hByte]
    exact ⟨by rw [peek, hAt], rfl⟩

/-- A read of an integer, and what follows. -/
theorem runs_readLe_bind {α : Type} {p n : Nat} {f : Nat → UserProgram α} {a : α}
    (h : Runs (readLe p n >>= f) m tr a m') : ∃ tr', Runs (f (peek m p n)) m tr' a m' := by
  obtain ⟨tr₁, v, m₁, tr₂, hRead, hRest⟩ := runs_bind h
  obtain ⟨rfl, rfl⟩ := runs_readLe hRead
  exact ⟨tr₂, hRest⟩

theorem runs_readUsize_bind {α : Type} {p : Nat} {f : Nat → UserProgram α} {a : α}
    (h : Runs (readUsize p >>= f) m tr a m') : ∃ tr', Runs (f (peek m p 8)) m tr' a m' :=
  runs_readLe_bind h

theorem Touch.runs (t : Touch) {p n : Nat} {u : Unit} (h : Runs (t.run p n) m tr u m') :
    m' = t.after m p n := by
  rw [Runs, ← t.erase, exec_map] at h
  obtain ⟨⟨tr₁, k, m₁⟩, hCount, hEnd⟩ := Option.map_eq_some_iff.mp h
  rw [← (Prod.mk.inj (Prod.mk.inj hEnd).2).2]
  exact (t.spec hCount).2

/-- Where bytes are zeroed, an integer does not become larger. -/
theorem peek_le_of_zeroed {p n : Nat}
    (h : ∀ a, p ≤ a → a < p + n → m' a = m a ∨ m' a = .byte 0) : peek m' p n ≤ peek m p n := by
  induction n generalizing p with
  | zero => exact Nat.le_refl _
  | succ n ih =>
    have hByte : (byteAt m' p).toNat ≤ (byteAt m p).toNat := by
      rcases h p (Nat.le_refl p) (by omega) with hSame | hZero
      · exact Nat.le_of_eq (by rw [byteAt, byteAt, hSame])
      · rw [byteAt, hZero]
        exact Nat.zero_le _
    have hRest := ih (p := p + 1) fun a hLow hHigh => h a (by omega) (by omega)
    rw [peek, peek]
    omega

end Integers

/-! ## Observers -/

/-- What is noted on a walk: buffers that the header names, iovec arrays, and targets, which are
visited byte by byte. -/
structure Observer (t : Touch) (σ : Type) where
  buffer : Nat → Nat → σ → σ
  array : Nat → Nat → σ → σ
  target : Nat → Nat → σ → σ
  visit : Nat → Nat → UserProgram (σ → σ)
  erase : ∀ p n, (fun _ => ()) <$> visit p n = t.run p n
  spec : ∀ {p n m tr note m'}, Runs (visit p n) m tr note m' →
    note = target p n ∧ m' = t.after m p n

section Observed

variable {t : Touch} {σ : Type} (ob : Observer t σ)

/-- One turn of the loop over the iovecs: the saturating sum and the notes. -/
def observeIovec (iov : Nat) (acc : Nat × σ) : UserProgram (Nat × σ) := do
  let iovBase ← readUsize iov
  if iovBase = 0 then pure acc
  else do
    let iovLen ← readUsize (iov + 8)
    if iovLen = 0 then pure acc
    else do
      let note ← ob.visit iovBase iovLen
      let added ← readUsize (iov + 8)
      pure (saturatingAdd acc.1 added, note acc.2)

def observeIovecs (iov : Nat) : Nat → Nat × σ → UserProgram (Nat × σ)
  | 0, acc => pure acc
  | n + 1, acc => do
      let acc ← observeIovec ob iov acc
      observeIovecs (iov + iovecSize) n acc

/-- The array, its targets, and the narrowed sum. -/
def observeArray (iov n : Nat) (s : σ) : UserProgram (Int32 × σ) := do
  let acc ← observeIovecs ob iov n (0, ob.array iov n s)
  pure (asI32 acc.1, acc.2)

def observeHdrBuf (ptr : Nat) (len : UserProgram Nat) (s : σ) : UserProgram σ := do
  let base ← readUsize ptr
  if base = 0 then pure s
  else do
    let n ← len
    if n = 0 then pure s
    else do
      t.run base n
      pure (ob.buffer base n s)

def observeMsgHdr (hdr : Nat) (s : σ) : UserProgram (Int32 × σ) := do
  let s ← observeHdrBuf ob (hdr + MsgHdr.msgName) (readU32 (hdr + MsgHdr.msgNamelen)) s
  let s ← observeHdrBuf ob (hdr + MsgHdr.msgControl) (readUsize (hdr + MsgHdr.msgControllen)) s
  let msgIov ← readUsize (hdr + MsgHdr.msgIov)
  if msgIov = 0 then pure (asI32 0, s)
  else do
    let msgIovlen ← readUsize (hdr + MsgHdr.msgIovlen)
    if msgIovlen = 0 then pure (asI32 0, s)
    else observeArray ob msgIov msgIovlen s

/-! ### Without the notes -/

theorem erase_observeIovec (iov : Nat) (acc : Nat × σ) :
    Prod.fst <$> observeIovec ob iov acc = walkIovec t.run iov acc.1 := by
  rw [observeIovec, walkIovec, map_bind]
  refine bind_congr fun iovBase => ?_
  split
  · rfl
  · rw [map_bind]
    refine bind_congr fun iovLen => ?_
    split
    · rfl
    · rw [← ob.erase]
      simp only [map_bind, map_pure, bind_map_left]

theorem erase_observeIovecs (iov n : Nat) (acc : Nat × σ) :
    Prod.fst <$> observeIovecs ob iov n acc = walkIovecs t.run iov n acc.1 := by
  induction n generalizing iov acc with
  | zero => rfl
  | succ n ih =>
    rw [observeIovecs, walkIovecs, map_bind, ← erase_observeIovec ob, bind_map_left]
    refine bind_congr fun acc' => ?_
    exact ih _ _

theorem erase_observeArray (iov n : Nat) (s : σ) :
    Prod.fst <$> observeArray ob iov n s =
      walkIovecs t.run iov n 0 >>= fun total => pure (asI32 total) := by
  rw [observeArray, ← erase_observeIovecs ob iov n (0, ob.array iov n s), bind_map_left, map_bind]
  rfl

theorem erase_observeHdrBuf (ptr : Nat) (len : UserProgram Nat) (s : σ) :
    (fun _ => ()) <$> observeHdrBuf ob ptr len s = walkHdrBuf t.run ptr len := by
  rw [observeHdrBuf, walkHdrBuf, map_bind]
  refine bind_congr fun base => ?_
  split
  · rfl
  · rw [map_bind]
    refine bind_congr fun n => ?_
    split
    · rfl
    · rw [map_bind]
      exact bind_pure _

/-- What follows the buffer does not look at the notes. -/
theorem erase_observeHdrBuf_bind {ptr : Nat} {len : UserProgram Nat} {s : σ}
    {f : σ → UserProgram (Int32 × σ)} {g : UserProgram Int32} (h : ∀ s, Prod.fst <$> f s = g) :
    Prod.fst <$> (observeHdrBuf ob ptr len s >>= f) = walkHdrBuf t.run ptr len >>= fun _ => g := by
  rw [map_bind, ← erase_observeHdrBuf ob ptr len s, bind_map_left]
  exact bind_congr h

theorem erase_observeMsgHdr (hdr : Nat) (s : σ) :
    Prod.fst <$> observeMsgHdr ob hdr s = walkMsgHdr t.run hdr := by
  refine erase_observeHdrBuf_bind ob fun s₁ => erase_observeHdrBuf_bind ob fun s₂ => ?_
  rw [map_bind]
  refine bind_congr fun msgIov => ?_
  by_cases hNull : msgIov = 0
  · rw [if_pos hNull, if_pos hNull]
    rfl
  · rw [if_neg hNull, if_neg hNull, map_bind]
    refine bind_congr fun msgIovlen => ?_
    by_cases hEmpty : msgIovlen = 0
    · rw [if_pos hEmpty, if_pos hEmpty]
      rfl
    · rw [if_neg hEmpty, if_neg hEmpty]
      exact erase_observeArray ob _ _ _

end Observed

/-- A handler that does nothing where a pointer is null, with its notes and without them. -/
theorem erase_unless {σ : Type} {c : Prop} [Decidable c] {p : UserProgram (Int32 × σ)}
    {q : UserProgram Int32} {r : Int32} {s : σ} (h : Prod.fst <$> p = q) :
    Prod.fst <$> (if c then pure (r, s) else p) = if c then pure r else q := by
  by_cases hNull : c
  · rw [if_pos hNull, if_pos hNull]
    rfl
  · rw [if_neg hNull, if_neg hNull]
    exact h

/-! ## What is observed -/

/-- A target as the walk finds it. -/
structure IovTarget where
  base : Nat
  len : Nat
  /-- the length that the iovec holds behind the access -/
  left : Nat
  deriving DecidableEq

/-- The targets of `n` iovecs. Those before have been accessed. -/
def targets (t : Touch) (m : UserCells) (iov : Nat) : Nat → List IovTarget
  | 0 => []
  | n + 1 =>
      let base := peek m iov 8
      let len := peek m (iov + 8) 8
      let m' := t.after m base len
      if base = 0 ∨ len = 0 then targets t m (iov + iovecSize) n
      else ⟨base, len, peek m' (iov + 8) 8⟩ :: targets t m' (iov + iovecSize) n

/-- The memory behind a buffer that the header points to. -/
def afterHdrBuf (t : Touch) (m : UserCells) (ptr len : Nat) : UserCells :=
  if peek m ptr 8 = 0 ∨ len = 0 then m else t.after m (peek m ptr 8) len

/-- The memory behind the name and the control data. -/
def afterHdrBufs (t : Touch) (m : UserCells) (hdr : Nat) : UserCells :=
  let m := afterHdrBuf t m (hdr + MsgHdr.msgName) (peek m (hdr + MsgHdr.msgNamelen) 4)
  afterHdrBuf t m (hdr + MsgHdr.msgControl) (peek m (hdr + MsgHdr.msgControllen) 8)

def msgTargets (t : Touch) (m : UserCells) (hdr : Nat) : List IovTarget :=
  let m := afterHdrBufs t m hdr
  if peek m (hdr + MsgHdr.msgIov) 8 = 0 then []
  else targets t m (peek m (hdr + MsgHdr.msgIov) 8) (peek m (hdr + MsgHdr.msgIovlen) 8)

/-- The number of bytes in the targets. -/
def lenSum : List IovTarget → Nat
  | [] => 0
  | x :: xs => x.len + lenSum xs

/-- The lengths behind the accesses, which are added up. -/
def leftSum : List IovTarget → Nat
  | [] => 0
  | x :: xs => x.left + leftSum xs

namespace Observer

variable {t : Touch} {σ : Type} (ob : Observer t σ)

def targets (xs : List IovTarget) (s : σ) : σ := xs.foldl (fun s x => ob.target x.base x.len s) s

def hdrBuf (m : UserCells) (ptr len : Nat) (s : σ) : σ :=
  if peek m ptr 8 = 0 ∨ len = 0 then s else ob.buffer (peek m ptr 8) len s

/-- The name and the control data. -/
def hdrBufs (m : UserCells) (hdr : Nat) (s : σ) : σ :=
  let s := ob.hdrBuf m (hdr + MsgHdr.msgName) (peek m (hdr + MsgHdr.msgNamelen) 4) s
  let m := afterHdrBuf t m (hdr + MsgHdr.msgName) (peek m (hdr + MsgHdr.msgNamelen) 4)
  ob.hdrBuf m (hdr + MsgHdr.msgControl) (peek m (hdr + MsgHdr.msgControllen) 8) s

def msg (m : UserCells) (hdr : Nat) (s : σ) : σ :=
  let s := ob.hdrBufs m hdr s
  let m := afterHdrBufs t m hdr
  let iov := peek m (hdr + MsgHdr.msgIov) 8
  let n := peek m (hdr + MsgHdr.msgIovlen) 8
  if iov = 0 ∨ n = 0 then s else ob.targets (Dispatch.targets t m iov n) (ob.array iov n s)

end Observer

section Accessed

variable {m m' : UserCells} {tr : List (Event userSig)}

theorem Touch.left_le_len (t : Touch) {iov n : Nat} {x : IovTarget} (h : x ∈ targets t m iov n) :
    x.left ≤ x.len := by
  induction n generalizing iov m with
  | zero => cases h
  | succ n ih =>
    rw [targets] at h
    split at h
    · exact ih h
    · rcases List.mem_cons.mp h with rfl | hRest
      · exact peek_le_of_zeroed fun a _ _ => t.zeroes m _ _ a
      · exact ih hRest

theorem saturatingAdd_min (n k : Nat) :
    saturatingAdd (min n usizeMax) k = min (n + k) usizeMax := by
  unfold saturatingAdd
  omega

variable {t : Touch} {σ : Type} (ob : Observer t σ)

/-- One iovec: its target, if it has one, is the first of those that are left. -/
theorem runs_observeIovec {iov k : Nat} {s : σ} {acc : Nat × σ}
    (h : Runs (observeIovec ob iov (min k usizeMax, s)) m tr acc m') : ∃ k' s',
      acc = (min k' usizeMax, s') ∧ ∀ n,
        k' + leftSum (targets t m' (iov + iovecSize) n) = k + leftSum (targets t m iov (n + 1)) ∧
        ob.targets (targets t m' (iov + iovecSize) n) s' =
          ob.targets (targets t m iov (n + 1)) s := by
  obtain ⟨tr₁, hRest⟩ := runs_readUsize_bind h
  by_cases hNull : peek m iov 8 = 0
  · rw [if_pos hNull] at hRest
    obtain ⟨rfl, rfl⟩ := runs_ret hRest
    refine ⟨k, s, rfl, fun n => ?_⟩
    rw [targets, if_pos (.inl hNull)]
    exact ⟨rfl, rfl⟩
  · rw [if_neg hNull] at hRest
    obtain ⟨tr₂, hRest⟩ := runs_readUsize_bind hRest
    by_cases hEmpty : peek m (iov + 8) 8 = 0
    · rw [if_pos hEmpty] at hRest
      obtain ⟨rfl, rfl⟩ := runs_ret hRest
      refine ⟨k, s, rfl, fun n => ?_⟩
      rw [targets, if_pos (.inr hEmpty)]
      exact ⟨rfl, rfl⟩
    · rw [if_neg hEmpty] at hRest
      obtain ⟨tr₃, note, m₁, tr₄, hVisit, hRest⟩ := runs_bind hRest
      obtain ⟨rfl, rfl⟩ := ob.spec hVisit
      obtain ⟨tr₅, hRet⟩ := runs_readUsize_bind hRest
      obtain ⟨rfl, rfl⟩ := runs_ret hRet
      rw [saturatingAdd_min]
      refine ⟨_, _, rfl, fun n => ?_⟩
      rw [targets, if_neg (not_or.mpr ⟨hNull, hEmpty⟩)]
      exact ⟨Nat.add_assoc _ _ _, rfl⟩

/-- The loop, by induction on the number of iovecs. -/
theorem runs_observeIovecs {iov n k : Nat} {s : σ} {acc : Nat × σ}
    (h : Runs (observeIovecs ob iov n (min k usizeMax, s)) m tr acc m') :
    acc = (min (k + leftSum (targets t m iov n)) usizeMax, ob.targets (targets t m iov n) s) := by
  induction n generalizing iov k s m tr with
  | zero => exact (runs_ret h).1
  | succ n ih =>
    obtain ⟨tr₁, acc₁, m₁, tr₂, hOne, hRest⟩ := runs_bind h
    obtain ⟨k', s', rfl, hFirst⟩ := runs_observeIovec ob hOne
    obtain ⟨hSum, hNotes⟩ := hFirst n
    rw [ih hRest, hSum, hNotes]

theorem runs_observeArray {iov n : Nat} {s : σ} {x : Int32 × σ}
    (h : Runs (observeArray ob iov n s) m tr x m') :
    x = (asI32 (min (leftSum (targets t m iov n)) usizeMax),
      ob.targets (targets t m iov n) (ob.array iov n s)) := by
  obtain ⟨tr₁, acc, m₁, tr₂, hLoop, hRet⟩ := runs_bind h
  have hAcc := runs_observeIovecs (k := 0) ob hLoop
  rw [Nat.zero_add] at hAcc
  rw [(runs_ret hRet).1, hAcc]

theorem runs_observeHdrBuf {ptr q n : Nat} {s s' : σ}
    (h : Runs (observeHdrBuf ob ptr (readLe q n) s) m tr s' m') :
    s' = ob.hdrBuf m ptr (peek m q n) s ∧ m' = afterHdrBuf t m ptr (peek m q n) := by
  obtain ⟨tr₁, hRest⟩ := runs_readUsize_bind h
  rw [Observer.hdrBuf, afterHdrBuf]
  by_cases hNull : peek m ptr 8 = 0
  · rw [if_pos hNull] at hRest
    rw [if_pos (.inl hNull), if_pos (.inl hNull)]
    exact runs_ret hRest
  · rw [if_neg hNull] at hRest
    obtain ⟨tr₂, hRest⟩ := runs_readLe_bind hRest
    by_cases hEmpty : peek m q n = 0
    · rw [if_pos hEmpty] at hRest
      rw [if_pos (.inr hEmpty), if_pos (.inr hEmpty)]
      exact runs_ret hRest
    · rw [if_neg hEmpty] at hRest
      rw [if_neg (not_or.mpr ⟨hNull, hEmpty⟩), if_neg (not_or.mpr ⟨hNull, hEmpty⟩)]
      obtain ⟨tr₃, u, m₁, tr₄, hTouch, hRet⟩ := runs_bind hRest
      obtain rfl := t.runs hTouch
      exact runs_ret hRet

theorem runs_observeMsgHdr {hdr : Nat} {s : σ} {x : Int32 × σ}
    (h : Runs (observeMsgHdr ob hdr s) m tr x m') :
    x = (asI32 (min (leftSum (msgTargets t m hdr)) usizeMax), ob.msg m hdr s) := by
  obtain ⟨tr₁, s₁, m₁, tr₂, hName, hRest⟩ := runs_bind h
  obtain ⟨tr₃, s₂, m₂, tr₄, hControl, hRest⟩ := runs_bind hRest
  obtain ⟨hNotes₁, hAfter₁⟩ := runs_observeHdrBuf ob hName
  obtain ⟨hNotes₂, hAfter₂⟩ := runs_observeHdrBuf ob hControl
  have hNotes : s₂ = ob.hdrBufs m hdr s := by
    rw [hNotes₂, hNotes₁, hAfter₁]
    rfl
  have hAfter : m₂ = afterHdrBufs t m hdr := by
    rw [hAfter₂, hAfter₁]
    rfl
  have hZero : asI32 0 = asI32 (min 0 usizeMax) := congrArg asI32 (Nat.zero_min _).symm
  obtain ⟨tr₅, hRest⟩ := runs_readUsize_bind hRest
  rw [msgTargets, Observer.msg, ← hAfter, ← hNotes]
  by_cases hNull : peek m₂ (hdr + MsgHdr.msgIov) 8 = 0
  · rw [if_pos hNull] at hRest
    rw [if_pos hNull, if_pos (.inl hNull), (runs_ret hRest).1, hZero]
    rfl
  · rw [if_neg hNull] at hRest
    obtain ⟨tr₆, hRest⟩ := runs_readUsize_bind hRest
    rw [if_neg hNull]
    by_cases hEmpty : peek m₂ (hdr + MsgHdr.msgIovlen) 8 = 0
    · rw [if_pos hEmpty] at hRest
      rw [if_pos (.inr hEmpty), (runs_ret hRest).1, hEmpty, hZero]
      rfl
    · rw [if_neg hEmpty] at hRest
      rw [if_neg (not_or.mpr ⟨hNull, hEmpty⟩)]
      exact runs_observeArray ob hRest

end Accessed

end Miring.Dispatch
