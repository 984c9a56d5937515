import Miring.Program.Memory

/-!
# Programs that others cannot break

A thread shares its memory with others. `J` bounds what they may do: they write `v` to the cell
`a` only where `J a v`, and they unmap nothing. `Within J m₀ m` says that `m` can come of `m₀` in
this way. `Robust J m₀ Q R p` says that in all such memories each access of `p` is defined, that
`p` itself writes only what `J` allows, and that when it returns, its value is in `Q` and it has
written to every cell of `R`.

There is one rule for each way to build a program. A step of a robust program is defined and
leads to a robust one (`Robust.enabled`, `Robust.step`), so that any number of robust programs
can share a memory.
-/

namespace Miring

variable {A V L : Type}

/-- The cell holds a value that was written to it. -/
def Overwritten (J : A → V → Prop) (m : Mem A V) (a : A) : Prop := ∃ v, m a = .byte v ∧ J a v

theorem Overwritten.keep {J : A → V → Prop} {m m' : Mem A V} {a : A} (h : Overwritten J m a)
    (hCell : m' a = m a ∨ Overwritten J m' a) : Overwritten J m' a := by
  rcases hCell with hSame | hNew
  · rw [Overwritten, hSame]
    exact h
  · exact hNew

/-- A read of the cell may answer `v`. -/
def Finds (J : A → V → Prop) (m₀ : Mem A V) (a : A) (v : V) : Prop := m₀ a = .byte v ∨ J a v

/-- What others can make of the memory `m₀`. -/
structure Within (J : A → V → Prop) (m₀ m : Mem A V) : Prop where
  unmapped_iff : ∀ a, m a = .unmapped ↔ m₀ a = .unmapped
  cell : ∀ a, m a = m₀ a ∨ Overwritten J m a

namespace Within

variable {J : A → V → Prop} {m₀ m : Mem A V}

theorem refl : Within J m₀ m₀ := ⟨fun _ => Iff.rfl, fun _ => .inl rfl⟩

/-- A byte is still one. -/
theorem byte (h : Within J m₀ m) {a : A} {v : V} (hByte : m₀ a = .byte v) :
    ∃ w, m a = .byte w ∧ Finds J m₀ a w := by
  rcases h.cell a with hSame | ⟨w, hWritten, hJ⟩
  · exact ⟨v, hSame.trans hByte, .inl hByte⟩
  · exact ⟨w, hWritten, .inr hJ⟩

theorem write [DecidableEq A] (h : Within J m₀ m) {a : A} {v : V} (hMapped : m₀ a ≠ .unmapped)
    (hJ : J a v) : Within J m₀ (Function.update m a (.byte v)) := by
  constructor
  · intro b
    by_cases hHere : b = a
    · rw [hHere, Function.update_self]
      exact iff_of_false (by simp) hMapped
    · rw [Function.update_of_ne hHere]
      exact h.unmapped_iff b
  · intro b
    by_cases hHere : b = a
    · rw [hHere]
      exact .inr ⟨v, Function.update_self _ _ _, hJ⟩
    · rw [Overwritten, Function.update_of_ne hHere]
      exact h.cell b

end Within

namespace Program

variable {α β : Type} {J : A → V → Prop} {m₀ m m' : Mem A V}

/-- Whatever others make of `m₀`, the program is defined, returns a value in `Q`, and has then
written to the cells of `R`. -/
def Robust (J : A → V → Prop) (m₀ : Mem A V) (Q : α → Prop) :
    (A → Prop) → Program (memSig A V L) α → Prop
  | R, ret x => Q x ∧ ∀ a, ¬ R a
  | R, act (.read a) k => (∃ v, m₀ a = .byte v) ∧ ∀ v, Finds J m₀ a v → Robust J m₀ Q R (k v)
  | R, act (.write a v) k =>
      m₀ a ≠ .unmapped ∧ J a v ∧ Robust J m₀ Q (fun b => b ≠ a ∧ R b) (k ())
  | R, act (.note _) k => Robust J m₀ Q R (k ())

namespace Robust

variable {Q : α → Prop} {Q' : β → Prop} {R R' : A → Prop}

theorem ret {x : α} (h : Q x) (hR : ∀ a, ¬ R a) :
    Robust J m₀ Q R (.ret x : Program (memSig A V L) α) :=
  ⟨h, hR⟩

theorem read {a : A} {v : V} {k : V → Program (memSig A V L) α} (h : m₀ a = .byte v)
    (hk : ∀ w, Finds J m₀ a w → Robust J m₀ Q R (k w)) : Robust J m₀ Q R (act (.read a) k) :=
  ⟨⟨v, h⟩, hk⟩

theorem write {a : A} {v : V} {k : Unit → Program (memSig A V L) α} (h : m₀ a ≠ .unmapped)
    (hJ : J a v) (hk : Robust J m₀ Q (fun b => b ≠ a ∧ R b) (k ())) :
    Robust J m₀ Q R (act (.write a v) k) :=
  ⟨h, hJ, hk⟩

theorem note {l : L} {k : Unit → Program (memSig A V L) α} (hk : Robust J m₀ Q R (k ())) :
    Robust J m₀ Q R (act (.note l) k) :=
  hk

/-- A program that has returned. -/
theorem returned {x : α} (h : Robust J m₀ Q R (.ret x : Program (memSig A V L) α)) :
    Q x ∧ ∀ a, ¬ R a :=
  h

/-- It is enough to write to less. -/
theorem less {p : Program (memSig A V L) α} (h : Robust J m₀ Q R p) (hR : ∀ a, R' a → R a) :
    Robust J m₀ Q R' p := by
  induction p generalizing R R' with
  | ret x => exact ⟨h.1, fun a ha => h.2 a (hR a ha)⟩
  | act o k ih =>
    cases o with
    | read a => exact ⟨h.1, fun v hv => ih v (h.2 v hv) hR⟩
    | write a v => exact ⟨h.1, h.2.1, ih () h.2.2 fun b hb => ⟨hb.1, hR b hb.2⟩⟩
    | note l => exact ih () h hR

theorem bind {p : Program (memSig A V L) α} {f : α → Program (memSig A V L) β}
    (h : Robust J m₀ Q R p) (hf : ∀ x, Q x → Robust J m₀ Q' R' (f x)) :
    Robust J m₀ Q' (fun a => R a ∨ R' a) (p >>= f) := by
  induction p generalizing R with
  | ret x => exact (hf x h.1).less fun a ha => ha.resolve_left (h.2 a)
  | act o k ih =>
    cases o with
    | read a => exact ⟨h.1, fun v hv => ih v (h.2 v hv)⟩
    | write a v =>
      refine ⟨h.1, h.2.1, (ih () h.2.2).less fun b hb => ?_⟩
      exact hb.2.imp_left fun hR => ⟨hb.1, hR⟩
    | note l => exact ih () h

/-- Behind a program that need not write. -/
theorem behind {p : Program (memSig A V L) α} {f : α → Program (memSig A V L) β}
    (h : Robust J m₀ Q (fun _ => False) p) (hf : ∀ x, Q x → Robust J m₀ Q' R (f x)) :
    Robust J m₀ Q' R (p >>= f) :=
  (h.bind hf).less fun _ ha => .inr ha

/-- Before a value. -/
theorem answer {p : Program (memSig A V L) α} {y : β} (h : Robust J m₀ Q R p) (hy : Q' y) :
    Robust J m₀ Q' R (p >>= fun _ => Program.ret y) :=
  (h.bind fun _ _ => ret (R := fun _ => False) hy fun _ => id).less fun _ ha => .inl ha

theorem mono {Q' : α → Prop} {p : Program (memSig A V L) α} (h : Robust J m₀ Q R p)
    (hQ : ∀ x, Q x → Q' x) : Robust J m₀ Q' R p := by
  rw [← bind_ret p]
  exact (h.bind fun x hx => ret (R := fun _ => False) (hQ x hx) fun _ => id).less
    fun _ ha => .inl ha

theorem ite {c : Prop} [Decidable c] {p q : Program (memSig A V L) α}
    (hp : c → Robust J m₀ Q R p) (hq : ¬ c → Robust J m₀ Q R q) :
    Robust J m₀ Q R (if c then p else q) := by
  split
  · next hc => exact hp hc
  · next hc => exact hq hc

variable [DecidableEq A] {o : (memSig A V L).Op}
  {k : (memSig A V L).Res o → Program (memSig A V L) α}

/-- The next access is defined. -/
theorem enabled (h : Robust J m₀ Q R (act o k)) (hm : Within J m₀ m) :
    ∃ r m', memSem o m = some (r, m') := by
  cases o with
  | read a =>
    obtain ⟨v, hByte⟩ := h.1
    obtain ⟨w, hHere, -⟩ := hm.byte hByte
    exact ⟨w, m, memSem_read_iff.mpr ⟨hHere, rfl⟩⟩
  | write a v =>
    refine ⟨(), _, memSem_write_iff.mpr ⟨?_, rfl⟩⟩
    rw [Ne, hm.unmapped_iff]
    exact h.1
  | note l => exact ⟨(), m, rfl⟩

/-- A step: it keeps the bound, changes a cell only by writing to it, and what is left is
robust and has to write what this step has not written. -/
theorem step (h : Robust J m₀ Q R (act o k)) (hm : Within J m₀ m) {r : (memSig A V L).Res o}
    (hSem : memSem o m = some (r, m')) :
    Within J m₀ m' ∧ (∀ a, m' a = m a ∨ Overwritten J m' a) ∧
      ∃ R', Robust J m₀ Q R' (k r) ∧
        ∀ a, R a → R' a ∨ Trace.target ⟨o, r⟩ = some a ∧ Overwritten J m' a := by
  cases o with
  | read a =>
    obtain ⟨hByte, rfl⟩ := memSem_read_iff.mp hSem
    obtain ⟨v, hStart⟩ := h.1
    obtain ⟨w, hHere, hFinds⟩ := hm.byte hStart
    rw [hByte] at hHere
    obtain rfl := MemCell.byte.inj hHere
    exact ⟨hm, fun _ => .inl rfl, R, h.2 _ hFinds, fun _ => .inl⟩
  | write a v =>
    obtain ⟨-, rfl⟩ := memSem_write_iff.mp hSem
    have hHere : Overwritten J (Function.update m a (.byte v)) a :=
      ⟨v, Function.update_self _ _ _, h.2.1⟩
    refine ⟨hm.write h.1 h.2.1, fun b => ?_, _, h.2.2, fun b hb => ?_⟩
    · by_cases hEq : b = a
      · rw [hEq]
        exact .inr hHere
      · exact .inl (Function.update_of_ne hEq _ _)
    · by_cases hEq : b = a
      · rw [hEq]
        exact .inr ⟨rfl, hHere⟩
      · exact .inl ⟨hEq, hb⟩
  | note l =>
    cases hSem
    exact ⟨hm, fun _ => .inl rfl, R, h, fun _ => .inl⟩

end Robust

-- from here on by its rules
attribute [irreducible] Robust

end Program

end Miring
