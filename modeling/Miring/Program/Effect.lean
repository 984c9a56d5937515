import Miring.Program.Memory

/-!
# What a run changes

Two judgements about the completed runs of a program over a byte memory: `Keeps p`, that the
memory ends as it was, and `Sets p m R v`, that from `m` all cells of the region `R` end with
the value `v` and no other cell changes. Regions of programs that run one after another are
united, in any order and whether they overlap or not.
-/

namespace Miring

variable {A V L : Type}

/-- The cells of `R` hold `v`, and the others are as they were. -/
structure Filled (R : A → Prop) (v : V) (m m' : Mem A V) : Prop where
  inside : ∀ a, R a → m' a = .byte v
  outside : ∀ a, ¬ R a → m' a = m a

namespace Filled

variable {R R' : A → Prop} {v : V} {m m₁ m' : Mem A V}

theorem none (m : Mem A V) (v : V) : Filled (fun _ => False) v m m :=
  ⟨fun _ h => h.elim, fun _ _ => rfl⟩

theorem congr (h : Filled R v m m') (hR : ∀ a, R' a ↔ R a) : Filled R' v m m' := by
  constructor
  · intro a ha
    exact h.inside a ((hR a).mp ha)
  · intro a ha
    exact h.outside a (mt (hR a).mpr ha)

theorem trans (h : Filled R v m m₁) (h' : Filled R' v m₁ m') :
    Filled (fun a => R a ∨ R' a) v m m' := by
  constructor
  · intro a ha
    by_cases hLast : R' a
    · exact h'.inside a hLast
    · rw [h'.outside a hLast]
      exact h.inside a (ha.resolve_right hLast)
  · intro a ha
    obtain ⟨hFirst, hLast⟩ := not_or.mp ha
    rw [h'.outside a hLast, h.outside a hFirst]

/-- No cell is unmapped. -/
theorem mapped (h : Filled R v m m') {a : A} (ha : m a ≠ .unmapped) : m' a ≠ .unmapped := by
  by_cases hR : R a
  · rw [h.inside a hR]
    nofun
  · rw [h.outside a hR]
    exact ha

end Filled

namespace Program

variable {α β : Type} [DecidableEq A]

def Keeps (p : Program (memSig A V L) α) : Prop :=
  ∀ m tr a m', exec memSem p m = some (tr, a, m') → m' = m

def Sets (p : Program (memSig A V L) α) (m : Mem A V) (R : A → Prop) (v : V) : Prop :=
  ∀ tr a m', exec memSem p m = some (tr, a, m') → Filled R v m m'

/-- No program maps or unmaps a cell. -/
theorem unmapped_of_run {p : Program (memSig A V L) α} {m m' : Mem A V} {x : α}
    (hRun : run memSem p m = some (x, m')) (a : A) : m' a = .unmapped ↔ m a = .unmapped := by
  induction p generalizing m with
  | ret b =>
    obtain ⟨-, rfl⟩ := Prod.mk.inj (Option.some.inj hRun)
    rfl
  | act o k ih =>
    rw [run_act] at hRun
    obtain ⟨⟨r, m₁⟩, hSem, hRest⟩ := Option.bind_eq_some_iff.mp hRun
    rw [ih r hRest]
    cases o with
    | read b =>
      obtain ⟨-, rfl⟩ := memSem_read_iff.mp hSem
      rfl
    | write b v =>
      obtain ⟨hMapped, rfl⟩ := memSem_write_iff.mp hSem
      change Function.update m b (.byte v) a = .unmapped ↔ _
      by_cases hHere : a = b
      · rw [hHere, Function.update_self]
        exact iff_of_false nofun hMapped
      · rw [Function.update_of_ne hHere]
    | note l =>
      cases hSem
      rfl

theorem Keeps.run {p : Program (memSig A V L) α} (h : Keeps p) {m m' : Mem A V} {a : α}
    (hRun : run memSem p m = some (a, m')) : m' = m := by
  rw [run_eq_exec] at hRun
  obtain ⟨⟨tr, b⟩, hExec, rfl⟩ := Option.map_eq_some_iff.mp hRun
  exact h m tr a m' hExec

theorem Sets.run {p : Program (memSig A V L) α} {m m' : Mem A V} {R : A → Prop} {v : V} {a : α}
    (h : Sets p m R v) (hRun : run memSem p m = some (a, m')) : Filled R v m m' := by
  rw [run_eq_exec] at hRun
  obtain ⟨⟨tr, b⟩, hExec, rfl⟩ := Option.map_eq_some_iff.mp hRun
  exact h tr a m' hExec

/-! ## Programs that change nothing -/

namespace Keeps

theorem ret (a : α) : Keeps (.ret a : Program (memSig A V L) α) := by
  intro m tr b m' h
  cases h
  rfl

theorem bind {p : Program (memSig A V L) β} {f : β → Program (memSig A V L) α} (h : Keeps p)
    (hf : ∀ b, Keeps (f b)) : Keeps (p >>= f) := by
  intro m tr a m' hRun
  obtain ⟨tr₁, b, m₁, tr₂, hFirst, hRest, -⟩ := exec_bind_iff.mp hRun
  exact (hf b _ _ _ _ hRest).trans (h _ _ _ _ hFirst)

theorem ite {c : Prop} [Decidable c] {p q : Program (memSig A V L) α} (hp : Keeps p)
    (hq : Keeps q) : Keeps (if c then p else q) := by
  split
  · exact hp
  · exact hq

theorem read (a : A) : Keeps (perform (S := memSig A V L) (.read a)) := by
  intro m tr v m' h
  obtain ⟨r, m₁, tr', hRead, hRet, -⟩ := exec_act_iff.mp h
  cases hRet
  exact (memSem_read_iff.mp hRead).2

end Keeps

/-! ## Programs that set a region -/

namespace Sets

variable {R R' : A → Prop} {v : V} {m : Mem A V}

theorem of_keeps {p : Program (memSig A V L) α} (h : Keeps p) (m : Mem A V) (v : V) :
    Sets p m (fun _ => False) v := by
  intro tr a m' hRun
  rw [h _ _ _ _ hRun]
  exact .none m v

theorem congr {p : Program (memSig A V L) α} (h : Sets p m R v) (hR : ∀ a, R' a ↔ R a) :
    Sets p m R' v :=
  fun tr a m' hRun => (h tr a m' hRun).congr hR

/-- One program behind another one. -/
theorem bind {p : Program (memSig A V L) β} {f : β → Program (memSig A V L) α} (h : Sets p m R v)
    (hf : ∀ b m₁, Filled R v m m₁ → Sets (f b) m₁ R' v) :
    Sets (p >>= f) m (fun a => R a ∨ R' a) v := by
  intro tr a m' hRun
  obtain ⟨tr₁, b, m₁, tr₂, hFirst, hRest, -⟩ := exec_bind_iff.mp hRun
  have hFilled := h _ _ _ hFirst
  exact hFilled.trans (hf b m₁ hFilled _ _ _ hRest)

/-- Behind a program that changes nothing. -/
theorem behind {p : Program (memSig A V L) β} {f : β → Program (memSig A V L) α} (h : Keeps p)
    (hf : ∀ b, Sets (f b) m R v) : Sets (p >>= f) m R v := by
  intro tr a m' hRun
  obtain ⟨tr₁, b, m₁, tr₂, hFirst, hRest, -⟩ := exec_bind_iff.mp hRun
  rw [h _ _ _ _ hFirst] at hRest
  exact hf b _ _ _ hRest

/-- Before a program that changes nothing. -/
theorem before {p : Program (memSig A V L) β} {f : β → Program (memSig A V L) α}
    (h : Sets p m R v) (hf : ∀ b, Keeps (f b)) : Sets (p >>= f) m R v := by
  intro tr a m' hRun
  obtain ⟨tr₁, b, m₁, tr₂, hFirst, hRest, -⟩ := exec_bind_iff.mp hRun
  rw [hf b _ _ _ _ hRest]
  exact h _ _ _ hFirst

/-- A region that is empty under a condition, in which nothing is changed. -/
theorem guarded {c : Prop} [Decidable c] {a : α} {p : Program (memSig A V L) α}
    (h : ¬ c → Sets p m R v) : Sets (if c then .ret a else p) m (fun x => ¬ c ∧ R x) v := by
  by_cases hc : c
  · rw [if_pos hc]
    exact (of_keeps (.ret a) m v).congr fun x => iff_of_false (fun hx => hx.1 hc) id
  · rw [if_neg hc]
    exact (h hc).congr fun x => and_iff_right hc

end Sets

end Program

end Miring
