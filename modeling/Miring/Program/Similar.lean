import Miring.Program.Basic
import Mathlib.Data.Option.Basic

/-!
# Two programs side by side

`Similar sem sem' R Q p p'` relates programs over two signatures: from states that `R`
relates, either neither program has a defined run, or both end in related states, with
answers that `Q` relates. There is one rule for each way to put programs together, so two
programs of the same shape are similar once their actions are.
-/

namespace Miring.Program

variable {S S' : Signature} {σ σ' α α' β β' : Type}

/-- What two runs have in common. -/
abbrev Ends (R : σ → σ' → Prop) (Q : α → α' → Prop) :
    Option (α × σ) → Option (α' × σ') → Prop :=
  Option.Rel fun q q' => Q q.1 q'.1 ∧ R q.2 q'.2

theorem Ends.of_some {R : σ → σ' → Prop} {Q : α → α' → Prop} {x : Option (α × σ)}
    {x' : Option (α' × σ')} {q : α × σ} {q' : α' × σ'} (h : x = some q) (h' : x' = some q')
    (hQ : Q q.1 q'.1) (hR : R q.2 q'.2) : Ends R Q x x' := by
  rw [h, h']
  exact .some ⟨hQ, hR⟩

theorem Ends.of_none {R : σ → σ' → Prop} {Q : α → α' → Prop} {x : Option (α × σ)}
    {x' : Option (α' × σ')} (h : x = none) (h' : x' = none) : Ends R Q x x' := by
  rw [h, h']
  exact .none

def Similar (sem : Semantics S σ) (sem' : Semantics S' σ') (R : σ → σ' → Prop)
    (Q : α → α' → Prop) (p : Program S α) (p' : Program S' α') : Prop :=
  ∀ s s', R s s' → Ends R Q (run sem p s) (run sem' p' s')

namespace Similar

variable {sem : Semantics S σ} {sem' : Semantics S' σ'} {R : σ → σ' → Prop}
  {Q : α → α' → Prop} {Q' : β → β' → Prop}

theorem ret {a : α} {a' : α'} (h : Q a a') : Similar sem sem' R Q (pure a) (pure a') := by
  intro s s' hs
  exact .some ⟨h, hs⟩

theorem bind {p : Program S α} {p' : Program S' α'} {f : α → Program S β}
    {f' : α' → Program S' β'} (h : Similar sem sem' R Q p p')
    (hf : ∀ a a', Q a a' → Similar sem sem' R Q' (f a) (f' a')) :
    Similar sem sem' R Q' (p >>= f) (p' >>= f') := by
  intro s s' hs
  rw [run_bind, run_bind]
  have hEnds := h s s' hs
  generalize run sem p s = x at hEnds
  generalize run sem' p' s' = x' at hEnds
  cases hEnds with
  | none => exact .none
  | some hq => exact hf _ _ hq.1 _ _ hq.2

/-- Behind the same answer on both sides. -/
theorem bind_eq {p : Program S α} {p' : Program S' α} {f : α → Program S β}
    {f' : α → Program S' β'} (h : Similar sem sem' R Eq p p')
    (hf : ∀ a, Similar sem sem' R Q' (f a) (f' a)) :
    Similar sem sem' R Q' (p >>= f) (p' >>= f') := by
  refine h.bind ?_
  rintro a a' rfl
  exact hf a

theorem mono {Q₁ : α → α' → Prop} {p : Program S α} {p' : Program S' α'}
    (h : Similar sem sem' R Q p p') (hQ : ∀ a a', Q a a' → Q₁ a a') :
    Similar sem sem' R Q₁ p p' := by
  rw [← bind_ret p, ← bind_ret p']
  exact h.bind fun a a' ha => .ret (hQ a a' ha)

/-- Wrap both answers. -/
theorem map {p : Program S α} {p' : Program S' α'} {f : α → β} {f' : α' → β'}
    (h : Similar sem sem' R Q p p') (hf : ∀ a a', Q a a' → Q' (f a) (f' a')) :
    Similar sem sem' R Q' (f <$> p) (f' <$> p') := by
  rw [map_eq_pure_bind, map_eq_pure_bind]
  exact h.bind fun a a' hQ => .ret (hf a a' hQ)

/-- The same case on both sides. -/
theorem ite {c : Prop} [Decidable c] {p q : Program S α} {p' q' : Program S' α'}
    (h : c → Similar sem sem' R Q p p') (h' : ¬ c → Similar sem sem' R Q q q') :
    Similar sem sem' R Q (if c then p else q) (if c then p' else q') := by
  by_cases hc : c
  · rw [if_pos hc, if_pos hc]
    exact h hc
  · rw [if_neg hc, if_neg hc]
    exact h' hc

/-- If the one program has a run, then so has the other. -/
theorem run_eq_some {p : Program S α} {p' : Program S' α'} (h : Similar sem sem' R Q p p')
    {s t : σ} {s' : σ'} {a : α} (hs : R s s') (hRun : run sem p s = some (a, t)) :
    ∃ a' t', run sem' p' s' = some (a', t') ∧ Q a a' ∧ R t t' := by
  have hEnds := h s s' hs
  rw [hRun] at hEnds
  generalize run sem' p' s' = x' at hEnds
  cases hEnds with
  | some hq => exact ⟨_, _, rfl, hq.1, hq.2⟩

end Similar

end Miring.Program
