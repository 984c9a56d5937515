import Miring.Program.Interleave

/-!
# Protocols

A protocol fixes, for the parties of a pool, an invariant of the shared state and the
auxiliary values, what each party relies on, and when an action is safe. A party may do what
keeps the invariant and what every other party relies on.

`Protocol.Triple π i A p Q` says that `p`, run by party `i` from a state with `A`, only performs
safe actions that the protocol allows, and ends with `Q`. The assertions `A` and `Q` are
`Stable`: the other parties cannot break them. There is one rule for each program constructor, and
`Protocol.safe_of_reach` puts the triples of all parties together.
-/

namespace Miring

open Program

structure Protocol (ι : Type) (S : Signature) (σ γ : Type) where
  inv : σ × γ → Prop
  rely : ι → σ × γ → σ × γ → Prop
  safe : S.Op → σ → Prop
  rely_refl : ∀ i x, rely i x x
  rely_trans : ∀ i x y z, rely i x y → rely i y z → rely i x z

namespace Protocol

variable {ι : Type} {S : Signature} {σ γ α β : Type} (sem : Semantics S σ)
  (π : Protocol ι S σ γ)

/-- What party `i` may do with one action. -/
structure Allows (i : ι) (o : S.Op) (x x' : σ × γ) : Prop where
  safe : π.safe o x.1
  inv : π.inv x'
  rely : ∀ j, j ≠ i → π.rely j x x'

/-- The relation on states that party `i` has to expect. -/
def Expects (i : ι) (x x' : σ × γ) : Prop := π.inv x → π.inv x' ∧ π.rely i x x'

/-- The guarantee of party `i`. -/
def guarantee (i : ι) : Guarantee S (σ × γ) := fun o x _ x' => π.inv x → π.Allows i o x x'

/-- The other parties keep the assertion. -/
def Stable (i : ι) (A : σ × γ → Prop) : Prop :=
  ∀ ⦃x x'⦄, π.inv x → π.inv x' → π.rely i x x' → A x → A x'

def Triple (i : ι) (A : σ × γ → Prop) (p : Program S α) (Q : α → σ × γ → Prop) : Prop :=
  ∀ x, π.inv x → A x →
    Sat sem (π.Expects i) (π.guarantee i) (fun a y => π.inv y ∧ Q a y) p x

variable {sem π} {i : ι} {A B : σ × γ → Prop} {Q : α → σ × γ → Prop}

theorem expects_refl (i : ι) (x : σ × γ) : π.Expects i x x := fun h => ⟨h, π.rely_refl i x⟩

theorem expects_trans (i : ι) (x y z : σ × γ) (h : π.Expects i x y) (h' : π.Expects i y z) :
    π.Expects i x z := by
  intro hx
  obtain ⟨hy, hxy⟩ := h hx
  obtain ⟨hz, hyz⟩ := h' hy
  exact ⟨hz, π.rely_trans i _ _ _ hxy hyz⟩

theorem Stable.and (hA : π.Stable i A) (hB : π.Stable i B) :
    π.Stable i fun x => A x ∧ B x :=
  fun _ _ h h' hR ⟨ha, hb⟩ => ⟨hA h h' hR ha, hB h h' hR hb⟩

theorem stable_const (P : Prop) : π.Stable i fun _ => P := fun _ _ _ _ _ h => h

/-! ## Rules -/

theorem Triple.ret {a : α} (hA : π.Stable i A) (h : ∀ x, π.inv x → A x → Q a x) :
    Triple sem π i A (Program.ret a) Q := by
  intro x hx ha y hy
  obtain ⟨hy', hR⟩ := hy hx
  exact ⟨hy', h y hy' (hA hx hy' hR ha)⟩

/-- An action: what it does, and the rest of the program behind it. -/
theorem Triple.act {o : S.Op} {k : S.Res o → Program S α} {B : S.Res o → σ × γ → Prop}
    (hA : π.Stable i A)
    (hStep : ∀ x, π.inv x → A x → ∃ r x', sem o x.1 = some (r, x'.1) ∧ π.Allows i o x x' ∧ B r x')
    (hk : ∀ r, Triple sem π i (B r) (k r) Q) : Triple sem π i A (Program.act o k) Q := by
  intro x hx ha y hy
  obtain ⟨hy', hR⟩ := hy hx
  obtain ⟨r, y', hsem, hAllows, hB⟩ := hStep y hy' (hA hx hy' hR ha)
  exact ⟨r, y', hsem, fun _ => hAllows, hk r y' hAllows.inv hB⟩

theorem Triple.bind {p : Program S α} {f : α → Program S β} {Q' : β → σ × γ → Prop}
    (hp : Triple sem π i A p Q) (hf : ∀ a, Triple sem π i (Q a) (f a) Q') :
    Triple sem π i A (p >>= f) Q' := by
  intro x hx ha
  refine Sat.bind (expects_refl i) ((hp x hx ha).mono ?_)
  rintro a y ⟨hy, hQ⟩
  exact hf a y hy hQ

theorem Triple.conseq {A' : σ × γ → Prop} {Q' : α → σ × γ → Prop} {p : Program S α}
    (h : Triple sem π i A p Q) (hA : ∀ x, π.inv x → A' x → A x)
    (hQ : ∀ a x, π.inv x → Q a x → Q' a x) : Triple sem π i A' p Q' := by
  intro x hx ha
  refine (h x hx (hA x hx ha)).mono ?_
  rintro a y ⟨hy, hq⟩
  exact ⟨hy, hQ a y hy hq⟩

/-- An action whose answer the rest ignores. -/
theorem Triple.map {p : Program S α} {f : α → β} (h : Triple sem π i A p fun _ => B)
    (hB : π.Stable i B) : Triple sem π i A (f <$> p) fun _ => B := by
  rw [map_eq_pure_bind]
  exact h.bind fun a => .ret hB fun _ _ hb => hb

/-! ## Pools -/

/-- **Parallel composition.** In every reachable pool the invariant holds, and the next action
of every party is defined and safe. -/
theorem safe_of_reach [DecidableEq ι] {A : ι → σ × γ → Prop} {Q : ι → α → σ × γ → Prop}
    {P P' : Pool ι S σ α} {g : γ} (hInv : π.inv (P.state, g)) (hA : ∀ i, A i (P.state, g))
    (h : ∀ i, Triple sem π i (A i) (P.progs i) (Q i)) (hr : Pool.Reach sem P P') :
    ∃ g', π.inv (P'.state, g') ∧ ∀ i o k, P'.progs i = .act o k →
      π.safe o P'.state ∧ ∃ r s', sem o P'.state = some (r, s') := by
  have hStart : Pool.AllSat sem (fun i => π.Expects i) (fun i => π.guarantee i)
      (fun i a y => π.inv y ∧ Q i a y) P g := fun i => h i _ hInv (hA i)
  obtain ⟨g', hAll, hInv'⟩ := Pool.sat_of_reach (fun i x => expects_refl i x)
    (fun i x y z => expects_trans i x y z)
    (fun i j hij o x r x' hG hx =>
      ⟨(hG hx).inv, (hG hx).rely j (Ne.symm hij)⟩)
    (fun i o x r x' hG hx => (hG hx).inv) hr hStart hInv
  refine ⟨g', hInv', ?_⟩
  intro i o k hp
  obtain ⟨r, x', hsem, hG⟩ := hAll.action (fun i x => expects_refl i x) hp
  exact ⟨(hG hInv').safe, r, x'.1, hsem⟩

end Protocol

end Miring
