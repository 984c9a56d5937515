import Miring.Program.Basic

/-!
# Runs that come to an end

`Completes sem p s` says that the run of `p` from `s` comes to an end, so that it never is
before an action without a defined behaviour. There is one rule for each way to build a
program; they are equivalences, so that they also say what a program needs for it.
-/

namespace Miring.Program

variable {S : Signature} {σ α β : Type} {sem : Semantics S σ}

/-- The run comes to an end. -/
def Completes (sem : Semantics S σ) (p : Program S α) (s : σ) : Prop :=
  ∃ a s', run sem p s = some (a, s')

theorem completes_ret (a : α) (s : σ) : Completes sem (ret a) s := ⟨a, s, rfl⟩

theorem completes_act_iff {o : S.Op} {k : S.Res o → Program S α} {s : σ} :
    Completes sem (act o k) s ↔ ∃ r s', sem o s = some (r, s') ∧ Completes sem (k r) s' := by
  constructor
  · rintro ⟨a, s₂, hRun⟩
    rw [run_act] at hRun
    obtain ⟨⟨r, s₁⟩, hSem, hRest⟩ := Option.bind_eq_some_iff.mp hRun
    exact ⟨r, s₁, hSem, a, s₂, hRest⟩
  · rintro ⟨r, s₁, hSem, a, s₂, hRest⟩
    exact ⟨a, s₂, (run_act_of hSem).trans hRest⟩

theorem completes_bind_iff {p : Program S α} {f : α → Program S β} {s : σ} :
    Completes sem (p >>= f) s ↔ ∃ a s', run sem p s = some (a, s') ∧ Completes sem (f a) s' := by
  constructor
  · rintro ⟨b, s₂, hRun⟩
    obtain ⟨a, s₁, hFirst, hRest⟩ := run_bind_iff.mp hRun
    exact ⟨a, s₁, hFirst, b, s₂, hRest⟩
  · rintro ⟨a, s₁, hFirst, b, s₂, hRest⟩
    exact ⟨b, s₂, (run_bind_of hFirst).trans hRest⟩

/-- Before a program that completes wherever this one may lead. -/
theorem completes_before {p : Program S α} {f : α → Program S β} {s : σ}
    (hf : ∀ a s', run sem p s = some (a, s') → Completes sem (f a) s') :
    Completes sem (p >>= f) s ↔ Completes sem p s := by
  rw [completes_bind_iff]
  constructor
  · rintro ⟨a, s', hFirst, -⟩
    exact ⟨a, s', hFirst⟩
  · rintro ⟨a, s', hFirst⟩
    exact ⟨a, s', hFirst, hf a s' hFirst⟩

theorem completes_map {p : Program S α} {f : α → β} {s : σ} :
    Completes sem (p >>= fun a => pure (f a)) s ↔ Completes sem p s :=
  completes_before fun a s' _ => completes_ret (f a) s'

/-- Behind a program that leaves the state alone and whose answer does not matter. -/
theorem completes_behind {p : Program S α} {q : Program S β} {s : σ}
    (hKeeps : ∀ a s', run sem p s = some (a, s') → s' = s) :
    Completes sem (p >>= fun _ => q) s ↔ Completes sem p s ∧ Completes sem q s := by
  rw [completes_bind_iff]
  constructor
  · rintro ⟨a, s', hFirst, hRest⟩
    obtain rfl := hKeeps a s' hFirst
    exact ⟨⟨a, _, hFirst⟩, hRest⟩
  · rintro ⟨⟨a, s', hFirst⟩, hRest⟩
    obtain rfl := hKeeps a s' hFirst
    exact ⟨a, _, hFirst, hRest⟩

/-- A program that is left out under a condition. -/
theorem completes_unless {c : Prop} [Decidable c] {a : α} {p : Program S α} {s : σ} :
    Completes sem (if c then ret a else p) s ↔ (¬ c → Completes sem p s) := by
  by_cases hc : c
  · rw [if_pos hc]
    exact iff_of_true (completes_ret a s) fun h => absurd hc h
  · rw [if_neg hc]
    exact ⟨fun h _ => h, fun h => h hc⟩

end Miring.Program
