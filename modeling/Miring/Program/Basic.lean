import Mathlib.Logic.Function.Basic
import Mathlib.Tactic.Common

/-!
# Programs over primitive actions

A program is a tree of primitive actions: it returns, or it performs one action and
continues with the answer. The same tree is read in three ways.

* `Program.run` and `Program.exec` perform its actions one after another on a state. An
  action answers `none` where it has no defined behaviour; `exec` also returns the trace.
* `Program.Path` collects every trace and result the tree can produce, whatever the
  answers are. A fact about paths holds under every state and every interference.
* `Program.Steps` follows a path up to some point, for a program that another party
  interrupts there.
-/

namespace Miring

/-- Primitive actions and the type of the answer of each. -/
structure Signature where
  Op : Type
  Res : Op → Type

inductive Program (S : Signature) (α : Type) : Type where
  | ret (a : α)
  | act (o : S.Op) (k : S.Res o → Program S α)

/-- An action together with the answer it got. -/
abbrev Event (S : Signature) := (o : S.Op) × S.Res o

/-- What an action does to a state; `none` where it is not defined. -/
abbrev Semantics (S : Signature) (σ : Type) := (o : S.Op) → σ → Option (S.Res o × σ)

namespace Program

variable {S : Signature} {σ α β γ : Type}

protected def bind : Program S α → (α → Program S β) → Program S β
  | ret a, f => f a
  | act o k, f => act o (fun r => (k r).bind f)

instance : Monad (Program S) where
  pure := ret
  bind := Program.bind

/-- The program that performs one action and returns its answer. -/
def perform (o : S.Op) : Program S (S.Res o) := act o ret

@[simp] theorem pure_eq (a : α) : (pure a : Program S α) = ret a := rfl

@[simp] theorem ret_bind (a : α) (f : α → Program S β) : (ret a >>= f) = f a := rfl

@[simp] theorem act_bind (o : S.Op) (k : S.Res o → Program S α) (f : α → Program S β) :
    (act o k >>= f) = act o (fun r => k r >>= f) := rfl

@[simp] theorem perform_bind (o : S.Op) (f : S.Res o → Program S β) :
    (perform o >>= f) = act o f := rfl

theorem bind_ret (p : Program S α) : (p >>= ret) = p := by
  induction p with
  | ret a => rfl
  | act o k ih =>
    rw [act_bind]
    exact congrArg (act o) (funext ih)

theorem bind_bind (p : Program S α) (f : α → Program S β) (g : β → Program S γ) :
    (p >>= f >>= g) = p >>= fun a => f a >>= g := by
  induction p with
  | ret a => rfl
  | act o k ih =>
    simp only [act_bind]
    exact congrArg (act o) (funext ih)

instance : LawfulMonad (Program S) :=
  LawfulMonad.mk' _ (fun p => bind_ret p) (fun _ _ => rfl) bind_bind

/-! ## Running a program -/

/-- Perform the actions of a program one after another. -/
def run (sem : Semantics S σ) : Program S α → σ → Option (α × σ)
  | ret a, s => some (a, s)
  | act o k, s => (sem o s).bind fun q => run sem (k q.1) q.2

/-- `run` with the trace of the actions performed. -/
def exec (sem : Semantics S σ) : Program S α → σ → Option (List (Event S) × α × σ)
  | ret a, s => some ([], a, s)
  | act o k, s => (sem o s).bind fun q =>
      (exec sem (k q.1) q.2).map fun x => (⟨o, q.1⟩ :: x.1, x.2)

variable {sem : Semantics S σ}

@[simp] theorem run_ret (a : α) (s : σ) : run sem (ret a) s = some (a, s) := rfl

theorem run_act (o : S.Op) (k : S.Res o → Program S α) (s : σ) :
    run sem (act o k) s = (sem o s).bind fun q => run sem (k q.1) q.2 := rfl

@[simp] theorem run_perform (o : S.Op) (s : σ) : run sem (perform o) s = sem o s := by
  rw [perform, run_act]
  cases sem o s <;> rfl

theorem run_bind (p : Program S α) (f : α → Program S β) (s : σ) :
    run sem (p >>= f) s = (run sem p s).bind fun q => run sem (f q.1) q.2 := by
  induction p generalizing s with
  | ret a => rfl
  | act o k ih =>
    rw [act_bind, run_act, run_act]
    cases sem o s with
    | none => rfl
    | some q => exact ih q.1 q.2

/-- Run the first part of a program, then the rest from where it ended. -/
theorem run_bind_of {p : Program S α} {f : α → Program S β} {s s' : σ} {a : α}
    (h : run sem p s = some (a, s')) : run sem (p >>= f) s = run sem (f a) s' := by
  rw [run_bind, h]
  rfl

theorem run_bind_iff {p : Program S α} {f : α → Program S β} {s s' : σ} {b : β} :
    run sem (p >>= f) s = some (b, s') ↔
      ∃ a s₁, run sem p s = some (a, s₁) ∧ run sem (f a) s₁ = some (b, s') := by
  rw [run_bind]
  constructor
  · intro h
    obtain ⟨⟨a, s₁⟩, hFirst, hRest⟩ := Option.bind_eq_some_iff.mp h
    exact ⟨a, s₁, hFirst, hRest⟩
  · rintro ⟨a, s₁, hFirst, hRest⟩
    rw [hFirst]
    exact hRest

theorem run_act_of {o : S.Op} {k : S.Res o → Program S α} {s s' : σ} {r : S.Res o}
    (h : sem o s = some (r, s')) : run sem (act o k) s = run sem (k r) s' := by
  rw [run_act, h]
  rfl

@[simp] theorem exec_ret (a : α) (s : σ) : exec sem (ret a) s = some ([], a, s) := rfl

theorem exec_act (o : S.Op) (k : S.Res o → Program S α) (s : σ) :
    exec sem (act o k) s = (sem o s).bind fun q =>
      (exec sem (k q.1) q.2).map fun x => (⟨o, q.1⟩ :: x.1, x.2) := rfl

/-- A completed execution of `act o k` is one action and a completed execution of the
rest. -/
theorem exec_act_iff {o : S.Op} {k : S.Res o → Program S α} {s s' : σ}
    {tr : List (Event S)} {a : α} :
    exec sem (act o k) s = some (tr, a, s') ↔
      ∃ r s₁ tr', sem o s = some (r, s₁) ∧ exec sem (k r) s₁ = some (tr', a, s') ∧
        tr = ⟨o, r⟩ :: tr' := by
  rw [exec_act]
  constructor
  · intro h
    obtain ⟨q, hq, h⟩ := Option.bind_eq_some_iff.mp h
    obtain ⟨⟨tr', a', s₂⟩, hx, h⟩ := Option.map_eq_some_iff.mp h
    simp only [Prod.mk.injEq] at h
    obtain ⟨rfl, rfl, rfl⟩ := h
    exact ⟨q.1, q.2, tr', hq, hx, rfl⟩
  · rintro ⟨r, s₁, tr', ho, hk, rfl⟩
    simp [ho, hk]

theorem exec_bind (p : Program S α) (f : α → Program S β) (s : σ) :
    exec sem (p >>= f) s = (exec sem p s).bind fun x =>
      (exec sem (f x.2.1) x.2.2).map fun y => (x.1 ++ y.1, y.2) := by
  induction p generalizing s with
  | ret a => simp
  | act o k ih =>
    rw [act_bind, exec_act, exec_act]
    cases sem o s with
    | none => rfl
    | some q =>
      simp only [Option.bind_some, ih]
      cases exec sem (k q.1) q.2 with
      | none => rfl
      | some x =>
        simp only [Option.bind_some, Option.map_some, Option.map_map]
        rfl

theorem exec_bind_iff {p : Program S α} {f : α → Program S β} {s s' : σ}
    {tr : List (Event S)} {b : β} :
    exec sem (p >>= f) s = some (tr, b, s') ↔
      ∃ tr₁ a s₁ tr₂, exec sem p s = some (tr₁, a, s₁) ∧
        exec sem (f a) s₁ = some (tr₂, b, s') ∧ tr = tr₁ ++ tr₂ := by
  rw [exec_bind]
  constructor
  · intro h
    obtain ⟨⟨tr₁, a, s₁⟩, hp, h⟩ := Option.bind_eq_some_iff.mp h
    obtain ⟨⟨tr₂, b', s₂⟩, hf, h⟩ := Option.map_eq_some_iff.mp h
    simp only [Prod.mk.injEq] at h
    obtain ⟨rfl, rfl, rfl⟩ := h
    exact ⟨tr₁, a, s₁, tr₂, hp, hf, rfl⟩
  · rintro ⟨tr₁, a, s₁, tr₂, hp, hf, rfl⟩
    simp [hp, hf]

/-- A run is an execution without its trace. -/
theorem run_eq_exec (p : Program S α) (s : σ) : run sem p s = (exec sem p s).map Prod.snd := by
  induction p generalizing s with
  | ret a => rfl
  | act o k ih =>
    rw [run_act, exec_act]
    cases sem o s with
    | none => rfl
    | some q =>
      simp only [Option.bind_some, ih, Option.map_map]
      rfl

/-! ## The actions of a run -/

/-- `p`, run from `s`, performs `o` in state `t`, which answers `r` and leads to `t'`. -/
inductive Performs (sem : Semantics S σ) :
    Program S α → σ → (o : S.Op) → σ → S.Res o → σ → Prop where
  | here {o : S.Op} {k : S.Res o → Program S α} {s s' : σ} {r : S.Res o}
      (h : sem o s = some (r, s')) : Performs sem (act o k) s o s r s'
  | later {o o' : S.Op} {k : S.Res o' → Program S α} {s s₁ t t' : σ} {r' : S.Res o'}
      {r : S.Res o} (h : sem o' s = some (r', s₁)) (hRest : Performs sem (k r') s₁ o t r t') :
      Performs sem (act o' k) s o t r t'

theorem Performs.sem_eq {p : Program S α} {s t t' : σ} {o : S.Op} {r : S.Res o}
    (h : Performs sem p s o t r t') : sem o t = some (r, t') := by
  induction h with
  | here h => exact h
  | later h hRest ih => exact ih

/-! ## Paths -/

/-- The traces and results a program can produce, whatever its actions answer. -/
inductive Path : Program S α → List (Event S) → α → Prop where
  | ret (a : α) : Path (ret a) [] a
  | act {o : S.Op} {k : S.Res o → Program S α} (r : S.Res o) {tr : List (Event S)} {a : α}
      (h : Path (k r) tr a) : Path (act o k) (⟨o, r⟩ :: tr) a

theorem path_ret_iff {a b : α} {tr : List (Event S)} :
    Path (ret a : Program S α) tr b ↔ tr = [] ∧ b = a := by
  constructor
  · intro h
    cases h
    exact ⟨rfl, rfl⟩
  · rintro ⟨rfl, rfl⟩
    exact .ret _

theorem path_act_iff {o : S.Op} {k : S.Res o → Program S α} {tr : List (Event S)} {a : α} :
    Path (act o k) tr a ↔ ∃ r tr', Path (k r) tr' a ∧ tr = ⟨o, r⟩ :: tr' := by
  constructor
  · intro h
    cases h with
    | act r h => exact ⟨r, _, h, rfl⟩
  · rintro ⟨r, tr', h, rfl⟩
    exact .act r h

theorem path_bind_iff {p : Program S α} {f : α → Program S β} {tr : List (Event S)} {b : β} :
    Path (p >>= f) tr b ↔ ∃ tr₁ a tr₂, Path p tr₁ a ∧ Path (f a) tr₂ b ∧ tr = tr₁ ++ tr₂ := by
  induction p generalizing tr with
  | ret a =>
    constructor
    · intro h
      exact ⟨[], a, tr, .ret a, h, rfl⟩
    · rintro ⟨tr₁, a', tr₂, hp, hf, rfl⟩
      obtain ⟨rfl, rfl⟩ := path_ret_iff.mp hp
      exact hf
  | act o k ih =>
    rw [act_bind, path_act_iff]
    constructor
    · rintro ⟨r, tr', h, rfl⟩
      obtain ⟨tr₁, a, tr₂, hk, hf, rfl⟩ := (ih r).mp h
      exact ⟨_, a, tr₂, .act r hk, hf, rfl⟩
    · rintro ⟨tr₁, a, tr₂, hp, hf, rfl⟩
      obtain ⟨r, tr', hk, rfl⟩ := path_act_iff.mp hp
      exact ⟨r, tr' ++ tr₂, (ih r).mpr ⟨tr', a, tr₂, hk, hf, rfl⟩, rfl⟩

/-- Every execution follows a path. -/
theorem path_of_exec {p : Program S α} {s s' : σ} {tr : List (Event S)} {a : α}
    (h : exec sem p s = some (tr, a, s')) : Path p tr a := by
  induction p generalizing s tr with
  | ret b =>
    cases h
    exact .ret _
  | act o k ih =>
    obtain ⟨r, s₁, tr', -, hk, rfl⟩ := exec_act_iff.mp h
    exact .act r (ih r hk)

/-! ## Partial paths -/

/-- `p` is at `q` once its actions got the answers of the trace. -/
inductive Steps : Program S α → List (Event S) → Program S α → Prop where
  | refl (p : Program S α) : Steps p [] p
  | act {o : S.Op} {k : S.Res o → Program S α} (r : S.Res o) {tr : List (Event S)}
      {q : Program S α} (h : Steps (k r) tr q) : Steps (act o k) (⟨o, r⟩ :: tr) q

theorem Steps.snoc {p : Program S α} {tr : List (Event S)} {o : S.Op}
    {k : S.Res o → Program S α} (h : Steps p tr (Program.act o k)) (r : S.Res o) :
    Steps p (tr ++ [⟨o, r⟩]) (k r) := by
  generalize hq : Program.act o k = q at h
  induction h with
  | refl p => subst hq; exact .act r (.refl _)
  | act r' h ih => exact .act r' (ih hq)

theorem path_of_steps {p q : Program S α} {tr tr' : List (Event S)} {a : α}
    (h : Steps p tr q) (hq : Path q tr' a) : Path p (tr ++ tr') a := by
  induction h with
  | refl p => exact hq
  | act r h ih => exact .act r (ih hq)

/-- A program that has reached its result has followed a path. -/
theorem Steps.path {p : Program S α} {tr : List (Event S)} {a : α}
    (h : Steps p tr (Program.ret a)) : Path p tr a := by
  have hp := path_of_steps h (.ret a)
  rwa [List.append_nil] at hp

end Program

end Miring
