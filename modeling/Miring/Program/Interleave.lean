import Miring.Program.Basic
import Mathlib.Data.List.Induction

/-!
# Interleaved programs and rely-guarantee

`Pool` is a family of programs on one shared state, one per party. A schedule picks the
party whose next action is performed; nothing else is assumed about it.

`Program.Sat R G Q p x` says that `p`, started in `x` and interrupted between any two
actions by steps of the relation `R`, always finds its next action defined, performs only
actions allowed by `G`, and ends with `Q`. Beside the state, `x` holds auxiliary values that
no action reads; the acting party chooses them anew with each of its actions. If the
guarantee of every party is contained in the rely of every other one, the judgements of the
parties hold together in every pool that a schedule reaches (`Pool.sat_of_reach`).
-/

namespace Miring

namespace Program

variable {S : Signature} {σ γ α β : Type}

/-- A description of the actions a party may perform: the action, the state before it, its
answer and the state after it. -/
abbrev Guarantee (S : Signature) (τ : Type) := (o : S.Op) → τ → S.Res o → τ → Prop

section Sat

variable (sem : Semantics S σ) (R : σ × γ → σ × γ → Prop) (G : Guarantee S (σ × γ))

def Sat (Q : α → σ × γ → Prop) : Program S α → σ × γ → Prop
  | ret a, x => ∀ x', R x x' → Q a x'
  | act o k, x => ∀ x', R x x' →
      ∃ r x'', sem o x'.1 = some (r, x''.1) ∧ G o x' r x'' ∧ Sat Q (k r) x''

variable {sem R G} {Q : α → σ × γ → Prop}

/-- A judgement survives a step of the rely. -/
theorem Sat.rely (hTrans : ∀ a b c, R a b → R b c → R a c) {p : Program S α} {x x' : σ × γ}
    (h : Sat sem R G Q p x) (hR : R x x') : Sat sem R G Q p x' := by
  cases p with
  | ret a => exact fun y hy => h y (hTrans _ _ _ hR hy)
  | act o k => exact fun y hy => h y (hTrans _ _ _ hR hy)

theorem Sat.bind (hRefl : ∀ x, R x x) {Q' : β → σ × γ → Prop} {p : Program S α}
    {f : α → Program S β} {x : σ × γ}
    (h : Sat sem R G (fun a y => Sat sem R G Q' (f a) y) p x) :
    Sat sem R G Q' (p >>= f) x := by
  induction p generalizing x with
  | ret a => exact h x (hRefl x)
  | act o k ih =>
    intro y hy
    obtain ⟨r, y', hsem, hG, hk⟩ := h y hy
    exact ⟨r, y', hsem, hG, ih r hk⟩

theorem Sat.mono {Q' : α → σ × γ → Prop} (hQ : ∀ a x, Q a x → Q' a x) {p : Program S α}
    {x : σ × γ} (h : Sat sem R G Q p x) : Sat sem R G Q' p x := by
  induction p generalizing x with
  | ret a => exact fun y hy => hQ a y (h y hy)
  | act o k ih =>
    intro y hy
    obtain ⟨r, y', hsem, hG, hk⟩ := h y hy
    exact ⟨r, y', hsem, hG, ih r hk⟩

end Sat

end Program

/-! ## Pools -/

/-- One program per party and the state they share. -/
structure Pool (ι : Type) (S : Signature) (σ α : Type) where
  progs : ι → Program S α
  state : σ

namespace Pool

open Program

variable {ι : Type} [DecidableEq ι] {S : Signature} {σ γ α : Type}

/-- Perform the next action of party `i`. -/
def step (sem : Semantics S σ) (P : Pool ι S σ α) (i : ι) : Option (Pool ι S σ α) :=
  match P.progs i with
  | .ret _ => none
  | .act o k => (sem o P.state).map fun q => ⟨Function.update P.progs i (k q.1), q.2⟩

/-- Perform the actions that a schedule picks. -/
def runSchedule (sem : Semantics S σ) : Pool ι S σ α → List ι → Option (Pool ι S σ α)
  | P, [] => some P
  | P, i :: sched => (P.step sem i).bind fun P' => runSchedule sem P' sched

/-- What party `i` does when the next action is that of party `j`. -/
def happens (sem : Semantics S σ) (P : Pool ι S σ α) (i j : ι) : List (Event S) :=
  match P.progs j with
  | .ret _ => []
  | .act o _ => if j = i then ((sem o P.state).map fun q => ⟨o, q.1⟩).toList else []

/-- The actions of party `i` under a schedule and the answers they got, in order. -/
def trace (sem : Semantics S σ) (i : ι) : Pool ι S σ α → List ι → List (Event S)
  | _, [] => []
  | P, j :: sched => P.happens sem i j ++ (P.step sem j).elim [] fun P' => trace sem i P' sched

/-- What party `i` returns, if it is done. -/
def result? (P : Pool ι S σ α) (i : ι) : Option α :=
  match P.progs i with
  | .ret a => some a
  | .act _ _ => none

/-- Some schedule leads from the first pool to the second. -/
inductive Reach (sem : Semantics S σ) : Pool ι S σ α → Pool ι S σ α → Prop where
  | refl {P : Pool ι S σ α} : Reach sem P P
  | step {P P' P'' : Pool ι S σ α} (h : Reach sem P P') (i : ι)
      (hs : P'.step sem i = some P'') : Reach sem P P''

variable {sem : Semantics S σ}

theorem step_iff {P P' : Pool ι S σ α} {i : ι} :
    P.step sem i = some P' ↔ ∃ o k r s', P.progs i = .act o k ∧ sem o P.state = some (r, s') ∧
      P' = ⟨Function.update P.progs i (k r), s'⟩ := by
  unfold Pool.step
  cases hp : P.progs i with
  | ret a => simp
  | act o k =>
    simp only [Option.map_eq_some_iff, Program.act.injEq]
    constructor
    · rintro ⟨q, hq, rfl⟩
      exact ⟨o, k, q.1, q.2, ⟨rfl, HEq.rfl⟩, hq, rfl⟩
    · rintro ⟨o', k', r, s', ⟨rfl, hk⟩, hsem, rfl⟩
      cases hk
      exact ⟨(r, s'), hsem, rfl⟩

theorem happens_self {P : Pool ι S σ α} {i : ι} {o : S.Op} {k : S.Res o → Program S α}
    {r : S.Res o} {s' : σ} (hp : P.progs i = .act o k) (hSem : sem o P.state = some (r, s')) :
    P.happens sem i i = [⟨o, r⟩] := by
  unfold happens
  rw [hp]
  simp [hSem]

theorem happens_of_ne (P : Pool ι S σ α) {i j : ι} (hj : j ≠ i) : P.happens sem i j = [] := by
  unfold happens
  cases P.progs j with
  | ret a => rfl
  | act o k => exact if_neg hj

omit [DecidableEq ι] in
theorem result?_eq_some_iff {P : Pool ι S σ α} {i : ι} {a : α} :
    P.result? i = some a ↔ P.progs i = .ret a := by
  unfold result?
  cases P.progs i with
  | ret b => simp
  | act o k => simp

theorem runSchedule_append (P : Pool ι S σ α) (sched sched' : List ι) :
    P.runSchedule sem (sched ++ sched') =
      (P.runSchedule sem sched).bind fun P' => P'.runSchedule sem sched' := by
  induction sched generalizing P with
  | nil => rfl
  | cons i sched ih =>
    rw [List.cons_append, runSchedule, runSchedule]
    cases P.step sem i with
    | none => rfl
    | some P' => exact ih P'

theorem Reach.cons {P P' P'' : Pool ι S σ α} {i : ι} (hs : P.step sem i = some P')
    (h : Reach sem P' P'') : Reach sem P P'' := by
  induction h with
  | refl => exact .step .refl i hs
  | step h j hj ih => exact .step ih j hj

theorem reach_of_runSchedule {P P' : Pool ι S σ α} {sched : List ι}
    (h : P.runSchedule sem sched = some P') : Reach sem P P' := by
  induction sched generalizing P with
  | nil =>
    obtain rfl := Option.some.inj h
    exact .refl
  | cons i sched ih =>
    obtain ⟨P'', hs, hRest⟩ := Option.bind_eq_some_iff.mp h
    exact .cons hs (ih hRest)

/-- **The invariant rule for schedules**: what holds at the start and is kept by every step of
every party holds behind every schedule. The invariant may mention the schedule so far. -/
theorem runSchedule_invariant (Inv : List ι → Pool ι S σ α → Prop) {P₀ : Pool ι S σ α}
    (h0 : Inv [] P₀)
    (hStep : ∀ sched P i P', Inv sched P → P.step sem i = some P' → Inv (sched ++ [i]) P')
    {sched : List ι} {P : Pool ι S σ α} (hRun : P₀.runSchedule sem sched = some P) :
    Inv sched P := by
  induction sched using List.reverseRecOn generalizing P with
  | nil =>
    obtain rfl := Option.some.inj hRun
    exact h0
  | append_singleton sched i ih =>
    rw [runSchedule_append] at hRun
    obtain ⟨P', hFirst, hLast⟩ := Option.bind_eq_some_iff.mp hRun
    obtain ⟨P'', hs, hEnd⟩ := Option.bind_eq_some_iff.mp hLast
    obtain rfl := Option.some.inj hEnd
    exact hStep sched P' i _ (ih hFirst) hs

section Parallel

variable {R : ι → σ × γ → σ × γ → Prop} {G : ι → Guarantee S (σ × γ)}
  {Q : ι → α → σ × γ → Prop}

/-- Every party keeps its own judgement. -/
def AllSat (sem : Semantics S σ) (R : ι → σ × γ → σ × γ → Prop) (G : ι → Guarantee S (σ × γ))
    (Q : ι → α → σ × γ → Prop) (P : Pool ι S σ α) (g : γ) : Prop :=
  ∀ i, Sat sem (R i) (G i) (Q i) (P.progs i) (P.state, g)

omit [DecidableEq ι] in
/-- The next action of a party is defined and within its guarantee. -/
theorem AllSat.action (hRefl : ∀ i x, R i x x) {P : Pool ι S σ α} {g : γ}
    (h : AllSat sem R G Q P g) {i : ι} {o : S.Op} {k : S.Res o → Program S α}
    (hp : P.progs i = .act o k) :
    ∃ r x', sem o P.state = some (r, x'.1) ∧ G i o (P.state, g) r x' := by
  have hi := h i
  rw [hp] at hi
  obtain ⟨r, x', hsem, hG, -⟩ := hi _ (hRefl i _)
  exact ⟨r, x', hsem, hG⟩

/-- A step of party `i` obeys its guarantee and keeps every judgement. -/
theorem AllSat.step (hRefl : ∀ i x, R i x x) (hTrans : ∀ i a b c, R i a b → R i b c → R i a c)
    (hCompat : ∀ i j, i ≠ j → ∀ o x r x', G i o x r x' → R j x x')
    {P P' : Pool ι S σ α} {g : γ} (h : AllSat sem R G Q P g) {i : ι}
    (hs : P.step sem i = some P') :
    ∃ g', (∃ o r, G i o (P.state, g) r (P'.state, g')) ∧ AllSat sem R G Q P' g' := by
  obtain ⟨o, k, r, s', hp, hsem, rfl⟩ := step_iff.mp hs
  have hi := h i
  rw [hp] at hi
  obtain ⟨r', ⟨t, g'⟩, hsem', hG, hk⟩ := hi _ (hRefl i _)
  obtain ⟨rfl, rfl⟩ := Prod.mk.inj (Option.some.inj (hsem.symm.trans hsem'))
  refine ⟨g', ⟨o, r, hG⟩, fun j => ?_⟩
  by_cases hj : j = i
  · subst hj
    simpa using hk
  · simp only [Function.update_of_ne hj]
    exact (h j).rely (hTrans j) (hCompat i j (Ne.symm hj) o _ r _ hG)

/-- **Parallel composition.** In every reachable pool the judgement of every party holds,
and an invariant kept by every guarantee holds. -/
theorem sat_of_reach (hRefl : ∀ i x, R i x x) (hTrans : ∀ i a b c, R i a b → R i b c → R i a c)
    (hCompat : ∀ i j, i ≠ j → ∀ o x r x', G i o x r x' → R j x x')
    {Inv : σ × γ → Prop} (hInv : ∀ i o x r x', G i o x r x' → Inv x → Inv x')
    {P P' : Pool ι S σ α} (hr : Reach sem P P') {g : γ} (h : AllSat sem R G Q P g)
    (h0 : Inv (P.state, g)) : ∃ g', AllSat sem R G Q P' g' ∧ Inv (P'.state, g') := by
  induction hr with
  | refl => exact ⟨g, h, h0⟩
  | step hr i hs ih =>
    obtain ⟨g₁, hSat, hI⟩ := ih
    obtain ⟨g₂, ⟨o, r, hG⟩, hSat'⟩ := hSat.step hRefl hTrans hCompat hs
    exact ⟨g₂, hSat', hInv i o _ r _ hG hI⟩

end Parallel

end Pool

end Miring
