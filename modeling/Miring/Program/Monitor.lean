import Miring.Program.Interleave

/-!
# Monitors

A monitor follows the actions of a program and their answers, and allows each of them or
refuses it. `Program.Obeys mon Q p m` says that `p`, watched from the state `m` on, does only
what the monitor allows, whatever its actions answer, and ends with `Q`.

A monitor describes an order of actions without the state they work on. The state comes in with
a relation that is kept as long as the program and its monitor go in step (`LockStep`). In a
pool where one party is watched and the others do only what does not concern the monitor, the
monitor takes what the watched party does under any schedule, and the relation holds behind it
(`Pool.watched_of_runSchedule`).
-/

namespace Miring

open Program

abbrev Monitor (S : Signature) (M : Type) := M → Event S → Option M

/-- The monitor behind a trace, unless it refuses some action of it. -/
def Monitor.run {S : Signature} {M : Type} (mon : Monitor S M) : M → List (Event S) → Option M
  | m, [] => some m
  | m, e :: tr => (mon m e).bind fun m' => run mon m' tr

theorem Monitor.run_append {S : Signature} {M : Type} (mon : Monitor S M) (m : M)
    (tr tr' : List (Event S)) :
    mon.run m (tr ++ tr') = (mon.run m tr).bind fun m' => mon.run m' tr' := by
  induction tr generalizing m with
  | nil => rfl
  | cons e tr ih =>
    rw [List.cons_append, run, run, Option.bind_assoc]
    congr 1
    ext1 m'
    exact ih m'

namespace Program

variable {S : Signature} {M α β : Type} {mon : Monitor S M} {m : M}

/-! ## Programs that obey a monitor -/

def Obeys (mon : Monitor S M) (Q : α → M → Prop) : Program S α → M → Prop
  | ret a, m => Q a m
  | act o k, m => ∀ r, ∃ m', mon m ⟨o, r⟩ = some m' ∧ Obeys mon Q (k r) m'

theorem Obeys.mono {Q Q' : α → M → Prop} {p : Program S α} (h : Obeys mon Q p m)
    (hQ : ∀ a m', Q a m' → Q' a m') : Obeys mon Q' p m := by
  induction p generalizing m with
  | ret a => exact hQ a m h
  | act o k ih =>
    intro r
    obtain ⟨m', hMon, hRest⟩ := h r
    exact ⟨m', hMon, ih r hRest⟩

theorem Obeys.bind {Q : α → M → Prop} {Q' : β → M → Prop} {p : Program S α}
    {f : α → Program S β} (h : Obeys mon Q p m) (hf : ∀ a m', Q a m' → Obeys mon Q' (f a) m') :
    Obeys mon Q' (p >>= f) m := by
  induction p generalizing m with
  | ret a => exact hf a m h
  | act o k ih =>
    intro r
    obtain ⟨m', hMon, hRest⟩ := h r
    exact ⟨m', hMon, ih r hRest⟩

theorem Obeys.map {Q : β → M → Prop} {p : Program S α} {f : α → β}
    (h : Obeys mon (fun a => Q (f a)) p m) : Obeys mon Q (f <$> p) m := by
  rw [map_eq_pure_bind]
  exact h.bind fun a m' hQ => hQ

theorem Obeys.ite {c : Prop} [Decidable c] {Q : α → M → Prop} {p q : Program S α}
    (hp : c → Obeys mon Q p m) (hq : ¬ c → Obeys mon Q q m) :
    Obeys mon Q (if c then p else q) m := by
  split
  · next hc => exact hp hc
  · next hc => exact hq hc

/-! ## Programs that do not concern a monitor -/

/-- The program only performs actions of a given kind. -/
def Only (P : S.Op → Prop) : Program S α → Prop
  | ret _ => True
  | act o k => P o ∧ ∀ r, Only P (k r)

namespace Only

variable {P : S.Op → Prop}

theorem ret (a : α) : Only P (.ret a : Program S α) := trivial

theorem bind {p : Program S α} {f : α → Program S β} (h : Only P p) (hf : ∀ a, Only P (f a)) :
    Only P (p >>= f) := by
  induction p with
  | ret a => exact hf a
  | act o k ih => exact ⟨h.1, fun r => ih r (h.2 r)⟩

theorem map {p : Program S α} {f : α → β} (h : Only P p) : Only P (f <$> p) := by
  rw [map_eq_pure_bind]
  exact h.bind fun a => .ret (f a)

theorem ite {c : Prop} [Decidable c] {p q : Program S α} (hp : Only P p) (hq : Only P q) :
    Only P (if c then p else q) := by
  split
  · exact hp
  · exact hq

/-- A monitor that is not concerned stays where it is. -/
theorem obeys {p : Program S α} (h : Only P p)
    (hMon : ∀ o (r : S.Res o), P o → mon m ⟨o, r⟩ = some m) :
    Obeys mon (fun _ m' => m' = m) p m := by
  induction p with
  | ret a => rfl
  | act o k ih => exact fun r => ⟨m, hMon o r h.1, ih r (h.2 r)⟩

end Only

end Program

/-! ## In step with the state -/

variable {S : Signature} {σ M α : Type}

/-- The relation of state and monitor is kept by every action that the monitor allows. -/
def LockStep (sem : Semantics S σ) (mon : Monitor S M) (R : σ → M → Prop) : Prop :=
  ∀ ⦃o : S.Op⦄ ⦃s : σ⦄ ⦃r : S.Res o⦄ ⦃s' : σ⦄ ⦃m m' : M⦄, sem o s = some (r, s') →
    mon m ⟨o, r⟩ = some m' → R s m → R s' m'

namespace Pool

variable {ι : Type} [DecidableEq ι] {sem : Semantics S σ} {mon : Monitor S M}
  {R : σ → M → Prop} {quiet : S.Op → Prop} {Q : α → M → Prop}

/-- Party `i` is watched, and the others are quiet. -/
structure Watched (mon : Monitor S M) (R : σ → M → Prop) (quiet : S.Op → Prop) (Q : α → M → Prop)
    (i : ι) (P : Pool ι S σ α) (m : M) : Prop where
  one : Obeys mon Q (P.progs i) m
  others : ∀ j, j ≠ i → Only quiet (P.progs j)
  rel : R P.state m

/-- A step of the pool: the monitor takes what the watched party does in it. -/
theorem Watched.step (hLock : LockStep sem mon R)
    (hQuiet : ∀ o s (r : S.Res o) s' m, quiet o → sem o s = some (r, s') → R s m → R s' m)
    {i j : ι} {P P' : Pool ι S σ α} {m : M} (h : Watched mon R quiet Q i P m)
    (hs : P.step sem j = some P') :
    ∃ m', mon.run m (P.happens sem i j) = some m' ∧ Watched mon R quiet Q i P' m' := by
  obtain ⟨o, k, r, s', hp, hSem, rfl⟩ := step_iff.mp hs
  by_cases hj : j = i
  · subst hj
    have hOne := h.one
    rw [hp] at hOne
    obtain ⟨m', hMon, hRest⟩ := hOne r
    refine ⟨m', ?_, ?_, ?_, hLock hSem hMon h.rel⟩
    · rw [happens_self hp hSem, Monitor.run, hMon]
      rfl
    · simpa using hRest
    · intro l hl
      simpa [hl] using h.others l hl
  · have hOther := h.others j hj
    rw [hp] at hOther
    refine ⟨m, ?_, ?_, ?_, hQuiet o _ r s' m hOther.1 hSem h.rel⟩
    · rw [happens_of_ne P hj]
      rfl
    · simpa [Ne.symm hj] using h.one
    · intro l hl
      by_cases hlj : l = j
      · subst hlj
        simpa using hOther.2 r
      · simpa [hlj] using h.others l hl

theorem watched_of_runSchedule (hLock : LockStep sem mon R)
    (hQuiet : ∀ o s (r : S.Res o) s' m, quiet o → sem o s = some (r, s') → R s m → R s' m)
    {i : ι} {P P' : Pool ι S σ α} {m : M} (h : Watched mon R quiet Q i P m) {sched : List ι}
    (hRun : P.runSchedule sem sched = some P') :
    ∃ m', mon.run m (P.trace sem i sched) = some m' ∧ Watched mon R quiet Q i P' m' := by
  induction sched generalizing P m with
  | nil =>
    obtain rfl := Option.some.inj hRun
    exact ⟨m, rfl, h⟩
  | cons j sched ih =>
    obtain ⟨P₁, hs, hRest⟩ := Option.bind_eq_some_iff.mp hRun
    obtain ⟨m₁, hFirst, hWatched⟩ := h.step hLock hQuiet hs
    obtain ⟨m', hLast, hEnd⟩ := ih hWatched hRest
    refine ⟨m', ?_, hEnd⟩
    rw [trace, hs, Monitor.run_append, hFirst]
    exact hLast

end Pool

end Miring
