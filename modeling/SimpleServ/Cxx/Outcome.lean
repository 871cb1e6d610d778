import Mathlib.Tactic.Common

/-
  How a call of a C++ function ends.

  A call returns (`ret`), leaves by an exception (`throw`), or evaluates a library
  operation outside its precondition (`ub`): `string_view::remove_prefix (n)` with `n` above
  the size, `view[0]` or `back ()` on an empty view. The standard gives the last case no
  meaning; a build with library assertions aborts there. Nothing after a `ub` is modelled.
  A call that a signal ends the process in is `killed`.

  Functions with state are `StateT σ Outcome`. `Yields m c a P` says that the action `m`
  returns `a` from the state `c` and leaves a state with `P`; `Throws` and `Strays` say that
  it ends in an exception or in an operation outside its precondition. The bind rules below
  run a sequence of actions step by step. Where what a call has done outlives an exception,
  it gives its outcome beside the world that it leaves, and `andThen` goes on from there.
  Nothing here names the modelled program.
-/

namespace SimpleServ.Cxx

/-- The standard exceptions that modelled code raises. -/
inductive Exn where
  | out_of_range
  | invalid_argument
  | runtime_error
  | filesystem_error
  | ios_failure
  deriving DecidableEq, Repr

/-- How a call ends. -/
inductive Outcome (α : Type) where
  | ret (a : α)
  | throw (e : Exn)
  | ub
  | killed
  deriving DecidableEq, Repr

namespace Outcome

variable {α β W : Type}

protected def bind : Outcome α → (α → Outcome β) → Outcome β
  | ret a, f => f a
  | throw e, _ => throw e
  | ub, _ => ub
  | killed, _ => killed

instance : Monad Outcome where
  pure := ret
  bind := Outcome.bind

@[simp] theorem pure_eq (a : α) : (pure a : Outcome α) = ret a := rfl

@[simp] theorem ret_bind (a : α) (f : α → Outcome β) : (ret a >>= f) = f a := rfl

@[simp] theorem throw_bind (e : Exn) (f : α → Outcome β) : (throw e >>= f) = throw e := rfl

@[simp] theorem ub_bind (f : α → Outcome β) : ((ub : Outcome α) >>= f) = ub := rfl

@[simp] theorem killed_bind (f : α → Outcome β) : ((killed : Outcome α) >>= f) = killed := rfl

theorem bind_eq_ret {x : Outcome α} {f : α → Outcome β} {b : β} (h : (x >>= f) = ret b) :
    ∃ a, x = ret a ∧ f a = ret b := by
  cases x with
  | ret a => exact ⟨a, rfl, h⟩
  | throw e => cases h
  | ub => cases h
  | killed => cases h

@[simp] theorem map_ret (f : α → β) (a : α) : f <$> ret a = ret (f a) := rfl

@[simp] theorem map_throw (f : α → β) (e : Exn) : f <$> (throw e : Outcome α) = throw e := rfl

@[simp] theorem map_ub (f : α → β) : f <$> (ub : Outcome α) = ub := rfl

@[simp] theorem map_killed (f : α → β) : f <$> (killed : Outcome α) = killed := rfl

instance : LawfulMonad Outcome := LawfulMonad.mk' Outcome
  (fun x => by cases x <;> rfl)
  (fun _ _ => rfl)
  (fun x _ _ => by cases x <;> rfl)

/-- The call returns: no exception leaves it and it stays inside every precondition. -/
def Returns (o : Outcome α) : Prop := ∃ a, o = ret a

@[simp] theorem returns_ret (a : α) : Returns (ret a) := ⟨a, rfl⟩

@[simp] theorem not_returns_throw (e : Exn) : ¬ Returns (throw e : Outcome α) := by
  rintro ⟨a, h⟩; cases h

@[simp] theorem not_returns_ub : ¬ Returns (ub : Outcome α) := by
  rintro ⟨a, h⟩; cases h

@[simp] theorem not_returns_killed : ¬ Returns (killed : Outcome α) := by
  rintro ⟨a, h⟩; cases h

@[simp] theorem returns_map (f : α → β) (o : Outcome α) : (f <$> o).Returns ↔ o.Returns := by
  cases o <;> simp

/-! ## Calls that leave a world -/

/-- `f` behind a call that has left the world `p.2`, where that call returns. -/
def andThen (p : Outcome α × W) (f : α → W → Outcome β × W) : Outcome β × W :=
  match p with
  | (ret a, world) => f a world
  | (throw e, world) => (throw e, world)
  | (ub, world) => (ub, world)
  | (killed, world) => (killed, world)

variable {f : α → W → Outcome β × W} {p : Outcome α × W} {a : α}

@[simp] theorem andThen_ret (a : α) (world : W) (f : α → W → Outcome β × W) :
    andThen (ret a, world) f = f a world := rfl

theorem andThen_of_ret (h : p.1 = ret a) : andThen p f = f a p.2 := by
  obtain ⟨outcome, world⟩ := p
  cases h
  rfl

/-- Nothing follows on a call that does not return. -/
theorem andThen_of_not_returns (h : ¬ p.1.Returns) :
    ¬ (andThen p f).1.Returns ∧ (andThen p f).2 = p.2 := by
  obtain ⟨outcome, world⟩ := p
  cases outcome with
  | ret a => exact absurd (returns_ret a) h
  | throw e => exact ⟨not_returns_throw e, rfl⟩
  | ub => exact ⟨not_returns_ub, rfl⟩
  | killed => exact ⟨not_returns_killed, rfl⟩

theorem returns_andThen_iff :
    (andThen p f).1.Returns ↔ ∃ a, p.1 = ret a ∧ (f a p.2).1.Returns := by
  constructor
  · intro h
    by_cases hp : p.1.Returns
    · obtain ⟨a, ha⟩ := hp
      rw [andThen_of_ret ha] at h
      exact ⟨a, ha, h⟩
    · exact absurd h (andThen_of_not_returns hp).1
  · rintro ⟨a, ha, h⟩
    rwa [andThen_of_ret ha]

end Outcome

open Outcome

section Actions

variable {σ α β : Type} {m : StateT σ Outcome α} {f : α → StateT σ Outcome β}
  {c : σ} {a : α} {b : β} {P Q : σ → Prop}

/-- `m` returns `a` from `c`, in a state with `P`. -/
def Yields (m : StateT σ Outcome α) (c : σ) (a : α) (P : σ → Prop) : Prop :=
  ∃ c', m.run c = ret (a, c') ∧ P c'

/-- `m` leaves by an exception from `c`. -/
def Throws (m : StateT σ Outcome α) (c : σ) : Prop := ∃ e, m.run c = throw e

/-- `m` evaluates an operation outside its precondition from `c`. -/
def Strays (m : StateT σ Outcome α) (c : σ) : Prop := m.run c = ub

/-- After a first action that returns, the sequence runs on from the state it left. -/
theorem Yields.run_bind (h : Yields m c a P) (f : α → StateT σ Outcome β) :
    ∃ c', P c' ∧ (m >>= f).run c = (f a).run c' := by
  obtain ⟨c', hm, hP⟩ := h
  refine ⟨c', hP, ?_⟩
  rw [StateT.run_bind, hm]
  rfl

theorem Yields.bind (h : Yields m c a P) (k : ∀ c', P c' → Yields (f a) c' b Q) :
    Yields (m >>= f) c b Q := by
  obtain ⟨c', hP, hr⟩ := h.run_bind f
  unfold Yields
  rw [hr]
  exact k c' hP

theorem Yields.throws (h : Yields m c a P) (k : ∀ c', P c' → Throws (f a) c') :
    Throws (m >>= f) c := by
  obtain ⟨c', hP, hr⟩ := h.run_bind f
  unfold Throws
  rw [hr]
  exact k c' hP

theorem Yields.strays (h : Yields m c a P) (k : ∀ c', P c' → Strays (f a) c') :
    Strays (m >>= f) c := by
  obtain ⟨c', hP, hr⟩ := h.run_bind f
  unfold Strays
  rw [hr]
  exact k c' hP

theorem Throws.bind (h : Throws m c) : Throws (m >>= f) c := by
  obtain ⟨e, he⟩ := h
  refine ⟨e, ?_⟩
  rw [StateT.run_bind, he]
  rfl

theorem Strays.bind (h : Strays m c) : Strays (m >>= f) c := by
  unfold Strays at h ⊢
  rw [StateT.run_bind, h]
  rfl

theorem yields_pure (hP : P c) : Yields (pure a : StateT σ Outcome α) c a P :=
  ⟨c, rfl, hP⟩

end Actions

end SimpleServ.Cxx
