import EltexHomeworks.Lib.Run

namespace EltexHomeworks.Lib

/-!
# Transition systems — reachable states and invariant rules

A program with its environment is a `TransitionSystem`: the states a run may start in and
the labelled steps it may take.  The label says what the environment chose (a key, an
interleaving, the result of a call), so a deterministic program is a system too.

* `Reachable` — the states some run reaches;
* `Invariant` — a predicate that holds initially and is kept by every step, with the rule
  `Invariant.of_reachable` that lifts it to every reachable state;
* `restrict` — the runs whose every step meets a condition, for properties that hold only
  under one;
* `ofStep` — the system of a program given as a function of state and label.
-/

/-- A labelled transition system. -/
structure TransitionSystem (σ ℓ : Type*) where
  /-- The states a run may start in. -/
  init : σ → Prop
  /-- The steps a run may take, each with its label. -/
  step : σ → ℓ → σ → Prop

namespace TransitionSystem

variable {σ ℓ : Type*} {M : TransitionSystem σ ℓ}

/-- The states that some run reaches. -/
inductive Reachable (M : TransitionSystem σ ℓ) : σ → Prop
  | init {s : σ} : M.init s → Reachable M s
  | step {s s' : σ} {l : ℓ} : Reachable M s → M.step s l s' → Reachable M s'

/-- A predicate that holds initially and is kept by every step. -/
structure Invariant (M : TransitionSystem σ ℓ) (I : σ → Prop) : Prop where
  /-- It holds in every initial state. -/
  base : ∀ s, M.init s → I s
  /-- Every step from a state that satisfies it leads to one that does. -/
  keep : ∀ s l s', I s → M.step s l s' → I s'

/-- **Invariant rule.** An invariant holds in every reachable state. -/
theorem Invariant.of_reachable {I : σ → Prop} (h : M.Invariant I) {s : σ}
    (hs : M.Reachable s) : I s := by
  induction hs with
  | init hi => exact h.base _ hi
  | step _ hst ih => exact h.keep _ _ _ ih hst

/-- The runs of `M` whose every step meets the condition `C`. -/
def restrict (M : TransitionSystem σ ℓ) (C : σ → ℓ → Prop) : TransitionSystem σ ℓ where
  init := M.init
  step s l s' := C s l ∧ M.step s l s'

/-- A restricted run is a run. -/
theorem Reachable.of_restrict {C : σ → ℓ → Prop} {s : σ} (h : (M.restrict C).Reachable s) :
    M.Reachable s := by
  induction h with
  | init hi => exact .init hi
  | step _ hst ih => exact .step ih hst.2

/-! ### Programs that react to labels -/

/-- The system of a program that reacts to labels one at a time: `next` either gives the
    next state or says that the step cannot be taken. -/
def ofStep (init : σ → Prop) (next : σ → ℓ → Option σ) : TransitionSystem σ ℓ where
  init := init
  step s l s' := next s l = some s'

/-- A run over a list of labels leads to a reachable state. -/
theorem Reachable.run {init : σ → Prop} {next : σ → ℓ → Option σ} {s t : σ} {ls : List ℓ}
    (hs : (ofStep init next).Reachable s) (h : Lib.run next s ls = some t) :
    (ofStep init next).Reachable t :=
  run_keeps (I := (ofStep init next).Reachable) (fun _ _ _ hs h => .step hs h) hs h

end TransitionSystem

/-- A sequence of two computations succeeds through a result of the first. -/
theorem bind_eq_ok {ε α β : Type} {x : Except ε α} {f : α → Except ε β} {b : β} :
    (x >>= f) = .ok b ↔ ∃ a, x = .ok a ∧ f a = .ok b := by
  cases x with
  | error e => exact ⟨fun h => (by cases h), fun ⟨a, h, _⟩ => (by cases h)⟩
  | ok a =>
    refine ⟨fun h => ⟨a, rfl, h⟩, ?_⟩
    rintro ⟨a', ha, hf⟩
    cases ha
    exact hf

end EltexHomeworks.Lib
