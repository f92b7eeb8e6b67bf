import Mathlib.Logic.Function.Basic

namespace EltexHomeworks.Lib

/-!
# Mutexes and the threads inside

A bank of mutexes is a map `holder` from mutexes to the threads that hold them, and `inside t k`
says that the thread `t` is at a place of its program that the mutex `k` guards.  `Guarded` is the
discipline that connects the two: a thread is inside only while it holds the mutex.

* `Guarded.exclusive` — mutual exclusion;
* `Guarded.acquire`, `Guarded.release`, `Guarded.mono` — the rules for the steps of a thread: it
  takes a free mutex and goes inside, it leaves and gives the mutex back, or it goes on without
  entering anything new.

`Owned` is the converse, with the same three rules: a thread that holds a mutex is inside, so no
mutex is kept by a thread that has left.
-/

variable {τ κ : Type*} {holder : κ → Option τ} {inside inside' : τ → κ → Prop}

/-- Every thread holds the mutexes that guard the place it is at. -/
def Guarded (holder : κ → Option τ) (inside : τ → κ → Prop) : Prop :=
  ∀ t k, inside t k → holder k = some t

namespace Guarded

/-- **Mutual exclusion**: two threads inside one critical section are the same, since both hold its
    lock. -/
theorem exclusive (h : Guarded holder inside) {t t' : τ} {k : κ} (ht : inside t k)
    (ht' : inside t' k) : t = t' :=
  Option.some.inj ((h t k ht).symm.trans (h t' k ht'))

/-- Nobody is inside what a free mutex guards. -/
theorem not_inside (h : Guarded holder inside) {k : κ} (hk : holder k = none) (t : τ) :
    ¬ inside t k := by
  intro ht
  rw [h t k ht] at hk
  cases hk

/-- A step after which no thread is at more places than before. -/
theorem mono (h : Guarded holder inside) (hsub : ∀ t k, inside' t k → inside t k) :
    Guarded holder inside' :=
  fun t k ht => h t k (hsub t k ht)

/-- A thread takes a free mutex and goes inside. -/
theorem acquire [DecidableEq κ] (h : Guarded holder inside) {t : τ} {k : κ} (hk : holder k = none)
    (hsub : ∀ t' k', inside' t' k' → inside t' k' ∨ t' = t ∧ k' = k) :
    Guarded (Function.update holder k (some t)) inside' := by
  intro t' k' h'
  rcases hsub t' k' h' with hin | ⟨rfl, rfl⟩
  · have hne : k' ≠ k := by rintro rfl; exact h.not_inside hk t' hin
    rw [Function.update_of_ne hne]
    exact h t' k' hin
  · exact Function.update_self ..

/-- A thread that is inside leaves and gives the mutex back. -/
theorem release [DecidableEq κ] (h : Guarded holder inside) {t : τ} {k : κ} (ht : inside t k)
    (hsub : ∀ t' k', inside' t' k' → inside t' k') (hout : ¬ inside' t k) :
    Guarded (Function.update holder k none) inside' := by
  intro t' k' h'
  have hin := hsub t' k' h'
  have hne : k' ≠ k := by
    rintro rfl
    have htt : t' = t := h.exclusive hin ht
    subst htt
    exact hout h'
  rw [Function.update_of_ne hne]
  exact h t' k' hin

end Guarded

/-- Every thread that holds a mutex is at a place the mutex guards. -/
def Owned (holder : κ → Option τ) (inside : τ → κ → Prop) : Prop :=
  ∀ t k, holder k = some t → inside t k

namespace Owned

/-- A step after which every thread is at the places it was at before. -/
theorem mono (h : Owned holder inside) (hsub : ∀ t k, inside t k → inside' t k) :
    Owned holder inside' :=
  fun t k ht => hsub t k (h t k ht)

/-- A thread takes a mutex and goes inside. -/
theorem acquire [DecidableEq κ] (h : Owned holder inside) {t : τ} {k : κ} (ht : inside' t k)
    (hsub : ∀ t' k', inside t' k' → inside' t' k') :
    Owned (Function.update holder k (some t)) inside' := by
  intro t' k' h'
  by_cases hk : k' = k
  · subst hk
    rw [Function.update_self] at h'
    cases h'
    exact ht
  · rw [Function.update_of_ne hk] at h'
    exact hsub t' k' (h t' k' h')

/-- A mutex is given back, and what other mutexes guard stays as it was. -/
theorem release [DecidableEq κ] (h : Owned holder inside) {k : κ}
    (hsub : ∀ t' k', k' ≠ k → inside t' k' → inside' t' k') :
    Owned (Function.update holder k none) inside' := by
  intro t' k' h'
  have hk : k' ≠ k := by
    rintro rfl
    rw [Function.update_self] at h'
    cases h'
  rw [Function.update_of_ne hk] at h'
  exact hsub t' k' hk (h t' k' h')

end Owned

end EltexHomeworks.Lib
