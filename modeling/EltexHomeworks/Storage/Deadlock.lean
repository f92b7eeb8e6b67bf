import EltexHomeworks.Storage.Mutexes

namespace EltexHomeworks.Storage

open EltexHomeworks.Lib

/-!
# Storage — no deadlock

Only one call of the program blocks: `pthread_mutex_lock` in `storage_control`.  A mutex is held by
exactly the thread that is inside what it guards (`Held`), so the loader never waits for itself, and
the buyer it waits for is on its way to `pthread_mutex_unlock`, with no lock to take before.
-/

variable {n : Nat}

/-! ### Who holds a mutex -/

/-- A mutex is held by a thread exactly while the thread is inside what it guards. -/
structure Held (s : State n) : Prop where
  guarded : Guarded s.mutex s.inside
  owned : Owned s.mutex s.inside

section Goto

variable {s : State n} {b : Fin n} {pc : BuyerPc} {k : Nat}

theorem State.inside_goto_self : (s.goto b pc).inside (.buyer b) k ↔ pc.inside k := by
  show (Function.update s.buyer b pc b).inside k ↔ _
  rw [Function.update_self]

theorem State.inside_goto_of_ne {t : Thread n} (ht : t ≠ .buyer b) :
    (s.goto b pc).inside t k ↔ s.inside t k := by
  cases t with
  | loader => exact Iff.rfl
  | buyer b' =>
    have hb : b' ≠ b := fun hb => ht (by rw [hb])
    show (Function.update s.buyer b pc b').inside k ↔ _
    rw [Function.update_of_ne hb]
    exact Iff.rfl

/-- A buyer that goes to a place that needs no less than its old one. -/
theorem owned_goto (pc : BuyerPc) (h : Owned s.mutex s.inside)
    (hpc : ∀ k, (s.buyer b).inside k → pc.inside k) :
    Owned s.mutex (s.goto b pc).inside := by
  refine h.mono fun t k ht => ?_
  by_cases hb : t = .buyer b
  · subst hb
    exact State.inside_goto_self.mpr (hpc k ht)
  · exact (State.inside_goto_of_ne hb).mpr ht

end Goto

/-- **A step of a buyer** leaves no mutex behind. -/
theorem BuyerMoves.owned {s s' : State n} {b : Fin n} (h : Owned s.mutex s.inside)
    (hm : BuyerMoves s b s') : Owned s'.mutex s'.inside := by
  cases hm with
  | goodbye hpc => exact owned_goto _ h fun k hk => by rw [hpc] at hk; exact hk
  | empty hpc => exact h
  | see room hpc demand full => exact owned_goto _ h fun k hk => by rw [hpc] at hk; exact hk
  | busy room seen hpc => exact owned_goto _ h fun k hk => by rw [hpc] at hk; exact hk
  | enter room seen hpc free =>
    -- it takes the mutex of the room it goes into, and was in no other
    refine h.acquire (State.inside_goto_self (s := s).mpr rfl) fun t k ht => ?_
    have hb : t ≠ .buyer b := by
      rintro rfl
      have hin : (s.buyer b).inside k := ht
      rw [hpc] at hin
      exact hin
    exact (State.inside_goto_of_ne hb).mpr ht
  | read room seen hpc => exact owned_goto _ h fun k hk => by rw [hpc] at hk; exact hk
  | buy room seen tmp hpc =>
    exact owned_goto (.clear room) h fun k hk => by rw [hpc] at hk; exact hk
  | clear room hpc =>
    exact owned_goto (.unlock room) h fun k hk => by rw [hpc] at hk; exact hk
  | leave room hpc =>
    -- it gives back the one of the room it was in
    refine h.release fun t k hk ht => ?_
    have hb : t ≠ .buyer b := by
      rintro rfl
      have hin : (s.buyer b).inside k := ht
      rw [hpc] at hin
      exact hk hin
    exact (State.inside_goto_of_ne (s := s) hb).mpr ht

section Loader

variable {s s' : State n} {j : Nat}

/-- A step of the loader leaves the buyers where they are. -/
theorem State.inside_of_loader {t : Thread n} {k : Nat} (hb : s'.buyer = s.buyer)
    (hpc : s.loader.inside n k → s'.loader.inside n k) (ht : s.inside t k) : s'.inside t k := by
  cases t with
  | loader => exact hpc ht
  | buyer b =>
    show (s'.buyer b).inside k
    rw [hb]
    exact ht

/-- The loader at a place that needs no less than its old one. -/
theorem owned_loader (h : Owned s.mutex s.inside) (hb : s'.buyer = s.buyer)
    (hpc : ∀ k, s.loader.inside n k → s'.loader.inside n k) : Owned s.mutex s'.inside := by
  refine h.mono fun t k ht => ?_
  exact State.inside_of_loader hb (hpc k) ht

/-- The loader takes a mutex. -/
theorem owned_loader_acquire (h : Owned s.mutex s.inside) (hb : s'.buyer = s.buyer)
    (hin : s'.loader.inside n j) (hpc : ∀ k, s.loader.inside n k → s'.loader.inside n k) :
    Owned (Function.update s.mutex j (some .loader)) s'.inside := by
  refine h.acquire (t := .loader) hin fun t k ht => ?_
  exact State.inside_of_loader hb (hpc k) ht

/-- The loader gives a mutex back. -/
theorem owned_loader_release (h : Owned s.mutex s.inside) (hb : s'.buyer = s.buyer)
    (hpc : ∀ k, k ≠ j → s.loader.inside n k → s'.loader.inside n k) :
    Owned (Function.update s.mutex j none) s'.inside := by
  refine h.release fun t k hk ht => ?_
  exact State.inside_of_loader hb (hpc k hk) ht

end Loader

/-- The index of the lock loop of `storage_control` does not pass its bound. -/
def LoaderPc.bounded (n : Nat) : LoaderPc → Prop
  | .lock _ k => k ≤ n + 1
  | _ => True

/-- **A step of the loader** leaves no mutex behind. -/
theorem LoaderMoves.owned {s s' : State n} (h : Owned s.mutex s.inside)
    (hbound : s.loader.bounded n) (hm : LoaderMoves s s') : Owned s'.mutex s'.inside := by
  cases hm with
  | full i hpc => exact owned_loader (s := s) h rfl fun k hk => by rw [hpc] at hk; exact hk
  | see i hpc empty => exact owned_loader (s := s) h rfl fun k hk => by rw [hpc] at hk; exact hk
  | busy i hpc => exact owned_loader (s := s) h rfl fun k hk => by rw [hpc] at hk; exact hk
  | enter i hpc free =>
    exact owned_loader_acquire h rfl rfl fun k hk => by rw [hpc] at hk; exact absurd hk id
  | load i rand hpc => exact owned_loader (s := s) h rfl fun k hk => by rw [hpc] at hk; exact hk
  | leave i hpc =>
    exact owned_loader_release h rfl fun k hne hk => by rw [hpc] at hk; exact absurd hk hne
  | lock i j hpc hj free =>
    -- it holds those of the rooms below `j`, and now the one of `j`
    refine owned_loader_acquire h rfl (Nat.lt_succ_self j) fun k hk => ?_
    rw [hpc] at hk
    exact Nat.lt_succ_of_lt hk
  | locked i j hpc hj =>
    refine owned_loader (s := s) h rfl fun k hk => ?_
    rw [hpc] at hk hbound
    exact Nat.lt_of_lt_of_le hk hbound
  | print i j hpc hj => exact owned_loader (s := s) h rfl fun k hk => by rw [hpc] at hk; exact hk
  | printed i j hpc hj =>
    refine owned_loader (s := s) h rfl fun k hk => ?_
    rw [hpc] at hk
    exact ⟨Nat.zero_le k, hk⟩
  | release i j hpc hj =>
    refine owned_loader_release h rfl fun k hne hk => ?_
    rw [hpc] at hk
    have hk' : j ≤ k ∧ k < n + 1 := hk
    exact ⟨by omega, hk'.2⟩
  | released i j hpc hj =>
    refine owned_loader (s := s) h rfl fun k hk => ?_
    rw [hpc] at hk
    have hk' : j ≤ k ∧ k < n + 1 := hk
    omega

theorem LoaderMoves.bounded {s s' : State n} (hm : LoaderMoves s s') : s'.loader.bounded n := by
  cases hm with
  | leave i hpc => exact Nat.zero_le _
  | lock i j hpc hj free => exact hj
  | _ => trivial

theorem BuyerMoves.loader_eq {s s' : State n} {b : Fin n} (hm : BuyerMoves s b s') :
    s'.loader = s.loader := by
  cases hm <;> rfl

/-- Every step keeps who holds what, and the bound of the lock loop. -/
theorem held_invariant (n : Nat) (rand : Room → Nat) :
    (storage n rand).Invariant fun s => Held s ∧ s.loader.bounded n where
  base := by
    rintro s rfl
    refine ⟨⟨fun t k ht => ?_, fun t k ht => ?_⟩, trivial⟩
    · cases t <;> exact absurd ht id
    · cases ht
  keep := by
    rintro s l s' ⟨h, hbound⟩ hst
    rcases next_cases hst with hm | ⟨b, hm⟩
    · exact ⟨⟨hm.guarded h.guarded, hm.owned h.owned hbound⟩, hm.bounded⟩
    · exact ⟨⟨hm.guarded h.guarded, hm.owned h.owned⟩, hm.loader_eq ▸ hbound⟩

/-- **Mutexes are held as they should be** in every run: by the thread that is inside the room, or
    by the loader that has locked them for its report, and by nobody else. -/
theorem held_of_reachable {rand : Room → Nat} {s : State n} (hs : (storage n rand).Reachable s) :
    Held s :=
  ((held_invariant n rand).of_reachable hs).1

theorem bounded_of_reachable {rand : Room → Nat} {s : State n}
    (hs : (storage n rand).Reachable s) : s.loader.bounded n :=
  ((held_invariant n rand).of_reachable hs).2

/-! ### What blocks -/

/-- The mutex a thread is about to lock, or to try to lock. -/
def State.tries (s : State n) : Thread n → Option Nat
  | .buyer b =>
    match s.buyer b with
    | .trylock room _ => some room
    | _ => none
  | .loader =>
    match s.loader with
    | .trylock i => some i
    | .lock _ k => if k < n + 1 then some k else none
    | _ => none

/-- The loader is in `storage_control`. -/
def LoaderPc.inControl : LoaderPc → Prop
  | .lock _ _ => True
  | .print _ _ => True
  | .release _ _ => True
  | _ => False

/-- The loader is blocked by the mutex `k`. -/
def State.Blocked (s : State n) (k : Nat) : Prop :=
  (∃ i, s.loader = .lock i k) ∧ k < n + 1 ∧ s.mutex k ≠ none

/-- A buyer can go on until its thread ends. -/
theorem isSome_buyerStep_iff {s : State n} {b : Fin n} {rand : Nat} :
    (s.buyerStep b rand).isSome ↔ s.buyer b ≠ .done := by
  unfold State.buyerStep
  cases hpc : s.buyer b with
  | loop =>
    dsimp only
    split
    · split <;> simp
    · simp
  | trylock room seen =>
    dsimp only
    split <;> simp
  | _ => simp

/-- The loader can go on unless it is blocked. -/
theorem isSome_loaderStep_iff {s : State n} {rand : Nat} :
    (s.loaderStep rand).isSome ↔ ∀ k, ¬ s.Blocked k := by
  have hfree : (∀ i k, s.loader ≠ .lock i k) → ∀ k, ¬ s.Blocked k :=
    fun h k hk => hk.1.elim fun i hi => h i k hi
  unfold State.loaderStep
  cases hpc : s.loader with
  | lock i k =>
    -- only a mutex that another thread holds blocks it
    dsimp only
    by_cases hk : k < n + 1
    · rw [if_pos hk]
      cases hm : s.mutex k with
      | none =>
        refine iff_of_true rfl fun k' hblocked => hblocked.2.2 ?_
        obtain ⟨i', hi'⟩ := hblocked.1
        rw [hpc] at hi'
        cases hi'
        exact hm
      | some t =>
        refine iff_of_false (by simp) fun h => h k ⟨⟨i, hpc⟩, hk, ?_⟩
        rw [hm]
        simp
    · rw [if_neg hk]
      refine iff_of_true rfl fun k' hblocked => ?_
      obtain ⟨i', hi'⟩ := hblocked.1
      rw [hpc] at hi'
      cases hi'
      exact hk hblocked.2.1
  -- at all other places both outcomes of the test are steps
  | check i =>
    refine iff_of_true ?_ (hfree (by simp [hpc]))
    dsimp only
    split <;> rfl
  | trylock i =>
    refine iff_of_true ?_ (hfree (by simp [hpc]))
    dsimp only
    split <;> rfl
  | print i k =>
    refine iff_of_true ?_ (hfree (by simp [hpc]))
    dsimp only
    split <;> rfl
  | release i k =>
    refine iff_of_true ?_ (hfree (by simp [hpc]))
    dsimp only
    split <;> rfl
  | _ => exact iff_of_true rfl (hfree (by simp [hpc]))

/-! ### The way to the unlock -/

/-- The buyer `b` comes to the unlock of the mutex `k` by steps of its own. -/
def State.Unlocks (s : State n) (b : Fin n) (k : Nat) : Prop :=
  ∃ ls : List (Label n), (∀ l ∈ ls, l.thread = .buyer b) ∧
    ∃ s', run State.next s ls = some s' ∧ s'.mutex k = none

/-- One more step in front. -/
theorem State.Unlocks.cons {s t : State n} {b : Fin n} {k : Nat}
    (hst : s.buyerStep b 0 = some t) (h : t.Unlocks b k) : s.Unlocks b k := by
  obtain ⟨ls, hls, s', hrun, hfree⟩ := h
  refine ⟨⟨.buyer b, 0⟩ :: ls, ?_, s', ?_, hfree⟩
  · rw [List.forall_mem_cons]
    exact ⟨rfl, hls⟩
  · rw [run_cons_eq_some]
    exact ⟨t, hst, hrun⟩

section Way

variable {s : State n} {b : Fin n} {room : Room}

theorem State.buyer_goto (pc : BuyerPc) : (s.goto b pc).buyer b = pc := Function.update_self ..

theorem unlocks_of_unlock (hpc : s.buyer b = .unlock room) : s.Unlocks b room := by
  have hst : s.buyerStep b 0 =
      some { s.goto b .loop with mutex := Function.update s.mutex room none } := by
    rw [State.buyerStep, hpc]
  exact .cons hst ⟨[], by simp, _, rfl, Function.update_self ..⟩

theorem unlocks_of_clear (hpc : s.buyer b = .clear room) : s.Unlocks b room := by
  have hst : s.buyerStep b 0 = some { s.goto b (.unlock room) with
      rooms := Function.update s.rooms room 0#32 } := by
    rw [State.buyerStep, hpc]
  exact .cons hst (unlocks_of_unlock (State.buyer_goto (s := s) _))

theorem unlocks_of_update {seen tmp : BitVec 32} (hpc : s.buyer b = .update room seen tmp) :
    s.Unlocks b room := by
  have hst : s.buyerStep b 0 = some { s.goto b (.clear room) with
      demand := Function.update s.demand b (s.demand b - tmp)
      goods := Function.update s.goods b (s.goods b + tmp.toNat) } := by
    rw [State.buyerStep, hpc]
  exact .cons hst (unlocks_of_clear (State.buyer_goto (s := s) _))

theorem unlocks_of_read {seen : BitVec 32} (hpc : s.buyer b = .read room seen) :
    s.Unlocks b room := by
  have hst : s.buyerStep b 0 = some (s.goto b (.update room seen (s.rooms room))) := by
    rw [State.buyerStep, hpc]
  exact .cons hst (unlocks_of_update (State.buyer_goto (s := s) _))

/-- **A buyer in a room comes out of it**, whatever the others do not do: from `trylock` to the
    unlock it waits for nobody. -/
theorem unlocks_of_inside {k : Nat} (h : (s.buyer b).inside k) : s.Unlocks b k := by
  cases hpc : s.buyer b with
  | read room seen => rw [hpc] at h; cases h; exact unlocks_of_read hpc
  | update room seen tmp => rw [hpc] at h; cases h; exact unlocks_of_update hpc
  | clear room => rw [hpc] at h; cases h; exact unlocks_of_clear hpc
  | unlock room => rw [hpc] at h; cases h; exact unlocks_of_unlock hpc
  | _ => rw [hpc] at h; exact absurd h id

end Way

/-! ### Every interleaving -/

/-- No thread waits for itself, nor in a circle: only `storage_control` locks a mutex while it
    holds others, and a buyer that holds one never waits before it unlocks it. -/
structure DeadlockFree (s : State n) : Prop where
  /-- No thread holds a mutex that it is about to lock. -/
  no_relock : ∀ t k, s.tries t = some k → s.mutex k ≠ some t
  /-- A thread that holds a mutex can go on, unless it is the loader in `storage_control`. -/
  enabled : ∀ t k, s.mutex k = some t → (t = .loader → ¬ s.loader.inControl) →
    ∀ rand, (s.next ⟨t, rand⟩).isSome
  /-- Whoever blocks the loader is a buyer, which comes to its unlock by steps of its own. -/
  unblocked : ∀ k, s.Blocked k → ∃ b, s.mutex k = some (.buyer b) ∧ s.Unlocks b k
  /-- Some thread can go on. -/
  progress : ∃ l, (s.next l).isSome

/-- A thread that is about to lock a mutex is not inside what it guards. -/
theorem not_inside_of_tries {s : State n} {t : Thread n} {k : Nat} (h : s.tries t = some k) :
    ¬ s.inside t k := by
  cases t with
  | buyer b =>
    show ¬ (s.buyer b).inside k
    cases hpc : s.buyer b with
    | trylock room seen => exact id
    | _ => simp [State.tries, hpc] at h
  | loader =>
    show ¬ s.loader.inside n k
    cases hpc : s.loader with
    | trylock i => exact id
    | lock i j =>
      simp only [State.tries, hpc, Option.ite_none_right_eq_some, Option.some.injEq] at h
      rw [h.2]
      exact Nat.lt_irrefl k
    | _ => simp [State.tries, hpc] at h

/-- **No deadlock.**  In every reachable state of every interleaving, for any number of buyers, no
    thread locks what it holds, whoever holds a mutex can go on, but for the loader in
    `storage_control`, and whoever blocks the loader comes to its unlock. -/
theorem deadlockFree {rand : Room → Nat} {s : State n} (hs : (storage n rand).Reachable s) :
    DeadlockFree s := by
  have h := held_of_reachable hs
  have hrelock : ∀ t k, s.tries t = some k → s.mutex k ≠ some t :=
    fun t k ht hk => not_inside_of_tries ht (h.owned t k hk)
  have hblocked : ∀ k, s.Blocked k → ∃ b, s.mutex k = some (.buyer b) ∧ s.Unlocks b k := by
    rintro k ⟨⟨i, hi⟩, hk, hm⟩
    obtain ⟨t, ht⟩ := Option.ne_none_iff_exists'.mp hm
    cases t with
    | loader =>
      -- the loader is about to lock `k` itself
      refine absurd ht (hrelock .loader k ?_)
      rw [State.tries, hi]
      exact if_pos hk
    | buyer b => exact ⟨b, ht, unlocks_of_inside (h.owned _ k ht)⟩
  have hbuyer : ∀ b k, s.mutex k = some (.buyer b) → ∀ r, (s.next ⟨.buyer b, r⟩).isSome := by
    intro b k hk r
    refine isSome_buyerStep_iff.mpr fun hpc => ?_
    have hin : (s.buyer b).inside k := h.owned _ k hk
    rw [hpc] at hin
    exact hin
  refine ⟨hrelock, fun t k ht hcontrol r => ?_, hblocked, ?_⟩
  · cases t with
    | loader =>
      refine isSome_loaderStep_iff.mpr fun j hj => hcontrol rfl ?_
      obtain ⟨i, hi⟩ := hj.1
      rw [hi]
      trivial
    | buyer b => exact hbuyer b k ht r
  · by_cases hwait : ∃ k, s.Blocked k
    · obtain ⟨k, hk⟩ := hwait
      obtain ⟨b, hb, _⟩ := hblocked k hk
      exact ⟨⟨.buyer b, 0⟩, hbuyer b k hb 0⟩
    · exact ⟨⟨.loader, 0⟩, isSome_loaderStep_iff.mpr fun k hk => hwait ⟨k, hk⟩⟩

/-- The loader has filled room 0 again and waits for the buyer, who is in room 1. -/
theorem deadlockFree_while_blocked : ∃ s : State 1, s.Blocked 1 ∧ DeadlockFree s := by
  have hrun : ∃ s, run State.next (State.start 1 fun _ => 0)
      (List.replicate 6 ⟨.buyer 0, 0⟩ ++ List.replicate 2 ⟨.buyer 0, 1⟩ ++
        List.replicate 5 ⟨.loader, 0⟩) = some s ∧
      s.loader = .lock 0 1 ∧ s.mutex 1 = some (.buyer 0) := ⟨_, rfl, rfl, rfl⟩
  obtain ⟨s, hs, hpc, hm⟩ := hrun
  refine ⟨s, ⟨⟨0, hpc⟩, by decide, by rw [hm]; simp⟩, ?_⟩
  exact deadlockFree (TransitionSystem.Reachable.run (.init rfl) hs)

end EltexHomeworks.Storage
