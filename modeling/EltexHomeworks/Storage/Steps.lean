import EltexHomeworks.Storage.Model

namespace EltexHomeworks.Storage

open EltexHomeworks.Lib

/-!
# Storage — what a step can do

`BuyerMoves` and `LoaderMoves` list the transitions of the two programs, each with its guard and
its effect; `buyerStep_cases` and `loaderStep_cases` say that a step is one of them.
-/

variable {n : Nat}

/-- The transitions of the buyer `b`, one for each access to a room or a mutex.  It looks at a
    room before it locks, and again behind the lock, where it takes what it finds there. -/
inductive BuyerMoves (s : State n) (b : Fin n) : State n → Prop
  | goodbye (hpc : s.buyer b = .loop) : BuyerMoves s b (s.goto b .done)
  | empty (hpc : s.buyer b = .loop) : BuyerMoves s b s
  | see (room : Room) (hpc : s.buyer b = .loop) (demand : 0 < (s.demand b).toInt)
      (full : s.rooms room ≠ 0#32) : BuyerMoves s b (s.goto b (.trylock room (s.rooms room)))
  | busy (room : Room) (seen : BitVec 32) (hpc : s.buyer b = .trylock room seen) :
      BuyerMoves s b (s.goto b .loop)
  | enter (room : Room) (seen : BitVec 32) (hpc : s.buyer b = .trylock room seen)
      (free : s.mutex room = none) :
      BuyerMoves s b { s.goto b (.read room seen) with
        mutex := Function.update s.mutex room (some (.buyer b)) }
  | read (room : Room) (seen : BitVec 32) (hpc : s.buyer b = .read room seen) :
      BuyerMoves s b (s.goto b (.update room seen (s.rooms room)))
  | buy (room : Room) (seen tmp : BitVec 32) (hpc : s.buyer b = .update room seen tmp) :
      BuyerMoves s b { s.goto b (.clear room) with
        demand := Function.update s.demand b (s.demand b - tmp)
        goods := Function.update s.goods b (s.goods b + tmp.toNat) }
  | clear (room : Room) (hpc : s.buyer b = .clear room) :
      BuyerMoves s b { s.goto b (.unlock room) with rooms := Function.update s.rooms room 0#32 }
  | leave (room : Room) (hpc : s.buyer b = .unlock room) :
      BuyerMoves s b { s.goto b .loop with mutex := Function.update s.mutex room none }

/-- The transitions of the loader, one for each access to a room or a mutex.  The last six are
    those of `storage_control`, whose loops lock and unlock `n + 1` mutexes and print all rooms. -/
inductive LoaderMoves (s : State n) : State n → Prop
  | full (i : Room) (hpc : s.loader = .check i) : LoaderMoves s { s with loader := .check (i + 1) }
  | see (i : Room) (hpc : s.loader = .check i) (empty : s.rooms i = 0#32) :
      LoaderMoves s { s with loader := .trylock i }
  | busy (i : Room) (hpc : s.loader = .trylock i) :
      LoaderMoves s { s with loader := .check (i + 1) }
  | enter (i : Room) (hpc : s.loader = .trylock i) (free : s.mutex i = none) :
      LoaderMoves s { s with
        loader := .write i
        mutex := Function.update s.mutex i (some .loader) }
  | load (i : Room) (rand : Nat) (hpc : s.loader = .write i) :
      LoaderMoves s { s with
        loader := .unlock i
        rooms := Function.update s.rooms i (State.refill rand)
        loaded := s.loaded + (State.refill rand).toNat }
  | leave (i : Room) (hpc : s.loader = .unlock i) :
      LoaderMoves s { s with loader := .lock i 0, mutex := Function.update s.mutex i none }
  | lock (i : Room) (k : Nat) (hpc : s.loader = .lock i k) (hk : k < n + 1)
      (free : s.mutex k = none) :
      LoaderMoves s { s with
        loader := .lock i (k + 1)
        mutex := Function.update s.mutex k (some .loader) }
  | locked (i : Room) (k : Nat) (hpc : s.loader = .lock i k) (hk : n + 1 ≤ k) :
      LoaderMoves s { s with loader := .print i 0, printed := [] }
  | print (i : Room) (k : Nat) (hpc : s.loader = .print i k) (hk : k < NUM_OF_ROOMS) :
      LoaderMoves s { s with
        loader := .print i (k + 1)
        printed := s.printed ++ [s.rooms ⟨k, hk⟩] }
  | printed (i : Room) (k : Nat) (hpc : s.loader = .print i k) (hk : NUM_OF_ROOMS ≤ k) :
      LoaderMoves s { s with loader := .release i 0 }
  | release (i : Room) (k : Nat) (hpc : s.loader = .release i k) (hk : k < n + 1) :
      LoaderMoves s { s with
        loader := .release i (k + 1)
        mutex := Function.update s.mutex k none }
  | released (i : Room) (k : Nat) (hpc : s.loader = .release i k) (hk : n + 1 ≤ k) :
      LoaderMoves s { s with loader := .check (i + 1) }

/-- A step of a buyer is one of its transitions. -/
theorem buyerStep_cases {s s' : State n} {b : Fin n} {rand : Nat}
    (h : s.buyerStep b rand = some s') : BuyerMoves s b s' := by
  unfold State.buyerStep at h
  cases hpc : s.buyer b with
  | loop =>
    rw [hpc] at h
    dsimp only at h
    -- first the demand is tested, and then the room that was drawn
    split at h
    · rename_i hd
      split at h
      · rename_i hfull
        cases h
        exact .see _ hpc hd hfull
      · cases h
        exact .empty hpc
    · cases h
      exact .goodbye hpc
  | trylock room seen =>
    rw [hpc] at h
    dsimp only at h
    -- `trylock` does not wait
    split at h
    · rename_i hfree
      cases h
      exact .enter room seen hpc hfree
    · cases h
      exact .busy room seen hpc
  | read room seen =>
    rw [hpc] at h
    cases h
    exact .read room seen hpc
  | update room seen tmp =>
    rw [hpc] at h
    cases h
    exact .buy room seen tmp hpc
  | clear room =>
    rw [hpc] at h
    cases h
    exact .clear room hpc
  | unlock room =>
    rw [hpc] at h
    cases h
    exact .leave room hpc
  | done => rw [hpc] at h; cases h

/-- A step of the loader is one of its transitions. -/
theorem loaderStep_cases {s s' : State n} {rand : Nat} (h : s.loaderStep rand = some s') :
    LoaderMoves s s' := by
  unfold State.loaderStep at h
  -- each place of the loader tests its bound or its mutex once, and both outcomes are moves
  cases hpc : s.loader with
  | check i =>
    rw [hpc] at h
    dsimp only at h
    split at h
    · rename_i hempty
      cases h
      exact .see i hpc hempty
    · cases h
      exact .full i hpc
  | trylock i =>
    rw [hpc] at h
    dsimp only at h
    split at h
    · rename_i hfree
      cases h
      exact .enter i hpc hfree
    · cases h
      exact .busy i hpc
  | write i =>
    rw [hpc] at h
    cases h
    exact .load i rand hpc
  | unlock i =>
    rw [hpc] at h
    cases h
    exact .leave i hpc
  | lock i k =>
    rw [hpc] at h
    dsimp only at h
    split at h
    · rename_i hk
      -- a mutex that is held blocks the loader
      split at h
      · rename_i hfree
        cases h
        exact .lock i k hpc hk hfree
      · cases h
    · rename_i hk
      cases h
      exact .locked i k hpc (by omega)
  | print i k =>
    rw [hpc] at h
    dsimp only at h
    split at h
    · rename_i hk
      cases h
      exact .print i k hpc hk
    · rename_i hk
      cases h
      exact .printed i k hpc (by omega)
  | release i k =>
    rw [hpc] at h
    dsimp only at h
    split at h
    · rename_i hk
      cases h
      exact .release i k hpc hk
    · rename_i hk
      cases h
      exact .released i k hpc (by omega)

/-- A step of the program is a transition of one of its threads. -/
theorem next_cases {s s' : State n} {l : Label n} (h : s.next l = some s') :
    LoaderMoves s s' ∨ ∃ b, BuyerMoves s b s' := by
  obtain ⟨t, rand⟩ := l
  cases t with
  | loader => exact Or.inl (loaderStep_cases h)
  | buyer b => exact Or.inr ⟨b, buyerStep_cases h⟩

/-! ### What a step leaves alone -/

/-- A step of a buyer is nothing to the others. -/
theorem BuyerMoves.others {s s' : State n} {b b' : Fin n} (hm : BuyerMoves s b s') (hb : b' ≠ b) :
    s'.buyer b' = s.buyer b' ∧ s'.demand b' = s.demand b' := by
  cases hm with
  | empty hpc => exact ⟨rfl, rfl⟩
  | buy room seen tmp hpc => exact ⟨Function.update_of_ne hb .., Function.update_of_ne hb ..⟩
  | _ => exact ⟨Function.update_of_ne hb .., rfl⟩

/-- The loader is nothing to the buyers. -/
theorem LoaderMoves.others {s s' : State n} (hm : LoaderMoves s s') (b : Fin n) :
    s'.buyer b = s.buyer b ∧ s'.demand b = s.demand b := by
  cases hm <;> exact ⟨rfl, rfl⟩

/-- A buyer writes to a room only to clear it. -/
theorem BuyerMoves.rooms_eq {s s' : State n} {b : Fin n} (hm : BuyerMoves s b s')
    (h : ∀ room, s.buyer b ≠ .clear room) : s'.rooms = s.rooms := by
  cases hm with
  | clear room hpc => exact absurd hpc (h room)
  | _ => rfl

/-- The loader writes to a room only to fill it. -/
theorem LoaderMoves.rooms_eq {s s' : State n} (hm : LoaderMoves s s')
    (h : ∀ i, s.loader ≠ .write i) : s'.rooms = s.rooms := by
  cases hm with
  | load i rand hpc => exact absurd hpc (h i)
  | _ => rfl

end EltexHomeworks.Storage
