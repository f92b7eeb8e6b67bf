import EltexHomeworks.Storage.Conservation

namespace EltexHomeworks.Storage

open EltexHomeworks.Lib

/-!
# Storage — the accounts of the buyers

What a room can hold and what a buyer can owe.  `demand` is an `int` from which the content of a
room, an `unsigned int`, is subtracted modulo `2^32`; `Books` says that the subtraction is exact.
Here it is joined by the amounts that are written to rooms, and by the test that a buyer has failed
when it leaves.
-/

variable {n : Nat} {s s' : State n}

/-- The amounts a room can hold: nothing, what it was filled with, or what the loader brought. -/
def Content (amount : BitVec 32) : Prop :=
  amount = 0#32 ∨ (1000 ≤ amount.toNat ∧ amount.toNat ≤ 1200) ∨
    (400 ≤ amount.toNat ∧ amount.toNat ≤ 600)

theorem content_filling (rand : Nat) : Content (State.filling rand) := by
  refine Or.inr (Or.inl ?_)
  rw [State.filling, BitVec.toNat_ofNat]
  omega

theorem content_refill (rand : Nat) : Content (State.refill rand) := by
  refine Or.inr (Or.inr ?_)
  rw [toNat_refill]
  omega

/-! ### What a step does to rooms and demands -/

/-- A room that changes is cleared or refilled. -/
theorem rooms_next {l : Label n} (h : s.next l = some s') (room : Room) :
    s'.rooms room = s.rooms room ∨ s'.rooms room = 0#32 ∨
      ∃ rand, s'.rooms room = State.refill rand := by
  rcases next_cases h with hm | ⟨b, hm⟩
  · cases hm with
    | load i rand hpc =>
      by_cases hroom : room = i
      · subst hroom
        exact Or.inr (Or.inr ⟨rand, Function.update_self ..⟩)
      · exact Or.inl (Function.update_of_ne hroom ..)
    | _ => exact Or.inl rfl
  · cases hm with
    | clear room' hpc =>
      by_cases hroom : room = room'
      · subst hroom
        exact Or.inr (Or.inl (Function.update_self ..))
      · exact Or.inl (Function.update_of_ne hroom ..)
    | _ => exact Or.inl rfl

/-- A buyer leaves the loop when its demand is met. -/
theorem demand_of_leaves {b : Fin n} {rand : Nat} (h : s.buyerStep b rand = some s')
    (hdone : s'.buyer b = .done) : (s'.demand b).toInt ≤ 0 := by
  cases buyerStep_cases h with
  | goodbye hpc =>
    show (s.demand b).toInt ≤ 0
    by_contra hpos
    rw [State.buyerStep, hpc] at h
    dsimp only at h
    rw [if_pos (by omega)] at h
    -- with a positive demand it goes to a room, or looks for the next one
    split at h
    · have hpc' := congrArg (State.buyer · b) (Option.some.inj h)
      simp [State.goto] at hpc'
    · have hpc' := congrArg (State.buyer · b) (Option.some.inj h)
      simp [State.goto, hpc] at hpc'
  | empty hpc => rw [hpc] at hdone; cases hdone
  | _ => simp [State.goto] at hdone

/-! ### The invariant -/

/-- What the books do not say: the contents of the rooms, and the demands of those that left. -/
structure Accounts (s : State n) : Prop where
  content : ∀ room, Content (s.rooms room)
  met : ∀ b, s.buyer b = .done → (s.demand b).toInt ≤ 0

theorem accounts_start (n : Nat) (rand : Room → Nat) : Accounts (State.start n rand) where
  content room := content_filling (rand room)
  met b hdone := by cases hdone

/-- **A step** keeps the accounts. -/
theorem Accounts.next {l : Label n} (h : Accounts s) (hst : s.next l = some s') : Accounts s' where
  content room := by
    rcases rooms_next hst room with hroom | hroom | ⟨rand, hroom⟩
    · rw [hroom]
      exact h.content room
    · exact Or.inl hroom
    · rw [hroom]
      exact content_refill rand
  met b hdone := by
    obtain ⟨t, rand⟩ := l
    cases t with
    | loader =>
      obtain ⟨hpc, hdemand⟩ := (loaderStep_cases hst).others b
      rw [hdemand]
      exact h.met b (hpc ▸ hdone)
    | buyer b' =>
      by_cases hb : b = b'
      · subst hb
        exact demand_of_leaves hst hdone
      · obtain ⟨hpc, hdemand⟩ := (buyerStep_cases hst).others hb
        rw [hdemand]
        exact h.met b (hpc ▸ hdone)

theorem accounts_of_reachable {rand : Room → Nat} (hs : (storage n rand).Reachable s) :
    Accounts s := by
  have hinv : (storage n rand).Invariant Accounts :=
    { base := by
        rintro s rfl
        exact accounts_start n rand
      keep := fun s l s' h hst => h.next hst }
  exact hinv.of_reachable hs

/-- **The accounts are exact and bounded.**  In every state a room is empty or holds what it was
    filled or refilled with; the demand of each buyer is 10000 less what it took, and no less than
    -1199; and a buyer that has left its loop took what it wanted, and at most 11199. -/
theorem accounts_bounded (n : Nat) (rand : Room → Nat) {s : State n}
    (hs : (storage n rand).Reachable s) :
    (∀ room, Content (s.rooms room)) ∧
    (∀ b, (s.demand b).toInt = 10000 - s.goods b ∧
      -1199 ≤ (s.demand b).toInt ∧ (s.demand b).toInt ≤ 10000) ∧
    ∀ b, s.buyer b = .done → 10000 ≤ s.goods b ∧ s.goods b ≤ 11199 := by
  have hbooks := books_of_reachable hs
  have haccounts := accounts_of_reachable hs
  refine ⟨haccounts.content, fun b => ?_, fun b hdone => ?_⟩
  · have hdemand := hbooks.demand b
    have hgoods := hbooks.goods_le b
    exact ⟨hdemand, by omega, by omega⟩
  · have hdemand := hbooks.demand b
    have hmet := haccounts.met b hdone
    exact ⟨by omega, hbooks.goods_le b⟩

/-- The demand of one buyer after it took the 1000 units of the first room. -/
theorem accounts_after_purchase :
    ∃ s : State 1, s.goods 0 = 1000 ∧ s.rooms 0 = 0#32 ∧
      (s.demand 0).toInt = 10000 - s.goods 0 := by
  have hrun : ∃ s, run State.next (State.start 1 fun _ => 0) (List.replicate 5 ⟨.buyer 0, 0⟩) =
      some s ∧ s.goods 0 = 1000 ∧ s.rooms 0 = 0#32 := ⟨_, rfl, rfl, rfl⟩
  obtain ⟨s, hs, hgoods, hroom⟩ := hrun
  have hreach : (storage 1 fun _ => 0).Reachable s :=
    TransitionSystem.Reachable.run (.init rfl) hs
  exact ⟨s, hgoods, hroom, ((accounts_bounded 1 (fun _ => 0) hreach).2.1 0).1⟩

end EltexHomeworks.Storage
