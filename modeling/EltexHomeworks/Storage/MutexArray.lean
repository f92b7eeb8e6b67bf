import EltexHomeworks.Storage.Deadlock

namespace EltexHomeworks.Storage

open EltexHomeworks.Lib

/-!
# Storage — the array of mutexes

`store.mutex` has one element for each thread, `NUM_OF_BUYERS + 1`, and is indexed by rooms: `main`
initialises the element of each room, and a thread tries that of the room it goes to.  Only
`storage_control` counts threads.

`mutexesInside_iff` — all accesses are inside exactly when there are no more rooms than threads.
-/

variable {n : Nat} {s : State n}

/-- The length of `store.mutex`. -/
def mutexLength (n : Nat) : Nat := n + 1

/-- The elements `main` initialises. -/
def initIndices : List Nat := List.range NUM_OF_ROOMS

/-- The element of `store.mutex` a step accesses: buyers and loader lock by the number of a room,
    and `storage_control` by the index of its loop. -/
def State.mutexIndex (s : State n) (l : Label n) : Option Nat :=
  match l.thread with
  | .buyer b =>
    match s.buyer b with
    | .trylock room _ => some room
    | .unlock room => some room
    | _ => none
  | .loader =>
    match s.loader with
    | .trylock i => some i
    | .unlock i => some i
    -- `storage_control`
    | .lock _ k => if k < n + 1 then some k else none
    | .release _ k => if k < n + 1 then some k else none
    | _ => none

/-- The step accesses an element of the array, if it accesses one at all. -/
def State.StepInside (s : State n) (l : Label n) : Prop :=
  ∀ k, s.mutexIndex l = some k → k < mutexLength n

/-- Every access to `store.mutex` is inside the array, and a thread in a room or in
    `storage_control` holds mutexes of the array only. -/
structure MutexesInside (n : Nat) (rand : Room → Nat) (ls : List (Label n)) : Prop where
  init : ∀ i ∈ initIndices, i < mutexLength n
  steps : Along State.next State.StepInside (State.start n rand) ls
  guards : Throughout State.next
    (fun s => ∀ t k, s.inside t k → k < mutexLength n ∧ s.mutex k = some t) (State.start n rand) ls

/-- With a mutex for each room, a step accesses one of them. -/
theorem stepInside (h : NUM_OF_ROOMS ≤ mutexLength n) (s : State n) (l : Label n) :
    s.StepInside l := by
  intro k hk
  have hroom : ∀ room : Room, some room.val = some k → k < mutexLength n := by
    rintro room hr
    rw [← Option.some.inj hr]
    exact Nat.lt_of_lt_of_le room.isLt h
  have hcount : ∀ j, (if j < n + 1 then some j else none) = some k → k < mutexLength n := by
    intro j hj
    obtain ⟨hlt, hj⟩ := Option.ite_none_right_eq_some.mp hj
    rw [← Option.some.inj hj]
    exact hlt
  unfold State.mutexIndex at hk
  split at hk
  · split at hk
    · exact hroom _ hk
    · exact hroom _ hk
    · cases hk
  · split at hk
    · exact hroom _ hk
    · exact hroom _ hk
    · exact hcount _ hk
    · exact hcount _ hk
    · cases hk

/-- With a mutex for each room, every place is guarded by mutexes of the array. -/
theorem inside_lt (h : NUM_OF_ROOMS ≤ mutexLength n) (hbound : s.loader.bounded n) {t : Thread n}
    {k : Nat} (hk : s.inside t k) : k < mutexLength n := by
  have hroom : ∀ room : Room, k = room → k < mutexLength n := by
    rintro room rfl
    exact Nat.lt_of_lt_of_le room.isLt h
  cases t with
  | buyer b =>
    have hk' : (s.buyer b).inside k := hk
    cases hpc : s.buyer b with
    | read room seen => rw [hpc] at hk'; exact hroom room hk'
    | update room seen tmp => rw [hpc] at hk'; exact hroom room hk'
    | clear room => rw [hpc] at hk'; exact hroom room hk'
    | unlock room => rw [hpc] at hk'; exact hroom room hk'
    | _ => rw [hpc] at hk'; exact absurd hk' id
  | loader =>
    have hk' : s.loader.inside n k := hk
    cases hpc : s.loader with
    | write i => rw [hpc] at hk'; exact hroom i hk'
    | unlock i => rw [hpc] at hk'; exact hroom i hk'
    | lock i j =>
      rw [hpc] at hk' hbound
      exact Nat.lt_of_lt_of_le hk' hbound
    | print i j => rw [hpc] at hk'; exact hk'
    | release i j => rw [hpc] at hk'; exact hk'.2
    | _ => rw [hpc] at hk'; exact absurd hk' id

/-- A buyer at a room tries the mutex of the room. -/
theorem mutexIndex_of_trylock {b : Fin n} {room : Room} {seen : BitVec 32}
    (hpc : s.buyer b = .trylock room seen) (rand : Nat) :
    s.mutexIndex ⟨.buyer b, rand⟩ = some room.val := by
  simp only [State.mutexIndex, hpc]

/-- A buyer that goes to the last room tries the element of that room. -/
theorem last_room_inside {n : Nat} {rand : Room → Nat}
    (h : ∀ ls, Along State.next State.StepInside (State.start (n + 1) rand) ls) :
    NUM_OF_ROOMS ≤ mutexLength (n + 1) := by
  let last : Room := Fin.ofNat NUM_OF_ROOMS 4
  have hfull : State.filling (rand last) ≠ 0#32 := by
    intro h0
    have hnat := congrArg BitVec.toNat h0
    rw [State.filling, BitVec.toNat_ofNat, BitVec.toNat_ofNat] at hnat
    omega
  -- the storage has just been filled, so the buyer finds something there
  have hsee : (State.start (n + 1) rand).next ⟨.buyer 0, 4⟩ =
      some ((State.start (n + 1) rand).goto 0 (.trylock last (State.filling (rand last)))) := by
    show (if State.filling (rand last) ≠ 0#32 then _ else _) = _
    rw [if_pos hfull]
    rfl
  have htry := ((h [⟨.buyer 0, 4⟩, ⟨.buyer 0, 0⟩]).2 _ hsee).1
  have hpc : ((State.start (n + 1) rand).goto 0
      (.trylock last (State.filling (rand last)))).buyer 0 =
        .trylock last (State.filling (rand last)) := State.buyer_goto _
  exact htry 4 (mutexIndex_of_trylock hpc 0)

/-- A run accesses the array of mutexes inside exactly when there are no more rooms than elements. -/
theorem mutexesInside_iff_rooms (n : Nat) (rand : Room → Nat) (ls : List (Label n)) :
    MutexesInside n rand ls ↔ NUM_OF_ROOMS ≤ mutexLength n := by
  constructor
  · -- the element of the last room
    intro h
    exact h.init (NUM_OF_ROOMS - 1) (List.mem_range.mpr (by decide))
  · intro h
    refine ⟨fun i hi => ?_, along_of_forall (stepInside h) _ ls, fun pre s _ hs t k hk => ?_⟩
    · exact Nat.lt_of_lt_of_le (List.mem_range.mp hi) h
    · have hreach : (storage n rand).Reachable s := TransitionSystem.Reachable.run (.init rfl) hs
      exact ⟨inside_lt h (bounded_of_reachable hreach) hk,
        (held_of_reachable hreach).guarded t k hk⟩

/-- **The mutexes belong to the storage** in a run if and only if there are no more rooms than
    elements of the array, and so it is for the threads alone in all runs with a buyer.  With the
    constants of the program they never do. -/
theorem mutexesInside_iff (n : Nat) (rand : Room → Nat) (ls : List (Label n)) :
    (MutexesInside n rand ls ↔ NUM_OF_ROOMS ≤ mutexLength n) ∧
    ((∀ ls, Along State.next State.StepInside (State.start (n + 1) rand) ls) ↔
      NUM_OF_ROOMS ≤ mutexLength (n + 1)) ∧
    ∀ ls : List (Label NUM_OF_BUYERS), ¬ MutexesInside NUM_OF_BUYERS rand ls := by
  refine ⟨mutexesInside_iff_rooms n rand ls, ⟨last_room_inside, fun h ls => ?_⟩, fun ls h => ?_⟩
  · exact along_of_forall (stepInside h) _ ls
  · exact absurd ((mutexesInside_iff_rooms _ rand ls).mp h) (by decide)

/-- A buyer of the program goes to the last room: it tries a mutex behind the array. -/
theorem not_mutexesInside :
    ¬ ∀ (rand : Room → Nat) (ls : List (Label NUM_OF_BUYERS)),
      MutexesInside NUM_OF_BUYERS rand ls := by
  intro h
  have hsteps := (h (fun _ => 0) [⟨.buyer 0, 4⟩, ⟨.buyer 0, 0⟩]).steps
  exact absurd ((hsteps.2 _ rfl).1 4 rfl) (by decide)

end EltexHomeworks.Storage
