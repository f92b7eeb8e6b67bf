import EltexHomeworks.Storage.Conservation

namespace EltexHomeworks.Storage

open EltexHomeworks.Lib

open scoped BigOperators

/-!
# Storage — what `storage_control` reports

`storage_control` locks the mutexes `0 … NUM_OF_BUYERS` and then reads the rooms
`0 … NUM_OF_ROOMS - 1`.  A room behind the last mutex it locks can be visited while it prints.

`quiescent_iff` says when a report is about a storage that stands still: exactly when no buyer is in
such a room at the last lock, and none goes into one before the first unlock.
-/

variable {n : Nat} {initial : Int}

/-- The loader is in `storage_control` between its last lock and its first unlock. -/
def LoaderPc.reports (n : Nat) : LoaderPc → Prop
  | .lock _ k => n + 1 ≤ k
  | .print _ _ => True
  | .release _ k => k = 0
  | _ => False

/-- The report of a storage that stands still: from the last lock to the first unlock nobody is
    in a room, so that what is printed are the rooms at one moment, and the sum comes out right. -/
structure Quiescent (initial : Int) (s : State n) : Prop where
  /-- No buyer is inside the critical section of any room. -/
  nobody : s.loader.reports n → ∀ b k, ¬ (s.buyer b).inside k
  /-- No step changes a room. -/
  still : s.loader.reports n → ∀ l t, s.next l = some t → t.rooms = s.rooms
  /-- The values printed are those of the first rooms. -/
  printed : ∀ i k, s.loader = .print i k → s.printed = (List.ofFn s.rooms).take k
  /-- The values printed and what the buyers have taken are the initial goods and all that was
      loaded. -/
  report : ∀ i, s.loader = .print i NUM_OF_ROOMS ∨ s.loader = .release i 0 →
    (s.printed.map fun v => (v.toNat : Int)).sum + ∑ b, (10000 - (s.demand b).toInt) =
      initial + s.loaded

/-- A step that lets no buyer into a room `storage_control` does not lock: a buyer does not enter
    such a room during a report, and when the loader takes the last lock no buyer is in one. -/
def Spared (s : State n) (l : Label n) : Prop :=
  match l.thread with
  | .buyer b => ∀ room seen, s.buyer b = .trylock room seen → s.mutex room = none →
      n + 1 ≤ room.val → ¬ s.loader.reports n
  | .loader => (∃ i, s.loader = .lock i n) → s.mutex n = none →
      ∀ b k, (s.buyer b).inside k → k < n + 1

/-! ### The mutexes of a report -/

/-- During a report the loader holds every mutex it locks. -/
theorem LoaderPc.inside_of_reports {pc : LoaderPc} (h : pc.reports n) {k : Nat} (hk : k < n + 1) :
    pc.inside n k := by
  cases pc with
  | lock i j => exact Nat.lt_of_lt_of_le hk h
  | print i j => exact hk
  | release i j =>
    have hj : j = 0 := h
    exact ⟨by omega, hk⟩
  | _ => exact absurd h id

/-- A buyer in a room during a report is in one that is not locked. -/
theorem not_inside_of_reports {s : State n} (h : Guarded s.mutex s.inside)
    (hr : s.loader.reports n) {b : Fin n} {k : Nat} (hk : k < n + 1) : ¬ (s.buyer b).inside k := by
  intro hin
  have ht : Thread.buyer b = .loader := h.exclusive hin (s.loader.inside_of_reports hr hk)
  cases ht

/-- With nobody in a room nothing changes in the rooms. -/
theorem rooms_eq_of_nobody {s t : State n} {l : Label n} (hr : s.loader.reports n)
    (hnobody : ∀ b k, ¬ (s.buyer b).inside k) (hst : s.next l = some t) : t.rooms = s.rooms := by
  rcases next_cases hst with hm | ⟨b, hm⟩
  · refine hm.rooms_eq fun i hpc => ?_
    rw [hpc] at hr
    exact absurd hr id
  · refine hm.rooms_eq fun room hpc => ?_
    exact absurd (by rw [hpc]; rfl) (hnobody b room)

/-- The invariant: during a report nobody is in a room, and what is printed is what is there. -/
structure Reporting (s : State n) : Prop where
  nobody : s.loader.reports n → ∀ b k, ¬ (s.buyer b).inside k
  printed : ∀ i k, s.loader = .print i k → s.printed = (List.ofFn s.rooms).take k
  all : ∀ i, s.loader = .release i 0 → s.printed = List.ofFn s.rooms

/-- Under the invariant the storage stands still, and the books are those of the report. -/
theorem Reporting.quiescent {s : State n} (h : Reporting s) (hb : Books initial s) :
    Quiescent initial s where
  nobody := h.nobody
  still hr _ _ := rooms_eq_of_nobody hr (h.nobody hr)
  printed := h.printed
  report i hpc := by
    have hr : s.loader.reports n := by
      rcases hpc with hpc | hpc <;> rw [hpc]
      · trivial
      · rfl
    have hprinted : s.printed = List.ofFn s.rooms := by
      rcases hpc with hpc | hpc
      · rw [h.printed i _ hpc, List.take_of_length_le (Nat.le_of_eq List.length_ofFn)]
      · exact h.all i hpc
    -- nobody is in a room, so no purchase is pending
    have hbought : ∀ b, s.bought b = 10000 - (s.demand b).toInt := by
      intro b
      rw [State.bought, State.pending_of_ne, sub_zero]
      intro room hroom
      exact h.nobody hr b room (by rw [hroom]; rfl)
    have hstock : (s.printed.map fun v => (v.toNat : Int)).sum = s.stock := by
      rw [hprinted, List.map_ofFn, List.sum_ofFn]
      rfl
    rw [hstock, hb.balance, Finset.sum_congr rfl fun b _ => hbought b]

/-! ### One step -/

/-- A buyer that goes on. -/
theorem Reporting.buyerStep {s t : State n} {b : Fin n} {rand : Nat} (h : Reporting s)
    (hg : Guarded s.mutex s.inside) (hl : Spared s ⟨.buyer b, rand⟩)
    (hst : s.buyerStep b rand = some t) : Reporting t := by
  have hm := buyerStep_cases hst
  have hloader : t.loader = s.loader := by cases hm <;> rfl
  have hprinted : t.printed = s.printed := by cases hm <;> rfl
  have hrooms : s.loader.reports n → t.rooms = s.rooms := fun hr =>
    rooms_eq_of_nobody (l := ⟨.buyer b, rand⟩) hr (h.nobody hr) hst
  constructor
  · intro hr
    rw [hloader] at hr
    have hempty := h.nobody hr
    have hgoto : ∀ pc : BuyerPc, (∀ k, ¬ pc.inside k) →
        ∀ b' k, ¬ ((s.goto b pc).buyer b').inside k := fun pc hpc =>
      State.forall_goto (P := fun _ x => ∀ k, ¬ x.inside k) hpc fun b' _ => hempty b'
    -- during the report nobody is in a room, so that no buyer can leave or write one
    cases hm with
    | goodbye hpc => exact hgoto _ fun _ => id
    | empty hpc => exact hempty
    | see room hpc demand full => exact hgoto _ fun _ => id
    | busy room seen hpc => exact hgoto _ fun _ => id
    | enter room seen hpc free =>
      -- a free mutex is not one of those the loader holds
      have hroom : n + 1 ≤ room.val := by
        by_contra hlt
        exact hg.not_inside free .loader (s.loader.inside_of_reports hr (Nat.not_le.mp hlt))
      exact absurd hr (hl room seen hpc free hroom)
    | read room seen hpc => exact absurd (by rw [hpc]; rfl) (hempty b room)
    | buy room seen tmp hpc => exact absurd (by rw [hpc]; rfl) (hempty b room)
    | clear room hpc => exact absurd (by rw [hpc]; rfl) (hempty b room)
    | leave room hpc => exact absurd (by rw [hpc]; rfl) (hempty b room)
  · -- the loader stands still, and so do the rooms: what is printed stays right
    intro i k hpc
    rw [hloader] at hpc
    rw [hprinted, hrooms (by rw [hpc]; trivial)]
    exact h.printed i k hpc
  · intro i hpc
    rw [hloader] at hpc
    rw [hprinted, hrooms (by rw [hpc]; rfl)]
    exact h.all i hpc

/-- The loader that goes on. -/
theorem Reporting.loaderStep {s t : State n} {rand : Nat} (h : Reporting s)
    (hg : Guarded s.mutex s.inside) (hl : Spared s ⟨.loader, rand⟩)
    (hst : s.loaderStep rand = some t) : Reporting t := by
  have hm := loaderStep_cases hst
  have hg' := hm.guarded hg
  -- at a place that is in no report there is nothing to show
  have hidle : ∀ {u : State n}, ¬ u.loader.reports n → Reporting u := fun hu =>
    ⟨fun hr => absurd hr hu, fun i k hpc => absurd (by rw [hpc]; trivial) hu,
      fun i hpc => absurd (by rw [hpc]; rfl) hu⟩
  cases hm with
  | full i hpc => exact hidle id
  | see i hpc empty => exact hidle id
  | busy i hpc => exact hidle id
  | enter i hpc free => exact hidle id
  | load i rand hpc => exact hidle id
  | leave i hpc => exact hidle (Nat.not_succ_le_zero n)
  | lock i k hpc hk free =>
    refine ⟨fun hr b j hin => ?_, fun i' k' hpc' => (by cases hpc'),
      fun i' hpc' => (by cases hpc')⟩
    -- it was the last lock
    have hr' : n + 1 ≤ k + 1 := hr
    have hkn : k = n := by omega
    subst hkn
    exact not_inside_of_reports hg' hr (hl ⟨i, hpc⟩ free b j hin) hin
  | locked i k hpc hk =>
    refine ⟨fun _ => h.nobody (by rw [hpc]; exact hk), fun i' k' hpc' => ?_,
      fun i' hpc' => (by cases hpc')⟩
    cases hpc'
    rfl
  -- the room printed now is the next one
  | print i k hpc hk =>
    refine ⟨fun _ => h.nobody (by rw [hpc]; trivial), fun i' k' hpc' => ?_,
      fun i' hpc' => (by cases hpc')⟩
    cases hpc'
    show s.printed ++ [s.rooms ⟨k, hk⟩] = (List.ofFn s.rooms).take (k + 1)
    rw [h.printed i k hpc, List.take_add_one, List.getElem?_ofFn, dif_pos hk]
    rfl
  -- all rooms are printed
  | printed i k hpc hk =>
    refine ⟨fun _ => h.nobody (by rw [hpc]; trivial), fun i' k' hpc' => (by cases hpc'),
      fun i' _ => ?_⟩
    show s.printed = List.ofFn s.rooms
    rw [h.printed i k hpc, List.take_of_length_le]
    rw [List.length_ofFn]
    exact hk
  | release i k hpc hk => exact hidle (Nat.succ_ne_zero k)
  | released i k hpc hk => exact hidle id

/-- A spared step keeps the invariant. -/
theorem Reporting.next {s t : State n} {l : Label n} (h : Reporting s)
    (hg : Guarded s.mutex s.inside) (hl : Spared s l) (hst : s.next l = some t) : Reporting t := by
  obtain ⟨th, rand⟩ := l
  cases th with
  | loader => exact h.loaderStep hg hl hst
  | buyer b => exact h.buyerStep hg hl hst

/-- A step after which nobody is in a room during a report was a spared one. -/
theorem spared_of_nobody {s : State n} {l : Label n}
    (h : ∀ t, s.next l = some t → t.loader.reports n → ∀ b k, ¬ (t.buyer b).inside k) :
    Spared s l := by
  obtain ⟨th, rand⟩ := l
  cases th with
  | buyer b =>
    intro room seen hpc free _ hr
    have hst : s.buyerStep b rand = some { s.goto b (.read room seen) with
        mutex := Function.update s.mutex room (some (.buyer b)) } := by
      rw [State.buyerStep, hpc]
      dsimp only
      rw [free]
    refine h _ hst hr b room ?_
    show (Function.update s.buyer b (.read room seen) b).inside room
    rw [Function.update_self]
    rfl
  | loader =>
    rintro ⟨i, hpc⟩ free b k hin
    have hst : s.loaderStep rand = some { s with
        loader := .lock i (n + 1)
        mutex := Function.update s.mutex n (some .loader) } := by
      rw [State.loaderStep, hpc]
      dsimp only
      rw [if_pos (Nat.lt_succ_self n), free]
    exact absurd hin (h _ hst (Nat.le_refl (n + 1)) b k)

/-! ### Runs -/

/-- At the start there is no report. -/
theorem reporting_start (n : Nat) (rand : Room → Nat) : Reporting (State.start n rand) :=
  ⟨fun hr => absurd hr id, fun i k hpc => (by cases hpc), fun i hpc => (by cases hpc)⟩

/-- With a mutex among those `storage_control` locks for every room, every step is spared. -/
theorem spared_of_enough (h : NUM_OF_ROOMS ≤ n + 1) (s : State n) (l : Label n) : Spared s l := by
  have hlt : ∀ {pc : BuyerPc} {k : Nat}, pc.inside k → k < n + 1 := by
    intro pc k hin
    cases pc with
    | read room seen => exact hin ▸ Nat.lt_of_lt_of_le room.isLt h
    | update room seen tmp => exact hin ▸ Nat.lt_of_lt_of_le room.isLt h
    | clear room => exact hin ▸ Nat.lt_of_lt_of_le room.isLt h
    | unlock room => exact hin ▸ Nat.lt_of_lt_of_le room.isLt h
    | _ => exact absurd hin id
  obtain ⟨th, rand⟩ := l
  cases th with
  | buyer b => exact fun room seen _ _ hroom => absurd room.isLt (by omega)
  | loader => exact fun _ _ b k hin => hlt hin

/-- **Reports are about a storage that stands still**, in all states of a run, if and only if every
    step of the run is spared; with enough buyers every step is. -/
theorem quiescent_iff (n : Nat) (rand : Room → Nat) (ls : List (Label n)) :
    (Along State.next (fun s l => ∀ t, s.next l = some t →
        Quiescent (∑ room, ((State.filling (rand room)).toNat : Int)) t)
      (State.start n rand) ls ↔
      Along State.next Spared (State.start n rand) ls) ∧
    (NUM_OF_ROOMS ≤ n + 1 → Along State.next Spared (State.start n rand) ls) := by
  refine ⟨?_, fun h => along_of_forall (spared_of_enough h) _ ls⟩
  have hstep : ∀ (s : State n) l,
      Books (∑ room, ((State.filling (rand room)).toNat : Int)) s ∧ Reporting s →
      ((∀ t, s.next l = some t →
        Quiescent (∑ room, ((State.filling (rand room)).toNat : Int)) t) ↔ Spared s l) := by
    rintro s l ⟨hb, h⟩
    refine ⟨fun hq => spared_of_nobody fun t hst => (hq t hst).nobody, fun hl t hst => ?_⟩
    exact (h.next hb.guarded hl hst).quiescent (hb.next hst)
  refine along_congr (I := fun s => Books _ s ∧ Reporting s) (P := fun _ _ => True) ?_
    (fun s l hI _ => hstep s l hI) ⟨books_start n rand, reporting_start n rand⟩
    (along_of_forall (fun _ _ => trivial) _ ls)
  intro s l t hI _ hq hst
  exact ⟨hI.1.next hst, hI.2.next hI.1.guarded ((hstep s l hI).mp hq) hst⟩

/-- The three buyers of the program: one of them is in room 4 when the loader has all its locks. -/
theorem not_quiescent :
    ¬ ∀ (rand : Room → Nat) (s : State NUM_OF_BUYERS), (storage NUM_OF_BUYERS rand).Reachable s →
      Quiescent (∑ room, ((State.filling (rand room)).toNat : Int)) s := by
  intro h
  have hrun : ∃ s, run State.next (State.start NUM_OF_BUYERS fun _ => 0)
      (List.replicate 6 ⟨.buyer 0, 0⟩ ++ List.replicate 2 ⟨.buyer 1, 4⟩ ++
        List.replicate 8 ⟨.loader, 0⟩) = some s ∧
      s.loader = .lock 0 4 ∧ s.buyer 1 = .read 4 1000#32 := ⟨_, rfl, rfl, rfl⟩
  obtain ⟨s, hs, hpc, hb⟩ := hrun
  have hq := h (fun _ => 0) s (TransitionSystem.Reachable.run (.init rfl) hs)
  refine hq.nobody ?_ 1 4 ?_
  · rw [hpc]
    exact Nat.le_refl 4
  · rw [hb]
    rfl

end EltexHomeworks.Storage
