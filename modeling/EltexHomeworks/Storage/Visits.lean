import EltexHomeworks.Storage.Conservation

namespace EltexHomeworks.Storage

open EltexHomeworks.Lib

/-!
# Storage — visits to empty rooms

A buyer checks a room before it tries the mutex, and does not check it again inside.  Between the
two steps another buyer may come in and go, and the room is empty, or the loader has brought less
than the buyer saw.

* `Watched` — the program together with what the others did to the room of each buyer since its
  check;
* `noEmptyVisit_iff` — every visit finds what its buyer saw, exactly when none is `Late`.
-/

variable {n : Nat}

/-- Every buyer takes something, and no less than it saw when it checked the room. -/
def NoEmptyVisit (s : State n) : Prop :=
  ∀ b room seen tmp, s.buyer b = .update room seen tmp →
    0 < tmp.toNat ∧ seen.toNat ≤ tmp.toNat

/-! ### What happens behind a check -/

/-- What the others did to a room since a buyer checked it: nothing, a buyer cleared it, or the
    loader has refilled it after that. -/
inductive Since
  | untouched
  | cleared
  | refilled (amount : BitVec 32)
deriving DecidableEq, Repr

/-- The room a buyer has checked and not taken yet. -/
def BuyerPc.checked : BuyerPc → Option Room
  | .trylock room _ => some room
  | .read room _ => some room
  | _ => none

/-- The program with a watch on the rooms that were checked. -/
structure Watched (n : Nat) where
  storage : State n
  since : Fin n → Since

namespace Watched

/-- What a step does to the room of the buyer `b`: a new turn of the buyer forgets what happened,
    another buyer may clear the room, and the loader may refill it then. -/
def watch (w : Watched n) (l : Label n) (b : Fin n) : Since :=
  match l.thread with
  | .loader =>
    match w.storage.loader with
    | .write i =>
      if (w.storage.buyer b).checked = some i ∧ w.since b = .cleared then
        .refilled (State.refill l.rand)
      else w.since b
    | _ => w.since b
  | .buyer b' =>
    if b' = b then
      match w.storage.buyer b with
      | .loop => .untouched
      | _ => w.since b
    else
      match w.storage.buyer b' with
      | .clear room =>
        if (w.storage.buyer b).checked = some room then .cleared else w.since b
      | _ => w.since b

/-- A step of the program. -/
def next (w : Watched n) (l : Label n) : Option (Watched n) :=
  (w.storage.next l).map fun t => ⟨t, w.watch l⟩

/-- The program at its start. -/
def start (n : Nat) (rand : Room → Nat) : Watched n := ⟨State.start n rand, fun _ => .untouched⟩

/-- The step takes the content of a room that another buyer has cleared since the check, and that
    the loader has not refilled after that with as much as was seen. -/
def Late (w : Watched n) (l : Label n) : Prop :=
  ∃ b room seen, l.thread = .buyer b ∧ w.storage.buyer b = .read room seen ∧
    (w.since b = .cleared ∨ ∃ amount, w.since b = .refilled amount ∧ amount.toNat < seen.toNat)

/-! ### The invariant -/

/-- What is in a room in which `seen` was seen. -/
def Found (seen content : BitVec 32) : Since → Prop
  | .untouched => content = seen
  | .cleared => content = 0#32
  | .refilled amount => content = amount ∧ 400 ≤ amount.toNat

/-- The books are kept, and the watch knows what is in the rooms that were checked. -/
structure Knows (w : Watched n) : Prop where
  books : ∃ initial, Books initial w.storage
  found : ∀ b room seen,
    w.storage.buyer b = .trylock room seen ∨ w.storage.buyer b = .read room seen →
      seen ≠ 0#32 ∧ Found seen (w.storage.rooms room) (w.since b)

theorem knows_start (n : Nat) (rand : Room → Nat) : Knows (start n rand) where
  books := ⟨_, books_start n rand⟩
  found b room seen hpc := by rcases hpc with hpc | hpc <;> cases hpc

variable {w w' : Watched n}

/-- An empty room in which something was seen has been cleared since. -/
theorem Found.eq_cleared {seen : BitVec 32} {since : Since} (hseen : seen ≠ 0#32)
    (h : Found seen 0#32 since) : since = .cleared := by
  cases since with
  | untouched => exact absurd (Eq.symm h) hseen
  | cleared => rfl
  | refilled amount =>
    obtain ⟨h0, hle⟩ := h
    rw [← h0] at hle
    exact absurd hle (by decide)

/-- **A step of the loader.** -/
theorem Knows.loaderStep {t : State n} {rand : Nat} (h : Knows w)
    (hst : w.storage.loaderStep rand = some t) :
    Knows ⟨t, w.watch ⟨.loader, rand⟩⟩ := by
  obtain ⟨initial, hbooks⟩ := h.books
  refine ⟨⟨initial, (loaderStep_cases hst).books hbooks⟩, fun b room seen hpc => ?_⟩
  cases hl : w.storage.loader with
  | write i =>
    rw [State.loaderStep, hl] at hst
    cases hst
    obtain ⟨hseen, hfound⟩ := h.found b room seen hpc
    refine ⟨hseen, ?_⟩
    -- a buyer that has checked a room and not gone in yet: the refill may be of that room
    have hchecked : (w.storage.buyer b).checked = some room := by
      rcases hpc with hpc | hpc <;> rw [show w.storage.buyer b = _ from hpc] <;> rfl
    show Found seen (Function.update w.storage.rooms i (State.refill rand) room) _
    simp only [watch, hl, hchecked]
    by_cases hroom : room = i
    · -- the room is empty, so a buyer has cleared it since
      subst hroom
      rw [hbooks.empty room (Or.inr hl)] at hfound
      have hsince := hfound.eq_cleared hseen
      rw [Function.update_self, if_pos ⟨rfl, hsince⟩]
      refine ⟨rfl, ?_⟩
      rw [toNat_refill]
      omega
    · rw [Function.update_of_ne hroom, if_neg fun hi => hroom (Option.some.inj hi.1)]
      exact hfound
  | _ =>
    have hm := loaderStep_cases hst
    have hrooms : t.rooms = w.storage.rooms := hm.rooms_eq (by rw [hl]; simp)
    have hwatch : w.watch ⟨.loader, rand⟩ b = w.since b := by simp only [watch, hl]
    show seen ≠ 0#32 ∧ Found seen (t.rooms room) (w.watch ⟨.loader, rand⟩ b)
    rw [hwatch, hrooms]
    exact h.found b room seen (by rw [← (hm.others b).1]; exact hpc)

/-- A step of a buyer and its own room. -/
theorem Knows.buyerStep_self {t : State n} {b : Fin n} {rand : Nat} (h : Knows w)
    (hst : w.storage.buyerStep b rand = some t) {room : Room} {seen : BitVec 32}
    (hpc : t.buyer b = .trylock room seen ∨ t.buyer b = .read room seen) :
    seen ≠ 0#32 ∧ Found seen (t.rooms room) (w.watch ⟨.buyer b, rand⟩ b) := by
  cases buyerStep_cases hst with
  | empty hl => rcases hpc with hpc | hpc <;> rw [hl] at hpc <;> cases hpc
  | see room' hl demand full =>
    have hwatch : w.watch ⟨.buyer b, rand⟩ b = .untouched := by
      simp only [watch, if_true, hl]
    simp only [State.goto, Function.update_self, BuyerPc.trylock.injEq, reduceCtorEq,
      or_false] at hpc
    obtain ⟨rfl, rfl⟩ := hpc
    rw [hwatch]
    exact ⟨full, rfl⟩
  | enter room' seen' hl free =>
    have hwatch : w.watch ⟨.buyer b, rand⟩ b = w.since b := by
      simp only [watch, if_true, hl]
    simp only [State.goto, Function.update_self, BuyerPc.read.injEq, reduceCtorEq, false_or] at hpc
    obtain ⟨rfl, rfl⟩ := hpc
    rw [hwatch]
    exact h.found b room' seen' (Or.inl hl)
  | _ => simp [State.goto] at hpc

/-- A step of a buyer and the room of another one. -/
theorem Knows.buyerStep_other {t : State n} {b b' : Fin n} {rand : Nat} (h : Knows w)
    (hst : w.storage.buyerStep b' rand = some t) (hb : b ≠ b') {room : Room} {seen : BitVec 32}
    (hpc : w.storage.buyer b = .trylock room seen ∨ w.storage.buyer b = .read room seen) :
    seen ≠ 0#32 ∧ Found seen (t.rooms room) (w.watch ⟨.buyer b', rand⟩ b) := by
  obtain ⟨hseen, hfound⟩ := h.found b room seen hpc
  refine ⟨hseen, ?_⟩
  have hchecked : (w.storage.buyer b).checked = some room := by
    rcases hpc with hpc | hpc <;> rw [hpc] <;> rfl
  simp only [watch, if_neg (Ne.symm hb), hchecked]
  cases hl : w.storage.buyer b' with
  | clear room' =>
    rw [State.buyerStep, hl] at hst
    cases hst
    show Found seen (Function.update w.storage.rooms room' 0#32 room) _
    by_cases hroom : room = room'
    · subst hroom
      rw [Function.update_self]
      simp only [if_true]
      rfl
    · rw [Function.update_of_ne hroom]
      simp only [Option.some.injEq, if_neg hroom]
      exact hfound
  | _ =>
    rw [(buyerStep_cases hst).rooms_eq (by rw [hl]; simp)]
    exact hfound

/-- **Every step** keeps what the watch knows. -/
theorem Knows.next {l : Label n} (h : Knows w) (hst : w.next l = some w') : Knows w' := by
  obtain ⟨t, ht, rfl⟩ := Option.map_eq_some_iff.mp hst
  obtain ⟨thread, rand⟩ := l
  cases thread with
  | loader => exact h.loaderStep ht
  | buyer b' =>
    obtain ⟨initial, hbooks⟩ := h.books
    refine ⟨⟨initial, hbooks.next ht⟩, fun b room seen hpc => ?_⟩
    by_cases hb : b = b'
    · subst hb
      exact h.buyerStep_self ht hpc
    · refine h.buyerStep_other ht hb ?_
      rw [← ((buyerStep_cases ht).others hb).1]
      exact hpc

/-! ### Late takes -/

/-- A buyer comes to its subtraction from the step that reads the room. -/
theorem read_of_update {s t : State n} {b : Fin n} {rand : Nat} (hst : s.buyerStep b rand = some t)
    {room : Room} {seen tmp : BitVec 32} (hpc : t.buyer b = .update room seen tmp) :
    s.buyer b = .read room seen ∧ tmp = s.rooms room := by
  cases buyerStep_cases hst with
  | empty hl => rw [hl] at hpc; cases hpc
  | read room' seen' hl =>
    simp only [State.goto, Function.update_self, BuyerPc.update.injEq] at hpc
    obtain ⟨rfl, rfl, rfl⟩ := hpc
    exact ⟨hl, rfl⟩
  | _ => simp [State.goto] at hpc

/-- A late take is an empty visit, or finds less than was seen. -/
theorem Late.finds_less {l : Label n} (h : Knows w) (hl : w.Late l) :
    ∃ w', w.next l = some w' ∧ ¬ NoEmptyVisit w'.storage := by
  obtain ⟨b, room, seen, hthread, hpc, hsince⟩ := hl
  obtain ⟨-, hfound⟩ := h.found b room seen (Or.inr hpc)
  have hst : w.storage.next l =
      some (w.storage.goto b (.update room seen (w.storage.rooms room))) := by
    rw [State.next, hthread]
    show w.storage.buyerStep b l.rand = _
    rw [State.buyerStep, hpc]
  refine ⟨_, by rw [next, hst]; rfl, fun hno => ?_⟩
  obtain ⟨hpos, hle⟩ := hno b room seen _ (Function.update_self ..)
  rcases hsince with hsince | ⟨amount, hsince, hlt⟩
  · rw [hsince] at hfound
    rw [show w.storage.rooms room = 0#32 from hfound] at hpos
    exact absurd hpos (by decide)
  · rw [hsince] at hfound
    rw [hfound.1] at hle
    omega

/-- Any other step leads to no empty visit. -/
theorem noEmptyVisit_next {l : Label n} (h : Knows w) (hP : NoEmptyVisit w.storage)
    (hl : ¬ w.Late l) (hst : w.next l = some w') : NoEmptyVisit w'.storage := by
  obtain ⟨t, ht, rfl⟩ := Option.map_eq_some_iff.mp hst
  intro b room seen tmp hpc
  have hpc' : t.buyer b = .update room seen tmp := hpc
  obtain ⟨thread, rand⟩ := l
  cases thread with
  | loader =>
    rw [((loaderStep_cases ht).others b).1] at hpc'
    exact hP b room seen tmp hpc'
  | buyer b' =>
    by_cases hb : b = b'
    · subst hb
      obtain ⟨hread, rfl⟩ := read_of_update ht hpc'
      obtain ⟨hseen, hfound⟩ := h.found b room seen (Or.inr hread)
      -- what was found at the check is there, or the room was cleared since and perhaps refilled
      cases hsince : w.since b with
      | untouched =>
        rw [hsince] at hfound
        rw [show w.storage.rooms room = seen from hfound]
        refine ⟨Nat.pos_of_ne_zero fun h0 => hseen ?_, Nat.le_refl _⟩
        exact BitVec.eq_of_toNat_eq h0
      | cleared => exact absurd ⟨b, room, seen, rfl, hread, Or.inl hsince⟩ hl
      | refilled amount =>
        rw [hsince] at hfound
        rw [hfound.1]
        refine ⟨by have := hfound.2; omega, Nat.not_lt.mp fun hlt => hl ?_⟩
        exact ⟨b, room, seen, rfl, hread, Or.inr ⟨amount, hsince, hlt⟩⟩
    · rw [((buyerStep_cases ht).others hb).1] at hpc'
      exact hP b room seen tmp hpc'

end Watched

/-- **No empty visits.**  In a run every buyer takes something, and no less than it saw, if and only
    if no buyer takes the content of a room after another has cleared it behind its check, unless
    the loader has refilled it since with at least as much as was seen. -/
theorem noEmptyVisit_iff (n : Nat) (rand : Room → Nat) (ls : List (Label n)) :
    Throughout State.next NoEmptyVisit (State.start n rand) ls ↔
      Along Watched.next (fun w l => ¬ w.Late l) (Watched.start n rand) ls := by
  have hstorage : ∀ (w : Watched n) (l : Label n),
      (w.next l).map Watched.storage = w.storage.next l :=
    fun _ _ => map_map_of_leftInverse (fun _ => rfl) _
  have hstart : NoEmptyVisit (State.start n rand) := by
    intro b room seen tmp hpc
    cases hpc
  refine (throughout_map hstorage (Watched.start n rand) ls).symm.trans ?_
  apply throughout_iff_never (I := Watched.Knows) _ _ _ (Watched.knows_start n rand) hstart ls
  · exact fun w l w' h _ hst => h.next hst
  · exact fun w l h hl => hl.finds_less h
  · exact fun w l w' h hP hl hst => Watched.noEmptyVisit_next h hP hl hst

/-- Two buyers see the 1000 units of the first room, and one of them takes them before the other
    comes in. -/
theorem not_noEmptyVisit :
    ¬ ∀ (n : Nat) (rand : Room → Nat) (ls : List (Label n)), 2 ≤ n →
      Throughout State.next NoEmptyVisit (State.start n rand) ls := by
  intro h
  let ls : List (Label NUM_OF_BUYERS) :=
    ⟨.buyer 1, 0⟩ :: List.replicate 6 ⟨.buyer 0, 0⟩ ++ List.replicate 2 ⟨.buyer 1, 0⟩
  have hrun : ∃ s, run State.next (State.start NUM_OF_BUYERS fun _ => 0) ls = some s ∧
      s.buyer 1 = .update 0 1000#32 0#32 := ⟨_, rfl, rfl⟩
  obtain ⟨s, hs, hpc⟩ := hrun
  have hvisit := h NUM_OF_BUYERS (fun _ => 0) ls (by decide) ls s (List.prefix_refl ls) hs
  exact absurd (hvisit 1 0 1000#32 0#32 hpc).1 (by decide)

end EltexHomeworks.Storage
