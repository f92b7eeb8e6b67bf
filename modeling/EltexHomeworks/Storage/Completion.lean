import Mathlib.Algebra.Order.BigOperators.Group.Finset
import EltexHomeworks.Storage.Deadlock
import EltexHomeworks.Storage.Accounts

namespace EltexHomeworks.Storage

open EltexHomeworks.Lib

/-!
# Storage — all buyers can be served

From every state of every interleaving the threads can go on so that all buyers leave: everybody
comes to rest (`Idle`), and then a buyer that still wants something buys, after the loader has
filled a room if they are all empty.

* `buyers_rest`, `loader_rests` — the ways to rest;
* `buys`, `refills` — a purchase and a refill from there;
* `leads_all_done` — the way to the end.
-/

variable {n : Nat} {s t : State n} {b : Fin n}

theorem reachable_of_leads {rand : Room → Nat} (hs : (storage n rand).Reachable s)
    (h : Leads State.next s t) : (storage n rand).Reachable t :=
  h.elim fun _ hrun => TransitionSystem.Reachable.run hs hrun

/-! ### Buyers come to rest -/

/-- A buyer outside the rooms, or one that has left. -/
def BuyerPc.AtRest (pc : BuyerPc) : Prop := pc = .loop ∨ pc = .done

/-- The steps of a buyer to its rest. -/
def BuyerPc.left : BuyerPc → Nat
  | .loop => 0
  | .trylock _ _ => 5
  | .read _ _ => 4
  | .update _ _ _ => 3
  | .clear _ => 2
  | .unlock _ => 1
  | .done => 0

/-- A buyer in the middle of a visit goes on with it. -/
theorem buyerStep_left (h : ¬ (s.buyer b).AtRest) :
    ∃ t, s.buyerStep b 0 = some t ∧ (t.buyer b).left < (s.buyer b).left := by
  unfold State.buyerStep
  cases hpc : s.buyer b with
  | loop => exact absurd (.inl hpc) h
  | done => exact absurd (.inr hpc) h
  | trylock room seen =>
    dsimp only
    split
    · exact ⟨_, rfl, by rw [State.goto]; simp [BuyerPc.left]⟩
    · exact ⟨_, rfl, by rw [State.goto]; simp [BuyerPc.left]⟩
  | _ => exact ⟨_, rfl, by rw [State.goto]; simp [BuyerPc.left]⟩

/-- One buyer comes to rest, and the others stay where they are. -/
theorem buyer_rests (s : State n) (b : Fin n) :
    ∃ t, Leads State.next s t ∧ (∀ b', b' ≠ b → t.buyer b' = s.buyer b') ∧ (t.buyer b).AtRest := by
  refine leads_of_measure (G := fun t : State n => (t.buyer b).AtRest)
    (I := fun t => ∀ b', b' ≠ b → t.buyer b' = s.buyer b')
    (fun t => (t.buyer b).left) ?_ fun _ _ => rfl
  intro t ho hrest
  obtain ⟨u, hu, hlt⟩ := buyerStep_left hrest
  refine ⟨u, .of_next (a := ⟨.buyer b, 0⟩) hu, fun b' hb => ?_, hlt⟩
  exact ((buyerStep_cases hu).others hb).1.trans (ho b' hb)

/-- **All buyers come to rest**, one after the other: a buyer in a room comes out of it by steps of
    its own, whoever holds the other mutexes. -/
theorem buyers_rest (s : State n) : ∃ t, Leads State.next s t ∧ ∀ b, (t.buyer b).AtRest := by
  have hlist : ∀ bs : List (Fin n),
      ∃ t, Leads State.next s t ∧ ∀ b ∈ bs, (t.buyer b).AtRest := by
    intro bs
    induction bs with
    | nil => exact ⟨s, .refl s, fun b hb => by cases hb⟩
    | cons b bs ih =>
      obtain ⟨t, ht, hbs⟩ := ih
      obtain ⟨u, hu, ho, hb⟩ := buyer_rests t b
      refine ⟨u, ht.trans hu, fun b' hb' => ?_⟩
      by_cases heq : b' = b
      · rw [heq]
        exact hb
      · rw [ho b' heq]
        exact hbs b' ((List.mem_cons.mp hb').resolve_left heq)
  obtain ⟨t, ht, hall⟩ := hlist (List.finRange n)
  exact ⟨t, ht, fun b => hall b (List.mem_finRange b)⟩

/-! ### The loader comes to rest -/

/-- The steps of the loader to its next check. -/
def LoaderPc.left (n : Nat) : LoaderPc → Nat
  | .check _ => 0
  | .trylock _ => 2 * n + 15
  | .write _ => 2 * n + 14
  | .unlock _ => 2 * n + 13
  | .lock _ k => (n + 1 - k) + n + 11
  | .print _ k => (NUM_OF_ROOMS - k) + n + 4
  | .release _ k => (n + 1 - k) + 1

/-- The loader is about to change a room. -/
def LoaderPc.Loads : LoaderPc → Prop
  | .trylock _ => True
  | .write _ => True
  | _ => False

/-- While all buyers rest, no mutex keeps the loader. -/
theorem not_blocked_of_rest (h : Held s) (hrest : ∀ b, (s.buyer b).AtRest) (k : Nat) :
    ¬ s.Blocked k := by
  rintro ⟨⟨i, hi⟩, -, hm⟩
  obtain ⟨t, ht⟩ := Option.ne_none_iff_exists'.mp hm
  have hin := h.owned t k ht
  cases t with
  | loader =>
    have hlt : s.loader.inside n k := hin
    rw [hi] at hlt
    exact Nat.lt_irrefl k hlt
  | buyer b =>
    have hb : (s.buyer b).inside k := hin
    rcases hrest b with hpc | hpc
    · rw [hpc] at hb
      exact hb
    · rw [hpc] at hb
      exact hb

/-- A loader between two checks comes closer to the second, and changes no room any more once it has
    filled one. -/
theorem LoaderMoves.left_lt (hm : LoaderMoves s t) (h : ∀ i, s.loader ≠ .check i) :
    t.loader.left n < s.loader.left n ∧
      (¬ s.loader.Loads → ¬ t.loader.Loads ∧ t.rooms = s.rooms) := by
  cases hm with
  | full i hpc => exact absurd hpc (h i)
  | see i hpc empty => exact absurd hpc (h i)
  | busy i hpc =>
    rw [hpc]
    -- a room whose mutex is held is skipped, and the loader has not filled it
    exact ⟨Nat.succ_pos _, fun hno => absurd trivial hno⟩
  | enter i hpc free =>
    rw [hpc]
    exact ⟨Nat.lt_succ_self _, fun hno => absurd trivial hno⟩
  | load i rand hpc =>
    rw [hpc]
    exact ⟨Nat.lt_succ_self _, fun hno => absurd trivial hno⟩
  | leave i hpc =>
    rw [hpc]
    -- from here on it only reports, and leaves the rooms alone
    refine ⟨?_, fun _ => ⟨id, rfl⟩⟩
    simp only [LoaderPc.left]
    omega
  | lock i k hpc hk free =>
    rw [hpc]
    refine ⟨?_, fun _ => ⟨id, rfl⟩⟩
    simp only [LoaderPc.left]
    omega
  | locked i k hpc hk =>
    rw [hpc]
    refine ⟨?_, fun _ => ⟨id, rfl⟩⟩
    simp only [LoaderPc.left, NUM_OF_ROOMS]
    omega
  | print i k hpc hk =>
    rw [hpc]
    refine ⟨?_, fun _ => ⟨id, rfl⟩⟩
    simp only [LoaderPc.left]
    omega
  | printed i k hpc hk =>
    rw [hpc]
    refine ⟨?_, fun _ => ⟨id, rfl⟩⟩
    simp only [LoaderPc.left]
    omega
  | release i k hpc hk =>
    rw [hpc]
    refine ⟨?_, fun _ => ⟨id, rfl⟩⟩
    simp only [LoaderPc.left]
    omega
  | released i k hpc hk =>
    rw [hpc]
    exact ⟨Nat.succ_pos _, fun _ => ⟨id, rfl⟩⟩

/-- The loader has no influence on a property of the buyers. -/
theorem LoaderMoves.buyers_eq (hm : LoaderMoves s t) : t.buyer = s.buyer ∧ t.demand = s.demand :=
  ⟨funext fun b => (hm.others b).1, funext fun b => (hm.others b).2⟩

/-- The loader has come from `s` to `t`, while the buyers stayed where they were; it has changed no
    room if it was not about to. -/
structure LoaderCame (s t : State n) : Prop where
  buyer : t.buyer = s.buyer
  demand : t.demand = s.demand
  rooms : ¬ s.loader.Loads → ¬ t.loader.Loads ∧ t.rooms = s.rooms

/-- **The loader comes to its next check** while all buyers rest: no mutex it wants is held, so
    that it goes through `storage_control` by itself. -/
theorem loader_rests {rand : Room → Nat} (hs : (storage n rand).Reachable s)
    (hrest : ∀ b, (s.buyer b).AtRest) :
    ∃ t, Leads State.next s t ∧ LoaderCame s t ∧ ∃ i, t.loader = .check i := by
  have hgo : ∀ u : State n, (storage n rand).Reachable u ∧ LoaderCame s u →
      (¬ ∃ i, u.loader = .check i) → ∃ v, Leads State.next u v ∧
        ((storage n rand).Reachable v ∧ LoaderCame s v) ∧ v.loader.left n < u.loader.left n := by
    rintro u ⟨hu, hcame⟩ hcheck
    have hfree := not_blocked_of_rest (held_of_reachable hu) (by rw [hcame.buyer]; exact hrest)
    have hsome : (u.loaderStep 0).isSome := isSome_loaderStep_iff.mpr hfree
    obtain ⟨v, hv⟩ := Option.isSome_iff_exists.mp hsome
    have hm := loaderStep_cases hv
    obtain ⟨hlt, hkeep⟩ := hm.left_lt fun i hi => hcheck ⟨i, hi⟩
    have hst : u.next ⟨.loader, 0⟩ = some v := hv
    refine ⟨v, .of_next hst, ⟨.step hu hst, ⟨?_, ?_, fun hno => ?_⟩⟩, hlt⟩
    · exact hm.buyers_eq.1.trans hcame.buyer
    · exact hm.buyers_eq.2.trans hcame.demand
    · obtain ⟨hno', hroom⟩ := hcame.rooms hno
      obtain ⟨hno'', hroom'⟩ := hkeep hno'
      exact ⟨hno'', hroom'.trans hroom⟩
  obtain ⟨t, ht, ⟨-, hcame⟩, hcheck⟩ := leads_of_measure _ hgo
    ⟨hs, ⟨rfl, rfl, fun hno => ⟨hno, rfl⟩⟩⟩
  exact ⟨t, ht, hcame, hcheck⟩

/-! ### A purchase -/

/-- The buyer `b` comes back to its loop with the demand `d`, and nobody else moves. -/
def State.Returns (s : State n) (b : Fin n) (d : BitVec 32) : Prop :=
  ∃ t, Leads State.next s t ∧ (t.buyer b = .loop ∧ t.demand b = d) ∧ t.loader = s.loader ∧
    ∀ b', b' ≠ b → t.buyer b' = s.buyer b' ∧ t.demand b' = s.demand b'

/-- One more step in front. -/
theorem State.Returns.cons {d : BitVec 32} {rand : Nat} (hst : s.buyerStep b rand = some t)
    (h : t.Returns b d) : s.Returns b d := by
  obtain ⟨u, hu, hb, hl, ho⟩ := h
  have hm := buyerStep_cases hst
  have hnext : s.next ⟨.buyer b, rand⟩ = some t := hst
  refine ⟨u, (Leads.of_next hnext).trans hu, hb, hl.trans hm.loader_eq, fun b' hne => ?_⟩
  obtain ⟨hpc, hdemand⟩ := ho b' hne
  obtain ⟨hpc', hdemand'⟩ := hm.others hne
  exact ⟨hpc.trans hpc', hdemand.trans hdemand'⟩

section Visit

variable {room : Room}

theorem returns_of_unlock (hpc : s.buyer b = .unlock room) : s.Returns b (s.demand b) := by
  have hst : s.buyerStep b 0 =
      some { s.goto b .loop with mutex := Function.update s.mutex room none } := by
    rw [State.buyerStep, hpc]
  exact .cons hst ⟨_, .refl _, ⟨State.buyer_goto (s := s) _, rfl⟩, rfl, fun _ _ => ⟨rfl, rfl⟩⟩

theorem returns_of_clear (hpc : s.buyer b = .clear room) : s.Returns b (s.demand b) := by
  have hst : s.buyerStep b 0 = some { s.goto b (.unlock room) with
      rooms := Function.update s.rooms room 0#32 } := by
    rw [State.buyerStep, hpc]
  exact .cons hst (returns_of_unlock (State.buyer_goto (s := s) _))

theorem returns_of_update {seen tmp : BitVec 32} (hpc : s.buyer b = .update room seen tmp) :
    s.Returns b (s.demand b - tmp) := by
  have hst : s.buyerStep b 0 = some { s.goto b (.clear room) with
      demand := Function.update s.demand b (s.demand b - tmp)
      goods := Function.update s.goods b (s.goods b + tmp.toNat) } := by
    rw [State.buyerStep, hpc]
  have hclear := returns_of_clear (s := { s.goto b (.clear room) with
      demand := Function.update s.demand b (s.demand b - tmp)
      goods := Function.update s.goods b (s.goods b + tmp.toNat) }) (State.buyer_goto (s := s) _)
  dsimp only at hclear
  rw [Function.update_self] at hclear
  exact .cons hst hclear

theorem returns_of_read {seen : BitVec 32} (hpc : s.buyer b = .read room seen) :
    s.Returns b (s.demand b - s.rooms room) := by
  have hst : s.buyerStep b 0 = some (s.goto b (.update room seen (s.rooms room))) := by
    rw [State.buyerStep, hpc]
  exact .cons hst (returns_of_update (State.buyer_goto (s := s) _))

theorem returns_of_trylock {seen : BitVec 32} (hpc : s.buyer b = .trylock room seen)
    (hfree : s.mutex room = none) : s.Returns b (s.demand b - s.rooms room) := by
  have hst : s.buyerStep b 0 = some { s.goto b (.read room seen) with
      mutex := Function.update s.mutex room (some (.buyer b)) } := by
    rw [State.buyerStep, hpc]
    dsimp only
    rw [hfree]
  exact .cons hst (returns_of_read (State.buyer_goto (s := s) _))

/-- **A purchase**, when nobody is in the room: the buyer draws it, finds it full, and comes back
    to its loop with all of the room taken from its demand. -/
theorem buys (hpc : s.buyer b = .loop) (hdemand : 0 < (s.demand b).toInt)
    (hfull : s.rooms room ≠ 0#32) (hfree : s.mutex room = none) :
    s.Returns b (s.demand b - s.rooms room) := by
  have hst : s.buyerStep b room = some (s.goto b (.trylock room (s.rooms room))) := by
    rw [State.buyerStep, hpc]
    dsimp only
    rw [if_pos hdemand, Fin.ofNat_val_eq_self, if_pos hfull]
  exact .cons hst (returns_of_trylock (State.buyer_goto (s := s) _) hfree)

end Visit

/-! ### Rest -/

/-- No buyer is on a visit, and the loader looks for an empty room. -/
structure Idle (s : State n) : Prop where
  rest : ∀ b, (s.buyer b).AtRest
  check : ∃ i, s.loader = .check i

/-- At rest nobody holds a mutex. -/
theorem Idle.free (h : Idle s) (hheld : Held s) (k : Nat) : s.mutex k = none := by
  cases hm : s.mutex k with
  | none => rfl
  | some t =>
    have hin := hheld.owned t k hm
    cases t with
    | loader =>
      obtain ⟨i, hi⟩ := h.check
      have hl : s.loader.inside n k := hin
      rw [hi] at hl
      exact absurd hl id
    | buyer b =>
      have hb : (s.buyer b).inside k := hin
      rcases h.rest b with hpc | hpc <;> rw [hpc] at hb <;> exact absurd hb id

/-- **Everybody comes to rest**: the buyers first, since the loader may wait for the mutex of one,
    and then the loader. -/
theorem leads_idle {rand : Room → Nat} (hs : (storage n rand).Reachable s) :
    ∃ t, Leads State.next s t ∧ Idle t := by
  obtain ⟨t, ht, hrest⟩ := buyers_rest s
  obtain ⟨u, hu, hcame, hcheck⟩ := loader_rests (reachable_of_leads hs ht) hrest
  exact ⟨u, ht.trans hu, ⟨fun b => by rw [hcame.buyer]; exact hrest b, hcheck⟩⟩

/-- **A refill.**  In an empty storage the loader fills the room it looks at. -/
theorem refills {rand : Room → Nat} (hs : (storage n rand).Reachable s) (h : Idle s)
    (hempty : ∀ room, s.rooms room = 0#32) :
    ∃ t, Leads State.next s t ∧ (t.buyer = s.buyer ∧ t.demand = s.demand) ∧ Idle t ∧
      ∃ room, t.rooms room ≠ 0#32 := by
  obtain ⟨i, hi⟩ := h.check
  -- three steps of the loader: it sees the room empty, locks it and fills it
  let seen : State n := { s with loader := .trylock i }
  let entered : State n :=
    { seen with loader := .write i, mutex := Function.update s.mutex i (some .loader) }
  let filled : State n :=
    { entered with
      loader := .unlock i
      rooms := Function.update s.rooms i (State.refill 0)
      loaded := s.loaded + (State.refill 0).toNat }
  have hsee : s.next ⟨.loader, 0⟩ = some seen := by
    show s.loaderStep 0 = _
    rw [State.loaderStep, hi]
    exact if_pos (hempty i)
  have henter : seen.next ⟨.loader, 0⟩ = some entered := by
    show seen.loaderStep 0 = _
    rw [State.loaderStep]
    dsimp only [seen]
    rw [h.free (held_of_reachable hs) i]
  have hfill : entered.next ⟨.loader, 0⟩ = some filled := rfl
  have hlead : Leads State.next s filled :=
    (Leads.of_next hsee).trans ((Leads.of_next henter).trans (.of_next hfill))
  -- and then it comes to its next check
  obtain ⟨t, ht, hcame, hcheck⟩ := loader_rests (reachable_of_leads hs hlead) h.rest
  refine ⟨t, hlead.trans ht, ⟨hcame.buyer, hcame.demand⟩,
    ⟨fun b => by rw [hcame.buyer]; exact h.rest b, hcheck⟩, i, ?_⟩
  rw [(hcame.rooms id).2, show filled.rooms i = State.refill 0 from Function.update_self ..]
  decide

/-! ### The way to the end -/

/-- What a buyer still wants. -/
def State.wanted (s : State n) (b : Fin n) : Nat :=
  if s.buyer b = .done then 0 else (s.demand b).toInt.toNat + 1

/-- A buyer that wants less makes the sum less. -/
theorem sum_wanted_lt (ho : ∀ b', b' ≠ b → t.buyer b' = s.buyer b' ∧ t.demand b' = s.demand b')
    (hlt : t.wanted b < s.wanted b) : ∑ b, t.wanted b < ∑ b, s.wanted b := by
  refine Finset.sum_lt_sum (fun b' _ => ?_) ⟨b, Finset.mem_univ b, hlt⟩
  by_cases hb : b' = b
  · rw [hb]
    exact Nat.le_of_lt hlt
  · obtain ⟨hpc, hdemand⟩ := ho b' hb
    rw [State.wanted, State.wanted, hpc, hdemand]

/-- A buyer that has what it wanted leaves. -/
theorem leaves (hpc : s.buyer b = .loop) (hdemand : ¬ 0 < (s.demand b).toInt) :
    s.next ⟨.buyer b, 0⟩ = some (s.goto b .done) := by
  show s.buyerStep b 0 = _
  rw [State.buyerStep, hpc]
  exact if_neg hdemand

/-- A purchase from rest, when there is something in a room. -/
theorem wants_less {rand : Room → Nat} (hs : (storage n rand).Reachable s) (h : Idle s)
    (hpc : s.buyer b = .loop) (hdemand : 0 < (s.demand b).toInt) {room : Room}
    (hfull : s.rooms room ≠ 0#32) :
    ∃ t, Leads State.next s t ∧ Idle t ∧ ∑ b, t.wanted b < ∑ b, s.wanted b := by
  obtain ⟨t, ht, ⟨hloop, hd⟩, hl, ho⟩ :=
    buys hpc hdemand hfull (h.free (held_of_reachable hs) room)
  refine ⟨t, ht, ⟨fun b' => ?_, by rw [hl]; exact h.check⟩, sum_wanted_lt ho ?_⟩
  · by_cases hb : b' = b
    · rw [hb]
      exact .inl hloop
    · rw [(ho b' hb).1]
      exact h.rest b'
  · have hbooks := books_of_reachable hs
    have hle := hbooks.room_le room
    have hgoods := hbooks.demand b
    have hpos : 0 < (s.rooms room).toNat := by
      rw [Nat.pos_iff_ne_zero]
      exact fun hzero => hfull (BitVec.eq_of_toNat_eq hzero)
    rw [State.wanted, State.wanted, hloop, hpc, if_neg nofun, if_neg nofun, hd,
      toInt_sub hdemand (by omega) hle]
    omega

/-- **All buyers can be served.**  From every state of every interleaving the program can go on so
    that all buyers leave. -/
theorem leads_all_done {rand : Room → Nat} (hs : (storage n rand).Reachable s) :
    ∃ t, Leads State.next s t ∧ ∀ b, t.buyer b = .done := by
  obtain ⟨r, hr, hidle⟩ := leads_idle hs
  have hgo : ∀ u : State n, (storage n rand).Reachable u ∧ Idle u →
      (¬ ∀ b, u.buyer b = .done) → ∃ v, Leads State.next u v ∧
        ((storage n rand).Reachable v ∧ Idle v) ∧ ∑ b, v.wanted b < ∑ b, u.wanted b := by
    rintro u ⟨hu, hidle⟩ hnot
    obtain ⟨b, hb⟩ := Classical.not_forall.mp hnot
    have hpc := (hidle.rest b).resolve_right hb
    by_cases hdemand : 0 < (u.demand b).toInt
    · by_cases hempty : ∀ room, u.rooms room = 0#32
      · -- the loader first
        obtain ⟨w, hw, ⟨hbuyer, hd⟩, hidle', room, hfull⟩ := refills hu hidle hempty
        have hreach := reachable_of_leads hu hw
        obtain ⟨v, hv, hidle'', hlt⟩ := wants_less hreach hidle' (by rw [hbuyer]; exact hpc)
          (by rw [hd]; exact hdemand) hfull
        have hsame : ∀ b, w.wanted b = u.wanted b := by
          intro b
          rw [State.wanted, State.wanted, hbuyer, hd]
        refine ⟨v, hw.trans hv, ⟨reachable_of_leads hreach hv, hidle''⟩, ?_⟩
        rwa [Finset.sum_congr rfl fun b _ => hsame b] at hlt
      · obtain ⟨room, hfull⟩ := Classical.not_forall.mp hempty
        obtain ⟨v, hv, hidle', hlt⟩ := wants_less hu hidle hpc hdemand hfull
        exact ⟨v, hv, ⟨reachable_of_leads hu hv, hidle'⟩, hlt⟩
    · have hst := leaves hpc hdemand
      refine ⟨u.goto b .done, .of_next hst, ⟨.step hu hst, ?_, hidle.check⟩, ?_⟩
      · exact State.forall_goto (P := fun _ pc => pc.AtRest) (.inr rfl) fun b' _ => hidle.rest b'
      · refine sum_wanted_lt (b := b) (fun b' hb' => ⟨Function.update_of_ne hb' .., rfl⟩) ?_
        rw [State.wanted, State.buyer_goto, if_pos rfl, State.wanted, if_neg hb]
        exact Nat.succ_pos _
  obtain ⟨t, ht, -, hdone⟩ := leads_of_measure _ hgo ⟨reachable_of_leads hs hr, hidle⟩
  exact ⟨t, hr.trans ht, hdone⟩

end EltexHomeworks.Storage
