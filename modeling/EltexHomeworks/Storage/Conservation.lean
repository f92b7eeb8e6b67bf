import Mathlib.Algebra.BigOperators.Fin
import Mathlib.Algebra.BigOperators.Group.Finset.Basic
import EltexHomeworks.Storage.Mutexes

namespace EltexHomeworks.Storage

open EltexHomeworks.Lib

open scoped BigOperators

/-!
# Storage — conservation of goods

The goods of the storage are in a room or with a buyer, except between the two steps of a purchase,
in which the demand has gone down and the room is not cleared yet.  `Books` is the invariant: the
books are kept with these purchases, the `pending` ones, subtracted.

The loader tests a room before it takes the mutex.  What it saw stays true, as nobody else fills a
room; what a buyer reads stays in the room, as it holds the mutex.
-/

variable {n : Nat}

/-- The goods in all rooms. -/
def State.stock (s : State n) : Int := ∑ room, ((s.rooms room).toNat : Int)

/-- The purchase of a buyer that has not cleared its room yet. -/
def State.pending (s : State n) (b : Fin n) : Int :=
  match s.buyer b with
  | .clear room => (s.rooms room).toNat
  | _ => 0

/-- What a buyer has taken out of the rooms, by its demand. -/
def State.bought (s : State n) (b : Fin n) : Int := 10000 - (s.demand b).toInt - s.pending b

/-- A buyer inside the loop for which the demand was positive. -/
def BuyerPc.Wants : BuyerPc → Prop
  | .trylock _ _ => True
  | .read _ _ => True
  | .update _ _ _ => True
  | _ => False

/-- **The invariant** of all conservation results; `initial` are the goods the storage was filled
    with.  No room exceeds 1200 and no demand goes below -1199, so that nothing wraps around. -/
structure Books (initial : Int) (s : State n) : Prop where
  guarded : Guarded s.mutex s.inside
  /-- A room the loader is about to fill is empty. -/
  empty : ∀ i, s.loader = .trylock i ∨ s.loader = .write i → s.rooms i = 0#32
  /-- The content a buyer has read is still in the room. -/
  read : ∀ b room seen tmp, s.buyer b = .update room seen tmp → s.rooms room = tmp
  wants : ∀ b, (s.buyer b).Wants → 0 < (s.demand b).toInt
  room_le : ∀ room, (s.rooms room).toNat ≤ 1200
  demand : ∀ b, (s.demand b).toInt = 10000 - s.goods b
  goods_le : ∀ b, s.goods b ≤ 11199
  balance : initial + s.loaded = s.stock + ∑ b, s.bought b

/-! ### Sums -/

/-- The sum of a function that was changed at one place. -/
theorem sum_off_one {ι : Type} [Fintype ι] {f g : ι → Int} (i : ι) (h : ∀ j, j ≠ i → g j = f j) :
    ∑ j, g j = ∑ j, f j + (g i - f i) := by
  have hdiff : ∑ j, (g j - f j) = g i - f i :=
    Fintype.sum_eq_single i fun j hj => by rw [h j hj, sub_self]
  rw [Finset.sum_sub_distrib] at hdiff
  omega

theorem stock_update {s s' : State n} (room : Room) (amount : BitVec 32)
    (h : s'.rooms = Function.update s.rooms room amount) :
    s'.stock = s.stock + (amount.toNat - (s.rooms room).toNat) := by
  rw [State.stock, State.stock, sum_off_one (f := fun i => ((s.rooms i).toNat : Int)) room]
  · rw [h, Function.update_self]
  · intro j hj
    rw [h, Function.update_of_ne hj]

theorem State.pending_of_clear {s : State n} {b : Fin n} (room : Room)
    (h : s.buyer b = .clear room) : s.pending b = (s.rooms room).toNat := by
  rw [pending, h]

theorem State.pending_of_ne {s : State n} {b : Fin n} (h : ∀ room, s.buyer b ≠ .clear room) :
    s.pending b = 0 := by
  unfold pending
  split
  · rename_i room hpc
    exact absurd hpc (h room)
  · rfl

/-- A buyer whose demand, place and room stay as they are. -/
theorem State.bought_congr {s s' : State n} {b : Fin n} (hd : s'.demand b = s.demand b)
    (hb : s'.buyer b = s.buyer b) (hr : ∀ room, s.buyer b = .clear room →
      s'.rooms room = s.rooms room) : s'.bought b = s.bought b := by
  have hp : s'.pending b = s.pending b := by
    by_cases h : ∃ room, s.buyer b = .clear room
    · obtain ⟨room, h⟩ := h
      rw [pending_of_clear room h, pending_of_clear room (hb.trans h), hr room h]
    · rw [not_exists] at h
      rw [pending_of_ne h, pending_of_ne (by rw [hb]; exact h)]
  rw [bought, bought, hd, hp]

/-! ### The steps of a buyer -/

/-- What holds of all buyers after one of them went to `pc`. -/
theorem State.forall_goto {s : State n} {b : Fin n} {pc : BuyerPc}
    {P : Fin n → BuyerPc → Prop} (hself : P b pc) (hother : ∀ b', b' ≠ b → P b' (s.buyer b')) :
    ∀ b', P b' ((s.goto b pc).buyer b') :=
  (Function.forall_update_iff s.buyer P).mpr ⟨hself, hother⟩

/-- A purchase is exact: the demand was positive and no room holds more than 1200. -/
theorem toInt_sub {x y : BitVec 32} (hx : 0 < x.toInt) (hx' : x.toInt ≤ 10000)
    (hy : y.toNat ≤ 1200) : (x - y).toInt = x.toInt - y.toNat := by
  have hy' : y.toInt = y.toNat := BitVec.toInt_eq_toNat_of_lt (by omega)
  rw [BitVec.toInt_sub, hy']
  exact Int.bmod_eq_of_le (by omega) (by omega)

namespace Books

variable {initial : Int} {s s' : State n} {b : Fin n}

/-- Only one buyer is in a room. -/
theorem alone (h : Books initial s) {b' : Fin n} {k : Nat} (hb : (s.buyer b).inside k)
    (hb' : (s.buyer b').inside k) : b' = b := by
  have ht : Thread.buyer b' = .buyer b := h.guarded.exclusive hb' hb
  cases ht
  rfl

/-- A buyer goes on, and nothing else changes that the books are about. -/
theorem goto {pc : BuyerPc} {mutex : Nat → Option (Thread n)} (h : Books initial s)
    (hg : Guarded mutex (s.goto b pc).inside) (hclear : ∀ room, s.buyer b ≠ .clear room)
    (hclear' : ∀ room, pc ≠ .clear room)
    (hread : ∀ room seen tmp, pc = .update room seen tmp → s.rooms room = tmp)
    (hwants : pc.Wants → 0 < (s.demand b).toInt) :
    Books initial { s.goto b pc with mutex := mutex } where
  guarded := hg
  empty := h.empty
  read := State.forall_goto
    (P := fun _ x => ∀ room seen tmp, x = .update room seen tmp → s.rooms room = tmp)
    hread fun b' _ => h.read b'
  wants := State.forall_goto (P := fun b' x => x.Wants → 0 < (s.demand b').toInt)
    hwants fun b' _ => h.wants b'
  room_le := h.room_le
  demand := h.demand
  goods_le := h.goods_le
  balance := by
    -- the buyer neither was nor is in the middle of a purchase
    have hbought : ∀ b', State.bought { s.goto b pc with mutex := mutex } b' = s.bought b' := by
      intro b'
      by_cases hb : b' = b
      · subst hb
        rw [State.bought, State.bought, State.pending_of_ne hclear, State.pending_of_ne]
        · rfl
        · intro room hpc
          have hpc' : Function.update s.buyer b' pc b' = .clear room := hpc
          rw [Function.update_self] at hpc'
          exact hclear' room hpc'
      · exact State.bought_congr rfl (Function.update_of_ne hb ..) fun _ _ => rfl
    rw [Finset.sum_congr rfl fun b' _ => hbought b']
    exact h.balance

/-- The buyer pays: its demand goes down by what it read. -/
theorem buy {room : Room} {seen tmp : BitVec 32} (h : Books initial s)
    (hpc : s.buyer b = .update room seen tmp) :
    Books initial { s.goto b (.clear room) with
      demand := Function.update s.demand b (s.demand b - tmp)
      goods := Function.update s.goods b (s.goods b + tmp.toNat) } := by
  -- it takes at most what a room can hold, so the subtraction does not wrap around
  have hread := h.read b room seen tmp hpc
  have hle : tmp.toNat ≤ 1200 := hread ▸ h.room_le room
  have hwants : 0 < (s.demand b).toInt := h.wants b (by rw [hpc]; trivial)
  have hdemand := h.demand b
  have hsub := toInt_sub hwants (by omega) hle
  exact
  { guarded := (BuyerMoves.buy room seen tmp hpc).guarded h.guarded
    empty := h.empty
    read := State.forall_goto
      (P := fun _ x => ∀ room seen tmp, x = .update room seen tmp → s.rooms room = tmp)
      (by simp) fun b' _ => h.read b'
    wants := State.forall_goto
      (P := fun b' x => x.Wants → 0 < (Function.update s.demand b (s.demand b - tmp) b').toInt)
      -- the buyer is behind the test of its demand; the others are where they were
      (fun hw => absurd hw id) fun b' hb hw => by
        rw [Function.update_of_ne hb]
        exact h.wants b' hw
    room_le := h.room_le
    demand := fun b' => by
      show (Function.update s.demand b (s.demand b - tmp) b').toInt =
        10000 - (Function.update s.goods b (s.goods b + tmp.toNat) b' : Nat)
      by_cases hb : b' = b
      · subst hb
        rw [Function.update_self, Function.update_self, hsub]
        omega
      · rw [Function.update_of_ne hb, Function.update_of_ne hb]
        exact h.demand b'
    goods_le := fun b' => by
      show Function.update s.goods b (s.goods b + tmp.toNat) b' ≤ 11199
      by_cases hb : b' = b
      · subst hb
        rw [Function.update_self]
        omega
      · rw [Function.update_of_ne hb]
        exact h.goods_le b'
    balance := by
      -- what the demand lost is pending
      have hbought : ∀ b', State.bought { s.goto b (.clear room) with
          demand := Function.update s.demand b (s.demand b - tmp)
          goods := Function.update s.goods b (s.goods b + tmp.toNat) } b' = s.bought b' := by
        intro b'
        by_cases hb : b' = b
        · subst hb
          rw [State.bought, State.bought, State.pending_of_clear room
            (Function.update_self ..), State.pending_of_ne (by rw [hpc]; simp)]
          show 10000 - (Function.update s.demand b' (s.demand b' - tmp) b').toInt -
            (s.rooms room).toNat = _
          rw [Function.update_self, hsub, hread]
          omega
        · exact State.bought_congr (Function.update_of_ne hb ..) (Function.update_of_ne hb ..)
            fun _ _ => rfl
      rw [Finset.sum_congr rfl fun b' _ => hbought b']
      exact h.balance }

/-- The buyer clears its room: the goods go from the room to the buyer. -/
theorem clear {room : Room} (h : Books initial s) (hpc : s.buyer b = .clear room) :
    Books initial { s.goto b (.unlock room) with
      rooms := Function.update s.rooms room 0#32 } := by
  have hin : (s.buyer b).inside room := by rw [hpc]; rfl
  -- nobody else is in the room
  have hother : ∀ b' (room' : Room), b' ≠ b → (s.buyer b').inside room' →
      Function.update s.rooms room 0#32 room' = s.rooms room' := by
    intro b' room' hb hin'
    refine Function.update_of_ne ?_ ..
    rintro rfl
    exact hb (h.alone hin hin')
  exact
  { guarded := (BuyerMoves.clear room hpc).guarded h.guarded
    empty := fun i hi => by
      show Function.update s.rooms room 0#32 i = 0#32
      by_cases hroom : i = room
      · subst hroom
        exact Function.update_self ..
      · rw [Function.update_of_ne hroom]
        exact h.empty i hi
    read := State.forall_goto
      (P := fun _ x => ∀ room' seen tmp, x = .update room' seen tmp →
        Function.update s.rooms room 0#32 room' = tmp)
      (by simp) fun b' hb room' seen tmp hpc' => by
        rw [hother b' room' hb (by rw [hpc']; rfl)]
        exact h.read b' room' seen tmp hpc'
    wants := State.forall_goto (P := fun b' x => x.Wants → 0 < (s.demand b').toInt)
      (fun hw => absurd hw id) fun b' _ => h.wants b'
    room_le := fun room' => by
      show (Function.update s.rooms room 0#32 room').toNat ≤ 1200
      by_cases hroom : room' = room
      · subst hroom
        rw [Function.update_self]
        decide
      · rw [Function.update_of_ne hroom]
        exact h.room_le room'
    demand := h.demand
    goods_le := h.goods_le
    balance := by
      -- the goods leave the room, and are no longer pending
      rw [stock_update (s := s) room 0#32 rfl,
        sum_off_one (f := s.bought) b]
      · rw [State.bought, State.bought, State.pending_of_clear room hpc, State.pending_of_ne]
        · have := h.balance
          show initial + s.loaded = s.stock + _ + (_ + (10000 - (s.demand b).toInt - 0 - _))
          simp only [BitVec.toNat_ofNat]
          omega
        · intro room' hpc'
          have hpc'' : Function.update s.buyer b (.unlock room) b = .clear room' := hpc'
          rw [Function.update_self] at hpc''
          cases hpc''
      · intro b' hb
        refine State.bought_congr rfl (Function.update_of_ne hb ..) fun room' hpc' => ?_
        exact hother b' room' hb (by rw [hpc']; rfl) }

end Books

/-- **A step of a buyer** keeps the books. -/
theorem BuyerMoves.books {initial : Int} {s s' : State n} {b : Fin n} (h : Books initial s)
    (hm : BuyerMoves s b s') : Books initial s' := by
  have hg := hm.guarded h.guarded
  cases hm with
  | goodbye hpc =>
    exact h.goto hg (by rw [hpc]; simp) (by simp) (by simp) fun hw => absurd hw id
  | empty hpc => exact h
  | see room hpc demand full =>
    exact h.goto hg (by rw [hpc]; simp) (by simp) (by simp) fun _ => demand
  | busy room seen hpc =>
    exact h.goto hg (by rw [hpc]; simp) (by simp) (by simp) fun hw => absurd hw id
  | enter room seen hpc free =>
    exact h.goto hg (by rw [hpc]; simp) (by simp) (by simp)
      fun _ => h.wants b (by rw [hpc]; trivial)
  | read room seen hpc =>
    refine h.goto hg (by rw [hpc]; simp) (by simp) ?_ fun _ => h.wants b (by rw [hpc]; trivial)
    intro room' seen' tmp heq
    cases heq
    rfl
  | buy room seen tmp hpc => exact h.buy hpc
  | clear room hpc => exact h.clear hpc
  | leave room hpc =>
    exact h.goto hg (by rw [hpc]; simp) (by simp) (by simp) fun hw => absurd hw id

/-! ### The steps of the loader -/

/-- The loader goes on, and nothing else changes that the books are about. -/
theorem Books.loader {initial : Int} {s s' : State n} (h : Books initial s)
    (hg : Guarded s'.mutex s'.inside) (hbuyer : s'.buyer = s.buyer) (hrooms : s'.rooms = s.rooms)
    (hdemand : s'.demand = s.demand) (hgoods : s'.goods = s.goods) (hloaded : s'.loaded = s.loaded)
    (hempty : ∀ i, s'.loader = .trylock i ∨ s'.loader = .write i → s.rooms i = 0#32) :
    Books initial s' where
  guarded := hg
  empty := by rw [hrooms]; exact hempty
  read := by rw [hbuyer, hrooms]; exact h.read
  wants := by rw [hbuyer, hdemand]; exact h.wants
  room_le := by rw [hrooms]; exact h.room_le
  demand := by rw [hdemand, hgoods]; exact h.demand
  goods_le := by rw [hgoods]; exact h.goods_le
  balance := by
    have hbought : ∀ b, s'.bought b = s.bought b := fun b =>
      State.bought_congr (by rw [hdemand]) (by rw [hbuyer]) fun room _ => by rw [hrooms]
    rw [Finset.sum_congr rfl fun b _ => hbought b, hloaded, State.stock, hrooms]
    exact h.balance

theorem toNat_refill (rand : Nat) : (State.refill rand).toNat = 400 + rand % 201 := by
  rw [State.refill, BitVec.toNat_ofNat]
  omega

/-- The loader fills its room, which is empty. -/
theorem Books.load {initial : Int} {s : State n} {i : Room} {rand : Nat} (h : Books initial s)
    (hpc : s.loader = .write i) :
    Books initial { s with
      loader := .unlock i
      rooms := Function.update s.rooms i (State.refill rand)
      loaded := s.loaded + (State.refill rand).toNat } := by
  have hempty := h.empty i (Or.inr hpc)
  have hin : s.inside .loader i := by
    show s.loader.inside n i
    rw [hpc]
    rfl
  -- no buyer is in the room
  have hother : ∀ b (room : Room), (s.buyer b).inside room →
      Function.update s.rooms i (State.refill rand) room = s.rooms room := by
    intro b room hb
    refine Function.update_of_ne ?_ ..
    rintro rfl
    have := h.guarded.exclusive (t := .buyer b) hb hin
    cases this
  exact
  { guarded := (LoaderMoves.load i rand hpc).guarded h.guarded
    empty := fun j hj => by rcases hj with hj | hj <;> cases hj
    read := fun b room seen tmp hb => by
      show Function.update s.rooms i (State.refill rand) room = tmp
      rw [hother b room (by rw [show s.buyer b = _ from hb]; rfl)]
      exact h.read b room seen tmp hb
    wants := h.wants
    room_le := fun room => by
      show (Function.update s.rooms i (State.refill rand) room).toNat ≤ 1200
      by_cases hroom : room = i
      · subst hroom
        rw [Function.update_self, toNat_refill]
        omega
      · rw [Function.update_of_ne hroom]
        exact h.room_le room
    demand := h.demand
    goods_le := h.goods_le
    balance := by
      -- the room was empty, so the stock grows by all that is loaded
      have hbought : ∀ b, State.bought { s with
          loader := .unlock i
          rooms := Function.update s.rooms i (State.refill rand)
          loaded := s.loaded + (State.refill rand).toNat } b = s.bought b := fun b =>
        State.bought_congr rfl rfl fun room hb => hother b room (by rw [hb]; rfl)
      have hbalance : initial + s.loaded = s.stock + Finset.univ.sum s.bought := h.balance
      have hsum := Finset.sum_congr (rfl : Finset.univ = Finset.univ) fun b _ => hbought b
      rw [hsum, stock_update (s := s) i (State.refill rand) rfl, hempty, BitVec.toNat_ofNat]
      show initial + ((s.loaded + (State.refill rand).toNat : Nat) : Int) = _
      omega }

/-- **A step of the loader** keeps the books. -/
theorem LoaderMoves.books {initial : Int} {s s' : State n} (h : Books initial s)
    (hm : LoaderMoves s s') : Books initial s' := by
  have hg := hm.guarded h.guarded
  have hno : ∀ {pc : LoaderPc}, (∀ i, pc ≠ .trylock i ∧ pc ≠ .write i) →
      ∀ i, pc = .trylock i ∨ pc = .write i → s.rooms i = 0#32 := fun hpc i hi =>
    hi.elim (fun hi => absurd hi (hpc i).1) fun hi => absurd hi (hpc i).2
  cases hm with
  | full i hpc => exact h.loader hg rfl rfl rfl rfl rfl (hno (by simp))
  | see i hpc empty =>
    refine h.loader hg rfl rfl rfl rfl rfl fun j hj => ?_
    rcases hj with hj | hj <;> cases hj
    exact empty
  | busy i hpc => exact h.loader hg rfl rfl rfl rfl rfl (hno (by simp))
  | enter i hpc free =>
    refine h.loader hg rfl rfl rfl rfl rfl fun j hj => ?_
    rcases hj with hj | hj <;> cases hj
    exact h.empty i (Or.inl hpc)
  | load i rand hpc => exact h.load hpc
  | leave i hpc => exact h.loader hg rfl rfl rfl rfl rfl (hno (by simp))
  | lock i k hpc hk free => exact h.loader hg rfl rfl rfl rfl rfl (hno (by simp))
  | locked i k hpc hk => exact h.loader hg rfl rfl rfl rfl rfl (hno (by simp))
  | print i k hpc hk => exact h.loader hg rfl rfl rfl rfl rfl (hno (by simp))
  | printed i k hpc hk => exact h.loader hg rfl rfl rfl rfl rfl (hno (by simp))
  | release i k hpc hk => exact h.loader hg rfl rfl rfl rfl rfl (hno (by simp))
  | released i k hpc hk => exact h.loader hg rfl rfl rfl rfl rfl (hno (by simp))

/-! ### Runs -/

/-- The books are right when the storage has just been filled. -/
theorem books_start (n : Nat) (rand : Room → Nat) :
    Books (∑ room, ((State.filling (rand room)).toNat : Int)) (State.start n rand) where
  guarded t k ht := by cases t <;> exact absurd ht id
  empty i hi := by rcases hi with hi | hi <;> cases hi
  read b room seen tmp hb := by cases hb
  wants b hw := absurd hw id
  room_le room := by
    show (State.filling (rand room)).toNat ≤ 1200
    rw [State.filling, BitVec.toNat_ofNat]
    omega
  demand b := by
    show State.DEMAND.toInt = 10000 - ((0 : Nat) : Int)
    decide
  goods_le b := Nat.zero_le _
  balance := by
    have hbought : ∀ b, (State.start n rand).bought b = 0 := by
      intro b
      rw [State.bought, State.pending_of_ne (by intro room h; cases h)]
      show 10000 - State.DEMAND.toInt - 0 = 0
      decide
    rw [Finset.sum_eq_zero fun b _ => hbought b]
    show _ + ((0 : Nat) : Int) = _
    unfold State.stock
    simp [State.start]

/-- Every step keeps the books. -/
theorem Books.next {initial : Int} {s s' : State n} {l : Label n} (h : Books initial s)
    (hst : s.next l = some s') : Books initial s' := by
  rcases next_cases hst with hm | ⟨b, hm⟩
  · exact hm.books h
  · exact hm.books h

/-- **The books are right in every run**, of any number of buyers: what the storage was filled with
    and what was loaded is in the rooms, or was bought. -/
theorem books_of_reachable {rand : Room → Nat} {s : State n} (hs : (storage n rand).Reachable s) :
    Books (∑ room, ((State.filling (rand room)).toNat : Int)) s := by
  have hinv : (storage n rand).Invariant
      (Books (∑ room, ((State.filling (rand room)).toNat : Int))) :=
    { base := by
        rintro s rfl
        exact books_start n rand
      keep := by
        rintro s l s' h hst
        exact h.next hst }
  exact hinv.of_reachable hs

/-- **Conservation of goods.**  In every state in which no buyer is between the two steps of a
    purchase, the goods the storage was filled with and all amounts the loader wrote are the goods
    in the rooms and those the buyers have taken.  In every state, the room the loader is about to
    write to is empty, what a buyer has read is still in its room, and no other buyer is there. -/
theorem goods_conserved (n : Nat) (rand : Room → Nat) {s : State n}
    (hs : (storage n rand).Reachable s) :
    ((∀ b room, s.buyer b ≠ .clear room) →
      ∑ room, ((State.filling (rand room)).toNat : Int) + s.loaded =
        ∑ room, ((s.rooms room).toNat : Int) + ∑ b, (10000 - (s.demand b).toInt)) ∧
    (∀ i, s.loader = .write i → s.rooms i = 0#32) ∧
    (∀ b room seen tmp, s.buyer b = .update room seen tmp → s.rooms room = tmp) ∧
    ∀ b b' k, (s.buyer b).inside k → (s.buyer b').inside k → b' = b := by
  have h := books_of_reachable hs
  refine ⟨fun hquiet => ?_, fun i hi => h.empty i (Or.inr hi), h.read, fun b b' k => h.alone⟩
  have hbought : ∀ b, s.bought b = 10000 - (s.demand b).toInt := by
    intro b
    rw [State.bought, State.pending_of_ne (hquiet b), sub_zero]
  rw [h.balance, Finset.sum_congr rfl fun b _ => hbought b]
  rfl

/-- One buyer takes the 1000 units of the first room. -/
theorem goods_conserved_after_purchase :
    ∃ s : State 1, s.demand 0 = 9000#32 ∧
      ∑ _room : Room, ((State.filling 0).toNat : Int) + s.loaded =
        ∑ room, ((s.rooms room).toNat : Int) + ∑ b, (10000 - (s.demand b).toInt) := by
  have hrun : ∃ s, run State.next (State.start 1 fun _ => 0) (List.replicate 5 ⟨.buyer 0, 0⟩) =
      some s ∧ s.demand 0 = 9000#32 ∧ s.buyer 0 = .unlock 0 := ⟨_, rfl, rfl, rfl⟩
  obtain ⟨s, hs, hdemand, hpc⟩ := hrun
  -- the buyer is past its purchase
  have hreach : (storage 1 fun _ => 0).Reachable s :=
    TransitionSystem.Reachable.run (.init rfl) hs
  refine ⟨s, hdemand, (goods_conserved 1 (fun _ => 0) hreach).1 fun b room hb => ?_⟩
  rw [Fin.fin_one_eq_zero b, hpc] at hb
  cases hb

end EltexHomeworks.Storage
