import Mathlib.Algebra.Ring.Nat
import EltexHomeworks.Lib.Guarded
import EltexHomeworks.Lib.Transition

namespace EltexHomeworks.Storage

open EltexHomeworks.Lib

/-!
# Storage — the loader, the buyers and their steps

The rooms of the storage, the mutexes, and the threads of `buyer` and `loader` with the function
`storage_control` that the loader calls.  Each access to a room, each operation on a mutex and each
update of a demand is a step of its own; `storage` is the program under every interleaving of them.

The number of buyers is a parameter `n`.  There is one mutex for each index the code uses: those of
the rooms and, in `storage_control`, the first `n + 1`.  What `rand` returns is part of a step.
-/

/-- The number of rooms. -/
def NUM_OF_ROOMS : Nat := 5

/-- The number of buyers the program creates. -/
def NUM_OF_BUYERS : Nat := 3

instance : NeZero NUM_OF_ROOMS := ⟨by decide⟩

instance : NeZero NUM_OF_BUYERS := ⟨by decide⟩

/-- The number of a room. -/
abbrev Room := Fin NUM_OF_ROOMS

/-- The threads that take mutexes. -/
inductive Thread (n : Nat)
  | loader
  | buyer (b : Fin n)
deriving DecidableEq, Repr

/-- Where a buyer is.  `seen` is the content it saw when it checked the room, `tmp` the content it
    read for the subtraction. -/
inductive BuyerPc
  | loop
  | trylock (room : Room) (seen : BitVec 32)
  | read (room : Room) (seen : BitVec 32)
  | update (room : Room) (seen tmp : BitVec 32)
  | clear (room : Room)
  | unlock (room : Room)
  | done
deriving DecidableEq, Repr

/-- Where the loader is, in its turn for room `i`; `k` is the index of a loop in
    `storage_control`. -/
inductive LoaderPc
  | check (i : Room)
  | trylock (i : Room)
  | write (i : Room)
  | unlock (i : Room)
  | lock (i : Room) (k : Nat)
  | print (i : Room) (k : Nat)
  | release (i : Room) (k : Nat)
deriving DecidableEq, Repr

/-- The storage and its threads, with what each thread is about to do.  The last two fields keep
    account for the statements; no step depends on them. -/
structure State (n : Nat) where
  /-- The rooms, `unsigned int`s. -/
  rooms : Room → BitVec 32
  /-- The holder of each mutex. -/
  mutex : Nat → Option (Thread n)
  buyer : Fin n → BuyerPc
  /-- The demands, `int`s. -/
  demand : Fin n → BitVec 32
  loader : LoaderPc
  /-- What `storage_control` has printed of the rooms in its current or last call. -/
  printed : List (BitVec 32)
  /-- All amounts the loader has written, and the goods each buyer has taken. -/
  loaded : Nat
  goods : Fin n → Nat

namespace State

variable {n : Nat} (s : State n)

/-- The buyer `b` goes to `pc`. -/
def goto (b : Fin n) (pc : BuyerPc) : State n := { s with buyer := Function.update s.buyer b pc }

/-- The content of a room when the storage is filled. -/
def filling (r : Nat) : BitVec 32 := BitVec.ofNat 32 (1000 + r % 201)

/-- What the loader writes to an empty room. -/
def refill (r : Nat) : BitVec 32 := BitVec.ofNat 32 (400 + r % 201)

/-- The demand of a buyer when it comes. -/
def DEMAND : BitVec 32 := 10000#32

/-- A step of the buyer `b`; `none` when its thread has ended.  Each access to a room, a mutex or
    the demand is a step of its own, and `rand` is what the next `rand()` returns. -/
def buyerStep (b : Fin n) (rand : Nat) : Option (State n) :=
  match s.buyer b with
  | .loop =>
    if 0 < (s.demand b).toInt then
      let room : Room := Fin.ofNat NUM_OF_ROOMS rand
      if s.rooms room ≠ 0#32 then some (s.goto b (.trylock room (s.rooms room))) else some s
    else some (s.goto b .done)
  | .trylock room seen =>
    match s.mutex room with
    | none =>
      some { s.goto b (.read room seen) with
        mutex := Function.update s.mutex room (some (.buyer b)) }
    | some _ => some (s.goto b .loop)
  | .read room seen => some (s.goto b (.update room seen (s.rooms room)))
  | .update room _ tmp =>
    some { s.goto b (.clear room) with
      demand := Function.update s.demand b (s.demand b - tmp)
      goods := Function.update s.goods b (s.goods b + tmp.toNat) }
  | .clear room => some { s.goto b (.unlock room) with rooms := Function.update s.rooms room 0#32 }
  | .unlock room => some { s.goto b .loop with mutex := Function.update s.mutex room none }
  | .done => none

/-- A step of the loader; `none` when `pthread_mutex_lock` blocks.  After the last room comes the
    first one again. -/
def loaderStep (rand : Nat) : Option (State n) :=
  match s.loader with
  | .check i =>
    if s.rooms i = 0#32 then some { s with loader := .trylock i }
    else some { s with loader := .check (i + 1) }
  | .trylock i =>
    match s.mutex i with
    | none =>
      some { s with
        loader := .write i
        mutex := Function.update s.mutex i (some .loader) }
    | some _ => some { s with loader := .check (i + 1) }
  | .write i =>
    some { s with
      loader := .unlock i
      rooms := Function.update s.rooms i (refill rand)
      loaded := s.loaded + (refill rand).toNat }
  | .unlock i => some { s with loader := .lock i 0, mutex := Function.update s.mutex i none }
  -- `storage_control`
  | .lock i k =>
    if k < n + 1 then
      match s.mutex k with
      | none =>
        some { s with
          loader := .lock i (k + 1)
          mutex := Function.update s.mutex k (some .loader) }
      | some _ => none
    else some { s with loader := .print i 0, printed := [] }
  | .print i k =>
    if h : k < NUM_OF_ROOMS then
      some { s with loader := .print i (k + 1), printed := s.printed ++ [s.rooms ⟨k, h⟩] }
    else some { s with loader := .release i 0 }
  | .release i k =>
    if k < n + 1 then
      some { s with loader := .release i (k + 1), mutex := Function.update s.mutex k none }
    else some { s with loader := .check (i + 1) }

/-- The storage after it is filled, with all threads created. -/
def start (n : Nat) (rand : Room → Nat) : State n where
  rooms i := filling (rand i)
  mutex _ := none
  buyer _ := .loop
  demand _ := DEMAND
  loader := .check 0
  printed := []
  loaded := 0
  goods _ := 0

end State

/-- A step: the thread that takes it, and what `rand` returns to it. -/
structure Label (n : Nat) where
  thread : Thread n
  rand : Nat

/-- A step of a thread. -/
def State.next {n : Nat} (s : State n) (l : Label n) : Option (State n) :=
  match l.thread with
  | .loader => s.loaderStep l.rand
  | .buyer b => s.buyerStep b l.rand

/-- The program with `n` buyers, in a storage filled with `rand`. -/
def storage (n : Nat) (rand : Room → Nat) : TransitionSystem (State n) (Label n) :=
  .ofStep (· = State.start n rand) State.next

end EltexHomeworks.Storage
