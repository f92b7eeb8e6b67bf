import Mathlib.Logic.Function.Basic
import EltexHomeworks.Lib.Transition

namespace EltexHomeworks.ServerQueue.Launches

open EltexHomeworks.Lib

/-!
# Request queue — launches of the server

A System V queue outlives the process that made it.  `main` of `server.c` creates the one under
`ftok("server.c", 'A')` with `IPC_EXCL`, and removes it only behind the label `terminating`, where
it comes after a SIGINT.  `System` is any number of launches and that queue; what the calls of a
launch give, and when it gets a signal, is left open.

* `one_server` — at most one launch serves, and while it does the queue exists;
* `can_restart_iff` — when the server can still be started;
* `stops_after_sigint` — what a launch does after a SIGINT.
-/

/-- The sockets that `triggered` can name. -/
inductive Listener
  | tcp
  | udp
  | other
deriving DecidableEq, Repr

/-- The calls between `GenerationServiceThreads` and the loop. -/
inductive Setup
  | socketTcp
  | bindTcp
  | listen
  | socketUdp
  | bindUdp
  | epollCreate
  | epollCtlTcp
  | epollCtlUdp
deriving DecidableEq, Repr

/-- The descriptors that are closed at the end. -/
inductive Descriptor
  | epfd
  | listenSocketUdp
  | listenSocketTcp
deriving DecidableEq, Repr

/-- Where `main` is: before a call, or before `if (terminating)`.  `attrInit` and `create` are calls
    of `GenerationServiceThreads`. -/
inductive Pc
  | sigaction
  | msgget
  | attrInit
  | create (i : Nat)
  | setup (call : Setup)
  | epollWait
  | terminating
  | accept
  | recv
  | recvfrom
  | msgsnd
  | msgctl
  | close (fd : Descriptor)
  | EXIT_SUCCESS
  | EXIT_FAILURE
  | killed
deriving DecidableEq, Repr

/-- Behind the call; only the first `epoll_ctl` is not checked. -/
def Setup.after (call : Setup) (ok : Bool) : Pc :=
  match call with
  | .socketTcp => if ok then .setup .bindTcp else .EXIT_FAILURE
  | .bindTcp => if ok then .setup .listen else .EXIT_FAILURE
  | .listen => if ok then .setup .socketUdp else .EXIT_FAILURE
  | .socketUdp => if ok then .setup .bindUdp else .EXIT_FAILURE
  | .bindUdp => if ok then .setup .epollCreate else .EXIT_FAILURE
  | .epollCreate => if ok then .setup .epollCtlTcp else .EXIT_FAILURE
  | .epollCtlTcp => .setup .epollCtlUdp
  | .epollCtlUdp => if ok then .epollWait else .EXIT_FAILURE

/-- Behind the `close` of a descriptor, which is not checked. -/
def Descriptor.after : Descriptor → Pc
  | .epfd => .close .listenSocketUdp
  | .listenSocketUdp => .close .listenSocketTcp
  | .listenSocketTcp => .EXIT_SUCCESS

/-- One launch of the server. -/
structure Launch where
  pc : Pc
  /-- `TerminationHandler` is installed. -/
  handler : Bool
  terminating : Bool
  triggered : Listener
  /-- How many requests it has put in the queue. -/
  sent : Nat
deriving DecidableEq, Repr

namespace Launch

/-- The launch goes on at `pc`. -/
def goto (l : Launch) (pc : Pc) : Launch := { l with pc := pc }

/-- A step of `main`: the call it is before succeeds or not, and `ev` is what `epoll_wait`
    reports. -/
def main (l : Launch) (ok : Bool) (ev : Listener) : Option Launch :=
  match l.pc with
  | .sigaction => some { l with pc := .msgget, handler := ok }
  | .msgget => some (l.goto (if ok then .attrInit else .EXIT_FAILURE))
  -- a pool that could not be made is not told apart from one that was: both results are not -1
  | .attrInit => some (l.goto (if ok then .create 0 else .setup .socketTcp))
  | .create i =>
    if i < 2 then some (l.goto (if ok then .create (i + 1) else .create i))
    else some (l.goto (.setup .socketTcp))
  | .setup call => some (l.goto (call.after ok))
  | .epollWait => some { l with pc := .terminating, triggered := if ok then ev else l.triggered }
  | .terminating =>
    if l.terminating then some (l.goto .msgctl)
    else
      match l.triggered with
      | .tcp => some (l.goto .accept)
      | .udp => some (l.goto .recvfrom)
      | .other => some (l.goto .epollWait)
  | .accept => some (l.goto (if ok then .recv else .EXIT_FAILURE))
  | .recv => some (l.goto .msgsnd)
  | .recvfrom => some (l.goto (if ok then .msgsnd else .EXIT_FAILURE))
  | .msgsnd =>
    if ok then some { l with pc := .epollWait, sent := l.sent + 1 }
    else some (l.goto .EXIT_FAILURE)
  | .msgctl => some (l.goto (if ok then .close .epfd else .EXIT_FAILURE))
  | .close fd => some (l.goto fd.after)
  | .EXIT_SUCCESS => none
  | .EXIT_FAILURE => none
  | .killed => none

end Launch

/-- The process is gone. -/
def Pc.ended : Pc → Bool
  | .EXIT_SUCCESS => true
  | .EXIT_FAILURE => true
  | .killed => true
  | _ => false

/-- The launch has made the queue and not yet removed it. -/
def Pc.serving : Pc → Bool
  | .sigaction => false
  | .msgget => false
  | .close _ => false
  | pc => !pc.ended

/-- The launches, and which of them made the queue that exists. -/
structure System (ι : Type*) where
  queue : Option ι
  launch : ι → Launch

/-- A step: a call of `main`, a SIGINT, or a signal that has no handler. -/
inductive Label (ι : Type*)
  | main (p : ι) (ok : Bool) (ev : Listener)
  | sigint (p : ι)
  | kill (p : ι)

namespace System

variable {ι : Type*} [DecidableEq ι]

/-- The launch `p` becomes `l`. -/
def put (s : System ι) (p : ι) (l : Launch) : System ι :=
  { s with launch := Function.update s.launch p l }

/-- Whether the queue lets the call of `p` succeed: `IPC_EXCL` wants none, and `msgsnd` and `msgctl`
    the one that `p` has the id of. -/
def permits (s : System ι) (p : ι) : Bool :=
  match (s.launch p).pc with
  | .msgget => s.queue = none
  | .msgsnd => s.queue = some p
  | .msgctl => s.queue = some p
  | _ => true

/-- The queue behind a call of `p`. -/
def queueAfter (s : System ι) (p : ι) (ok : Bool) : Option ι :=
  match (s.launch p).pc with
  | .msgget => if ok then some p else s.queue
  | .msgctl => if ok then none else s.queue
  | _ => s.queue

/-- The next state; `none` for a launch that has ended. -/
def next (s : System ι) : Label ι → Option (System ι)
  | .main p ok ev =>
    ((s.launch p).main (ok && s.permits p) ev).map fun l =>
      { s.put p l with queue := s.queueAfter p (ok && s.permits p) }
  | .sigint p =>
    if (s.launch p).pc.ended then none
    else if (s.launch p).handler then some (s.put p { s.launch p with terminating := true })
    else some (s.put p ((s.launch p).goto .killed))
  | .kill p => if (s.launch p).pc.ended then none else some (s.put p ((s.launch p).goto .killed))

/-- No launch has begun, and there is no queue. -/
structure Starts (s : System ι) : Prop where
  queue : s.queue = none
  pc : ∀ p, (s.launch p).pc = .sigaction
  handler : ∀ p, (s.launch p).handler = false
  terminating : ∀ p, (s.launch p).terminating = false
  sent : ∀ p, (s.launch p).sent = 0

end System

/-- The launches of the server. -/
def servers (ι : Type*) [DecidableEq ι] : TransitionSystem (System ι) (Label ι) :=
  .ofStep System.Starts System.next

variable {l l' : Launch}

/-! ### One launch -/

/-- How many calls of `main` may lie ahead of a launch that is terminating, when `pthread_create`
    does not fail.  The test of the flag is none of them. -/
def Pc.left : Pc → Nat
  | .sigaction => 19
  | .msgget => 18
  | .attrInit => 17
  | .create i => 14 + (2 - i)
  | .setup .socketTcp => 13
  | .setup .bindTcp => 12
  | .setup .listen => 11
  | .setup .socketUdp => 10
  | .setup .bindUdp => 9
  | .setup .epollCreate => 8
  | .setup .epollCtlTcp => 7
  | .setup .epollCtlUdp => 6
  | .accept => 8
  | .recv => 7
  | .recvfrom => 7
  | .msgsnd => 6
  | .epollWait => 5
  | .terminating => 4
  | .msgctl => 4
  | .close .epfd => 3
  | .close .listenSocketUdp => 2
  | .close .listenSocketTcp => 1
  | .EXIT_SUCCESS => 0
  | .EXIT_FAILURE => 0
  | .killed => 0

/-- How many requests the launch is about to put in the queue. -/
def Pc.pending : Pc → Nat
  | .accept => 1
  | .recv => 1
  | .recvfrom => 1
  | .msgsnd => 1
  | _ => 0

/-- The launch goes from `pc` to `pc'` while it serves, and nothing is decided on the way. -/
structure Pc.Ahead (pc pc' : Pc) : Prop where
  serving : pc.serving
  ctl : pc ≠ .msgctl
  serving' : pc'.serving
  ctl' : pc' ≠ .msgctl
  left : pc'.left < pc.left
  pending : pc'.pending = pc.pending

instance (pc pc' : Pc) : Decidable (pc.Ahead pc') :=
  decidable_of_iff (pc.serving ∧ pc ≠ .msgctl ∧ pc'.serving ∧ pc' ≠ .msgctl ∧ pc'.left < pc.left ∧
      pc'.pending = pc.pending)
    ⟨fun ⟨h₁, h₂, h₃, h₄, h₅, h₆⟩ => ⟨h₁, h₂, h₃, h₄, h₅, h₆⟩,
      fun ⟨h₁, h₂, h₃, h₄, h₅, h₆⟩ => ⟨h₁, h₂, h₃, h₄, h₅, h₆⟩⟩

theorem Pc.Ahead.create {i : Nat} {pc : Pc} (hserving : pc.serving) (hctl : pc ≠ .msgctl)
    (hleft : pc.left < 14 + (2 - i)) (hpending : pc.pending = 0) : (Pc.create i).Ahead pc :=
  ⟨rfl, Pc.noConfusion, hserving, hctl, hleft, hpending⟩

/-- What a call of `main` does to its own launch; `ok` says whether it succeeds.  A failing call
    ends the launch, is made again or is passed over, as the source has it. -/
inductive Moves (l : Launch) (ok : Bool) : Launch → Prop
  | sigaction (hpc : l.pc = .sigaction) : Moves l ok { l with pc := .msgget, handler := ok }
  | created (hpc : l.pc = .msgget) (hok : ok = true) : Moves l ok (l.goto .attrInit)
  | failed (hpc : l.pc = .msgget ∨ l.pc.serving) (hok : ok = false) :
      Moves l ok (l.goto .EXIT_FAILURE)
  | again (i : Nat) (hpc : l.pc = .create i) (hok : ok = false) : Moves l ok (l.goto (.create i))
  | ahead (pc : Pc) (triggered : Listener) (h : l.pc.Ahead pc) :
      Moves l ok { l with pc := pc, triggered := triggered }
  | dispatch (pc : Pc) (hpc : l.pc = .terminating) (hterm : l.terminating = false)
      (hpc' : pc = .accept ∨ pc = .recvfrom ∨ pc = .epollWait) : Moves l ok (l.goto pc)
  | sent (hpc : l.pc = .msgsnd) (hok : ok = true) :
      Moves l ok { l with pc := .epollWait, sent := l.sent + 1 }
  | leave (hpc : l.pc = .terminating) (hterm : l.terminating = true) : Moves l ok (l.goto .msgctl)
  | removed (hpc : l.pc = .msgctl) (hok : ok = true) : Moves l ok (l.goto (.close .epfd))
  | closed (fd : Descriptor) (hpc : l.pc = .close fd) : Moves l ok (l.goto fd.after)

/-- A call of the set-up goes ahead or ends the launch. -/
theorem Setup.moves {call : Setup} {ok : Bool} (hpc : l.pc = .setup call) :
    Moves l ok (l.goto (call.after ok)) := by
  cases ok with
  | true => cases call <;> exact .ahead _ _ (hpc ▸ by decide)
  | false =>
    cases call with
    | epollCtlTcp => exact .ahead _ _ (hpc ▸ by decide)
    | _ => exact .failed (.inr (hpc ▸ rfl)) rfl

/-- A call is one of these. -/
theorem main_cases {ok : Bool} {ev : Listener} (h : l.main ok ev = some l') : Moves l ok l' := by
  unfold Launch.main at h
  cases hpc : l.pc with
  | sigaction =>
    rw [hpc] at h
    cases h
    exact .sigaction hpc
  | msgget =>
    rw [hpc] at h
    cases ok <;> cases h
    · exact .failed (.inl hpc) rfl
    · exact .created hpc rfl
  | attrInit =>
    -- whether `pthread_attr_init` succeeds makes no difference to what comes next
    rw [hpc] at h
    cases ok <;> cases h
    · exact .ahead _ _ (hpc ▸ by decide)
    · exact .ahead _ _ (hpc ▸ by decide)
  | create i =>
    rw [hpc] at h
    dsimp only at h
    split at h
    · -- a `pthread_create` that fails is tried again
      rename_i hi
      cases ok <;> cases h
      · exact .again i hpc rfl
      · have hleft : (Pc.create (i + 1)).left < 14 + (2 - i) := by simp only [Pc.left]; omega
        exact .ahead (.create (i + 1)) _ (hpc ▸ .create rfl Pc.noConfusion hleft rfl)
    · have hleft : (Pc.setup .socketTcp).left < 14 + (2 - i) := by simp only [Pc.left]; omega
      cases h
      exact .ahead _ _ (hpc ▸ .create rfl Pc.noConfusion hleft rfl)
  | setup call =>
    rw [hpc] at h
    cases h
    exact Setup.moves hpc
  | epollWait =>
    rw [hpc] at h
    cases h
    exact .ahead _ _ (hpc ▸ by decide)
  | terminating =>
    -- the flag is read here only, and `triggered` only behind it
    rw [hpc] at h
    dsimp only at h
    cases hterm : l.terminating with
    | true =>
      rw [hterm] at h
      cases h
      exact .leave hpc hterm
    | false =>
      rw [hterm] at h
      -- what was triggered last decides, even if it was long ago
      cases htrig : l.triggered <;> rw [htrig] at h <;> cases h
      · exact .dispatch _ hpc hterm (.inl rfl)
      · exact .dispatch _ hpc hterm (.inr (.inl rfl))
      · exact .dispatch _ hpc hterm (.inr (.inr rfl))
  | accept | recvfrom =>
    rw [hpc] at h
    cases ok <;> cases h
    · exact .failed (.inr (hpc ▸ rfl)) rfl
    · exact .ahead _ _ (hpc ▸ by decide)
  | recv =>
    rw [hpc] at h
    cases h
    exact .ahead _ _ (hpc ▸ by decide)
  | msgsnd =>
    rw [hpc] at h
    cases ok <;> cases h
    · exact .failed (.inr (hpc ▸ rfl)) rfl
    · exact .sent hpc rfl
  | msgctl =>
    rw [hpc] at h
    cases ok <;> cases h
    · exact .failed (.inr (hpc ▸ rfl)) rfl
    · exact .removed hpc rfl
  | close fd =>
    rw [hpc] at h
    cases h
    exact .closed fd hpc
  | EXIT_SUCCESS | EXIT_FAILURE | killed => rw [hpc] at h; cases h

/-- A flag that only the handler sets, and that `main` reads before it removes the queue. -/
structure Launch.Ok (l : Launch) : Prop where
  handler : l.terminating → l.handler
  sigaction : l.handler → l.pc ≠ .sigaction
  msgctl : l.pc = .msgctl → l.terminating

/-- What the launch made is there until it removes it, or is left behind. -/
def Pc.owns (pc : Pc) : Bool := pc.serving || (pc == .EXIT_FAILURE || pc == .killed)

theorem Pc.ended_of_serving {pc : Pc} (h : pc.serving) : pc.ended = false := by
  cases pc with
  | EXIT_SUCCESS | EXIT_FAILURE | killed => cases h
  | _ => rfl

theorem Pc.serving_of_owns {pc : Pc} (h : pc.owns) (hlive : pc.ended = false) : pc.serving := by
  cases pc with
  | EXIT_FAILURE | killed => cases hlive
  | sigaction | msgget | close | EXIT_SUCCESS => cases h
  | _ => rfl

/-- **A call of `main`** keeps this. -/
theorem Launch.Ok.main {ok : Bool} (h : l.Ok) (hm : Moves l ok l') : l'.Ok := by
  cases hm with
  | sigaction hpc =>
    refine ⟨fun hterm => ?_, fun _ => Pc.noConfusion, nofun⟩
    exact absurd hpc (h.sigaction (h.handler hterm))
  | leave hpc hterm => exact ⟨h.handler, fun _ => Pc.noConfusion, fun _ => hterm⟩
  | ahead pc triggered hahead =>
    refine ⟨h.handler, fun _ hsig => ?_, fun hctl => absurd hctl hahead.ctl'⟩
    have hserving := hahead.serving'
    rw [show pc = .sigaction from hsig] at hserving
    cases hserving
  | dispatch pc hpc hterm hpc' =>
    rcases hpc' with rfl | rfl | rfl <;> exact ⟨h.handler, fun _ => Pc.noConfusion, nofun⟩
  | closed fd hpc => cases fd <;> exact ⟨h.handler, fun _ => Pc.noConfusion, nofun⟩
  | _ => exact ⟨h.handler, fun _ => Pc.noConfusion, nofun⟩

/-- Only `msgget` gets the queue. -/
theorem Moves.serving {ok : Bool} (hm : Moves l ok l') (hpc : ¬ (l.pc = .msgget ∧ ok = true))
    (h : l'.pc.serving) : l.pc.serving := by
  cases hm with
  | sigaction _ | failed _ _ | removed _ _ => cases h
  | closed fd _ => cases fd <;> cases h
  | created hget hok => exact absurd ⟨hget, hok⟩ hpc
  | again i hcreate _ => rw [hcreate]; rfl
  | ahead pc triggered hahead => exact hahead.serving
  | dispatch pc hterm _ _ | leave hterm _ => rw [hterm]; rfl
  | sent hsnd _ => rw [hsnd]; rfl

/-- Only `msgctl` gives it up. -/
theorem Moves.owns {ok : Bool} (hm : Moves l ok l') (hpc : ¬ (l.pc = .msgctl ∧ ok = true))
    (h : l.pc.owns) : l'.pc.owns := by
  cases hm with
  | sigaction hsig => rw [hsig] at h; cases h
  | created hget _ => rfl
  | failed _ _ | again _ _ _ | sent _ _ | leave _ _ => rfl
  | ahead pc triggered hahead => rw [Pc.owns, hahead.serving']; rfl
  | dispatch pc _ _ hpc' => rcases hpc' with rfl | rfl | rfl <;> rfl
  | removed hctl hok => exact absurd ⟨hctl, hok⟩ hpc
  | closed fd hclose => rw [hclose] at h; cases h

theorem Moves.not_ended {ok : Bool} (hm : Moves l ok l') : l.pc.ended = false := by
  cases hm with
  | sigaction hpc | created hpc _ | again _ hpc _ | dispatch _ hpc _ _ => rw [hpc]; rfl
  | sent hpc _ | leave hpc _ | removed hpc _ | closed _ hpc => rw [hpc]; rfl
  | ahead pc triggered h => exact Pc.ended_of_serving h.serving
  | failed hpc _ =>
    rcases hpc with hpc | hpc
    · rw [hpc]; rfl
    · exact Pc.ended_of_serving hpc

/-- `main` does not touch the flag. -/
theorem Moves.terminating {ok : Bool} (hm : Moves l ok l') : l'.terminating = l.terminating := by
  cases hm <;> rfl

theorem Moves.handler {ok : Bool} (hm : Moves l ok l') (hpc : l.pc ≠ .sigaction) :
    l'.handler = l.handler := by
  cases hm with
  | sigaction hsig => exact absurd hsig hpc
  | _ => rfl

theorem Pc.left_pos {pc : Pc} (h : pc.serving) : 0 < pc.left := by
  cases pc with
  | create i => exact Nat.lt_of_lt_of_le (by decide) (Nat.le_add_right 14 (2 - i))
  | setup call => cases call <;> decide
  | sigaction | msgget | close | EXIT_SUCCESS | EXIT_FAILURE | killed => cases h
  | _ => decide

/-- **A launch that is terminating** comes closer to its end with every call, unless
    `pthread_create` fails; only the test of the flag takes it no call further. -/
theorem Moves.left_le {ok : Bool} (hm : Moves l ok l') (hterm : l.terminating)
    (hcreate : ok = true ∨ ∀ i, l.pc ≠ .create i) :
    l'.pc.left + (if l.pc = .terminating then 0 else 1) ≤ l.pc.left := by
  have hone : (if l.pc = .terminating then 0 else 1) ≤ 1 := by split <;> decide
  cases hm with
  | failed hpc _ =>
    rcases hpc with hpc | hpc
    · rw [hpc]
      exact of_decide_eq_true rfl
    · have hpos := Pc.left_pos hpc
      show 0 + _ ≤ _
      omega
  | again i hpc hok =>
    rcases hcreate with hok' | hcreate
    · rw [hok] at hok'; cases hok'
    · exact absurd hpc (hcreate i)
  | ahead pc triggered h => exact Nat.le_trans (Nat.add_le_add_left hone _) h.left
  | dispatch pc _ hno _ => rw [hno] at hterm; cases hterm
  | closed fd hpc =>
    rw [hpc]
    cases fd <;> exact of_decide_eq_true rfl
  | sigaction hpc | created hpc _ | sent hpc _ | leave hpc _ | removed hpc _ =>
    rw [hpc]
    exact of_decide_eq_true rfl

/-- The test of the flag is not made twice in a row. -/
theorem Moves.ne_terminating {ok : Bool} (hm : Moves l ok l') (hpc : l.pc = .terminating) :
    l'.pc ≠ .terminating := by
  cases hm with
  | again i hcreate _ => rw [hpc] at hcreate; cases hcreate
  | ahead pc triggered h =>
    intro hpc'
    have hlt := h.left
    rw [show pc = .terminating from hpc', hpc] at hlt
    exact Nat.lt_irrefl _ hlt
  | dispatch pc _ _ hpc' => rcases hpc' with rfl | rfl | rfl <;> exact Pc.noConfusion
  | closed fd _ => cases fd <;> exact Pc.noConfusion
  | _ => exact Pc.noConfusion

/-- How far a launch that is terminating is from its end, in calls and tests of the flag. -/
def Pc.distance (pc : Pc) : Nat := 2 * pc.left + if pc = .terminating then 1 else 0

/-- Every step of it brings it closer. -/
theorem Moves.distance_lt {ok : Bool} (hm : Moves l ok l') (hterm : l.terminating)
    (hcreate : ok = true ∨ ∀ i, l.pc ≠ .create i) : l'.pc.distance < l.pc.distance := by
  have hleft := hm.left_le hterm hcreate
  unfold Pc.distance
  by_cases htest : l.pc = .terminating
  · rw [if_pos htest] at hleft ⊢
    rw [if_neg (hm.ne_terminating htest)]
    omega
  · rw [if_neg htest] at hleft ⊢
    split <;> omega

/-- It begins no further request. -/
theorem Moves.sent_le {ok : Bool} (hm : Moves l ok l') (hterm : l.terminating) :
    l'.sent + l'.pc.pending ≤ l.sent + l.pc.pending := by
  cases hm with
  | ahead pc triggered h => exact Nat.add_le_add_left (Nat.le_of_eq h.pending) _
  | dispatch pc _ hno _ => rw [hno] at hterm; cases hterm
  | sent hpc _ => rw [hpc]; exact Nat.le_refl _
  | closed fd _ => cases fd <;> exact Nat.add_le_add_left (Nat.zero_le _) _
  | _ => exact Nat.add_le_add_left (Nat.zero_le _) _

/-- With its calls succeeding, it serves until it removes the queue. -/
theorem Moves.serving_of_true (hm : Moves l true l') (h : l.pc.serving) (hctl : l.pc ≠ .msgctl) :
    l'.pc.serving := by
  cases hm with
  | failed _ hok | again _ _ hok => cases hok
  | ahead pc triggered h => exact h.serving'
  | dispatch pc _ _ hpc' => rcases hpc' with rfl | rfl | rfl <;> rfl
  | created _ _ | sent _ _ | leave _ _ => rfl
  | sigaction hpc => rw [hpc] at h; cases h
  | removed hpc _ => exact absurd hpc hctl
  | closed fd hpc => rw [hpc] at h; cases h

/-- `main` goes on as long as the launch has not ended. -/
theorem isSome_main (ok : Bool) (ev : Listener) (h : l.pc.ended = false) :
    (l.main ok ev).isSome := by
  unfold Launch.main
  cases hpc : l.pc with
  | create i => dsimp only; split <;> rfl
  | terminating =>
    dsimp only
    split
    · rfl
    · cases l.triggered <;> rfl
  | msgsnd => cases ok <;> rfl
  | EXIT_SUCCESS | EXIT_FAILURE | killed => rw [hpc] at h; cases h
  | _ => rfl

/-- The `msgget` that succeeds. -/
theorem Moves.of_msgget (hm : Moves l true l') (hpc : l.pc = .msgget) : l'.pc = .attrInit := by
  cases hm with
  | created _ _ => rfl
  | failed _ hok | again _ _ hok => cases hok
  | ahead pc triggered h =>
    have hserving := h.serving
    rw [hpc] at hserving
    cases hserving
  | sigaction h | dispatch _ h _ _ | sent h _ | leave h _ | removed h _ | closed _ h =>
    rw [hpc] at h
    cases h

/-- The `msgctl` that succeeds. -/
theorem Moves.of_msgctl (hm : Moves l true l') (hpc : l.pc = .msgctl) : l'.pc = .close .epfd := by
  cases hm with
  | removed _ _ => rfl
  | failed _ hok | again _ _ hok => cases hok
  | ahead pc triggered h => exact absurd hpc h.ctl
  | sigaction h | created h _ | dispatch _ h _ _ | sent h _ | leave h _ | closed _ h =>
    rw [hpc] at h
    cases h

/-! ### The launches together -/

variable {ι : Type*} {s t : System ι} {p q : ι}

/-- The queue is that of the launch that serves, or of one that left it behind. -/
structure Owned (s : System ι) : Prop where
  ok : ∀ p, (s.launch p).Ok
  queue : ∀ p, (s.launch p).pc.serving → s.queue = some p
  owns : ∀ p, s.queue = some p → (s.launch p).pc.owns

theorem Owned.start (h : s.Starts) : Owned s where
  ok p :=
    { handler := fun hterm => by rw [h.terminating p] at hterm; cases hterm
      sigaction := fun hhandler => by rw [h.handler p] at hhandler; cases hhandler
      msgctl := fun hctl => by rw [h.pc p] at hctl; cases hctl }
  queue p hserving := by
    rw [h.pc p] at hserving
    cases hserving
  owns p hq := by
    rw [h.queue] at hq
    cases hq

/-- No two launches serve. -/
theorem Owned.unique (h : Owned s) (hp : (s.launch p).pc.serving) (hq : (s.launch q).pc.serving) :
    p = q :=
  Option.some_inj.mp ((h.queue p hp).symm.trans (h.queue q hq))

/-- Another call than these two leaves the queue. -/
theorem queueAfter_eq {ok : Bool} (hget : ¬ ((s.launch p).pc = .msgget ∧ ok = true))
    (hctl : ¬ ((s.launch p).pc = .msgctl ∧ ok = true)) : s.queueAfter p ok = s.queue := by
  unfold System.queueAfter
  cases hpc : (s.launch p).pc with
  | msgget => exact if_neg fun hok => hget ⟨hpc, hok⟩
  | msgctl => exact if_neg fun hok => hctl ⟨hpc, hok⟩
  | _ => rfl

variable [DecidableEq ι]

theorem launch_put_self : (s.put p l).launch p = l := Function.update_self ..

theorem launch_put_of_ne (h : q ≠ p) : (s.put p l).launch q = s.launch q :=
  Function.update_of_ne h ..

/-- The step of a call, with what the queue lets it give. -/
theorem next_main {ok : Bool} {ev : Listener} (h : s.next (.main p ok ev) = some t) :
    ∃ l ok', Moves (s.launch p) ok' l ∧ (ok' = true → s.permits p) ∧
      t = { s.put p l with queue := s.queueAfter p ok' } := by
  obtain ⟨l, hl, rfl⟩ := Option.map_eq_some_iff.mp h
  exact ⟨l, _, main_cases hl, fun hok => (Bool.and_eq_true_iff.mp hok).2, rfl⟩

/-- A SIGINT or another signal leaves the queue. -/
theorem next_signal {l : Label ι} (h : s.next l = some t) (hl : l = .sigint p ∨ l = .kill p) :
    (s.launch p).pc.ended = false ∧
      (t = s.put p { s.launch p with terminating := true } ∧ (s.launch p).handler ∨
        t = s.put p ((s.launch p).goto .killed)) := by
  rcases hl with rfl | rfl
  · obtain ⟨hlive, h⟩ := Option.ite_none_left_eq_some.mp h
    refine ⟨Bool.eq_false_iff.mpr hlive, ?_⟩
    split at h
    · rename_i hhandler
      exact .inl ⟨(Option.some_inj.mp h).symm, hhandler⟩
    · exact .inr (Option.some_inj.mp h).symm
  · obtain ⟨hlive, h⟩ := Option.ite_none_left_eq_some.mp h
    exact ⟨Bool.eq_false_iff.mpr hlive, .inr (Option.some_inj.mp h).symm⟩

theorem Owned.put_ok (h : Owned s) (hok : l.Ok) : ∀ q, ((s.put p l).launch q).Ok := by
  intro q
  by_cases hq : q = p
  · rw [hq, launch_put_self]
    exact hok
  · rw [launch_put_of_ne hq]
    exact h.ok q

/-- A step of one launch that leaves the queue alone. -/
theorem Owned.put (h : Owned s) (hok : l.Ok) (hserving : l.pc.serving → (s.launch p).pc.serving)
    (howns : (s.launch p).pc.owns → l.pc.owns) : Owned (s.put p l) where
  ok := h.put_ok hok
  queue q hq' := by
    by_cases hq : q = p
    · subst hq
      rw [launch_put_self] at hq'
      exact h.queue q (hserving hq')
    · rw [launch_put_of_ne hq] at hq'
      exact h.queue q hq'
  owns q hq' := by
    by_cases hq : q = p
    · subst hq
      rw [launch_put_self]
      exact howns (h.owns q hq')
    · rw [launch_put_of_ne hq]
      exact h.owns q hq'

/-- The launch `p` makes the queue. -/
theorem Owned.take (h : Owned s) (hpc : (s.launch p).pc = .msgget) (hpermits : s.permits p)
    (hm : Moves (s.launch p) true l) : Owned { s.put p l with queue := s.queueAfter p true } := by
  have hnone : s.queue = none := by
    rw [System.permits, hpc] at hpermits
    exact of_decide_eq_true hpermits
  have hafter : s.queueAfter p true = some p := by rw [System.queueAfter, hpc]; rfl
  rw [hafter]
  refine ⟨(h.put_ok ((h.ok p).main hm)), fun q hq => ?_, fun q hq => ?_⟩
  · by_cases hqp : q = p
    · rw [hqp]
    · have hq' : (s.launch q).pc.serving := launch_put_of_ne (l := l) hqp ▸ hq
      have hqueue := h.queue q hq'
      rw [hnone] at hqueue
      cases hqueue
  · cases hq
    show ((s.put p l).launch p).pc.owns
    rw [launch_put_self, hm.of_msgget hpc]
    rfl

/-- It removes it. -/
theorem Owned.give (h : Owned s) (hpc : (s.launch p).pc = .msgctl)
    (hm : Moves (s.launch p) true l) : Owned { s.put p l with queue := s.queueAfter p true } := by
  have hafter : s.queueAfter p true = none := by rw [System.queueAfter, hpc]; rfl
  rw [hafter]
  refine ⟨(h.put_ok ((h.ok p).main hm)), fun q hq => ?_, fun q hq => by cases hq⟩
  by_cases hqp : q = p
  · subst hqp
    have hclose : ((s.put q l).launch q).pc.serving := hq
    rw [launch_put_self, hm.of_msgctl hpc] at hclose
    cases hclose
  · have hq' : (s.launch q).pc.serving := launch_put_of_ne (l := l) hqp ▸ hq
    exact absurd (h.unique hq' (by rw [hpc]; rfl)) hqp

/-- **Every step** keeps the queue with its launch: `IPC_EXCL` lets no other launch past `msgget`
    while there is a queue, and only the launch past it removes the queue. -/
theorem Owned.next {a : Label ι} (h : Owned s) (hst : s.next a = some t) : Owned t := by
  have hkilled : ∀ p, (s.launch p).pc.ended = false → Owned (s.put p ((s.launch p).goto .killed)) :=
    fun p hlive => h.put ⟨(h.ok p).handler, fun _ => Pc.noConfusion, nofun⟩ nofun fun _ => rfl
  cases a with
  | sigint p =>
    obtain ⟨hlive, ⟨rfl, hhandler⟩ | rfl⟩ := next_signal hst (.inl rfl)
    · exact h.put ⟨fun _ => hhandler, (h.ok p).sigaction, fun _ => rfl⟩ id id
    · exact hkilled p hlive
  | kill p =>
    obtain ⟨hlive, ⟨rfl, hhandler⟩ | rfl⟩ := next_signal hst (.inr rfl)
    · exact h.put ⟨fun _ => hhandler, (h.ok p).sigaction, fun _ => rfl⟩ id id
    · exact hkilled p hlive
  | main p ok ev =>
    obtain ⟨l, ok, hm, hpermits, rfl⟩ := next_main hst
    by_cases hget : (s.launch p).pc = .msgget ∧ ok = true
    · obtain ⟨hpc, rfl⟩ := hget
      exact h.take hpc (hpermits rfl) hm
    · by_cases hctl : (s.launch p).pc = .msgctl ∧ ok = true
      · obtain ⟨hpc, rfl⟩ := hctl
        exact h.give hpc hm
      · rw [queueAfter_eq hget hctl]
        exact h.put ((h.ok p).main hm) (hm.serving hget) (hm.owns hctl)

theorem owned_of_reachable (hs : (servers ι).Reachable s) : Owned s :=
  TransitionSystem.Invariant.of_reachable
    (M := servers ι) ⟨fun _ h => .start h, fun _ _ _ h hst => h.next hst⟩ hs

/-- **One server.**  In every reachable state at most one launch is between its `msgget` and its
    `msgctl`, the queue is its own as long as it is, and the queue of a launch that has ended with
    `EXIT_SUCCESS` is removed. -/
theorem one_server (hs : (servers ι).Reachable s) :
    (∀ p q, (s.launch p).pc.serving → (s.launch q).pc.serving → p = q) ∧
      (∀ p, (s.launch p).pc.serving → s.queue = some p) ∧
      ∀ p, s.queue = some p → (s.launch p).pc ≠ .EXIT_SUCCESS := by
  have h := owned_of_reachable hs
  refine ⟨fun p q => h.unique, h.queue, fun p hp hexit => ?_⟩
  have howns := h.owns p hp
  rw [hexit] at howns
  cases howns

/-- The first launch serves and the second comes to its `msgget`. -/
def secondLaunch : List (Label Bool) :=
  [.main false true .other, .main false true .other, .main true true .other]

theorem one_server_second : ∃ s : System Bool, (s.launch false).pc = .attrInit ∧
    (s.launch true).pc = .msgget ∧ s.queue = some false := by
  let s₀ : System Bool := ⟨none, fun _ => ⟨.sigaction, false, false, .other, 0⟩⟩
  have h₀ : s₀.Starts := ⟨rfl, fun _ => rfl, fun _ => rfl, fun _ => rfl, fun _ => rfl⟩
  have hrun : (run System.next s₀ secondLaunch).any (fun s =>
    (s.launch false).pc == .attrInit && (s.launch true).pc == .msgget) = true := by decide
  obtain ⟨s, hrun, hs⟩ := (Option.any_eq_true _ _).mp hrun
  obtain ⟨hfirst, hsecond⟩ := Bool.and_eq_true_iff.mp hs
  have hpc := beq_iff_eq.mp hfirst
  have hreach : (servers Bool).Reachable s := TransitionSystem.Reachable.run (.init h₀) hrun
  exact ⟨s, hpc, beq_iff_eq.mp hsecond, (one_server hreach).2.1 false (by rw [hpc]; rfl)⟩

/-! ### Starting the server again -/

/-- The launch `p` will not remove its queue any more. -/
structure Stale (p : ι) (s : System ι) : Prop where
  owned : Owned s
  queue : s.queue = some p
  stale : (s.launch p).pc.ended ∨ (s.launch p).handler = false

/-- **Every step** leaves such a queue: its launch has ended, or has no handler and will be killed,
    and no other launch comes to the `msgctl` that removes one. -/
theorem Stale.next {a : Label ι} (h : Stale p s) (hst : s.next a = some t) : Stale p t := by
  have howned := h.owned.next hst
  -- a signal, to `p` or to another launch
  have hsignal : ∀ q, a = .sigint q ∨ a = .kill q → Stale p t := by
    intro q ha
    obtain ⟨hlive, hcases⟩ := next_signal hst ha
    by_cases hqp : q = p
    · subst hqp
      obtain hended | hhandler := h.stale
      · rw [hlive] at hended
        cases hended
      · rcases hcases with ⟨-, hhandler'⟩ | rfl
        · rw [hhandler] at hhandler'
          cases hhandler'
        · exact ⟨howned, h.queue, .inl (by rw [launch_put_self]; rfl)⟩
    · rcases hcases with ⟨rfl, -⟩ | rfl
      · exact ⟨howned, h.queue, by rw [launch_put_of_ne (Ne.symm hqp)]; exact h.stale⟩
      · exact ⟨howned, h.queue, by rw [launch_put_of_ne (Ne.symm hqp)]; exact h.stale⟩
  cases a with
  | sigint q => exact hsignal q (.inl rfl)
  | kill q => exact hsignal q (.inr rfl)
  | main q ok ev =>
    obtain ⟨l, ok, hm, hpermits, rfl⟩ := next_main hst
    by_cases hqp : q = p
    · subst hqp
      obtain hended | hhandler := h.stale
      · rw [hm.not_ended] at hended
        cases hended
      · -- without its handler it does not come to `msgctl`
        have hserving := Pc.serving_of_owns (h.owned.owns q h.queue) hm.not_ended
        have hget : (s.launch q).pc ≠ .msgget := fun hpc => by rw [hpc] at hserving; cases hserving
        have hsig : (s.launch q).pc ≠ .sigaction := fun hpc => by
          rw [hpc] at hserving
          cases hserving
        have hctl : (s.launch q).pc ≠ .msgctl := fun hpc => by
          have hset := (h.owned.ok q).handler ((h.owned.ok q).msgctl hpc)
          rw [hhandler] at hset
          cases hset
        refine ⟨howned, ?_, .inr ?_⟩
        · exact (queueAfter_eq (fun hg => hget hg.1) fun hc => hctl hc.1).trans h.queue
        · show ((s.put q l).launch q).handler = false
          rw [launch_put_self, hm.handler hsig, hhandler]
    · refine ⟨howned, ?_, ?_⟩
      · refine (queueAfter_eq (fun hg => ?_) fun hc => ?_).trans h.queue
        · have hnone := hpermits hg.2
          rw [System.permits, hg.1, h.queue] at hnone
          cases of_decide_eq_true hnone
        · have hq := h.owned.queue q (by rw [hc.1]; rfl)
          rw [h.queue] at hq
          exact hqp (Option.some_inj.mp hq).symm
      · show ((s.put q l).launch p).pc.ended ∨ ((s.put q l).launch p).handler = false
        rw [launch_put_of_ne (Ne.symm hqp)]
        exact h.stale

/-- The launch `p` is on its way to remove its queue, and `q` has not made one. -/
structure Leaving (p q : ι) (s : System ι) : Prop where
  owned : Owned s
  queue : s.queue = some p
  serving : (s.launch p).pc.serving
  terminating : (s.launch p).terminating
  msgget : (s.launch q).pc = .msgget

/-- **A step towards the end** of a launch that is terminating. -/
theorem Leaving.next (h : Leaving p q s) :
    ∃ t, s.next (.main p true .other) = some t ∧
      (Leaving p q t ∨ t.queue = none ∧ (t.launch q).pc = .msgget) ∧
      (t.launch p).pc.distance < (s.launch p).pc.distance := by
  obtain ⟨owned, hqueue, hserving, hterm, hget⟩ := h
  have hqp : q ≠ p := fun hqp => by rw [← hqp, hget] at hserving; cases hserving
  have hnget : (s.launch p).pc ≠ .msgget := fun hpc => by rw [hpc] at hserving; cases hserving
  -- the queue is its own, so its calls succeed
  have hpermits : s.permits p = true := by
    unfold System.permits
    cases hpc : (s.launch p).pc with
    | msgget => exact absurd hpc hnget
    | msgsnd | msgctl => exact decide_eq_true hqueue
    | _ => rfl
  obtain ⟨l, hl⟩ := Option.isSome_iff_exists.mp
    (isSome_main true .other (Pc.ended_of_serving hserving))
  have hm := main_cases hl
  have hst : s.next (.main p true .other) =
      some { s.put p l with queue := s.queueAfter p true } := by
    rw [System.next, hpermits, Bool.and_self, hl]
    rfl
  have hself : (s.put p l).launch p = l := launch_put_self
  have hother : ((s.put p l).launch q).pc = .msgget := by rw [launch_put_of_ne hqp, hget]
  refine ⟨_, hst, ?_, ?_⟩
  · -- `msgctl` removes the queue, and any other call leaves it
    by_cases hctl : (s.launch p).pc = .msgctl
    · exact .inr ⟨by rw [System.queueAfter, hctl]; rfl, hother⟩
    · refine .inl ⟨owned.next hst, ?_, ?_, ?_, hother⟩
      · exact (queueAfter_eq (fun hg => hnget hg.1) fun hc => hctl hc.1).trans hqueue
      · show ((s.put p l).launch p).pc.serving
        rw [hself]
        exact hm.serving_of_true hserving hctl
      · show ((s.put p l).launch p).terminating
        rw [hself, hm.terminating]
        exact hterm
  · show ((s.put p l).launch p).pc.distance < _
    rw [hself]
    exact hm.distance_lt hterm (.inl rfl)

/-- The queue of a launch that still runs and has its handler can be removed. -/
theorem leads_none (h : Owned s) (hqueue : s.queue = some p) (hlive : (s.launch p).pc.ended = false)
    (hhandler : (s.launch p).handler) (hq : (s.launch q).pc = .msgget) :
    ∃ t, Leads System.next s t ∧ t.queue = none ∧ (t.launch q).pc = .msgget := by
  have hserving := Pc.serving_of_owns (h.owns p hqueue) hlive
  have hqp : q ≠ p := fun hqp => by rw [← hqp, hq] at hserving; cases hserving
  -- a SIGINT, and then its own calls
  have hsig : s.next (.sigint p) = some (s.put p { s.launch p with terminating := true }) := by
    rw [System.next, if_neg (by rw [hlive]; exact Bool.false_ne_true), if_pos hhandler]
  have hleaving : Leaving p q (s.put p { s.launch p with terminating := true }) := by
    refine ⟨h.next hsig, hqueue, ?_, ?_, ?_⟩
    · rw [launch_put_self]
      exact hserving
    · rw [launch_put_self]
    · rw [launch_put_of_ne hqp, hq]
  have hstep : ∀ t : System ι, Leaving p q t ∨ t.queue = none ∧ (t.launch q).pc = .msgget →
      ¬ (t.queue = none ∧ (t.launch q).pc = .msgget) →
      ∃ u, Leads System.next t u ∧ (Leaving p q u ∨ u.queue = none ∧ (u.launch q).pc = .msgget) ∧
        (u.launch p).pc.distance < (t.launch p).pc.distance := by
    intro t ht hG
    obtain ⟨u, hu, hI, hlt⟩ := (ht.resolve_right hG).next
    exact ⟨u, .of_next hu, hI, hlt⟩
  obtain ⟨t, ht, -, hnone⟩ := leads_of_measure (fun t : System ι => (t.launch p).pc.distance) hstep
    (.inl hleaving)
  exact ⟨t, (Leads.of_next hsig).trans ht, hnone⟩

/-- Without a queue, `msgget` makes one. -/
theorem leads_some (hnone : s.queue = none) (hq : (s.launch q).pc = .msgget) :
    ∃ t, Leads System.next s t ∧ t.queue = some q := by
  have hpermits : s.permits q = true := by
    rw [System.permits, hq]
    exact decide_eq_true hnone
  have hafter : s.queueAfter q true = some q := by rw [System.queueAfter, hq]; rfl
  have hst : s.next (.main q true .other) =
      some { s.put q ((s.launch q).goto .attrInit) with queue := some q } := by
    rw [System.next, hpermits, Bool.and_self, Launch.main, hq, hafter]
    rfl
  exact ⟨_, .of_next hst, rfl⟩

/-- **Starting the server again.**  A launch that is before its `msgget` can come to make the queue
    if and only if there is none, or the launch that made the one there still runs and has installed
    its handler.  A launch that was killed, or left the loop over a call that failed, leaves a queue
    that no later launch gets past. -/
theorem can_restart_iff (hs : (servers ι).Reachable s) (hq : (s.launch q).pc = .msgget) :
    (∃ t, Leads System.next s t ∧ t.queue = some q) ↔
      ∀ p, s.queue = some p → (s.launch p).pc.ended = false ∧ (s.launch p).handler := by
  have howned := owned_of_reachable hs
  constructor
  · rintro ⟨t, ⟨as, hrun⟩, ht⟩ p hp
    by_contra hstale
    have hstale' : (s.launch p).pc.ended ∨ (s.launch p).handler = false := by
      rw [Decidable.not_and_iff_not_or_not, Bool.not_eq_false, Bool.not_eq_true] at hstale
      exact hstale
    have hpt := run_keeps (I := Stale p) (fun _ _ _ h hst => h.next hst) ⟨howned, hp, hstale'⟩ hrun
    obtain rfl : p = q := Option.some_inj.mp (hpt.queue.symm.trans ht)
    -- `q` is before its `msgget`, and has no queue
    have howns := howned.owns p hp
    rw [hq] at howns
    cases howns
  · intro h
    cases hqueue : s.queue with
    | none => exact leads_some hqueue hq
    | some p =>
      obtain ⟨hlive, hhandler⟩ := h p hqueue
      obtain ⟨t, ht, hnone, hpc⟩ := leads_none howned hqueue hlive hhandler hq
      obtain ⟨u, hu, hmade⟩ := leads_some hnone hpc
      exact ⟨u, ht.trans hu, hmade⟩

/-- The first launch is killed while it serves: the second cannot make the queue. -/
theorem can_restart_iff_killed : ∃ s : System Bool, (s.launch true).pc = .msgget ∧
    ¬ ∃ t, Leads System.next s t ∧ t.queue = some true := by
  let s₀ : System Bool := ⟨none, fun _ => ⟨.sigaction, false, false, .other, 0⟩⟩
  have h₀ : s₀.Starts := ⟨rfl, fun _ => rfl, fun _ => rfl, fun _ => rfl, fun _ => rfl⟩
  have hrun : (run System.next s₀ (secondLaunch ++ [.kill false])).any (fun s =>
    (s.launch true).pc == .msgget && (s.queue == some false && (s.launch false).pc.ended)) =
      true := by decide
  obtain ⟨s, hrun, hs⟩ := (Option.any_eq_true _ _).mp hrun
  simp only [Bool.and_eq_true, beq_iff_eq] at hs
  obtain ⟨hpc, hqueue, hended⟩ := hs
  have hreach : (servers Bool).Reachable s := TransitionSystem.Reachable.run (.init h₀) hrun
  refine ⟨s, hpc, fun hmade => ?_⟩
  have hlive := ((can_restart_iff hreach hpc).mp hmade false hqueue).1
  rw [hended] at hlive
  cases hlive

/-! ### After a SIGINT -/

/-- The step is a call of the launch `p`; its test of the flag is none. -/
def System.calls (s : System ι) (p : ι) : Label ι → Bool
  | .main q _ _ => q = p ∧ (s.launch p).pc ≠ .terminating
  | _ => false

/-- How many calls the launch `p` makes along a run. -/
def System.callsOf (p : ι) : System ι → List (Label ι) → Nat
  | _, [] => 0
  | s, a :: as => (if s.calls p a then 1 else 0) + (s.next a).elim 0 fun t => callsOf p t as

/-- The launch is past `GenerationServiceThreads`. -/
def Pc.past : Pc → Bool
  | .sigaction => false
  | .msgget => false
  | .attrInit => false
  | .create _ => false
  | _ => true

theorem Pc.left_le {pc : Pc} (h : pc.past) : pc.left ≤ 13 := by
  cases pc with
  | sigaction | msgget | attrInit | create _ => cases h
  | setup call => cases call <;> decide
  | close fd => cases fd <;> decide
  | _ => decide

theorem Pc.pending_le (pc : Pc) : pc.pending ≤ 1 := by
  cases pc with
  | accept | recv | recvfrom | msgsnd => exact Nat.le_refl 1
  | _ => exact Nat.zero_le 1

/-- A launch that is terminating, with at most `n` calls and `k` requests to come. -/
structure Stops (p : ι) (n k : Nat) (s : System ι) : Prop where
  terminating : (s.launch p).terminating
  left : (s.launch p).pc.left ≤ n
  sent : (s.launch p).sent + (s.launch p).pc.pending ≤ k

/-- A step of another launch does not count. -/
theorem Stops.put_of_ne {n k : Nat} {queue : Option ι} (h : Stops p n k s) (hqp : p ≠ q) :
    Stops p n k { s.put q l with queue := queue } := by
  have hsame : (System.launch { s.put q l with queue := queue } p) = s.launch p :=
    launch_put_of_ne hqp
  exact ⟨hsame ▸ h.terminating, hsame ▸ h.left, hsame ▸ h.sent⟩

/-- **Every step** of the launches takes a call from the launch, or is none of its calls. -/
theorem Stops.next {n k : Nat} {a : Label ι} (h : Stops p n k s) (hn : n ≤ 13)
    (hst : s.next a = some t) :
    ∃ n', n' + (if s.calls p a then 1 else 0) ≤ n ∧ Stops p n' k t := by
  -- a signal leaves a launch where it is, or ends it
  have hsignal : ∀ q, a = .sigint q ∨ a = .kill q → Stops p n k t := by
    intro q ha
    obtain ⟨-, ⟨rfl, -⟩ | rfl⟩ := next_signal hst ha
    · by_cases hqp : p = q
      · subst hqp
        refine ⟨?_, ?_, ?_⟩ <;> rw [launch_put_self]
        · exact h.left
        · exact h.sent
      · exact h.put_of_ne hqp
    · by_cases hqp : p = q
      · subst hqp
        refine ⟨?_, ?_, ?_⟩ <;> rw [launch_put_self]
        · exact h.terminating
        · exact Nat.zero_le n
        · exact Nat.le_trans (Nat.add_le_add_left (Nat.zero_le _) _) h.sent
      · exact h.put_of_ne hqp
  cases a with
  | sigint q => exact ⟨n, Nat.le_refl n, hsignal q (.inl rfl)⟩
  | kill q => exact ⟨n, Nat.le_refl n, hsignal q (.inr rfl)⟩
  | main q ok ev =>
    obtain ⟨l, ok', hm, -, rfl⟩ := next_main hst
    by_cases hqp : p = q
    · subst hqp
      have hself : (s.put p l).launch p = l := launch_put_self
      -- `pthread_create` can fail for ever, but that is behind it
      have hcreate : ∀ i, (s.launch p).pc ≠ .create i := by
        intro i hpc
        have hleft := h.left
        rw [hpc, Pc.left] at hleft
        omega
      refine ⟨l.pc.left, ?_, ?_, ?_, ?_⟩
      · refine Nat.le_trans (Nat.le_trans (Nat.add_le_add_left ?_ _)
          (hm.left_le h.terminating (.inr hcreate))) h.left
        by_cases htest : (s.launch p).pc = .terminating
        · rw [System.calls, decide_eq_false fun hcalls => hcalls.2 htest]
          exact Nat.zero_le _
        · rw [if_neg htest]
          split <;> decide
      · show ((s.put p l).launch p).terminating
        rw [hself, hm.terminating]
        exact h.terminating
      · exact Nat.le_of_eq (by rw [hself])
      · show ((s.put p l).launch p).sent + ((s.put p l).launch p).pc.pending ≤ k
        rw [hself]
        exact Nat.le_trans (hm.sent_le h.terminating) h.sent
    · have hcalls : s.calls p (.main q ok ev) = false :=
        decide_eq_false fun hcalls => hqp hcalls.1.symm
      exact ⟨n, by rw [hcalls]; simp, h.put_of_ne hqp⟩

/-- **A whole run** from there: the calls the launch has made and those left to it are never more
    than those left at the beginning. -/
theorem Stops.run {n k : Nat} {as : List (Label ι)} (h : Stops p n k s) (hn : n ≤ 13)
    (hrun : run System.next s as = some t) :
    ∃ n', n' + s.callsOf p as ≤ n ∧ Stops p n' k t := by
  induction as generalizing s n with
  | nil =>
    cases hrun
    exact ⟨n, Nat.le_refl n, h⟩
  | cons a as ih =>
    obtain ⟨u, hu, hrun⟩ := run_cons_eq_some.mp hrun
    obtain ⟨m, hm, hu'⟩ := h.next hn hu
    obtain ⟨n', hn', ht⟩ := ih hu' (by omega) hrun
    refine ⟨n', ?_, ht⟩
    rw [System.callsOf, hu, Option.elim_some]
    omega

/-- **After a SIGINT** that its handler got, a launch past `GenerationServiceThreads` makes at most
    13 more calls before its `exit`, wherever it was and whatever the calls give: from right behind
    `GenerationServiceThreads` the eight of the set-up, `epoll_wait`, `msgctl` and three `close`.
    It puts at most one more request in the queue, and none if it had not begun one. -/
theorem stops_after_sigint {as : List (Label ι)} (hterm : (s.launch p).terminating)
    (hpast : (s.launch p).pc.past) (hrun : run System.next s as = some t) :
    s.callsOf p as ≤ 13 ∧
      (t.launch p).sent ≤ (s.launch p).sent + (s.launch p).pc.pending ∧
      (s.launch p).pc.pending ≤ 1 := by
  have hleft := Pc.left_le hpast
  have hstops : Stops p (s.launch p).pc.left ((s.launch p).sent + (s.launch p).pc.pending) s :=
    ⟨hterm, Nat.le_refl _, Nat.le_refl _⟩
  obtain ⟨n, hn, ht⟩ := hstops.run hleft hrun
  have hsent := ht.sent
  exact ⟨by omega, by omega, Pc.pending_le _⟩

/-- A SIGINT between `epoll_wait` and `accept`: the launch makes eight more calls, of which one puts
    its request in the queue, and ends. -/
theorem stops_after_sigint_accept : ∃ s t : System Unit, ∃ as : List (Label Unit),
    (s.launch ()).pc = .accept ∧ run System.next s as = some t ∧
      (t.launch ()).pc = .EXIT_SUCCESS ∧ s.callsOf () as = 8 ∧ s.callsOf () as ≤ 13 ∧
      (t.launch ()).sent = 1 := by
  let s : System Unit := ⟨some (), fun _ => ⟨.accept, true, true, .tcp, 0⟩⟩
  let as : List (Label Unit) := List.replicate 9 (.main () true .other)
  have hrun : (run System.next s as).any (fun t =>
      (t.launch ()).pc == .EXIT_SUCCESS && (t.launch ()).sent == 1) = true := by decide
  obtain ⟨t, hrun, ht⟩ := (Option.any_eq_true _ _).mp hrun
  obtain ⟨hpc, hsent⟩ := Bool.and_eq_true_iff.mp ht
  have hstops := stops_after_sigint (s := s) (p := ()) rfl rfl hrun
  exact ⟨s, t, as, rfl, hrun, beq_iff_eq.mp hpc, by decide, hstops.1, beq_iff_eq.mp hsent⟩

end EltexHomeworks.ServerQueue.Launches
