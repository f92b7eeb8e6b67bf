import EltexHomeworks.Lib.Places
import EltexHomeworks.Net.ServerQueue.Steps

namespace EltexHomeworks.ServerQueue

open EltexHomeworks.Lib

/-!
# Request queue — where a request is

A request that was taken is in the hands of the main loop, in the queue, in the hands of a thread,
or serviced.  `State.occupant` says which request is at each of these places; what the steps do to
it is a new request, a request that moves on, or nothing:

* `once_accept`, `once_recvfrom` — a request is taken;
* `once_msgsnd`, `once_msgrcv`, `once_finish` — it is put into the queue, taken out and serviced;
* `occupant_goto` — a thread goes on with the request it has.
-/

variable {ω : Type}

/-- The places a request can be at. -/
inductive Location (ω : Type)
  | enqueuing
  | queued (k : Nat)
  | held (w : ω)
  | serviced (k : Nat)
deriving DecidableEq

/-- Between taking a request and its `msgsnd`. -/
def MainPc.enqueues : MainPc → Bool
  | .recv _ => true
  | .msgsnd => true
  | _ => false

/-- Between `msgrcv` and the end of the servicing. -/
def WorkerPc.holds : WorkerPc → Bool
  | .sleep => false
  | .exited => false
  | _ => true

/-- The request at a place. -/
def State.occupant (s : State ω) : Location ω → Option Nat
  | .enqueuing => if s.pc.enqueues then some s.request.id else none
  | .queued k => (s.queue[k]?).map Request.id
  | .held w => if (s.workers w).pc.holds then some (s.workers w).request.id else none
  | .serviced k => s.serviced[k]?

/-- Every request taken is at exactly one place. -/
def State.Once (s : State ω) : Prop := ExactlyOnce (· < s.taken.length) s.occupant

variable {s : State ω} {w : ω}

theorem occupant_enqueuing (h : s.pc.enqueues = true) :
    s.occupant .enqueuing = some s.request.id := if_pos h

theorem occupant_enqueuing_eq_none (h : s.pc.enqueues = false) : s.occupant .enqueuing = none :=
  if_neg (by rw [h]; exact Bool.false_ne_true)

theorem occupant_held (h : (s.workers w).pc.holds = true) :
    s.occupant (.held w) = some (s.workers w).request.id := if_pos h

theorem occupant_held_eq_none (h : (s.workers w).pc.holds = false) :
    s.occupant (.held w) = none := if_neg (by rw [h]; exact Bool.false_ne_true)

theorem occupant_queued_length : s.occupant (.queued s.queue.length) = none := by
  show (s.queue[s.queue.length]?).map Request.id = none
  rw [List.getElem?_eq_none (Nat.le_refl _)]
  rfl

theorem occupant_serviced_length : s.occupant (.serviced s.serviced.length) = none :=
  List.getElem?_eq_none (Nat.le_refl _)

/-- A list with one more element is the list elsewhere. -/
theorem getElem?_append_singleton_of_ne {α : Type} (l : List α) (a : α) {k : Nat}
    (h : k ≠ l.length) : (l ++ [a])[k]? = l[k]? := by
  by_cases hk : k < l.length
  · exact List.getElem?_append_left hk
  · rw [List.getElem?_eq_none (l := l) (by omega), List.getElem?_eq_none]
    rw [List.length_append, List.length_singleton]
    omega

/-! ### The main loop -/

/-- Whatever `epoll_wait` returns, no request is taken yet. -/
theorem enqueues_epollWait (s : State ω) (ev : Option Nat) :
    (s.epollWait ev).pc.enqueues = false := by
  show MainPc.enqueues (if _ then _ else if _ then _ else _) = false
  split
  · rfl
  · split <;> rfl

/-- `epoll_wait` takes nothing. -/
theorem occupant_epollWait (hpc : s.pc = .wait) (ev : Option Nat) (l : Location ω) :
    (s.epollWait ev).occupant l = s.occupant l := by
  cases l with
  | enqueuing =>
    rw [occupant_enqueuing_eq_none (s := s) (by rw [hpc]; rfl)]
    exact occupant_enqueuing_eq_none (enqueues_epollWait s ev)
  | queued k => rfl
  | held w => rfl
  | serviced k => rfl

/-- `recv` is about the request already taken. -/
theorem occupant_recv {clientSock : Nat} (hpc : s.pc = .recv clientSock) (r : RecvResult MSG_SIZE)
    (l : Location ω) : (s.recv r).occupant l = s.occupant l := by
  cases l with
  | enqueuing =>
    rw [occupant_enqueuing (s := s) (by rw [hpc]; rfl)]
    rfl
  | queued k => rfl
  | held w => rfl
  | serviced k => rfl

/-- A request is taken: it has the next number, and is in the hands of the main loop. -/
theorem once_take {t : State ω} {o : Origin} (h : s.Once) (hpc : s.pc.enqueues = false)
    (hpc' : t.pc.enqueues = true) (hid : t.request.id = s.taken.length)
    (htaken : t.taken = s.taken ++ [o]) (hqueue : t.queue = s.queue)
    (hworkers : t.workers = s.workers) (hserviced : t.serviced = s.serviced) : t.Once := by
  apply h.take (r := s.taken.length) (a := .enqueuing) (Nat.lt_irrefl _)
  · exact occupant_enqueuing_eq_none hpc
  · rw [occupant_enqueuing hpc', hid]
  · intro l hl
    cases l with
    | enqueuing => exact absurd rfl hl
    | queued k => rw [State.occupant, hqueue]; rfl
    | held w => rw [State.occupant, hworkers]; rfl
    | serviced k => rw [State.occupant, hserviced]; rfl
  · intro q
    rw [htaken, List.length_append, List.length_singleton]
    omega

theorem once_accept (h : s.Once) (hpc : s.pc = .accept) : s.accept.Once :=
  once_take h (by rw [hpc]; rfl) rfl rfl rfl rfl rfl rfl

theorem once_recvfrom (h : s.Once) (hpc : s.pc = .recvfrom) (d : Datagram MSG_SIZE)
    (a : SockaddrIn) : (s.recvfrom d a).Once :=
  once_take h (by rw [hpc]; rfl) rfl rfl rfl rfl rfl rfl

variable [DecidableEq ω]

/-- The request goes to the end of the queue. -/
theorem once_msgsnd (h : s.Once) (hpc : s.pc = .msgsnd) : s.msgsnd.Once := by
  apply h.swap (a := .enqueuing) (b := .queued s.queue.length)
  · rw [occupant_queued_length, occupant_enqueuing_eq_none rfl]
  · rw [occupant_enqueuing (by rw [hpc]; rfl)]
    show ((s.queue ++ [s.request])[s.queue.length]?).map Request.id = some s.request.id
    rw [List.getElem?_concat_length]
    rfl
  · intro l hne hnq
    cases l with
    | enqueuing => exact absurd rfl hne
    | queued k =>
      have hk : k ≠ s.queue.length := fun hk => hnq (by rw [hk])
      show ((s.queue ++ [s.request])[k]?).map Request.id = _
      rw [getElem?_append_singleton_of_ne _ _ hk]
      rfl
    | held w => rfl
    | serviced k => rfl

/-! ### A service thread -/

theorem workers_setWorker_self (s : State ω) (w : ω) (k : Worker) :
    (s.setWorker w k).workers w = k := Function.update_self ..

theorem workers_setWorker_of_ne (s : State ω) {v w : ω} (h : v ≠ w) (k : Worker) :
    (s.setWorker w k).workers v = s.workers v := Function.update_of_ne h ..

/-- A thread that keeps its hands as full as they were. -/
theorem occupant_goto {pc : WorkerPc} (h : pc.holds = (s.workers w).pc.holds) (l : Location ω) :
    (s.goto w pc).occupant l = s.occupant l := by
  cases l with
  | enqueuing => rfl
  | queued k => rfl
  | held v =>
    by_cases hv : v = w
    · subst hv
      rw [State.occupant, State.occupant, State.goto, workers_setWorker_self]
      simp only [h]
    · rw [State.occupant, State.occupant, State.goto, workers_setWorker_of_ne s hv]
  | serviced k => rfl

/-- Where what is at a place now was before the first message went to thread `w`. -/
def beforeMsgrcv (w : ω) : Location ω → Location ω
  | .queued k => .queued (k + 1)
  | .held v => if v = w then .queued 0 else .held v
  | l => l

theorem beforeMsgrcv_injective (w : ω) : Function.Injective (beforeMsgrcv w) := by
  intro l l' h
  -- no place in the queue comes from its head but the hands of `w`
  cases l <;> cases l' <;> simp only [beforeMsgrcv] at h <;> grind

/-- The first message goes from the queue to a thread. -/
theorem once_msgrcv {q : Request} {queue : List Request} (h : s.Once)
    (hpc : (s.workers w).pc = .sleep) (hqueue : s.queue = q :: queue) :
    ({ s with queue := queue }.setWorker w ⟨.choose, q⟩).Once := by
  apply h.move (beforeMsgrcv_injective w)
  · -- every place is the former place of something, but for the empty hands of `w`
    intro l hl
    cases l with
    | enqueuing => exact ⟨.enqueuing, rfl⟩
    | queued k =>
      cases k with
      | zero => exact ⟨.held w, if_pos rfl⟩
      | succ k => exact ⟨.queued k, rfl⟩
    | held v =>
      by_cases hv : v = w
      · subst hv
        exact absurd (occupant_held_eq_none (by rw [hpc]; rfl)) hl
      · exact ⟨.held v, if_neg hv⟩
    | serviced k => exact ⟨.serviced k, rfl⟩
  · intro l
    cases l with
    | enqueuing => rfl
    | queued k =>
      show (queue[k]?).map Request.id = (s.queue[k + 1]?).map Request.id
      rw [hqueue, List.getElem?_cons_succ]
    | held v =>
      -- what `w` has now was the head of the queue
      rw [beforeMsgrcv]
      by_cases hv : v = w
      · subst hv
        rw [if_pos rfl, occupant_held (by rw [workers_setWorker_self]; rfl),
          workers_setWorker_self]
        show some q.id = (s.queue[0]?).map Request.id
        rw [hqueue]
        rfl
      · rw [if_neg hv, State.occupant, workers_setWorker_of_ne _ hv]
        rfl
    | serviced k => rfl

/-- The request goes from a thread to those that are serviced. -/
theorem once_finish {ret : Int} (h : s.Once) (hpc : (s.workers w).pc.holds = true)
    (hret : ret ≠ -1) : (s.finish w ret).Once := by
  rw [State.finish, if_neg hret]
  apply h.swap (a := .held w) (b := .serviced s.serviced.length)
  · rw [occupant_serviced_length]
    apply occupant_held_eq_none
    show ((s.goto w .sleep).workers w).pc.holds = false
    rw [State.goto, workers_setWorker_self]
    rfl
  · rw [occupant_held hpc]
    exact List.getElem?_concat_length
  · intro l hnw hns
    cases l with
    | enqueuing => rfl
    | queued k => rfl
    | held v =>
      have hv : v ≠ w := fun hv => hnw (by rw [hv])
      show (if ((s.goto w .sleep).workers v).pc.holds then
        some ((s.goto w .sleep).workers v).request.id else none) = _
      rw [State.goto, workers_setWorker_of_ne s hv]
      rfl
    | serviced k =>
      have hk : k ≠ s.serviced.length := fun hk => hns (by rw [hk])
      exact getElem?_append_singleton_of_ne _ _ hk

end EltexHomeworks.ServerQueue
