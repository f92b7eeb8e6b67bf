import EltexHomeworks.Lib.Run
import EltexHomeworks.Net.ServerQueue.Delivery

namespace EltexHomeworks.ServerQueue

open EltexHomeworks.Lib

/-!
# Request queue — in the order of arrival

The message queue is the only way from the main loop to the service threads, so the requests are
handed to the threads in the order in which `main` took them, whichever thread asks first.

* `handed_next` — a step takes requests at the end and hands them out at the front;
* `first_come_first_served` — what the threads have been handed, what is in the queue, and what is
  still with the main loop are all the requests, in this order.
-/

variable {ω : Type} [DecidableEq ω] {s t : State ω}

/-! ### The order -/

/-- The request that a step hands to a thread, if it is a `msgrcv` that succeeds. -/
def State.handed (s : State ω) : Label ω → List Nat
  | .worker w true =>
    match (s.workers w).pc with
    | .sleep => (s.queue.head?.map Request.id).toList
    | _ => []
  | _ => []

/-- The requests that the steps hand to threads, one after the other. -/
def State.handedOut : State ω → List (Label ω) → List Nat
  | _, [] => []
  | s, l :: ls => s.handed l ++ ((s.next l).elim [] fun t => handedOut t ls)

/-- The requests not yet handed to a thread. -/
def State.waiting (s : State ω) : List Nat :=
  s.queue.map Request.id ++ if s.pc.enqueues then [s.request.id] else []

/-- A step of a thread that is not a `msgrcv` leaves the queue alone. -/
theorem ThreadMoves.queue {w : ω} {ok : Bool} (h : ThreadMoves s w ok t) :
    s.queue.map Request.id = s.handed (.worker w ok) ++ t.queue.map Request.id := by
  -- only `msgrcv` hands out a request
  have hnone : ∀ ok, (s.workers w).pc ≠ .sleep → s.handed (.worker w ok) = [] := by
    intro ok hpc
    cases ok with
    | false => rfl
    | true =>
      rw [State.handed]
      split
      · rename_i hsleep
        exact absurd hsleep hpc
      · rfl
  -- a thread that ends its turn does not touch the queue
  have hfinish : ∀ (u : State ω) (ret : Int), (u.finish w ret).queue = u.queue := by
    intro u ret
    unfold State.finish
    split <;> rfl
  cases h with
  | msgrcv q queue hpc hqueue =>
    rw [State.handed, hpc, hqueue]
    rfl
  | exit hpc => rfl
  | choose ok hpc =>
    rw [hnone _ (by rw [hpc]; nofun)]
    unfold State.choose
    split
    · rfl
    · split <;> rfl
  | sendTcp sock hpc hsock => rw [hnone _ (by rw [hpc]; nofun)]; rfl
  | socket hpc => rw [hnone _ (by rw [hpc]; nofun)]; rfl
  | sendtoUdp fd a sock hpc hsock => rw [hnone _ (by rw [hpc]; nofun)]; rfl
  | fail ret hpc => rw [hfinish]; rfl
  | close ok fd hpc =>
    rw [hnone _ (by rcases hpc with hpc | hpc <;> rw [hpc] <;> nofun), State.closeAndReturn,
      hfinish]
    rfl
  | restart ok hpc => rw [hnone _ (by rw [hpc]; nofun)]; rfl

/-- **One step** takes requests at the end and hands them out at the front. -/
theorem handed_next {pre : List Nat} {l : Label ω}
    (hpre : pre ++ s.waiting = List.range s.taken.length) (h : s.next l = some t) :
    pre ++ s.handed l ++ t.waiting = List.range t.taken.length := by
  -- what `accept` and `recvfrom` take is numbered by what was taken before
  have htake : ∀ {u : State ω} {o : Origin}, s.pc.enqueues = false → u.pc.enqueues = true →
      u.queue = s.queue → u.request.id = s.taken.length → u.taken = s.taken ++ [o] →
      pre ++ [] ++ u.waiting = List.range u.taken.length := by
    intro u o hpc hpc' hqueue hid htaken
    rw [State.waiting, hpc, if_neg Bool.false_ne_true, List.append_nil] at hpre
    rw [State.waiting, hpc', if_pos rfl, hqueue, hid, htaken, List.length_append,
      List.length_singleton, List.range_succ, List.append_nil, ← List.append_assoc, hpre]
  cases l with
  | epollWait ev =>
    obtain ⟨hpc, rfl⟩ := next_epollWait.mp h
    rw [State.waiting, hpc] at hpre
    show pre ++ [] ++ _ = _
    rw [State.waiting, enqueues_epollWait, List.append_nil]
    exact hpre
  | accept =>
    obtain ⟨hpc, -, rfl⟩ := next_accept.mp h
    exact htake (by rw [hpc]; rfl) rfl rfl rfl rfl
  | recvfrom d a =>
    obtain ⟨hpc, rfl⟩ := next_recvfrom.mp h
    exact htake (by rw [hpc]; rfl) rfl rfl rfl rfl
  | recv r =>
    obtain ⟨⟨clientSock, hpc⟩, rfl⟩ := next_recv.mp h
    rw [State.waiting, hpc] at hpre
    show pre ++ [] ++ _ = _
    rw [List.append_nil]
    exact hpre
  | msgsnd =>
    -- `msgsnd` moves the request of `main` to the end of the queue
    obtain ⟨hpc, rfl⟩ := next_msgsnd.mp h
    rw [State.waiting, hpc] at hpre
    show pre ++ [] ++ ((s.queue ++ [s.request]).map Request.id ++ []) = _
    rw [List.append_nil, List.append_nil, List.map_append]
    exact hpre
  | worker w ok =>
    -- a thread leaves alone what `main` has
    have hm := serviceRoutine_eq_some h
    have hframe := hm.frame
    rw [State.waiting, hm.queue, List.append_assoc] at hpre
    rw [State.waiting, hframe.pc, hframe.request, hframe.taken, List.append_assoc]
    exact hpre

/-- **First come, first served.**  In every run, with any number of threads, the requests handed to
    the threads, those in the queue and the one that `main` has not yet put there are the requests
    taken, each once, in the order in which they were taken. -/
theorem first_come_first_served {ls : List (Label ω)} (hs : Starts s)
    (h : run State.next s ls = some t) :
    s.handedOut ls ++ t.waiting = List.range t.taken.length := by
  suffices hgo : ∀ (pre : List Nat) (u : State ω), pre ++ u.waiting = List.range u.taken.length →
      run State.next u ls = some t →
        pre ++ u.handedOut ls ++ t.waiting = List.range t.taken.length by
    have hstart : [] ++ s.waiting = List.range s.taken.length := by
      rw [State.waiting, hs.queue, hs.pc, hs.taken]
      rfl
    exact hgo [] s hstart h
  clear h hs
  induction ls with
  | nil =>
    intro pre u hpre h
    cases h
    rw [State.handedOut, List.append_nil]
    exact hpre
  | cons l ls ih =>
    intro pre u hpre h
    obtain ⟨v, hv, h⟩ := run_cons_eq_some.mp h
    rw [State.handedOut, hv, ← List.append_assoc]
    exact ih _ v (handed_next hpre hv) h

/-- A connection is handed to a thread, and a datagram is with `main`. -/
theorem first_come_first_served_two :
    let ls : List (Label Bool) := [.epollWait (some 3), .accept, .recv .endOfStream, .msgsnd,
      .worker true true, .epollWait (some 4), .recvfrom ⟨[72, 105], by decide⟩ ⟨2, 1⟩]
    ∃ t, run State.next idle ls = some t ∧ idle.handedOut ls = [0] ∧ [0] ++ t.waiting = [0, 1] := by
  intro ls
  have hrun : (run State.next idle ls).map (fun t => t.taken.length) = some 2 := by decide +kernel
  have hhanded : idle.handedOut ls = [0] := by decide +kernel
  obtain ⟨t, ht, hlen⟩ := Option.map_eq_some_iff.mp hrun
  have horder := first_come_first_served starts_idle ht
  rw [hhanded, hlen] at horder
  exact ⟨t, ht, hhanded, horder⟩

end EltexHomeworks.ServerQueue
