import EltexHomeworks.Net.ServerQueue.Delivery

namespace EltexHomeworks.ServerQueue

open EltexHomeworks.Lib

/-!
# Request queue — what a thread reports

`turns w s ls` are the turns of `ServiceRoutine` thread `w` makes in the run `ls`: where it was,
whether its call went well, and where it went.  `Reports` says of them that a reply that could not
be sent takes the thread through `ERROR`, and one that was sent straight to `SLEEP`.

`reports_iff`: a thread reports as long as none of its calls fails, and no longer — the values its
two helpers return are not the one it compares them with.
-/

/-- The values of `state`. -/
inductive ServiceState
  | SLEEP
  | CHOOSE
  | WORK_TCP
  | WORK_UDP
  | ERROR
deriving DecidableEq, Repr

/-- The value of `state` while a thread is at `pc`, before it exits. -/
def WorkerPc.state : WorkerPc → Option ServiceState
  | .sleep => some .SLEEP
  | .choose => some .CHOOSE
  | .workTcp => some .WORK_TCP
  | .closeTcp _ => some .WORK_TCP
  | .workUdp => some .WORK_UDP
  | .sendtoUdp _ _ => some .WORK_UDP
  | .closeUdp _ => some .WORK_UDP
  | .error => some .ERROR
  | .exited => none

/-- A turn of a thread. -/
structure Turn where
  before : WorkerPc
  ok : Bool
  after : WorkerPc

/-- The reply could not be sent: `send`, `socket` or `sendto` failed. -/
def Turn.Unsent (u : Turn) : Prop := u.ok = false ∧ u.before.Calls

/-- The reply was sent. -/
def Turn.Sent (u : Turn) : Prop :=
  u.ok = true ∧ (u.before = .workTcp ∨ ∃ fd a, u.before = .sendtoUdp fd a)

/-- Nothing meets `B` before something has met `A`. -/
def Before {α : Type} (A B : α → Prop) : List α → Prop
  | [] => True
  | a :: as => ¬ B a ∧ (A a ∨ Before A B as)

/-- What the turns of a thread should be like. -/
def Reports : List Turn → Prop
  | [] => True
  | u :: us =>
    -- to `ERROR` before the next `SLEEP`
    (u.Unsent → Before (fun v => v.after.state = some .ERROR)
      (fun v => v.after.state = some .SLEEP) (u :: us)) ∧
    -- to `SLEEP` before any other state
    (u.Sent → Before (fun v => v.after.state = some .SLEEP)
      (fun v => v.after.state ≠ u.before.state ∧ v.after.state ≠ some .SLEEP) (u :: us)) ∧
    Reports us

variable {ω : Type} [DecidableEq ω]

/-- The turns of thread `w` in the run `ls` from `s`. -/
def turns (w : ω) : State ω → List (Label ω) → List Turn
  | _, [] => []
  | s, l :: ls =>
    match s.next l with
    | none => []
    | some t =>
      match l with
      | .worker v ok =>
        if v = w then ⟨(s.workers w).pc, ok, (t.workers w).pc⟩ :: turns w t ls else turns w t ls
      | _ => turns w t ls

variable {s t : State ω} {w : ω}

/-- A step is a turn of thread `w`, or leaves it as it is. -/
theorem turns_cons {l : Label ω} (h : s.next l = some t) (ls : List (Label ω)) :
    (∃ ok, l = .worker w ok ∧ ThreadMoves s w ok t ∧
        turns w s (l :: ls) = ⟨(s.workers w).pc, ok, (t.workers w).pc⟩ :: turns w t ls) ∨
      ((∀ ok, l ≠ .worker w ok) ∧ t.workers w = s.workers w ∧
        turns w s (l :: ls) = turns w t ls) := by
  rw [turns, h]
  cases l with
  | worker v ok =>
    -- a step of another thread leaves `w` as it is, and so does the main loop
    by_cases hv : v = w
    · subst hv
      exact .inl ⟨ok, rfl, serviceRoutine_eq_some h, if_pos rfl⟩
    · refine .inr ⟨fun ok' heq => ?_, ?_, if_neg hv⟩
      · cases heq
        exact hv rfl
      · exact (serviceRoutine_eq_some h).frame.workers w (Ne.symm hv)
  | epollWait ev =>
    obtain ⟨-, rfl⟩ := next_epollWait.mp h
    exact .inr ⟨nofun, rfl, rfl⟩
  | accept =>
    obtain ⟨-, -, rfl⟩ := next_accept.mp h
    exact .inr ⟨nofun, rfl, rfl⟩
  | recv r =>
    obtain ⟨-, rfl⟩ := next_recv.mp h
    exact .inr ⟨nofun, rfl, rfl⟩
  | recvfrom d a =>
    obtain ⟨-, rfl⟩ := next_recvfrom.mp h
    exact .inr ⟨nofun, rfl, rfl⟩
  | msgsnd =>
    obtain ⟨-, rfl⟩ := next_msgsnd.mp h
    exact .inr ⟨nofun, rfl, rfl⟩

/-- Whatever a helper returns is not `-1`: the thread goes to sleep. -/
theorem pc_finish {ret : Int} (hret : ret ≠ -1) (s : State ω) (w : ω) :
    ((s.finish w ret).workers w).pc = .sleep := by
  rw [State.finish, if_neg hret]
  show ((s.goto w .sleep).workers w).pc = .sleep
  rw [State.goto, workers_setWorker_self]

/-- A thread at its `close` goes to sleep before anything else. -/
theorem before_sleep (pc : WorkerPc) {fd : Nat}
    (hpc : (s.workers w).pc = .closeTcp fd ∨ (s.workers w).pc = .closeUdp fd)
    (ls : List (Label ω)) :
    Before (fun v => v.after.state = some .SLEEP)
      (fun v => v.after.state ≠ pc.state ∧ v.after.state ≠ some .SLEEP) (turns w s ls) := by
  induction ls generalizing s with
  | nil => exact trivial
  | cons l ls ih =>
    cases h : s.next l with
    | none =>
      rw [turns, h]
      exact trivial
    | some t =>
      rcases turns_cons (w := w) h ls with ⟨ok, rfl, -, hturns⟩ | ⟨-, hw, hturns⟩ <;> rw [hturns]
      · -- its own next step is the `close`
        have ht : s.closeAndReturn w fd = t := by
          rcases hpc with hpc | hpc <;> simpa [State.next, State.serviceRoutine, hpc] using h
        have hsleep : (t.workers w).pc = .sleep := by
          rw [← ht]
          exact pc_finish (by decide) _ w
        rw [hsleep]
        exact ⟨fun hne => hne.2 rfl, .inl rfl⟩
      · exact ih (by rw [hw]; exact hpc)

/-- A reply that was sent takes the thread to its `close`. -/
theorem ThreadMoves.sent {ok : Bool} (h : ThreadMoves s w ok t)
    (hsent : Turn.Sent ⟨(s.workers w).pc, ok, (t.workers w).pc⟩) :
    (t.workers w).pc.state = (s.workers w).pc.state ∧
      ∃ fd, (t.workers w).pc = .closeTcp fd ∨ (t.workers w).pc = .closeUdp fd := by
  obtain ⟨hok, hpc⟩ := hsent
  cases h with
  | sendTcp sock hpc' hsock =>
    rw [State.goto, workers_setWorker_self, hpc']
    exact ⟨rfl, _, .inl rfl⟩
  | sendtoUdp fd a sock hpc' hsock =>
    rw [State.goto, workers_setWorker_self, hpc']
    exact ⟨rfl, _, .inr rfl⟩
  | close ok fd hpc' => rcases hpc' with hpc' | hpc' <;> simp_all
  | _ => simp_all

/-- A turn of the thread itself is as it should be unless its call fails. -/
theorem reports_cons_iff {ok : Bool} (h : s.next (.worker w ok) = some t) (ls : List (Label ω)) :
    Reports (⟨(s.workers w).pc, ok, (t.workers w).pc⟩ :: turns w t ls) ↔
      ¬ s.CallFails w (.worker w ok) ∧ Reports (turns w t ls) := by
  constructor
  · rintro ⟨hunsent, -, hr⟩
    refine ⟨fun hfails => ?_, hr⟩
    -- the first state after the failure is `SLEEP`
    obtain ⟨ret, hret, hnext⟩ := hfails.next
    have ht : (t.workers w).pc = .sleep := by
      rw [← Option.some.inj (hnext.symm.trans h)]
      exact pc_finish hret s w
    have hok : ok = false := (Label.worker.inj hfails.1).2
    exact (hunsent ⟨hok, hfails.2⟩).1 (congrArg WorkerPc.state ht)
  · rintro ⟨hnot, hr⟩
    refine ⟨fun hunsent => ?_, fun hsent => ?_, hr⟩
    · exact absurd ⟨congrArg _ hunsent.1, hunsent.2⟩ hnot
    · obtain ⟨hstate, fd, hpc⟩ := (serviceRoutine_eq_some h).sent hsent
      refine ⟨fun hother => hother.1 hstate, .inr ?_⟩
      exact before_sleep (s.workers w).pc hpc ls

/-- **A thread reports** that a reply could not be sent in no case: it does what it should as long
    as none of its `send`, `socket` and `sendto` calls fails, and no longer. -/
theorem reports_iff (w : ω) (s : State ω) (ls : List (Label ω)) :
    Reports (turns w s ls) ↔ Along State.next (fun s l => ¬ s.CallFails w l) s ls := by
  induction ls generalizing s with
  | nil => exact Iff.rfl
  | cons l ls ih =>
    rw [Along]
    cases h : s.next l with
    | none =>
      -- a failing call can always be taken
      have hnot : ¬ s.CallFails w l := by
        intro hfails
        obtain ⟨ret, -, hnext⟩ := hfails.next
        rw [hnext] at h
        cases h
      simp [turns, h, Reports, hnot]
    | some t =>
      have hrest : Reports (turns w t ls) ↔
          ∀ u, some t = some u → Along State.next (fun s l => ¬ s.CallFails w l) u ls := by
        rw [ih t]
        exact ⟨fun hr u hu => Option.some.inj hu ▸ hr, fun hr => hr t rfl⟩
      rw [← hrest]
      rcases turns_cons (w := w) h ls with ⟨ok, rfl, -, hturns⟩ | ⟨hl, -, hturns⟩ <;> rw [hturns]
      · exact reports_cons_iff h ls
      · exact ⟨fun hr => ⟨fun hfails => hl false hfails.1, hr⟩, fun hr => hr.2⟩

/-- The answer to a connection cannot be sent, and the thread sleeps again. -/
theorem not_reports_of_send_fails :
    ¬ Reports (turns true idle
      [.epollWait (some 3), .accept, .recv .endOfStream, .msgsnd, .worker true true,
        .worker true true, .worker true false]) := by
  have hturns : turns true idle
      [.epollWait (some 3), .accept, .recv .endOfStream, .msgsnd, .worker true true,
        .worker true true, .worker true false] =
      [⟨.sleep, true, .choose⟩, ⟨.choose, true, .workTcp⟩, ⟨.workTcp, false, .sleep⟩] := rfl
  rw [hturns]
  intro hr
  exact (hr.2.2.2.2.1 ⟨rfl, .inl rfl⟩).1 rfl

end EltexHomeworks.ServerQueue
