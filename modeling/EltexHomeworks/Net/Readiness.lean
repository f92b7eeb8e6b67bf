import EltexHomeworks.Net.Select
import EltexHomeworks.Net.ServerQueue.Delivery

namespace EltexHomeworks.ServerQueue

open EltexHomeworks.Lib

/-!
# Readiness — the `epoll` loop of the request queue beside the `select` loop

Both servers print an error after a wait that failed and go on, with the result object as it was.
Here `triggered` still names the socket reported last, so that `main` calls `accept` or `recvfrom`
on it once more; the failure does no harm before anything was reported.

* `actsOnReports_iff` — the calls of the `epoll` loop, and what `epoll_wait` reported in the same
  turn;
* `multiplexing_iff` — both servers.
-/

/-- The server, with what `epoll_wait` reported in this turn of the main loop. -/
structure Watched (ω : Type) where
  server : State ω
  reported : Option Nat

variable {ω : Type}

/-- What is known to be ready after a step. -/
def Watched.report (b : Watched ω) : Label ω → Option Nat
  | .epollWait ev => ev
  | _ => b.reported

/-- A step of the server, watched. -/
def Watched.next [DecidableEq ω] (b : Watched ω) (l : Label ω) : Option (Watched ω) :=
  (b.server.next l).map fun t => ⟨t, b.report l⟩

/-- A call on a listening socket is made only if `epoll_wait` has reported the socket in this
    turn. -/
structure ActsOnReports (b : Watched ω) : Prop where
  accept : b.server.pc = .accept → b.reported = some b.server.listenSocketTcp
  recvfrom : b.server.pc = .recvfrom → b.reported = some b.server.listenSocketUdp

/-- An `epoll_wait` fails while `triggered` still names a listening socket. -/
def State.WaitFails (s : State ω) (l : Label ω) : Prop :=
  s.pc = .wait ∧ l = .epollWait none ∧
    (s.triggered = s.listenSocketTcp ∨ s.triggered = s.listenSocketUdp)

variable [DecidableEq ω] {b c : Watched ω} {l : Label ω}

/-- After a failure nothing is reported, and a call is made all the same. -/
theorem State.WaitFails.not_acts (hl : b.server.WaitFails l) :
    ∃ c, b.next l = some c ∧ ¬ ActsOnReports c := by
  obtain ⟨hpc, rfl, htriggered⟩ := hl
  refine ⟨⟨b.server.epollWait none, none⟩, ?_, fun h => ?_⟩
  · rw [Watched.next, next_epollWait.mpr ⟨hpc, rfl⟩]
    rfl
  · by_cases htcp : b.server.triggered = b.server.listenSocketTcp
    · cases h.accept (if_pos htcp)
    · have hudp := htriggered.resolve_left htcp
      cases h.recvfrom ((if_neg htcp).trans (if_pos hudp))

/-- Any other step acts on what was reported. -/
theorem ActsOnReports.next (h : ActsOnReports b) (hl : ¬ b.server.WaitFails l)
    (hc : b.next l = some c) : ActsOnReports c := by
  obtain ⟨t, ht, rfl⟩ := Option.map_eq_some_iff.mp hc
  cases l with
  | epollWait ev =>
    obtain ⟨hpc, rfl⟩ := next_epollWait.mp ht
    -- what is not named by `triggered` is not called
    have htcp : (b.server.epollWait ev).pc = .accept →
        ev.getD b.server.triggered = b.server.listenSocketTcp := by
      intro hpc'
      by_contra hne
      simp only [State.epollWait, if_neg hne] at hpc'
      split at hpc' <;> cases hpc'
    have hudp : (b.server.epollWait ev).pc = .recvfrom →
        ev.getD b.server.triggered = b.server.listenSocketUdp := by
      intro hpc'
      by_contra hne
      simp only [State.epollWait, if_neg hne] at hpc'
      split at hpc' <;> cases hpc'
    cases ev with
    -- a wait that fails leaves `triggered`, so it fails the condition if that names a socket
    | none =>
      exact ⟨fun hpc' => absurd ⟨hpc, rfl, .inl (htcp hpc')⟩ hl,
        fun hpc' => absurd ⟨hpc, rfl, .inr (hudp hpc')⟩ hl⟩
    | some fd =>
      constructor <;> intro hpc'
      · exact congrArg some (htcp hpc')
      · exact congrArg some (hudp hpc')
  | accept =>
    obtain ⟨-, -, rfl⟩ := next_accept.mp ht
    -- behind any other call of `main` neither socket is about to be called
    exact ⟨nofun, nofun⟩
  | recv r =>
    obtain ⟨-, rfl⟩ := next_recv.mp ht
    exact ⟨nofun, nofun⟩
  | recvfrom d a =>
    obtain ⟨-, rfl⟩ := next_recvfrom.mp ht
    exact ⟨nofun, nofun⟩
  | msgsnd =>
    obtain ⟨-, rfl⟩ := next_msgsnd.mp ht
    exact ⟨nofun, nofun⟩
  | worker w ok =>
    have hframe := (serviceRoutine_eq_some ht).frame
    constructor
    · intro hpc
      show b.reported = some t.listenSocketTcp
      rw [hframe.listenSocketTcp]
      exact h.accept (hframe.pc.symm.trans hpc)
    · intro hpc
      show b.reported = some t.listenSocketUdp
      rw [hframe.listenSocketUdp]
      exact h.recvfrom (hframe.pc.symm.trans hpc)

/-- **The `epoll` loop** acts only on what was reported throughout a run exactly when no
    `epoll_wait` of it fails after one that has reported a listening socket. -/
theorem actsOnReports_iff {s : State ω} (hs : s.pc = .wait) (ls : List (Label ω)) :
    Throughout Watched.next ActsOnReports ⟨s, none⟩ ls ↔
      Along State.next (fun s l => ¬ s.WaitFails l) s ls := by
  have hacts : ActsOnReports ⟨s, none⟩ := by
    constructor <;> intro hpc <;> cases hs.symm.trans hpc
  have hserver : ∀ (b : Watched ω) (l : Label ω), (b.next l).map Watched.server = b.server.next l :=
    fun _ _ => map_map_of_leftInverse (fun _ => rfl) _
  rw [← along_map hserver (C := fun s l => ¬ s.WaitFails l) ⟨s, none⟩ ls]
  apply throughout_iff_never (I := fun _ => True) _ _ _ trivial hacts ls
  · exact fun _ _ _ _ _ _ => trivial
  · exact fun b l _ hl => hl.not_acts
  · exact fun b l c _ hb hl hc => hb.next hl hc

/-- **Both multiplexing servers** act only on reported readiness exactly as long as no wait fails
    that leaves a listening socket in its result object — any `select`, and an `epoll_wait` after a
    report — and, for the replies of the `select` server, no `recvfrom` fails. -/
theorem multiplexing_iff (ω : Type) [DecidableEq ω] :
    (∀ s : State ω, s.pc = .wait → ∀ ls,
      Throughout Watched.next ActsOnReports ⟨s, none⟩ ls ↔
        Along State.next (fun s l => ¬ s.WaitFails l) s ls) ∧
    (∀ s : Select.State, s.pc = .select → ∀ ls,
      Throughout Select.State.next Select.ActsOnReports s ls ↔
        Along Select.State.next (fun s l => ¬ s.WaitFails l) s ls) :=
  ⟨fun _ hs ls => actsOnReports_iff hs ls, fun _ hs ls => Select.actsOnReports_iff hs ls⟩

/-- A failed `epoll_wait` before the first report, and a turn of the `select` server with both
    sockets ready. -/
theorem multiplexing_without_failure :
    Throughout Watched.next ActsOnReports ⟨idle, none⟩
        [.epollWait none, .epollWait (some 4), .recvfrom ⟨[72, 105], by decide⟩ ⟨2, 1⟩, .msgsnd] ∧
      Throughout Select.State.next Select.ActsOnReports Select.idle
        [.select (some ⟨true, true⟩), .accept 5 ⟨2130706433, 4000⟩, .send,
          .recvfrom (some ⟨⟨[72, 105], by decide⟩, ⟨2130706433, 4001⟩⟩), .sendto] := by
  constructor
  · refine ((multiplexing_iff Bool).1 idle rfl _).mpr ?_
    simp [Along, State.WaitFails, idle]
  · refine ((multiplexing_iff Bool).2 Select.idle rfl _).mpr ?_
    simp [Along, Select.State.WaitFails]

/-- An `epoll_wait` that fails after a datagram leads to a second `recvfrom`, and a `select` that
    fails to an `accept`. -/
theorem not_multiplexing_of_failure :
    ¬ Throughout Watched.next ActsOnReports ⟨idle, none⟩
        [.epollWait (some 4), .recvfrom ⟨[72, 105], by decide⟩ ⟨2, 1⟩, .msgsnd,
          .epollWait none] ∧
      ¬ Throughout Select.State.next Select.ActsOnReports Select.idle [.select none] := by
  constructor
  · intro h
    have hacts := h _ _ (List.prefix_refl _) rfl
    cases hacts.recvfrom rfl
  · intro h
    have hacts := h _ _ (List.prefix_refl _) rfl
    obtain ⟨ready, hready, -⟩ := hacts.accept rfl
    cases hready

end EltexHomeworks.ServerQueue
