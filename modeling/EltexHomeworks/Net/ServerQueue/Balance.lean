import EltexHomeworks.Net.ServerQueue.Books

namespace EltexHomeworks.ServerQueue

open EltexHomeworks.Lib

/-!
# Request queue — the balance of descriptors

* `Balanced` — what every request serviced has opened is closed, once, and an idle server has
  nothing open but what it began with;
* `Books.balanced_iff` — that is, no open descriptor belongs to a request that was serviced;
* `balanced_throughout_iff` — it holds throughout a run exactly when no reply of it fails to go out.
-/

variable {ω : Type}

/-- Every descriptor opened for a request that was serviced is closed again, once; with nothing in
    the queue and every thread asleep, nothing is open but what the server began with, and the
    connection of the request `main` is about to put into the queue, if there is one. -/
structure Balanced (b : Audited ω) : Prop where
  once : ∀ r ∈ b.server.serviced, r ∈ b.ledger.opened → b.ledger.closed.count r = 1
  idle : b.server.queue = [] → (∀ w, (b.server.workers w).pc = .sleep) →
    ∀ fd sock, b.server.fds.get? fd = some sock →
      sock = .own ∨ b.server.pc.enqueues = true ∧ sock = .connection b.server.request.id

/-- The `send` or `sendto` of a reply fails. -/
def State.ReplyFails (s : State ω) : Label ω → Prop
  | .worker w ok =>
    ok = false ∧ ((s.workers w).pc = .workTcp ∨ ∃ fd a, (s.workers w).pc = .sendtoUdp fd a)
  | _ => False

variable {b : Audited ω}

/-- The descriptors are balanced as long as none belongs to a request that was serviced. -/
theorem Books.balanced_iff (h : Books b) :
    Balanced b ↔ ∀ fd r, b.ledger.owner fd = some r → r ∉ b.server.serviced := by
  constructor
  · intro hbalanced fd r howner hserviced
    have hopened : r ∈ b.ledger.opened := (h.sound.account r).mpr (.inr ⟨fd, howner⟩)
    exact (h.sound.count_closed hopened).mp (hbalanced.once r hserviced hopened) fd howner
  · intro hnone
    constructor
    · intro r hserviced hopened
      exact (h.sound.count_closed hopened).mpr fun fd howner => hnone fd r howner hserviced
    · intro hqueue hsleep fd sock hfd
      -- a request with an open descriptor is somewhere: only the main loop has any
      have hmain : ∀ r, b.ledger.owner fd = some r →
          b.server.pc.enqueues = true ∧ b.server.request.id = r := by
        intro r howner
        have hopened : r ∈ b.ledger.opened := (h.sound.account r).mpr (.inr ⟨fd, howner⟩)
        obtain ⟨l, hl⟩ := h.service.once.placed r (h.known r hopened)
        cases l with
        | enqueuing =>
          by_cases henq : b.server.pc.enqueues = true
          · rw [occupant_enqueuing henq] at hl
            exact ⟨henq, Option.some.inj hl⟩
          · rw [occupant_enqueuing_eq_none (Bool.eq_false_iff.mpr henq)] at hl
            cases hl
        | queued k =>
          rw [State.occupant, hqueue] at hl
          cases hl
        | held w =>
          rw [occupant_held_eq_none (by rw [hsleep w]; rfl)] at hl
          cases hl
        | serviced k => exact absurd (List.mem_of_getElem? hl) (hnone fd r howner)
      -- what is still open is the server's own, or of the request that `main` has
      have howned := h.owned fd
      rw [hfd] at howned
      cases sock with
      | own => exact .inl rfl
      | connection r =>
        obtain ⟨henq, hid⟩ := hmain r howned
        exact .inr ⟨henq, by rw [hid]⟩
      | sender w =>
        obtain ⟨r, a, howner, htaken⟩ := howned
        have hopened : r ∈ b.ledger.opened := (h.sound.account r).mpr (.inr ⟨fd, howner⟩)
        rcases h.opened r a hopened htaken with hserviced | ⟨v, -, hv⟩
        · exact absurd hserviced (hnone fd r howner)
        · -- a thread that sleeps has no socket
          rw [hsleep v] at hv
          exact absurd rfl hv

variable [DecidableEq ω]

/-- A reply that fails leaves the descriptor of a serviced request open. -/
theorem Books.reply_fails (h : Books b) {l : Label ω} (hl : b.server.ReplyFails l) :
    ∃ c, b.next l = some c ∧ ¬ Balanced c := by
  cases l with
  | worker w ok =>
    obtain ⟨rfl, hpc⟩ := hl
    -- the call fails, and the request counts as serviced
    have hfails : b.server.CallFails w (.worker w false) := ⟨rfl, hpc.imp_right .inr⟩
    obtain ⟨ret, hret, ht⟩ := hfails.next
    have hentry : b.server.entry b.ledger (.worker w false) = b.ledger := by
      rcases hpc with hpc | ⟨fd, a, hpc⟩ <;> simp only [State.entry, hpc]
    have hc : b.next (.worker w false) = some ⟨b.server.finish w ret, b.ledger⟩ := by
      rw [Audited.next, ht, Option.map_some, hentry]
    -- and it has a descriptor
    have howner : ∃ fd, b.ledger.owner fd = some (b.server.workers w).request.id := by
      rcases hpc with hpc | ⟨fd, a, hpc⟩
      · have hat := h.service.workers w
        rw [hpc] at hat
        have howned := h.owned (b.server.workers w).request.msg.data.fd
        rw [(hat.1.of_tcp hat.2).2] at howned
        exact ⟨_, howned⟩
      · exact ⟨fd, h.socket w fd (by rw [hpc]; rfl)⟩
    obtain ⟨fd, howner⟩ := howner
    refine ⟨_, hc, fun hbalanced => ?_⟩
    refine (h.next hc).balanced_iff.mp hbalanced fd _ howner ?_
    rw [State.finish, if_neg hret]
    exact List.mem_append_right _ (List.mem_singleton_self _)
  | epollWait ev => exact hl.elim
  | accept => exact hl.elim
  | recv r => exact hl.elim
  | recvfrom d a => exact hl.elim
  | msgsnd => exact hl.elim

/-- Any other step keeps the balance. -/
theorem Books.keeps_balance (h : Books b) (hb : Balanced b) {l : Label ω} {c : Audited ω}
    (hl : ¬ b.server.ReplyFails l) (hc : b.next l = some c) : Balanced c := by
  rw [(h.next hc).balanced_iff]
  have hnone := h.balanced_iff.mp hb
  obtain ⟨t, ht, rfl⟩ := Option.map_eq_some_iff.mp hc
  intro fd r
  rcases entry_cases (g := b.ledger) ht with
    ⟨-, rfl, hentry⟩ | ⟨w, hpc, rfl, hentry⟩ | ⟨w, fd', hpc, rfl, hentry⟩ | ⟨hq, hentry⟩ <;>
    rw [hentry] <;> intro howner
  · -- the connection belongs to the request that is taken
    by_cases hfd : fd = b.server.fds.lowestFree
    · rw [hfd, Ledger.owner_opening_self] at howner
      intro hmem
      obtain ⟨k, hk⟩ := List.getElem?_of_mem hmem
      have hlt := h.service.once.known_of_placed (.serviced k) r hk
      rw [← Option.some.inj howner] at hlt
      exact Nat.lt_irrefl _ hlt
    · rw [Ledger.owner_opening_of_ne hfd] at howner
      exact hnone fd r howner
  · -- the socket belongs to the request the thread has
    by_cases hfd : fd = b.server.fds.lowestFree
    · rw [hfd, Ledger.owner_opening_self] at howner
      rw [← Option.some.inj howner]
      exact (h.held (w := w) (by rw [hpc]; rfl)).1
    · rw [Ledger.owner_opening_of_ne hfd] at howner
      exact hnone fd r howner
  · -- what belonged to the request that is serviced now is closed
    have hfd : fd ≠ fd' := by
      rintro rfl
      rw [Ledger.owner_closing_self] at howner
      cases howner
    rw [Ledger.owner_closing_of_ne hfd] at howner
    intro hmem
    rcases List.mem_append.mp hmem with hmem | hmem
    · exact hnone fd r howner hmem
    · rw [List.mem_singleton.mp hmem] at howner
      exact hfd (h.sound.unique fd fd' _ howner (h.owner_close hpc))
  · intro hmem
    rcases hq.serviced with heq | ⟨w, ⟨rfl, hpc⟩, heq⟩
    · exact hnone fd r howner (heq ▸ hmem)
    · rw [show State.serviced _ = _ from heq] at hmem
      rcases List.mem_append.mp hmem with hmem | hmem
      · exact hnone fd r howner hmem
      · -- the one failure left is that of `socket`, which has opened nothing
        have hudp : (b.server.workers w).pc = .workUdp := by
          rcases hpc with hpc | hpc | hpc
          · exact absurd ⟨rfl, .inl hpc⟩ hl
          · exact hpc
          · exact absurd ⟨rfl, .inr hpc⟩ hl
        rw [List.mem_singleton.mp hmem] at howner
        exact (h.not_opened hudp).1 ((h.sound.account _).mpr (.inr ⟨fd, howner⟩))

/-- **Descriptor balance.**  However many threads there are and however their steps and those of
    the main loop are interleaved: the descriptors are balanced throughout a run exactly when no
    `send` and no `sendto` of a reply fails in it. -/
theorem balanced_throughout_iff {s : State ω} (hs : Starts s) (ls : List (Label ω)) :
    Throughout Audited.next Balanced ⟨s, .empty⟩ ls ↔
      Along State.next (fun s l => ¬ s.ReplyFails l) s ls := by
  have hbooks := books_of_starts hs
  have hbalanced : Balanced ⟨s, .empty⟩ := hbooks.balanced_iff.mpr fun _ _ h => by cases h
  have hserver : ∀ (b : Audited ω) (l : Label ω), (b.next l).map Audited.server = b.server.next l :=
    fun _ _ => map_map_of_leftInverse (fun _ => rfl) _
  rw [← along_map hserver (C := fun s l => ¬ s.ReplyFails l) ⟨s, .empty⟩ ls]
  apply throughout_iff_never (I := Books) _ _ _ hbooks hbalanced ls
  · exact fun b l c h _ hc => h.next hc
  · exact fun b l h hl => h.reply_fails hl
  · exact fun b l c h hb hl hc => h.keeps_balance hb hl hc

/-- A request of each kind is served, with a socket for the second that has the number of the
    first one's connection. -/
theorem balanced_throughout_two :
    Throughout Audited.next Balanced ⟨idle, .empty⟩
      [.epollWait (some 3), .accept, .recv .endOfStream, .msgsnd, .worker true true,
        .worker true true, .worker true true, .worker true true, .epollWait (some 4),
        .recvfrom ⟨[72, 105], by decide⟩ ⟨2, 1⟩, .msgsnd, .worker false true, .worker false true,
        .worker false true, .worker false true, .worker false true] := by
  refine (balanced_throughout_iff starts_idle _).mpr ?_
  simp [Along, State.ReplyFails]

/-- The reply to a connection fails: with both threads asleep again it is still open. -/
theorem not_balanced_of_send_fails :
    ¬ Throughout Audited.next Balanced ⟨idle, .empty⟩
      [.epollWait (some 3), .accept, .recv .endOfStream, .msgsnd, .worker true true,
        .worker true true, .worker true false] := by
  have hrun : (Lib.run Audited.next ⟨idle, .empty⟩
      [.epollWait (some 3), .accept, .recv .endOfStream, .msgsnd, .worker true true,
        .worker true true, .worker true false]).map
      (fun b => (b.server.serviced, b.ledger.opened, b.ledger.closed)) =
        some ([0], [0], []) := by
    decide +kernel
  obtain ⟨b, hb, heq⟩ := Option.map_eq_some_iff.mp hrun
  obtain ⟨hserviced, heq⟩ := Prod.mk.inj heq
  obtain ⟨hopened, hclosed⟩ := Prod.mk.inj heq
  intro hall
  have hcount := (hall _ b (List.prefix_refl _) hb).once 0 (by rw [hserviced]; simp)
    (by rw [hopened]; simp)
  rw [hclosed] at hcount
  cases hcount

end EltexHomeworks.ServerQueue
