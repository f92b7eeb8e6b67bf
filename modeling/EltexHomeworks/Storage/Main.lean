import EltexHomeworks.Storage.Completion

namespace EltexHomeworks.Storage

open EltexHomeworks.Lib

/-!
# Storage — `main` and the life of its threads

`main` creates the loader and the buyers, waits for the buyers one after the other, cancels the
loader and waits for it.  `Program` adds this to the threads of `storage`: a thread takes steps from
its creation until the process ends, and the loader, once it is cancelled, ends at a cancellation
point, which is a place where it writes or sleeps.

* `lifecycle_of_reachable` — a run of the program is a run of its threads, who live as `main` says;
* `main_leads_exit` — `main` can always come to its last line;
* `served_at_exit` — what holds there.
-/

/-- Where `main` is; `createBuyer i` and `joinBuyer i` are turns of its loops. -/
inductive MainPc
  | createLoader
  | createBuyer (i : Nat)
  | joinBuyer (i : Nat)
  | cancel
  | joinLoader
  | EXIT_SUCCESS
  | EXIT_FAILURE
deriving DecidableEq, Repr

/-- The threads that exist. -/
def MainPc.created {n : Nat} : MainPc → Thread n → Bool
  | .createLoader, _ => false
  | .createBuyer _, .loader => true
  | .createBuyer i, .buyer b => b < i
  | .joinBuyer _, _ => true
  | .cancel, _ => true
  | .joinLoader, _ => true
  | .EXIT_SUCCESS, _ => false
  | .EXIT_FAILURE, _ => false

/-- Whether the loader is at a cancellation point.  Between two calls of `pthread_mutex_lock` and
    between two of `pthread_mutex_unlock` there is none. -/
def LoaderPc.cancellable : LoaderPc → Bool
  | .lock _ k => k == 0
  | .release _ k => k == 0
  | _ => true

/-- The whole program. -/
structure Program (n : Nat) where
  store : State n
  main : MainPc
  /-- `pthread_cancel(tid_loader)` was called. -/
  cancelled : Bool
  /-- The loader has ended. -/
  gone : Bool

/-- A step: `main`, with the success of `pthread_create`, a thread, or the end of the loader. -/
inductive Event (n : Nat)
  | main (ok : Bool)
  | thread (l : Label n)
  | gone

namespace Program

variable {n : Nat}

/-- A step of `main`; `none` while `pthread_join` waits, and when the process has ended.  It waits
    for the buyers in the order of their creation, and then cancels the loader. -/
def mainStep (p : Program n) (ok : Bool) : Option (Program n) :=
  match p.main with
  | .createLoader => some { p with main := if ok then .createBuyer 0 else .EXIT_FAILURE }
  | .createBuyer i =>
    if i < n then some { p with main := if ok then .createBuyer (i + 1) else .EXIT_FAILURE }
    else some { p with main := .joinBuyer 0 }
  | .joinBuyer i =>
    if h : i < n then
      if p.store.buyer ⟨i, h⟩ = .done then some { p with main := .joinBuyer (i + 1) } else none
    else some { p with main := .cancel }
  | .cancel => some { p with main := .joinLoader, cancelled := true }
  | .joinLoader => if p.gone then some { p with main := .EXIT_SUCCESS } else none
  | .EXIT_SUCCESS => none
  | .EXIT_FAILURE => none

/-- A step of the program: one of `main`, one of a thread that has been created and is not gone,
    or the end of the loader at a point where the cancellation is acted upon. -/
def next (p : Program n) : Event n → Option (Program n)
  | .main ok => p.mainStep ok
  | .thread l =>
    if p.main.created l.thread && !(l.thread == .loader && p.gone) then
      (p.store.next l).map fun s => { p with store := s }
    else none
  | .gone =>
    if p.main.created (n := n) .loader && p.cancelled && p.store.loader.cancellable then
      some { p with gone := true }
    else none

/-- The program when the storage is filled. -/
def start (n : Nat) (rand : Room → Nat) : Program n :=
  ⟨State.start n rand, .createLoader, false, false⟩

end Program

/-- The program with `n` buyers. -/
def program (n : Nat) (rand : Room → Nat) : TransitionSystem (Program n) (Event n) :=
  .ofStep (· = Program.start n rand) Program.next

variable {n : Nat} {p q : Program n} {rand : Room → Nat}

/-! ### The life of the threads -/

/-- The buyers that `main` has waited for. -/
def MainPc.joined : MainPc → Nat → Prop
  | .joinBuyer i, b => b < i
  | .cancel, _ => True
  | .joinLoader, _ => True
  | .EXIT_SUCCESS, _ => True
  | _, _ => False

/-- The loader may be cancelled. -/
def MainPc.cancels (pc : MainPc) : Prop := pc = .joinLoader ∨ pc = .EXIT_SUCCESS

/-- A buyer that has left does not come back. -/
theorem done_next {s t : State n} {l : Label n} {b : Fin n} (hst : s.next l = some t)
    (h : s.buyer b = .done) : t.buyer b = .done := by
  obtain ⟨thread, r⟩ := l
  cases thread with
  | loader => exact ((loaderStep_cases hst).others b).1.trans h
  | buyer b' =>
    by_cases hb : b = b'
    · subst hb
      have hnone : s.buyerStep b r = none := by rw [State.buyerStep, h]
      have hst' : s.buyerStep b r = some t := hst
      rw [hnone] at hst'
      cases hst'
    · exact ((buyerStep_cases hst).others hb).1.trans h

/-- Whom `main` has waited for has left, and the loader ends only when it is cancelled. -/
structure Lifecycle (n : Nat) (rand : Room → Nat) (p : Program n) : Prop where
  store : (storage n rand).Reachable p.store
  done : ∀ b : Fin n, p.main.joined b → p.store.buyer b = .done
  cancelled : p.cancelled = true ↔ p.main.cancels
  gone : p.gone = true → p.cancelled = true

/-- `main` goes on before it has cancelled the loader. -/
theorem Lifecycle.goto (h : Lifecycle n rand p) {pc : MainPc} (hbefore : ¬ p.main.cancels)
    (hafter : ¬ pc.cancels) (hdone : ∀ b : Fin n, pc.joined b → p.store.buyer b = .done) :
    Lifecycle n rand { p with main := pc } :=
  ⟨h.store, hdone, iff_of_false (fun hc => hbefore (h.cancelled.mp hc)) hafter, h.gone⟩

theorem not_cancels {pc : MainPc} (hne : pc ≠ .joinLoader) (hne' : pc ≠ .EXIT_SUCCESS) :
    ¬ pc.cancels :=
  fun h => h.elim hne hne'

/-- A step of `main`. -/
theorem Lifecycle.mainStep {ok : Bool} (h : Lifecycle n rand p) (hst : p.mainStep ok = some q) :
    Lifecycle n rand q := by
  unfold Program.mainStep at hst
  cases hpc : p.main with
  | createLoader =>
    rw [hpc] at hst
    cases hst
    -- a `pthread_create` that fails leads to `exit`, which is behind no join either
    have hbefore : ¬ p.main.cancels := by rw [hpc]; exact not_cancels nofun nofun
    cases ok with
    | true => exact h.goto hbefore (not_cancels nofun nofun) fun b hb => absurd hb id
    | false => exact h.goto hbefore (not_cancels nofun nofun) fun b hb => absurd hb id
  | createBuyer i =>
    rw [hpc] at hst
    have hbefore : ¬ p.main.cancels := by rw [hpc]; exact not_cancels nofun nofun
    dsimp only at hst
    split at hst
    · cases hst
      cases ok with
      | true => exact h.goto hbefore (not_cancels nofun nofun) fun b hb => absurd hb id
      | false => exact h.goto hbefore (not_cancels nofun nofun) fun b hb => absurd hb id
    · cases hst
      exact h.goto hbefore (not_cancels nofun nofun) fun b hb => absurd hb (Nat.not_lt_zero _)
  | joinBuyer i =>
    rw [hpc] at hst
    have hbefore : ¬ p.main.cancels := by rw [hpc]; exact not_cancels nofun nofun
    have hjoined : ∀ b : Fin n, b < i → p.store.buyer b = .done :=
      fun b hb => h.done b (by rw [hpc]; exact hb)
    dsimp only at hst
    split at hst
    · rename_i hi
      obtain ⟨hdone, hst⟩ := Option.ite_none_right_eq_some.mp hst
      cases hst
      refine h.goto hbefore (not_cancels nofun nofun) fun b hb => ?_
      -- the threads joined are those joined before and this one
      rcases Nat.lt_succ_iff_lt_or_eq.mp hb with hlt | heq
      · exact hjoined b hlt
      · rw [show b = ⟨i, hi⟩ from Fin.ext heq]
        exact hdone
    · cases hst
      exact h.goto hbefore (not_cancels nofun nofun) fun b _ => hjoined b (by omega)
  | cancel =>
    rw [hpc] at hst
    cases hst
    -- behind `pthread_cancel` the loader may go, and only there
    exact ⟨h.store, fun b _ => h.done b (by rw [hpc]; trivial), iff_of_true rfl (.inl rfl),
      fun _ => rfl⟩
  | joinLoader =>
    rw [hpc] at hst
    obtain ⟨hgone, hst⟩ := Option.ite_none_right_eq_some.mp hst
    cases hst
    exact ⟨h.store, fun b _ => h.done b (by rw [hpc]; trivial),
      iff_of_true (h.gone hgone) (.inr rfl), h.gone⟩
  | EXIT_SUCCESS => rw [hpc] at hst; cases hst
  | EXIT_FAILURE => rw [hpc] at hst; cases hst

/-- **Every step** of the program. -/
theorem Lifecycle.next {e : Event n} (h : Lifecycle n rand p) (hst : p.next e = some q) :
    Lifecycle n rand q := by
  cases e with
  | main ok => exact h.mainStep hst
  | thread l =>
    obtain ⟨-, hst⟩ := Option.ite_none_right_eq_some.mp hst
    obtain ⟨s, hs, rfl⟩ := Option.map_eq_some_iff.mp hst
    exact ⟨.step h.store hs, fun b hb => done_next hs (h.done b hb), h.cancelled, h.gone⟩
  | gone =>
    obtain ⟨hguard, hst⟩ := Option.ite_none_right_eq_some.mp hst
    cases hst
    simp only [Bool.and_eq_true] at hguard
    exact ⟨h.store, h.done, h.cancelled, fun _ => hguard.1.2⟩

/-- **The threads of the program** are those of `storage`, and live as `main` says: whom it has
    joined has ended, and the loader goes only when it is cancelled. -/
theorem lifecycle_of_reachable (hp : (program n rand).Reachable p) : Lifecycle n rand p := by
  have hinv : (program n rand).Invariant (Lifecycle n rand) :=
    { base := by
        rintro p rfl
        exact ⟨.init rfl, fun b hb => absurd hb id,
          iff_of_false Bool.false_ne_true (not_cancels nofun nofun), nofun⟩
      keep := fun p e q h hst => h.next hst }
  exact hinv.of_reachable hp

/-! ### The end -/

/-- `main` can come to its last line. -/
def Exits (p : Program n) : Prop := ∃ q, Leads Program.next p q ∧ q.main = .EXIT_SUCCESS

theorem Exits.of_leads (h : Exits q) (hpq : Leads Program.next p q) : Exits p :=
  h.imp fun _ hq => ⟨hpq.trans hq.1, hq.2⟩

theorem Exits.of_main {ok : Bool} (h : Exits q) (hst : p.mainStep ok = some q) : Exits p :=
  h.of_leads (.of_next (a := .main ok) hst)

/-- What the threads lead to, the program leads to, while all of them exist. -/
theorem leads_of_store {t : State n} (hall : ∀ thread : Thread n, p.main.created thread = true)
    (hgone : p.gone = false) (h : Leads State.next p.store t) :
    Leads Program.next p { p with store := t } := by
  obtain ⟨ls, hrun⟩ := h
  induction ls generalizing p with
  | nil =>
    cases hrun
    exact .refl p
  | cons l ls ih =>
    obtain ⟨s, hs, hrun⟩ := run_cons_eq_some.mp hrun
    have hst : p.next (.thread l) = some { p with store := s } := by
      rw [Program.next, hall l.thread, hgone, hs, Bool.and_false]
      rfl
    exact (Leads.of_next hst).trans (ih (p := { p with store := s }) hall hgone hrun)

/-- `main` waits for the loader. -/
theorem exits_of_joinLoader (h : Lifecycle n rand p) (hpc : p.main = .joinLoader) : Exits p := by
  have hcancelled : p.cancelled = true := h.cancelled.mpr (.inl hpc)
  have hlast : ∀ q : Program n, q.main = .joinLoader → q.gone = true → Exits q := by
    intro q hq hgone
    have hst : q.mainStep true = some { q with main := .EXIT_SUCCESS } := by
      rw [Program.mainStep, hq]
      exact if_pos hgone
    exact ⟨_, .of_next (a := .main true) hst, rfl⟩
  cases hgone : p.gone with
  | true => exact hlast p hpc hgone
  | false =>
    -- the buyers have left, so the loader comes to its next check
    have hrest : ∀ b, (p.store.buyer b).AtRest := fun b => .inr (h.done b (by rw [hpc]; trivial))
    obtain ⟨t, ht, -, i, hi⟩ := loader_rests h.store hrest
    have hlead := leads_of_store (by rw [hpc]; exact fun _ => rfl) hgone ht
    have hst : Program.next { p with store := t } .gone =
        some { p with store := t, gone := true } := by
      rw [Program.next]
      dsimp only
      rw [hpc, hcancelled, hi]
      rfl
    exact (hlast { p with store := t, gone := true } hpc rfl).of_leads
      (hlead.trans (.of_next hst))

/-- `main` waits for buyers that have left. -/
theorem exits_of_done (h : Lifecycle n rand p) {i : Nat} (hpc : p.main = .joinBuyer i)
    (hdone : ∀ b, p.store.buyer b = .done) : Exits p := by
  induction hk : n - i generalizing p i with
  | zero =>
    have hst : p.mainStep true = some { p with main := .cancel } := by
      rw [Program.mainStep, hpc]
      exact dif_neg (by omega)
    have hst' : Program.mainStep { p with main := .cancel } true =
        some { p with main := .joinLoader, cancelled := true } := rfl
    exact ((exits_of_joinLoader ((h.mainStep hst).mainStep hst') rfl).of_main hst').of_main hst
  | succ k ih =>
    have hi : i < n := by omega
    have hst : p.mainStep true = some { p with main := .joinBuyer (i + 1) } := by
      rw [Program.mainStep, hpc]
      exact (dif_pos hi).trans (if_pos (hdone _))
    exact (ih (h.mainStep hst) rfl hdone (by omega)).of_main hst

/-- `main` waits for a buyer. -/
theorem exits_of_joinBuyer (h : Lifecycle n rand p) {i : Nat} (hpc : p.main = .joinBuyer i) :
    Exits p := by
  have hgone : p.gone = false := by
    refine Bool.eq_false_iff.mpr fun hgone => ?_
    have hcancels := h.cancelled.mp (h.gone hgone)
    rw [hpc] at hcancels
    exact absurd hcancels (not_cancels nofun nofun)
  obtain ⟨t, ht, hdone⟩ := leads_all_done h.store
  have hlead := leads_of_store (by rw [hpc]; exact fun _ => rfl) hgone ht
  have ht' : Lifecycle n rand { p with store := t } :=
    ⟨reachable_of_leads h.store ht, fun b _ => hdone b, h.cancelled, h.gone⟩
  exact (exits_of_done ht' hpc hdone).of_leads hlead

/-- `main` creates the buyers. -/
theorem exits_of_createBuyer (h : Lifecycle n rand p) {i : Nat} (hpc : p.main = .createBuyer i) :
    Exits p := by
  induction hk : n - i generalizing p i with
  | zero =>
    have hst : p.mainStep true = some { p with main := .joinBuyer 0 } := by
      rw [Program.mainStep, hpc]
      exact if_neg (by omega)
    exact (exits_of_joinBuyer (h.mainStep hst) rfl).of_main hst
  | succ k ih =>
    have hst : p.mainStep true = some { p with main := .createBuyer (i + 1) } := by
      rw [Program.mainStep, hpc]
      exact if_pos (by omega)
    exact (ih (h.mainStep hst) rfl (by omega)).of_main hst

/-- **The program can always finish.**  From every state of every run in which no thread could not
    be created, the threads can go on so that `main` comes to its last line. -/
theorem main_leads_exit (hp : (program n rand).Reachable p) (hmain : p.main ≠ .EXIT_FAILURE) :
    ∃ es q, run Program.next p es = some q ∧ q.main = .EXIT_SUCCESS := by
  have h := lifecycle_of_reachable hp
  suffices hexits : Exits p by
    obtain ⟨q, ⟨es, hrun⟩, hq⟩ := hexits
    exact ⟨es, q, hrun, hq⟩
  cases hpc : p.main with
  | createLoader =>
    have hst : p.mainStep true = some { p with main := .createBuyer 0 } := by
      rw [Program.mainStep, hpc]
      rfl
    exact (exits_of_createBuyer (h.mainStep hst) rfl).of_main hst
  | createBuyer i => exact exits_of_createBuyer h hpc
  | joinBuyer i => exact exits_of_joinBuyer h hpc
  | cancel =>
    have hst : p.mainStep true = some { p with main := .joinLoader, cancelled := true } := by
      rw [Program.mainStep, hpc]
    exact (exits_of_joinLoader (h.mainStep hst) rfl).of_main hst
  | joinLoader => exact exits_of_joinLoader h hpc
  | EXIT_SUCCESS => exact ⟨p, .refl p, hpc⟩
  | EXIT_FAILURE => exact absurd hpc hmain

theorem main_leads_exit_start : ∃ es q, run Program.next (Program.start 3 fun _ => 0) es = some q ∧
    q.main = .EXIT_SUCCESS :=
  main_leads_exit (show (program 3 fun _ => 0).Reachable _ from .init rfl) nofun

/-- A visit of the only buyer. -/
def visit (room : Nat) : List (Event 1) :=
  .thread ⟨.buyer 0, room⟩ :: List.replicate 5 (.thread ⟨.buyer 0, 0⟩)

/-- The loader fills an empty room and comes to the next one. -/
def fill : List (Event 1) := List.replicate 16 (.thread ⟨.loader, 200⟩)

/-- A run with one buyer until `main` waits for the loader, which has filled one room more and has
    locked the first mutex. -/
def untilJoin : List (Event 1) :=
  List.replicate 3 (.main true) ++
    (visit 0 ++ visit 1 ++ visit 2 ++ visit 3 ++ visit 4) ++
    (fill ++ fill ++ fill ++ fill ++ fill) ++
    (visit 0 ++ visit 1 ++ visit 2 ++ visit 3 ++ visit 4) ++ (fill ++ fill) ++ visit 0 ++ visit 1 ++
    [.thread ⟨.buyer 0, 0⟩] ++ List.replicate 3 (.main true) ++
    List.replicate 5 (.thread ⟨.loader, 0⟩)

/-- From there to the end: the loader is cancelled before it prints the rooms. -/
def untilExit : List (Event 1) :=
  untilJoin ++ [.thread ⟨.loader, 0⟩, .thread ⟨.loader, 0⟩, .gone, .main true]

/-- **What holds at the last line of `main`.**  All buyers have left, each with what it wanted and
    less than 1200 more; what they took and what is in the rooms is what was there and what was
    loaded; and if a mutex is locked, it is the loader that was cancelled while it held it. -/
theorem served_at_exit (hp : (program n rand).Reachable p) (hexit : p.main = .EXIT_SUCCESS) :
    (∀ b, p.store.buyer b = .done ∧ 10000 ≤ p.store.goods b ∧ p.store.goods b ≤ 11199) ∧
    ∑ room, ((State.filling (rand room)).toNat : Int) + p.store.loaded =
      ∑ room, ((p.store.rooms room).toNat : Int) + ∑ b, (p.store.goods b : Int) ∧
    ∀ k t, p.store.mutex k = some t → t = .loader := by
  have h := lifecycle_of_reachable hp
  have hdone : ∀ b, p.store.buyer b = .done := fun b => h.done b (by rw [hexit]; trivial)
  have hbooks := books_of_reachable h.store
  have haccounts := accounts_of_reachable h.store
  refine ⟨fun b => ⟨hdone b, ?_, hbooks.goods_le b⟩, ?_, fun k t ht => ?_⟩
  · have hdemand := hbooks.demand b
    have hmet := haccounts.met b (hdone b)
    omega
  · have hbought : ∀ b, p.store.bought b = p.store.goods b := by
      intro b
      rw [State.bought, State.pending_of_ne (by rw [hdone b]; exact fun _ h => by cases h),
        hbooks.demand b]
      omega
    rw [hbooks.balance, State.stock, Finset.sum_congr rfl fun b _ => hbought b]
  · cases t with
    | loader => rfl
    | buyer b =>
      have hin : (p.store.buyer b).inside k := (held_of_reachable h.store).owned _ k ht
      rw [hdone b] at hin
      exact absurd hin id

theorem served_at_exit_locked : ∃ p : Program 1, p.main = .EXIT_SUCCESS ∧
    p.store.mutex 0 = some .loader ∧ 10000 ≤ p.store.goods 0 := by
  have hend : (run Program.next (Program.start 1 fun _ => 200) untilExit).any (fun p =>
    p.main == .EXIT_SUCCESS && p.store.mutex 0 == some .loader) = true := by decide +kernel
  obtain ⟨p, hrun, hp⟩ := (Option.any_eq_true _ _).mp hend
  simp only [Bool.and_eq_true, beq_iff_eq] at hp
  have hreach : (program 1 fun _ => 200).Reachable p :=
    TransitionSystem.Reachable.run (.init rfl) hrun
  exact ⟨p, hp.1, hp.2, ((served_at_exit hreach hp.1).1 0).2.1⟩

/-! ### The end of the loader -/

/-- The steps of the loader to its next cancellation point. -/
def LoaderPc.toCancel (n : Nat) : LoaderPc → Nat
  | .lock _ k => if k = 0 then 0 else n + 1 - k + 1
  | .release _ k => if k = 0 then 0 else n + 1 - k + 1
  | _ => 0

theorem LoaderPc.toCancel_le (pc : LoaderPc) : pc.toCancel n ≤ n + 1 := by
  cases pc with
  | lock i k | release i k =>
    rw [toCancel]
    split <;> omega
  | _ => exact Nat.zero_le _

/-- Between two cancellation points the loader comes closer to the second. -/
theorem toCancel_lt {s t : State n} (hm : LoaderMoves s t) (hno : s.loader.cancellable = false) :
    t.loader.toCancel n < s.loader.toCancel n := by
  cases hm with
  | lock i k hpc hk | locked i k hpc hk | release i k hpc hk | released i k hpc hk =>
    -- inside a row of locks or of releases
    rw [hpc] at hno ⊢
    have hk0 : k ≠ 0 := by simpa [LoaderPc.cancellable] using hno
    simp only [LoaderPc.toCancel, if_neg hk0, Nat.succ_ne_zero, if_false]
    omega
  | full i hpc | busy i hpc | leave i hpc => rw [hpc] at hno; cases hno
  | see i hpc _ | enter i hpc _ | load i _ hpc => rw [hpc] at hno; cases hno
  | print i k hpc _ | printed i k hpc _ => rw [hpc] at hno; cases hno

theorem toCancel_pos {pc : LoaderPc} (hno : pc.cancellable = false) : 0 < pc.toCancel n := by
  cases pc with
  | lock i k | release i k =>
    have hk0 : k ≠ 0 := by simpa [LoaderPc.cancellable] using hno
    rw [LoaderPc.toCancel, if_neg hk0]
    exact Nat.succ_pos _
  | _ => cases hno

/-- While `main` waits for the loader, only the loader can go on. -/
theorem next_joinLoader {e : Event n} (h : Lifecycle n rand p) (hpc : p.main = .joinLoader)
    (hgone : p.gone = false) (hno : p.store.loader.cancellable = false)
    (hst : p.next e = some q) :
    q.main = .joinLoader ∧ q.gone = false ∧
      q.store.loader.toCancel n < p.store.loader.toCancel n := by
  cases e with
  | main ok =>
    have hnone : p.mainStep ok = none := by
      rw [Program.mainStep, hpc]
      exact if_neg (by rw [hgone]; exact Bool.false_ne_true)
    rw [Program.next, hnone] at hst
    cases hst
  | gone =>
    rw [Program.next, hno, Bool.and_false] at hst
    cases hst
  | thread l =>
    obtain ⟨-, hst⟩ := Option.ite_none_right_eq_some.mp hst
    obtain ⟨s, hs, rfl⟩ := Option.map_eq_some_iff.mp hst
    obtain ⟨thread, r⟩ := l
    cases thread with
    | loader => exact ⟨hpc, hgone, toCancel_lt (loaderStep_cases hs) hno⟩
    | buyer b =>
      -- the buyers have left
      have hdone : p.store.buyer b = .done := h.done b (by rw [hpc]; trivial)
      have hnone : p.store.buyerStep b r = none := by rw [State.buyerStep, hdone]
      have hs' : p.store.buyerStep b r = some s := hs
      rw [hnone] at hs'
      cases hs'

/-- **`pthread_join(tid_loader)` returns.**  While `main` waits for the loader, nothing blocks the
    loader, and after at most `n` steps of the program it is at a cancellation point, wherever it
    was. -/
theorem loader_ends (hp : (program n rand).Reachable p) (hpc : p.main = .joinLoader)
    (hgone : p.gone = false) {es : List (Event n)} (hrun : run Program.next p es = some q)
    (hno : Throughout Program.next (fun q => q.store.loader.cancellable = false) p es) :
    es.length ≤ n ∧ ∀ r, (q.next (.thread ⟨.loader, r⟩)).isSome := by
  have h := lifecycle_of_reachable hp
  clear hp
  -- only the loader can take a step, and each brings it nearer to a cancellation point
  suffices hmeasure : (Lifecycle n rand q ∧ q.main = .joinLoader ∧ q.gone = false) ∧
      es.length + q.store.loader.toCancel n ≤ p.store.loader.toCancel n ∧
      q.store.loader.cancellable = false by
    obtain ⟨⟨hq, hqpc, hqgone⟩, hle, hend⟩ := hmeasure
    have hpos := toCancel_pos (n := n) hend
    have hbound := LoaderPc.toCancel_le (n := n) p.store.loader
    refine ⟨by omega, fun r => ?_⟩
    have hfree := not_blocked_of_rest (held_of_reachable hq.store)
      fun b => .inr (hq.done b (by rw [hqpc]; trivial))
    have hst : (q.store.loaderStep r).isSome := isSome_loaderStep_iff.mpr hfree
    rw [Program.next, hqpc, hqgone, Bool.and_false]
    show ((q.store.loaderStep r).map _).isSome
    rwa [Option.isSome_map]
  induction es generalizing p with
  | nil =>
    cases hrun
    exact ⟨⟨h, hpc, hgone⟩, by simp, hno [] _ List.prefix_rfl rfl⟩
  | cons e es ih =>
    obtain ⟨u, hu, hrun⟩ := run_cons_eq_some.mp hrun
    obtain ⟨hhere, hrest⟩ := throughout_cons.mp hno
    obtain ⟨hpc', hgone', hlt⟩ := next_joinLoader h hpc hgone hhere hu
    obtain ⟨hq, hle, hend⟩ := ih hpc' hgone' hrun (hrest u hu) (h.next hu)
    exact ⟨hq, by rw [List.length_cons]; omega, hend⟩

/-- The loader between two locks. -/
theorem loader_ends_locking : ∃ p : Program 1, p.main = .joinLoader ∧
    p.store.loader.cancellable = false ∧ ∀ r, (p.next (.thread ⟨.loader, r⟩)).isSome := by
  have hjoin : (run Program.next (Program.start 1 fun _ => 200) untilJoin).any (fun p =>
    p.main == .joinLoader && (p.gone == false && p.store.loader.cancellable == false)) = true := by
    decide +kernel
  obtain ⟨p, hrun, hp⟩ := (Option.any_eq_true _ _).mp hjoin
  simp only [Bool.and_eq_true, beq_iff_eq] at hp
  have hreach : (program 1 fun _ => 200).Reachable p :=
    TransitionSystem.Reachable.run (.init rfl) hrun
  have hhere : Throughout Program.next (fun q => q.store.loader.cancellable = false) p [] :=
    throughout_nil.mpr hp.2.2
  exact ⟨p, hp.1, hp.2.2, (loader_ends hreach hp.1 hp.2.1 rfl hhere).2⟩

end EltexHomeworks.Storage
