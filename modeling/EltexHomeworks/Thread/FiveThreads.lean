import Mathlib.Data.List.Nodup
import Mathlib.Data.List.Range
import EltexHomeworks.Lib.Run

namespace EltexHomeworks.FiveThreads

open EltexHomeworks.Lib

/-!
# Five threads and their numbers

`main.c` of `five_threads` creates two batches of threads that print a number.  The threads of the
first batch all read the loop variable `counter` of `main`, which goes on counting; those of the
second have an element of the array `num` each.  The number of threads is a parameter `n`.

* `first_batch_iff` — the numbers that the first batch can read while `counter` lives;
* `second_batch_iff` — what the second batch can print.
-/

/-- The two batches of threads. -/
inductive Batch
  | first
  | second
deriving DecidableEq, Repr

/-- Where `main` is: a loop that creates, waits or assigns is at its turn `i`, and `next` stands for
    the `++counter` at the end of a turn. -/
inductive MainPc
  | create (b : Batch) (i : Nat)
  | next (b : Batch) (i : Nat)
  | join (b : Batch) (i : Nat)
  | header
  | assign (i : Nat)
  | EXIT_SUCCESS
  | EXIT_FAILURE
deriving DecidableEq, Repr

/-- Where a thread is in `PrintNumber`. -/
inductive ThreadPc
  | absent
  | read
  | print (num : Nat)
  | done
deriving DecidableEq, Repr

/-- What is printed. -/
inductive Line
  | thread (num : Nat)
  | header
deriving DecidableEq, Repr

/-- The process. -/
structure State where
  main : MainPc
  /-- The variable of the first loop, while it lives. -/
  counter : Option Nat
  num : Nat → Nat
  thread : Batch → Nat → ThreadPc
  output : List Line

/-- A step of `main`, with the success of `pthread_create`, or of a thread, with what it reads from
    a variable that lives no more. -/
inductive Label
  | main (ok : Bool)
  | thread (b : Batch) (k : Nat) (stale : Nat)

namespace State

/-- The thread `k` of the batch `b` goes to `pc`. -/
def goto (s : State) (b : Batch) (k : Nat) (pc : ThreadPc) : State :=
  { s with thread := Function.update s.thread b (Function.update (s.thread b) k pc) }

/-- A step of `main`; `none` while `pthread_join` waits, and when the process has ended.  The
    counter of the first loop ends with the loop, and its storage holds anything from then on. -/
def mainStep (n : Nat) (s : State) (ok : Bool) : Option State :=
  match s.main with
  | .create b i =>
    if i < n then
      if ok then some { s.goto b i .read with main := .next b i }
      else some { s with main := .EXIT_FAILURE }
    else
      match b with
      | .first => some { s with main := .join .first 0, counter := none }
      | .second => some { s with main := .join .second 0 }
  | .next .first i => some { s with main := .create .first (i + 1), counter := some (i + 1) }
  | .next .second i => some { s with main := .create .second (i + 1) }
  | .join b i =>
    if i < n then
      if s.thread b i = .done then some { s with main := .join b (i + 1) } else none
    else
      match b with
      | .first => some { s with main := .header }
      | .second => some { s with main := .EXIT_SUCCESS }
  | .header => some { s with main := .assign 0, output := s.output ++ [.header] }
  | .assign i =>
    if i < n then some { s with main := .assign (i + 1), num := Function.update s.num i i }
    else some { s with main := .create .second 0 }
  | .EXIT_SUCCESS => none
  | .EXIT_FAILURE => none

/-- What `*(int*)argv` is for the thread `k` of the batch `b`. -/
def arg (s : State) (b : Batch) (k stale : Nat) : Nat :=
  match b with
  | .first => s.counter.getD stale
  | .second => s.num k

/-- A step of `PrintNumber`. -/
def threadStep (s : State) (b : Batch) (k stale : Nat) : Option State :=
  match s.thread b k with
  | .read => some (s.goto b k (.print (s.arg b k stale)))
  | .print num => some { s.goto b k .done with output := s.output ++ [.thread num] }
  | .absent => none
  | .done => none

/-- A step of the process, which ends with `main`. -/
def next (n : Nat) (s : State) : Label → Option State
  | .main ok => s.mainStep n ok
  | .thread b k stale =>
    if s.main = .EXIT_SUCCESS ∨ s.main = .EXIT_FAILURE then none else s.threadStep b k stale

/-- The process at its start. -/
def start : State := ⟨.create .first 0, some 0, fun _ => 0, fun _ _ => .absent, []⟩

end State

variable {n : Nat} {s t : State}

/-- The transitions of the process: `main` creates, counts and joins, and each thread reads its
    number once and prints it.  Nothing orders the reads of a batch and the counting of `main`. -/
inductive Moves (n : Nat) (s : State) : State → Prop
  | create (b : Batch) (i : Nat) (hpc : s.main = .create b i) (hi : i < n) :
      Moves n s { s.goto b i .read with main := .next b i }
  | fail (b : Batch) (i : Nat) (hpc : s.main = .create b i) :
      Moves n s { s with main := .EXIT_FAILURE }
  | created (i : Nat) (hpc : s.main = .create .first i) (hi : n ≤ i) :
      Moves n s { s with main := .join .first 0, counter := none }
  | created_second (i : Nat) (hpc : s.main = .create .second i) (hi : n ≤ i) :
      Moves n s { s with main := .join .second 0 }
  | count (i : Nat) (hpc : s.main = .next .first i) :
      Moves n s { s with main := .create .first (i + 1), counter := some (i + 1) }
  | count_second (i : Nat) (hpc : s.main = .next .second i) :
      Moves n s { s with main := .create .second (i + 1) }
  | join (b : Batch) (i : Nat) (hpc : s.main = .join b i) (hi : i < n)
      (hdone : s.thread b i = .done) : Moves n s { s with main := .join b (i + 1) }
  | joined (i : Nat) (hpc : s.main = .join .first i) (hi : n ≤ i) :
      Moves n s { s with main := .header }
  | joined_second (i : Nat) (hpc : s.main = .join .second i) (hi : n ≤ i) :
      Moves n s { s with main := .EXIT_SUCCESS }
  | header (hpc : s.main = .header) :
      Moves n s { s with main := .assign 0, output := s.output ++ [.header] }
  | assign (i : Nat) (hpc : s.main = .assign i) (hi : i < n) :
      Moves n s { s with main := .assign (i + 1), num := Function.update s.num i i }
  | assigned (i : Nat) (hpc : s.main = .assign i) (hi : n ≤ i) :
      Moves n s { s with main := .create .second 0 }
  | read (b : Batch) (k stale : Nat) (hrun : s.main ≠ .EXIT_SUCCESS)
      (hpc : s.thread b k = .read) : Moves n s (s.goto b k (.print (s.arg b k stale)))
  | print (b : Batch) (k num : Nat) (hrun : s.main ≠ .EXIT_SUCCESS)
      (hpc : s.thread b k = .print num) :
      Moves n s { s.goto b k .done with output := s.output ++ [.thread num] }

theorem mainStep_cases {ok : Bool} (h : s.mainStep n ok = some t) : Moves n s t := by
  unfold State.mainStep at h
  cases hpc : s.main with
  | create b i =>
    -- `main` creates a thread while the loop runs, and leaves the loop behind it
    rw [hpc] at h
    dsimp only at h
    split at h
    · rename_i hi
      cases ok with
      | true =>
        cases h
        exact .create b i hpc hi
      | false =>
        cases h
        exact .fail b i hpc
    · rename_i hi
      -- only the first loop ends with its variable, whose address the threads have
      cases b with
      | first =>
        cases h
        exact .created i hpc (Nat.le_of_not_lt hi)
      | second =>
        cases h
        exact .created_second i hpc (Nat.le_of_not_lt hi)
  | next b i =>
    rw [hpc] at h
    cases b with
    | first =>
      cases h
      exact .count i hpc
    | second =>
      cases h
      exact .count_second i hpc
  | join b i =>
    -- a join that has to wait is no step
    rw [hpc] at h
    dsimp only at h
    split at h
    · rename_i hi
      obtain ⟨hdone, h⟩ := Option.ite_none_right_eq_some.mp h
      cases h
      exact .join b i hpc hi hdone
    · rename_i hi
      cases b with
      | first =>
        cases h
        exact .joined i hpc (Nat.le_of_not_lt hi)
      | second =>
        cases h
        exact .joined_second i hpc (Nat.le_of_not_lt hi)
  | header =>
    rw [hpc] at h
    cases h
    exact .header hpc
  | assign i =>
    rw [hpc] at h
    dsimp only at h
    split at h
    · rename_i hi
      cases h
      exact .assign i hpc hi
    · rename_i hi
      cases h
      exact .assigned i hpc (Nat.le_of_not_lt hi)
  | EXIT_SUCCESS => rw [hpc] at h; cases h
  | EXIT_FAILURE => rw [hpc] at h; cases h

/-- A step is one of the transitions. -/
theorem next_cases {l : Label} (h : s.next n l = some t) : Moves n s t := by
  cases l with
  | main ok => exact mainStep_cases h
  | thread b k stale =>
    obtain ⟨hlive, h⟩ := Option.ite_none_left_eq_some.mp h
    rw [not_or] at hlive
    unfold State.threadStep at h
    cases hpc : s.thread b k with
    | read =>
      rw [hpc] at h
      cases h
      exact .read b k stale hlive.1 hpc
    | print num =>
      rw [hpc] at h
      cases h
      exact .print b k num hlive.1 hpc
    | absent => rw [hpc] at h; cases h
    | done => rw [hpc] at h; cases h

section Goto

variable {b b' : Batch} {k k' : Nat} {pc : ThreadPc}

theorem thread_goto_self : (s.goto b k pc).thread b k = pc := by
  simp [State.goto]

theorem thread_goto_of_ne (h : ¬ (b' = b ∧ k' = k)) :
    (s.goto b k pc).thread b' k' = s.thread b' k' := by
  by_cases hb : b' = b
  · subst hb
    have hk : k' ≠ k := fun hk => h ⟨rfl, hk⟩
    simp [State.goto, hk]
  · simp [State.goto, hb]

/-- What holds of all threads after one of them went to `pc`. -/
theorem forall_goto {P : Batch → Nat → ThreadPc → Prop} (hself : P b k pc)
    (hother : ∀ b' k', P b' k' (s.thread b' k')) :
    ∀ b' k', P b' k' ((s.goto b k pc).thread b' k') := by
  intro b' k'
  by_cases h : b' = b ∧ k' = k
  · obtain ⟨rfl, rfl⟩ := h
    rw [thread_goto_self]
    exact hself
  · rw [thread_goto_of_ne h]
    exact hother b' k'

end Goto

/-! ### The first batch -/

/-- Where a thread of the first batch can be while the counter is at `c`. -/
def Reads (c : Nat) : Batch → Nat → ThreadPc → Prop
  | .first, _, .absent => True
  | .first, k, .print num => k ≤ num ∧ num ≤ c
  | .first, k, _ => k ≤ c
  | .second, _, _ => True

theorem Reads.mono {c c' : Nat} (hle : c ≤ c') {b : Batch} {k : Nat} {pc : ThreadPc}
    (h : Reads c b k pc) : Reads c' b k pc := by
  cases b with
  | second => trivial
  | first =>
    cases pc with
    | absent => trivial
    | print num => exact ⟨h.1, Nat.le_trans h.2 hle⟩
    | read | done => exact Nat.le_trans (show k ≤ c from h) hle

/-- The counter lives in the first loop, and the threads have read it there. -/
structure Counts (n : Nat) (s : State) : Prop where
  counter : ∀ i, s.main = .create .first i ∨ s.main = .next .first i → s.counter = some i
  le : ∀ c, s.counter = some c → c ≤ n
  lt : ∀ i, s.main = .next .first i → i < n
  reads : ∀ c, s.counter = some c → ∀ b k, Reads c b k (s.thread b k)

/-- **A step** of the process: only `main` counts, in the loop in which the counter lives, and a
    thread that reads it there gets what it has come to. -/
theorem Counts.next (h : Counts n s) (hm : Moves n s t) : Counts n t := by
  cases hm with
  | create b i hpc hi =>
    refine ⟨?_, h.le, ?_, fun c hc => forall_goto ?_ (h.reads c hc)⟩
    · rintro j (hj | hj)
      · cases hj
      · cases hj
        exact h.counter i (.inl hpc)
    · intro j hj
      cases hj
      exact hi
    · -- a new thread of the first batch has the address of the variable, which holds `i`
      cases b with
      | second => trivial
      | first =>
        have hcounter := h.counter i (.inl hpc)
        exact Nat.le_of_eq (Option.some.inj (hcounter.symm.trans hc))
  | fail b i hpc => exact ⟨nofun, h.le, nofun, h.reads⟩
  | created i hpc hi => exact ⟨nofun, nofun, nofun, nofun⟩
  -- the variable grows, and what was read before is not above it
  | count i hpc =>
    have hcounter := h.counter i (.inr hpc)
    refine ⟨?_, ?_, nofun, ?_⟩
    · rintro j (hj | hj)
      · cases hj
        rfl
      · cases hj
    · intro c hc
      cases hc
      exact h.lt i hpc
    · intro c hc b k
      cases hc
      exact (h.reads i hcounter b k).mono (Nat.le_succ i)
  | created_second _ _ _ | count_second _ _ | join _ _ _ _ _ | joined _ _ _ | joined_second _ _ _
  | header _ | assign _ _ _ | assigned _ _ _ => exact ⟨nofun, h.le, nofun, h.reads⟩
  | read b k stale hrun hpc =>
    refine ⟨h.counter, h.le, h.lt, fun c hc => forall_goto ?_ (h.reads c hc)⟩
    cases b with
    | second => trivial
    | first =>
      -- the thread exists, so its number is not above the counter
      have hle := h.reads c hc .first k
      rw [hpc] at hle
      have hcounter : s.counter = some c := hc
      have harg : s.arg .first k stale = c := by rw [State.arg, hcounter, Option.getD_some]
      rw [harg]
      exact ⟨hle, Nat.le_refl c⟩
  | print b k num hrun hpc =>
    refine ⟨h.counter, h.le, h.lt, fun c hc => forall_goto ?_ (h.reads c hc)⟩
    cases b with
    | second => trivial
    | first =>
      have hle := h.reads c hc .first k
      rw [hpc] at hle
      exact Nat.le_trans hle.1 hle.2

theorem counts_start (n : Nat) : Counts n .start where
  counter i h := by
    rcases h with h | h
    · cases h
      rfl
    · cases h
  le c h := by cases h; exact Nat.zero_le n
  lt i h := by cases h
  reads c h b k := by cases b <;> trivial

/-- Threads that are to read do so. -/
theorem leads_read {b : Batch} {v : Nat → Nat}
    (hlive : ¬ (s.main = .EXIT_SUCCESS ∨ s.main = .EXIT_FAILURE)) {ks : List Nat}
    (hnodup : ks.Nodup) (hks : ∀ k ∈ ks, s.thread b k = .read ∧ s.arg b k 0 = v k) :
    ∃ thread, Leads (State.next n) s { s with thread := thread } ∧
      (∀ k ∈ ks, thread b k = .print (v k)) ∧
      ∀ b' k, ¬ (b' = b ∧ k ∈ ks) → thread b' k = s.thread b' k := by
  -- over `ks`: the first one reads, and the others are still to read what they were
  induction ks generalizing s with
  | nil => exact ⟨s.thread, .refl s, nofun, fun _ _ _ => rfl⟩
  | cons k ks ih =>
    obtain ⟨hk, hnodup⟩ := List.nodup_cons.mp hnodup
    obtain ⟨hread, harg⟩ := hks k (.head _)
    have hst : s.next n (.thread b k 0) = some (s.goto b k (.print (v k))) := by
      rw [State.next, if_neg hlive, State.threadStep, hread]
      dsimp only
      rw [harg]
    have hother : ∀ b' j, ¬ (b' = b ∧ j = k) →
        (s.goto b k (.print (v k))).thread b' j = s.thread b' j :=
      fun b' j hj => thread_goto_of_ne hj
    obtain ⟨thread, hlead, hprint, hrest⟩ := ih (s := s.goto b k (.print (v k))) hlive hnodup
      fun j hj => by
        rw [hother b j fun h => hk (h.2 ▸ hj)]
        exact hks j (.tail _ hj)
    refine ⟨thread, (Leads.of_next hst).trans hlead, fun j hj => ?_, fun b' j hj => ?_⟩
    · rcases List.mem_cons.mp hj with rfl | hj
      · exact (hrest b j fun h => hk h.2).trans thread_goto_self
      · exact hprint j hj
    · rw [hrest b' j fun h => hj ⟨h.1, .tail _ h.2⟩]
      exact hother b' j fun h => hj ⟨h.1, h.2 ▸ .head _⟩

/-- Of the threads below `upto`, which exist, those that are to read a number below `c` have read
    it, and the others wait. -/
structure Counted (v : Nat → Nat) (c upto : Nat) (s : State) : Prop where
  reads : ∀ k, k < upto → s.thread .first k = if v k < c then .print (v k) else .read
  absent : ∀ k, upto ≤ k → s.thread .first k = .absent

/-- The threads that are to read `c` do so. -/
theorem Counted.read {v : Nat → Nat} {c upto : Nat} (h : Counted v c upto s)
    (hcounter : s.counter = some c) (hlive : ¬ (s.main = .EXIT_SUCCESS ∨ s.main = .EXIT_FAILURE)) :
    ∃ t, Leads (State.next n) s t ∧ (t.main = s.main ∧ t.counter = some c) ∧
      Counted v (c + 1) upto t := by
  have hmem : ∀ k, k ∈ (List.range upto).filter (fun k => v k = c) ↔ k < upto ∧ v k = c := by
    intro k
    rw [List.mem_filter, List.mem_range, decide_eq_true_iff]
  obtain ⟨thread, ht, hread, hother⟩ := leads_read (n := n) (b := .first) (v := v) hlive
    (List.nodup_range.filter fun k => v k = c) fun k hk => by
      obtain ⟨hlt, hv⟩ := (hmem k).mp hk
      rw [h.reads k hlt, if_neg (by omega), State.arg, hcounter, hv]
      exact ⟨rfl, rfl⟩
  have hother : ∀ k, ¬ (k < upto ∧ v k = c) → thread .first k = s.thread .first k :=
    fun k hk => hother .first k fun hk' => hk ((hmem k).mp hk'.2)
  refine ⟨_, ht, ⟨rfl, hcounter⟩, fun k hk => ?_, fun k hk => ?_⟩
  · by_cases hv : v k = c
    · exact (hread k ((hmem k).mpr ⟨hk, hv⟩)).trans (if_pos (by omega)).symm
    · refine (hother k fun hk' => hv hk'.2).trans ((h.reads k hk).trans ?_)
      exact if_congr (by omega) rfl rfl
  · exact (hother k fun hk' => by omega).trans (h.absent k hk)

/-- The first loop comes to its turn `c`. -/
theorem leads_create {v : Nat → Nat} (hv : ∀ k, k < n → k ≤ v k) {c : Nat} (hc : c ≤ n) :
    ∃ t, Leads (State.next n) .start t ∧ (t.main = .create .first c ∧ t.counter = some c) ∧
      Counted v c c t := by
  induction c with
  | zero => exact ⟨_, .refl _, ⟨rfl, rfl⟩, nofun, fun _ _ => rfl⟩
  | succ c ih =>
    obtain ⟨t, ht, ⟨hmain, hcounter⟩, h⟩ := ih (Nat.le_of_succ_le hc)
    -- `main` creates the thread of the turn
    let created : State := { t.goto .first c .read with main := .next .first c }
    have hcreate : t.next n (.main true) = some created := by
      rw [State.next, State.mainStep, hmain]
      exact if_pos hc
    have hcreated : Counted v c (c + 1) created := by
      have hthread : created.thread = (t.goto .first c .read).thread := rfl
      refine ⟨fun k hk => ?_, fun k hk => ?_⟩
      · by_cases heq : k = c
        · have hle := hv c hc
          rw [heq, if_neg (by omega), hthread, thread_goto_self]
        · rw [hthread, thread_goto_of_ne fun hkc => heq hkc.2]
          exact h.reads k (by omega)
      · rw [hthread, thread_goto_of_ne fun hkc => by omega]
        exact h.absent k (by omega)
    -- those whose number it is now read it, and only then `main` counts
    obtain ⟨u, hu, ⟨humain, hucounter⟩, hread⟩ := hcreated.read (n := n) hcounter
      (by rintro (hpc | hpc) <;> cases hpc)
    have hcount : u.next n (.main true) =
        some { u with main := .create .first (c + 1), counter := some (c + 1) } := by
      rw [State.next, State.mainStep, humain]
    exact ⟨_, ht.trans ((Leads.of_next hcreate).trans (hu.trans (.of_next hcount))), ⟨rfl, rfl⟩,
      hread.reads, hread.absent⟩

/-- **What the first batch reads.**  While `counter` lives, the threads can have read the numbers
    `v` if and only if each of them is between the number of its thread and `n`: every thread may
    read the number of any later one, and all of them `n`, but only the first thread can read 0. -/
theorem first_batch_iff (n : Nat) (v : Nat → Nat) :
    (∃ ls s, run (State.next n) .start ls = some s ∧ s.counter.isSome ∧
      ∀ k, k < n → s.thread .first k = .print (v k)) ↔
    ∀ k, k < n → k ≤ v k ∧ v k ≤ n := by
  constructor
  · rintro ⟨ls, s, hrun, hlive, hprint⟩ k hk
    have h : Counts n s :=
      run_keeps (fun s l t h hst => h.next (next_cases hst)) (counts_start n) hrun
    obtain ⟨c, hc⟩ := Option.isSome_iff_exists.mp hlive
    have hreads := h.reads c hc .first k
    rw [hprint k hk] at hreads
    exact ⟨hreads.1, Nat.le_trans hreads.2 (h.le c hc)⟩
  · intro hv
    obtain ⟨t, ht, ⟨hmain, hcounter⟩, h⟩ := leads_create (fun k hk => (hv k hk).1) (Nat.le_refl n)
    obtain ⟨u, hu, ⟨-, hucounter⟩, hread⟩ := h.read (n := n) hcounter (by rw [hmain]; simp)
    obtain ⟨ls, hrun⟩ := ht.trans hu
    refine ⟨ls, u, hrun, by rw [hucounter]; rfl, fun k hk => ?_⟩
    rw [hread.reads k hk, if_pos (Nat.lt_succ_of_le (hv k hk).2)]

/-! ### The second batch -/

namespace MainPc

/-- The threads that `main` has waited for. -/
def joined : MainPc → Batch → Nat → Prop
  | .join .first i, .first, k => k < i
  | .join .second i, .second, k => k < i
  | .join .second _, .first, _ => True
  | .header, .first, _ => True
  | .assign _, .first, _ => True
  | .create .second _, .first, _ => True
  | .next .second _, .first, _ => True
  | .EXIT_SUCCESS, _, _ => True
  | _, _, _ => False

/-- The threads that `main` has not created yet. -/
def fresh : MainPc → Nat → Prop
  | .create .second i, k => i ≤ k
  | .next .second i, k => i < k
  | .join .second _, _ => False
  | .EXIT_SUCCESS, _ => False
  | _, _ => True

/-- The elements of `num` that have their value. -/
def assigned : MainPc → Nat → Prop
  | .assign i, k => k < i
  | .create .second _, _ => True
  | .next .second _, _ => True
  | .join .second _, _ => True
  | .EXIT_SUCCESS, _ => True
  | _, _ => False

/-- The line between the batches was printed. -/
def past : MainPc → Bool
  | .assign _ => true
  | .create .second _ => true
  | .next .second _ => true
  | .join .second _ => true
  | .EXIT_SUCCESS => true
  | _ => false

end MainPc

/-- The output so far: the second batch has printed the numbers of the threads that are done. -/
structure Printed (s : State) : Prop where
  early : s.main.past = false → ∃ before : List Nat, s.output = before.map .thread
  late : s.main.past = true → ∃ before l : List Nat,
    s.output = before.map .thread ++ .header :: l.map .thread ∧ l.Nodup ∧
      ∀ k, k ∈ l ↔ s.thread .second k = .done

/-- What holds in a process that has not failed. -/
structure Tidy (n : Nat) (s : State) : Prop where
  joined : ∀ b k, s.main.joined b k → k < n → s.thread b k = .done
  outside : ∀ b k, n ≤ k → s.thread b k = .absent
  fresh : ∀ k, s.main.fresh k → s.thread .second k = .absent
  assigned : ∀ k, s.main.assigned k → k < n → s.num k = k
  number : ∀ k num, s.thread .second k = .print num → num = k
  printed : Printed s

/-- `main` goes on, and nothing else changes. -/
theorem Tidy.goto (h : Tidy n s) {pc : MainPc} {c : Option Nat}
    (hjoined : ∀ b k, k < n → pc.joined b k → s.main.joined b k ∨ s.thread b k = .done)
    (hfresh : ∀ k, pc.fresh k → s.main.fresh k)
    (hassigned : ∀ k, k < n → pc.assigned k → s.main.assigned k)
    (hpast : pc.past = s.main.past) : Tidy n { s with main := pc, counter := c } where
  joined b k hk hlt := (hjoined b k hlt hk).elim (fun hk => h.joined b k hk hlt) id
  outside := h.outside
  fresh k hk := h.fresh k (hfresh k hk)
  assigned k hk hlt := h.assigned k (hassigned k hlt hk) hlt
  number := h.number
  printed := ⟨fun hp => h.printed.early (hpast ▸ hp), fun hp => h.printed.late (hpast ▸ hp)⟩

/-- A thread moves that was not done, if it is of the second batch, and is not done now. -/
theorem Printed.goto (h : Printed s) {b : Batch} {k : Nat} {pc : ThreadPc} {main : MainPc}
    (hbefore : b = .second → s.thread b k ≠ .done) (hafter : pc ≠ .done)
    (hpast : main.past = s.main.past) :
    Printed { s.goto b k pc with main } := by
  refine ⟨fun hp => h.early (hpast ▸ hp), fun hp => ?_⟩
  obtain ⟨before, l, hl, hnodup, hdone⟩ := h.late (hpast ▸ hp)
  refine ⟨before, l, hl, hnodup, fun j => (hdone j).trans ?_⟩
  show _ ↔ (s.goto b k pc).thread .second j = .done
  by_cases hj : Batch.second = b ∧ j = k
  · obtain ⟨rfl, rfl⟩ := hj
    rw [thread_goto_self]
    exact iff_of_false (hbefore rfl) hafter
  · rw [thread_goto_of_ne hj]

/-- `main` creates a thread. -/
theorem Tidy.create (h : Tidy n s) {b : Batch} {i : Nat} (hpc : s.main = .create b i)
    (hi : i < n) : Tidy n { s.goto b i .read with main := .next b i } where
  joined b' k hk hlt := by
    show (s.goto b i .read).thread b' k = .done
    -- only the first batch can have been waited for, and then the thread is of the second
    cases b with
    | first => cases b' <;> exact absurd hk id
    | second =>
      cases b' with
      | second => exact absurd hk id
      | first =>
        rw [thread_goto_of_ne fun hb => by cases hb.1]
        exact h.joined .first k (by rw [hpc]; trivial) hlt
  outside b' k hk := by
    show (s.goto b i .read).thread b' k = .absent
    rw [thread_goto_of_ne fun hb => by omega]
    exact h.outside b' k hk
  fresh k hk := by
    show (s.goto b i .read).thread .second k = .absent
    cases b with
    | first =>
      rw [thread_goto_of_ne fun hb => by cases hb.1]
      exact h.fresh k (by rw [hpc]; trivial)
    -- the new thread is not among those that `main` has still to create
    | second =>
      have hlt : i < k := hk
      rw [thread_goto_of_ne fun hb => by omega]
      exact h.fresh k (by rw [hpc]; exact Nat.le_of_lt hlt)
  assigned k hk hlt := by
    cases b with
    | first => exact absurd hk id
    | second => exact h.assigned k (by rw [hpc]; trivial) hlt
  number k num hk := by
    have hk : (s.goto b i .read).thread .second k = .print num := hk
    by_cases hself : Batch.second = b ∧ k = i
    · obtain ⟨rfl, rfl⟩ := hself
      rw [thread_goto_self] at hk
      cases hk
    · rw [thread_goto_of_ne hself] at hk
      exact h.number k num hk
  printed := by
    -- it has printed nothing, and is not done
    refine h.printed.goto ?_ nofun (by rw [hpc]; cases b <;> rfl)
    rintro rfl
    rw [h.fresh i (by rw [hpc]; exact Nat.le_refl i)]
    nofun

/-- A thread of the second batch exists only when all elements of `num` have their value. -/
theorem Tidy.num_eq (h : Tidy n s) (hlive : s.main ≠ .EXIT_FAILURE) {k : Nat}
    (hk : s.thread .second k ≠ .absent) : s.num k = k := by
  have hlt : k < n := Nat.lt_of_not_le fun hle => hk (h.outside .second k hle)
  have hfresh : ¬ s.main.fresh k := fun hf => hk (h.fresh k hf)
  refine h.assigned k ?_ hlt
  cases hpc : s.main with
  | EXIT_FAILURE => exact absurd hpc hlive
  | create b i | next b i | join b i =>
    rw [hpc] at hfresh
    cases b with
    | first => exact absurd trivial hfresh
    | second => trivial
  | header | assign i =>
    rw [hpc] at hfresh
    exact absurd trivial hfresh
  | EXIT_SUCCESS => trivial

/-- After the line between the batches only the second one prints, and before it only the first. -/
theorem Tidy.past_iff (h : Tidy n s) (hlive : s.main ≠ .EXIT_FAILURE) {b : Batch} {k num : Nat}
    (hk : s.thread b k = .print num) : s.main.past = true ↔ b = .second := by
  have hlt : k < n := by
    refine Nat.lt_of_not_le fun hle => ?_
    rw [h.outside b k hle] at hk
    cases hk
  -- a thread that is to print exists, and nobody has joined it
  have hjoined : ¬ s.main.joined b k := fun hj => by
    rw [h.joined b k hj hlt] at hk
    cases hk
  have hfresh : b = .second → ¬ s.main.fresh k := by
    rintro rfl hf
    rw [h.fresh k hf] at hk
    cases hk
  -- this decides on the batch at each place of `main`
  cases hpc : s.main with
  | EXIT_FAILURE => exact absurd hpc hlive
  | EXIT_SUCCESS =>
    rw [hpc] at hjoined
    cases b <;> exact absurd trivial hjoined
  | create b' i | next b' i | join b' i =>
    rw [hpc] at hjoined hfresh
    cases b with
    | first =>
      cases b' with
      | first => exact iff_of_false Bool.false_ne_true nofun
      | second => exact absurd trivial hjoined
    | second =>
      cases b' with
      | first => exact absurd trivial (hfresh rfl)
      | second => exact iff_of_true rfl rfl
  | header | assign i =>
    rw [hpc] at hjoined hfresh
    cases b with
    | first => exact absurd trivial hjoined
    | second => exact absurd trivial (hfresh rfl)

/-- A thread moves that runs. -/
theorem Tidy.moves (h : Tidy n s) {b : Batch} {k : Nat} (pc : ThreadPc)
    (hdone : s.thread b k ≠ .done) (habsent : s.thread b k ≠ .absent) :
    (∀ b' j, s.main.joined b' j → j < n → (s.goto b k pc).thread b' j = .done) ∧
    (∀ b' j, n ≤ j → (s.goto b k pc).thread b' j = .absent) ∧
    ∀ j, s.main.fresh j → (s.goto b k pc).thread .second j = .absent := by
  -- in all three cases it is another thread
  refine ⟨fun b' j hj hlt => ?_, fun b' j hj => ?_, fun j hj => ?_⟩
  · have hother := h.joined b' j hj hlt
    rw [thread_goto_of_ne]
    · exact hother
    · rintro ⟨rfl, rfl⟩
      exact hdone hother
  · have hother := h.outside b' j hj
    rw [thread_goto_of_ne]
    · exact hother
    · rintro ⟨rfl, rfl⟩
      exact habsent hother
  · have hother := h.fresh j hj
    rw [thread_goto_of_ne]
    · exact hother
    · rintro ⟨rfl, rfl⟩
      exact habsent hother

/-- A thread prints. -/
theorem Tidy.printed_print (h : Tidy n s) (hlive : s.main ≠ .EXIT_FAILURE) {b : Batch}
    {k num : Nat} (hpc : s.thread b k = .print num) :
    Printed { s.goto b k .done with output := s.output ++ [.thread num] } := by
  have hpast := h.past_iff hlive hpc
  -- before the header one line more is all there is to say
  refine ⟨fun hp => ?_, fun hp => ?_⟩
  · obtain ⟨before, hout⟩ := h.printed.early hp
    refine ⟨before ++ [num], ?_⟩
    rw [hout, List.map_append]
    rfl
  · -- behind it the thread is of the second batch, has its own number and has not printed
    obtain ⟨before, l, hl, hnodup, hdone⟩ := h.printed.late hp
    have hb := hpast.mp hp
    subst hb
    have hnum := h.number k num hpc
    subst hnum
    have hnew : num ∉ l := fun hmem => by
      rw [(hdone num).mp hmem] at hpc
      cases hpc
    refine ⟨before, l ++ [num], ?_, ?_, fun j => ?_⟩
    · rw [hl, List.map_append, List.append_assoc]
      rfl
    · exact List.nodup_append_comm.mp (List.nodup_cons.mpr ⟨hnew, hnodup⟩)
    · show _ ↔ (s.goto .second num .done).thread .second j = .done
      rw [List.mem_append, List.mem_singleton]
      by_cases heq : j = num
      · rw [heq, thread_goto_self]
        exact iff_of_true (.inr rfl) rfl
      · rw [thread_goto_of_ne fun hj => heq hj.2, or_iff_left heq]
        exact hdone j

/-- `main` prints the line between the batches. -/
theorem Tidy.header (h : Tidy n s) (hpc : s.main = .header) :
    Tidy n { s with main := .assign 0, output := s.output ++ [.header] } where
  joined b k hk hlt := by
    cases b with
    | first => exact h.joined .first k (by rw [hpc]; trivial) hlt
    | second => exact absurd hk id
  outside := h.outside
  fresh k _ := h.fresh k (by rw [hpc]; trivial)
  assigned k hk := absurd hk (Nat.not_lt_zero k)
  number := h.number
  printed := by
    -- nobody of the second batch has begun, so the list of its numbers is empty
    obtain ⟨before, hout⟩ := h.printed.early (by rw [hpc]; rfl)
    refine ⟨nofun, fun _ => ⟨before, [], by rw [hout]; rfl, List.nodup_nil, fun k => ?_⟩⟩
    rw [h.fresh k (by rw [hpc]; trivial)]
    exact iff_of_false List.not_mem_nil nofun

/-- `main` gives an element of `num` its value. -/
theorem Tidy.assign (h : Tidy n s) {i : Nat} (hpc : s.main = .assign i) :
    Tidy n { s with main := .assign (i + 1), num := Function.update s.num i i } where
  joined b k hk hlt := by
    cases b with
    | first => exact h.joined .first k (by rw [hpc]; trivial) hlt
    | second => exact absurd hk id
  outside := h.outside
  fresh k _ := h.fresh k (by rw [hpc]; trivial)
  assigned k hk hlt := by
    show Function.update s.num i i k = k
    by_cases heq : k = i
    · rw [heq, Function.update_self]
    · rw [Function.update_of_ne heq]
      have hle : k < i + 1 := hk
      exact h.assigned k (by rw [hpc]; exact (by omega : k < i)) hlt
  number := h.number
  printed := ⟨nofun, fun _ => h.printed.late (by rw [hpc]; rfl)⟩

/-- A thread reads its number: in the second batch that is its own. -/
theorem Tidy.read (h : Tidy n s) (hlive : s.main ≠ .EXIT_FAILURE) {b : Batch} {k : Nat}
    (stale : Nat) (hpc : s.thread b k = .read) :
    Tidy n (s.goto b k (.print (s.arg b k stale))) := by
  obtain ⟨hjoined, houtside, hfresh⟩ := h.moves (b := b) (k := k)
    (.print (s.arg b k stale)) (by rw [hpc]; nofun) (by rw [hpc]; nofun)
  refine ⟨hjoined, houtside, hfresh, h.assigned, fun j num hj => ?_, ?_⟩
  · by_cases hself : Batch.second = b ∧ j = k
    · obtain ⟨rfl, rfl⟩ := hself
      rw [thread_goto_self] at hj
      cases hj
      exact h.num_eq hlive (by rw [hpc]; nofun)
    · rw [thread_goto_of_ne hself] at hj
      exact h.number j num hj
  · exact h.printed.goto (fun _ => by rw [hpc]; nofun) nofun rfl

/-- A thread prints and is done. -/
theorem Tidy.print (h : Tidy n s) (hlive : s.main ≠ .EXIT_FAILURE) {b : Batch} {k num : Nat}
    (hpc : s.thread b k = .print num) :
    Tidy n { s.goto b k .done with output := s.output ++ [.thread num] } := by
  obtain ⟨hjoined, houtside, hfresh⟩ := h.moves (b := b) (k := k) .done
    (by rw [hpc]; nofun) (by rw [hpc]; nofun)
  refine ⟨hjoined, houtside, hfresh, h.assigned, fun j num' hj => ?_, h.printed_print hlive hpc⟩
  by_cases hself : Batch.second = b ∧ j = k
  · obtain ⟨rfl, rfl⟩ := hself
    rw [show (s.goto .second j .done).thread .second j = .done from thread_goto_self] at hj
    cases hj
  · exact h.number j num' ((thread_goto_of_ne hself).symm.trans hj)

/-- All threads of the first batch are created, and the variable of the loop is gone. -/
theorem Tidy.created (h : Tidy n s) {i : Nat} (hpc : s.main = .create .first i) :
    Tidy n { s with main := .join .first 0, counter := none } := by
  refine h.goto (fun b k _ hk => ?_) (fun k _ => by rw [hpc]; trivial) nofun (by rw [hpc]; rfl)
  -- none of them has been waited for
  cases b with
  | first => exact absurd hk (Nat.not_lt_zero k)
  | second => exact absurd hk id

/-- All threads of the second batch are created. -/
theorem Tidy.created_second (h : Tidy n s) {i : Nat} (hpc : s.main = .create .second i) :
    Tidy n { s with main := .join .second 0 } := by
  refine h.goto (c := s.counter) (fun b k _ hk => ?_) nofun (fun k _ _ => by rw [hpc]; trivial)
    (by rw [hpc]; rfl)
  cases b with
  | first => exact .inl (by rw [hpc]; trivial)
  | second => exact absurd hk (Nat.not_lt_zero k)

/-- The first loop goes on, and so does the variable whose address its threads have. -/
theorem Tidy.count (h : Tidy n s) {i : Nat} (hpc : s.main = .next .first i) :
    Tidy n { s with main := .create .first (i + 1), counter := some (i + 1) } :=
  h.goto (fun _ _ _ hk => absurd hk id) (fun k _ => by rw [hpc]; trivial) nofun (by rw [hpc]; rfl)

/-- The second loop goes on: the thread just created is none of those still to come. -/
theorem Tidy.count_second (h : Tidy n s) {i : Nat} (hpc : s.main = .next .second i) :
    Tidy n { s with main := .create .second (i + 1) } := by
  refine h.goto (c := s.counter) (fun b k _ hk => ?_) (fun k hk => ?_)
    (fun k _ _ => by rw [hpc]; trivial) (by rw [hpc]; rfl)
  · cases b with
    | first => exact .inl (by rw [hpc]; trivial)
    | second => exact absurd hk id
  · rw [hpc]
    exact hk

/-- `main` has waited for one more thread, which is done. -/
theorem Tidy.join (h : Tidy n s) {b : Batch} {i : Nat} (hpc : s.main = .join b i)
    (hdone : s.thread b i = .done) : Tidy n { s with main := .join b (i + 1) } := by
  refine h.goto (c := s.counter) (fun b' k _ hk => ?_) (fun k hk => ?_) (fun k _ hk => ?_) ?_
  · rw [hpc]
    cases b with
    | first =>
      cases b' with
      | first =>
        rcases Nat.lt_succ_iff_lt_or_eq.mp hk with hlt | rfl
        · exact .inl hlt
        · exact .inr hdone
      | second => exact absurd hk id
    | second =>
      cases b' with
      | first => exact .inl trivial
      | second =>
        rcases Nat.lt_succ_iff_lt_or_eq.mp hk with hlt | rfl
        · exact .inl hlt
        · exact .inr hdone
  all_goals
    rw [hpc]
    cases b <;> first | exact hk | rfl

/-- `main` has waited for the first batch. -/
theorem Tidy.joined_first (h : Tidy n s) {i : Nat} (hpc : s.main = .join .first i) (hi : n ≤ i) :
    Tidy n { s with main := .header } := by
  refine h.goto (c := s.counter) (fun b k hlt hk => ?_) (fun k _ => by rw [hpc]; trivial) nofun
    (by rw [hpc]; rfl)
  cases b with
  | first =>
    rw [hpc]
    exact .inl (Nat.lt_of_lt_of_le hlt hi)
  | second => exact absurd hk id

/-- `main` has waited for the second batch. -/
theorem Tidy.joined_second (h : Tidy n s) {i : Nat} (hpc : s.main = .join .second i)
    (hi : n ≤ i) : Tidy n { s with main := .EXIT_SUCCESS } := by
  refine h.goto (c := s.counter) (fun b k hlt _ => .inl ?_) nofun
    (fun k _ _ => by rw [hpc]; trivial) (by rw [hpc]; rfl)
  rw [hpc]
  cases b with
  | first => trivial
  | second => exact Nat.lt_of_lt_of_le hlt hi

/-- All elements of `num` have their value. -/
theorem Tidy.assigned_all (h : Tidy n s) {i : Nat} (hpc : s.main = .assign i) (hi : n ≤ i) :
    Tidy n { s with main := .create .second 0 } := by
  refine h.goto (c := s.counter) (fun b k _ hk => ?_) (fun k _ => by rw [hpc]; trivial)
    (fun k hlt _ => ?_) (by rw [hpc]; rfl)
  · cases b with
    | first => exact .inl (by rw [hpc]; trivial)
    | second => exact absurd hk id
  · rw [hpc]
    exact Nat.lt_of_lt_of_le hlt hi

/-- **A step** keeps it, unless the process fails. -/
theorem Tidy.next (h : s.main ≠ .EXIT_FAILURE → Tidy n s) (hm : Moves n s t)
    (hlive : t.main ≠ .EXIT_FAILURE) : Tidy n t := by
  cases hm with
  | fail b i hpc => exact absurd rfl hlive
  | create b i hpc hi => exact (h (by rw [hpc]; nofun)).create hpc hi
  | created i hpc hi => exact (h (by rw [hpc]; nofun)).created hpc
  | created_second i hpc hi => exact (h (by rw [hpc]; nofun)).created_second hpc
  | count i hpc => exact (h (by rw [hpc]; nofun)).count hpc
  | count_second i hpc => exact (h (by rw [hpc]; nofun)).count_second hpc
  | join b i hpc hi hdone => exact (h (by rw [hpc]; nofun)).join hpc hdone
  | joined i hpc hi => exact (h (by rw [hpc]; nofun)).joined_first hpc hi
  | joined_second i hpc hi => exact (h (by rw [hpc]; nofun)).joined_second hpc hi
  | assigned i hpc hi => exact (h (by rw [hpc]; nofun)).assigned_all hpc hi
  | header hpc => exact (h (by rw [hpc]; nofun)).header hpc
  | assign i hpc hi => exact (h (by rw [hpc]; nofun)).assign hpc
  | read b k stale hrun hpc => exact (h hlive).read hlive stale hpc
  | print b k num hrun hpc => exact (h hlive).print hlive hpc

theorem tidy_start (n : Nat) : Tidy n .start where
  joined b k hk := by cases b <;> exact absurd hk id
  outside _ _ _ := rfl
  fresh _ _ := rfl
  assigned _ hk := absurd hk id
  number k num hk := by cases hk
  printed := ⟨fun _ => ⟨[], rfl⟩, nofun⟩

/-! ### A run for every order -/

/-- `main` waits for threads that are done. -/
theorem leads_join {b : Batch} {i : Nat} (hi : i ≤ n) (hpc : s.main = .join b i)
    (hdone : ∀ k, k < n → s.thread b k = .done) :
    Leads (State.next n) s { s with main := .join b n } := by
  induction hk : n - i generalizing s i with
  | zero =>
    have heq : i = n := by omega
    rw [← heq, ← hpc]
    exact .refl s
  | succ k ih =>
    have hlt : i < n := by omega
    have hst : s.next n (.main true) = some { s with main := .join b (i + 1) } := by
      rw [State.next, State.mainStep, hpc]
      exact (if_pos hlt).trans (if_pos (hdone i hlt))
    exact (Leads.of_next hst).trans
      (ih (s := { s with main := .join b (i + 1) }) hlt rfl hdone (by omega))

/-- `main` gives the elements of `num` their values. -/
theorem leads_assign {i : Nat} (hi : i ≤ n) (hpc : s.main = .assign i)
    (hnum : ∀ k, k < i → s.num k = k) :
    ∃ num, Leads (State.next n) s { s with main := .assign n, num := num } ∧
      ∀ k, k < n → num k = k := by
  induction hk : n - i generalizing s i with
  | zero =>
    have heq : i = n := by omega
    refine ⟨s.num, ?_, heq ▸ hnum⟩
    rw [← heq, ← hpc]
    exact .refl s
  | succ k ih =>
    have hlt : i < n := by omega
    have hst : s.next n (.main true) =
        some { s with main := .assign (i + 1), num := Function.update s.num i i } := by
      rw [State.next, State.mainStep, hpc]
      exact if_pos hlt
    obtain ⟨num, hlead, hall⟩ := ih
      (s := { s with main := .assign (i + 1), num := Function.update s.num i i }) hlt rfl
      (fun k hk => by
        by_cases heq : k = i
        · rw [heq]
          exact Function.update_self ..
        · exact (Function.update_of_ne heq ..).trans (hnum k (by omega))) (by omega)
    exact ⟨num, (Leads.of_next hst).trans hlead, hall⟩

/-- `main` creates the second batch before one of its threads runs. -/
theorem leads_create_second {i : Nat} (hi : i ≤ n) (hpc : s.main = .create .second i)
    (hread : ∀ k, k < i → s.thread .second k = .read) :
    ∃ thread, Leads (State.next n) s { s with main := .create .second n, thread := thread } ∧
      ∀ k, k < n → thread .second k = .read := by
  induction hk : n - i generalizing s i with
  | zero =>
    have heq : i = n := by omega
    refine ⟨s.thread, ?_, heq ▸ hread⟩
    rw [← heq, ← hpc]
    exact .refl s
  | succ k ih =>
    have hlt : i < n := by omega
    let created : State := { s.goto .second i .read with main := .next .second i }
    have hst : s.next n (.main true) = some created := by
      rw [State.next, State.mainStep, hpc]
      exact if_pos hlt
    have hst' : created.next n (.main true) =
        some { created with main := .create .second (i + 1) } := rfl
    obtain ⟨thread, hlead, hall⟩ := ih
      (s := { created with main := .create .second (i + 1) }) hlt rfl (fun k hk => by
        show (s.goto .second i .read).thread .second k = .read
        by_cases heq : k = i
        · rw [heq, thread_goto_self]
        · rw [thread_goto_of_ne fun h => heq h.2]
          exact hread k (by omega)) (by omega)
    exact ⟨thread, (Leads.of_next hst).trans ((Leads.of_next hst').trans hlead), hall⟩

/-- Threads that are to print do so, in the order of `ks`. -/
theorem leads_print {b : Batch} {v : Nat → Nat}
    (hlive : ¬ (s.main = .EXIT_SUCCESS ∨ s.main = .EXIT_FAILURE))
    {ks : List Nat} (hnodup : ks.Nodup) (hks : ∀ k ∈ ks, s.thread b k = .print (v k)) :
    ∃ thread, Leads (State.next n) s
        { s with thread := thread, output := s.output ++ ks.map fun k => .thread (v k) } ∧
      (∀ k ∈ ks, thread b k = .done) ∧
      ∀ b' k, ¬ (b' = b ∧ k ∈ ks) → thread b' k = s.thread b' k := by
  -- over `ks`: the first one prints, and that leaves the others to print
  induction ks generalizing s with
  | nil =>
    refine ⟨s.thread, ?_, nofun, fun _ _ _ => rfl⟩
    rw [List.map_nil, List.append_nil]
    exact .refl s
  | cons k ks ih =>
    obtain ⟨hk, hnodup⟩ := List.nodup_cons.mp hnodup
    let printed : State := { s.goto b k .done with output := s.output ++ [.thread (v k)] }
    have hst : s.next n (.thread b k 0) = some printed := by
      rw [State.next, if_neg hlive, State.threadStep, hks k (.head _)]
    have hother : ∀ b' j, ¬ (b' = b ∧ j = k) → printed.thread b' j = s.thread b' j :=
      fun b' j hj => thread_goto_of_ne hj
    obtain ⟨thread, hlead, hdone, hrest⟩ := ih (s := printed) hlive hnodup fun j hj => by
      rw [hother b j fun h => hk (h.2 ▸ hj)]
      exact hks j (.tail _ hj)
    have hself : thread b k = .done :=
      (hrest b k fun h => hk h.2).trans (thread_goto_self (s := s) (b := b) (k := k))
    refine ⟨thread, ?_, fun j hj => ?_, fun b' j hj => ?_⟩
    · refine (Leads.of_next hst).trans ?_
      rw [List.map_cons, List.append_cons]
      exact hlead
    · rcases List.mem_cons.mp hj with rfl | hj
      · exact hself
      · exact hdone j hj
    · rw [hrest b' j fun h => hj ⟨h.1, .tail _ h.2⟩]
      exact hother b' j fun h => hj ⟨h.1, h.2 ▸ .head _⟩

/-- The first batch can print, and `main` come to the line between the batches. -/
theorem leads_header (n : Nat) :
    ∃ s, Leads (State.next n) .start s ∧ s.main = .header := by
  obtain ⟨t, ht, ⟨hmain, -⟩, h⟩ := leads_create (n := n) (v := id) (fun _ _ => Nat.le_refl _)
    (Nat.le_refl n)
  let left : State := { t with main := .join .first 0, counter := none }
  have hst : t.next n (.main true) = some left := by
    rw [State.next, State.mainStep, hmain]
    exact if_neg (Nat.lt_irrefl n)
  obtain ⟨thread, hlead, hdone, -⟩ := leads_print (n := n) (s := left) (b := .first) (v := id)
    (by rintro (hpc | hpc) <;> cases hpc) (List.nodup_range (n := n)) fun k hk => by
      have hlt := List.mem_range.mp hk
      exact (h.reads k hlt).trans (if_pos hlt)
  let printed : State :=
    { left with thread := thread, output := left.output ++ (List.range n).map fun k => .thread k }
  have hjoin : Leads (State.next n) printed { printed with main := .join .first n } :=
    leads_join (Nat.zero_le n) rfl fun k hk => hdone k (List.mem_range.mpr hk)
  have hst' : State.next n { printed with main := .join .first n } (.main true) =
      some { printed with main := .header } := if_neg (Nat.lt_irrefl n)
  exact ⟨_, ht.trans ((Leads.of_next hst).trans (hlead.trans (hjoin.trans (.of_next hst')))), rfl⟩

/-- From there the second batch can print in the order `l`. -/
theorem leads_second {l : List Nat} (hl : l.Perm (List.range n)) (hpc : s.main = .header) :
    ∃ t, Leads (State.next n) s t ∧ t.main = .EXIT_SUCCESS ∧
      t.output = s.output ++ .header :: l.map .thread := by
  have hlt : ∀ k ∈ l, k < n := fun k hk => List.mem_range.mp (hl.mem_iff.mp hk)
  have hnodup : l.Nodup := hl.nodup_iff.mpr List.nodup_range
  -- the header, the numbers, and all threads of the batch created
  let a : State := { s with main := .assign 0, output := s.output ++ [.header] }
  have hsa : s.next n (.main true) = some a := by
    rw [State.next, State.mainStep, hpc]
  obtain ⟨num, hab, hnum⟩ := leads_assign (s := a) (Nat.zero_le n) rfl nofun
  let b : State := { a with main := .create .second 0, num := num }
  have hb : State.next n { a with main := .assign n, num := num } (.main true) = some b :=
    if_neg (Nat.lt_irrefl n)
  obtain ⟨created, hbc, hread⟩ := leads_create_second (s := b) (Nat.zero_le n) rfl nofun
  let c : State := { b with main := .join .second 0, thread := created }
  have hc : State.next n { b with main := .create .second n, thread := created } (.main true) =
      some c := if_neg (Nat.lt_irrefl n)
  have hlive : ¬ (c.main = .EXIT_SUCCESS ∨ c.main = .EXIT_FAILURE) := by
    rintro (h | h) <;> cases h
  -- they read their numbers and print in the order `l`
  obtain ⟨reading, hcd, hprint, -⟩ := leads_read (n := n) (s := c) (b := .second) (v := id) hlive
    hnodup fun k hk => ⟨hread k (hlt k hk), hnum k (hlt k hk)⟩
  obtain ⟨printing, hde, hdone, -⟩ := leads_print (n := n) (s := { c with thread := reading })
    (b := .second) (v := id) hlive hnodup hprint
  let e : State := { c with thread := printing, output := c.output ++ l.map fun k => .thread k }
  -- and `main` joins them all
  have hef : Leads (State.next n) e { e with main := .join .second n } :=
    leads_join (Nat.zero_le n) rfl fun k hk =>
      hdone k (hl.mem_iff.mpr (List.mem_range.mpr hk))
  have hf : State.next n { e with main := .join .second n } (.main true) =
      some { e with main := .EXIT_SUCCESS } := if_neg (Nat.lt_irrefl n)
  refine ⟨{ e with main := .EXIT_SUCCESS }, ?_, rfl, ?_⟩
  · exact (Leads.of_next hsa).trans (hab.trans ((Leads.of_next hb).trans (hbc.trans
      ((Leads.of_next hc).trans (hcd.trans (hde.trans (hef.trans (.of_next hf))))))))
  · show s.output ++ [.header] ++ l.map (fun k => Line.thread k) = _
    rw [List.append_assoc]
    rfl

/-- The line between the batches is printed once. -/
theorem after_header_inj {x y l l' : List Nat}
    (h : x.map Line.thread ++ .header :: l.map .thread =
      y.map .thread ++ .header :: l'.map .thread) :
    l = l' := by
  induction x generalizing y with
  | nil =>
    cases y with
    | nil =>
      have htail := (List.cons.inj h).2
      exact List.map_injective_iff.mpr (fun a b hab => Line.thread.inj hab) htail
    | cons k y => cases (List.cons.inj h).1
  | cons k x ih =>
    cases y with
    | nil => cases (List.cons.inj h).1
    | cons k' y => exact ih (List.cons.inj h).2

/-- **What the second batch prints.**  In a run that succeeds, the numbers after the line between
    the batches are those of the threads, each once, in any order: exactly the permutations of
    `0 .. n - 1` can be printed. -/
theorem second_batch_iff (n : Nat) (l : List Nat) :
    (∃ ls s, run (State.next n) .start ls = some s ∧ s.main = .EXIT_SUCCESS ∧
      ∃ before : List Nat, s.output = before.map .thread ++ .header :: l.map .thread) ↔
    l.Perm (List.range n) := by
  have htidy : ∀ {ls s}, run (State.next n) .start ls = some s → s.main ≠ .EXIT_FAILURE →
      Tidy n s := fun hrun =>
    run_keeps (I := fun s => s.main ≠ .EXIT_FAILURE → Tidy n s)
      (fun s l t h hst => Tidy.next h (next_cases hst)) (fun _ => tidy_start n) hrun
  constructor
  · -- at the end all threads of the batch have printed, each its own number
    rintro ⟨ls, s, hrun, hpc, before, hout⟩
    have h := htidy hrun (by rw [hpc]; nofun)
    obtain ⟨before', l', hout', hnodup, hdone⟩ := h.printed.late (by rw [hpc]; rfl)
    rw [after_header_inj (hout.symm.trans hout')]
    refine (List.perm_ext_iff_of_nodup hnodup List.nodup_range).mpr fun k => ?_
    rw [hdone, List.mem_range]
    constructor
    · intro hk
      refine Nat.lt_of_not_le fun hle => ?_
      rw [h.outside .second k hle] at hk
      cases hk
    · exact fun hk => h.joined .second k (by rw [hpc]; trivial) hk
  · -- first to the header, in any way, and then in the order `l`
    intro hl
    obtain ⟨s, hs, hpc⟩ := leads_header n
    obtain ⟨t, ht, hexit, hout⟩ := leads_second hl hpc
    obtain ⟨ls, hrun⟩ := hs
    have h := htidy hrun (by rw [hpc]; nofun)
    obtain ⟨before, hbefore⟩ := h.printed.early (by rw [hpc]; rfl)
    obtain ⟨ls', hrun'⟩ := (show Leads (State.next n) .start s from ⟨ls, hrun⟩).trans ht
    exact ⟨ls', t, hrun', hexit, before, by rw [hout, hbefore]⟩

end EltexHomeworks.FiveThreads
