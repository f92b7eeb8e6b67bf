import EltexHomeworks.Lib.CInt
import EltexHomeworks.Lib.Run

namespace EltexHomeworks.ServerQueue

open EltexHomeworks.Lib

/-!
# Request queue — how the service threads get the queue

`GenerationServiceThreads` hands each thread the address of its own parameter `msqfd`, and returns
without waiting for them.  `ServiceRoutine` reads the queue id through that address in its first
statement, which may come after the return, when the storage belongs to other calls.

* `servesQueue_iff` — in which runs every thread gets the queue of the pool, and that no pool with a
  thread in it does so in all runs.
-/

/-- Where the creating thread is: in `GenerationServiceThreads` before `pthread_attr_init` or
    `pthread_create`, or behind its return. -/
inductive CreatorPc
  | attrInit
  | create (i : Nat)
  | returned
deriving DecidableEq, Repr

/-- A service thread before and behind its first statement. -/
inductive ServiceThread
  | created
  | running (msqfd : CInt)
deriving DecidableEq

/-- The creating thread and the pool. -/
structure Pool where
  creator : CreatorPc
  /-- The storage of the parameter `msqfd`. -/
  slot : CInt
  threads : List ServiceThread
  /-- What was stored there last after the return. -/
  reused : Option CInt

namespace Pool

/-- A step: the creating thread goes on, with the success of its call; its later steps store a value
    in what was the parameter; or a service thread starts. -/
inductive Label
  | creator (ok : Bool)
  | reuse (value : CInt)
  | worker (w : Nat)

/-- The creating thread in `GenerationServiceThreads`; a `pthread_create` that fails is tried again.
    `none` behind the return. -/
def generationServiceThreads (numThread : CInt) (s : Pool) (ok : Bool) : Option Pool :=
  match s.creator with
  | .attrInit => some { s with creator := if ok then .create 0 else .returned }
  | .create i =>
    if (i : Int) < numThread.val then
      if ok then some { s with creator := .create (i + 1), threads := s.threads ++ [.created] }
      else some s
    else some { s with creator := .returned }
  | .returned => none

/-- `int msqfd = *((int*) argv)` in `ServiceRoutine`. -/
def serviceRoutine (s : Pool) (w : Nat) : Option Pool :=
  if s.threads[w]? = some .created then
    some { s with threads := s.threads.set w (.running s.slot) }
  else none

/-- One step. -/
def next (numThread : CInt) (s : Pool) : Label → Option Pool
  | .creator ok => s.generationServiceThreads numThread ok
  | .reuse value =>
    if s.creator = .returned then some { s with slot := value, reused := some value } else none
  | .worker w => s.serviceRoutine w

/-- The call of `GenerationServiceThreads`. -/
def start (msqfd : CInt) : Pool := ⟨.attrInit, msqfd, [], none⟩

/-- Every thread that has read its queue id serves the queue `msqfd`. -/
def ServesQueue (msqfd : CInt) (s : Pool) : Prop :=
  ∀ (w : Nat) (id : CInt), s.threads[w]? = some (ServiceThread.running id) → id = msqfd

/-- A thread starts after the return, when the storage of the parameter was reused, and last for
    another value. -/
def LateStart (msqfd : CInt) (s : Pool) (l : Label) : Prop :=
  ∃ w value, l = .worker w ∧ s.threads[w]? = some .created ∧ s.creator = .returned ∧
    s.reused = some value ∧ value ≠ msqfd

/-! ### One step -/

/-- The parameter holds `msqfd` until its storage is reused, and that is after the return. -/
structure Keeps (msqfd : CInt) (s : Pool) : Prop where
  slot : s.slot = s.reused.getD msqfd
  returned : ∀ value, s.reused = some value → s.creator = .returned

variable {numThread msqfd : CInt} {s t : Pool} {l : Label}

theorem keeps_start (msqfd : CInt) : Keeps msqfd (start msqfd) where
  slot := rfl
  returned value h := by cases h

/-- A step of the creating thread adds threads that have not started. -/
theorem generationServiceThreads_cases {ok : Bool}
    (h : s.generationServiceThreads numThread ok = some t) :
    s.creator ≠ .returned ∧ t.slot = s.slot ∧ t.reused = s.reused ∧
      (t.threads = s.threads ∨
        (∃ i : Nat, s.creator = .create i ∧ (i : Int) < numThread.val) ∧
          t.threads = s.threads ++ [.created]) := by
  unfold generationServiceThreads at h
  split at h
  · rename_i hpc
    cases h
    exact ⟨by rw [hpc]; simp, rfl, rfl, Or.inl rfl⟩
  · rename_i i hpc
    split at h
    · rename_i hi
      split at h
      · cases h
        exact ⟨by rw [hpc]; simp, rfl, rfl, Or.inr ⟨⟨i, hpc, hi⟩, rfl⟩⟩
      · cases h
        exact ⟨by rw [hpc]; simp, rfl, rfl, Or.inl rfl⟩
    · cases h
      exact ⟨by rw [hpc]; simp, rfl, rfl, Or.inl rfl⟩
  · cases h

theorem next_reuse {value : CInt} :
    s.next numThread (.reuse value) = some t ↔
      s.creator = .returned ∧ t = { s with slot := value, reused := some value } := by
  rw [next, Option.ite_none_right_eq_some, Option.some_inj, eq_comm (b := t)]

theorem next_worker {w : Nat} :
    s.next numThread (.worker w) = some t ↔
      s.threads[w]? = some .created ∧
        t = { s with threads := s.threads.set w (.running s.slot) } := by
  rw [next, serviceRoutine, Option.ite_none_right_eq_some, Option.some_inj, eq_comm (b := t)]

/-- **Every step** keeps what is known of the parameter. -/
theorem Keeps.next (h : Keeps msqfd s) (hst : s.next numThread l = some t) : Keeps msqfd t := by
  cases l with
  | creator ok =>
    obtain ⟨hpc, hslot, hreused, -⟩ := generationServiceThreads_cases hst
    refine ⟨by rw [hslot, hreused]; exact h.slot, fun value hv => ?_⟩
    rw [hreused] at hv
    exact absurd (h.returned value hv) hpc
  | reuse value =>
    obtain ⟨hpc, rfl⟩ := next_reuse.mp hst
    exact ⟨rfl, fun _ _ => hpc⟩
  | worker w =>
    obtain ⟨-, rfl⟩ := next_worker.mp hst
    exact ⟨h.slot, h.returned⟩

/-- A late start reads another value. -/
theorem LateStart.reads_other (h : Keeps msqfd s) (hl : LateStart msqfd s l) :
    ∃ t, s.next numThread l = some t ∧ ¬ ServesQueue msqfd t := by
  obtain ⟨w, value, rfl, hw, -, hreused, hne⟩ := hl
  refine ⟨_, next_worker.mpr ⟨hw, rfl⟩, fun hserves => hne ?_⟩
  obtain ⟨hlt, -⟩ := List.getElem?_eq_some_iff.mp hw
  have hslot := h.slot
  rw [hreused, Option.getD_some] at hslot
  rw [← hslot]
  exact hserves w s.slot (List.getElem?_set_self hlt)

/-- Any other step leaves each thread that has started with the queue of the pool. -/
theorem ServesQueue.next (h : Keeps msqfd s) (hs : ServesQueue msqfd s) (hl : ¬ LateStart msqfd s l)
    (hst : s.next numThread l = some t) : ServesQueue msqfd t := by
  intro w id hid
  cases l with
  | creator ok =>
    obtain ⟨-, -, -, hthreads | ⟨-, hthreads⟩⟩ := generationServiceThreads_cases hst
    · rw [hthreads] at hid
      exact hs w id hid
    · -- a new thread has not read anything
      rw [hthreads, List.getElem?_append] at hid
      split at hid
      · exact hs w id hid
      · obtain ⟨_, hnew⟩ := List.getElem?_eq_some_iff.mp hid
        rw [List.getElem_singleton] at hnew
        cases hnew
  | reuse value =>
    obtain ⟨-, rfl⟩ := next_reuse.mp hst
    exact hs w id hid
  | worker w' =>
    obtain ⟨hw', rfl⟩ := next_worker.mp hst
    obtain ⟨hlt, -⟩ := List.getElem?_eq_some_iff.mp hw'
    -- the thread that runs reads the slot; it is another value only after a late start
    by_cases hw : w' = w
    · subst hw
      have hread : (s.threads.set w' (.running s.slot))[w']? = some (.running id) := hid
      rw [List.getElem?_set_self hlt] at hread
      cases hread
      rw [h.slot]
      cases hreused : s.reused with
      | none => rfl
      | some value =>
        by_contra hne
        exact hl ⟨w', value, rfl, hw', h.returned value hreused, hreused, hne⟩
    · have hother : (s.threads.set w' (.running s.slot))[w]? = some (.running id) := hid
      rw [List.getElem?_set_ne hw] at hother
      exact hs w id hother

/-! ### Runs -/

/-- All threads of a loop that goes through are created. -/
theorem run_create (q : CInt) {i k : Nat} (threads : List ServiceThread)
    (h : ((i + k : Nat) : Int) ≤ numThread.val) :
    run (next numThread) ⟨.create i, q, threads, none⟩ (List.replicate k (.creator true)) =
      some ⟨.create (i + k), q, threads ++ List.replicate k .created, none⟩ := by
  induction k generalizing i threads with
  | zero => rw [List.replicate_zero, List.replicate_zero, List.append_nil]; rfl
  | succ k ih =>
    have hlt : (i : Int) < numThread.val := by omega
    have hstep : next numThread ⟨.create i, q, threads, none⟩ (.creator true) =
        some ⟨.create (i + 1), q, threads ++ [.created], none⟩ := if_pos hlt
    rw [List.replicate_succ, run_cons, hstep, Option.bind_some, ih _ (by omega), List.append_assoc,
      List.replicate_succ, Nat.add_assoc, Nat.add_comm 1 k]
    rfl

/-- Every pool with a thread has a run in which the first thread starts late. -/
theorem exists_lateStart (hpos : 1 ≤ numThread.val) (msqfd : CInt) :
    ∃ ls s, run (next numThread) (start msqfd) ls = some s ∧ LateStart msqfd s (.worker 0) := by
  obtain ⟨value, hne⟩ : ∃ value : CInt, value ≠ msqfd := by
    by_cases h0 : msqfd = CInt.zero
    · exact ⟨CInt.max, by rw [h0]; decide⟩
    · exact ⟨CInt.zero, Ne.symm h0⟩
  obtain ⟨k, hk⟩ : ∃ k : Nat, numThread.val = (k + 1 : Nat) :=
    ⟨(numThread.val - 1).toNat, by omega⟩
  have hle : ((0 + (k + 1) : Nat) : Int) ≤ numThread.val := by omega
  have hcreate := run_create msqfd [] hle
  have hloop : ¬ ((0 + (k + 1) : Nat) : Int) < numThread.val := by omega
  -- all are created, the call returns, and its storage is reused
  refine ⟨.creator true ::
      (List.replicate (k + 1) (.creator true) ++ [.creator true, .reuse value]),
    ⟨.returned, value, List.replicate (k + 1) .created, some value⟩, ?_, ?_⟩
  · have hstart : next numThread (start msqfd) (.creator true) =
        some ⟨.create 0, msqfd, [], none⟩ := rfl
    have hreturn : next numThread
        ⟨.create (0 + (k + 1)), msqfd, List.replicate (k + 1) .created, none⟩ (.creator true) =
        some ⟨.returned, msqfd, List.replicate (k + 1) .created, none⟩ :=
      if_neg hloop
    rw [run_cons, hstart, Option.bind_some, run_append, hcreate, Option.bind_some, List.nil_append,
      run_cons, hreturn]
    rfl
  · exact ⟨0, value, rfl, rfl, rfl, rfl, hne⟩

/-- Without a thread to create there is none. -/
theorem threads_eq_nil (hnone : numThread.val < 1) {ls : List Label}
    (h : run (next numThread) (start msqfd) ls = some s) : s.threads = [] := by
  refine run_keeps (I := fun s => s.threads = []) (fun s l t hs hst => ?_) rfl h
  cases l with
  | creator ok =>
    obtain ⟨-, -, -, hthreads | ⟨⟨i, -, hi⟩, -⟩⟩ := generationServiceThreads_cases hst
    · rw [hthreads, hs]
    · omega
  | reuse value =>
    obtain ⟨-, rfl⟩ := next_reuse.mp hst
    exact hs
  | worker w =>
    obtain ⟨hw, -⟩ := next_worker.mp hst
    rw [hs] at hw
    cases hw

/-- Every thread gets the queue exactly when no start is late. -/
theorem throughout_iff_never_late (numThread msqfd : CInt) (ls : List Label) :
    Throughout (next numThread) (ServesQueue msqfd) (start msqfd) ls ↔
      Along (next numThread) (fun s l => ¬ LateStart msqfd s l) (start msqfd) ls := by
  have hstart : ServesQueue msqfd (start msqfd) := by
    intro w id hid
    cases hid
  apply throughout_iff_never (I := Keeps msqfd) _ _ _ (keeps_start msqfd) hstart ls
  · exact fun s l t h _ hst => h.next hst
  · exact fun s l h hl => hl.reads_other h
  · exact fun s l t h hs hl hst => hs.next h hl hst

/-- **The queue of the pool.**  In a run every thread gets the queue passed to
    `GenerationServiceThreads` if and only if none starts late.  This is so in all runs only of a
    pool without threads. -/
theorem servesQueue_iff (numThread msqfd : CInt) (ls : List Label) :
    (Throughout (next numThread) (ServesQueue msqfd) (start msqfd) ls ↔
      Along (next numThread) (fun s l => ¬ LateStart msqfd s l) (start msqfd) ls) ∧
    ((∀ ls, Throughout (next numThread) (ServesQueue msqfd) (start msqfd) ls) ↔
      numThread.val < 1) := by
  refine ⟨throughout_iff_never_late numThread msqfd ls, fun hall => ?_,
    fun hnone ls pre s _ hs => ?_⟩
  · by_contra hpos
    obtain ⟨ls, s, hs, hlate⟩ := exists_lateStart (Int.not_lt.mp hpos) msqfd
    have halong := (throughout_iff_never_late numThread msqfd _).mp (hall (ls ++ [.worker 0]))
    exact (halong.of_append hs).1 hlate
  · intro w id hid
    rw [threads_eq_nil hnone hs] at hid
    cases hid

/-- One thread, which starts when the storage of the parameter holds 7, and not the queue 3. -/
theorem not_servesQueue :
    ¬ ∀ (numThread msqfd : CInt) (ls : List Label), 1 ≤ numThread.val →
      Throughout (next numThread) (ServesQueue msqfd) (start msqfd) ls := by
  intro h
  have hserves := h ⟨1, by decide⟩ ⟨3, by decide⟩
    [.creator true, .creator true, .creator true, .reuse ⟨7, by decide⟩, .worker 0] (by decide)
    _ _ (List.prefix_refl _) rfl
  exact absurd (hserves 0 ⟨7, by decide⟩ rfl) (by decide)

end Pool

end EltexHomeworks.ServerQueue
