import Mathlib.Data.List.Nodup
import EltexHomeworks.Lib.Run

namespace EltexHomeworks.Lib

/-!
# Processes — `fork`, `wait` and `exit`

A table of processes, each with its number, the number of its parent, and where it is in its
program; a process that has ended stays in the table as a zombie until its parent waits for it.
A program is given by what each of its places calls (`Call`), so all processes may run the same
one.  `next` is one call of one process; which process moves, which number a new process gets and
which zombie `wait` returns is the choice of the kernel, and part of the label.

* `next_cases` — what a call can do, with `Moves` as the list of it;
* `Orderly` — the numbers are unique, every parent is in the table and stands in front of its
  children, or is the kernel's own process, to which those go whose parent has ended;
* `Orderly.next` — that every call keeps this.
-/

/-- The process that adopts the children of a process that ends. -/
def INIT : Nat := 1

/-- A call of a process, and the places where it goes on. -/
inductive Call (κ ο : Type)
  /-- Output that depends on `getpid()` and `getppid()`. -/
  | write (text : Nat → Nat → ο) (next : κ)
  | sleep (next : κ)
  /-- `fork`, with the places after a failure, in the child, and in the parent, which gets the
      number of the child. -/
  | fork (failed child : κ) (parent : Nat → κ)
  /-- `wait`, which returns the number of a child, or `-1` without one. -/
  | wait (next : Option Nat → κ)
  | waitpid (pid : Nat) (next : Option Nat → κ)
  | exit

/-- An entry of the table; without a place in the program it is a zombie. -/
structure Proc (κ : Type) where
  pid : Nat
  ppid : Nat
  code : Option κ
deriving DecidableEq

/-- The table, and what was written by whom. -/
structure Processes (κ ο : Type) where
  table : List (Proc κ)
  output : List (Nat × ο)

namespace Processes

variable {κ ο : Type}

section Operations

variable (s : Processes κ ο)

/-- The process `p` goes on at `k`. -/
def goto (p : Nat) (k : κ) : Processes κ ο :=
  { s with table := s.table.map fun e => if e.pid = p then { e with code := some k } else e }

/-- The process `p` writes. -/
def write (p : Nat) (text : ο) : Processes κ ο := { s with output := s.output ++ [(p, text)] }

/-- A new process `c`, a child of `p`. -/
def add (c p : Nat) (k : κ) : Processes κ ο := { s with table := s.table ++ [⟨c, p, some k⟩] }

/-- The zombie `c` leaves the table. -/
def reap (c : Nat) : Processes κ ο := { s with table := s.table.filter fun e => e.pid ≠ c }

/-- The process `p` becomes a zombie, and its children get another parent. -/
def exit (p : Nat) : Processes κ ο :=
  { s with
    table := s.table.map fun e =>
      if e.pid = p then { e with code := none }
      else if e.ppid = p then { e with ppid := INIT }
      else e }

/-- A number for a new process. -/
def Free (c : Nat) : Prop := INIT < c ∧ ∀ e ∈ s.table, e.pid ≠ c

/-- `c` is a child of `p`. -/
def Child (p c : Nat) : Prop := ∃ e ∈ s.table, e.pid = c ∧ e.ppid = p

/-- `c` is a child of `p` that has ended. -/
def Ended (p c : Nat) : Prop := ∃ e ∈ s.table, (e.pid = c ∧ e.ppid = p) ∧ e.code.isNone

def HasChild (p : Nat) : Prop := ∃ e ∈ s.table, e.ppid = p

instance (c : Nat) : Decidable (s.Free c) := inferInstanceAs (Decidable (_ ∧ _))

instance (p c : Nat) : Decidable (s.Child p c) := inferInstanceAs (Decidable (∃ e ∈ s.table, _))

instance (p c : Nat) : Decidable (s.Ended p c) := inferInstanceAs (Decidable (∃ e ∈ s.table, _))

instance (p : Nat) : Decidable (s.HasChild p) := inferInstanceAs (Decidable (∃ e ∈ s.table, _))

end Operations

/-- A step: the process that makes its call, and what the kernel chooses — the number of a new
    process, `0` when `fork` fails, or the child that `wait` returns. -/
structure Label where
  pid : Nat
  choice : Nat

/-- A call of the process `p`, whose parent is `pp`; `none` when it blocks.  `wait` and `waitpid`
    block as long as there is a child to wait for that has not ended. -/
def call (s : Processes κ ο) (p pp : Nat) (choice : Nat) : Call κ ο → Option (Processes κ ο)
  | .write text k => some ((s.goto p k).write p (text p pp))
  | .sleep k => some (s.goto p k)
  | .fork failed child parent =>
    if choice = 0 then some (s.goto p failed)
    else if s.Free choice then some ((s.goto p (parent choice)).add choice p child)
    else none
  | .wait k =>
    if s.HasChild p then
      if s.Ended p choice then some ((s.reap choice).goto p (k (some choice))) else none
    else some (s.goto p (k none))
  | .waitpid c k =>
    if s.Child p c then
      if s.Ended p c then some ((s.reap c).goto p (k (some c))) else none
    else some (s.goto p (k none))
  | .exit => some (s.exit p)

/-- The next state, with the program given by `prog`. -/
def next (prog : κ → Call κ ο) (s : Processes κ ο) (l : Label) : Option (Processes κ ο) := do
  let e ← s.table.find? fun e => e.pid = l.pid
  let k ← e.code
  s.call e.pid e.ppid l.choice (prog k)

/-- A program starts as the process `root`, whose parent is not in the table. -/
def start (root : Nat) (k : κ) : Processes κ ο := ⟨[⟨root, 0, some k⟩], []⟩

/-- The process `p` is at `k` in its program. -/
def At (s : Processes κ ο) (p pp : Nat) (k : κ) : Prop := ⟨p, pp, some k⟩ ∈ s.table

variable {prog : κ → Call κ ο} {s t : Processes κ ο} {l : Label}

/-- What a call of the process `l.pid` can do; the choice of the label is the result of `fork`, or
    the child that `wait` returns.  A call that blocks has no case. -/
inductive Moves (prog : κ → Call κ ο) (s : Processes κ ο) (l : Label) : Processes κ ο → Prop
  | write {pp : Nat} {k k' : κ} {text : Nat → Nat → ο} (hrun : s.At l.pid pp k)
      (hcall : prog k = .write text k') :
      Moves prog s l ((s.goto l.pid k').write l.pid (text l.pid pp))
  | sleep {pp : Nat} {k k' : κ} (hrun : s.At l.pid pp k) (hcall : prog k = .sleep k') :
      Moves prog s l (s.goto l.pid k')
  | forkFails {pp : Nat} {k failed child : κ} {parent : Nat → κ} (hrun : s.At l.pid pp k)
      (hcall : prog k = .fork failed child parent) (hfail : l.choice = 0) :
      Moves prog s l (s.goto l.pid failed)
  | fork {pp : Nat} {k failed child : κ} {parent : Nat → κ} (hrun : s.At l.pid pp k)
      (hcall : prog k = .fork failed child parent) (hfree : s.Free l.choice) :
      Moves prog s l ((s.goto l.pid (parent l.choice)).add l.choice l.pid child)
  | reap {pp c : Nat} {k : κ} {k' : Option Nat → κ} (hrun : s.At l.pid pp k)
      (hcall : prog k = .wait k' ∨ prog k = .waitpid c k') (hended : s.Ended l.pid c) :
      Moves prog s l ((s.reap c).goto l.pid (k' (some c)))
  | childless {pp : Nat} {k : κ} {k' : Option Nat → κ} (hrun : s.At l.pid pp k)
      (hcall : prog k = .wait k' ∧ ¬ s.HasChild l.pid ∨
        ∃ c, prog k = .waitpid c k' ∧ ¬ s.Child l.pid c) :
      Moves prog s l (s.goto l.pid (k' none))
  | exit {pp : Nat} {k : κ} (hrun : s.At l.pid pp k) (hcall : prog k = .exit) :
      Moves prog s l (s.exit l.pid)

/-- **What a call can do.** -/
theorem next_cases (h : s.next prog l = some t) : Moves prog s l t := by
  unfold next at h
  obtain ⟨e, he, h⟩ := Option.bind_eq_some_iff.mp h
  obtain ⟨k, hk, h⟩ := Option.bind_eq_some_iff.mp h
  have hpid : e.pid = l.pid := by simpa using List.find?_some he
  have hrun : s.At l.pid e.ppid k := by
    have hmem := List.mem_of_find?_eq_some he
    rw [At, ← hpid, ← hk]
    exact hmem
  rw [hpid] at h
  -- of each call there are as many moves as it has outcomes
  cases hcall : prog k with
  | write text k' =>
    rw [hcall] at h
    cases h
    exact .write hrun hcall
  | sleep k' =>
    rw [hcall] at h
    cases h
    exact .sleep hrun hcall
  | fork failed child parent =>
    rw [hcall, call] at h
    split at h
    · rename_i hfail
      cases h
      exact .forkFails hrun hcall hfail
    · -- the number of a new process must be free
      obtain ⟨hfree, h⟩ := Option.ite_none_right_eq_some.mp h
      cases h
      exact .fork hrun hcall hfree
  | wait k' =>
    rw [hcall, call] at h
    split at h
    · obtain ⟨hended, h⟩ := Option.ite_none_right_eq_some.mp h
      cases h
      -- with no child left the call returns at once
      exact .reap hrun (.inl hcall) hended
    · rename_i hno
      cases h
      exact .childless hrun (.inl ⟨hcall, hno⟩)
  | waitpid c k' =>
    rw [hcall, call] at h
    split at h
    · obtain ⟨hended, h⟩ := Option.ite_none_right_eq_some.mp h
      cases h
      exact .reap hrun (.inr hcall) hended
    · rename_i hno
      cases h
      exact .childless hrun (.inr ⟨c, hcall, hno⟩)
  | exit =>
    rw [hcall] at h
    cases h
    exact .exit hrun hcall

/-! ### What the operations leave in the table -/

theorem mem_goto {p : Nat} {k : κ} {d : Proc κ} :
    d ∈ (s.goto p k).table ↔
      ∃ e ∈ s.table, (if e.pid = p then { e with code := some k } else e) = d := by
  simp only [goto, List.mem_map]

theorem mem_reap {c : Nat} {d : Proc κ} : d ∈ (s.reap c).table ↔ d ∈ s.table ∧ d.pid ≠ c := by
  simp [reap]

theorem mem_add {c p : Nat} {k : κ} {d : Proc κ} :
    d ∈ (s.add c p k).table ↔ d ∈ s.table ∨ d = ⟨c, p, some k⟩ := by
  simp [add]

theorem mem_exit {p : Nat} {d : Proc κ} :
    d ∈ (s.exit p).table ↔ ∃ e ∈ s.table,
      (if e.pid = p then { e with code := none }
        else if e.ppid = p then { e with ppid := INIT } else e) = d := by
  simp only [exit, List.mem_map]

@[simp] theorem table_write {p : Nat} {text : ο} : (s.write p text).table = s.table := rfl

/-- `goto` changes no number. -/
theorem pids_goto {p : Nat} {k : κ} : (s.goto p k).table.map Proc.pid = s.table.map Proc.pid := by
  rw [goto, List.map_map]
  refine List.map_congr_left fun e _ => ?_
  show (if e.pid = p then { e with code := some k } else e).pid = e.pid
  split <;> rfl

theorem pids_exit {p : Nat} : (s.exit p).table.map Proc.pid = s.table.map Proc.pid := by
  rw [exit, List.map_map]
  refine List.map_congr_left fun e _ => ?_
  show (if e.pid = p then { e with code := none }
    else if e.ppid = p then { e with ppid := INIT } else e).pid = e.pid
  split
  · rfl
  · split <;> rfl

/-! ### The order of the table -/

/-- The numbers are unique, and a parent in the table runs and stands in front of its children. -/
structure Orderly (s : Processes κ ο) : Prop where
  nodup : (s.table.map Proc.pid).Nodup
  init_lt : ∀ e ∈ s.table, INIT < e.pid
  parent : ∀ e ∈ s.table, INIT < e.ppid → ∃ d ∈ s.table, d.pid = e.ppid ∧ d.code.isSome
  older : s.table.Pairwise fun e d => e.ppid ≠ d.pid
  ne_self : ∀ e ∈ s.table, e.ppid ≠ e.pid

namespace Orderly

theorem eq_of_pid (h : Orderly s) {e d : Proc κ} (he : e ∈ s.table) (hd : d ∈ s.table)
    (hpid : e.pid = d.pid) : e = d :=
  List.inj_on_of_nodup_map h.nodup he hd hpid

/-- A running process is no zombie. -/
theorem ne_of_ended (h : Orderly s) {e : Proc κ} {p c : Nat} (he : e ∈ s.table)
    (hcode : e.code.isSome) (hc : s.Ended p c) : e.pid ≠ c := by
  obtain ⟨d, hd, ⟨hpid, -⟩, hnone⟩ := hc
  rintro rfl
  rw [h.eq_of_pid he hd hpid.symm, Option.isSome_iff_ne_none] at hcode
  exact hcode (Option.isNone_iff_eq_none.mp hnone)

theorem write (h : Orderly s) {p : Nat} {text : ο} : Orderly (s.write p text) :=
  ⟨h.nodup, h.init_lt, h.parent, h.older, h.ne_self⟩

theorem goto (h : Orderly s) (p : Nat) (k : κ) : Orderly (s.goto p k) where
  nodup := by rw [pids_goto]; exact h.nodup
  init_lt d hd := by
    obtain ⟨e, he, rfl⟩ := mem_goto.mp hd
    split <;> exact h.init_lt e he
  parent d hd hlt := by
    obtain ⟨e, he, rfl⟩ := mem_goto.mp hd
    have hppid : (if e.pid = p then { e with code := some k } else e).ppid = e.ppid := by
      split <;> rfl
    rw [hppid] at hlt ⊢
    obtain ⟨f, hf, hpid, hcode⟩ := h.parent e he hlt
    refine ⟨_, mem_goto.mpr ⟨f, hf, rfl⟩, ?_⟩
    split
    · exact ⟨hpid, rfl⟩
    · exact ⟨hpid, hcode⟩
  older := by
    refine List.pairwise_map.mpr (h.older.imp fun {e d} hed => ?_)
    split <;> split <;> exact hed
  ne_self d hd := by
    obtain ⟨e, he, rfl⟩ := mem_goto.mp hd
    split <;> exact h.ne_self e he

theorem reap (h : Orderly s) {p c : Nat} (hc : s.Ended p c) : Orderly (s.reap c) where
  nodup := h.nodup.sublist (List.filter_sublist.map _)
  init_lt d hd := h.init_lt d (mem_reap.mp hd).1
  parent d hd hlt := by
    obtain ⟨e, he, hpid, hcode⟩ := h.parent d (mem_reap.mp hd).1 hlt
    exact ⟨e, mem_reap.mpr ⟨he, h.ne_of_ended he hcode hc⟩, hpid, hcode⟩
  older := h.older.sublist List.filter_sublist
  ne_self d hd := h.ne_self d (mem_reap.mp hd).1

theorem add (h : Orderly s) {p pp c : Nat} {k k' : κ} (hrun : s.At p pp k) (hfree : s.Free c) :
    Orderly (s.add c p k') where
  nodup := by
    rw [Processes.add, List.map_append, List.nodup_append]
    refine ⟨h.nodup, List.nodup_singleton _, fun q hq q' hq' => ?_⟩
    obtain ⟨e, he, rfl⟩ := List.mem_map.mp hq
    rw [List.map_singleton, List.mem_singleton] at hq'
    rw [hq']
    exact hfree.2 e he
  init_lt d hd := by
    rcases mem_add.mp hd with hd | rfl
    · exact h.init_lt d hd
    · exact hfree.1
  parent d hd hlt := by
    rcases mem_add.mp hd with hd | rfl
    · obtain ⟨e, he, hpid⟩ := h.parent d hd hlt
      exact ⟨e, mem_add.mpr (.inl he), hpid⟩
    · exact ⟨_, mem_add.mpr (.inl hrun), rfl, rfl⟩
  older := by
    rw [Processes.add, List.pairwise_append]
    refine ⟨h.older, List.pairwise_singleton _ _, fun e he d hd => ?_⟩
    rw [List.mem_singleton] at hd
    rw [hd]
    -- nobody has the new number for its parent's
    intro hpp
    have hlt : INIT < e.ppid := by rw [hpp]; exact hfree.1
    obtain ⟨f, hf, hpid, -⟩ := h.parent e he hlt
    exact hfree.2 f hf (hpid.trans hpp)
  ne_self d hd := by
    rcases mem_add.mp hd with hd | rfl
    · exact h.ne_self d hd
    · exact hfree.2 _ hrun

theorem exit (h : Orderly s) (p : Nat) : Orderly (s.exit p) where
  nodup := by rw [pids_exit]; exact h.nodup
  -- a process that is adopted keeps its own number
  init_lt d hd := by
    obtain ⟨e, he, rfl⟩ := mem_exit.mp hd
    split
    · exact h.init_lt e he
    · split <;> exact h.init_lt e he
  parent d hd hlt := by
    obtain ⟨e, he, rfl⟩ := mem_exit.mp hd
    -- the parent was not `p`, or the process was adopted
    have hother : (if e.pid = p then { e with code := none }
        else if e.ppid = p then { e with ppid := INIT } else e).ppid = e.ppid ∧ e.ppid ≠ p := by
      split
      · rename_i hpid
        exact ⟨rfl, fun hpp => h.ne_self e he (hpp.trans hpid.symm)⟩
      · split
        · rename_i hpid hpp
          rw [if_neg hpid, if_pos hpp] at hlt
          exact absurd hlt (Nat.lt_irrefl _)
        · rename_i hpp
          exact ⟨rfl, hpp⟩
    rw [hother.1] at hlt ⊢
    obtain ⟨f, hf, hpid, hcode⟩ := h.parent e he hlt
    refine ⟨_, mem_exit.mpr ⟨f, hf, rfl⟩, ?_⟩
    rw [if_neg (by rw [hpid]; exact hother.2)]
    split <;> exact ⟨hpid, hcode⟩
  older := by
    -- who is older than its parent's number is still so when the parent is `INIT`
    refine List.pairwise_map.mpr (h.older.imp_of_mem fun {e d} he hd hed => ?_)
    have hpid : ∀ e : Proc κ, (if e.pid = p then { e with code := none }
        else if e.ppid = p then { e with ppid := INIT } else e).pid = e.pid := by
      intro e
      split
      · rfl
      · split <;> rfl
    rw [hpid]
    split
    · exact hed
    · split
      · exact Nat.ne_of_lt (h.init_lt d hd)
      · exact hed
  ne_self d hd := by
    obtain ⟨e, he, rfl⟩ := mem_exit.mp hd
    split
    · exact h.ne_self e he
    · split
      · exact Nat.ne_of_lt (h.init_lt e he)
      · exact h.ne_self e he

end Orderly

/-- Any call keeps the order. -/
theorem Orderly.next (h : Orderly s) (hst : s.next prog l = some t) : Orderly t := by
  cases next_cases hst with
  | write hrun hcall => exact (h.goto _ _).write
  | sleep hrun hcall => exact h.goto _ _
  | forkFails hrun hcall hfail => exact h.goto _ _
  | fork hrun hcall hfree =>
    refine (h.goto _ _).add (mem_goto.mpr ⟨_, hrun, if_pos rfl⟩) ⟨hfree.1, fun d hd => ?_⟩
    obtain ⟨e, he, rfl⟩ := mem_goto.mp hd
    split <;> exact hfree.2 e he
  | reap hrun hcall hended => exact (h.reap hended).goto _ _
  | childless hrun hcall => exact h.goto _ _
  | exit hrun hcall => exact h.exit _

theorem orderly_start {root : Nat} (hroot : INIT < root) (k : κ) :
    Orderly (start (ο := ο) root k) where
  nodup := List.nodup_singleton _
  init_lt e he := by rw [List.mem_singleton.mp he]; exact hroot
  parent e he hlt := by rw [List.mem_singleton.mp he] at hlt; exact absurd hlt (Nat.not_lt_zero _)
  older := List.pairwise_singleton _ _
  ne_self e he := by
    rw [List.mem_singleton.mp he]
    exact Nat.ne_of_lt (Nat.lt_trans Nat.zero_lt_one hroot)

end Processes

end EltexHomeworks.Lib
