import Mathlib.Algebra.Order.BigOperators.Group.List
import Mathlib.Algebra.Order.Ring.Nat
import EltexHomeworks.Lib.Processes

namespace EltexHomeworks.Lib.Processes

open EltexHomeworks.Lib

/-!
# Processes that wait for their children

A program whose processes know their children: `owes k` are the children a process at the place `k`
has and has not waited for.  `Disciplined` says that the calls keep these books, each place by
itself; what follows holds of all processes under every interleaving.

* `Accounted` — the books are right: the children a process owes are the children it has;
* `Accounted.next`, `noOrphan_iff` — they stay right, and no process gets another parent, until a
  process ends that still owes children;
* `progress`, `stuck_iff` — some process can go on, whether or not a `fork` fails, until all have
  ended;
* `length_le` — with a `rank` that every call lowers, no run is longer than the rank of its start;
* `table_of_finished` — at the end everybody was waited for, unless there are orphans.
-/

variable {κ ο : Type} {prog : κ → Call κ ο} {owes : κ → List Nat} {s t : Processes κ ο} {l : Label}

/-- A call of a process that owes the children `had` keeps the books `owes`. -/
def Keeps (owes : κ → List Nat) (had : List Nat) : Call κ ο → Prop
  | .write _ k => owes k = had
  | .sleep k => owes k = had
  | .fork failed child parent =>
    owes failed = had ∧ owes child = [] ∧ ∀ c, (owes (parent c)).Perm (c :: had)
  | .wait k => had ≠ [] ∧ ∀ c ∈ had, (owes (k (some c))).Perm (had.erase c)
  | .waitpid c k => c ∈ had ∧ (owes (k (some c))).Perm (had.erase c)
  | .exit => True

/-- All places keep the books. -/
def Disciplined (prog : κ → Call κ ο) (owes : κ → List Nat) : Prop :=
  ∀ k, Keeps owes (owes k) (prog k)

theorem Disciplined.call (hd : Disciplined prog owes) {k : κ} {c : Call κ ο} (hcall : prog k = c) :
    Keeps owes (owes k) c :=
  hcall ▸ hd k

theorem Disciplined.waited (hd : Disciplined prog owes) {k : κ} {c : Nat} {k' : Option Nat → κ}
    (hcall : prog k = .wait k' ∨ prog k = .waitpid c k') (hc : c ∈ owes k) :
    (owes (k' (some c))).Perm ((owes k).erase c) := by
  rcases hcall with hcall | hcall
  · exact (hd.call hcall).2 c hc
  · exact (hd.call hcall).2

/-- The children a process owes are those it has, and a zombie has none. -/
structure Accounted (owes : κ → List Nat) (s : Processes κ ο) : Prop where
  nodup : ∀ {p pp k}, s.At p pp k → (owes k).Nodup
  mem_iff : ∀ {p pp k}, s.At p pp k → ∀ c, c ∈ owes k ↔ s.Child p c
  ended : ∀ e ∈ s.table, e.code.isNone → ¬ s.HasChild e.pid

/-- No process has lost its parent. -/
def NoOrphan (s : Processes κ ο) : Prop := ∀ e ∈ s.table, e.ppid ≠ INIT

/-- A process ends that still owes children. -/
def Abandons (prog : κ → Call κ ο) (owes : κ → List Nat) (s : Processes κ ο) (l : Label) : Prop :=
  ∃ pp k, s.At l.pid pp k ∧ prog k = .exit ∧ owes k ≠ []

/-! ### Who is whose child -/

theorem child_goto {p q c : Nat} {k : κ} : (s.goto q k).Child p c ↔ s.Child p c := by
  constructor
  · rintro ⟨d, hd, hpid, hppid⟩
    obtain ⟨e, he, rfl⟩ := mem_goto.mp hd
    refine ⟨e, he, ?_⟩
    rw [← hpid, ← hppid]
    split <;> exact ⟨rfl, rfl⟩
  · rintro ⟨e, he, rfl, rfl⟩
    refine ⟨_, mem_goto.mpr ⟨e, he, rfl⟩, ?_⟩
    split <;> exact ⟨rfl, rfl⟩

theorem child_add {p q c c' : Nat} {k : κ} :
    (s.add c' q k).Child p c ↔ s.Child p c ∨ c' = c ∧ q = p := by
  simp only [Child, mem_add, or_and_right, exists_or, exists_eq_left]

theorem child_reap {p c c' : Nat} : (s.reap c').Child p c ↔ s.Child p c ∧ c ≠ c' := by
  constructor
  · rintro ⟨e, he, rfl, hppid⟩
    obtain ⟨he, hne⟩ := mem_reap.mp he
    exact ⟨⟨e, he, rfl, hppid⟩, hne⟩
  · rintro ⟨⟨e, he, rfl, hppid⟩, hne⟩
    exact ⟨e, mem_reap.mpr ⟨he, hne⟩, rfl, hppid⟩

theorem hasChild_iff {p : Nat} : s.HasChild p ↔ ∃ c, s.Child p c := by
  constructor
  · rintro ⟨e, he, hppid⟩
    exact ⟨e.pid, e, he, rfl, hppid⟩
  · rintro ⟨c, e, he, _, hppid⟩
    exact ⟨e, he, hppid⟩

/-- After `goto`, the process is at its new place, and the others where they were. -/
theorem at_goto {p q pp : Nat} {k k' : κ} (h : (s.goto q k').At p pp k) :
    p = q ∧ k = k' ∨ p ≠ q ∧ s.At p pp k := by
  obtain ⟨e, he, heq⟩ := mem_goto.mp h
  by_cases hpid : e.pid = q
  · rw [if_pos hpid] at heq
    cases heq
    exact .inl ⟨hpid, rfl⟩
  · rw [if_neg hpid] at heq
    subst heq
    exact .inr ⟨hpid, he⟩

/-- After `exit`, the other processes are where they were. -/
theorem at_exit {p q pp : Nat} {k : κ} (h : (s.exit q).At p pp k) :
    p ≠ q ∧ ∃ pp', s.At p pp' k := by
  obtain ⟨⟨pid, ppid, code⟩, he, heq⟩ := mem_exit.mp h
  split at heq
  · cases heq
  · rename_i hpid
    split at heq
    all_goals
      cases heq
      exact ⟨hpid, _, he⟩

/-- The process that ended has no child any more, and the others, but for `INIT`, have theirs. -/
theorem Orderly.child_exit (h : Orderly s) {p q c : Nat} (hp : INIT < p) :
    (s.exit q).Child p c ↔ p ≠ q ∧ s.Child p c := by
  constructor
  · rintro ⟨d, hd, hpid, hppid⟩
    obtain ⟨e, he, rfl⟩ := mem_exit.mp hd
    split at hpid
    · rename_i hq
      rw [if_pos hq] at hppid
      exact ⟨fun hpq => h.ne_self e he (hppid.trans (hpq.trans hq.symm)), e, he, hpid, hppid⟩
    · rename_i hq
      rw [if_neg hq] at hppid
      split at hppid
      · exact absurd hppid (Nat.ne_of_lt hp)
      · rename_i hqq
        rw [if_neg hqq] at hpid
        exact ⟨fun hpq => hqq (hppid.trans hpq), e, he, hpid, hppid⟩
  · rintro ⟨hne, e, he, rfl, rfl⟩
    refine ⟨_, mem_exit.mpr ⟨e, he, rfl⟩, ?_⟩
    rw [if_neg hne]
    split <;> exact ⟨rfl, rfl⟩

/-- The entry of a process, cut out of the table: what is written to the place of the process is
    written there. -/
theorem Orderly.split (h : Orderly s) {p pp : Nat} {k : κ} (hrun : s.At p pp k) :
    ∃ l r, s.table = l ++ ⟨p, pp, some k⟩ :: r ∧ (∀ e ∈ l ++ r, e.pid ≠ p) ∧
      ∀ o, s.table.map (fun e => if e.pid = p then { e with code := o } else e) =
        l ++ ⟨p, pp, o⟩ :: r := by
  obtain ⟨l, r, htable⟩ := List.append_of_mem hrun
  have hother : ∀ e ∈ l ++ r, e.pid ≠ p := by
    have hnodup := h.nodup
    rw [htable, List.map_append, List.map_cons, List.nodup_middle, List.nodup_cons,
      ← List.map_append] at hnodup
    intro e he hpid
    exact hnodup.1 (List.mem_map.mpr ⟨e, he, hpid⟩)
  refine ⟨l, r, htable, hother, fun o => ?_⟩
  have hsame : ∀ es : List (Proc κ), (∀ e ∈ es, e.pid ≠ p) →
      es.map (fun e => if e.pid = p then { e with code := o } else e) = es := by
    intro es hes
    exact (List.map_congr_left fun e he => if_neg (hes e he)).trans (List.map_id es)
  rw [htable, List.map_append, List.map_cons, if_pos rfl,
    hsame l fun e he => hother e (List.mem_append_left _ he),
    hsame r fun e he => hother e (List.mem_append_right _ he)]

/-! ### One call -/

namespace Accounted

/-- A process goes on with the children it had. -/
theorem goto (h : Accounted owes s) {p pp : Nat} {k k' : κ} (hrun : s.At p pp k)
    (howes : owes k' = owes k) : Accounted owes (s.goto p k') where
  nodup hat := by
    rcases at_goto hat with ⟨-, rfl⟩ | ⟨-, hat⟩
    · rw [howes]
      exact h.nodup hrun
    · exact h.nodup hat
  mem_iff hat c := by
    rw [child_goto]
    rcases at_goto hat with ⟨rfl, rfl⟩ | ⟨-, hat⟩
    · rw [howes]
      exact h.mem_iff hrun c
    · exact h.mem_iff hat c
  ended d hd hnone := by
    obtain ⟨e, he, rfl⟩ := mem_goto.mp hd
    have hchild : ∀ q, (s.goto p k').HasChild q ↔ s.HasChild q := by
      intro q
      simp only [hasChild_iff, child_goto]
    rw [hchild]
    by_cases hpid : e.pid = p
    · rw [if_pos hpid] at hnone
      cases hnone
    · rw [if_neg hpid] at hnone ⊢
      exact h.ended e he hnone

theorem write (h : Accounted owes s) {p : Nat} {text : ο} : Accounted owes (s.write p text) :=
  ⟨h.nodup, h.mem_iff, h.ended⟩

/-- A process gets a child. -/
theorem fork (h : Accounted owes s) {p pp c : Nat} {k k' child : κ} (hrun : s.At p pp k)
    (hfree : s.Free c) (ho : Orderly s) (hchild : owes child = [])
    (hparent : (owes k').Perm (c :: owes k)) : Accounted owes ((s.goto p k').add c p child) := by
  have hne : p ≠ c := hfree.2 _ hrun
  -- nobody has the new number, neither for its own nor for its parent's
  have hnew : ∀ q, ¬ s.Child q c := fun q ⟨e, he, hpid, _⟩ => hfree.2 e he hpid
  have hno : ∀ q, ¬ s.Child c q := by
    rintro q ⟨e, he, _, hppid⟩
    obtain ⟨d, hd, hpid, -⟩ := ho.parent e he (by rw [hppid]; exact hfree.1)
    exact hfree.2 d hd (hpid.trans hppid)
  have hplace : ∀ {q qq k''}, ((s.goto p k').add c p child).At q qq k'' →
      q = c ∧ k'' = child ∨ q = p ∧ k'' = k' ∨ q ≠ p ∧ s.At q qq k'' := by
    intro q qq k'' hat
    rcases mem_add.mp hat with hat | heq
    · exact .inr (at_goto hat)
    · cases heq
      exact .inl ⟨rfl, rfl⟩
  refine ⟨fun hat => ?_, fun hat q => ?_, fun d hd hnone => ?_⟩
  · -- the numbers owed are different: the new one was nobody's
    rcases hplace hat with ⟨-, rfl⟩ | ⟨-, rfl⟩ | ⟨-, hat⟩
    · rw [hchild]
      exact List.nodup_nil
    · rw [hparent.nodup_iff, List.nodup_cons]
      exact ⟨fun hc => hnew p ((h.mem_iff hrun c).mp hc), h.nodup hrun⟩
    · exact h.nodup hat
  · rw [child_add, child_goto]
    rcases hplace hat with ⟨rfl, rfl⟩ | ⟨rfl, rfl⟩ | ⟨hq, hat⟩
    · rw [hchild]
      refine iff_of_false List.not_mem_nil ?_
      rintro (hq | ⟨-, rfl⟩)
      · exact hno q hq
      · exact hne rfl
    · -- the parent owes its new child as well
      rw [hparent.mem_iff, List.mem_cons, h.mem_iff hrun, or_comm, eq_comm (a := q),
        and_iff_left rfl]
    · rw [h.mem_iff hat, or_iff_left]
      rintro ⟨-, rfl⟩
      exact hq rfl
  · -- who has ended has got no child
    rw [hasChild_iff]
    rintro ⟨q, hq⟩
    rw [child_add, child_goto] at hq
    rcases mem_add.mp hd with hd | rfl
    · obtain ⟨e, he, rfl⟩ := mem_goto.mp hd
      by_cases hpid : e.pid = p
      · rw [if_pos hpid] at hnone
        cases hnone
      · rw [if_neg hpid] at hnone hq
        rcases hq with hq | ⟨-, hq⟩
        · exact h.ended e he hnone (hasChild_iff.mpr ⟨q, hq⟩)
        · exact hpid hq.symm
    · cases hnone

/-- A process waits for a child. -/
theorem reap (h : Accounted owes s) (ho : Orderly s) {p pp c : Nat} {k k' : κ}
    (hrun : s.At p pp k) (hc : s.Ended p c) (hperm : (owes k').Perm ((owes k).erase c)) :
    Accounted owes ((s.reap c).goto p k') := by
  obtain ⟨z, hz, ⟨hzpid, hzppid⟩, hznone⟩ := hc
  have hown : ∀ {q qq k''}, s.At q qq k'' → q ≠ p →
      ∀ c', c' ∈ owes k'' ↔ s.Child q c' ∧ c' ≠ c := by
    intro q qq k'' hat hq c'
    rw [h.mem_iff hat]
    refine ⟨fun hc' => ⟨hc', ?_⟩, fun hc' => hc'.1⟩
    -- the child of another process is another one
    rintro rfl
    obtain ⟨d, hd, hpid, hppid⟩ := hc'
    rw [ho.eq_of_pid hd hz (hpid.trans hzpid.symm)] at hppid
    exact hq (hppid.symm.trans hzppid)
  refine ⟨fun hat => ?_, fun hat c' => ?_, fun d hd hnone => ?_⟩
  · rcases at_goto hat with ⟨-, rfl⟩ | ⟨-, hat⟩
    · exact hperm.nodup_iff.mpr ((h.nodup hrun).erase c)
    · exact h.nodup (mem_reap.mp hat).1
  · rw [child_goto, child_reap]
    rcases at_goto hat with ⟨rfl, rfl⟩ | ⟨hq, hat⟩
    · rw [hperm.mem_iff, (h.nodup hrun).mem_erase_iff, h.mem_iff hrun, and_comm]
    · exact hown (mem_reap.mp hat).1 hq c'
  · rw [hasChild_iff]
    rintro ⟨q, hq⟩
    rw [child_goto, child_reap] at hq
    obtain ⟨e, he, rfl⟩ := mem_goto.mp hd
    by_cases hpid : e.pid = p
    · rw [if_pos hpid] at hnone
      cases hnone
    · rw [if_neg hpid] at hnone hq
      exact h.ended e (mem_reap.mp he).1 hnone (hasChild_iff.mpr ⟨q, hq.1⟩)

/-- A process that ends without a child changes no other entry. -/
theorem table_exit (h : Accounted owes s) {p pp : Nat} {k : κ} (hrun : s.At p pp k)
    (hk : owes k = []) : (s.exit p).table =
      s.table.map fun e => if e.pid = p then { e with code := none } else e := by
  refine List.map_congr_left fun e he => ?_
  have hpp : e.ppid ≠ p := by
    intro hpp
    have hc := (h.mem_iff hrun e.pid).mpr ⟨e, he, rfl, hpp⟩
    rw [hk] at hc
    cases hc
  rw [if_neg hpp]

/-- A process ends; its children are not its children any more. -/
theorem exit (h : Accounted owes s) (ho : Orderly s) (p : Nat) : Accounted owes (s.exit p) where
  nodup hat := by
    obtain ⟨-, pp, hat⟩ := at_exit hat
    exact h.nodup hat
  mem_iff hat c := by
    obtain ⟨hne, pp, hat⟩ := at_exit hat
    rw [ho.child_exit (ho.init_lt _ hat), and_iff_right hne]
    exact h.mem_iff hat c
  ended d hd hnone := by
    rw [hasChild_iff]
    rintro ⟨c, hc⟩
    rw [ho.child_exit ((ho.exit p).init_lt d hd)] at hc
    obtain ⟨hne, hc⟩ := hc
    obtain ⟨e, he, rfl⟩ := mem_exit.mp hd
    by_cases hpid : e.pid = p
    · rw [if_pos hpid] at hne
      exact hne hpid
    · rw [if_neg hpid] at hnone hc
      refine h.ended e he ?_ (hasChild_iff.mpr ⟨c, ?_⟩)
      · split at hnone <;> exact hnone
      · split at hc <;> exact hc

end Accounted

/-- A process that runs makes the call of its place. -/
theorem Orderly.next_of_at (h : Orderly s) {p pp : Nat} {k : κ} (hrun : s.At p pp k)
    (choice : Nat) : s.next prog ⟨p, choice⟩ = s.call p pp choice (prog k) := by
  cases hfind : s.table.find? fun e => e.pid = p with
  | none =>
    have hno := List.find?_eq_none.mp hfind _ hrun
    simp at hno
  | some e =>
    have hpid : e.pid = p := by simpa using List.find?_some hfind
    have heq := h.eq_of_pid (List.mem_of_find?_eq_some hfind) hrun hpid
    subst heq
    rw [Processes.next, hfind]
    rfl

/-- With the books right, `wait` and `waitpid` find a child. -/
theorem Accounted.has_waited (hd : Disciplined prog owes) (h : Accounted owes s) {p pp : Nat}
    {k : κ} (hrun : s.At p pp k) :
    (∀ k', prog k = .wait k' → s.HasChild p) ∧ ∀ c k', prog k = .waitpid c k' → s.Child p c := by
  constructor
  · intro k' hcall
    obtain ⟨c, hc⟩ := List.exists_mem_of_ne_nil _ (hd.call hcall).1
    exact hasChild_iff.mpr ⟨c, (h.mem_iff hrun c).mp hc⟩
  · intro c k' hcall
    exact (h.mem_iff hrun c).mp (hd.call hcall).1

/-- **One call** keeps the books. -/
theorem Accounted.next (hd : Disciplined prog owes) (ho : Orderly s) (h : Accounted owes s)
    (hst : s.next prog l = some t) : Accounted owes t := by
  cases next_cases hst with
  | write hrun hcall => exact (h.goto hrun (hd.call hcall)).write
  | sleep hrun hcall => exact h.goto hrun (hd.call hcall)
  | forkFails hrun hcall hfail => exact h.goto hrun (hd.call hcall).1
  | fork hrun hcall hfree => exact h.fork hrun hfree ho (hd.call hcall).2.1 ((hd.call hcall).2.2 _)
  | reap hrun hcall hended =>
    refine h.reap ho hrun hended (hd.waited hcall ?_)
    obtain ⟨z, hz, hzc, -⟩ := hended
    exact (h.mem_iff hrun _).mpr ⟨z, hz, hzc⟩
  | childless hrun hcall =>
    obtain ⟨hwait, hwaitpid⟩ := h.has_waited hd hrun
    rcases hcall with ⟨hcall, hno⟩ | ⟨c, hcall, hno⟩
    · exact absurd (hwait _ hcall) hno
    · exact absurd (hwaitpid c _ hcall) hno
  | exit hrun hcall => exact h.exit ho _

/-! ### Orphans -/

/-- A call keeps the parents, unless a process ends that has children. -/
theorem NoOrphan.next (ho : Orderly s) (h : Accounted owes s) (hno : NoOrphan s)
    (hl : ¬ Abandons prog owes s l) (hst : s.next prog l = some t) : NoOrphan t := by
  have hgoto : ∀ {u : Processes κ ο} {p : Nat} {k : κ}, NoOrphan u → NoOrphan (u.goto p k) := by
    intro u p k hu d hd
    obtain ⟨e, he, rfl⟩ := mem_goto.mp hd
    split <;> exact hu e he
  cases next_cases hst with
  | write hrun hcall => exact hgoto hno
  | sleep hrun hcall => exact hgoto hno
  | forkFails hrun hcall hfail => exact hgoto hno
  | fork hrun hcall hfree =>
    intro d hd
    rcases mem_add.mp hd with hd | rfl
    · exact hgoto hno d hd
    · exact Ne.symm (Nat.ne_of_lt (ho.init_lt _ hrun))
  | reap hrun hcall hended => exact hgoto fun d hd => hno d (mem_reap.mp hd).1
  | childless hrun hcall => exact hgoto hno
  | @exit pp k hrun hcall =>
    have htable := h.table_exit hrun (Classical.not_not.mp fun hk => hl ⟨pp, k, hrun, hcall, hk⟩)
    intro d hd
    rw [htable] at hd
    obtain ⟨e, he, rfl⟩ := List.mem_map.mp hd
    split <;> exact hno e he

/-- A process that ends and owes children leaves orphans. -/
theorem Abandons.orphans (ho : Orderly s) (h : Accounted owes s) (hl : Abandons prog owes s l) :
    ∃ t, s.next prog l = some t ∧ ¬ NoOrphan t := by
  obtain ⟨pp, k, hrun, hcall, hk⟩ := hl
  have hst : s.next prog l = some (s.exit l.pid) :=
    (ho.next_of_at hrun l.choice).trans (by rw [hcall]; rfl)
  refine ⟨_, hst, fun hno => ?_⟩
  obtain ⟨c, hc⟩ := List.exists_mem_of_ne_nil _ hk
  obtain ⟨e, he, -, hppid⟩ := (h.mem_iff hrun c).mp hc
  have hne : e.pid ≠ l.pid := fun hpid => ho.ne_self e he (hppid.trans hpid.symm)
  refine hno _ (mem_exit.mpr ⟨e, he, rfl⟩) ?_
  rw [if_neg hne, if_pos hppid]

/-- At its start a program has one process, without children. -/
theorem accounted_start {root : Nat} {k : κ} (hroot : INIT < root) (hk : owes k = []) :
    Accounted owes (start (ο := ο) root k) ∧ NoOrphan (start (ο := ο) root k) := by
  have hno : ∀ p, INIT ≤ p → ¬ (start (ο := ο) root k).HasChild p := by
    rintro p hp ⟨e, he, hppid⟩
    rw [List.mem_singleton.mp he] at hppid
    exact absurd hp (by rw [← hppid]; exact Nat.not_succ_le_zero 0)
  have hat : ∀ {p pp k'}, (start (ο := ο) root k).At p pp k' → p = root ∧ k' = k := by
    intro p pp k' hrun
    cases List.mem_singleton.mp hrun
    exact ⟨rfl, rfl⟩
  refine ⟨⟨fun hrun => ?_, fun hrun c => ?_, fun e he hnone => ?_⟩, fun e he => ?_⟩
  · rw [(hat hrun).2, hk]
    exact List.nodup_nil
  · obtain ⟨rfl, rfl⟩ := hat hrun
    rw [hk]
    refine iff_of_false List.not_mem_nil fun hc => ?_
    exact hno _ (Nat.le_of_lt hroot) (hasChild_iff.mpr ⟨c, hc⟩)
  · rw [List.mem_singleton.mp he] at hnone
    cases hnone
  · rw [List.mem_singleton.mp he]
    exact Nat.ne_of_lt (Nat.zero_lt_one)

/-- **Orphans.**  In a run of a disciplined program every process keeps its parent if and only if no
    process ends that owes children. -/
theorem noOrphan_iff (hd : Disciplined prog owes) {root : Nat} {k : κ} (hroot : INIT < root)
    (hk : owes k = []) (ls : List Label) :
    Throughout (next prog) NoOrphan (start (ο := ο) root k) ls ↔
      Along (next prog) (fun s l => ¬ Abandons prog owes s l) (start root k) ls := by
  obtain ⟨hacc, hno⟩ := accounted_start (ο := ο) hroot hk
  exact throughout_iff_never (I := fun s => Orderly s ∧ Accounted owes s)
    (fun s l t hI _ hst => ⟨hI.1.next hst, hI.2.next hd hI.1 hst⟩)
    (fun s l hI hl => hl.orphans hI.1 hI.2)
    (fun s l t hI hno hl hst => hno.next hI.1 hI.2 hl hst) ⟨orderly_start hroot k, hacc⟩ hno ls

/-! ### Progress -/

/-- Of the processes that run, one comes last. -/
theorem exists_last {α : Type} {P : α → Prop} {as : List α} (h : ∃ a ∈ as, P a) :
    ∃ l a r, as = l ++ a :: r ∧ P a ∧ ∀ b ∈ r, ¬ P b := by
  induction as with
  | nil =>
    obtain ⟨a, ha, -⟩ := h
    cases ha
  | cons a as ih =>
    by_cases hlater : ∃ b ∈ as, P b
    · obtain ⟨l, b, r, rfl, hb, hr⟩ := ih hlater
      exact ⟨a :: l, b, r, rfl, hb, hr⟩
    · refine ⟨[], a, as, rfl, ?_, fun b hb hP => hlater ⟨b, hb, hP⟩⟩
      obtain ⟨b, hb, hP⟩ := h
      rcases List.mem_cons.mp hb with rfl | hb
      · exact hP
      · exact absurd ⟨b, hb, hP⟩ hlater

/-- There is always a number for a new process. -/
theorem exists_free (s : Processes κ ο) : ∃ c, s.Free c := by
  refine ⟨(s.table.map Proc.pid).sum + 2, Nat.succ_lt_succ (Nat.succ_pos _), fun e he hpid => ?_⟩
  have hle := List.single_le_sum (fun n _ => Nat.zero_le n) e.pid (List.mem_map_of_mem he)
  omega

/-- **Progress.**  While a process runs, some process can make its call, and with success if the
    call is `fork`. -/
theorem progress (hd : Disciplined prog owes) (ho : Orderly s) (h : Accounted owes s)
    (hrun : ∃ e ∈ s.table, e.code.isSome) : ∃ l t, s.next prog l = some t ∧ l.choice ≠ 0 := by
  -- the last process that runs: its children come later, so they have ended
  obtain ⟨before, e, behind, htable, hcode, hlast⟩ := exists_last hrun
  obtain ⟨p, pp, code⟩ := e
  obtain ⟨k, rfl⟩ := Option.isSome_iff_exists.mp hcode
  have hrun : s.At p pp k := by
    rw [At, htable]
    exact List.mem_append_right _ List.mem_cons_self
  have hended : ∀ c, s.Child p c → s.Ended p c := by
    rintro c ⟨d, hd', hpid, hppid⟩
    refine ⟨d, hd', ⟨hpid, hppid⟩, ?_⟩
    have holder := ho.older
    rw [htable, List.pairwise_append, List.pairwise_cons] at holder
    rw [htable, List.mem_append, List.mem_cons] at hd'
    rcases hd' with hbefore | rfl | hbehind
    · exact absurd hppid (holder.2.2 d hbefore _ List.mem_cons_self)
    · exact absurd hppid (ho.ne_self _ hrun)
    · exact Option.isNone_iff_eq_none.mpr (Option.not_isSome_iff_eq_none.mp (hlast d hbehind))
  obtain ⟨hwait, hwaitpid⟩ := h.has_waited hd hrun
  have hnext : ∀ choice, s.next prog ⟨p, choice⟩ = s.call p pp choice (prog k) :=
    ho.next_of_at hrun
  cases hcall : prog k with
  | fork failed child parent =>
    -- there is always a free number
    obtain ⟨c, hc⟩ := exists_free s
    have hne : c ≠ 0 := Nat.ne_of_gt (Nat.lt_trans Nat.zero_lt_one hc.1)
    refine ⟨⟨p, c⟩, (s.goto p (parent c)).add c p child, ?_, hne⟩
    rw [hnext, hcall, call, if_neg hne, if_pos hc]
  | wait k' =>
    -- a process that waits has a child, which has ended
    obtain ⟨c, hc⟩ := hasChild_iff.mp (hwait k' hcall)
    have hne : c ≠ 0 := by
      obtain ⟨d, hd', rfl, -⟩ := hc
      exact Nat.ne_of_gt (Nat.lt_trans Nat.zero_lt_one (ho.init_lt d hd'))
    refine ⟨⟨p, c⟩, (s.reap c).goto p (k' (some c)), ?_, hne⟩
    rw [hnext, hcall, call, if_pos (hwait k' hcall), if_pos (hended c hc)]
  | waitpid c k' =>
    have hc := hwaitpid c k' hcall
    refine ⟨⟨p, 1⟩, (s.reap c).goto p (k' (some c)), ?_, Nat.one_ne_zero⟩
    rw [hnext, hcall, call, if_pos hc, if_pos (hended c hc)]
  | write text k' =>
    exact ⟨⟨p, 1⟩, _, (hnext 1).trans (by rw [hcall]; rfl), Nat.one_ne_zero⟩
  | sleep k' => exact ⟨⟨p, 1⟩, _, (hnext 1).trans (by rw [hcall]; rfl), Nat.one_ne_zero⟩
  | exit => exact ⟨⟨p, 1⟩, _, (hnext 1).trans (by rw [hcall]; rfl), Nat.one_ne_zero⟩

/-! ### The length of a run -/

/-- A call of a process of rank `n` lowers the rank, and a `fork` that of both processes
    together. -/
def Lowers (rank : κ → Nat) (n : Nat) : Call κ ο → Prop
  | .write _ k => rank k < n
  | .sleep k => rank k < n
  | .fork failed child parent => rank failed < n ∧ ∀ c, rank child + rank (parent c) + 1 < n
  | .wait k => ∀ r, rank (k r) < n
  | .waitpid _ k => ∀ r, rank (k r) < n
  | .exit => True

/-- All places lower the rank. -/
def Descends (prog : κ → Call κ ο) (rank : κ → Nat) : Prop := ∀ k, Lowers rank (rank k) (prog k)

theorem Descends.call {rank : κ → Nat} (hr : Descends prog rank) {k : κ} {c : Call κ ο}
    (hcall : prog k = c) : Lowers rank (rank k) c :=
  hcall ▸ hr k

/-- What is left to do for a process. -/
def weight (rank : κ → Nat) (e : Proc κ) : Nat :=
  match e.code with
  | some k => rank k + 1
  | none => 0

/-- What is left to do for all. -/
def total (rank : κ → Nat) (s : Processes κ ο) : Nat := (s.table.map (weight rank)).sum

variable {rank : κ → Nat}

/-- A process that goes to a place of lower rank lowers the total by the difference. -/
theorem total_goto (ho : Orderly s) {p pp : Nat} {k k' : κ} (hrun : s.At p pp k) :
    total rank (s.goto p k') + rank k = total rank s + rank k' := by
  obtain ⟨l, r, htable, -, hset⟩ := ho.split hrun
  have hgoto : (s.goto p k').table = l ++ ⟨p, pp, some k'⟩ :: r := hset _
  rw [total, total, hgoto, htable]
  simp only [List.map_append, List.map_cons, List.sum_append, List.sum_cons, weight]
  omega

theorem total_reap_le {c : Nat} : total rank (s.reap c) ≤ total rank s :=
  List.Sublist.sum_le_sum (List.filter_sublist.map _) fun _ _ => Nat.zero_le _

theorem total_exit_lt {p pp : Nat} {k : κ} (hrun : s.At p pp k) :
    total rank (s.exit p) < total rank s := by
  rw [total, exit, List.map_map]
  apply List.sum_lt_sum
  · intro e _
    show weight rank (if e.pid = p then { e with code := none }
      else if e.ppid = p then { e with ppid := INIT } else e) ≤ _
    split
    · exact Nat.zero_le _
    · split <;> exact Nat.le_refl _
  · refine ⟨_, hrun, ?_⟩
    show weight rank (if p = p then _ else _) < _
    rw [if_pos rfl]
    exact Nat.succ_pos _

/-- **Every call** lowers the total. -/
theorem total_next_lt (hr : Descends prog rank) (ho : Orderly s) (hst : s.next prog l = some t) :
    total rank t < total rank s := by
  -- what goes on by one call lowers its own rank and changes no other
  have hgoto : ∀ {p pp k k'}, s.At p pp k → rank k' < rank k →
      total rank (s.goto p k') < total rank s := by
    intro p pp k k' hrun hlt
    have hgo : total rank (s.goto p k') + rank k = total rank s + rank k' := total_goto ho hrun
    omega
  cases next_cases hst with
  | write hrun hcall => exact hgoto hrun (hr.call hcall)
  | sleep hrun hcall => exact hgoto hrun (hr.call hcall)
  | forkFails hrun hcall hfail => exact hgoto hrun (hr.call hcall).1
  -- a parent that forks gives up more than the child begins with
  | @fork pp k failed child parent hrun hcall hfree =>
    have hgo : total rank (s.goto l.pid (parent l.choice)) + rank k =
        total rank s + rank (parent l.choice) := total_goto ho hrun
    have hlt := (hr.call hcall).2 l.choice
    have hadd : total rank ((s.goto l.pid (parent l.choice)).add l.choice l.pid child) =
        total rank (s.goto l.pid (parent l.choice)) + (rank child + 1) := by
      rw [total, add, List.map_append, List.sum_append, List.map_singleton, List.sum_singleton]
      rfl
    omega
  -- the child that is reaped leaves the table, which can only lower the total
  | @reap pp c k k' hrun hcall hended =>
    have hne := ho.ne_of_ended hrun rfl hended
    have hgo : total rank ((s.reap c).goto l.pid (k' (some c))) + rank k =
        total rank (s.reap c) + rank (k' (some c)) :=
      total_goto (ho.reap hended) (mem_reap.mpr ⟨hrun, hne⟩)
    have hlt : rank (k' (some c)) < rank k := by
      rcases hcall with hcall | hcall <;> exact hr.call hcall (some c)
    have hle : total rank (s.reap c) ≤ total rank s := total_reap_le
    omega
  | childless hrun hcall =>
    rcases hcall with ⟨hcall, -⟩ | ⟨c, hcall, -⟩
    · exact hgoto hrun (hr.call hcall none)
    · exact hgoto hrun (hr.call hcall none)
  | exit hrun hcall => exact total_exit_lt hrun

/-- **Termination.**  No run is longer than what is left to do at its start. -/
theorem length_le (hr : Descends prog rank) (ho : Orderly s) {ls : List Label}
    (h : run (next prog) s ls = some t) : ls.length ≤ total rank s := by
  induction ls generalizing s with
  | nil => exact Nat.zero_le _
  | cons l ls ih =>
    obtain ⟨u, hu, h⟩ := run_cons_eq_some.mp h
    have hlt := total_next_lt hr ho hu
    have hle := ih (ho.next hu) h
    rw [List.length_cons]
    omega

/-- All processes have ended. -/
def Finished (s : Processes κ ο) : Prop := ∀ e ∈ s.table, e.code = none

/-- **Nobody is stuck**: no call can be made exactly when all have ended.  A `wait` blocks only for
    a child that has not, and of those that have not the last one created waits for nobody. -/
theorem stuck_iff (hd : Disciplined prog owes) (ho : Orderly s) (h : Accounted owes s) :
    (∀ l, s.next prog l = none) ↔ Finished s := by
  constructor
  · intro hstuck e he
    refine Option.not_isSome_iff_eq_none.mp fun hcode => ?_
    obtain ⟨l, t, ht, -⟩ := progress hd ho h ⟨e, he, hcode⟩
    rw [hstuck l] at ht
    cases ht
  · intro hfin l
    cases hfind : s.table.find? fun e => e.pid = l.pid with
    | none =>
      rw [next, hfind]
      rfl
    | some e =>
      rw [next, hfind, Option.bind_eq_bind, Option.bind_some,
        hfin e (List.mem_of_find?_eq_some hfind)]
      rfl

/-- The first process is in the table, and everybody else has a parent. -/
structure Rooted (root : Nat) (s : Processes κ ο) : Prop where
  mem : ∃ e ∈ s.table, e.pid = root
  ppid : ∀ e ∈ s.table, e.pid = root ↔ e.ppid = 0

/-- A call of a process leaves the first one in the table. -/
theorem Rooted.next {root : Nat} (ho : Orderly s) (h : Rooted root s)
    (hst : s.next prog l = some t) : Rooted root t := by
  have hgoto : ∀ {u : Processes κ ο} {p : Nat} {k : κ},
      Rooted root u → Rooted root (u.goto p k) := by
    intro u p k hu
    obtain ⟨e, he, hpid⟩ := hu.mem
    refine ⟨⟨_, mem_goto.mpr ⟨e, he, rfl⟩, ?_⟩, fun d hd => ?_⟩
    · split <;> exact hpid
    · obtain ⟨e, he, rfl⟩ := mem_goto.mp hd
      split <;> exact hu.ppid e he
  cases next_cases hst with
  | write hrun hcall => exact ⟨(hgoto h).mem, (hgoto h).ppid⟩
  | sleep hrun hcall => exact hgoto h
  | forkFails hrun hcall hfail => exact hgoto h
  | fork hrun hcall hfree =>
    obtain ⟨e, he, hpid⟩ := (hgoto h).mem
    refine ⟨⟨e, mem_add.mpr (.inl he), hpid⟩, fun d hd => ?_⟩
    rcases mem_add.mp hd with hd | rfl
    · exact (hgoto h).ppid d hd
    · -- the number is free, and the parent is not the kernel
      refine iff_of_false (fun hroot => ?_) (Nat.ne_of_gt (Nat.zero_lt_of_lt (ho.init_lt _ hrun)))
      obtain ⟨d, hd, hpid⟩ := h.mem
      exact hfree.2 d hd (hpid.trans hroot.symm)
  | @reap pp c k k' hrun hcall hended =>
    refine hgoto ⟨?_, fun d hd => h.ppid d (mem_reap.mp hd).1⟩
    obtain ⟨e, he, hpid⟩ := h.mem
    refine ⟨e, mem_reap.mpr ⟨he, ?_⟩, hpid⟩
    -- who waits is a process, and the first one has none for its parent
    rintro rfl
    obtain ⟨d, hd, ⟨hde, hppid⟩, -⟩ := hended
    have hzero := (h.ppid d hd).mp (hde.trans hpid)
    rw [hppid] at hzero
    exact Nat.not_lt_zero _ (hzero ▸ ho.init_lt _ hrun)
  | childless hrun hcall => exact hgoto h
  | exit hrun hcall =>
    obtain ⟨e, he, hpid⟩ := h.mem
    refine ⟨⟨_, mem_exit.mpr ⟨e, he, rfl⟩, ?_⟩, fun d hd => ?_⟩
    · split
      · exact hpid
      · split <;> exact hpid
    · obtain ⟨e, he, rfl⟩ := mem_exit.mp hd
      split
      · exact h.ppid e he
      · split
        · rename_i hppid
          refine iff_of_false (fun hroot => ?_) Nat.one_ne_zero
          have hzero := (h.ppid e he).mp hroot
          rw [hppid] at hzero
          exact Nat.not_lt_zero _ (hzero ▸ ho.init_lt _ hrun)
        · exact h.ppid e he

theorem rooted_start (root : Nat) (k : κ) : Rooted root (start (ο := ο) root k) := by
  refine ⟨⟨_, List.mem_singleton_self _, rfl⟩, fun e he => ?_⟩
  rw [List.mem_singleton.mp he]
  exact iff_of_true rfl rfl

/-- **Everybody was waited for.**  When all have ended and nobody was orphaned, only the first
    process is left. -/
theorem table_of_finished {root : Nat} (ho : Orderly s) (h : Rooted root s) (hno : NoOrphan s)
    (hfin : Finished s) : s.table = [⟨root, 0, none⟩] := by
  have hall : ∀ e ∈ s.table, e = ⟨root, 0, none⟩ := by
    intro e he
    have hppid : e.ppid = 0 := by
      rcases Nat.lt_trichotomy e.ppid INIT with hlt | heq | hgt
      · exact Nat.lt_one_iff.mp hlt
      · exact absurd heq (hno e he)
      · obtain ⟨d, hd, -, hcode⟩ := ho.parent e he hgt
        rw [hfin d hd] at hcode
        cases hcode
    obtain ⟨pid, ppid, code⟩ := e
    have hpid : pid = root := (h.ppid _ he).mpr hppid
    have hcode : code = none := hfin _ he
    have hzero : ppid = 0 := hppid
    rw [hpid, hcode, hzero]
  obtain ⟨e, he, -⟩ := h.mem
  have hnodup := ho.nodup.of_map
  rw [List.eq_replicate_of_mem hall] at hnodup ⊢
  have hlen := List.nodup_replicate.mp hnodup
  have hpos := List.length_pos_of_mem he
  rw [Nat.le_antisymm hlen hpos]
  rfl

end EltexHomeworks.Lib.Processes
