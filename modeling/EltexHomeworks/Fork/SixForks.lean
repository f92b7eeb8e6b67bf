import EltexHomeworks.Lib.ForkOutput

namespace EltexHomeworks.Fork

open EltexHomeworks.Lib EltexHomeworks.Lib.Processes

/-!
# A tree of six processes

`main` of `six_forks.c`: `PARENT` creates `child_1` and `child_2`, `child_1` creates `child_1_2`,
and `child_2` creates `child_2_1` and `child_2_2`; who creates a process waits for it.  `prog` is
the program place by place, a place with the variables that are read later; the output goes to a
terminal, where every `printf` is written at once.

* `keeps_parents_iff` — orphans, and the two calls of `fork` whose failure leaves them;
* `six_forks_end` — every run comes to its end;
* `six_forks_output` — the lines of a run without failures, in any interleaving.
-/

/-- The processes, by the name they print. -/
inductive Name
  | PARENT | child_1 | child_1_2 | child_2 | child_2_1 | child_2_2
deriving DecidableEq

/-- A line of output; a `PID CLOSED` may be `-1`. -/
inductive Line
  | name (who : Name)
  | PID (pid : Nat)
  | PPID (ppid : Nat)
  | closed (ended_proc_id : Option Nat)
  | error (cpid : Nat)
  | perror
deriving DecidableEq

/-- The places of `main`.  `exit` has the child that its process created and did not wait for. -/
inductive Pc
  | name (who : Name)
  | PID (who : Name)
  | PPID (who : Name)
  | fork
  | fork_1
  | wait_1 (cpid_1 : Nat)
  | closed_1 (ended_proc_id_1 : Option Nat)
  | fork_2 (cpid : Nat)
  | fork_3
  | fork_4 (cpid_3 : Nat)
  | wait_3 (cpid_3 cpid_4 : Nat)
  | wait_4 (ended_proc_id_3 : Option Nat) (cpid_4 : Nat)
  | closed_3 (ended_proc_id_3 ended_proc_id_4 : Option Nat)
  | closed_4 (ended_proc_id_4 : Option Nat)
  | sleep
  | wait_0 (cpid cpid_2 : Nat)
  | error_0 (cpid cpid_2 : Nat) (ended_proc_id_0 : Option Nat)
  | wait_2 (cpid_2 : Nat) (ended_proc_id_0 : Option Nat)
  | error_2 (cpid_2 : Nat) (ended_proc_id_0 ended_proc_id_2 : Option Nat)
  | closed_0 (ended_proc_id_0 ended_proc_id_2 : Option Nat)
  | closed_2 (ended_proc_id_2 : Option Nat)
  | perror (left : Option Nat)
  | exit (left : Option Nat)
deriving DecidableEq

/-- Where a process goes on after it has presented itself. -/
def body : Name → Pc
  | .PARENT => .fork
  | .child_1 => .fork_1
  | .child_2 => .fork_3
  | .child_1_2 | .child_2_1 | .child_2_2 => .sleep

/-- The test `ended_proc_id > 1 && !cpid`. -/
def notClosed (ended_proc_id : Option Nat) (cpid : Nat) : Bool :=
  ended_proc_id.any (1 < ·) && cpid == 0

/-- `main` of `six_forks.c`, as the call that is made at each place and the places it leads to.
    The text of a `printf` has the process ids that `getpid` and `getppid` return there. -/
def prog : Pc → Call Pc Line
  | .name who => .write (fun _ _ => .name who) (.PID who)
  | .PID .PARENT => .write (fun pid _ => .PID pid) .fork
  | .PID who => .write (fun pid _ => .PID pid) (.PPID who)
  | .PPID who => .write (fun _ ppid => .PPID ppid) (body who)
  | .fork => .fork (.perror none) (.name .child_1) .fork_2
  | .fork_1 => .fork (.perror none) (.name .child_1_2) .wait_1
  | .wait_1 _ => .wait .closed_1
  | .closed_1 ended_proc_id_1 => .write (fun _ _ => .closed ended_proc_id_1) (.exit none)
  | .fork_2 cpid => .fork (.perror (some cpid)) (.name .child_2) (.wait_0 cpid)
  | .fork_3 => .fork (.perror none) (.name .child_2_1) .fork_4
  | .fork_4 cpid_3 => .fork (.perror (some cpid_3)) (.name .child_2_2) (.wait_3 cpid_3)
  | .wait_3 cpid_3 cpid_4 => .waitpid cpid_3 fun ended_proc_id_3 => .wait_4 ended_proc_id_3 cpid_4
  | .wait_4 ended_proc_id_3 cpid_4 => .waitpid cpid_4 (.closed_3 ended_proc_id_3)
  | .closed_3 ended_proc_id_3 ended_proc_id_4 =>
    .write (fun _ _ => .closed ended_proc_id_3) (.closed_4 ended_proc_id_4)
  | .closed_4 ended_proc_id_4 => .write (fun _ _ => .closed ended_proc_id_4) (.exit none)
  | .sleep => .sleep (.exit none)
  | .wait_0 cpid cpid_2 => .waitpid cpid fun ended_proc_id_0 =>
    if notClosed ended_proc_id_0 cpid then .error_0 cpid cpid_2 ended_proc_id_0
    else .wait_2 cpid_2 ended_proc_id_0
  | .error_0 cpid cpid_2 ended_proc_id_0 =>
    .write (fun _ _ => .error cpid) (.wait_2 cpid_2 ended_proc_id_0)
  | .wait_2 cpid_2 ended_proc_id_0 => .waitpid cpid_2 fun ended_proc_id_2 =>
    if notClosed ended_proc_id_2 cpid_2 then .error_2 cpid_2 ended_proc_id_0 ended_proc_id_2
    else .closed_0 ended_proc_id_0 ended_proc_id_2
  | .error_2 cpid_2 ended_proc_id_0 ended_proc_id_2 =>
    .write (fun _ _ => .error cpid_2) (.closed_0 ended_proc_id_0 ended_proc_id_2)
  | .closed_0 ended_proc_id_0 ended_proc_id_2 =>
    .write (fun _ _ => .closed ended_proc_id_0) (.closed_2 ended_proc_id_2)
  | .closed_2 ended_proc_id_2 => .write (fun _ _ => .closed ended_proc_id_2) (.exit none)
  | .perror left => .write (fun _ _ => .perror) (.exit left)
  | .exit _ => .exit

/-- The program at its start. -/
def main (root : Nat) : Processes Pc Line := start root (.name .PARENT)

/-- The children a process has not waited for. -/
def owes : Pc → List Nat
  | .wait_1 cpid_1 => [cpid_1]
  | .fork_2 cpid => [cpid]
  | .fork_4 cpid_3 => [cpid_3]
  | .wait_3 cpid_3 cpid_4 => [cpid_4, cpid_3]
  | .wait_4 _ cpid_4 => [cpid_4]
  | .wait_0 cpid cpid_2 => [cpid_2, cpid]
  | .error_0 _ cpid_2 _ => [cpid_2]
  | .wait_2 cpid_2 _ => [cpid_2]
  | .perror left => left.toList
  | .exit left => left.toList
  | _ => []

/-- The calls that are left after a process has presented itself, with those of its children. -/
def bodyRank : Name → Nat
  | .PARENT => 40
  | .child_1 => 8
  | .child_2 => 16
  | .child_1_2 | .child_2_1 | .child_2_2 => 1

/-- The most calls that are left before the `exit`, those of the children to come counted with
    their parent: each call goes to a place of a lower rank. -/
def rank : Pc → Nat
  | .name .PARENT => 42
  | .name who => bodyRank who + 3
  | .PID .PARENT => 41
  | .PID who => bodyRank who + 2
  | .PPID who => bodyRank who + 1
  | .fork => 40
  | .fork_1 => 8
  | .fork_2 _ => 27
  | .fork_3 => 16
  | .fork_4 _ => 10
  | .wait_0 .. => 6
  | .error_0 .. => 5
  | .wait_2 .. => 4
  | .error_2 .. => 3
  | .closed_0 .. => 2
  | .closed_2 _ => 1
  | .wait_1 _ => 2
  | .closed_1 _ => 1
  | .wait_3 .. => 4
  | .wait_4 .. => 3
  | .closed_3 .. => 2
  | .closed_4 _ => 1
  | .sleep => 1
  | .perror _ => 1
  | .exit _ => 0

theorem perm_erase_second (c c' : Nat) : [c].Perm ([c, c'].erase c') := by
  have h := (List.Perm.swap c' c []).erase c'
  rw [List.erase_cons_head] at h
  exact h.symm

/-- Every place keeps the books. -/
theorem disciplined : Disciplined prog owes := by
  intro k
  cases k with
  | name who => exact rfl
  | PID who => cases who <;> exact rfl
  | PPID who => cases who <;> exact rfl
  | fork => exact ⟨rfl, rfl, fun cpid => .refl _⟩
  | fork_1 => exact ⟨rfl, rfl, fun cpid_1 => .refl _⟩
  | fork_2 cpid => exact ⟨rfl, rfl, fun cpid_2 => .refl _⟩
  | fork_3 => exact ⟨rfl, rfl, fun cpid_3 => .refl _⟩
  | fork_4 cpid_3 => exact ⟨rfl, rfl, fun cpid_4 => .refl _⟩
  | wait_1 cpid_1 =>
    refine ⟨List.cons_ne_nil _ _, fun c hc => ?_⟩
    rw [List.mem_singleton.mp hc]
    exact .of_eq (List.erase_cons_head _ _).symm
  | wait_3 cpid_3 cpid_4 =>
    exact ⟨List.mem_cons_of_mem _ (List.mem_singleton_self _), perm_erase_second cpid_4 cpid_3⟩
  | wait_4 _ cpid_4 =>
    exact ⟨List.mem_singleton_self _, .of_eq (List.erase_cons_head _ _).symm⟩
  | wait_0 cpid cpid_2 =>
    refine ⟨List.mem_cons_of_mem _ (List.mem_singleton_self _), ?_⟩
    -- the line about an error changes no book
    dsimp only
    split <;> exact perm_erase_second cpid_2 cpid
  | wait_2 cpid_2 _ =>
    refine ⟨List.mem_singleton_self _, ?_⟩
    dsimp only
    split <;> exact .of_eq (List.erase_cons_head _ _).symm
  | exit _ => trivial
  | _ => exact rfl

/-- Every place lowers the rank. -/
theorem descends : Descends prog rank := by
  intro k
  cases k with
  | name who | PID who | PPID who =>
    cases who <;> simp [Lowers, prog, rank, body, bodyRank]
  | wait_0 _ _ | wait_2 _ _ =>
    intro r
    dsimp only
    split <;> simp [rank]
  | _ => simp [Lowers, prog, rank, bodyRank]

theorem exit_of_prog {k : Pc} (h : prog k = .exit) : ∃ left, k = .exit left := by
  cases k with
  | exit left => exact ⟨left, rfl⟩
  | PID who => cases who <;> cases h
  | _ => cases h

/-- The two places where a process leaves a child behind. -/
theorem abandons_iff {s : Processes Pc Line} {l : Label} :
    Abandons prog owes s l ↔ ∃ ppid cpid, s.At l.pid ppid (.exit (some cpid)) := by
  constructor
  · rintro ⟨ppid, k, hat, hcall, howes⟩
    obtain ⟨left, rfl⟩ := exit_of_prog hcall
    cases left with
    | none => exact absurd rfl howes
    | some cpid => exact ⟨ppid, cpid, hat⟩
  · rintro ⟨ppid, cpid, hat⟩
    exact ⟨ppid, _, hat, rfl, List.cons_ne_nil _ _⟩

/-- **Orphans.**  Every process of the tree keeps its parent if and only if no process ends that has
    a child; `PARENT` and `child_2` do so when their second `fork` fails. -/
theorem keeps_parents_iff {root : Nat} (hroot : INIT < root) (ls : List Label) :
    Throughout (next prog) NoOrphan (main root) ls ↔
      Along (next prog) (fun s l => ¬ ∃ ppid cpid, s.At l.pid ppid (.exit (some cpid)))
        (main root) ls := by
  refine (noOrphan_iff disciplined hroot rfl ls).trans ?_
  simp only [abandons_iff]
  exact .rfl

theorem keeps_parents_iff_fails :
    Throughout (next prog) NoOrphan (main 2) [⟨2, 1⟩, ⟨2, 1⟩, ⟨2, 3⟩, ⟨2, 0⟩, ⟨2, 1⟩, ⟨2, 1⟩] ↔
      Along (next prog) (fun s l => ¬ ∃ ppid cpid, s.At l.pid ppid (.exit (some cpid))) (main 2)
        [⟨2, 1⟩, ⟨2, 1⟩, ⟨2, 3⟩, ⟨2, 0⟩, ⟨2, 1⟩, ⟨2, 1⟩] :=
  keeps_parents_iff (by decide) _

/-- **The tree comes to its end**, whatever calls of `fork` fail: no run is longer than 43 calls,
    and it can go on until all processes have ended. -/
theorem six_forks_end {root : Nat} (hroot : INIT < root) {ls : List Label}
    {s : Processes Pc Line} (hrun : run (next prog) (main root) ls = some s) :
    ls.length ≤ 43 ∧ ((∀ l, s.next prog l = none) ↔ Finished s) := by
  have ho : Orderly (main root) := orderly_start hroot _
  have hacc : Accounted owes (main root) := (accounted_start hroot rfl).1
  refine ⟨length_le descends ho hrun, ?_⟩
  obtain ⟨ho, hacc⟩ := run_keeps (I := fun s => Orderly s ∧ Accounted owes s)
    (fun s l t hI ht => ⟨hI.1.next ht, hI.2.next disciplined hI.1 ht⟩) ⟨ho, hacc⟩ hrun
  exact stuck_iff disciplined ho hacc

theorem six_forks_end_fork : ∃ s, run (next prog) (main 2) [⟨2, 1⟩, ⟨2, 1⟩, ⟨2, 3⟩] = some s ∧
    ((∀ l, s.next prog l = none) ↔ Finished s) := by
  obtain ⟨s, hs⟩ := Option.isSome_iff_exists.mp
    (show (run (next prog) (main 2) [⟨2, 1⟩, ⟨2, 1⟩, ⟨2, 3⟩]).isSome from by decide)
  exact ⟨s, hs, (six_forks_end (by decide) hs).2⟩

/-! ### The output -/

/-- What a process writes to present itself. -/
def presents (who : Name) (pid ppid : Nat) : List Line := [.name who, .PID pid, .PPID ppid]

/-- The lines of the process `pid`. -/
def written (pid : Nat) (lines : List Line) : Multiset (Nat × Line) := ↑(lines.map (pid, ·))

theorem written_append (pid : Nat) (lines lines' : List Line) :
    written pid (lines ++ lines') = written pid lines + written pid lines' := by
  rw [written, List.map_append]
  rfl

theorem cons_eq_written (pid : Nat) (line : Line) (M : Multiset (Nat × Line)) :
    (pid, line) ::ₘ M = written pid [line] + M :=
  (Multiset.singleton_add _ _).symm

/-- A process presents itself. -/
theorem emits_name {who : Name} (hwho : who ≠ .PARENT) {root pid ppid : Nat}
    {M : Multiset (Nat × Line)} (h : Emits prog owes root (.name who) pid ppid M) :
    ∃ N, Emits prog owes root (body who) pid ppid N ∧
      M = written pid (presents who pid ppid) + N := by
  have hPID : prog (.PID who) = .write (fun pid _ => .PID pid) (.PPID who) := by
    cases who <;> first | rfl | exact absurd rfl hwho
  obtain ⟨N, hN, rfl⟩ := h.inv
  have hsecond := hN.inv
  rw [hPID] at hsecond
  obtain ⟨N', hN', rfl⟩ := hsecond
  obtain ⟨N'', hN'', rfl⟩ := hN'.inv
  refine ⟨N'', hN'', ?_⟩
  rw [cons_eq_written, cons_eq_written, cons_eq_written, ← add_assoc, ← add_assoc]
  rfl

/-- A process without children. -/
theorem emits_leaf {who : Name} (hbody : body who = .sleep) {root pid ppid : Nat}
    {M : Multiset (Nat × Line)} (h : Emits prog owes root (.name who) pid ppid M) :
    M = written pid (presents who pid ppid) := by
  obtain ⟨N, hN, rfl⟩ := emits_name (by rintro rfl; cases hbody) h
  rw [hbody] at hN
  have hzero : N = 0 := hN.inv.inv
  rw [hzero, add_zero]

/-- A process that writes two lines more. -/
theorem emits_closed {k k' k'' : Pc} {r r' : Option Nat} {root pid ppid : Nat}
    {M : Multiset (Nat × Line)} (hfirst : prog k = .write (fun _ _ => .closed r) k')
    (hsecond : prog k' = .write (fun _ _ => .closed r') k'') (hexit : prog k'' = .exit)
    (h : Emits prog owes root k pid ppid M) : M = written pid [.closed r, .closed r'] := by
  have hk := h.inv
  rw [hfirst] at hk
  obtain ⟨N, hN, rfl⟩ := hk
  have hk' := hN.inv
  rw [hsecond] at hk'
  obtain ⟨N', hN', rfl⟩ := hk'
  have hzero := hN'.inv
  rw [hexit] at hzero
  rw [show N' = 0 from hzero]
  rfl

/-- `child_1` and its child. -/
theorem emits_child_1 {root pid ppid : Nat} {M : Multiset (Nat × Line)}
    (h : Emits prog owes root (.name .child_1) pid ppid M) :
    ∃ cpid_1, (cpid_1 ≠ root ∧ cpid_1 ≠ pid) ∧
      M = written pid (presents .child_1 pid ppid ++ [.closed (some cpid_1)]) +
        written cpid_1 (presents .child_1_2 cpid_1 pid) := by
  obtain ⟨N, hN, rfl⟩ := emits_name (by decide) h
  obtain ⟨cpid_1, C, P, ⟨-, hroot, hne, -⟩, hC, hP, rfl⟩ := hN.inv
  -- the only child is the one that `wait` returns
  obtain ⟨c, hc, hclosed⟩ := hP.inv
  cases List.mem_singleton.mp hc
  obtain ⟨E, hE, rfl⟩ := hclosed.inv
  have hzero : E = 0 := hE.inv
  refine ⟨cpid_1, ⟨hroot, hne⟩, ?_⟩
  rw [emits_leaf rfl hC, hzero, cons_eq_written, written_append]
  abel

/-- `child_2` and its children. -/
theorem emits_child_2 {root pid ppid : Nat} {M : Multiset (Nat × Line)}
    (h : Emits prog owes root (.name .child_2) pid ppid M) :
    ∃ cpid_3 cpid_4, (cpid_3 ≠ root ∧ cpid_3 ≠ pid) ∧
      (cpid_4 ≠ root ∧ cpid_4 ≠ pid ∧ cpid_4 ≠ cpid_3) ∧
      M = written pid (presents .child_2 pid ppid ++
          [.closed (some cpid_3), .closed (some cpid_4)]) +
        (written cpid_3 (presents .child_2_1 cpid_3 pid) +
          written cpid_4 (presents .child_2_2 cpid_4 pid)) := by
  obtain ⟨N, hN, rfl⟩ := emits_name (by decide) h
  obtain ⟨cpid_3, C, P, ⟨-, hroot, hne, -⟩, hC, hP, rfl⟩ := hN.inv
  obtain ⟨cpid_4, C', P', ⟨-, hroot', hne', hother⟩, hC', hP', rfl⟩ := hP.inv
  refine ⟨cpid_3, cpid_4, ⟨hroot, hne⟩, ⟨hroot', hne', ?_⟩, ?_⟩
  · exact fun heq => hother (List.mem_singleton.mpr heq)
  · rw [emits_leaf rfl hC, emits_leaf rfl hC', emits_closed rfl rfl rfl hP'.inv.inv, written_append]
    abel

/-- The line about an error is not for a number that `fork` has returned to a parent. -/
theorem notClosed_eq_false {cpid : Nat} (hlt : INIT < cpid) (ended_proc_id : Option Nat) :
    notClosed ended_proc_id cpid = false := by
  rw [notClosed, beq_eq_false_iff_ne.mpr (Nat.ne_of_gt (Nat.zero_lt_of_lt hlt)), Bool.and_false]

/-- `PARENT` and its children. -/
theorem emits_PARENT {root ppid : Nat} {M : Multiset (Nat × Line)}
    (h : Emits prog owes root (.name .PARENT) root ppid M) :
    ∃ cpid cpid_2 C C', cpid ≠ root ∧ (cpid_2 ≠ root ∧ cpid_2 ≠ cpid) ∧
      Emits prog owes root (.name .child_1) cpid root C ∧
      Emits prog owes root (.name .child_2) cpid_2 root C' ∧
      M = written root [.name .PARENT, .PID root, .closed (some cpid), .closed (some cpid_2)] +
        (C + C') := by
  obtain ⟨N, hN, rfl⟩ := h.inv
  obtain ⟨N', hN', rfl⟩ := hN.inv
  obtain ⟨cpid, C, P, ⟨hlt, hne, -, -⟩, hC, hP, rfl⟩ := hN'.inv
  obtain ⟨cpid_2, C', P', ⟨hlt', hne', -, hother⟩, hC', hP', rfl⟩ := hP.inv
  refine ⟨cpid, cpid_2, C, C', hne, ⟨hne', ?_⟩, hC, hC', ?_⟩
  · exact fun heq => hother (List.mem_singleton.mpr heq)
  · -- each `waitpid` returned the child it was called for, so no error is written
    have hwait_2 : Emits prog owes root (.wait_2 cpid_2 (some cpid)) root ppid P' := by
      have hinv := hP'.inv
      dsimp only [prog] at hinv
      rwa [notClosed_eq_false hlt, if_neg Bool.false_ne_true] at hinv
    have hclosed : Emits prog owes root (.closed_0 (some cpid) (some cpid_2)) root ppid P' := by
      have hinv := hwait_2.inv
      dsimp only [prog] at hinv
      rwa [notClosed_eq_false hlt', if_neg Bool.false_ne_true] at hinv
    rw [emits_closed rfl rfl rfl hclosed, cons_eq_written, cons_eq_written,
      show [Line.name .PARENT, .PID root, .closed (some cpid), .closed (some cpid_2)] =
        [.name .PARENT] ++ ([.PID root] ++ [.closed (some cpid), .closed (some cpid_2)]) from rfl,
      written_append, written_append]
    abel

/-- The places of a tree without failures: nothing is printed with `perror`, and who ends has waited
    for all children. -/
def InOrder : Pc → Prop
  | .perror _ => False
  | .exit left => left = none
  | _ => True

theorem inOrder_stays (k : Pc) (hk : InOrder k) : Stays InOrder (prog k) := by
  cases k with
  | perror left => exact hk.elim
  | PID who | PPID who => cases who <;> trivial
  | fork | fork_1 | fork_2 _ | fork_3 | fork_4 _ => exact ⟨trivial, fun _ => trivial⟩
  | wait_0 _ _ | wait_2 _ _ =>
    intro r
    dsimp only
    split <;> trivial
  | wait_1 _ | wait_3 _ _ | wait_4 _ _ => exact fun _ => trivial
  | closed_1 _ | closed_2 _ | closed_4 _ | sleep => exact rfl
  | _ => trivial

/-- **The output of the tree.**  In a run in which no `fork` fails and all processes come to their
    end, whatever the interleaving, every process presents itself once with its own number, the five
    children also with that of the process that created them, every creator reports the numbers that
    it got from `fork`, and nothing else is written.  No number is that of `PARENT`, which alone is
    left in the table, of a creator or of a sibling. -/
theorem six_forks_output {root : Nat} (hroot : INIT < root) {ls : List Label}
    {s : Processes Pc Line}
    (hls : Along (next prog) (fun s l => ¬ ForkFails prog s l) (main root) ls)
    (hrun : run (next prog) (main root) ls = some s) (hs : Finished s) :
    ∃ cpid cpid_1 cpid_2 cpid_3 cpid_4,
      (cpid ≠ root ∧ cpid_2 ≠ root ∧ cpid_2 ≠ cpid) ∧ (cpid_1 ≠ root ∧ cpid_1 ≠ cpid) ∧
      (cpid_3 ≠ root ∧ cpid_4 ≠ root ∧ cpid_3 ≠ cpid_2 ∧ cpid_4 ≠ cpid_2 ∧ cpid_4 ≠ cpid_3) ∧
      (s.output : Multiset (Nat × Line)) =
        written root [.name .PARENT, .PID root, .closed (some cpid), .closed (some cpid_2)] +
        (written cpid (presents .child_1 cpid root ++ [.closed (some cpid_1)]) +
          written cpid_1 (presents .child_1_2 cpid_1 cpid) +
          (written cpid_2 (presents .child_2 cpid_2 root ++
              [.closed (some cpid_3), .closed (some cpid_4)]) +
            (written cpid_3 (presents .child_2_1 cpid_3 cpid_2) +
              written cpid_4 (presents .child_2_2 cpid_4 cpid_2)))) ∧
      s.table = [⟨root, 0, none⟩] := by
  have hstart : Within InOrder (main root) := by
    intro p pp k hat
    cases List.mem_singleton.mp hat
    trivial
  -- no `fork` fails, so that every process keeps to its part and leaves no child behind
  have hsmooth : Smooth prog owes (main root) ls := by
    refine smooth_of_within inOrder_stays (fun k hk hexit => ?_) hstart hls
    obtain ⟨left, rfl⟩ := exit_of_prog hexit
    rw [show left = none from hk]
    rfl
  -- what is written is split at each `fork`, from the root down
  obtain ⟨cpid, cpid_2, C, C', hne, hne_2, hC, hC', hout⟩ :=
    emits_PARENT (output_of_finished disciplined hroot rfl hsmooth hrun hs)
  obtain ⟨cpid_1, hne_1, rfl⟩ := emits_child_1 hC
  obtain ⟨cpid_3, cpid_4, ⟨hroot_3, hne_3⟩, ⟨hroot_4, hne_4⟩, rfl⟩ := emits_child_2 hC'
  exact ⟨cpid, cpid_1, cpid_2, cpid_3, cpid_4, ⟨hne, hne_2⟩, hne_1,
    ⟨hroot_3, hroot_4, hne_3, hne_4⟩, hout,
    table_of_smooth disciplined hroot rfl hsmooth hrun hs⟩

/-- A run from the start to the end: the children move when their parents wait for them. -/
def oneByOne : List Label :=
  [⟨2, 1⟩, ⟨2, 1⟩, ⟨2, 3⟩, ⟨2, 4⟩] ++
    [⟨3, 1⟩, ⟨3, 1⟩, ⟨3, 1⟩, ⟨3, 5⟩] ++ List.replicate 5 ⟨5, 1⟩ ++ [⟨3, 5⟩, ⟨3, 1⟩, ⟨3, 1⟩] ++
    [⟨4, 1⟩, ⟨4, 1⟩, ⟨4, 1⟩, ⟨4, 6⟩, ⟨4, 7⟩] ++ List.replicate 5 ⟨6, 1⟩ ++
    List.replicate 5 ⟨7, 1⟩ ++ List.replicate 5 ⟨4, 1⟩ ++ List.replicate 5 ⟨2, 1⟩

/-- In that run 22 lines are written. -/
theorem six_forks_output_oneByOne : ∃ s, run (next prog) (main 2) oneByOne = some s ∧
    s.output.length = 22 ∧ s.table = [⟨2, 0, none⟩] := by
  have hfail : ∀ s : Processes Pc Line, ∀ l ∈ oneByOne, ¬ ForkFails prog s l := by
    intro s l hl hfail
    have hne : ∀ l ∈ oneByOne, l.choice ≠ 0 := by decide
    exact hne l hl hfail.1
  obtain ⟨s, hs⟩ := Option.isSome_iff_exists.mp
    (show (run (next prog) (main 2) oneByOne).isSome from by decide)
  have hfin : Finished s := by
    intro e he
    have hall : ((run (next prog) (main 2) oneByOne).all fun s =>
      s.table.all fun e => e.code.isNone) = true := by decide
    rw [hs] at hall
    exact Option.isNone_iff_eq_none.mp (List.all_eq_true.mp hall e he)
  obtain ⟨_, _, _, _, _, -, -, -, hout, htable⟩ :=
    six_forks_output (by decide) (along_of_mem hfail _) hs hfin
  have hcard := congrArg Multiset.card hout
  exact ⟨s, hs, by simpa [written, presents] using hcard, htable⟩

end EltexHomeworks.Fork
