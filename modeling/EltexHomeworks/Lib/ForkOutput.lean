import Mathlib.Algebra.Order.Group.Multiset
import Mathlib.Tactic.Abel
import EltexHomeworks.Lib.ForkJoin

namespace EltexHomeworks.Lib.Processes

open EltexHomeworks.Lib

/-!
# What processes write, whatever the interleaving

`Emits` is the output of a process and all its descendants, read off the program without any
interleaving: a `fork` adds the output of the child, a `wait` returns one of the children owed.
`output_of_finished` says that this is what a run writes in which no `fork` fails and no process
leaves children behind: the processes may move in any order, and the lines come out in any order,
but they are those lines.
-/

variable {κ ο : Type} {prog : κ → Call κ ο} {owes : κ → List Nat} {root : Nat}
  {s t : Processes κ ο} {l : Label}

/-- What a process at `k` and its descendants are going to write.  A child has a number of its own,
    which is not that of `root`, the first process, which stays in the table to the end. -/
inductive Emits (prog : κ → Call κ ο) (owes : κ → List Nat) (root : Nat) :
    κ → Nat → Nat → Multiset (Nat × ο) → Prop
  | write {k k' p pp M} {text : Nat → Nat → ο} (hcall : prog k = .write text k')
      (h : Emits prog owes root k' p pp M) : Emits prog owes root k p pp ((p, text p pp) ::ₘ M)
  | sleep {k k' p pp M} (hcall : prog k = .sleep k') (h : Emits prog owes root k' p pp M) :
      Emits prog owes root k p pp M
  | fork {k failed child p pp c M N} {parent : Nat → κ}
      (hcall : prog k = .fork failed child parent)
      (hfree : INIT < c ∧ c ≠ root ∧ c ≠ p ∧ c ∉ owes k)
      (hchild : Emits prog owes root child c p M)
      (hparent : Emits prog owes root (parent c) p pp N) :
      Emits prog owes root k p pp (M + N)
  | waited {k p pp c M} {k' : Option Nat → κ} (hcall : prog k = .wait k' ∨ prog k = .waitpid c k')
      (hc : c ∈ owes k) (h : Emits prog owes root (k' (some c)) p pp M) :
      Emits prog owes root k p pp M
  | exit {k p pp} (hcall : prog k = .exit) : Emits prog owes root k p pp 0

/-- What the call at `k` adds to what is emitted later. -/
theorem Emits.inv {k : κ} {p pp : Nat} {M : Multiset (Nat × ο)}
    (h : Emits prog owes root k p pp M) :
    match prog k with
    | .write text k' => ∃ N, Emits prog owes root k' p pp N ∧ M = (p, text p pp) ::ₘ N
    | .sleep k' => Emits prog owes root k' p pp M
    | .fork _ child parent => ∃ c N N', (INIT < c ∧ c ≠ root ∧ c ≠ p ∧ c ∉ owes k) ∧
        Emits prog owes root child c p N ∧ Emits prog owes root (parent c) p pp N' ∧ M = N + N'
    | .wait k' => ∃ c ∈ owes k, Emits prog owes root (k' (some c)) p pp M
    | .waitpid c k' => Emits prog owes root (k' (some c)) p pp M
    | .exit => M = 0 := by
  cases h with
  | write hcall h =>
    rw [hcall]
    exact ⟨_, h, rfl⟩
  | sleep hcall h =>
    rw [hcall]
    exact h
  | fork hcall hfree hchild hparent =>
    rw [hcall]
    exact ⟨_, _, _, hfree, hchild, hparent, rfl⟩
  | waited hcall hc h =>
    rcases hcall with hcall | hcall
    · rw [hcall]
      exact ⟨_, hc, h⟩
    · rw [hcall]
      exact h
  | exit hcall => rw [hcall]

/-- What an entry of the table is going to write; a zombie writes nothing. -/
def EntryEmits (prog : κ → Call κ ο) (owes : κ → List Nat) (root : Nat) (e : Proc κ)
    (M : Multiset (Nat × ο)) : Prop :=
  match e.code with
  | some k => Emits prog owes root k e.pid e.ppid M
  | none => M = 0

/-- All that the processes are going to write. -/
def Pending (prog : κ → Call κ ο) (owes : κ → List Nat) (root : Nat) (es : List (Proc κ))
    (N : Multiset (Nat × ο)) : Prop :=
  ∃ f : Proc κ → Multiset (Nat × ο), (∀ e ∈ es, EntryEmits prog owes root e (f e)) ∧
    (es.map f).sum = N

/-! ### Back over one call -/

/-- What the processes were going to write before the entry of `p` changed, and what `p` wrote or
    gave away with it. -/
theorem Pending.of_set {l r : List (Proc κ)} {p pp : Nat} {k : κ} {o : Option κ}
    {N δ : Multiset (Nat × ο)} (hother : ∀ e ∈ l ++ r, e.pid ≠ p)
    (h : Pending prog owes root (l ++ ⟨p, pp, o⟩ :: r) N)
    (hstep : ∀ M, EntryEmits prog owes root ⟨p, pp, o⟩ M → Emits prog owes root k p pp (M + δ)) :
    Pending prog owes root (l ++ ⟨p, pp, some k⟩ :: r) (N + δ) := by
  obtain ⟨f, hf, rfl⟩ := h
  -- the entry of `p` is the only one whose output changes
  let g : Proc κ → Multiset (Nat × ο) := fun e =>
    if e.pid = p then f ⟨p, pp, o⟩ + δ else f e
  have hg : ∀ e ∈ l ++ r, g e = f e := fun e he => if_neg (hother e he)
  have hmap : ∀ es : List (Proc κ), (∀ e ∈ es, g e = f e) → es.map g = es.map f :=
    fun es hes => List.map_congr_left hes
  have hself : ∀ o', g ⟨p, pp, o'⟩ = f ⟨p, pp, o⟩ + δ := fun o' => if_pos rfl
  refine ⟨g, fun e he => ?_, ?_⟩
  · rw [List.mem_append, List.mem_cons] at he
    rcases he with he | rfl | he
    · rw [hg e (List.mem_append_left _ he)]
      exact hf e (List.mem_append_left _ he)
    · rw [hself]
      exact hstep _ (hf _ (List.mem_append_right _ List.mem_cons_self))
    · rw [hg e (List.mem_append_right _ he)]
      exact hf e (List.mem_append_right _ (List.mem_cons_of_mem _ he))
  · rw [List.map_append, List.map_cons, List.sum_append, List.sum_cons, hself,
      hmap l fun e he => hg e (List.mem_append_left _ he),
      hmap r fun e he => hg e (List.mem_append_right _ he), List.map_append, List.map_cons,
      List.sum_append, List.sum_cons]
    abel

/-- Before a process went on. -/
theorem Pending.of_goto (ho : Orderly s) {p pp : Nat} {k k' : κ} (hrun : s.At p pp k)
    {N δ : Multiset (Nat × ο)} (h : Pending prog owes root (s.goto p k').table N)
    (hstep : ∀ M, Emits prog owes root k' p pp M → Emits prog owes root k p pp (M + δ)) :
    Pending prog owes root s.table (N + δ) := by
  obtain ⟨l, r, htable, hother, hset⟩ := ho.split hrun
  rw [htable]
  refine Pending.of_set (o := some k') hother ?_ hstep
  rw [← hset]
  exact h

/-- Before a zombie left the table. -/
theorem Pending.of_reap (ho : Orderly s) {p c : Nat} (hc : s.Ended p c) {N : Multiset (Nat × ο)}
    (h : Pending prog owes root (s.reap c).table N) : Pending prog owes root s.table N := by
  obtain ⟨f, hf, rfl⟩ := h
  refine ⟨fun e => if e.pid = c then 0 else f e, fun e he => ?_, ?_⟩
  · dsimp only
    by_cases hpid : e.pid = c
    · have hnone : e.code = none := by
        cases hcode : e.code with
        | none => rfl
        | some k => exact absurd hpid (ho.ne_of_ended he (by rw [hcode]; rfl) hc)
      rw [if_pos hpid, EntryEmits, hnone]
    · rw [if_neg hpid]
      exact hf e (mem_reap.mpr ⟨he, hpid⟩)
  · -- the zombie adds nothing
    rw [reap]
    induction s.table with
    | nil => rfl
    | cons e es ih =>
      rw [List.map_cons, List.sum_cons, ih, List.filter_cons]
      by_cases hpid : e.pid = c <;> simp [hpid]

/-- The call `fork`, and it fails. -/
def ForkFails (prog : κ → Call κ ο) (s : Processes κ ο) (l : Label) : Prop :=
  l.choice = 0 ∧ ∃ pp k failed child parent, s.At l.pid pp k ∧ prog k = .fork failed child parent

/-- **Back over one call**: what is written later and what the call wrote. -/
theorem Pending.of_next (hd : Disciplined prog owes) (ho : Orderly s) (hr : Rooted root s)
    (h : Accounted owes s) (hl : ¬ Abandons prog owes s l)
    (hfail : ¬ ForkFails prog s l) (hst : s.next prog l = some t) {N : Multiset (Nat × ο)}
    (hN : Pending prog owes root t.table N) :
    ∃ M, Pending prog owes root s.table M ∧ (t.output : Multiset (Nat × ο)) + N = s.output + M := by
  cases next_cases hst with
  | @write pp k k' text hrun hcall =>
    -- the line is written now, and what the process writes later comes behind it
    refine ⟨N + {(l.pid, text l.pid pp)}, hN.of_goto ho hrun fun M hM => ?_, ?_⟩
    · rw [add_comm, Multiset.singleton_add]
      exact .write hcall hM
    · rw [Processes.write, ← Multiset.coe_add, Multiset.coe_singleton]
      show (s.output : Multiset (Nat × ο)) + _ + N = _
      abel
  | @sleep pp k k' hrun hcall =>
    refine ⟨N + 0, hN.of_goto ho hrun fun M hM => ?_, ?_⟩
    · rw [add_zero]
      exact .sleep hcall hM
    · rw [add_zero]
      rfl
  | forkFails hrun hcall hzero => exact absurd ⟨hzero, _, _, _, _, _, hrun, hcall⟩ hfail
  | @fork pp k failed child parent hrun hcall hfree =>
    obtain ⟨f, hf, rfl⟩ := hN
    -- the new process comes last in the table
    have hadd : ((s.goto l.pid (parent l.choice)).add l.choice l.pid child).table =
        (s.goto l.pid (parent l.choice)).table ++ [⟨l.choice, l.pid, some child⟩] := rfl
    rw [hadd] at hf ⊢
    have hold : Pending prog owes root (s.goto l.pid (parent l.choice)).table
        ((s.goto l.pid (parent l.choice)).table.map f).sum :=
      ⟨f, fun e he => hf e (List.mem_append_left _ he), rfl⟩
    have hchild : Emits prog owes root child l.choice l.pid (f ⟨l.choice, l.pid, some child⟩) :=
      hf _ (List.mem_append_right _ (List.mem_singleton_self _))
    -- a number that is still owed is still in the table, so `fork` cannot give it again
    have hnot : l.choice ∉ owes k := by
      intro hc
      obtain ⟨e, he, hpid, -⟩ := (h.mem_iff hrun _).mp hc
      exact hfree.2 e he hpid
    have hroot : l.choice ≠ root := by
      obtain ⟨e, he, hpid⟩ := hr.mem
      exact fun heq => hfree.2 e he (hpid.trans heq.symm)
    refine ⟨_, hold.of_goto ho hrun (δ := f ⟨l.choice, l.pid, some child⟩) fun M hM => ?_, ?_⟩
    · rw [add_comm]
      exact .fork hcall ⟨hfree.1, hroot, Ne.symm (hfree.2 _ hrun), hnot⟩ hchild hM
    · rw [List.map_append, List.sum_append, List.map_singleton, List.sum_singleton]
      rfl
  | @reap pp c k k' hrun hcall hended =>
    have hne := ho.ne_of_ended hrun rfl hended
    have hc : c ∈ owes k := by
      obtain ⟨z, hz, hzc, -⟩ := hended
      exact (h.mem_iff hrun c).mpr ⟨z, hz, hzc⟩
    -- the process that has ended writes nothing more
    have hback := hN.of_goto (ho.reap hended) (mem_reap.mpr ⟨hrun, hne⟩) (k := k) (δ := 0)
      fun M hM => by
        rw [add_zero]
        exact .waited hcall hc hM
    rw [add_zero] at hback
    exact ⟨N, hback.of_reap ho hended, rfl⟩
  | childless hrun hcall =>
    -- a process that waits has a child, or it would have waited for it before
    obtain ⟨hwait, hwaitpid⟩ := h.has_waited hd hrun
    rcases hcall with ⟨hcall, hno⟩ | ⟨c, hcall, hno⟩
    · exact absurd (hwait _ hcall) hno
    · exact absurd (hwaitpid c _ hcall) hno
  | @exit pp k hrun hcall =>
    have htable := h.table_exit hrun (Classical.not_not.mp fun hk => hl ⟨pp, k, hrun, hcall, hk⟩)
    obtain ⟨lo, hi, hsplit, hother, hset⟩ := ho.split hrun
    rw [htable, hset] at hN
    refine ⟨N + 0, ?_, by rw [add_zero]; rfl⟩
    rw [hsplit]
    -- nor does one that has left, and nobody was waiting to be adopted
    refine hN.of_set hother fun M hM => ?_
    rw [show M = 0 from hM]
    exact .exit hcall

/-! ### Runs -/

/-- A run in which no `fork` fails and no process leaves children behind. -/
def Smooth (prog : κ → Call κ ο) (owes : κ → List Nat) (s : Processes κ ο) (ls : List Label) :
    Prop :=
  Along (next prog) (fun s l => ¬ Abandons prog owes s l ∧ ¬ ForkFails prog s l) s ls

/-- A call at a place of `P` leads to such a place, unless it is a `fork` that fails. -/
def Stays (P : κ → Prop) : Call κ ο → Prop
  | .write _ k => P k
  | .sleep k => P k
  | .fork _ child parent => P child ∧ ∀ c, P (parent c)
  | .wait k => ∀ r, P (k r)
  | .waitpid _ k => ∀ r, P (k r)
  | .exit => True

/-- All processes that run are at places of `P`. -/
def Within (P : κ → Prop) (s : Processes κ ο) : Prop := ∀ p pp k, s.At p pp k → P k

theorem Within.next {P : κ → Prop} (hP : ∀ k, P k → Stays P (prog k)) (h : Within P s)
    (hfail : ¬ ForkFails prog s l) (hst : s.next prog l = some t) : Within P t := by
  have hcalls : ∀ {pp k c}, s.At l.pid pp k → prog k = c → Stays P c :=
    fun hrun hcall => hcall ▸ hP _ (h _ _ _ hrun)
  have hgoto : ∀ {u : Processes κ ο} {q : Nat} {k' : κ}, Within P u → P k' →
      Within P (u.goto q k') := by
    intro u q k' hu hk' p pp k hat
    rcases at_goto hat with ⟨-, rfl⟩ | ⟨-, hat⟩
    · exact hk'
    · exact hu p pp k hat
  cases next_cases hst with
  | write hrun hcall => exact hgoto h (hcalls hrun hcall)
  | sleep hrun hcall => exact hgoto h (hcalls hrun hcall)
  | forkFails hrun hcall hzero => exact absurd ⟨hzero, _, _, _, _, _, hrun, hcall⟩ hfail
  | fork hrun hcall hfree =>
    -- the child begins at a place that the call allows
    intro p pp k hat
    rcases mem_add.mp hat with hat | heq
    · exact hgoto h ((hcalls hrun hcall).2 _) p pp k hat
    · cases heq
      exact (hcalls hrun hcall).1
  | reap hrun hcall hended =>
    -- the child that is reaped was in the table, and the parent goes on
    refine hgoto (fun p pp k hat => h p pp k (mem_reap.mp hat).1) ?_
    rcases hcall with hcall | hcall <;> exact hcalls hrun hcall _
  | childless hrun hcall =>
    rcases hcall with ⟨hcall, -⟩ | ⟨c, hcall, -⟩ <;> exact hgoto h (hcalls hrun hcall _)
  | exit hrun hcall =>
    intro p pp k hat
    obtain ⟨-, pp', hat⟩ := at_exit hat
    exact h p pp' k hat

/-- A program whose processes leave children behind only after a `fork` has failed. -/
theorem smooth_of_within {P : κ → Prop} (hP : ∀ k, P k → Stays P (prog k))
    (hexit : ∀ k, P k → prog k = .exit → owes k = []) (h : Within P s) {ls : List Label}
    (hls : Along (Processes.next prog) (fun s l => ¬ ForkFails prog s l) s ls) :
    Smooth prog owes s ls := by
  induction ls generalizing s with
  | nil => trivial
  | cons l ls ih =>
    refine ⟨⟨?_, hls.1⟩, fun t ht => ih (h.next hP hls.1 ht) (hls.2 t ht)⟩
    rintro ⟨pp, k, hrun, hcall, howes⟩
    exact howes (hexit k (h _ _ _ hrun) hcall)

/-- Back over a run. -/
theorem Pending.of_run (hd : Disciplined prog owes) {ls : List Label} (ho : Orderly s)
    (hr : Rooted root s) (h : Accounted owes s) (hls : Smooth prog owes s ls)
    (hrun : run (next prog) s ls = some t) {N : Multiset (Nat × ο)}
    (hN : Pending prog owes root t.table N) :
    ∃ M, Pending prog owes root s.table M ∧ (t.output : Multiset (Nat × ο)) + N = s.output + M := by
  induction ls generalizing s with
  | nil =>
    cases hrun
    exact ⟨N, hN, rfl⟩
  | cons l ls ih =>
    obtain ⟨u, hu, hrun⟩ := run_cons_eq_some.mp hrun
    obtain ⟨⟨hl, hfail⟩, hls⟩ := hls
    obtain ⟨M, hM, hout⟩ := ih (ho.next hu) (hr.next ho hu) (h.next hd ho hu) (hls u hu) hrun
    obtain ⟨M', hM', hout'⟩ := hM.of_next hd ho hr h hl hfail hu
    exact ⟨M', hM', hout.trans hout'⟩

/-- **Output.**  When all processes have ended, what was written is what the program emits without
    any interleaving. -/
theorem output_of_finished (hd : Disciplined prog owes) {k : κ}
    (hroot : INIT < root) (hk : owes k = []) {ls : List Label}
    (hls : Smooth prog owes (start (ο := ο) root k) ls)
    (hrun : run (next prog) (start root k) ls = some t) (ht : Finished t) :
    Emits prog owes root k root 0 (t.output : Multiset (Nat × ο)) := by
  have hend : Pending prog owes root t.table 0 := by
    refine ⟨fun _ => 0, fun e he => ?_, ?_⟩
    · rw [EntryEmits, ht e he]
    · exact List.sum_eq_zero fun M hM => by
        obtain ⟨e, -, rfl⟩ := List.mem_map.mp hM
        rfl
  obtain ⟨M, ⟨f, hf, rfl⟩, hout⟩ := hend.of_run hd (orderly_start hroot k)
    (rooted_start root k) (accounted_start hroot hk).1 hls hrun
  have hstart := hf ⟨root, 0, some k⟩ (List.mem_singleton_self _)
  have hsum : (t.output : Multiset (Nat × ο)) = f ⟨root, 0, some k⟩ := by
    rw [add_zero] at hout
    rw [hout]
    show (([] : List (Nat × ο)) : Multiset (Nat × ο)) + ([f ⟨root, 0, some k⟩]).sum = _
    rw [List.sum_singleton, Multiset.coe_nil, zero_add]
  rw [hsum]
  exact hstart

/-- Everybody was waited for. -/
theorem table_of_smooth (hd : Disciplined prog owes) {k : κ} (hroot : INIT < root)
    (hk : owes k = []) {ls : List Label} (hls : Smooth prog owes (start (ο := ο) root k) ls)
    (hrun : run (next prog) (start root k) ls = some t) (ht : Finished t) :
    t.table = [⟨root, 0, none⟩] := by
  have hno : NoOrphan t :=
    (noOrphan_iff hd hroot hk ls).mpr (hls.imp fun _ _ h => h.1) ls t List.prefix_rfl hrun
  obtain ⟨ho, hrooted⟩ := run_keeps (I := fun s => Orderly s ∧ Rooted root s)
    (fun s l t hI hst => ⟨hI.1.next hst, hI.2.next hI.1 hst⟩)
    ⟨orderly_start hroot k, rooted_start root k⟩ hrun
  exact table_of_finished ho hrooted hno ht

end EltexHomeworks.Lib.Processes
