import EltexHomeworks.Lib.Run
import Mathlib.Data.List.Induction
import Mathlib.Logic.Relation

namespace EltexHomeworks.Lib

/-!
# Parties that are served in the order they came

A list of parties grows at its end, and each of them takes steps of its own.  One that still waits
begins only when nobody waits before it.

* `Parties.Step` — a party joins, or one of them takes a step;
* `Parties.Begins` — what makes `waiting` a condition to wait: a party has it until its first step;
* `Parties.Begins.walk_iff` — the parties have nothing to do with each other: every combination of
  states that they can come to alone is one they can come to together, so long as none has begun
  before one that came earlier.
-/

/-- A kind of party: its steps, the states it may join in, and those in which it waits. -/
structure Parties (β α : Type*) where
  next : β → α → Option β
  fresh : β → Prop
  waiting : β → Prop

namespace Parties

variable {β α : Type*} (P : Parties β α)

/-- A step of the parties `bs`. -/
inductive Step (bs : List β) : List β → Prop
  | join {b : β} (fresh : P.fresh b) : Step bs (bs ++ [b])
  | move {k : Nat} {b c : β} {a : α} (at_k : bs[k]? = some b) (step : P.next b a = some c)
      (turn : P.waiting b → ∀ i d, i < k → bs[i]? = some d → ¬ P.waiting d) : Step bs (bs.set k c)

/-- A state that a party can come to alone. -/
def Alone (b : β) : Prop := ∃ b₀, P.fresh b₀ ∧ Leads P.next b₀ b

/-- Those who wait are the last ones. -/
def InTurn (bs : List β) : Prop := bs.Pairwise fun b c => P.waiting b → P.waiting c

/-- A party waits until its first step, and never after it; `I` is an invariant of a party. -/
structure Begins (I : β → Prop) : Prop where
  fresh : ∀ b, P.fresh b → I b ∧ P.waiting b
  next : ∀ b a c, I b → P.next b a = some c → I c ∧ ¬ P.waiting c

variable {P} {I : β → Prop}

theorem inTurn_iff {bs : List β} : P.InTurn bs ↔
    ∀ (i j : Nat) b c, i < j → bs[i]? = some b → bs[j]? = some c → P.waiting b → P.waiting c := by
  rw [InTurn, List.pairwise_iff_getElem]
  constructor
  · intro h i j b c hij hb hc
    obtain ⟨hi, rfl⟩ := List.getElem?_eq_some_iff.mp hb
    obtain ⟨hj, rfl⟩ := List.getElem?_eq_some_iff.mp hc
    exact h i j hi hj hij
  · intro h i j hi hj hij
    exact h i j _ _ hij (List.getElem?_eq_getElem hi) (List.getElem?_eq_getElem hj)

namespace Begins

/-- The invariant of a party. -/
theorem of_alone (h : P.Begins I) {b : β} (hb : P.Alone b) : I b := by
  obtain ⟨b₀, hfresh, as, hrun⟩ := hb
  exact run_keeps (fun b a c hI hc => (h.next b a c hI hc).1) (h.fresh b₀ hfresh).1 hrun

/-- A party that has taken a step does not wait. -/
theorem not_waiting_of_run (h : P.Begins I) {b c : β} {a : α} {as : List α} (hb : I b)
    (hrun : run P.next b (a :: as) = some c) : ¬ P.waiting c := by
  obtain ⟨d, hd, hrest⟩ := run_cons_eq_some.mp hrun
  have hI : I c ∧ ¬ P.waiting c :=
    run_keeps (I := fun b => I b ∧ ¬ P.waiting b)
      (fun b a c hb hc => h.next b a c hb.1 hc) (h.next b a d hb hd) hrest
  exact hI.2

/-- **One step** keeps every party in a state it can come to alone, and their turn. -/
theorem step (h : P.Begins I) {bs cs : List β} (halone : ∀ b ∈ bs, P.Alone b)
    (hturn : P.InTurn bs) (hstep : P.Step bs cs) : (∀ c ∈ cs, P.Alone c) ∧ P.InTurn cs := by
  cases hstep with
  -- a party that joins is new, and does not keep those before it waiting
  | @join b hfresh =>
    constructor
    · intro c hc
      rcases List.mem_append.mp hc with hc | hc
      · exact halone c hc
      · rw [List.mem_singleton.mp hc]
        exact ⟨b, hfresh, .refl b⟩
    · refine List.pairwise_append.mpr ⟨hturn, List.pairwise_singleton _ b, ?_⟩
      intro c _ d hd _
      rw [List.mem_singleton.mp hd]
      exact (h.fresh b hfresh).2
  | @move k b c a hk hnext hfirst =>
    have hb := halone b (List.mem_of_getElem? hk)
    have hc := h.next b a c (h.of_alone hb) hnext
    constructor
    · intro d hd
      rcases List.mem_or_eq_of_mem_set hd with hd | rfl
      · exact halone d hd
      · obtain ⟨b₀, hfresh, hleads⟩ := hb
        exact ⟨b₀, hfresh, hleads.trans (.of_next hnext)⟩
    · rw [inTurn_iff] at hturn ⊢
      intro i j d e hij hd he hwait
      -- the party that has moved does not wait any more
      have hkne : i ≠ k := by
        rintro rfl
        rw [List.getElem?_set_self (List.getElem?_eq_some_iff.mp hk).1] at hd
        cases hd
        exact hc.2 hwait
      rw [List.getElem?_set_ne (Ne.symm hkne)] at hd
      by_cases hjk : j = k
      · -- whoever waits before `k` waits while `b` is to begin, or while it goes on
        subst hjk
        by_cases hwb : P.waiting b
        · exact absurd hwait (hfirst hwb i d hij hd)
        · exact absurd (hturn i j d b hij hd hk hwait) hwb
      · rw [List.getElem?_set_ne (Ne.symm hjk)] at he
        exact hturn i j d e hij hd he hwait

/-- The last party can go on as it can alone when nobody waits before it. -/
theorem walk_last {bs : List β} (hbs : ∀ d ∈ bs, ¬ P.waiting d) {b c : β} {as : List α}
    (hrun : run P.next b as = some c) :
    Relation.ReflTransGen P.Step (bs ++ [b]) (bs ++ [c]) := by
  induction as generalizing b with
  | nil =>
    cases hrun
    exact .refl
  | cons a as ih =>
    obtain ⟨d, hd, hrest⟩ := run_cons_eq_some.mp hrun
    have hmove : P.Step (bs ++ [b]) ((bs ++ [b]).set bs.length d) := by
      refine .move List.getElem?_concat_length hd fun _ i e hi he => hbs e ?_
      rw [List.getElem?_append_left hi] at he
      exact List.mem_of_getElem? he
    rw [List.set_append_right _ _ (Nat.le_refl _), Nat.sub_self, List.set_cons_zero] at hmove
    exact .head hmove (ih hrest)

/-- **The states of the parties**: each is in one that it can come to alone, and none has begun
    before one that came earlier. -/
theorem walk_iff (h : P.Begins I) (bs : List β) :
    Relation.ReflTransGen P.Step [] bs ↔ (∀ b ∈ bs, P.Alone b) ∧ P.InTurn bs := by
  constructor
  · intro hwalk
    induction hwalk with
    | refl => exact ⟨fun b hb => absurd hb List.not_mem_nil, List.Pairwise.nil⟩
    | tail _ hstep ih => exact h.step ih.1 ih.2 hstep
  · rintro ⟨halone, hturn⟩
    induction bs using List.reverseRecOn with
    | nil => exact .refl
    | append_singleton bs b ih =>
      obtain ⟨hbs, -, hlast⟩ := List.pairwise_append.mp hturn
      have hwalk := ih (fun c hc => halone c (List.mem_append_left _ hc)) hbs
      obtain ⟨b₀, hfresh, as, hrun⟩ :=
        halone b (List.mem_append_right _ (List.mem_singleton_self b))
      -- it joins behind the others, and goes on alone if it has begun
      have hjoin := hwalk.tail (.join hfresh)
      cases as with
      | nil =>
        cases hrun
        exact hjoin
      | cons a as =>
        have hb := h.not_waiting_of_run (h.fresh b₀ hfresh).1 hrun
        refine hjoin.trans (walk_last (fun d hd hwait => hb ?_) hrun)
        exact hlast d hd b (List.mem_singleton_self b) hwait

end Begins

end Parties

end EltexHomeworks.Lib
