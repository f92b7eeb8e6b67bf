import Mathlib.Tactic.TypeStar

namespace EltexHomeworks.Lib

/-!
# Runs of a program over its inputs

A program that reacts to inputs one at a time is a function `next : σ → α → Option σ`; `none` is
a step it cannot take.

* `run` — the state after a list of inputs, `none` as soon as one step is;
* `Along next C s as` — every step of the run from `s`, as far as it goes, meets the condition
  `C` on the state before it and its input;
* `Throughout next P s as` — every state of that run has the property `P`;
* `isSome_run_iff` — a run goes through exactly when each of its steps does;
* `run_keeps`, `run_keeps_along`, `along_of_keeps`, `along_congr` — the rules for invariants of runs
  and for conditions along them;
* `Leads next s t` — some inputs lead from `s` to `t`, with `leads_row` for states in a row;
* `leads_of_measure`, `reached_of_measure` — a goal that can be reached, and one that is reached
  after so many steps of one party;
* `throughout_iff_along` — when a property of the states comes down to a condition on the steps;
* `throughout_iff_never` — and when that condition is that a fault never happens;
* `along_map`, `throughout_map` — the runs of a program and of a richer one that follows it.
-/

variable {σ τ α : Type*} {next : σ → α → Option σ}

/-- The state after the inputs `as`. -/
def run (next : σ → α → Option σ) : σ → List α → Option σ
  | s, [] => some s
  | s, a :: as => (next s a).bind fun t => run next t as

/-- Every step of the run from `s` meets `C`. -/
def Along (next : σ → α → Option σ) (C : σ → α → Prop) : σ → List α → Prop
  | _, [] => True
  | s, a :: as => C s a ∧ ∀ t, next s a = some t → Along next C t as

/-- A condition that can be decided at each step can be decided along a run. -/
instance decidableAlong {C : σ → α → Prop} [∀ s a, Decidable (C s a)] :
    ∀ s as, Decidable (Along next C s as)
  | _, [] => isTrue trivial
  | s, a :: as =>
    have : DecidablePred fun t => Along next C t as := fun t => decidableAlong t as
    inferInstanceAs (Decidable (C s a ∧ ∀ t ∈ next s a, Along next C t as))

theorem run_cons (s : σ) (a : α) (as : List α) :
    run next s (a :: as) = (next s a).bind fun t => run next t as := rfl

theorem run_cons_eq_some {s u : σ} {a : α} {as : List α} :
    run next s (a :: as) = some u ↔ ∃ t, next s a = some t ∧ run next t as = some u := by
  rw [run_cons, Option.bind_eq_some_iff]

/-- A run in two parts. -/
theorem run_append (s : σ) (as bs : List α) :
    run next s (as ++ bs) = (run next s as).bind fun t => run next t bs := by
  induction as generalizing s with
  | nil => rfl
  | cons a as ih =>
    rw [List.cons_append, run_cons, run_cons, Option.bind_assoc]
    exact congrArg _ (funext fun t => ih t)

/-- **A run goes through** exactly when each of its steps does. -/
theorem isSome_run_iff (s : σ) (as : List α) :
    (run next s as).isSome ↔ Along next (fun s a => (next s a).isSome) s as := by
  induction as generalizing s with
  | nil => exact ⟨fun _ => trivial, fun _ => rfl⟩
  | cons a as ih =>
    rw [run_cons, Along]
    cases h : next s a with
    | none => simp
    | some t => simp [ih t]

/-- **Invariants of runs.** What every step keeps, a run keeps. -/
theorem run_keeps {I : σ → Prop} (keep : ∀ s a t, I s → next s a = some t → I t) {s t : σ}
    {as : List α} (hs : I s) (h : run next s as = some t) : I t := by
  induction as generalizing s with
  | nil => cases h; exact hs
  | cons a as ih =>
    obtain ⟨u, hu, h⟩ := run_cons_eq_some.mp h
    exact ih (keep s a u hs hu) h

/-- What every step that meets a condition keeps, a run along which it holds keeps. -/
theorem run_keeps_along {I : σ → Prop} {C : σ → α → Prop}
    (keep : ∀ s a t, I s → C s a → next s a = some t → I t) {s t : σ} {as : List α} (hs : I s)
    (hC : Along next C s as) (h : run next s as = some t) : I t := by
  induction as generalizing s with
  | nil => cases h; exact hs
  | cons a as ih =>
    obtain ⟨u, hu, h⟩ := run_cons_eq_some.mp h
    exact ih (keep s a u hs hC.1 hu) (hC.2 u hu) h

/-- **Conditions from an invariant.**  A condition that an invariant gives holds along every run
    that starts in it. -/
theorem along_of_keeps {I : σ → Prop} {C : σ → α → Prop}
    (keep : ∀ s a t, I s → next s a = some t → I t) (h : ∀ s a, I s → C s a) {s : σ} (hs : I s)
    (as : List α) : Along next C s as := by
  induction as generalizing s with
  | nil => trivial
  | cons a as ih => exact ⟨h s a hs, fun t ht => ih (keep s a t hs ht)⟩

/-- What holds of every step holds along every run. -/
theorem along_of_forall {C : σ → α → Prop} (h : ∀ s a, C s a) (s : σ) (as : List α) :
    Along next C s as :=
  along_of_keeps (I := fun _ => True) (fun _ _ _ _ _ => trivial) (fun s a _ => h s a) trivial as

/-- What holds of the labels of a run in every state holds along the run. -/
theorem along_of_mem {C : σ → α → Prop} {as : List α} (h : ∀ s, ∀ a ∈ as, C s a) (s : σ) :
    Along next C s as := by
  induction as generalizing s with
  | nil => trivial
  | cons a as ih =>
    exact ⟨h s a List.mem_cons_self,
      fun t _ => ih (fun s b hb => h s b (List.mem_cons_of_mem _ hb)) t⟩

/-- A first step with its outcome, and the rest of the run. -/
theorem Along.cons {C : σ → α → Prop} {s t : σ} {a : α} {as : List α} (h : C s a)
    (ht : next s a = some t) (hrest : Along next C t as) : Along next C s (a :: as) := by
  refine ⟨h, fun u hu => ?_⟩
  rw [ht] at hu
  cases hu
  exact hrest

theorem Along.imp {C C' : σ → α → Prop} (h : ∀ s a, C s a → C' s a) {s : σ} {as : List α}
    (hC : Along next C s as) : Along next C' s as := by
  induction as generalizing s with
  | nil => trivial
  | cons a as ih => exact ⟨h s a hC.1, fun t ht => ih (hC.2 t ht)⟩

/-- A condition along a run in two parts holds along the second. -/
theorem Along.of_append {C : σ → α → Prop} {s t : σ} {as bs : List α}
    (h : Along next C s (as ++ bs)) (ht : run next s as = some t) : Along next C t bs := by
  induction as generalizing s with
  | nil => cases ht; exact h
  | cons a as ih =>
    obtain ⟨u, hu, ht⟩ := run_cons_eq_some.mp ht
    exact ih (h.2 u hu) ht

/-- **Conditions along a run.**  Two conditions that agree wherever an invariant `I` holds agree
    along every run that starts in it, if the first of them keeps `I`.  `P` is what is known of the
    steps of the run. -/
theorem along_congr {I : σ → Prop} {P C C' : σ → α → Prop}
    (keep : ∀ s a t, I s → P s a → C s a → next s a = some t → I t)
    (h : ∀ s a, I s → P s a → (C s a ↔ C' s a)) {s : σ} (hs : I s) {as : List α}
    (hP : Along next P s as) : Along next C s as ↔ Along next C' s as := by
  induction as generalizing s with
  | nil => exact Iff.rfl
  | cons a as ih =>
    obtain ⟨ha, hP⟩ := hP
    constructor
    · rintro ⟨hC, hr⟩
      exact ⟨(h s a hs ha).mp hC, fun t ht => (ih (keep s a t hs ha hC ht) (hP t ht)).mp (hr t ht)⟩
    · rintro ⟨hC', hr⟩
      have hC := (h s a hs ha).mpr hC'
      exact ⟨hC, fun t ht => (ih (keep s a t hs ha hC ht) (hP t ht)).mpr (hr t ht)⟩

/-! ### What a run can lead to -/

/-- Some inputs lead from `s` to `t`. -/
def Leads (next : σ → α → Option σ) (s t : σ) : Prop := ∃ as, run next s as = some t

theorem Leads.refl (s : σ) : Leads next s s := ⟨[], rfl⟩

theorem Leads.of_next {s t : σ} {a : α} (h : next s a = some t) : Leads next s t :=
  ⟨[a], run_cons_eq_some.mpr ⟨t, h, rfl⟩⟩

theorem Leads.trans {s t u : σ} (h : Leads next s t) (h' : Leads next t u) : Leads next s u := by
  obtain ⟨as, hs⟩ := h
  obtain ⟨bs, ht⟩ := h'
  exact ⟨as ++ bs, by rw [run_append, hs]; exact ht⟩

/-- **Steps towards a goal.**  If from every state of `I` short of the goal some steps lead to a
    state of `I` with a smaller measure, then the goal can be reached. -/
theorem leads_of_measure {I G : σ → Prop} (m : σ → Nat)
    (h : ∀ s, I s → ¬ G s → ∃ t, Leads next s t ∧ I t ∧ m t < m s) {s : σ} (hs : I s) :
    ∃ t, Leads next s t ∧ I t ∧ G t := by
  induction hn : m s using Nat.strongRecOn generalizing s with
  | ind n ih =>
    by_cases hG : G s
    · exact ⟨s, .refl s, hs, hG⟩
    · obtain ⟨t, ht, hI, hlt⟩ := h s hs hG
      obtain ⟨u, hu, hIu, hGu⟩ := ih (m t) (hn ▸ hlt) hI rfl
      exact ⟨u, ht.trans hu, hIu, hGu⟩

/-- **Progress of one party.**  If the steps of a party bring a measure down, and those of the
    others do not bring it up, then the goal is reached when the party has done more steps than
    that. -/
theorem reached_of_measure {I G : σ → Prop} {p : α → Bool} (m : σ → Nat)
    (keep : ∀ s a t, I s → next s a = some t → I t) (stay : ∀ s a t, G s → next s a = some t → G t)
    (own : ∀ s a t, I s → ¬ G s → p a = true → next s a = some t → G t ∨ m t < m s)
    (other : ∀ s a t, I s → ¬ G s → p a = false → next s a = some t → G t ∨ m t ≤ m s)
    {s t : σ} {as : List α} (hs : I s) (h : run next s as = some t) (hm : m s < as.countP p) :
    G t := by
  induction as generalizing s with
  | nil => exact absurd hm (Nat.not_lt_zero _)
  | cons a as ih =>
    obtain ⟨u, hu, hrest⟩ := run_cons_eq_some.mp h
    have hgoal : G u → G t := fun hG => run_keeps stay hG hrest
    by_cases hG : G s
    · exact hgoal (stay s a u hG hu)
    · cases ha : p a with
      | true =>
        rw [List.countP_cons_of_pos ha] at hm
        rcases own s a u hs hG ha hu with hG | hlt
        · exact hgoal hG
        · exact ih (keep s a u hs hu) hrest (by omega)
      | false =>
        rw [List.countP_cons_of_neg (by simp [ha])] at hm
        rcases other s a u hs hG ha hu with hG | hle
        · exact hgoal hG
        · exact ih (keep s a u hs hu) hrest (by omega)

/-- In a row of states of which each leads to its neighbours, each leads to all. -/
theorem leads_row {n : Nat} {f : Fin n → σ}
    (h : ∀ i j : Fin n, j.val = i + 1 ∨ i.val = j + 1 → Leads next (f i) (f j)) (i j : Fin n) :
    Leads next (f i) (f j) := by
  -- both directions at once, by the distance
  have hboth : ∀ (d : Nat) (i j : Fin n), j.val = i + d →
      Leads next (f i) (f j) ∧ Leads next (f j) (f i) := by
    intro d
    induction d with
    | zero =>
      intro i j hij
      obtain rfl : j = i := Fin.ext hij
      exact ⟨.refl _, .refl _⟩
    | succ d ih =>
      intro i j hij
      obtain ⟨hup, hdown⟩ := ih i ⟨i + d, by omega⟩ rfl
      exact ⟨hup.trans (h _ _ (Or.inl hij)), (h _ _ (Or.inr hij)).trans hdown⟩
  rcases Nat.le_total i j with hle | hle
  · exact (hboth (j - i) i j (by omega)).1
  · exact (hboth (i - j) j i (by omega)).2

/-! ### Properties of all states of a run -/

/-- Every state the run from `s` comes through has the property `P`. -/
def Throughout (next : σ → α → Option σ) (P : σ → Prop) (s : σ) (as : List α) : Prop :=
  ∀ pre t, pre <+: as → run next s pre = some t → P t

theorem throughout_nil {P : σ → Prop} {s : σ} : Throughout next P s [] ↔ P s := by
  constructor
  · intro h
    exact h [] s (List.prefix_refl _) rfl
  · intro hs pre t hpre ht
    rw [List.prefix_nil.mp hpre] at ht
    cases ht
    exact hs

theorem throughout_cons {P : σ → Prop} {s : σ} {a : α} {as : List α} :
    Throughout next P s (a :: as) ↔ P s ∧ ∀ t, next s a = some t → Throughout next P t as := by
  constructor
  · intro h
    refine ⟨h [] s (List.nil_prefix) rfl, fun t ht pre u hpre hu => ?_⟩
    exact h (a :: pre) u ((List.prefix_cons_inj a).mpr hpre) (run_cons_eq_some.mpr ⟨t, ht, hu⟩)
  · rintro ⟨hs, h⟩ pre u hpre hu
    cases pre with
    | nil => cases hu; exact hs
    | cons b pre =>
      obtain ⟨rfl, hrest⟩ := List.cons_prefix_cons.mp hpre
      obtain ⟨t, ht, hu⟩ := run_cons_eq_some.mp hu
      exact h t ht pre u hrest hu

/-- **A property of the states as a condition on the steps.**  If, where an invariant `I` holds, a
    step keeps `P` exactly when it meets `C`, then `P` holds throughout a run exactly when all its
    steps meet `C`. -/
theorem throughout_iff_along {I P : σ → Prop} {C : σ → α → Prop}
    (keep : ∀ s a t, I s → P s → P t → next s a = some t → I t)
    (h : ∀ s a, I s → P s → ((∀ t, next s a = some t → P t) ↔ C s a)) {s : σ} (hs : I s)
    (hP : P s) {as : List α} : Throughout next P s as ↔ Along next C s as := by
  induction as generalizing s with
  | nil => exact throughout_nil.trans ⟨fun _ => trivial, fun _ => hP⟩
  | cons a as ih =>
    rw [throughout_cons, Along, ← h s a hs hP]
    constructor
    · rintro ⟨-, hrest⟩
      have hstep : ∀ t, next s a = some t → P t := fun t ht =>
        hrest t ht [] t List.nil_prefix rfl
      exact ⟨hstep, fun t ht =>
        (ih (keep s a t hs hP (hstep t ht) ht) (hstep t ht)).mp (hrest t ht)⟩
    · rintro ⟨hstep, hrest⟩
      exact ⟨hP, fun t ht =>
        (ih (keep s a t hs hP (hstep t ht) ht) (hstep t ht)).mpr (hrest t ht)⟩

/-- **A property that only a fault ends.**  If, where an invariant `I` holds, a fault leads to a
    state without `P` and any other step keeps `P`, then `P` holds throughout a run exactly when no
    step of it is a fault. -/
theorem throughout_iff_never {I P : σ → Prop} {Fault : σ → α → Prop}
    (keep : ∀ s a t, I s → P t → next s a = some t → I t)
    (fault : ∀ s a, I s → Fault s a → ∃ t, next s a = some t ∧ ¬ P t)
    (step : ∀ s a t, I s → P s → ¬ Fault s a → next s a = some t → P t) {s : σ} (hs : I s)
    (hP : P s) (as : List α) :
    Throughout next P s as ↔ Along next (fun s a => ¬ Fault s a) s as := by
  refine throughout_iff_along (fun s a t hs _ ht h => keep s a t hs ht h) ?_ hs hP
  intro s a hs hP
  constructor
  · intro hall hfault
    obtain ⟨t, ht, hnot⟩ := fault s a hs hfault
    exact hnot (hall t ht)
  · exact fun hno t ht => step s a t hs hP hno ht

/-! ### A program that is watched -/

/-- What is added to the result of a step and dropped again changes nothing. -/
theorem map_map_of_leftInverse {f : τ → σ} {g : σ → τ} (h : ∀ t, f (g t) = t) (o : Option σ) :
    (o.map g).map f = o := by
  rw [Option.map_map, show f ∘ g = id from funext h, Option.map_id, id]

/-- A condition along the runs of a program is one along the runs of a richer program that does the
    same steps. -/
theorem along_map {next' : τ → α → Option τ} {f : τ → σ}
    (hf : ∀ b a, (next' b a).map f = next (f b) a) {C : σ → α → Prop} (b : τ) (as : List α) :
    Along next' (fun b a => C (f b) a) b as ↔ Along next C (f b) as := by
  induction as generalizing b with
  | nil => exact Iff.rfl
  | cons a as ih =>
    rw [Along, Along, ← hf b a]
    refine and_congr_right fun _ => ?_
    cases next' b a with
    | none => simp
    | some c => simp [ih c]

/-- A run of the richer program is one of the program. -/
theorem run_map {next' : τ → α → Option τ} {f : τ → σ}
    (hf : ∀ b a, (next' b a).map f = next (f b) a) (b : τ) (as : List α) :
    (run next' b as).map f = run next (f b) as := by
  induction as generalizing b with
  | nil => rfl
  | cons a as ih =>
    rw [run_cons, run_cons, ← hf b a]
    cases next' b a with
    | none => rfl
    | some c => exact ih c

/-- A property of the states of a program holds throughout the runs of the richer one that it holds
    throughout. -/
theorem throughout_map {next' : τ → α → Option τ} {f : τ → σ}
    (hf : ∀ b a, (next' b a).map f = next (f b) a) {P : σ → Prop} (b : τ) (as : List α) :
    Throughout next' (fun b => P (f b)) b as ↔ Throughout next P (f b) as := by
  constructor
  · intro h pre t hpre ht
    rw [← run_map hf, Option.map_eq_some_iff] at ht
    obtain ⟨c, hc, rfl⟩ := ht
    exact h pre c hpre hc
  · intro h pre c hpre hc
    refine h pre (f c) hpre ?_
    rw [← run_map hf, hc]
    rfl

end EltexHomeworks.Lib
