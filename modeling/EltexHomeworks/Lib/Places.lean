import Mathlib.Logic.Equiv.Basic

namespace EltexHomeworks.Lib

/-!
# Everything at exactly one place

Items move between places — a queue, the hands of a worker, a list of what is done — and nothing may
be lost or be at two places at once.  The places are given by what is at each of them,
`occ : L → Option ρ`, and the rules follow the items as they move:

* `ExactlyOnce.move` — the places are renamed, by a map that is one-to-one and misses no place that
  is taken;
* `ExactlyOnce.swap` — an item goes to an empty place;
* `ExactlyOnce.take` — a new item appears at an empty place.
-/

variable {ρ L : Type*}

/-- Every known item is at exactly one place, and nothing else is at any. -/
structure ExactlyOnce (known : ρ → Prop) (occ : L → Option ρ) : Prop where
  placed : ∀ r, known r → ∃ l, occ l = some r
  known_of_placed : ∀ l r, occ l = some r → known r
  unique : ∀ l l' r, occ l = some r → occ l' = some r → l = l'

namespace ExactlyOnce

variable {known known' : ρ → Prop} {occ occ' : L → Option ρ}

theorem existsUnique (h : ExactlyOnce known occ) {r : ρ} (hr : known r) :
    ∃! l, occ l = some r := by
  obtain ⟨l, hl⟩ := h.placed r hr
  exact ⟨l, hl, fun l' hl' => h.unique l' l r hl' hl⟩

/-- **Moving.** What was at `f l` is now at `l`. -/
theorem move (h : ExactlyOnce known occ) {f : L → L} (hf : Function.Injective f)
    (hcover : ∀ l, occ l ≠ none → ∃ l', f l' = l) (hocc : ∀ l, occ' l = occ (f l)) :
    ExactlyOnce known occ' where
  placed r hr := by
    obtain ⟨l, hl⟩ := h.placed r hr
    obtain ⟨l', rfl⟩ := hcover l (by rw [hl]; exact Option.some_ne_none r)
    exact ⟨l', by rw [hocc, hl]⟩
  known_of_placed l r hl := h.known_of_placed (f l) r (by rw [← hocc, hl])
  unique l l' r hl hl' :=
    hf (h.unique (f l) (f l') r (by rw [← hocc, hl]) (by rw [← hocc, hl']))

/-- Nothing has moved. -/
theorem congr (h : ExactlyOnce known occ) (hocc : ∀ l, occ' l = occ l) :
    ExactlyOnce known occ' :=
  h.move Function.injective_id (fun l _ => ⟨l, rfl⟩) hocc

/-- An item moves from `a` to the empty place `b`. -/
theorem swap [DecidableEq L] (h : ExactlyOnce known occ) {a b : L} (ha : occ' a = occ b)
    (hb : occ' b = occ a) (hocc : ∀ l, l ≠ a → l ≠ b → occ' l = occ l) :
    ExactlyOnce known occ' := by
  apply h.move (Equiv.swap a b).injective (fun l _ => (Equiv.swap a b).surjective l)
  intro l
  by_cases hla : l = a
  · rw [hla, Equiv.swap_apply_left, ha]
  · by_cases hlb : l = b
    · rw [hlb, Equiv.swap_apply_right, hb]
    · rw [Equiv.swap_apply_of_ne_of_ne hla hlb, hocc l hla hlb]

/-- **Taking.** A new item `r` appears at the place `a`, which was empty. -/
theorem take (h : ExactlyOnce known occ) {r : ρ} {a : L} (hr : ¬ known r) (ha : occ a = none)
    (ha' : occ' a = some r) (hocc : ∀ l, l ≠ a → occ' l = occ l)
    (hknown : ∀ q, known' q ↔ known q ∨ q = r) : ExactlyOnce known' occ' := by
  -- what is not at `a` was there before, and is not `r`
  have hold : ∀ l q, l ≠ a → occ' l = some q → occ l = some q ∧ q ≠ r := by
    intro l q hl hq
    rw [hocc l hl] at hq
    refine ⟨hq, ?_⟩
    rintro rfl
    exact hr (h.known_of_placed l q hq)
  constructor
  · -- every known item has a place: the new one `a`, the others theirs
    intro q hq
    rcases (hknown q).mp hq with hq | rfl
    · obtain ⟨l, hl⟩ := h.placed q hq
      have hla : l ≠ a := by
        rintro rfl
        rw [ha] at hl
        cases hl
      exact ⟨l, by rw [hocc l hla, hl]⟩
    · exact ⟨a, ha'⟩
  · intro l q hl
    rw [hknown]
    by_cases hla : l = a
    · rw [hla, ha'] at hl
      exact .inr (Option.some.inj hl).symm
    · exact .inl (h.known_of_placed l q (hold l q hla hl).1)
  · intro l l' q hl hl'
    -- no item is at two places
    by_cases hla : l = a
    · by_cases hla' : l' = a
      · rw [hla, hla']
      · rw [hla, ha'] at hl
        exact absurd (Option.some.inj hl).symm (hold l' q hla' hl').2
    · by_cases hla' : l' = a
      · rw [hla', ha'] at hl'
        exact absurd (Option.some.inj hl').symm (hold l q hla hl).2
      · exact h.unique l l' q (hold l q hla hl).1 (hold l' q hla' hl').1

end ExactlyOnce

end EltexHomeworks.Lib
