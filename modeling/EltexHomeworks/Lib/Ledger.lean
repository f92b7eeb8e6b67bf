import Mathlib.Data.List.Nodup
import Mathlib.Logic.Function.Basic

namespace EltexHomeworks.Lib

/-!
# Ledgers — what was opened for whom, and closed again

Numbers are given out to owners and taken back by the number alone, so that whether everything an
owner got was taken back is not seen from the numbers.  A `Ledger` keeps the account:

* `Ledger.opening`, `Ledger.closing` — the two entries;
* `Sound` — nobody got a number twice, and what an owner got was closed or is still open;
* `Sound.count_closed` — what an owner got was closed exactly once, exactly when no number is its.
-/

/-- To whom each open number belongs, and who got a number and gave it back so far. -/
structure Ledger (ρ : Type*) where
  owner : Nat → Option ρ
  opened : List ρ
  closed : List ρ

namespace Ledger

variable {ρ : Type*}

/-- Nothing was opened. -/
def empty : Ledger ρ := ⟨fun _ => none, [], []⟩

/-- The number `fd` is opened for `r`. -/
def opening (g : Ledger ρ) (fd : Nat) (r : ρ) : Ledger ρ :=
  ⟨Function.update g.owner fd (some r), g.opened ++ [r], g.closed⟩

/-- The number `fd` is closed. -/
def closing (g : Ledger ρ) (fd : Nat) : Ledger ρ :=
  ⟨Function.update g.owner fd none, g.opened, g.closed ++ (g.owner fd).toList⟩

/-- An account that adds up. -/
structure Sound (g : Ledger ρ) : Prop where
  opened : g.opened.Nodup
  closed : g.closed.Nodup
  account : ∀ r, r ∈ g.opened ↔ r ∈ g.closed ∨ ∃ fd, g.owner fd = some r
  open_of_owner : ∀ fd r, g.owner fd = some r → r ∉ g.closed
  unique : ∀ fd fd' r, g.owner fd = some r → g.owner fd' = some r → fd = fd'

variable {g : Ledger ρ} {fd : Nat} {r : ρ}

theorem owner_opening_self : (g.opening fd r).owner fd = some r := Function.update_self ..

theorem owner_opening_of_ne {fd' : Nat} (h : fd' ≠ fd) :
    (g.opening fd r).owner fd' = g.owner fd' := Function.update_of_ne h ..

theorem owner_closing_self : (g.closing fd).owner fd = none := Function.update_self ..

theorem owner_closing_of_ne {fd' : Nat} (h : fd' ≠ fd) :
    (g.closing fd).owner fd' = g.owner fd' := Function.update_of_ne h ..

theorem Sound.empty : (Ledger.empty : Ledger ρ).Sound :=
  ⟨List.nodup_nil, List.nodup_nil, fun r => by simp [Ledger.empty],
    fun _ _ h => (by cases h), fun _ _ _ h => (by cases h)⟩

/-- An owner that has not got a number gets a free one. -/
theorem Sound.opening (h : g.Sound) (hfd : g.owner fd = none) (hr : r ∉ g.opened) :
    (g.opening fd r).Sound := by
  have hclosed : r ∉ g.closed := fun hmem => hr ((h.account r).mpr (.inl hmem))
  -- `r` had no number before
  have hnew : ∀ fd', (g.opening fd r).owner fd' = some r → fd' = fd := by
    intro fd' howner
    by_contra hne
    rw [owner_opening_of_ne hne] at howner
    exact hr ((h.account r).mpr (.inr ⟨fd', howner⟩))
  constructor
  · exact List.nodup_append.mpr ⟨h.opened, List.nodup_singleton r, by grind⟩
  · exact h.closed
  · intro q
    -- what is opened is closed or has an owner: `r` is now the owner of `fd`
    show q ∈ g.opened ++ [r] ↔ q ∈ g.closed ∨ _
    rw [List.mem_append, List.mem_singleton, h.account q]
    constructor
    · rintro ((hq | ⟨fd', hfd'⟩) | rfl)
      · exact .inl hq
      · have hne : fd' ≠ fd := by
          rintro rfl
          rw [hfd] at hfd'
          cases hfd'
        exact .inr ⟨fd', by rw [owner_opening_of_ne hne, hfd']⟩
      · exact .inr ⟨fd, owner_opening_self⟩
    · rintro (hq | ⟨fd', hfd'⟩)
      · exact .inl (.inl hq)
      · by_cases hne : fd' = fd
        · rw [hne, owner_opening_self] at hfd'
          exact .inr (Option.some.inj hfd').symm
        · rw [owner_opening_of_ne hne] at hfd'
          exact .inl (.inr ⟨fd', hfd'⟩)
  · intro fd' q hfd'
    by_cases hne : fd' = fd
    · rw [hne, owner_opening_self] at hfd'
      cases hfd'
      exact hclosed
    · rw [owner_opening_of_ne hne] at hfd'
      exact h.open_of_owner fd' q hfd'
  · intro fd' fd'' q hfd' hfd''
    -- no two numbers belong to the same request
    by_cases hq : q = r
    · subst hq
      rw [hnew fd' hfd', hnew fd'' hfd'']
    · have hold : ∀ fd₀, (g.opening fd r).owner fd₀ = some q → g.owner fd₀ = some q := by
        intro fd₀ h₀
        by_cases hne : fd₀ = fd
        · rw [hne, owner_opening_self] at h₀
          exact absurd (Option.some.inj h₀).symm hq
        · rwa [owner_opening_of_ne hne] at h₀
      exact h.unique fd' fd'' q (hold fd' hfd') (hold fd'' hfd'')

/-- A number is given back, whoever had it. -/
theorem Sound.closing (h : g.Sound) (fd : Nat) : (g.closing fd).Sound := by
  -- the owners that are left are those of the other numbers
  have hold : ∀ fd' q, (g.closing fd).owner fd' = some q → fd' ≠ fd ∧ g.owner fd' = some q := by
    intro fd' q hfd'
    by_cases hne : fd' = fd
    · rw [hne, owner_closing_self] at hfd'
      cases hfd'
    · rw [owner_closing_of_ne hne] at hfd'
      exact ⟨hne, hfd'⟩
  -- what is closed now was closed before or had this number
  have hmem : ∀ q, q ∈ (g.closing fd).closed ↔ q ∈ g.closed ∨ g.owner fd = some q := by
    intro q
    show q ∈ g.closed ++ (g.owner fd).toList ↔ _
    rw [List.mem_append, Option.mem_toList]
  constructor
  · exact h.opened
  · refine List.nodup_append.mpr ⟨h.closed, Option.toList_nodup _, ?_⟩
    rintro q hq q' hq' rfl
    exact h.open_of_owner fd q (Option.mem_toList.mp hq') hq
  · -- an acquired descriptor is closed or open: only the one of `fd` changes sides
    intro q
    show q ∈ g.opened ↔ _
    rw [h.account q, hmem q, or_assoc]
    refine or_congr_right ⟨?_, ?_⟩
    · rintro ⟨fd', hfd'⟩
      by_cases hne : fd' = fd
      · exact .inl (hne ▸ hfd')
      · exact .inr ⟨fd', by rw [owner_closing_of_ne hne, hfd']⟩
    · rintro (hfd | ⟨fd', hfd'⟩)
      · exact ⟨fd, hfd⟩
      · exact ⟨fd', (hold fd' q hfd').2⟩
  · intro fd' q hfd' hq
    obtain ⟨hne, hfd'⟩ := hold fd' q hfd'
    rcases (hmem q).mp hq with hq | hq
    · exact h.open_of_owner fd' q hfd' hq
    · exact hne (h.unique fd' fd q hfd' hq)
  · intro fd' fd'' q hfd' hfd''
    exact h.unique fd' fd'' q (hold fd' q hfd').2 (hold fd'' q hfd'').2

/-- **Closed exactly once** — what was opened for `r`, exactly when no number is its any more. -/
theorem Sound.count_closed [DecidableEq ρ] (h : g.Sound) (hr : r ∈ g.opened) :
    g.closed.count r = 1 ↔ ∀ fd, g.owner fd ≠ some r := by
  constructor
  · intro hcount fd hfd
    rw [List.count_eq_zero_of_not_mem (h.open_of_owner fd r hfd)] at hcount
    cases hcount
  · intro hnone
    rcases (h.account r).mp hr with hmem | ⟨fd, hfd⟩
    · exact List.count_eq_one_of_mem h.closed hmem
    · exact absurd hfd (hnone fd)

end Ledger

end EltexHomeworks.Lib
