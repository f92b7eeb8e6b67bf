import EltexHomeworks.Lib.Run
import Mathlib.Logic.Relation

namespace EltexHomeworks.Lib

/-!
# Two levels of one program

`Refines next Step R` relates a program to a description of it that has fewer states: a step of the
program is some steps of the description, and each step of the description can be brought about by
some steps of the program.  Then both can reach the same (`Refines.leads_iff`).
-/

variable {σ α β : Type*} {next : σ → α → Option σ} {Step : β → β → Prop} {R : σ → β → Prop}

/-- The program `next` and the description `Step` follow each other; `R s c` is read: `s` looks like
    `c`. -/
structure Refines (next : σ → α → Option σ) (Step : β → β → Prop) (R : σ → β → Prop) : Prop where
  sound : ∀ s a t c, R s c → next s a = some t → ∃ d, R t d ∧ Relation.ReflTransGen Step c d
  complete : ∀ s c d, R s c → Step c d → ∃ t, Leads next s t ∧ R t d
  functional : ∀ s c d, R s c → R s d → c = d

namespace Refines

/-- A run of the program is a walk of the description. -/
theorem sound_run (h : Refines next Step R) {s t : σ} {c : β} {as : List α} (hs : R s c)
    (hrun : run next s as = some t) : ∃ d, R t d ∧ Relation.ReflTransGen Step c d := by
  induction as generalizing s c with
  | nil => cases hrun; exact ⟨c, hs, .refl⟩
  | cons a as ih =>
    obtain ⟨u, hu, hrest⟩ := run_cons_eq_some.mp hrun
    obtain ⟨d, hd, hcd⟩ := h.sound s a u c hs hu
    obtain ⟨e, he, hde⟩ := ih hd hrest
    exact ⟨e, he, hcd.trans hde⟩

/-- A walk of the description can be brought about. -/
theorem complete_walk (h : Refines next Step R) {s : σ} {c d : β} (hs : R s c)
    (hwalk : Relation.ReflTransGen Step c d) : ∃ t, Leads next s t ∧ R t d := by
  induction hwalk with
  | refl => exact ⟨s, .refl s, hs⟩
  | tail _ hstep ih =>
    obtain ⟨t, ht, hR⟩ := ih
    obtain ⟨u, hu, hRu⟩ := h.complete t _ _ hR hstep
    exact ⟨u, ht.trans hu, hRu⟩

/-- **Both levels reach the same**: the concrete states that can be reached show exactly what can be
    reached in the abstract. -/
theorem leads_iff (h : Refines next Step R) {s : σ} {c : β} (hs : R s c) (d : β) :
    (∃ t, Leads next s t ∧ R t d) ↔ Relation.ReflTransGen Step c d := by
  constructor
  · rintro ⟨t, ⟨as, hrun⟩, hd⟩
    obtain ⟨e, he, hwalk⟩ := h.sound_run hs hrun
    rwa [h.functional t d e hd he]
  · exact h.complete_walk hs

end Refines

end EltexHomeworks.Lib
