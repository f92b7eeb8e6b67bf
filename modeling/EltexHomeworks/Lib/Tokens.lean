import Mathlib.Data.Multiset.AddSub

namespace EltexHomeworks.Lib

/-!
# Counting tokens

A protocol in which something may exist only once is followed by counting the places it can be at:
messages in flight in a multiset, participants in a list.  These rules say how the counts change
when a message is sent or consumed and when a participant changes; the sums are left to `omega`.
-/

variable {α : Type*}

/-- A message is consumed. -/
theorem countP_erase_add [DecidableEq α] {p : α → Prop} [DecidablePred p] {s : Multiset α} {a : α}
    (h : a ∈ s) : (s.erase a).countP p + (if p a then 1 else 0) = s.countP p := by
  conv_rhs => rw [← Multiset.cons_erase h]
  exact (Multiset.countP_cons ..).symm

/-- A participant changes. -/
theorem countP_set_add {p : α → Bool} {l : List α} {i : Nat} {a b : α} (h : l[i]? = some b) :
    (l.set i a).countP p + (if p b then 1 else 0) = l.countP p + (if p a then 1 else 0) := by
  obtain ⟨hi, hb⟩ := List.getElem?_eq_some_iff.mp h
  rw [List.countP_set hi, hb]
  have hpos : p b = true → 0 < l.countP p := fun hp =>
    List.countP_pos_iff.mpr ⟨b, List.mem_of_getElem? h, hp⟩
  by_cases hp : p b = true
  · have := hpos hp
    simp only [hp, if_true]
    omega
  · rw [if_neg hp]
    omega

/-- Of what exists only once, two in the same list are at the same place. -/
theorem eq_of_countP_le_one {p : α → Bool} {l : List α} (h : l.countP p ≤ 1) {i j : Nat} {a b : α}
    (ha : l[i]? = some a) (hb : l[j]? = some b) (hpa : p a = true) (hpb : p b = true) : i = j := by
  induction l generalizing i j with
  | nil => simp at ha
  | cons c l ih =>
    rw [List.countP_cons] at h
    -- two at different places of the tail, or one of them at the head
    cases i with
    | zero =>
      cases j with
      | zero => rfl
      | succ j =>
        have hc : c = a := Option.some.inj ha
        have hpos : 0 < l.countP p := List.countP_pos_iff.mpr ⟨b, List.mem_of_getElem? hb, hpb⟩
        rw [hc, if_pos hpa] at h
        omega
    | succ i =>
      cases j with
      | zero =>
        have hc : c = b := Option.some.inj hb
        have hpos : 0 < l.countP p := List.countP_pos_iff.mpr ⟨a, List.mem_of_getElem? ha, hpa⟩
        rw [hc, if_pos hpb] at h
        omega
      | succ j => rw [ih (by omega) ha hb]

end EltexHomeworks.Lib
