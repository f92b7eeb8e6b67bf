import Mathlib.Data.List.Induction
import EltexHomeworks.Lib.CString

namespace EltexHomeworks.Lib

/-!
# Files that are written from their beginning

A `write` after `lseek(fd, 0, SEEK_SET)` replaces the first bytes of a file and does not shorten it:
`overwrite`.  After some of them, `overwrites`, each byte is that of the last write that was long
enough to reach it.
-/

variable {file : List UInt8} {ss : List Str}

/-- The file after `s` was written at its beginning. -/
def overwrite (file : List UInt8) (s : Str) : List UInt8 := s ++ file.drop s.length

/-- The file after the writes `ss`, one after the other. -/
def overwrites (file : List UInt8) (ss : List Str) : List UInt8 := ss.foldl overwrite file

@[simp] theorem overwrites_nil (file : List UInt8) : overwrites file [] = file := rfl

theorem overwrites_cons (file : List UInt8) (s : Str) (ss : List Str) :
    overwrites file (s :: ss) = overwrites (overwrite file s) ss := rfl

theorem overwrites_append (file : List UInt8) (ss ss' : List Str) :
    overwrites file (ss ++ ss') = overwrites (overwrites file ss) ss' := List.foldl_append

theorem overwrites_concat (file : List UInt8) (ss : List Str) (s : Str) :
    overwrites file (ss ++ [s]) = overwrite (overwrites file ss) s := overwrites_append ..

/-- A file does not become shorter. -/
theorem length_overwrite (file : List UInt8) (s : Str) :
    (overwrite file s).length = max s.length file.length := by
  rw [overwrite, List.length_append, List.length_drop]
  omega

/-- A byte behind what is written stays. -/
theorem getElem?_overwrite (file : List UInt8) (s : Str) (i : Nat) :
    (overwrite file s)[i]? = if i < s.length then s[i]? else file[i]? := by
  rw [overwrite]
  split
  · rename_i hi
    exact List.getElem?_append_left hi
  · rename_i hi
    rw [List.getElem?_append_right (Nat.not_lt.mp hi), List.getElem?_drop,
      Nat.add_sub_cancel' (Nat.not_lt.mp hi)]

/-- **Each byte** is that of the last write that reached it. -/
theorem getElem?_overwrites (file : List UInt8) (ss : List Str) (i : Nat) :
    (overwrites file ss)[i]? = ((ss.reverse.find? fun s => i < s.length).getD file)[i]? := by
  induction ss using List.reverseRecOn with
  | nil => rfl
  | append_singleton ss s ih =>
    rw [overwrites_concat, getElem?_overwrite, List.reverse_append, List.reverse_singleton,
      List.singleton_append]
    by_cases hi : i < s.length
    · rw [if_pos hi, List.find?_cons_of_pos (by simpa using hi), Option.getD_some]
    · rw [if_neg hi, List.find?_cons_of_neg (by simpa using hi), ih]

theorem length_le_overwrites (file : List UInt8) (ss : List Str) :
    file.length ≤ (overwrites file ss).length := by
  induction ss generalizing file with
  | nil => exact Nat.le_refl _
  | cons s ss ih =>
    refine Nat.le_trans ?_ (ih (overwrite file s))
    rw [length_overwrite]
    exact Nat.le_max_right ..

/-- Nothing changes behind the longest write. -/
theorem drop_overwrites {n : Nat} (h : ∀ s ∈ ss, s.length ≤ n) :
    (overwrites file ss).drop n = file.drop n := by
  refine List.ext_getElem? fun i => ?_
  rw [List.getElem?_drop, List.getElem?_drop, getElem?_overwrites, List.find?_eq_none.mpr]
  · rfl
  · intro s hs
    have hlen := h s (List.mem_reverse.mp hs)
    simp only [decide_eq_true_eq]
    omega

/-- **A byte that no write has** is there exactly when no write has reached its place. -/
theorem getElem?_overwrites_eq_some_iff {c : UInt8} (h : ∀ s ∈ ss, c ∉ s) {i : Nat} :
    (overwrites file ss)[i]? = some c ↔ (∀ s ∈ ss, s.length ≤ i) ∧ file[i]? = some c := by
  rw [getElem?_overwrites]
  cases hfind : ss.reverse.find? fun s => i < s.length with
  | none =>
    rw [List.find?_eq_none] at hfind
    have hall : ∀ s ∈ ss, s.length ≤ i := fun s hs =>
      Nat.le_of_not_lt fun hlt => hfind s (List.mem_reverse.mpr hs) (decide_eq_true hlt)
    exact (and_iff_right hall).symm
  | some s =>
    have hs := List.mem_reverse.mp (List.mem_of_find?_eq_some hfind)
    have hlt : i < s.length := by simpa using List.find?_some hfind
    refine iff_of_false (fun hc => h s hs (List.mem_of_getElem? hc)) fun hall => ?_
    exact Nat.not_lt.mpr (hall.1 s hs) hlt

/-- The file ends in front of a place exactly when it did and no write has reached it. -/
theorem length_overwrites_le_iff {n : Nat} :
    (overwrites file ss).length ≤ n ↔ (∀ s ∈ ss, s.length ≤ n) ∧ file.length ≤ n := by
  induction ss generalizing file with
  | nil => simp
  | cons s ss ih =>
    rw [overwrites_cons, ih, length_overwrite, List.forall_mem_cons, Nat.max_le]
    exact ⟨fun ⟨hss, hs, hf⟩ => ⟨⟨hs, hss⟩, hf⟩, fun ⟨⟨hs, hss⟩, hf⟩ => ⟨hss, hs, hf⟩⟩

end EltexHomeworks.Lib
