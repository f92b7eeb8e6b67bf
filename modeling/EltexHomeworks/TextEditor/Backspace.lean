import EltexHomeworks.TextEditor.Agreement
import Mathlib.Logic.Function.Basic

namespace EltexHomeworks.TextEditor

open EltexHomeworks.Lib

/-!
# Text editor — taking back what was typed

`WriteInWin` blanks the cell under the cursor and then goes left, so that `k` times `KEY_BACKSPACE`
behind `k` characters typed from column `x` on blank the columns `x+1` to `x+k`: the first character
stays, and a cell that was not typed is lost.  All its stores go to `y*max_y + x` and the bytes
behind it, which below the first row are the bytes of other cells.

`erases_iff` says for which texts, screens and contents of `read_buf` neither is seen.
-/

variable {maxY maxX : Nat} {s t : Editor maxY maxX}
  (draw : Nat → Window maxY maxX → Window maxY maxX)

namespace Editor

/-- The byte `i` belongs to one of the `k` cells from the cursor on. -/
def Typed (s : Editor maxY maxX) (k i : Nat) : Prop := s.offset ≤ i ∧ i < s.offset + k

/-- The byte `i` is stored to when `k` characters are typed from the cursor on and taken back; the
    first `KEY_BACKSPACE` stores one byte behind those of the characters. -/
def Stored (s : Editor maxY maxX) (k i : Nat) : Prop := s.index ≤ i ∧ i ≤ s.index + k

instance (s : Editor maxY maxX) (k i : Nat) : Decidable (s.Typed k i) :=
  inferInstanceAs (Decidable (_ ∧ _))

instance (s : Editor maxY maxX) (k i : Nat) : Decidable (s.Stored k i) :=
  inferInstanceAs (Decidable (_ ∧ _))

/-- Typing `keys` and pressing `KEY_BACKSPACE` as often leaves the cursor where it was, the cells of
    the typed characters and their bytes blank, and all other cells and all other bytes as they
    were. -/
def Erases (draw : Nat → Window maxY maxX → Window maxY maxX) (s : Editor maxY maxX)
    (keys : List Nat) : Prop :=
  ∃ t, run (next draw) s (keys ++ List.replicate keys.length KEY_BACKSPACE) = some t ∧
    (t.win.y = s.win.y ∧ t.win.x = s.win.x) ∧
    (∀ (y : Fin maxY) (x : Fin maxX), t.win.cells y x =
      if y = s.win.y ∧ s.win.x.val ≤ x ∧ x.val < s.win.x + keys.length then blank
      else s.win.cells y x) ∧
    ∀ i, t.readBuf.bytes[i]? =
      if s.Typed keys.length i then some blank else s.readBuf.bytes[i]?

/-! ### Writing in one row -/

/-- Since `s` only `f` was written, in the row of the cursor: `f x` is what is now in column `x` and
    its byte, if anything was written there.  The cursor is in column `x` of that row. -/
structure Wrote (s t : Editor maxY maxX) (f : Nat → Option UInt8) (x : Nat) : Prop where
  mode : t.mode = .insert
  y : t.win.y = s.win.y
  x : t.win.x.val = x
  cells : ∀ (y : Fin maxY) (x : Fin maxX), t.win.cells y x =
    if y = s.win.y then (f x).getD (s.win.cells y x) else s.win.cells y x
  bytes : ∀ i, t.readBuf.bytes[i]? =
    if s.win.y * maxY ≤ i then s.readBuf.bytes[i]?.map (f (i - s.win.y * maxY)).getD
    else s.readBuf.bytes[i]?

theorem wrote_nothing (h : s.mode = .insert) : Wrote s s (fun _ => none) s.win.x where
  mode := h
  y := rfl
  x := rfl
  cells y x := by simp
  bytes i := by
    have hsame : (none : Option UInt8).getD = id := rfl
    rw [hsame, Option.map_id, id, ite_self]

namespace Wrote

variable {f : Nat → Option UInt8} {x : Nat}

theorem index_eq (h : Wrote s t f x) : t.index = s.win.y * maxY + x := by
  rw [index, h.y, h.x]

/-- A store under the cursor, after which the cursor is in column `x'`. -/
theorem store (h : Wrote s t f x) {c : UInt8} {buf : CharArray BUF_SIZE} {w : Window maxY maxX}
    {x' : Nat} (hbuf : t.store c = some buf) (hcells : w.cells = (t.win.put c).cells)
    (hy : w.y = s.win.y) (hx : w.x.val = x') :
    Wrote s { t with win := w, readBuf := buf } (Function.update f x (some c)) x' where
  mode := h.mode
  y := hy
  x := hx
  cells y₁ x₁ := by
    show w.cells y₁ x₁ = _
    rw [hcells, Window.cells_put, h.cells, h.y]
    by_cases hrow : y₁ = s.win.y
    · by_cases hcol : x₁ = t.win.x
      · rw [if_pos ⟨hrow, hcol⟩, if_pos hrow, hcol, h.x, Function.update_self, Option.getD_some]
      · have hne : x₁.val ≠ x := fun he => hcol (Fin.ext (he.trans h.x.symm))
        rw [if_neg fun hp => hcol hp.2, if_pos hrow, if_pos hrow, Function.update_of_ne hne]
    · rw [if_neg fun hp => hrow hp.1, if_neg hrow, if_neg hrow]
  bytes i := by
    obtain ⟨hlt, hget⟩ := store_eq_some hbuf
    show buf.bytes[i]? = _
    rw [hget, h.bytes, h.index_eq]
    by_cases hi : i = s.win.y * maxY + x
    · -- the byte stored to, which is in the buffer
      have hin : i < s.readBuf.bytes.length := by
        rw [s.readBuf.length_eq, hi, ← h.index_eq]
        exact hlt
      have hcol : i - s.win.y * maxY = x := by omega
      rw [if_pos hi, if_pos (by omega), hcol, Function.update_self, List.getElem?_eq_getElem hin]
      rfl
    · rw [if_neg hi]
      by_cases hrow : s.win.y * maxY ≤ i
      · have hcol : i - s.win.y * maxY ≠ x := by omega
        rw [if_pos hrow, if_pos hrow, Function.update_of_ne hcol]
      · rw [if_neg hrow, if_neg hrow]

/-- **A printable key** with a column to its right. -/
theorem next_printable (h : Wrote s t f x) {key : Nat} (hkey : Printable key) (hx : x + 1 < maxX) :
    (t.index < BUF_SIZE ∧ ∃ u, t.next draw key = some u ∧
      Wrote s u (Function.update f x (some (UInt8.ofNat key))) (x + 1)) ∨
    BUF_SIZE ≤ t.index ∧ t.next draw key = none := by
  rw [Editor.next_printable draw h.mode hkey, Editor.store]
  have hcol : t.win.x.val + 1 < maxX := by rw [h.x]; exact hx
  by_cases hi : t.index < BUF_SIZE
  · refine Or.inl ⟨hi, _, by rw [if_pos hi]; rfl, ?_⟩
    refine h.store (if_pos hi) (Window.cells_addch ..) ?_ ?_
    · rw [Window.addch_of_lt _ _ hcol]
      exact h.y
    · rw [Window.addch_of_lt _ _ hcol]
      exact congrArg (· + 1) h.x
  · exact Or.inr ⟨Nat.not_lt.mp hi, by rw [if_neg hi]; rfl⟩

/-- **`KEY_BACKSPACE`** with a column to its left. -/
theorem next_backspace (h : Wrote s t f (x + 1)) (hi : t.index < BUF_SIZE) :
    ∃ u, t.next draw KEY_BACKSPACE = some u ∧
      Wrote s u (Function.update f (x + 1) (some blank)) x := by
  have hx0 : t.win.x.val ≠ 0 := by rw [h.x]; exact Nat.succ_ne_zero x
  rw [Editor.next_backspace draw h.mode hx0, Editor.store, if_pos hi]
  have hx := h.x
  have hlt : x < maxX := by have := t.win.x.isLt; omega
  have hleft : (t.win.x : Int) - 1 = x := by omega
  refine ⟨_, rfl, h.store (if_pos hi) (by simp) ?_ ?_⟩
  · rw [Window.move_eq _ t.win.y ⟨x, hlt⟩ rfl hleft]
    exact h.y
  · rw [Window.move_eq _ t.win.y ⟨x, hlt⟩ rfl hleft]

/-- `KEY_BACKSPACE` behind the end of `read_buf`. -/
theorem next_backspace_eq_none (h : Wrote s t f x) (hx : x ≠ 0) (hi : BUF_SIZE ≤ t.index) :
    t.next draw KEY_BACKSPACE = none := by
  have hx0 : t.win.x.val ≠ 0 := by rw [h.x]; exact hx
  rw [Editor.next_backspace draw h.mode hx0, Editor.store, if_neg (Nat.not_lt.mpr hi)]
  rfl

end Wrote

/-! ### Runs of keys -/

/-- What is written after `keys` were typed from column `x` on. -/
def typed : Nat → List Nat → (Nat → Option UInt8) → Nat → Option UInt8
  | _, [], f => f
  | x, key :: keys, f => typed (x + 1) keys (Function.update f x (some (UInt8.ofNat key)))

/-- What is written after `k` times `KEY_BACKSPACE`, down to column `x`. -/
def erased (x k : Nat) (f : Nat → Option UInt8) : Nat → Option UInt8 :=
  fun x' => if x < x' ∧ x' ≤ x + k then some blank else f x'

/-- Typing leaves the columns on both sides alone. -/
theorem typed_of_outside {x x' : Nat} {keys : List Nat} (f : Nat → Option UInt8)
    (h : x' < x ∨ x + keys.length ≤ x') : typed x keys f x' = f x' := by
  induction keys generalizing x f with
  | nil => rfl
  | cons key keys ih =>
    rw [List.length_cons] at h
    rw [typed, ih _ (by omega), Function.update_of_ne (by omega)]

/-- The first column typed to holds the first character. -/
theorem typed_cons (x key : Nat) (keys : List Nat) (f : Nat → Option UInt8) :
    typed x (key :: keys) f x = some (UInt8.ofNat key) := by
  rw [typed, typed_of_outside _ (Or.inl (Nat.lt_succ_self x)), Function.update_self]

/-- The blank of the first `KEY_BACKSPACE` is the last of the row. -/
theorem erased_update (x k : Nat) (f : Nat → Option UInt8) :
    erased x k (Function.update f (x + k + 1) (some blank)) = erased x (k + 1) f := by
  ext x' : 1
  unfold erased
  by_cases hlast : x' = x + k + 1
  · subst hlast
    rw [if_neg (by omega), if_pos (by omega), Function.update_self]
  · rw [Function.update_of_ne hlast]
    exact if_congr (by omega) rfl rfl

/-- **Typing a text** that fits the row: all of it is written, or it leaves `read_buf`. -/
theorem Wrote.run_typing {f : Nat → Option UInt8} {x : Nat} {keys : List Nat} (h : Wrote s t f x)
    (hkeys : ∀ key ∈ keys, Printable key) (hx : x + keys.length < maxX) :
    (∃ u, run (next draw) t keys = some u ∧ Wrote s u (typed x keys f) (x + keys.length)) ∨
    BUF_SIZE < s.win.y * maxY + x + keys.length ∧ run (next draw) t keys = none := by
  induction keys generalizing t f x with
  | nil => exact Or.inl ⟨t, rfl, h⟩
  | cons key keys ih =>
    rw [List.length_cons] at hx ⊢
    rw [run_cons]
    have hrest : ∀ k ∈ keys, Printable k := fun k hk => hkeys k (List.mem_cons_of_mem _ hk)
    rcases h.next_printable draw (hkeys key List.mem_cons_self) (by omega) with
      ⟨_, u, hu, hw⟩ | ⟨hi, hnone⟩
    · rw [hu, Option.bind_some, show x + (keys.length + 1) = x + 1 + keys.length by omega]
      rcases ih hw hrest (by omega) with hrun | ⟨hlen, hrun⟩
      · exact Or.inl hrun
      · exact Or.inr ⟨by omega, hrun⟩
    · rw [h.index_eq] at hi
      exact Or.inr ⟨by omega, by rw [hnone]; rfl⟩

/-- **Pressing `KEY_BACKSPACE`** `k` times, from column `x + k` on. -/
theorem Wrote.run_backspace {f : Nat → Option UInt8} {x k : Nat} (h : Wrote s t f (x + k))
    (hi : s.win.y * maxY + x + k < BUF_SIZE) :
    ∃ u, run (next draw) t (List.replicate k KEY_BACKSPACE) = some u ∧
      Wrote s u (erased x k f) x := by
  induction k generalizing t f with
  | zero =>
    have hsame : erased x 0 f = f := funext fun x' => if_neg (by omega)
    rw [hsame]
    exact ⟨t, rfl, h⟩
  | succ k ih =>
    rw [← Nat.add_assoc] at h
    obtain ⟨u, hu, hw⟩ := h.next_backspace draw (by rw [h.index_eq]; omega)
    obtain ⟨v, hv, hw⟩ := ih hw (by omega)
    rw [erased_update] at hw
    refine ⟨v, ?_, hw⟩
    rw [List.replicate_succ, run_cons, hu]
    exact hv

/-! ### What is left -/

/-- What typing and taking back leave written: the first character where it was typed, and a blank
    in each of the next columns. -/
theorem erased_typed (x key : Nat) (keys : List Nat) :
    erased x (keys.length + 1) (typed x (key :: keys) fun _ => none) =
      fun x' => if x' = x then some (UInt8.ofNat key)
        else if x < x' ∧ x' ≤ x + (keys.length + 1) then some blank else none := by
  ext x' : 1
  unfold erased
  by_cases hx : x' = x
  · subst hx
    rw [if_neg (by omega), if_pos rfl, typed_cons]
  · rw [if_neg hx]
    by_cases hin : x < x' ∧ x' ≤ x + (keys.length + 1)
    · rw [if_pos hin, if_pos hin]
    · rw [if_neg hin, if_neg hin, typed_of_outside]
      rw [List.length_cons]
      omega

/-- `c` at the place `x` and `b` at the `k` places behind it are the same as `b` at the first `k` of
    these places, exactly when `c` is `b` and the last place held `b` before. -/
theorem forall_shift_iff {ι α : Type*} {v : ι → Nat} (hv : Function.Injective v) {first last : ι}
    {k : Nat} (hk : 0 < k) (hlast : v last = v first + k) (old : ι → α) (c b : α) :
    (∀ i, (if v i = v first then c
        else if v first < v i ∧ v i ≤ v first + k then b else old i) =
        if v first ≤ v i ∧ v i < v first + k then b else old i) ↔
      c = b ∧ old last = b := by
  constructor
  · intro h
    have hf := h first
    have hl := h last
    rw [if_pos rfl, if_pos (by omega)] at hf
    rw [if_neg (by omega), if_pos (by omega), if_neg (by omega)] at hl
    exact ⟨hf, hl.symm⟩
  · rintro ⟨rfl, hl⟩ i
    by_cases hi : v i = v first + k
    · rw [if_neg (by omega), if_pos (by omega), if_neg (by omega), ← hl,
        hv (hlast.trans hi.symm)]
    · by_cases hf : v i = v first
      · rw [if_pos hf, if_pos (by omega)]
      · rw [if_neg hf]
        exact if_congr (by omega) rfl rfl

/-- `b` at the places of `P` and `b` at those of `Q` are the same exactly when the places that are in
    only one of the two held `b` before. -/
theorem forall_ite_iff {ι α : Type*} {P Q : ι → Prop} [DecidablePred P] [DecidablePred Q]
    (old : ι → α) (b : α) :
    (∀ i, (if P i then b else old i) = if Q i then b else old i) ↔
      ∀ i, ¬ (P i ↔ Q i) → old i = b := by
  refine forall_congr' fun i => ?_
  by_cases hp : P i <;> by_cases hq : Q i
  · simp [hp, hq]
  · rw [if_pos hp, if_neg hq, imp_iff_right fun h => hq (h.mp hp)]
    exact eq_comm
  · rw [if_neg hp, if_pos hq, imp_iff_right fun h => hp (h.mpr hq)]
  · simp [hp, hq]

section Left

variable {key : Nat} {keys : List Nat}

/-- The cells that are left. -/
theorem Wrote.cells_left {u : Editor maxY maxX}
    (h : Wrote s u (erased s.win.x (keys.length + 1) (typed s.win.x (key :: keys) fun _ => none))
      s.win.x) (hx : s.win.x.val + (keys.length + 1) < maxX) :
    (∀ (y : Fin maxY) (x : Fin maxX), u.win.cells y x =
        if y = s.win.y ∧ s.win.x.val ≤ x ∧ x.val < s.win.x + (keys.length + 1) then blank
        else s.win.cells y x) ↔
      UInt8.ofNat key = blank ∧ s.win.cells s.win.y ⟨s.win.x + (keys.length + 1), hx⟩ = blank := by
  -- left are the first byte typed and, to its right, the row moved by one place
  rw [erased_typed] at h
  have hinj : Function.Injective (Fin.val : Fin maxX → Nat) := fun _ _ => Fin.ext
  have hshift := forall_shift_iff hinj (Nat.succ_pos keys.length)
    (show (⟨s.win.x + (keys.length + 1), hx⟩ : Fin maxX).val = s.win.x + (keys.length + 1) from rfl)
    (s.win.cells s.win.y) (UInt8.ofNat key) blank
  rw [← hshift]
  have hrow : ∀ x : Fin maxX, u.win.cells s.win.y x =
      if x.val = s.win.x then UInt8.ofNat key
      else if s.win.x.val < x ∧ x.val ≤ s.win.x + (keys.length + 1) then blank
      else s.win.cells s.win.y x := by
    intro x
    rw [h.cells, if_pos rfl]
    split
    · rfl
    · split <;> rfl
  constructor
  · intro hall x
    rw [← hrow, hall]
    exact if_congr (and_iff_right rfl) rfl rfl
  · intro hall y x
    by_cases hy : y = s.win.y
    · subst hy
      rw [hrow, hall]
      exact if_congr (and_iff_right rfl).symm rfl rfl
    · -- the other rows are as they were
      rw [h.cells, if_neg hy, if_neg fun hp => hy hp.1]

/-- The bytes that are left, when the first character is a blank as well. -/
theorem Wrote.bytes_left {u : Editor maxY maxX}
    (h : Wrote s u (erased s.win.x (keys.length + 1) (typed s.win.x (key :: keys) fun _ => none))
      s.win.x) (hi : s.index + (keys.length + 1) < BUF_SIZE) (hkey : UInt8.ofNat key = blank) :
    (∀ i, u.readBuf.bytes[i]? =
        if s.Typed (keys.length + 1) i then some blank else s.readBuf.bytes[i]?) ↔
      ∀ i, ¬ (s.Stored (keys.length + 1) i ↔ s.Typed (keys.length + 1) i) →
        s.readBuf.bytes[i]? = some blank := by
  rw [erased_typed, hkey] at h
  have hbytes : ∀ i, u.readBuf.bytes[i]? =
      if s.Stored (keys.length + 1) i then some blank else s.readBuf.bytes[i]? := by
    intro i
    rw [h.bytes]
    have hindex : s.index = s.win.y * maxY + s.win.x := rfl
    by_cases hst : s.Stored (keys.length + 1) i
    · -- a byte of `read_buf`, and a column that was written
      obtain ⟨hlo, hhi⟩ := hst
      have hlt : i < s.readBuf.bytes.length := by rw [s.readBuf.length_eq]; omega
      have hrow : s.win.y * maxY ≤ i := by omega
      rw [if_pos hrow, if_pos (show s.Stored _ i from ⟨hlo, hhi⟩), List.getElem?_eq_getElem hlt]
      by_cases hf : i - s.win.y * maxY = s.win.x
      · rw [if_pos hf]
        rfl
      · rw [if_neg hf, if_pos (by omega)]
        rfl
    · rw [if_neg hst]
      unfold Stored at hst
      by_cases hrow : s.win.y * maxY ≤ i
      · rw [if_pos hrow, if_neg (by omega), if_neg (by omega)]
        exact Option.map_id_apply
      · rw [if_neg hrow]
  rw [← forall_ite_iff (P := s.Stored (keys.length + 1)) (Q := s.Typed (keys.length + 1))]
  exact forall_congr' fun i => by rw [hbytes]

end Left

/-- The first character typed is the one that stays. -/
theorem erases_cons_iff {key : Nat} {keys : List Nat} (hmode : s.mode = .insert)
    (hkeys : ∀ k ∈ key :: keys, Printable k) (hx : s.win.x.val + (keys.length + 1) < maxX) :
    Erases draw s (key :: keys) ↔
      s.index + (keys.length + 1) < BUF_SIZE ∧ UInt8.ofNat key = blank ∧
        s.win.cells s.win.y ⟨s.win.x + (keys.length + 1), hx⟩ = blank ∧
        ∀ i, ¬ (s.Stored (keys.length + 1) i ↔ s.Typed (keys.length + 1) i) →
          s.readBuf.bytes[i]? = some blank := by
  have hk : (key :: keys).length = keys.length + 1 := rfl
  have hindex : s.index = s.win.y * maxY + s.win.x := rfl
  rw [Erases]
  rcases (wrote_nothing hmode).run_typing draw hkeys hx with ⟨u, hu, hw⟩ | ⟨hlen, hnone⟩
  · by_cases hi : s.index + (keys.length + 1) < BUF_SIZE
    · -- every key is handled: what is left decides
      obtain ⟨v, hv, hw⟩ := hw.run_backspace draw hi
      have hrun : run (next draw) s
          (key :: keys ++ List.replicate (key :: keys).length KEY_BACKSPACE) = some v := by
        rw [run_append, hu]
        exact hv
      have hcells := hw.cells_left hx
      constructor
      · rintro ⟨t, ht, _, hc, hb⟩
        obtain rfl : t = v := Option.some.inj (ht.symm.trans hrun)
        -- the cell of the first character is blank only if the character is
        obtain ⟨hkey, hlast⟩ := hcells.mp hc
        exact ⟨hi, hkey, hlast, (hw.bytes_left hi hkey).mp hb⟩
      · rintro ⟨_, hkey, hlast, hb⟩
        exact ⟨v, hrun, ⟨hw.y, Fin.ext hw.x⟩, hcells.mpr ⟨hkey, hlast⟩,
          (hw.bytes_left hi hkey).mpr hb⟩
    · -- the first `KEY_BACKSPACE` leaves `read_buf`
      refine iff_of_false ?_ fun h => hi h.1
      rintro ⟨t, ht, _⟩
      rw [run_append, hu, hk, List.replicate_succ, Option.bind_some, run_cons,
        hw.next_backspace_eq_none draw (by omega) (by rw [hw.index_eq]; omega)] at ht
      cases ht
  · -- a typed character leaves it
    refine iff_of_false ?_ fun h => by omega
    rintro ⟨t, ht, _⟩
    rw [run_append, hnone] at ht
    cases ht

/-- `Hello` in the bytes of the second row, and blanks in all others. -/
def helloBytes : List UInt8 :=
  List.replicate 80 blank ++ [72, 101, 108, 108, 111] ++ List.replicate 2315 blank

theorem length_helloBytes : helloBytes.length = BUF_SIZE := by
  rw [helloBytes, List.length_append, List.length_append, List.length_replicate,
    List.length_replicate]
  rfl

/-- A screen of blanks with `Hello` at the beginning of its second row. -/
def helloEditor (y : Fin 24) (x : Fin 80) : Editor 24 80 where
  mode := .insert
  win :=
    { cells := fun y x => if y.val = 1 then [72, 101, 108, 108, 111].getD x.val blank else blank
      y := y
      x := x }
  readBuf := ⟨helloBytes, length_helloBytes⟩
  file := []

end Editor

end EltexHomeworks.TextEditor
