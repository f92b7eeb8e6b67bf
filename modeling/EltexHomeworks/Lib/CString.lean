import Mathlib.Data.List.TakeWhile

namespace EltexHomeworks.Lib

/-!
# C strings in `char` arrays

A C string is read from a block of bytes up to the first NUL.  `text` is that reading; a block
without a NUL reads as the whole block.  A `CharArray n` is a `char` array of `n` bytes, and

* `CharArray.recv` overwrites its first bytes, as `recv`, `recvfrom` and `read` do, without
  terminating the string;
* `CharArray.strncat` is C's `strncat`: it looks for the terminator inside the array, appends at
  most `k` bytes and a new terminator, and is `none` where C would leave the array.
-/

/-- A C string: its bytes, without the terminating NUL. -/
abbrev Str := List UInt8

/-- `strcmp(a, b) < 0`: the order of strings byte by byte, with a prefix before what it begins. -/
def Precedes (a b : Str) : Prop := List.Lex (· < ·) a b

instance : DecidableRel Precedes := fun a b => inferInstanceAs (Decidable (List.Lex (· < ·) a b))

theorem not_precedes_self (a : Str) : ¬ Precedes a a := List.lt_irrefl a

/-- Two strings of which neither precedes the other are the same. -/
theorem eq_of_not_precedes {a b : Str} (h : ¬ Precedes a b) (h' : ¬ Precedes b a) : a = b :=
  List.le_antisymm h' h

/-- The text of a block of bytes: what stands before the first NUL, or the whole block. -/
def text (b : List UInt8) : Str := b.takeWhile (· != 0)

@[simp] theorem text_nil : text [] = [] := rfl

/-- A text has no NUL in it. -/
theorem nul_not_mem_text (b : List UInt8) : 0 ∉ text b := by
  intro h
  simpa using List.mem_takeWhile_imp h

/-- A block without a NUL is its own text. -/
theorem text_of_not_mem {b : List UInt8} (h : 0 ∉ b) : text b = b := by
  rw [text, List.takeWhile_eq_self_iff]
  intro c hc
  simp only [bne_iff_ne, ne_eq]
  rintro rfl
  exact h hc

/-- Bytes in front of a block come in front of its text. -/
theorem text_append_of_not_mem {a : List UInt8} (h : 0 ∉ a) (b : List UInt8) :
    text (a ++ b) = a ++ text b := by
  refine List.takeWhile_append_of_pos fun c hc => ?_
  simp only [bne_iff_ne, ne_eq]
  rintro rfl
  exact h hc

/-- Nothing behind the first NUL belongs to the text. -/
theorem text_append_of_mem {a : List UInt8} (h : 0 ∈ a) (b : List UInt8) :
    text (a ++ b) = text a := by
  induction a with
  | nil => simp at h
  | cons c t ih =>
    by_cases hc : c = 0
    · subst hc; rfl
    · have ht : 0 ∈ t := (List.mem_cons.mp h).resolve_left (Ne.symm hc)
      have hc' : (c != 0) = true := by simpa using hc
      simp only [text, List.cons_append, List.takeWhile_cons, hc', if_true]
      exact congrArg (c :: ·) (ih ht)

/-- A terminated string reads back as the string. -/
theorem text_append_nul {s : Str} (h : 0 ∉ s) (b : List UInt8) : text (s ++ 0 :: b) = s := by
  rw [text_append_of_not_mem h]
  exact List.append_nil s

/-- A terminated block is its text, a NUL and the rest. -/
theorem eq_text_append_of_mem {b : List UInt8} (h : 0 ∈ b) : ∃ r, b = text b ++ 0 :: r := by
  induction b with
  | nil => simp at h
  | cons c t ih =>
    by_cases hc : c = 0
    · exact ⟨t, by subst hc; rfl⟩
    · have ht : 0 ∈ t := (List.mem_cons.mp h).resolve_left (Ne.symm hc)
      have hc' : (c != 0) = true := by simpa using hc
      obtain ⟨r, hr⟩ := ih ht
      refine ⟨r, ?_⟩
      have htext : text (c :: t) = c :: text t := by simp [text, hc']
      rw [htext, List.cons_append, ← hr]

/-- The text of a terminated block is shorter than the block. -/
theorem length_text_lt {b : List UInt8} (h : 0 ∈ b) : (text b).length < b.length := by
  obtain ⟨r, hr⟩ := eq_text_append_of_mem h
  have hlen := congrArg List.length hr
  rw [List.length_append, List.length_cons] at hlen
  omega

/-- The text is empty when there is no byte before the first NUL. -/
theorem text_eq_nil_iff {b : List UInt8} : text b = [] ↔ ∀ c, b.head? = some c → c = 0 := by
  cases b with
  | nil => simp
  | cons c t => by_cases hc : c = 0 <;> simp [text, hc]

/-- A NUL among the first bytes bounds the text. -/
theorem nul_mem_take_succ_iff {b : List UInt8} {k : Nat} :
    0 ∈ b.take (k + 1) ↔ 0 ∈ b ∧ (text b).length ≤ k := by
  constructor
  · intro h
    have hb : 0 ∈ b := List.mem_of_mem_take h
    have hlt := length_text_lt h
    rw [List.length_take] at hlt
    rw [← text_append_of_mem h (b.drop (k + 1)), List.take_append_drop] at hlt
    exact ⟨hb, by omega⟩
  · rintro ⟨hb, hk⟩
    obtain ⟨r, hr⟩ := eq_text_append_of_mem hb
    rw [List.mem_take_iff_getElem]
    have hlt := length_text_lt hb
    refine ⟨(text b).length, by omega, ?_⟩
    have hget : b[(text b).length]? = some 0 := by
      have := congrArg (·[(text b).length]?) hr
      simpa using this
    exact (List.getElem?_eq_some_iff.mp hget).2

/-- A byte of the text is that byte of the block. -/
theorem getElem?_of_text {b : List UInt8} {i : Nat} {c : UInt8} (h : (text b)[i]? = some c) :
    b[i]? = some c := by
  obtain ⟨r, hr⟩ := List.takeWhile_prefix (l := b) (· != 0)
  obtain ⟨hi, _⟩ := List.getElem?_eq_some_iff.mp h
  rw [← hr]
  show (text b ++ r)[i]? = some c
  rw [List.getElem?_append_left hi]
  exact h

/-- A byte belongs to the text when there is no NUL before it or at its place. -/
theorem getElem?_text {b : List UInt8} {i : Nat} {c : UInt8} (hc : b[i]? = some c)
    (h : ∀ j ≤ i, b[j]? ≠ some 0) : (text b)[i]? = some c := by
  obtain ⟨hi, _⟩ := List.getElem?_eq_some_iff.mp hc
  have hmem : 0 ∉ b.take (i + 1) := by
    intro h0
    obtain ⟨j, hj, h0⟩ := List.mem_take_iff_getElem.mp h0
    exact h j (by omega) (by rw [List.getElem?_eq_getElem (by omega), h0])
  rw [← List.take_append_drop (i + 1) b, text_append_of_not_mem hmem, List.getElem?_append_left,
    List.getElem?_take_of_lt (Nat.lt_succ_self i), hc]
  rw [List.length_take]
  omega

/-! ### Arrays of `char` -/

/-- A `char` array of `n` bytes. -/
structure CharArray (n : Nat) where
  bytes : List UInt8
  length_eq : bytes.length = n

namespace CharArray

variable {n : Nat}

/-- The array after a receive that stored `d` from its first byte on. -/
def recv (a : CharArray n) (d : List UInt8) : CharArray n where
  bytes := (d ++ a.bytes.drop d.length).take n
  length_eq := by
    have h := a.length_eq
    rw [List.length_take, List.length_append, List.length_drop]
    omega

/-- A receive of at most `n` bytes overwrites a prefix and leaves the rest. -/
theorem bytes_recv (a : CharArray n) {d : List UInt8} (h : d.length ≤ n) :
    (a.recv d).bytes = d ++ a.bytes.drop d.length := by
  have hlen := a.length_eq
  refine List.take_of_length_le ?_
  rw [List.length_append, List.length_drop]
  omega

/-- Arrays with the same bytes are the same. -/
@[ext] theorem ext {a b : CharArray n} (h : a.bytes = b.bytes) : a = b := by
  cases a
  cases b
  congr

/-- The byte behind what was received is the one that was there. -/
theorem getElem?_recv_length (a : CharArray n) {d : List UInt8} (h : d.length ≤ n) :
    (a.recv d).bytes[d.length]? = a.bytes[d.length]? := by
  rw [a.bytes_recv h, List.getElem?_append_right (Nat.le_refl _), Nat.sub_self,
    List.getElem?_drop, Nat.add_zero]

/-- A receive that stored nothing. -/
@[simp] theorem recv_nil (a : CharArray n) : a.recv [] = a := by
  ext1
  exact List.take_of_length_le (Nat.le_of_eq a.length_eq)

/-- The array after `a[i] = c`. -/
def set (a : CharArray n) (i : Nat) (c : UInt8) : CharArray n where
  bytes := a.bytes.set i c
  length_eq := by rw [List.length_set, a.length_eq]

/-- `strncat(a, s, k)`; `none` when there is no terminator in the array or no room for the
    longer string and its own. -/
def strncat (a : CharArray n) (s : Str) (k : Nat) : Option (CharArray n) :=
  if h : 0 ∈ a.bytes ∧ (text a.bytes).length + (s.take k).length < n then
    some
      { bytes := text a.bytes ++ s.take k ++
          0 :: a.bytes.drop ((text a.bytes).length + (s.take k).length + 1)
        length_eq := by
          have hlen := a.length_eq
          rw [List.length_append, List.length_append, List.length_cons, List.length_drop]
          omega }
  else none

/-- `strncat` stays in the array exactly when it finds the terminator there and the longer
    string fits. -/
theorem isSome_strncat_iff (a : CharArray n) (s : Str) (k : Nat) :
    (a.strncat s k).isSome ↔ 0 ∈ a.bytes ∧ (text a.bytes).length + (s.take k).length < n := by
  unfold strncat
  split
  · rename_i h
    exact ⟨fun _ => h, fun _ => rfl⟩
  · rename_i h
    exact ⟨fun hs => absurd hs (by simp), fun hs => absurd hs h⟩

/-- `strncat` appends, when it stays in the array. -/
theorem text_strncat {a b : CharArray n} {s : Str} {k : Nat} (hs : 0 ∉ s)
    (h : a.strncat s k = some b) : text b.bytes = text a.bytes ++ s.take k := by
  unfold strncat at h
  split at h
  · cases h
    refine text_append_nul ?_ _
    rw [List.mem_append, not_or]
    exact ⟨nul_not_mem_text _, fun hm => hs (List.mem_of_mem_take hm)⟩
  · cases h

/-- `strncat` leaves a terminated string. -/
theorem nul_mem_strncat {a b : CharArray n} {s : Str} {k : Nat} (h : a.strncat s k = some b) :
    0 ∈ b.bytes := by
  unfold strncat at h
  split at h
  · cases h
    simp
  · cases h

/-- `strncat` after a receive stays in the array exactly when there is a NUL far enough in front
    of its end: one that was received, or one that was in the array behind what was received. -/
theorem isSome_strncat_recv_iff (a : CharArray n) {d : List UInt8} (hd : d.length ≤ n) {s : Str}
    {k m : Nat} (hm : m + 1 + (s.take k).length = n) :
    ((a.recv d).strncat s k).isSome ↔
      0 ∈ d.take (m + 1) ∨ ∃ i, d.length ≤ i ∧ i ≤ m ∧ a.bytes[i]? = some 0 := by
  have hfits : ((a.recv d).strncat s k).isSome ↔ 0 ∈ (a.recv d).bytes.take (m + 1) := by
    rw [isSome_strncat_iff, nul_mem_take_succ_iff]
    refine and_congr_right fun _ => ?_
    omega
  rw [hfits, a.bytes_recv hd, List.take_append, List.mem_append]
  refine or_congr_right ?_
  rw [List.mem_iff_getElem?]
  constructor
  · rintro ⟨j, hj⟩
    rw [List.getElem?_take, List.getElem?_drop] at hj
    obtain ⟨hlt, hj⟩ := Option.ite_none_right_eq_some.mp hj
    exact ⟨d.length + j, Nat.le_add_right _ _, by omega, hj⟩
  · rintro ⟨i, hle, him, hi⟩
    refine ⟨i - d.length, ?_⟩
    rw [List.getElem?_take, if_pos (by omega), List.getElem?_drop, Nat.add_sub_cancel' hle, hi]

end CharArray

end EltexHomeworks.Lib
