import EltexHomeworks.FileManager.CursorRing

namespace EltexHomeworks.FileManager

open EltexHomeworks.Lib
open EltexHomeworks.Lib.ScrollCursor (Move)

/-!
# File manager — which entries can be selected

The cursor reaches every entry but the one with index 0, whose row is under the box.  That entry is
`.` exactly when no name of the directory comes before `.` in the order of `alphasort`
(`selectable_iff`).
-/

variable {Dir : Type}

/-- The name `.`. -/
def dot : Str := [46]

namespace Listing

/-- The names are in the order of `alphasort` in the C locale. -/
def Sorted (l : Listing Dir) : Prop := l.names.Pairwise fun a b => ¬ Precedes b a

end Listing

/-- Entry `i` is drawn on a row inside the box. -/
def Panel.Shows (win : Panel) (i : Nat) : Prop :=
  ∃ d, win.drawn = some d ∧ ∃ r ∈ d.rows, r.entry = i ∧ 1 ≤ r.row ∧ r.row ≤ win.size.toNat

/-- Some cursor keys, whatever their system calls return, lead from `s` to a state in which entry
    `i` is selected and shown. -/
def State.Selectable (s : State Dir) (i : Nat) : Prop :=
  ∃ ks : List Move, ∀ ms : List (Move × Os Dir), ms.map Prod.fst = ks →
    ∃ t, s.press ms = .ok t ∧ (t.win t.side).selectedObj.toNat = i ∧ (t.win t.side).Shows i

/-- The row of the cursor is inside the box. -/
theorem State.OnCursor.shows {n size : Nat} {s : State Dir} {c : ScrollCursor n size}
    (h : s.OnCursor c) : (s.win s.side).Shows c.entry := by
  obtain ⟨⟨hn, hs, hb, _, _⟩, _, d, hd, _, hrows⟩ := h
  have hpos := c.row_pos
  have hrow := c.row_lt
  have hentry := c.entry_lt
  obtain ⟨r, hr, hr', he⟩ := hrows c.row (by omega)
  exact ⟨d, hd, r, hr, by rw [he, hb]; rfl, by omega, by omega⟩

/-- The entries from the first one on can be selected, and no other. -/
theorem selectable_iff_pos {s : State Dir} (h : s.Fresh)
    (hn : 2 ≤ (s.win s.side).dirNum.toNat) (hs : 2 ≤ (s.win s.side).size.toNat) {i : Nat}
    (hi : i < (s.win s.side).dirNum.toNat) : s.Selectable i ↔ 1 ≤ i := by
  have hfirst := h.onCursor hn hs
  constructor
  · rintro ⟨ks, hks⟩
    obtain ⟨os, _⟩ := h
    have hms : (ks.map fun m => (m, os)).map Prod.fst = ks := by
      rw [List.map_map]
      exact List.map_id ks
    obtain ⟨t, ht, hsel, _⟩ := hks _ hms
    obtain ⟨u, hu, huc⟩ := press_walk hfirst (ks.map fun m => (m, os))
    rw [ht] at hu
    cases hu
    rw [← hsel, huc.counters.selectedObj]
    exact ScrollCursor.entry_pos _
  · intro hpos
    obtain ⟨ks, hks⟩ := (ScrollCursor.first hn hs).exists_walk hpos hi
    refine ⟨ks, fun ms hms => ?_⟩
    obtain ⟨t, ht, htc⟩ := press_walk hfirst ms
    rw [hms] at htc
    refine ⟨t, ht, htc.counters.selectedObj.trans hks, ?_⟩
    rw [← hks]
    exact htc.shows

/-- The first name of a sorted listing with a `.` in it. -/
theorem Listing.Sorted.head {l : Listing Dir} (h : l.Sorted) (hdot : dot ∈ l.names) :
    l.names[0]? = some dot ↔ ∀ name ∈ l.names, ¬ Precedes name dot := by
  unfold Listing.Sorted at h
  cases hl : l.names with
  | nil => rw [hl] at hdot; cases hdot
  | cons first rest =>
    rw [hl, List.pairwise_cons] at h
    rw [hl] at hdot
    constructor
    · intro hfirst name hname
      cases hfirst
      rcases List.mem_cons.mp hname with rfl | hname
      · exact not_precedes_self _
      · exact h.1 name hname
    · intro hnone
      rcases List.mem_cons.mp hdot with heq | hrest
      · exact congrArg some heq.symm
      · exact congrArg some (eq_of_not_precedes (hnone first List.mem_cons_self) (h.1 dot hrest))

/-- **Every directory entry can be selected**, `.` apart, if and only if no name in the directory
    comes before `.`: that one would have index 0. -/
theorem selectable_iff {s : State Dir} (h : s.Fresh) (hs : 2 ≤ (s.win s.side).size.toNat)
    {l : Listing Dir} (hl : s.proc.mem.list (s.win s.side).nameList = .ok l) (hsorted : l.Sorted)
    (hdot : dot ∈ l.names) (hdotDot : dotDot ∈ l.names) :
    (∀ (i : Nat) (e : Dirent), l.entries[i]? = some e → e.dName ≠ dot → s.Selectable i) ↔
      ∀ name ∈ l.names, ¬ Precedes name dot := by
  have hlen : l.entries.length = (s.win s.side).dirNum.toNat := by
    obtain ⟨⟨l', hl', hlen⟩, _⟩ := h.rewound
    rw [hl] at hl'
    cases hl'
    exact hlen
  have hn : 2 ≤ (s.win s.side).dirNum.toNat := by
    rw [← hlen, ← l.names_length]
    by_contra hlt
    -- a list of one name does not have both
    obtain ⟨name, hname⟩ : ∃ name, ∀ x ∈ l.names, x = name := by
      match hl : l.names with
      | [] => exact ⟨dot, by simp⟩
      | [name] => exact ⟨name, by simp⟩
      | _ :: _ :: _ => simp [hl] at hlt
    exact absurd ((hname _ hdot).trans (hname _ hdotDot).symm) (by decide)
  rw [← hsorted.head hdot]
  constructor
  · intro hall
    by_contra hne
    -- then the entry with index 0 would have to be selectable
    obtain ⟨e, he⟩ : ∃ e, l.entries[0]? = some e :=
      ⟨_, List.getElem?_eq_getElem (by omega)⟩
    have hname : e.dName ≠ dot := by
      intro hname
      rw [Listing.names, List.getElem?_map, he, Option.map_some, hname] at hne
      exact hne rfl
    have hsel := (selectable_iff_pos h hn hs (by omega)).mp (hall 0 e he hname)
    exact absurd hsel (by decide)
  · intro hfirst i e he hname
    have hi : i < l.entries.length := (List.getElem?_eq_some_iff.mp he).1
    refine (selectable_iff_pos h hn hs (by omega)).mpr (Nat.one_le_iff_ne_zero.mpr ?_)
    rintro rfl
    rw [Listing.names, List.getElem?_map, he] at hfirst
    exact hname (Option.some.inj hfirst)

/-- Next to `.` and `..` the entry `a` can be selected. -/
theorem selectable_single :
    ∃ s, start singleDir singleDir singleBoot = .ok s ∧ s.Selectable 2 := by
  have hstart : ∃ s l, start singleDir singleDir singleBoot = .ok s ∧
      s.proc.mem.list (s.win s.side).nameList = .ok l ∧ l.names = [dot, dotDot, [97]] ∧
      (∃ e, l.entries[2]? = some e ∧ e.dName = [97]) ∧ (s.win s.side).size.toNat = 21 :=
    ⟨_, _, rfl, rfl, rfl, ⟨_, rfl, rfl⟩, rfl⟩
  obtain ⟨s, l, hs, hl, hnames, ⟨e, he, hname⟩, hsize⟩ := hstart
  have hsorted : l.Sorted := by
    rw [Listing.Sorted, hnames]
    decide
  have hall := selectable_iff (start_fresh hs) (by omega) hl hsorted (by rw [hnames]; decide)
    (by rw [hnames]; decide)
  refine ⟨s, hs, hall.mpr ?_ 2 e he (by rw [hname]; decide)⟩
  rw [hnames]
  decide

/-- A system whose only directory has the entries `!`, `.` and `..`. -/
def bangDir : Os Unit :=
  { singleDir with
    readdir := fun _ => ⟨[⟨[33], 0⟩, ⟨[46], 0⟩, ⟨[46, 46], 0⟩], by decide⟩ }

/-- The entry `!` comes before `.`, and no keys lead to it. -/
theorem not_selectable :
    ¬ ∀ (Dir : Type) (s : State Dir) (l : Listing Dir), s.Fresh →
      2 ≤ (s.win s.side).size.toNat → s.proc.mem.list (s.win s.side).nameList = .ok l → l.Sorted →
      dot ∈ l.names → dotDot ∈ l.names →
      ∀ (i : Nat) (e : Dirent), l.entries[i]? = some e → e.dName ≠ dot → s.Selectable i := by
  intro h
  have hstart : ∃ s l, start bangDir bangDir singleBoot = .ok s ∧
      s.proc.mem.list (s.win s.side).nameList = .ok l ∧ l.names = [[33], dot, dotDot] ∧
      (∃ e, l.entries[0]? = some e ∧ e.dName = [33]) ∧ (s.win s.side).size.toNat = 21 ∧
      (s.win s.side).dirNum.toNat = 3 :=
    ⟨_, _, rfl, rfl, rfl, ⟨_, rfl, rfl⟩, rfl, rfl⟩
  obtain ⟨s, l, hs, hl, hnames, ⟨e, he, hname⟩, hsize, hn⟩ := hstart
  have hsorted : l.Sorted := by
    rw [Listing.Sorted, hnames]
    decide
  have hsel := h Unit s l (start_fresh hs) (by omega) hl hsorted (by rw [hnames]; decide)
    (by rw [hnames]; decide) 0 e he (by rw [hname]; decide)
  have hpos := (selectable_iff_pos (start_fresh hs) (by omega) (by omega) (by omega)).mp hsel
  exact absurd hpos (by decide)

end EltexHomeworks.FileManager
