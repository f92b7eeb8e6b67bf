import EltexHomeworks.Storage.Steps

namespace EltexHomeworks.Storage

open EltexHomeworks.Lib

/-!
# Storage — mutual exclusion

Which mutexes guard the place a thread is at, and that every step keeps the discipline of `Guarded`:
a buyer is in a room, the loader in a room or in `storage_control`, only while it holds the mutexes
of these places.
-/

variable {n : Nat}

/-- The mutex of the room a buyer is in. -/
def BuyerPc.inside : BuyerPc → Nat → Prop
  | .loop, _ => False
  | .trylock _ _, _ => False
  | .read room _, k => k = room
  | .update room _ _, k => k = room
  | .clear room, k => k = room
  | .unlock room, k => k = room
  | .done, _ => False

/-- The mutexes the loader holds at `pc`, in a program with `n` buyers. -/
def LoaderPc.inside (n : Nat) : LoaderPc → Nat → Prop
  | .check _, _ => False
  | .trylock _, _ => False
  | .write i, k => k = i
  | .unlock i, k => k = i
  | .lock _ j, k => k < j
  | .print _ _, k => k < n + 1
  | .release _ j, k => j ≤ k ∧ k < n + 1

/-- The mutexes that guard the place a thread is at. -/
def State.inside (s : State n) : Thread n → Nat → Prop
  | .loader, k => s.loader.inside n k
  | .buyer b, k => (s.buyer b).inside k

/-- After a buyer went on, it is where its new place is, and the others are where they were. -/
theorem State.inside_goto {s : State n} (b : Fin n) (pc : BuyerPc) {t : Thread n} {k : Nat}
    (h : (s.goto b pc).inside t k) : s.inside t k ∧ t ≠ .buyer b ∨ t = .buyer b ∧ pc.inside k := by
  cases t with
  | loader => exact Or.inl ⟨h, by simp⟩
  | buyer b' =>
    have h' : (Function.update s.buyer b pc b').inside k := h
    by_cases hb : b' = b
    · subst hb
      rw [Function.update_self] at h'
      exact Or.inr ⟨rfl, h'⟩
    · rw [Function.update_of_ne hb] at h'
      exact Or.inl ⟨h', by simp [hb]⟩

/-- A buyer that goes to a place that needs no more than its old one. -/
theorem guarded_goto {s : State n} {b : Fin n} (pc : BuyerPc) (h : Guarded s.mutex s.inside)
    (hpc : ∀ k, pc.inside k → (s.buyer b).inside k) : Guarded s.mutex (s.goto b pc).inside := by
  refine h.mono fun t k ht => ?_
  rcases State.inside_goto _ _ ht with ⟨ht, _⟩ | ⟨rfl, hk⟩
  · exact ht
  · exact hpc k hk

/-- A buyer that leaves its room. -/
theorem guarded_leave {s : State n} {b : Fin n} {room : Room} (h : Guarded s.mutex s.inside)
    (hpc : s.buyer b = .unlock room) :
    Guarded (Function.update s.mutex room none) (s.goto b .loop).inside := by
  have hin : s.inside (.buyer b) room := by
    show (s.buyer b).inside room
    rw [hpc]
    rfl
  refine h.release hin (fun t k ht => ?_) fun ht => ?_
  · rcases State.inside_goto _ _ ht with ⟨ht, _⟩ | ⟨_, hk⟩
    · exact ht
    · exact absurd hk id
  · rcases State.inside_goto _ _ ht with ⟨_, hne⟩ | ⟨_, hk⟩
    · exact hne rfl
    · exact hk

/-- **A step of a buyer** keeps the discipline. -/
theorem BuyerMoves.guarded {s s' : State n} {b : Fin n} (h : Guarded s.mutex s.inside)
    (hm : BuyerMoves s b s') : Guarded s'.mutex s'.inside := by
  cases hm with
  | goodbye hpc => exact guarded_goto _ h fun k hk => absurd hk id
  | empty hpc => exact h
  | see room hpc demand full => exact guarded_goto _ h fun k hk => absurd hk id
  | busy room seen hpc => exact guarded_goto _ h fun k hk => absurd hk id
  | enter room seen hpc free =>
    -- the only step of a buyer to a place that needs a mutex it had not
    refine h.acquire free fun t k ht => ?_
    rcases State.inside_goto (s := s) b (.read room seen) ht with ⟨ht, _⟩ | ht
    · exact Or.inl ht
    · exact Or.inr ht
  | read room seen hpc => exact guarded_goto _ h fun k hk => by rw [hpc]; exact hk
  | buy room seen tmp hpc =>
    exact guarded_goto (.clear room) h fun k hk => by rw [hpc]; exact hk
  | clear room hpc => exact guarded_goto (.unlock room) h fun k hk => by rw [hpc]; exact hk
  | leave room hpc => exact guarded_leave h hpc

/-- The loader at a place that needs no more than its old one. -/
theorem guarded_loader {s s' : State n} (h : Guarded s.mutex s.inside)
    (hb : s'.buyer = s.buyer) (hpc : ∀ k, s'.loader.inside n k → s.loader.inside n k) :
    Guarded s.mutex s'.inside := by
  refine h.mono fun t k ht => ?_
  cases t with
  | loader => exact hpc k ht
  | buyer b =>
    show (s.buyer b).inside k
    rw [← hb]
    exact ht

/-- The loader takes a mutex. -/
theorem guarded_loader_acquire {s s' : State n} {j : Nat} (h : Guarded s.mutex s.inside)
    (hb : s'.buyer = s.buyer) (hfree : s.mutex j = none)
    (hpc : ∀ k, s'.loader.inside n k → s.loader.inside n k ∨ k = j) :
    Guarded (Function.update s.mutex j (some .loader)) s'.inside := by
  refine h.acquire hfree fun t k ht => ?_
  cases t with
  | loader => exact (hpc k ht).imp id fun hk => ⟨rfl, hk⟩
  | buyer b =>
    refine Or.inl ?_
    show (s.buyer b).inside k
    rw [← hb]
    exact ht

/-- The loader gives a mutex back. -/
theorem guarded_loader_release {s s' : State n} {j : Nat} (h : Guarded s.mutex s.inside)
    (hb : s'.buyer = s.buyer) (hin : s.loader.inside n j)
    (hpc : ∀ k, s'.loader.inside n k → s.loader.inside n k ∧ k ≠ j) :
    Guarded (Function.update s.mutex j none) s'.inside := by
  refine h.release (t := .loader) hin (fun t k ht => ?_) fun ht => (hpc j ht).2 rfl
  cases t with
  | loader => exact (hpc k ht).1
  | buyer b =>
    show (s.buyer b).inside k
    rw [← hb]
    exact ht

/-- **A step of the loader** keeps the discipline. -/
theorem LoaderMoves.guarded {s s' : State n} (h : Guarded s.mutex s.inside)
    (hm : LoaderMoves s s') : Guarded s'.mutex s'.inside := by
  cases hm with
  | full i hpc => exact guarded_loader (s := s) h rfl fun k hk => absurd hk id
  | see i hpc empty => exact guarded_loader (s := s) h rfl fun k hk => absurd hk id
  | busy i hpc => exact guarded_loader (s := s) h rfl fun k hk => absurd hk id
  | enter i hpc free => exact guarded_loader_acquire h rfl free fun k hk => Or.inr hk
  | load i rand hpc => exact guarded_loader (s := s) h rfl fun k hk => by rw [hpc]; exact hk
  | leave i hpc =>
    exact guarded_loader_release h rfl (by rw [hpc]; rfl) fun k hk => absurd hk (Nat.not_lt_zero k)
  -- `storage_control` takes all mutexes one after the other, and gives them back so
  | lock i j hpc hj free =>
    refine guarded_loader_acquire h rfl free fun k hk => ?_
    have hk' : k < j + 1 := hk
    rw [hpc]
    exact Nat.lt_succ_iff_lt_or_eq.mp hk'
  | locked i j hpc hj =>
    refine guarded_loader (s := s) h rfl fun k hk => ?_
    rw [hpc]
    exact Nat.lt_of_lt_of_le hk hj
  | print i j hpc hj => exact guarded_loader (s := s) h rfl fun k hk => by rw [hpc]; exact hk
  | printed i j hpc hj =>
    refine guarded_loader (s := s) h rfl fun k hk => ?_
    rw [hpc]
    exact hk.2
  | release i j hpc hj =>
    refine guarded_loader_release h rfl (by rw [hpc]; exact ⟨Nat.le_refl j, hj⟩) fun k hk => ?_
    have hk' : j + 1 ≤ k ∧ k < n + 1 := hk
    rw [hpc]
    exact ⟨⟨by omega, hk'.2⟩, by omega⟩
  | released i j hpc hj => exact guarded_loader (s := s) h rfl fun k hk => absurd hk id

end EltexHomeworks.Storage
