import Mathlib

/-!
# Tables of slots

A table is a list of slots, of which those with the value `free` are free. A value enters at the
first free slot and leaves by freeing the first slot it is in, both by `List.replace`. While the
occupied slots are distinct, a value leaves by freeing every slot that holds it (`release`), so that
the order in which values leave is of no account, and the table stands for a finite set (`Holds`).
-/

namespace SlotTable

variable {α : Type*} [DecidableEq α] (free : α)

def occupied (slots : List α) : List α := slots.filter (· ≠ free)

def release (p : α → Bool) (slots : List α) : List α := slots.map fun v => if p v then free else v

variable {free}

theorem replace_eq_of_mem {a : α} {slots : List α} (h : a ∈ slots) :
    ∃ front back, a ∉ front ∧ slots = front ++ a :: back ∧
      ∀ b, slots.replace a b = front ++ b :: back := by
  obtain ⟨front, back, hsplit, hfront⟩ := List.eq_append_cons_of_mem h
  refine ⟨front, back, hfront, hsplit, fun b => ?_⟩
  rw [hsplit, List.replace_append_right hfront, List.replace_cons_self]

theorem mem_occupied {slots : List α} {v : α} : v ∈ occupied free slots ↔ v ∈ slots ∧ v ≠ free := by
  simp [occupied]

theorem occupied_replicate (n : ℕ) : occupied free (List.replicate n free) = [] := by
  simp [occupied]

theorem free_mem_iff {slots : List α} :
    free ∈ slots ↔ (occupied free slots).length < slots.length := by
  unfold occupied
  rw [List.length_filter_lt_length_iff_exists]
  simp

theorem occupied_enter {slots : List α} {x : α} (hfree : free ∈ slots) (hx : x ≠ free) :
    (occupied free (slots.replace free x)).Perm (x :: occupied free slots) := by
  obtain ⟨front, back, -, hsplit, hreplace⟩ := replace_eq_of_mem hfree
  rw [hreplace, hsplit]
  simp only [occupied, List.filter_append, List.filter_cons, ne_eq, hx, not_false_eq_true,
    decide_true, if_true, not_true_eq_false, decide_false, Bool.false_eq_true, if_false]
  exact List.perm_middle

theorem mem_occupied_enter {slots : List α} {x v : α} (hx : x ≠ free) :
    v ∈ occupied free (slots.replace free x) ↔
      v ∈ occupied free slots ∨ v = x ∧ free ∈ slots := by
  by_cases hfree : free ∈ slots
  · rw [(occupied_enter hfree hx).mem_iff, List.mem_cons]
    tauto
  · rw [List.replace_of_not_mem hfree]
    tauto

theorem nodup_occupied_enter {slots : List α} {x : α} (hx : x ≠ free)
    (hnodup : (occupied free slots).Nodup) (hnew : x ∉ slots) :
    (occupied free (slots.replace free x)).Nodup := by
  by_cases hfree : free ∈ slots
  · rw [(occupied_enter hfree hx).nodup_iff, List.nodup_cons]
    exact ⟨fun h => hnew (mem_occupied.mp h).1, hnodup⟩
  · rwa [List.replace_of_not_mem hfree]

theorem occupied_release (p : α → Bool) (slots : List α) :
    occupied free (release free p slots) = (occupied free slots).filter fun v => !p v := by
  induction slots with
  | nil => rfl
  | cons v slots ih =>
      have hcons : release free p (v :: slots) = (if p v then free else v) :: release free p slots :=
        rfl
      simp only [occupied] at ih ⊢
      rw [hcons, List.filter_cons, ih, List.filter_cons]
      by_cases hv : v = free
      · simp [hv]
      · cases hp : p v <;> simp [hv, hp]

theorem mem_occupied_release {p : α → Bool} {slots : List α} {v : α} :
    v ∈ occupied free (release free p slots) ↔ v ∈ occupied free slots ∧ p v = false := by
  simp [occupied_release]

theorem release_eq_self {p : α → Bool} {slots : List α} (h : ∀ v ∈ occupied free slots, p v = false) :
    release free p slots = slots := by
  refine (List.map_congr_left fun v hv => ?_).trans (List.map_id slots)
  by_cases hfree : v = free
  · simp [hfree]
  · simp [h v (mem_occupied.mpr ⟨hv, hfree⟩)]

omit [DecidableEq α] in
theorem release_release (p q : α → Bool) (slots : List α) :
    release free q (release free p slots) = release free (fun v => p v || q v) slots := by
  rw [release, release, List.map_map]
  apply List.map_congr_left
  intro v _
  by_cases hp : p v = true
  · simp [hp]
  · simp [hp]

/-- A value that leaves a table of distinct values leaves all its slots. -/
theorem replace_eq_release {slots : List α} {x : α} (hnodup : (occupied free slots).Nodup)
    (hx : x ≠ free) : slots.replace x free = release free (fun v => decide (v = x)) slots := by
  by_cases hmem : x ∈ slots
  · obtain ⟨front, back, hfront, hsplit, hreplace⟩ := replace_eq_of_mem hmem
    have hback : x ∉ back := by
      intro h
      rw [hsplit, occupied, List.filter_append, List.filter_cons_of_pos (by simpa using hx)] at hnodup
      have hcons := (List.nodup_append.mp hnodup).2.1
      exact (List.nodup_cons.mp hcons).1 (List.mem_filter.mpr ⟨h, by simpa using hx⟩)
    have hkeep : ∀ l : List α, x ∉ l → release free (fun v => decide (v = x)) l = l := by
      intro l hl
      exact release_eq_self fun v hv => decide_eq_false fun heq => hl (heq ▸ (mem_occupied.mp hv).1)
    rw [hreplace, hsplit, release, List.map_append, List.map_cons]
    simp only [decide_true, if_true]
    congr 1
    · exact (hkeep front hfront).symm
    · exact congrArg _ (hkeep back hback).symm
  · rw [List.replace_of_not_mem hmem, release_eq_self]
    exact fun v hv => decide_eq_false fun heq => hmem (heq ▸ (mem_occupied.mp hv).1)

theorem eq_of_getD_eq {slots : List α} (hnodup : (occupied free slots).Nodup) {i j : ℕ}
    (hne : slots.getD i free ≠ free) (heq : slots.getD i free = slots.getD j free) : i = j := by
  have hlt : ∀ k, slots.getD k free ≠ free → k < slots.length := by
    intro k hk
    by_contra hge
    exact hk (List.getD_eq_default _ _ (not_lt.mp hge))
  have hi := hlt i hne
  have hj := hlt j (heq ▸ hne)
  rw [List.getD_eq_getElem _ _ hi] at hne heq
  rw [List.getD_eq_getElem _ _ hj] at heq
  have hpair := List.pairwise_iff_getElem.mp (List.pairwise_filter.mp hnodup)
  have hi' : decide (slots[i] ≠ free) = true := by simpa using hne
  have hj' : decide (slots[j] ≠ free) = true := by simpa using heq ▸ hne
  rcases lt_trichotomy i j with hij | hij | hij
  · exact absurd heq (hpair i j hi hj hij hi' hj')
  · exact hij
  · exact absurd heq.symm (hpair j i hj hi hij hj' hi')

omit [DecidableEq α] in
theorem getD_release (p : α → Bool) (slots : List α) (i : ℕ) :
    (release free p slots).getD i free =
      if p (slots.getD i free) then free else slots.getD i free := by
  by_cases hi : i < slots.length
  · have hi' : i < (release free p slots).length := by rwa [release, List.length_map]
    rw [List.getD_eq_getElem _ _ hi', List.getD_eq_getElem _ _ hi]
    exact List.getElem_map _
  · have hge : slots.length ≤ i := not_lt.mp hi
    have hge' : (release free p slots).length ≤ i := by rwa [release, List.length_map]
    rw [List.getD_eq_default _ _ hge, List.getD_eq_default _ _ hge', ite_self]

theorem getD_enter (slots : List α) (x : α) (i : ℕ) :
    (slots.replace free x).getD i free = slots.getD i free ∨
      slots.getD i free = free ∧ (slots.replace free x).getD i free = x := by
  by_cases hfree : free ∈ slots
  · obtain ⟨front, back, -, hsplit, hreplace⟩ := replace_eq_of_mem hfree
    rw [hreplace, hsplit]
    rcases lt_trichotomy i front.length with hi | hi | hi
    · left
      rw [List.getD_append _ _ _ _ hi, List.getD_append _ _ _ _ hi]
    · right
      simp [hi]
    · left
      obtain ⟨k, rfl⟩ : ∃ k, i = front.length + (k + 1) := ⟨i - front.length - 1, by omega⟩
      rw [List.getD_append_right _ _ _ _ (by omega), List.getD_append_right _ _ _ _ (by omega)]
      simp
  · rw [List.replace_of_not_mem hfree]
    exact Or.inl rfl

variable (free) in
/-- The occupied slots hold the values of a set, each of them once. -/
structure Holds (slots : List α) (held : Finset α) : Prop where
  nodup : (occupied free slots).Nodup
  mem_iff : ∀ v, v ∈ occupied free slots ↔ v ∈ held

theorem Holds.ne_free {slots : List α} {held : Finset α} (h : Holds free slots held) {v : α}
    (hv : v ∈ held) : v ≠ free :=
  (mem_occupied.mp ((h.mem_iff v).mpr hv)).2

theorem Holds.replicate (n : ℕ) : Holds free (List.replicate n free) ∅ where
  nodup := by simp [occupied_replicate]
  mem_iff := by simp [occupied_replicate]

theorem Holds.card_eq {slots : List α} {held : Finset α} (h : Holds free slots held) :
    held.card = (occupied free slots).length := by
  rw [← List.toFinset_card_of_nodup h.nodup]
  congr 1
  ext v
  rw [List.mem_toFinset, h.mem_iff]

/-- A slot is free while fewer values are held than there are slots. -/
theorem Holds.free_mem {slots : List α} {held : Finset α} (h : Holds free slots held)
    (hcard : held.card < slots.length) : free ∈ slots := by
  by_contra hnot
  have hall : occupied free slots = slots := by
    rw [occupied, List.filter_eq_self]
    intro v hv
    have hne : v ≠ free := fun heq => hnot (heq ▸ hv)
    simpa using hne
  rw [h.card_eq, hall] at hcard
  exact lt_irrefl _ hcard

theorem Holds.enter {slots : List α} {held : Finset α} (h : Holds free slots held) {x : α}
    (hx : x ≠ free) (hnew : x ∉ held) (hfree : free ∈ slots) :
    Holds free (slots.replace free x) (insert x held) where
  nodup := nodup_occupied_enter hx h.nodup fun hmem =>
    hnew ((h.mem_iff x).mp (mem_occupied.mpr ⟨hmem, hx⟩))
  mem_iff := by
    intro v
    rw [mem_occupied_enter hx, h.mem_iff, Finset.mem_insert, and_iff_left hfree]
    exact or_comm

theorem Holds.leave {slots : List α} {held : Finset α} (h : Holds free slots held) {x : α}
    (hx : x ≠ free) : Holds free (slots.replace x free) (held.erase x) where
  nodup := by
    rw [replace_eq_release h.nodup hx, occupied_release]
    exact h.nodup.filter _
  mem_iff := by
    intro v
    rw [replace_eq_release h.nodup hx, mem_occupied_release, h.mem_iff, Finset.mem_erase,
      decide_eq_false_iff_not]
    exact and_comm

end SlotTable
