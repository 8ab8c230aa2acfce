import Mathlib

/-!
# Blocks that are allocated and freed

A heap is the contents of the blocks allocated, by their addresses; there is no block at the null
pointer. Access to a block that is not allocated, and freeing it, is `none`. A list of addresses with
contents owns the heap when its addresses are different and are those of all blocks: an allocation
adds to the list, an assignment changes it in one place, and freeing removes from it.
-/

@[ext]
structure Heap (α : Type*) where
  blocks : Finmap fun _ : ℕ => α
  null : 0 ∉ blocks

/-- What `malloc` does at a call: the address it returns, with the null pointer for no memory left,
and what the new block happens to hold. -/
structure Malloc (α : Type*) where
  address : Heap α → ℕ
  contents : α
  fresh : ∀ h, address h ∉ h.blocks

namespace Heap

variable {α : Type*}

def empty : Heap α := ⟨∅, Finmap.notMem_empty⟩

def load (h : Heap α) (p : ℕ) : Option α := h.blocks.lookup p

def put (h : Heap α) (p : ℕ) (x : α) : Heap α :=
  if hp : p = 0 then h
  else
    ⟨h.blocks.insert p x, fun h0 => (Finmap.mem_insert.mp h0).elim (fun heq => hp heq.symm) h.null⟩

def store (h : Heap α) (p : ℕ) (x : α) : Option (Heap α) :=
  if p ∈ h.blocks then some (h.put p x) else none

def modify (h : Heap α) (p : ℕ) (f : α → α) : Option (Heap α) :=
  (h.load p).bind fun x => h.store p (f x)

def malloc (m : Malloc α) (h : Heap α) : ℕ × Heap α :=
  (m.address h, h.put (m.address h) m.contents)

/-- Freeing the null pointer does nothing. -/
def free (h : Heap α) (p : ℕ) : Option (Heap α) :=
  if p = 0 then some h
  else if p ∈ h.blocks then
    some ⟨h.blocks.erase p, fun h0 => h.null (Finmap.mem_erase.mp h0).2⟩
  else none

def size (h : Heap α) : ℕ := h.blocks.keys.card

structure Owns (h : Heap α) (l : List (ℕ × α)) : Prop where
  nodup : (l.map Prod.fst).Nodup
  load : ∀ b ∈ l, h.load b.1 = some b.2
  mem : ∀ p ∈ h.blocks, p ∈ l.map Prod.fst

variable {h : Heap α} {l front back : List (ℕ × α)} {p : ℕ} {x : α}

theorem blocks_put (h : Heap α) (hp : p ≠ 0) (x : α) : (h.put p x).blocks = h.blocks.insert p x := by
  rw [put, dif_neg hp]

@[simp] theorem put_null (h : Heap α) (x : α) : h.put 0 x = h := dif_pos rfl

theorem ne_null_of_mem (hp : p ∈ h.blocks) : p ≠ 0 := fun heq => h.null (heq ▸ hp)

theorem mem_put (h : Heap α) (hp : p ≠ 0) (x : α) {q : ℕ} :
    q ∈ (h.put p x).blocks ↔ q = p ∨ q ∈ h.blocks := by
  rw [h.blocks_put hp, Finmap.mem_insert]

theorem load_put_self (h : Heap α) (hp : p ≠ 0) (x : α) : (h.put p x).load p = some x := by
  rw [load, h.blocks_put hp, Finmap.lookup_insert]

theorem load_put_of_ne (h : Heap α) {q : ℕ} (hne : q ≠ p) (x : α) :
    (h.put p x).load q = h.load q := by
  by_cases hp : p = 0
  · rw [hp, put_null]
  · rw [load, h.blocks_put hp, Finmap.lookup_insert_of_ne _ hne, load]

theorem store_put (h : Heap α) (hp : p ≠ 0) (x y : α) :
    (h.put p x).store p y = some (h.put p y) := by
  have hmem : p ∈ (h.put p x).blocks := (h.mem_put hp x).mpr (Or.inl rfl)
  have hblocks : ((h.put p x).put p y).blocks = (h.put p y).blocks := by
    rw [blocks_put _ hp, h.blocks_put hp, h.blocks_put hp, Finmap.insert_insert]
  rw [store, if_pos hmem, Option.some.injEq]
  exact Heap.ext hblocks

/-- Freeing a block that is new gives the heap before it. -/
theorem free_put (h : Heap α) (hp : p ≠ 0) (hfresh : p ∉ h.blocks) (x : α) :
    (h.put p x).free p = some h := by
  have hmem : p ∈ (h.put p x).blocks := (h.mem_put hp x).mpr (Or.inl rfl)
  have hblocks : (h.put p x).blocks.erase p = h.blocks := by
    rw [h.blocks_put hp]
    refine Finmap.ext_lookup fun q => ?_
    by_cases hq : q = p
    · rw [hq, Finmap.lookup_erase, Finmap.lookup_eq_none.mpr hfresh]
    · rw [Finmap.lookup_erase_ne hq, Finmap.lookup_insert_of_ne _ hq]
  rw [free, if_neg hp, if_pos hmem, Option.some.injEq]
  exact Heap.ext hblocks

theorem owns_empty : (empty : Heap α).Owns [] :=
  ⟨List.nodup_nil, by simp, fun p hp => absurd hp Finmap.notMem_empty⟩

namespace Owns

theorem mem_iff (ho : h.Owns l) : p ∈ h.blocks ↔ p ∈ l.map Prod.fst := by
  refine ⟨ho.mem p, fun hp => ?_⟩
  obtain ⟨b, hb, rfl⟩ := List.mem_map.mp hp
  exact Finmap.mem_of_lookup_eq_some (ho.load b hb)

theorem perm {l' : List (ℕ × α)} (ho : h.Owns l) (hperm : l.Perm l') : h.Owns l' where
  nodup := ((hperm.map Prod.fst).nodup_iff).mp ho.nodup
  load := fun b hb => ho.load b (hperm.mem_iff.mpr hb)
  mem := fun p hp => (hperm.map Prod.fst).mem_iff.mp (ho.mem p hp)

theorem size (ho : h.Owns l) : h.size = l.length := by
  have hkeys : h.blocks.keys = (l.map Prod.fst).toFinset := by
    ext p
    rw [Finmap.mem_keys, ho.mem_iff, List.mem_toFinset]
  rw [Heap.size, hkeys, List.toFinset_card_of_nodup ho.nodup, List.length_map]

theorem load_middle (ho : h.Owns (front ++ (p, x) :: back)) : h.load p = some x :=
  ho.load (p, x) (by simp)

theorem ne_null (ho : h.Owns (front ++ (p, x) :: back)) : p ≠ 0 :=
  ne_null_of_mem (ho.mem_iff.mpr (by simp))

/-- The other blocks of a list have other addresses. -/
theorem ne_middle (ho : h.Owns (front ++ (p, x) :: back)) {b : ℕ × α} (hb : b ∈ front ++ back) :
    b.1 ≠ p := by
  have hnodup := ho.nodup
  rw [List.map_append, List.map_cons] at hnodup
  have hfresh := (List.nodup_middle.mp hnodup).notMem
  rw [← List.map_append] at hfresh
  intro heq
  have hmem : b.1 ∈ (front ++ back).map Prod.fst := List.mem_map_of_mem hb
  exact hfresh (heq ▸ hmem)

theorem modify (ho : h.Owns (front ++ (p, x) :: back)) (f : α → α) :
    ∃ h', h.modify p f = some h' ∧ h'.Owns (front ++ (p, f x) :: back) := by
  have hp : p ∈ h.blocks := ho.mem_iff.mpr (by simp)
  refine ⟨_, by rw [Heap.modify, ho.load_middle, Option.bind_some, store, if_pos hp], ?_⟩
  refine ⟨by simpa using ho.nodup, fun b hb => ?_, fun q hq => ?_⟩
  · rcases List.mem_cons.mp (List.perm_middle.mem_iff.mp hb) with rfl | hb
    · exact h.load_put_self ho.ne_null _
    · have hold : b ∈ front ++ (p, x) :: back :=
        List.perm_middle.mem_iff.mpr (List.mem_cons_of_mem _ hb)
      exact (h.load_put_of_ne (ho.ne_middle hb) _).trans (ho.load b hold)
  · have hold : q ∈ h.blocks := ((h.mem_put ho.ne_null _).mp hq).elim (· ▸ hp) id
    simpa using ho.mem q hold

theorem free (ho : h.Owns (front ++ (p, x) :: back)) :
    ∃ h', h.free p = some h' ∧ h'.Owns (front ++ back) := by
  have hp : p ∈ h.blocks := ho.mem_iff.mpr (by simp)
  refine ⟨_, by rw [Heap.free, if_neg ho.ne_null, if_pos hp], ?_⟩
  refine ⟨?_, fun b hb => ?_, fun q hq => ?_⟩
  · have hnodup := ho.nodup
    rw [List.map_append, List.map_cons] at hnodup
    rw [List.map_append]
    exact (List.nodup_middle.mp hnodup).of_cons
  · have hold : b ∈ front ++ (p, x) :: back :=
      List.perm_middle.mem_iff.mpr (List.mem_cons_of_mem _ hb)
    exact (Finmap.lookup_erase_ne (ho.ne_middle hb)).trans (ho.load b hold)
  · obtain ⟨hne, hold⟩ := Finmap.mem_erase.mp hq
    have hmem := ho.mem q hold
    simp only [List.map_append, List.map_cons, List.mem_append, List.mem_cons, hne, false_or]
      at hmem ⊢
    exact hmem

theorem modify_head (ho : h.Owns ((p, x) :: back)) (f : α → α) :
    ∃ h', h.modify p f = some h' ∧ h'.Owns ((p, f x) :: back) := by
  have hsplit : h.Owns ([] ++ (p, x) :: back) := ho
  exact hsplit.modify f

/-- A call of `malloc` that finds memory adds a block. -/
theorem malloc (ho : h.Owns l) (m : Malloc α) (hne : m.address h ≠ 0) :
    (h.malloc m).2.Owns ((m.address h, m.contents) :: l) := by
  have hfresh : m.address h ∉ l.map Prod.fst := fun hp => m.fresh h (ho.mem_iff.mpr hp)
  refine ⟨List.nodup_cons.mpr ⟨hfresh, ho.nodup⟩, fun b hb => ?_, fun q hq => ?_⟩
  · rcases List.mem_cons.mp hb with rfl | hb
    · exact h.load_put_self hne _
    · have hne' : b.1 ≠ m.address h := fun heq => hfresh (heq ▸ List.mem_map_of_mem hb)
      exact (h.load_put_of_ne hne' _).trans (ho.load b hb)
  · exact List.mem_cons.mpr (((h.mem_put hne _).mp hq).imp_right (ho.mem q))

/-- All blocks of the front of the list are freed, one after the other. -/
theorem freeAll (ho : h.Owns (front ++ back)) :
    ∃ h', (front.map Prod.fst).foldlM Heap.free h = some h' ∧ h'.Owns back := by
  induction front generalizing h with
  | nil => exact ⟨h, rfl, ho⟩
  | cons b front ih =>
      have hsplit : h.Owns ([] ++ b :: (front ++ back)) := ho
      obtain ⟨h₁, hfree, ho₁⟩ := hsplit.free
      obtain ⟨h', hrest, ho'⟩ := ih ho₁
      exact ⟨h', by simp [hfree, hrest], ho'⟩

end Owns

end Heap
