import Mathlib

/-!
# Maps in the order of insertion

The entries of an ordered map stand in the order in which their keys were inserted. After any
sequence of changes that inserts no key twice, the keys are the inserted ones, and the value of
each is the one it was given last.
-/

structure OrderedMap (κ ν : Type*) where
  entries : List (κ × ν)
  nodup : (entries.map Prod.fst).Nodup

namespace OrderedMap

variable {κ ν : Type*}

inductive Change (κ ν : Type*) where
  | insert (key : κ) (value : ν)
  | update (key : κ) (value : ν)

def Change.key : Change κ ν → κ
  | insert key _ => key
  | update key _ => key

def Change.value : Change κ ν → ν
  | insert _ value => value
  | update _ value => value

def keys (m : OrderedMap κ ν) : List κ := m.entries.map Prod.fst

def empty : OrderedMap κ ν := ⟨[], List.nodup_nil⟩

def inserted (changes : List (Change κ ν)) : List κ :=
  changes.filterMap fun change =>
    match change with
    | .insert key _ => some key
    | .update _ _ => none

theorem inserted_snoc_insert (changes : List (Change κ ν)) (key : κ) (value : ν) :
    inserted (changes ++ [.insert key value]) = inserted changes ++ [key] :=
  List.filterMap_append

theorem inserted_snoc_update (changes : List (Change κ ν)) (key : κ) (value : ν) :
    inserted (changes ++ [.update key value]) = inserted changes := by
  unfold inserted
  rw [List.filterMap_append]
  exact List.append_nil _

variable [DecidableEq κ]

/-- A key that is present keeps its value. -/
def insert (m : OrderedMap κ ν) (key : κ) (value : ν) : OrderedMap κ ν where
  entries := if key ∈ m.keys then m.entries else m.entries ++ [(key, value)]
  nodup := by
    split_ifs with h
    · exact m.nodup
    · rw [List.map_append, List.map_singleton, ← List.concat_eq_append]
      exact m.nodup.concat h

/-- Without the key, nothing changes. -/
def update (m : OrderedMap κ ν) (key : κ) (value : ν) : OrderedMap κ ν where
  entries := m.entries.map fun e => (e.1, if e.1 = key then value else e.2)
  nodup := by
    rw [List.map_map]
    exact m.nodup

def apply (m : OrderedMap κ ν) : Change κ ν → OrderedMap κ ν
  | .insert key value => m.insert key value
  | .update key value => m.update key value

def after (changes : List (Change κ ν)) : OrderedMap κ ν := changes.foldl apply empty

def latest (changes : List (Change κ ν)) (key : κ) : Option ν :=
  (changes.reverse.find? fun change => change.key = key).map Change.value

theorem entries_insert {m : OrderedMap κ ν} {key : κ} (h : key ∉ m.keys) (value : ν) :
    (m.insert key value).entries = m.entries ++ [(key, value)] :=
  if_neg h

theorem keys_insert {m : OrderedMap κ ν} {key : κ} (h : key ∉ m.keys) (value : ν) :
    (m.insert key value).keys = m.keys ++ [key] := by
  rw [keys, entries_insert h, List.map_append]
  rfl

theorem entries_update (m : OrderedMap κ ν) (key : κ) (value : ν) :
    (m.update key value).entries =
      m.entries.map fun e => (e.1, if e.1 = key then value else e.2) := rfl

@[simp] theorem keys_update (m : OrderedMap κ ν) (key : κ) (value : ν) :
    (m.update key value).keys = m.keys := by
  rw [keys, update, List.map_map]
  rfl

theorem after_snoc (changes : List (Change κ ν)) (change : Change κ ν) :
    after (changes ++ [change]) = (after changes).apply change :=
  List.foldl_concat apply empty change changes

theorem latest_snoc_self (changes : List (Change κ ν)) (change : Change κ ν) :
    latest (changes ++ [change]) change.key = some change.value := by
  simp [latest]

theorem latest_snoc_of_ne (changes : List (Change κ ν)) {change : Change κ ν} {key : κ}
    (h : change.key ≠ key) : latest (changes ++ [change]) key = latest changes key := by
  simp [latest, h]

theorem keys_after {changes : List (Change κ ν)} (hfresh : (inserted changes).Nodup) :
    (after changes).keys = inserted changes := by
  induction changes using List.reverseRecOn with
  | nil => rfl
  | append_singleton changes change ih =>
      cases change with
      | insert key value =>
          rw [inserted_snoc_insert] at hfresh ⊢
          have hkeys := ih (List.Nodup.of_append_left hfresh)
          have hnew : key ∉ (after changes).keys := by
            rw [hkeys]
            exact fun hmem => List.disjoint_of_nodup_append hfresh hmem List.mem_cons_self
          rw [after_snoc, apply, keys_insert hnew, hkeys]
      | update key value =>
          rw [inserted_snoc_update] at hfresh ⊢
          rw [after_snoc, apply, keys_update, ih hfresh]

/-- The entries are the inserted keys in their order, each with its latest value. -/
theorem entries_after {changes : List (Change κ ν)} (hfresh : (inserted changes).Nodup) :
    (after changes).entries.map (fun e => (e.1, some e.2)) =
      (inserted changes).map fun key => (key, latest changes key) := by
  induction changes using List.reverseRecOn with
  | nil => rfl
  | append_singleton changes change ih =>
      cases change with
      | insert key value =>
          rw [inserted_snoc_insert] at hfresh ⊢
          have hold := List.Nodup.of_append_left hfresh
          have hnew : key ∉ inserted changes := fun hmem =>
            List.disjoint_of_nodup_append hfresh hmem List.mem_cons_self
          have hsame : ∀ k ∈ inserted changes,
              (k, latest changes k) = (k, latest (changes ++ [.insert key value]) k) := by
            intro k hk
            have hne : (Change.insert key value).key ≠ k := by
              rintro rfl
              exact hnew hk
            rw [latest_snoc_of_ne changes hne]
          have hlast : latest (changes ++ [.insert key value]) key = some value :=
            latest_snoc_self changes (.insert key value)
          rw [after_snoc, apply, entries_insert (keys_after hold ▸ hnew), List.map_append, ih hold,
            List.map_append, List.map_congr_left hsame, List.map_singleton, List.map_singleton, hlast]
      | update key value =>
          rw [inserted_snoc_update] at hfresh ⊢
          have hupdate : (after (changes ++ [.update key value])).entries.map
              (fun e => (e.1, some e.2)) = ((after changes).entries.map fun e => (e.1, some e.2)).map
                fun e => (e.1, if e.1 = key then some value else e.2) := by
            rw [after_snoc, apply, update, List.map_map, List.map_map]
            apply List.map_congr_left
            intro e he
            by_cases hkey : e.1 = key <;> simp [hkey]
          rw [hupdate, ih hfresh, List.map_map]
          apply List.map_congr_left
          intro k hk
          by_cases hkey : k = key
          · subst hkey
            have hlast : latest (changes ++ [.update k value]) k = some value :=
              latest_snoc_self changes (.update k value)
            simp [hlast]
          · have hne : (Change.update key value).key ≠ k := Ne.symm hkey
            simp [hkey, latest_snoc_of_ne changes hne]

end OrderedMap
