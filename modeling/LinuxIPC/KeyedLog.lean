import Mathlib

/-!
# Entries with keys, and the log of their changes

A log records changes, each of them of one key: a new value for it, or its removal. A list of entries
holds what the log says when the entry found for a key is the one last written for it. Adding an entry
with a new key, replacing the entry of a key and removing it each carry this over one more change.
-/

namespace KeyedLog

variable {μ κ ν : Type*} [DecidableEq κ] (key : μ → κ) (value : μ → Option ν) (entryKey : ν → κ)

/-- What was last written for a key, `none` if that was its removal or there was nothing. -/
def lookup (log : List μ) (k : κ) : Option ν := (log.reverse.find? (key · = k)).bind value

def Holds (entries : List ν) (log : List μ) : Prop :=
  ∀ k, entries.find? (entryKey · = k) = lookup key value log k

theorem lookup_snoc (log : List μ) (m : μ) (k : κ) :
    lookup key value (log ++ [m]) k = if key m = k then value m else lookup key value log k := by
  rw [lookup, List.reverse_append, List.reverse_singleton, List.singleton_append, List.find?_cons]
  split_ifs with h <;> simp [h, lookup]

theorem holds_nil : Holds key value entryKey [] [] := fun _ => rfl

variable {key value entryKey} {entries before after : List ν} {log : List μ} {m : μ} {e x : ν}

theorem find?_eq_none_of_ne {k : κ} (h : ∀ e ∈ entries, entryKey e ≠ k) :
    entries.find? (entryKey · = k) = none := by
  rw [List.find?_eq_none]
  intro e he
  simpa using h e he

theorem Holds.add (h : Holds key value entryKey entries log)
    (hnew : ∀ e ∈ entries, entryKey e ≠ key m) (hvalue : value m = some x)
    (hkey : entryKey x = key m) : Holds key value entryKey (entries ++ [x]) (log ++ [m]) := by
  intro k
  rw [lookup_snoc, List.find?_append, List.find?_singleton, hkey]
  by_cases hk : key m = k
  · subst hk
    rw [find?_eq_none_of_ne hnew, if_pos rfl, hvalue]
    simp
  · rw [if_neg hk, h k]
    simp [hk]

/-- The entry of a key, between entries with other keys. -/
theorem find?_middle (hothers : ∀ q ∈ before ++ after, entryKey q ≠ entryKey x) (k : κ) :
    (before ++ x :: after).find? (entryKey · = k) =
      if entryKey x = k then some x else (before ++ after).find? (entryKey · = k) := by
  rw [List.find?_append, List.find?_cons, List.find?_append]
  split_ifs with hk
  · subst hk
    rw [find?_eq_none_of_ne fun q hq => hothers q (List.mem_append_left _ hq)]
    simp
  · simp [hk]

theorem Holds.replace (h : Holds key value entryKey (before ++ e :: after) log)
    (hothers : ∀ q ∈ before ++ after, entryKey q ≠ key m) (hold : entryKey e = key m)
    (hvalue : value m = some x) (hkey : entryKey x = key m) :
    Holds key value entryKey (before ++ x :: after) (log ++ [m]) := by
  intro k
  have hbefore := h k
  rw [find?_middle (by rwa [hold]), hold] at hbefore
  rw [lookup_snoc, find?_middle (by rwa [hkey]), hkey, hvalue]
  split_ifs with hk
  · rfl
  · rwa [if_neg hk] at hbefore

theorem Holds.remove (h : Holds key value entryKey (before ++ e :: after) log)
    (hothers : ∀ q ∈ before ++ after, entryKey q ≠ key m) (hold : entryKey e = key m)
    (hvalue : value m = none) : Holds key value entryKey (before ++ after) (log ++ [m]) := by
  intro k
  have hbefore := h k
  rw [find?_middle (by rwa [hold]), hold] at hbefore
  rw [lookup_snoc, hvalue]
  split_ifs with hk
  · subst hk
    exact find?_eq_none_of_ne hothers
  · rwa [if_neg hk] at hbefore

end KeyedLog
