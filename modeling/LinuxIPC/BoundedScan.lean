import LinuxIPC.Strtol

/-!
# String functions with indexing that fails outside the array

The memory at a pointer ends with the array that the pointer points into. A string function fails,
which is `none`, when it would have to read a character behind the end. Where there is a NUL, none of
the functions does, and they return what the unbounded ones return.
-/

namespace CString

namespace Bounded

def scan (p : UInt8 → Bool) : List UInt8 → Option ℕ
  | [] => none
  | c :: m => if p c then (scan p m).map (· + 1) else some 0

def scanWithin (p : UInt8 → Bool) : ℕ → List UInt8 → Option ℕ
  | 0, _ => some 0
  | _ + 1, [] => none
  | n + 1, c :: m => if p c then (scanWithin p n m).map (· + 1) else some 0

def strlen (m : List UInt8) : Option ℕ := scan (· ≠ 0) m

def strchr (m : List UInt8) (c : UInt8) : Option (Option ℕ) :=
  (scan (fun b => b ≠ 0 && b ≠ c) m).map fun _ => CString.strchr m c

def strncpy (n : ℕ) (m : List UInt8) : Option (CharArray n) :=
  (scanWithin (· ≠ 0) n m).map fun k => CString.strncpy n (m.take k)

def strndup (m : List UInt8) (n : ℕ) : Option (List UInt8) :=
  (scanWithin (· ≠ 0) n m).map fun k => m.take k

def strtol (errno : ℤ) (nptr : List UInt8) : Option Strtol :=
  (scan isspace nptr).bind fun _ =>
    (scan isdigit (splitSign (nptr.dropWhile isspace)).2).map fun _ => CString.strtol errno nptr

/-- One call of `strsep`: the memory at the token, in which a NUL has replaced the delimiter, and the
pointer left behind. -/
def strsep (delim : UInt8) (s : List UInt8) : Option (List UInt8 × Option (List UInt8)) :=
  (scan (fun b => b ≠ 0 && b ≠ delim) s).map fun i =>
    if s[i]? = some delim then (s.set i 0, some (s.drop (i + 1))) else (s, none)

theorem scan_eq_none_iff {p : UInt8 → Bool} {m : List UInt8} :
    scan p m = none ↔ ∀ c ∈ m, p c = true := by
  induction m with
  | nil => simp [scan]
  | cons c m ih =>
      rw [scan, List.forall_mem_cons]
      split_ifs with hc
      · rw [Option.map_eq_none_iff, ih, and_iff_right hc]
      · exact iff_of_false (by simp) fun h => hc h.1

theorem exists_scan {p : UInt8 → Bool} {m : List UInt8} {c : UInt8} (hmem : c ∈ m)
    (hc : ¬ p c = true) : ∃ k, scan p m = some k := by
  rw [← Option.ne_none_iff_exists']
  exact fun hnone => hc (scan_eq_none_iff.mp hnone c hmem)

theorem scan_append {p : UInt8 → Bool} {m : List UInt8} (hm : ∀ b ∈ m, p b = true) {c : UInt8}
    (hc : ¬ p c = true) (rest : List UInt8) : scan p (m ++ c :: rest) = some m.length := by
  induction m with
  | nil => exact if_neg hc
  | cons b m ih =>
      rw [List.forall_mem_cons] at hm
      rw [List.cons_append, scan, if_pos hm.1, ih hm.2]
      rfl

theorem scan_of_mem {m : List UInt8} (h : 0 ∈ m) : scan (· ≠ 0) m = some (CString.strlen m) := by
  induction m with
  | nil => simp at h
  | cons c m ih =>
      by_cases hc : c = 0
      · simp [scan, hc, CString.strlen]
      · have hm : 0 ∈ m := (List.mem_cons.mp h).resolve_left (Ne.symm hc)
        rw [scan, ih hm]
        simp [hc, CString.strlen, cstr_cons hc]

theorem scanWithin_of_mem {m : List UInt8} (h : 0 ∈ m) (n : ℕ) :
    ∃ k, scanWithin (· ≠ 0) n m = some k ∧ m.take k = (cstr m).take n := by
  induction n generalizing m with
  | zero => exact ⟨0, rfl, rfl⟩
  | succ n ih =>
      cases m with
      | nil => simp at h
      | cons c m =>
          by_cases hc : c = 0
          · refine ⟨0, ?_, by simp [hc]⟩
            rw [scanWithin, if_neg (by simp [hc])]
          · have hm : 0 ∈ m := (List.mem_cons.mp h).resolve_left (Ne.symm hc)
            obtain ⟨k, hk, htake⟩ := ih hm
            refine ⟨k + 1, ?_, ?_⟩
            · rw [scanWithin, if_pos (decide_eq_true hc), hk]
              rfl
            · rw [cstr_cons hc, List.take_succ_cons, List.take_succ_cons, htake]

/-- The characters that a scan goes over are of the kind scanned for, and at most `n`. -/
theorem of_scanWithin_eq_some {p : UInt8 → Bool} {n k : ℕ} {m : List UInt8}
    (h : scanWithin p n m = some k) : (∀ c ∈ m.take k, p c = true) ∧ k ≤ n := by
  induction n generalizing m k with
  | zero =>
      obtain rfl : 0 = k := Option.some.inj h
      simp
  | succ n ih =>
      cases m with
      | nil => simp [scanWithin] at h
      | cons c m =>
          rw [scanWithin] at h
          split_ifs at h with hc
          · obtain ⟨k', hk', rfl⟩ := Option.map_eq_some_iff.mp h
            obtain ⟨hall, hle⟩ := ih hk'
            rw [List.take_succ_cons, List.forall_mem_cons]
            exact ⟨⟨hc, hall⟩, Nat.succ_le_succ hle⟩
          · obtain rfl : 0 = k := Option.some.inj h
            simp

theorem strlen_of_mem {m : List UInt8} (h : 0 ∈ m) : strlen m = some (CString.strlen m) :=
  scan_of_mem h

theorem strchr_eq_none_iff {m : List UInt8} {c : UInt8} :
    strchr m c = none ↔ 0 ∉ m ∧ c ∉ m := by
  rw [strchr, Option.map_eq_none_iff, scan_eq_none_iff]
  simp only [ne_eq, decide_not, Bool.and_eq_true, Bool.not_eq_true', decide_eq_false_iff_not,
    forall_and]
  exact and_congr ⟨fun h hz => h 0 hz rfl, fun h b hb hz => h (hz ▸ hb)⟩
    ⟨fun h hc => h c hc rfl, fun h b hb hc => h (hc ▸ hb)⟩

theorem strchr_of_mem {m : List UInt8} {c : UInt8} (h : 0 ∈ m ∨ c ∈ m) :
    strchr m c = some (CString.strchr m c) := by
  have hne : strchr m c ≠ none := fun hnone => by
    obtain ⟨hz, hc⟩ := strchr_eq_none_iff.mp hnone
    exact h.elim hz hc
  rw [strchr] at hne ⊢
  cases hscan : scan (fun b => b ≠ 0 && b ≠ c) m with
  | none =>
      rw [hscan] at hne
      exact absurd rfl hne
  | some k => rfl

theorem strncpy_of_mem {m : List UInt8} (h : 0 ∈ m) (n : ℕ) :
    strncpy n m = some (CString.strncpy n m) := by
  obtain ⟨k, hk, htake⟩ := scanWithin_of_mem h n
  have hzero : 0 ∉ (cstr m).take n := fun hz => zero_notMem_cstr m (List.mem_of_mem_take hz)
  rw [strncpy, hk, Option.map_some, htake, Option.some.injEq]
  apply CharArray.ext_bytes
  simp only [CString.strncpy, cstr_eq_self hzero, List.take_take, min_self, List.length_take]
  congr 2
  omega

theorem strndup_of_mem {m : List UInt8} (h : 0 ∈ m) (n : ℕ) :
    strndup m n = some (CString.strndup m n) := by
  obtain ⟨k, hk, htake⟩ := scanWithin_of_mem h n
  rw [strndup, hk, Option.map_some, htake]
  rfl

theorem of_strndup_eq_some {m copy : List UInt8} {n : ℕ} (h : strndup m n = some copy) :
    0 ∉ copy ∧ copy.length ≤ n := by
  obtain ⟨k, hk, rfl⟩ := Option.map_eq_some_iff.mp h
  obtain ⟨hall, hle⟩ := of_scanWithin_eq_some hk
  refine ⟨fun hz => ?_, (List.length_take_le k m).trans hle⟩
  have hne := hall 0 hz
  simp at hne

theorem strtol_of_mem {m : List UInt8} (h : 0 ∈ m) (errno : ℤ) :
    strtol errno m = some (CString.strtol errno m) := by
  obtain ⟨i, hi⟩ := exists_scan h (p := isspace) (by decide)
  have hdrop : 0 ∈ m.dropWhile isspace := by
    rw [← List.takeWhile_append_dropWhile (p := isspace) (l := m), List.mem_append] at h
    exact h.resolve_left fun hz => absurd (List.mem_takeWhile_imp hz) (by decide)
  have hsign : 0 ∈ (splitSign (m.dropWhile isspace)).2 := by
    cases hm : m.dropWhile isspace with
    | nil => simp [hm] at hdrop
    | cons c rest =>
        rw [hm] at hdrop
        rw [splitSign]
        split_ifs with hminus hplus
        · exact (List.mem_cons.mp hdrop).resolve_left (by simp [hminus])
        · exact (List.mem_cons.mp hdrop).resolve_left (by simp [hplus])
        · exact hdrop
  obtain ⟨k, hk⟩ := exists_scan hsign (p := isdigit) (by decide)
  rw [strtol, hi, Option.bind_some, hk, Option.map_some]

/-- The characters of a string and its NUL can be read. -/
theorem getElem_of_le_strlen {m : List UInt8} (h : 0 ∈ m) {i : ℕ} (hi : i ≤ CString.strlen m) :
    m[i]? = some (charAt m i) := by
  have htake : (m.take (CString.strlen m + 1))[i]? = m[i]? :=
    List.getElem?_take_of_lt (Nat.lt_succ_of_le hi)
  rw [← htake, take_strlen_succ h, charAt, List.getD_eq_getElem?_getD]
  rw [CString.strlen] at hi
  rcases hi.lt_or_eq with hlt | rfl
  · rw [List.getElem?_append_left hlt, List.getElem?_eq_getElem hlt, Option.getD_some]
  · rw [List.getElem?_append_right le_rfl, List.getElem?_eq_none le_rfl]
    simp

theorem endOffset_le_strlen (errno : ℤ) (m : List UInt8) :
    (CString.strtol errno m).endOffset ≤ CString.strlen m := by
  rw [CString.strtol]
  by_cases hnone : (splitSign ((cstr m).dropWhile isspace)).2.takeWhile isdigit = []
  · rw [if_pos hnone]
    exact Nat.zero_le _
  · rw [if_neg hnone]
    exact Nat.sub_le _ _

/-- The token and what follows it are strings in memory again. -/
theorem strsep_of_mem {delim : UInt8} {s : List UInt8} (h : 0 ∈ s) (hdelim : delim ≠ 0) :
    ∃ token next, strsep delim s = some (token, next) ∧ 0 ∈ token ∧
      cstr token = (CString.strsep delim (cstr s)).1 ∧
      (∀ rest ∈ next, 0 ∈ rest) ∧ next.map cstr = (CString.strsep delim (cstr s)).2 := by
  induction s with
  | nil => simp at h
  | cons c s ih =>
      by_cases hc : c = 0
      · subst hc
        refine ⟨0 :: s, none, ?_, List.mem_cons_self, ?_, by simp, ?_⟩
        · simp [strsep, scan, Ne.symm hdelim]
        · simp [CString.strsep]
        · simp [CString.strsep]
      have hs : 0 ∈ s := (List.mem_cons.mp h).resolve_left (Ne.symm hc)
      by_cases hd : c = delim
      · subst hd
        refine ⟨0 :: s, some s, ?_, List.mem_cons_self, ?_, ?_, ?_⟩
        · simp [strsep, scan, hc]
        · simp [CString.strsep, cstr_cons hc]
        · rintro rest ⟨⟩
          exact hs
        · simp [CString.strsep, cstr_cons hc]
      · obtain ⟨token, next, hstrsep, hzero, htoken, hnext, hrest⟩ := ih hs
        refine ⟨c :: token, next, ?_, List.mem_cons_of_mem _ hzero, ?_, hnext, ?_⟩
        · simp only [strsep, Option.map_eq_some_iff] at hstrsep ⊢
          obtain ⟨i, hi, hpair⟩ := hstrsep
          refine ⟨i + 1, ?_, ?_⟩
          · rw [scan, if_pos (by simp [hc, hd]), hi]
            rfl
          rw [List.getElem?_cons_succ]
          split_ifs at hpair ⊢
          · obtain ⟨rfl, rfl⟩ := Prod.mk.inj hpair
            rfl
          · obtain ⟨rfl, rfl⟩ := Prod.mk.inj hpair
            rfl
        · rw [cstr_cons hc, htoken, cstr_cons hc]
          simp [CString.strsep, hd]
        · rw [hrest, cstr_cons hc]
          simp [CString.strsep, hd, Ne.symm hd]

end Bounded

end CString
