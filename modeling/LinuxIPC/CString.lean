import Mathlib

/-!
# C strings, character arrays and the string functions on them

A pointer to `char` is the list of the bytes that can be read from it on. A string function reads
these up to the first NUL; where the list has no NUL, its end ends the string. An array
`char a[n]` is exactly `n` bytes, with or without a NUL among them.
-/

namespace CString

def ascii (s : String) : List UInt8 :=
  s.toList.map fun c => UInt8.ofNat c.toNat

/-- The C string at a pointer: the bytes before the first NUL. -/
def cstr (m : List UInt8) : List UInt8 :=
  m.takeWhile (· ≠ 0)

def strlen (m : List UInt8) : ℕ :=
  (cstr m).length

/-- The offset of the first `c` of the string, `none` for the null pointer. -/
def strchr (m : List UInt8) (c : UInt8) : Option ℕ :=
  (cstr m).idxOf? c

/-- The difference of the first two characters that differ, the NUL included. -/
def strcmp : List UInt8 → List UInt8 → ℤ
  | [], [] => 0
  | [], b :: _ => -b.toNat
  | a :: _, [] => a.toNat
  | a :: as, b :: bs => if a ≠ b then a.toNat - b.toNat else if a = 0 then 0 else strcmp as bs

def strndup (m : List UInt8) (n : ℕ) : List UInt8 :=
  (cstr m).take n

structure CharArray (n : ℕ) where
  bytes : List UInt8
  size_eq : bytes.length = n
  deriving DecidableEq, Repr

/-- What `strncpy(dst, m, n)` leaves in an array of `n` characters: at most `n` characters of the
string, then NULs up to the end. A string of `n` or more characters leaves no NUL. -/
def strncpy (n : ℕ) (m : List UInt8) : CharArray n where
  bytes := (cstr m).take n ++ List.replicate (n - (cstr m).length) 0
  size_eq := by
    simp only [List.length_append, List.length_take, List.length_replicate]
    omega

/-- One call of `strsep`: the token before the first delimiter, and the pointer left behind, which
is `none` when the token was the last one. -/
def strsep (delim : UInt8) (s : List UInt8) : List UInt8 × Option (List UInt8) :=
  (s.takeWhile (· ≠ delim), if delim ∈ s then some (s.dropWhile (· ≠ delim)).tail else none)

def strsepTokens (delim : UInt8) (s : List UInt8) : List (List UInt8) :=
  s.splitOn delim

theorem notMem_takeWhile_ne (x : UInt8) (s : List UInt8) : x ∉ s.takeWhile (· ≠ x) := by
  intro h
  simpa using List.mem_takeWhile_imp h

theorem decide_ne_of_notMem {x : UInt8} {s : List UInt8} (h : x ∉ s) :
    ∀ c ∈ s, decide (c ≠ x) = true := by
  intro c hc
  have hne : c ≠ x := fun heq => h (heq ▸ hc)
  simpa using hne

theorem takeWhile_ne_eq_self {x : UInt8} {s : List UInt8} (h : x ∉ s) :
    s.takeWhile (· ≠ x) = s :=
  List.takeWhile_eq_self_iff.mpr (decide_ne_of_notMem h)

theorem takeWhile_ne_append_cons {x : UInt8} {s : List UInt8} (h : x ∉ s) (t : List UInt8) :
    (s ++ x :: t).takeWhile (· ≠ x) = s := by
  rw [List.takeWhile_append_of_pos (decide_ne_of_notMem h)]
  simp

theorem zero_notMem_cstr (m : List UInt8) : 0 ∉ cstr m := notMem_takeWhile_ne 0 m

theorem cstr_eq_self {m : List UInt8} (h : 0 ∉ m) : cstr m = m := takeWhile_ne_eq_self h

@[simp] theorem cstr_cstr (m : List UInt8) : cstr (cstr m) = cstr m :=
  cstr_eq_self (zero_notMem_cstr m)

@[simp] theorem cstr_nil : cstr [] = [] := rfl

@[simp] theorem cstr_zero_cons (t : List UInt8) : cstr (0 :: t) = [] := by
  simp [cstr]

theorem cstr_cons {c : UInt8} (h : c ≠ 0) (t : List UInt8) : cstr (c :: t) = c :: cstr t := by
  simp [cstr, h]

theorem cstr_append_of_notMem {s : List UInt8} (h : 0 ∉ s) (t : List UInt8) :
    cstr (s ++ t) = s ++ cstr t :=
  List.takeWhile_append_of_pos (decide_ne_of_notMem h)

theorem takeWhile_ne_append_of_mem {c : UInt8} {m : List UInt8} (h : c ∈ m) (t : List UInt8) :
    (m ++ t).takeWhile (· ≠ c) = m.takeWhile (· ≠ c) := by
  induction m with
  | nil => simp at h
  | cons d m ih =>
      by_cases hd : d = c
      · simp [hd]
      · have hm : c ∈ m := (List.mem_cons.mp h).resolve_left (Ne.symm hd)
        simpa [hd] using ih hm

theorem cstr_append_of_mem {m : List UInt8} (h : 0 ∈ m) (t : List UInt8) :
    cstr (m ++ t) = cstr m :=
  takeWhile_ne_append_of_mem h t

theorem length_cstr_le (m : List UInt8) : (cstr m).length ≤ m.length :=
  (List.takeWhile_prefix _).length_le

theorem zero_mem_iff_length_cstr_lt (m : List UInt8) : 0 ∈ m ↔ (cstr m).length < m.length := by
  constructor
  · intro h
    apply lt_of_le_of_ne (length_cstr_le m)
    intro heq
    have hself : cstr m = m := (List.takeWhile_prefix _).eq_of_length heq
    exact zero_notMem_cstr m (hself.symm ▸ h)
  · intro hlt
    by_contra h
    rw [cstr_eq_self h] at hlt
    exact lt_irrefl _ hlt

/-- A string with its NUL. -/
theorem take_strlen_succ {m : List UInt8} (h : 0 ∈ m) : m.take (strlen m + 1) = cstr m ++ [0] := by
  induction m with
  | nil => simp at h
  | cons c m ih =>
      by_cases hc : c = 0
      · simp [strlen, hc]
      · have hm : 0 ∈ m := (List.mem_cons.mp h).resolve_left (Ne.symm hc)
        rw [strlen, cstr_cons hc, List.length_cons, List.take_succ_cons, List.cons_append]
        exact congrArg _ (ih hm)

theorem strchr_eq_none_iff (m : List UInt8) (c : UInt8) : strchr m c = none ↔ c ∉ cstr m := by
  rw [strchr, List.idxOf?_eq_none_iff]

theorem strcmp_eq_zero_iff (a b : List UInt8) : strcmp a b = 0 ↔ cstr a = cstr b := by
  induction a generalizing b with
  | nil =>
      cases b with
      | nil => simp [strcmp]
      | cons b bs =>
          by_cases hb : b = 0
          · simp [strcmp, hb]
          · have hn : b.toNat ≠ 0 := fun h => hb (UInt8.toNat_inj.mp h)
            simp [strcmp, cstr_cons hb, hn]
  | cons a as ih =>
      cases b with
      | nil =>
          by_cases ha : a = 0
          · simp [strcmp, ha]
          · have hn : a.toNat ≠ 0 := fun h => ha (UInt8.toNat_inj.mp h)
            simp [strcmp, cstr_cons ha, hn]
      | cons b bs =>
          by_cases hab : a = b
          · subst hab
            by_cases ha : a = 0
            · simp [strcmp, ha]
            · simp [strcmp, ha, cstr_cons, ih]
          · have hn : (a.toNat : ℤ) - b.toNat ≠ 0 := by
              intro h
              exact hab (UInt8.toNat_inj.mp (by omega))
            have hc : cstr (a :: as) ≠ cstr (b :: bs) := by
              by_cases ha : a = 0
              · have hb : b ≠ 0 := fun h => hab (ha.trans h.symm)
                simp [ha, cstr_cons hb]
              · by_cases hb : b = 0 <;> simp [hb, ha, cstr_cons, hab]
            simp [strcmp, hab, hn, hc]

theorem CharArray.ext_bytes {n : ℕ} {a b : CharArray n} (h : a.bytes = b.bytes) : a = b := by
  cases a
  cases b
  simpa using h

def CharArray.store {n : ℕ} (a : CharArray n) (m : List UInt8) : CharArray n where
  bytes := (m ++ a.bytes.drop m.length).take n
  size_eq := by
    have hlen := a.size_eq
    simp only [List.length_take, List.length_append, List.length_drop]
    omega

theorem CharArray.bytes_store {n : ℕ} (a : CharArray n) {m : List UInt8} (h : m.length ≤ n) :
    (a.store m).bytes = m ++ a.bytes.drop m.length := by
  apply List.take_of_length_le
  have hlen := a.size_eq
  rw [List.length_append, List.length_drop]
  omega

def memset {n : ℕ} (a : CharArray n) (size : ℕ) : CharArray n := a.store (List.replicate size 0)

def memcpy {n m : ℕ} (dest : CharArray n) (src : CharArray m) (size : ℕ) : CharArray n :=
  dest.store (src.bytes.take size)

theorem memcpy_eq {n : ℕ} (dest src : CharArray n) : memcpy dest src n = src := by
  apply CharArray.ext_bytes
  have hsize := src.size_eq
  rw [memcpy, List.take_of_length_le hsize.le, dest.bytes_store hsize.le, hsize,
    List.drop_of_length_le dest.size_eq.le, List.append_nil]

def snprintf {n : ℕ} (a : CharArray n) (text : List UInt8) : CharArray n :=
  a.store (text.take (n - 1) ++ [0])

def CharArray.Terminated {n : ℕ} (a : CharArray n) : Prop := 0 ∈ a.bytes

instance {n : ℕ} (a : CharArray n) : Decidable a.Terminated :=
  inferInstanceAs (Decidable (0 ∈ a.bytes))

/-- The text an array holds, which is its string or, with no NUL in it, the whole array. -/
def CharArray.text {n : ℕ} (a : CharArray n) : List UInt8 := cstr a.bytes

/-- Only NULs stand behind the first NUL, as `strncpy` leaves an array. -/
def CharArray.Padded {n : ℕ} (a : CharArray n) : Prop := strncpy n a.bytes = a

theorem CharArray.terminated_iff {n : ℕ} (a : CharArray n) : a.Terminated ↔ a.text.length < n := by
  rw [CharArray.Terminated, zero_mem_iff_length_cstr_lt, a.size_eq, CharArray.text]

theorem text_memset {n size : ℕ} (a : CharArray n) (hpos : 0 < size) (hsize : size ≤ n) :
    (memset a size).text = [] := by
  have hlen : (List.replicate size (0 : UInt8)).length ≤ n := by rwa [List.length_replicate]
  obtain ⟨k, rfl⟩ := Nat.exists_eq_succ_of_ne_zero hpos.ne'
  rw [CharArray.text, memset, a.bytes_store hlen, List.replicate_succ, List.cons_append,
    cstr_zero_cons]

/-- A string stored with its NUL, whatever the array held. -/
theorem CharArray.text_store {n : ℕ} (a : CharArray n) {s : List UInt8} (hs : 0 ∉ s)
    (hlen : s.length < n) : (a.store (s ++ [0])).text = s := by
  have hle : (s ++ [0]).length ≤ n := by
    rw [List.length_append]
    exact hlen
  rw [CharArray.text, a.bytes_store hle, List.append_assoc, cstr_append_of_notMem hs,
    List.singleton_append, cstr_zero_cons, List.append_nil]

/-- A text that fits together with its NUL is printed whole. -/
theorem text_snprintf {n : ℕ} (a : CharArray n) {text : List UInt8} (htext : 0 ∉ text)
    (hlen : text.length < n) : (snprintf a text).text = text := by
  rw [snprintf, List.take_of_length_le (by omega), a.text_store htext hlen]

theorem strncpy_congr {n : ℕ} {m m' : List UInt8} (h : cstr m = cstr m') :
    strncpy n m = strncpy n m' := by
  apply CharArray.ext_bytes
  simp only [strncpy, h]

theorem text_strncpy (n : ℕ) (m : List UInt8) : (strncpy n m).text = (cstr m).take n := by
  have hnot : 0 ∉ (cstr m).take n := fun h => zero_notMem_cstr m (List.mem_of_mem_take h)
  simp only [CharArray.text, strncpy]
  rw [cstr_append_of_notMem hnot]
  cases hk : n - (cstr m).length with
  | zero => simp
  | succ k => simp [List.replicate_succ]

theorem terminated_strncpy (n : ℕ) (m : List UInt8) :
    (strncpy n m).Terminated ↔ (cstr m).length < n := by
  rw [CharArray.terminated_iff, text_strncpy, List.length_take]
  omega

theorem terminated_strncpy_bytes {n : ℕ} (a : CharArray n) :
    (strncpy n a.bytes).Terminated ↔ a.Terminated := by
  rw [terminated_strncpy, CharArray.terminated_iff, CharArray.text]

theorem padded_strncpy (n : ℕ) (m : List UInt8) : (strncpy n m).Padded := by
  have htext : cstr (strncpy n m).bytes = (cstr m).take n := text_strncpy n m
  apply CharArray.ext_bytes
  change (cstr (strncpy n m).bytes).take n ++
    List.replicate (n - (cstr (strncpy n m).bytes).length) 0 = (strncpy n m).bytes
  rw [htext]
  simp only [strncpy, List.take_take, min_self, List.length_take]
  congr 2
  omega

theorem strncpy_append {n : ℕ} (a : CharArray n) (t : List UInt8) :
    strncpy n (a.bytes ++ t) = strncpy n a.bytes := by
  by_cases h : 0 ∈ a.bytes
  · exact strncpy_congr (cstr_append_of_mem h t)
  · apply CharArray.ext_bytes
    have hlen := a.size_eq
    simp only [strncpy, cstr_append_of_notMem h, cstr_eq_self h, List.length_append]
    rw [List.take_append_of_le_length hlen.ge, hlen]
    simp

theorem CharArray.Padded.eq_of_text {n : ℕ} {a b : CharArray n} (ha : a.Padded) (hb : b.Padded)
    (h : a.text = b.text) : a = b :=
  ha.symm.trans ((strncpy_congr h).trans hb)

def EightBit (s : String) : Prop := ∀ c ∈ s.toList, 0 < c.toNat ∧ c.toNat < 256

theorem EightBit.append {s t : String} (hs : EightBit s) (ht : EightBit t) : EightBit (s ++ t) := by
  intro c hc
  rw [String.toList_append, List.mem_append] at hc
  rcases hc with hc | hc
  · exact hs c hc
  · exact ht c hc

theorem digit_of_mem_repr {n : ℕ} {c : Char} (h : c ∈ n.repr.toList) :
    48 ≤ c.toNat ∧ c.toNat ≤ 57 := by
  rw [Nat.toList_repr] at h
  exact Char.isDigit_iff_toNat.mp (Nat.isDigit_of_mem_toDigits (by decide) (by decide) h)

theorem eightBit_repr_nat (n : ℕ) : EightBit n.repr := by
  intro c hc
  obtain ⟨hlo, hhi⟩ := digit_of_mem_repr hc
  omega

theorem eightBit_repr (a : ℤ) : EightBit a.repr := by
  rw [Int.repr_eq_if]
  split_ifs with hpos
  · exact eightBit_repr_nat _
  · have hminus : EightBit "-" := by simp [EightBit]
    exact hminus.append (eightBit_repr_nat _)

theorem length_repr_nat_le {n k : ℕ} (hk : 0 < k) (h : n < 10 ^ k) : n.repr.toList.length ≤ k := by
  rw [Nat.toList_repr]
  exact (Nat.length_toDigits_le_iff (by decide) hk).mpr h

theorem length_repr_le {a : ℤ} {k : ℕ} (hk : 0 < k) (h : a.natAbs < 10 ^ k) :
    a.repr.toList.length ≤ k + 1 := by
  rw [Int.repr_eq_if]
  split_ifs with hpos
  · have hlen : a.toNat.repr.toList.length ≤ k := length_repr_nat_le hk (by omega)
    omega
  · have hlen : (-a).toNat.repr.toList.length ≤ k := length_repr_nat_le hk (by omega)
    have hminus : "-".toList.length = 1 := rfl
    rw [String.toList_append, List.length_append]
    omega

theorem EightBit.zero_notMem_ascii {s : String} (h : EightBit s) : 0 ∉ ascii s := by
  intro hmem
  obtain ⟨c, hc, hzero⟩ := List.mem_map.mp hmem
  have hnat : c.toNat % 256 = 0 := by simpa using congrArg UInt8.toNat hzero
  have hrange := h c hc
  omega

theorem EightBit.map_ascii {s : String} (h : EightBit s) :
    (ascii s).map (fun b => Char.ofNat b.toNat) = s.toList := by
  rw [ascii, List.map_map]
  refine (List.map_congr_left fun c hc => ?_).trans (List.map_id s.toList)
  have hmod : c.toNat % 256 = c.toNat := Nat.mod_eq_of_lt (h c hc).2
  simp [hmod]

theorem EightBit.text_strncpy {s : String} (h : EightBit s) {n : ℕ} (hlen : s.toList.length ≤ n) :
    (strncpy n (ascii s)).text = ascii s := by
  rw [CString.text_strncpy, cstr_eq_self h.zero_notMem_ascii, List.take_of_length_le]
  rwa [ascii, List.length_map]

theorem EightBit.eq_of_strncpy {s t : String} (hs : EightBit s) (ht : EightBit t) {n : ℕ}
    (hslen : s.toList.length ≤ n) (htlen : t.toList.length ≤ n)
    (h : strncpy n (ascii s) = strncpy n (ascii t)) : s = t := by
  have hascii : ascii s = ascii t := by
    rw [← hs.text_strncpy hslen, h, ht.text_strncpy htlen]
  rw [← String.toList_inj, ← hs.map_ascii, hascii, ht.map_ascii]

theorem strsepTokens_eq_strsep (delim : UInt8) (s : List UInt8) :
    strsepTokens delim s =
      (strsep delim s).1 :: (strsep delim s).2.elim [] (strsepTokens delim) := by
  induction s with
  | nil => rfl
  | cons c s ih =>
      simp only [strsepTokens, List.splitOn_cons_eq_if_modifyHead] at ih ⊢
      by_cases hc : c = delim
      · simp [strsep, hc, strsepTokens]
      · simp only [beq_iff_eq, hc, if_false, ih, List.modifyHead_cons]
        simp [strsep, hc, Ne.symm hc]

theorem strsepTokens_eq_cons_cons {delim : UInt8} {s : List UInt8} (h : delim ∈ s) :
    ∃ second rest, strsepTokens delim s = s.takeWhile (· ≠ delim) :: second :: rest := by
  rw [strsepTokens_eq_strsep, strsep, if_pos h]
  obtain ⟨second, rest, hs⟩ := List.exists_cons_of_ne_nil
    (List.splitOn_ne_nil delim (s.dropWhile (· ≠ delim)).tail)
  exact ⟨second, rest, congrArg _ hs⟩

theorem mem_of_mem_strsepTokens {delim c : UInt8} {s token : List UInt8}
    (ht : token ∈ strsepTokens delim s) (hc : c ∈ token) : c ∈ s := by
  induction s generalizing token with
  | nil =>
      simp only [strsepTokens, List.splitOn_nil, List.mem_singleton] at ht
      exact absurd hc (by simp [ht])
  | cons d s ih =>
      simp only [strsepTokens, List.splitOn_cons_eq_if_modifyHead] at ih ht
      split_ifs at ht with hd
      · rcases List.mem_cons.mp ht with rfl | ht
        · simp at hc
        · exact List.mem_cons_of_mem _ (ih ht hc)
      · obtain ⟨first, rest, hsplit⟩ := List.exists_cons_of_ne_nil (List.splitOn_ne_nil delim s)
        rw [hsplit, List.modifyHead_cons] at ht
        rw [hsplit] at ih
        rcases List.mem_cons.mp ht with rfl | ht
        · rcases List.mem_cons.mp hc with rfl | hc
          · exact List.mem_cons_self
          · exact List.mem_cons_of_mem _ (ih List.mem_cons_self hc)
        · exact List.mem_cons_of_mem _ (ih (List.mem_cons_of_mem _ ht) hc)

end CString
