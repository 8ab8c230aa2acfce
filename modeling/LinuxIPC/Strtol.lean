import LinuxIPC.CString

/-!
# Decimal conversion in the C locale

`strtol` with base 10 and a 64-bit `long`: white space is skipped, a sign is optional, the longest
run of digits is converted, and a value outside the range of `long` saturates and reports
`ERANGE`. Without a digit nothing is converted and the end pointer is the pointer itself.
-/

namespace CString

def longMin : ℤ := -2 ^ 63
def longMax : ℤ := 2 ^ 63 - 1
def intMin : ℤ := -2 ^ 31
def intMax : ℤ := 2 ^ 31 - 1

def erange : ℤ := 34

def isspace (c : UInt8) : Bool := c = 32 || (9 ≤ c && c ≤ 13)

def isdigit (c : UInt8) : Bool := 48 ≤ c && c ≤ 57

def decimal (digits : List UInt8) : ℕ :=
  digits.foldl (fun n d => 10 * n + (d.toNat - 48)) 0

def splitSign (s : List UInt8) : Bool × List UInt8 :=
  match s with
  | [] => (false, [])
  | c :: cs => if c = 45 then (true, cs) else if c = 43 then (false, cs) else (false, c :: cs)

/-- The result of `strtol`: the converted value, the distance of the end pointer from the start,
and `errno` after the call. -/
structure Strtol where
  value : ℤ
  endOffset : ℕ
  errno : ℤ
  deriving DecidableEq, Repr

/-- `strtol(nptr, &end_ptr, 10)`, called with `errno` as given. -/
def strtol (errno : ℤ) (nptr : List UInt8) : Strtol :=
  let signed := splitSign ((cstr nptr).dropWhile isspace)
  let digits := signed.2.takeWhile isdigit
  let denoted : ℤ := if signed.1 then -(decimal digits) else decimal digits
  if digits = [] then ⟨0, 0, errno⟩
  else
    { value := max longMin (min longMax denoted)
      endOffset := strlen nptr - (signed.2.dropWhile isdigit).length
      errno := if longMin ≤ denoted ∧ denoted ≤ longMax then errno else erange }

def charAt (m : List UInt8) (i : ℕ) : UInt8 := (cstr m).getD i 0

theorem charAt_congr {m m' : List UInt8} (h : cstr m = cstr m') (i : ℕ) :
    charAt m i = charAt m' i := by
  rw [charAt, charAt, h]

def toInt (v : ℤ) : ℤ := (BitVec.ofInt 32 v).toInt

theorem toInt_of_range {v : ℤ} (hlo : intMin ≤ v) (hhi : v ≤ intMax) : toInt v = v := by
  simp only [intMin, intMax] at hlo hhi
  rw [toInt, BitVec.toInt_ofInt]
  apply Int.bmod_eq_of_le
  · norm_num
    omega
  · norm_num
    omega

theorem strtol_congr (errno : ℤ) {m m' : List UInt8} (h : cstr m = cstr m') :
    strtol errno m = strtol errno m' := by
  simp only [strtol, strlen, h]

theorem strtol_value (errno errno' : ℤ) (nptr : List UInt8) :
    (strtol errno nptr).value = (strtol errno' nptr).value := by
  simp only [strtol]
  split_ifs <;> rfl

theorem strtol_endOffset (errno errno' : ℤ) (nptr : List UInt8) :
    (strtol errno nptr).endOffset = (strtol errno' nptr).endOffset := by
  simp only [strtol]
  split_ifs <;> rfl

example : strtol 0 (ascii " -12x") = ⟨-12, 4, 0⟩ := by decide
example : strtol 0 (ascii "99999999999999999999") = ⟨longMax, 20, erange⟩ := by decide

def Digits (s : List UInt8) : Prop := s ≠ [] ∧ ∀ c ∈ s, isdigit c = true

instance (s : List UInt8) : Decidable (Digits s) :=
  inferInstanceAs (Decidable (_ ∧ _))

/-- The strings that are converted whole, and the numbers they stand for: white space, a sign or
none, digits. -/
inductive Numeral : List UInt8 → ℤ → Prop
  | unsigned (blanks digits : List UInt8) (hblanks : ∀ c ∈ blanks, isspace c = true)
      (hdigits : Digits digits) : Numeral (blanks ++ digits) (decimal digits)
  | plus (blanks digits : List UInt8) (hblanks : ∀ c ∈ blanks, isspace c = true)
      (hdigits : Digits digits) : Numeral (blanks ++ 43 :: digits) (decimal digits)
  | minus (blanks digits : List UInt8) (hblanks : ∀ c ∈ blanks, isspace c = true)
      (hdigits : Digits digits) : Numeral (blanks ++ 45 :: digits) (-(decimal digits))

theorem isdigit_iff (c : UInt8) : isdigit c = true ↔ 48 ≤ c.toNat ∧ c.toNat ≤ 57 := by
  simp [isdigit, UInt8.le_iff_toNat_le]

theorem isspace_iff (c : UInt8) : isspace c = true ↔ c.toNat = 32 ∨ 9 ≤ c.toNat ∧ c.toNat ≤ 13 := by
  simp [isspace, UInt8.le_iff_toNat_le, ← UInt8.toNat_inj]

theorem isspace_of_isdigit {c : UInt8} (h : isdigit c = true) : ¬ isspace c = true := by
  rw [isdigit_iff] at h
  rw [isspace_iff]
  omega

/-- Only white space, signs and digits stand in a numeral. -/
theorem Numeral.notMem {s : List UInt8} {v : ℤ} (h : Numeral s v) {c : UInt8}
    (hspace : ¬ isspace c = true) (hdigit : ¬ isdigit c = true) (hplus : c ≠ 43) (hminus : c ≠ 45) :
    c ∉ s := by
  cases h with
  | unsigned blanks digits hblanks hdigits =>
      simp only [List.mem_append, not_or]
      exact ⟨fun hm => hspace (hblanks c hm), fun hm => hdigit (hdigits.2 c hm)⟩
  | plus blanks digits hblanks hdigits =>
      simp only [List.mem_append, List.mem_cons, not_or]
      exact ⟨fun hm => hspace (hblanks c hm), hplus, fun hm => hdigit (hdigits.2 c hm)⟩
  | minus blanks digits hblanks hdigits =>
      simp only [List.mem_append, List.mem_cons, not_or]
      exact ⟨fun hm => hspace (hblanks c hm), hminus, fun hm => hdigit (hdigits.2 c hm)⟩

theorem Numeral.zero_notMem {s : List UInt8} {v : ℤ} (h : Numeral s v) : 0 ∉ s :=
  h.notMem (by decide) (by decide) (by decide) (by decide)

theorem dropWhile_isspace {blanks : List UInt8} (hblanks : ∀ c ∈ blanks, isspace c = true)
    {c : UInt8} (hc : ¬ isspace c = true) (rest : List UInt8) :
    (blanks ++ c :: rest).dropWhile isspace = c :: rest := by
  rw [List.dropWhile_append_of_pos hblanks, List.dropWhile_cons_of_neg hc]

/-- A numeral, as `strtol` takes it apart. -/
theorem numeral_iff (s : List UInt8) (v : ℤ) :
    Numeral s v ↔ ∃ neg digits, splitSign (s.dropWhile isspace) = (neg, digits) ∧ Digits digits ∧
      v = if neg then -(decimal digits : ℤ) else decimal digits := by
  constructor
  · intro h
    cases h with
    | unsigned blanks digits hblanks hdigits =>
        refine ⟨false, digits, ?_, hdigits, rfl⟩
        obtain ⟨c, rest, rfl⟩ := List.exists_cons_of_ne_nil hdigits.1
        have hc := hdigits.2 c List.mem_cons_self
        rw [dropWhile_isspace hblanks (isspace_of_isdigit hc)]
        rw [isdigit_iff] at hc
        have hminus : c ≠ 45 := by
          rintro rfl
          simp at hc
        have hplus : c ≠ 43 := by
          rintro rfl
          simp at hc
        rw [splitSign, if_neg hminus, if_neg hplus]
    | plus blanks digits hblanks hdigits =>
        refine ⟨false, digits, ?_, hdigits, rfl⟩
        rw [dropWhile_isspace hblanks (by decide)]
        rfl
    | minus blanks digits hblanks hdigits =>
        refine ⟨true, digits, ?_, hdigits, rfl⟩
        rw [dropWhile_isspace hblanks (by decide)]
        rfl
  · rintro ⟨neg, digits, hsplit, hdigits, rfl⟩
    have hblanks : ∀ c ∈ s.takeWhile isspace, isspace c = true := fun c hc =>
      List.mem_takeWhile_imp hc
    rw [← List.takeWhile_append_dropWhile (p := isspace) (l := s)]
    cases ht : s.dropWhile isspace with
    | nil =>
        simp only [ht, splitSign, Prod.mk.injEq] at hsplit
        exact absurd hsplit.2.symm hdigits.1
    | cons c rest =>
        rw [ht, splitSign] at hsplit
        split_ifs at hsplit with hminus hplus
        · obtain ⟨rfl, rfl⟩ := Prod.mk.inj hsplit
          rw [hminus]
          exact Numeral.minus _ _ hblanks hdigits
        · obtain ⟨rfl, rfl⟩ := Prod.mk.inj hsplit
          rw [hplus]
          exact Numeral.plus _ _ hblanks hdigits
        · obtain ⟨rfl, rfl⟩ := Prod.mk.inj hsplit
          exact Numeral.unsigned _ _ hblanks hdigits

theorem strtol_eq_of_notMem (errno : ℤ) {s rest : List UInt8} {neg : Bool} (hs : 0 ∉ s)
    (hsplit : splitSign (s.dropWhile isspace) = (neg, rest)) :
    strtol errno s =
      let denoted : ℤ :=
        if neg then -(decimal (rest.takeWhile isdigit)) else decimal (rest.takeWhile isdigit)
      if rest.takeWhile isdigit = [] then ⟨0, 0, errno⟩
      else ⟨max longMin (min longMax denoted), s.length - (rest.dropWhile isdigit).length,
        if longMin ≤ denoted ∧ denoted ≤ longMax then errno else erange⟩ := by
  simp only [strtol, strlen, cstr_eq_self hs, hsplit]

/-- Only a numeral is converted up to its end. -/
theorem numeral_of_strtol {s : List UInt8} (hs : 0 ∉ s) (hend : (strtol 0 s).endOffset ≠ 0)
    (hchar : charAt s (strtol 0 s).endOffset = 0) :
    ∃ v, Numeral s v ∧ (strtol 0 s).value = max longMin (min longMax v) := by
  rcases hsplit : splitSign (s.dropWhile isspace) with ⟨neg, rest⟩
  have hstrtol := strtol_eq_of_notMem 0 hs hsplit
  by_cases hnone : rest.takeWhile isdigit = []
  · rw [hstrtol, if_pos hnone] at hend
    exact absurd rfl hend
  · rw [hstrtol, if_neg hnone] at hend hchar ⊢
    simp only [charAt, cstr_eq_self hs] at hend hchar
    have hfar : s.length ≤ s.length - (rest.dropWhile isdigit).length := by
      by_contra hlt
      rw [List.getD_eq_getElem _ _ (not_le.mp hlt)] at hchar
      exact hs (hchar ▸ List.getElem_mem _)
    have hall : rest.dropWhile isdigit = [] := List.length_eq_zero_iff.mp (by omega)
    have hdigits : rest.takeWhile isdigit = rest := by
      rw [← List.append_nil (rest.takeWhile isdigit), ← hall, List.takeWhile_append_dropWhile]
    rw [hdigits] at hnone ⊢
    refine ⟨_, (numeral_iff s _).mpr ⟨neg, rest, hsplit, ⟨hnone, ?_⟩, rfl⟩, rfl⟩
    exact List.takeWhile_eq_self_iff.mp hdigits

theorem Numeral.strtol_eq {s : List UInt8} {v : ℤ} (h : Numeral s v) :
    (strtol 0 s).endOffset = s.length ∧ s ≠ [] ∧
      (strtol 0 s).value = max longMin (min longMax v) := by
  obtain ⟨neg, digits, hsplit, hdigits, rfl⟩ := (numeral_iff s v).mp h
  have htake := List.takeWhile_eq_self_iff.mpr hdigits.2
  have hdrop := List.dropWhile_eq_nil_iff.mpr hdigits.2
  have hne : s ≠ [] := by
    rintro rfl
    simp only [List.dropWhile_nil, splitSign, Prod.mk.injEq] at hsplit
    exact hdigits.1 hsplit.2.symm
  rw [strtol_eq_of_notMem 0 h.zero_notMem hsplit, htake, hdrop, if_neg hdigits.1]
  exact ⟨rfl, hne, rfl⟩

theorem Numeral.ne_nil {s : List UInt8} {v : ℤ} (h : Numeral s v) : s ≠ [] := h.strtol_eq.2.1

theorem Numeral.eq {s : List UInt8} {v w : ℤ} (hv : Numeral s v) (hw : Numeral s w) : v = w := by
  obtain ⟨neg, digits, hsplit, -, rfl⟩ := (numeral_iff s v).mp hv
  obtain ⟨neg', digits', hsplit', -, rfl⟩ := (numeral_iff s w).mp hw
  obtain ⟨rfl, rfl⟩ := Prod.mk.inj (hsplit.symm.trans hsplit')
  rfl

theorem Digits.numeral {s : List UInt8} (h : Digits s) : Numeral s (decimal s) :=
  Numeral.unsigned [] s (by simp) h

theorem Digits.notMem {s : List UInt8} (h : Digits s) {c : UInt8} (hc : ¬ isdigit c = true) :
    c ∉ s := fun hm => hc (h.2 c hm)

theorem decimal_append_digit (s : List UInt8) (d : UInt8) :
    decimal (s ++ [d]) = 10 * decimal s + (d.toNat - 48) := by
  rw [decimal, List.foldl_append]
  rfl

theorem decimal_append (s t : List UInt8) :
    decimal (s ++ t) = decimal s * 10 ^ t.length + decimal t := by
  induction t using List.reverseRecOn with
  | nil => simp [decimal]
  | append_singleton t d ih =>
      rw [← List.append_assoc, decimal_append_digit, ih, decimal_append_digit, List.length_append,
        List.length_singleton, pow_succ]
      ring

theorem decimal_eq_zero_iff {t : List UInt8} (h : ∀ c ∈ t, isdigit c = true) :
    decimal t = 0 ↔ ∀ c ∈ t, c = 48 := by
  induction t using List.reverseRecOn with
  | nil => simp [decimal]
  | append_singleton t d ih =>
      have hd := (isdigit_iff d).mp (h d (List.mem_append_right _ List.mem_cons_self))
      have hzero : d = 48 ↔ d.toNat = 48 := UInt8.toNat_inj.symm
      have hdigits := ih fun c hc => h c (List.mem_append_left _ hc)
      rw [decimal_append_digit, List.forall_mem_append, List.forall_mem_singleton, hzero, ← hdigits]
      omega

theorem splitSign_append {s : List UInt8} (h : s ≠ []) (t : List UInt8) :
    splitSign (s ++ t) = ((splitSign s).1, (splitSign s).2 ++ t) := by
  obtain ⟨c, s, rfl⟩ := List.exists_cons_of_ne_nil h
  rw [List.cons_append, splitSign, splitSign]
  split_ifs <;> rfl

/-- A numeral may go on with the same value only if it is zero and goes on with zeros. -/
theorem Numeral.append_iff {s t : List UInt8} {v : ℤ} (h : Numeral s v) (ht : t ≠ []) :
    Numeral (s ++ t) v ↔ v = 0 ∧ ∀ c ∈ t, c = 48 := by
  obtain ⟨neg, digits, hsplit, hdigits, hv⟩ := (numeral_iff s v).mp h
  have hne : s.dropWhile isspace ≠ [] := by
    intro hnil
    rw [hnil, splitSign, Prod.mk.injEq] at hsplit
    exact hdigits.1 hsplit.2.symm
  have hsplit' : splitSign ((s ++ t).dropWhile isspace) = (neg, digits ++ t) := by
    rw [List.dropWhile_append, if_neg (by simpa using hne), splitSign_append hne, hsplit]
  have hvalue := decimal_append digits t
  have hpow : 10 ≤ 10 ^ t.length := by
    have hpos := List.length_pos_iff.mpr ht
    exact Nat.le_self_pow hpos.ne' 10
  rw [numeral_iff, hsplit']
  constructor
  · rintro ⟨neg', digits', hpair, hall, hv'⟩
    obtain ⟨rfl, rfl⟩ := Prod.mk.inj hpair
    have hsame : decimal digits = decimal (digits ++ t) := by
      rw [hv] at hv'
      split_ifs at hv' <;> omega
    have hzero : decimal digits = 0 := by
      by_contra hpos
      have hgrow : decimal digits * 10 ≤ decimal digits * 10 ^ t.length :=
        Nat.mul_le_mul_left _ hpow
      omega
    rw [← hsame, hzero, Nat.zero_mul, Nat.zero_add] at hvalue
    refine ⟨by rw [hv, hzero]; simp, ?_⟩
    exact (decimal_eq_zero_iff fun c hc => hall.2 c (List.mem_append_right _ hc)).mp hvalue.symm
  · rintro ⟨rfl, hzeros⟩
    have hrest : ∀ c ∈ t, isdigit c = true := fun c hc => by rw [hzeros c hc]; rfl
    have hzero : decimal digits = 0 := by
      split_ifs at hv <;> omega
    rw [hzero, (decimal_eq_zero_iff hrest).mpr hzeros, Nat.zero_mul] at hvalue
    refine ⟨neg, digits ++ t, rfl, ⟨by simp [hdigits.1], fun c hc => ?_⟩, by rw [hvalue]; simp⟩
    rcases List.mem_append.mp hc with hc | hc
    · exact hdigits.2 c hc
    · exact hrest c hc

def decimalText (n : ℕ) : List UInt8 := ascii n.repr

theorem toNat_digit {n : ℕ} {c : Char} (h : c ∈ n.repr.toList) :
    (UInt8.ofNat c.toNat).toNat = c.toNat := by
  have hhi := (digit_of_mem_repr h).2
  exact UInt8.toNat_ofNat_of_lt' (hhi.trans_lt (by decide))

theorem digits_decimalText (n : ℕ) : Digits (decimalText n) := by
  constructor
  · have hne : n.repr.toList ≠ [] := by
      rw [Nat.toList_repr]
      exact Nat.toDigits_ne_nil
    exact fun hnil => hne (List.map_eq_nil_iff.mp hnil)
  · intro b hb
    obtain ⟨c, hc, rfl⟩ := List.mem_map.mp hb
    rw [isdigit_iff, toNat_digit hc]
    exact digit_of_mem_repr hc

theorem decimal_decimalText (n : ℕ) : decimal (decimalText n) = n := by
  have hvalue := Nat.ofDigitChars_ten_toDigits (n := n)
  rw [Nat.ofDigitChars_eq_foldl, ← Nat.toList_repr] at hvalue
  rw [decimal, decimalText, ascii, List.foldl_map]
  refine Eq.trans (List.foldl_ext _ _ _ fun m c hc => ?_) hvalue
  rw [toNat_digit hc]
  rfl

theorem length_decimalText_le {n k : ℕ} (hk : 0 < k) (h : n < 10 ^ k) :
    (decimalText n).length ≤ k := by
  rw [decimalText, ascii, List.length_map]
  exact length_repr_nat_le hk h

end CString
