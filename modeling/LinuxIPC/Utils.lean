import LinuxIPC.Strtol

/-!
# Reading lines and integers (`utils.c`)

A function of the source that returns 0 for success and -1 for failure is a `Bool` here, or an
`Option` where it also stores a value on success. No pointer passed in this program is null, so
the null checks are left out.
-/

namespace LinuxIPC

open CString

def newline : UInt8 := 10

/-- `while (getchar() != '\n');` on what is left of the standard input, `none` when it never ends:
at end of file `getchar` keeps returning `EOF`. -/
def flushStdin : List UInt8 → Option (List UInt8)
  | [] => none
  | c :: stdin => if c = newline then some stdin else flushStdin stdin

def removeNewline (buffer stdin : List UInt8) : Option (List UInt8 × List UInt8) :=
  match strchr buffer newline with
  | some p => some (buffer.set p 0, stdin)
  | none => (flushStdin stdin).map fun rest => (buffer, rest)

def lineText (buffer : List UInt8) : List UInt8 := (cstr buffer).takeWhile (· ≠ newline)

def checkInt (errno : ℤ) (buffer : List UInt8) : Bool :=
  let r := strtol errno buffer
  if r.endOffset = 0 then false
  else if charAt buffer r.endOffset ≠ 0 then false
  else if (r.value = longMin ∨ r.value = longMax) ∧ r.errno ≠ 0 then false
  else if r.value < intMin ∨ r.value > intMax then false
  else true

/-- `read_int_from_buffer`: the integer stored on success. -/
def readIntFromBuffer (errno : ℤ) (buffer : List UInt8) : Option ℤ :=
  if checkInt errno buffer then some (toInt (strtol errno buffer).value) else none

/-- `read_int_from_buffer(buffer, &n)`, with what `errno` and `n` hold before the call: the value
returned, and what `n` holds then. -/
def readIntFromBufferInto (errno : ℤ) (buffer : List UInt8) (n : ℤ) : ℤ × ℤ :=
  if !checkInt errno buffer then (-1, n)
  else (0, toInt (strtol (strtol errno buffer).errno buffer).value)

/-- A saturated value is out of the range of `int`, so that `errno`, stale or not, decides nothing. -/
theorem checkInt_eq (errno : ℤ) (buffer : List UInt8) :
    checkInt errno buffer = (decide ((strtol 0 buffer).endOffset ≠ 0) &&
      decide (charAt buffer (strtol 0 buffer).endOffset = 0) &&
      decide (intMin ≤ (strtol 0 buffer).value ∧ (strtol 0 buffer).value ≤ intMax)) := by
  simp only [checkInt, strtol_value errno 0, strtol_endOffset errno 0]
  have hmin : longMin < intMin := by decide
  have hmax : intMax < longMax := by decide
  split_ifs with hend hchar hsat hrange
  · simp [hend]
  · simp [hchar]
  · rcases hsat.1 with h | h <;> simp [h] <;> omega
  · rcases hrange with h | h <;> simp <;> omega
  · simp only [ne_eq, not_not] at hchar
    simp only [not_or, not_lt] at hrange
    simp [hend, hchar, hrange.1, hrange.2]

theorem readIntFromBuffer_errno (errno errno' : ℤ) (buffer : List UInt8) :
    readIntFromBuffer errno buffer = readIntFromBuffer errno' buffer := by
  simp only [readIntFromBuffer, checkInt_eq, strtol_value errno errno']

theorem readIntFromBuffer_congr (errno : ℤ) {buffer buffer' : List UInt8}
    (h : cstr buffer = cstr buffer') :
    readIntFromBuffer errno buffer = readIntFromBuffer errno buffer' := by
  simp only [readIntFromBuffer, checkInt_eq, strtol_congr _ h, charAt_congr h]

/-- Neither `errno` nor what lies behind the array decides anything, once there is a NUL in it. -/
theorem readIntFromBuffer_append {n : ℕ} {a : CharArray n} (h : a.Terminated) (errno : ℤ)
    (stack : List UInt8) :
    readIntFromBuffer errno (a.bytes ++ stack) = readIntFromBuffer 0 a.bytes := by
  rw [readIntFromBuffer_errno errno 0]
  exact readIntFromBuffer_congr 0 (cstr_append_of_mem h stack)

theorem readIntFromBuffer_of_text_nil {n : ℕ} {a : CharArray n} (h : a.text = []) :
    readIntFromBuffer 0 a.bytes = none := by
  have hempty : readIntFromBuffer 0 [] = none := by decide
  rw [← hempty]
  exact readIntFromBuffer_congr 0 h

theorem readIntFromBuffer_eq_some {errno : ℤ} {buffer : List UInt8} {n : ℤ}
    (h : readIntFromBuffer errno buffer = some n) : n = (strtol 0 buffer).value := by
  simp only [readIntFromBuffer] at h
  split_ifs at h with hcheck
  simp only [checkInt_eq, Bool.and_eq_true, decide_eq_true_eq] at hcheck
  rw [Option.some.injEq, strtol_value errno 0] at h
  rw [← h, toInt_of_range hcheck.2.1 hcheck.2.2]

/-- The integers are the numerals in the range of `int`. -/
theorem readIntFromBuffer_iff {s : List UInt8} (hs : 0 ∉ s) (n : ℤ) :
    readIntFromBuffer 0 s = some n ↔ Numeral s n ∧ intMin ≤ n ∧ n ≤ intMax := by
  have hlo : longMin < intMin := by decide
  have hhi : intMax < longMax := by decide
  constructor
  · intro h
    have hvalue := readIntFromBuffer_eq_some h
    simp only [readIntFromBuffer] at h
    split_ifs at h with hcheck
    simp only [checkInt_eq, Bool.and_eq_true, decide_eq_true_eq] at hcheck
    obtain ⟨⟨hend, hchar⟩, hrange⟩ := hcheck
    obtain ⟨v, hnumeral, hv⟩ := numeral_of_strtol hs hend hchar
    obtain rfl : v = n := by omega
    exact ⟨hnumeral, hvalue ▸ hrange⟩
  · rintro ⟨hnumeral, hrange⟩
    obtain ⟨hend, hne, hvalue⟩ := hnumeral.strtol_eq
    have hn : (strtol 0 s).value = n := by omega
    have hlength : s.length ≠ 0 := fun h => hne (List.length_eq_zero_iff.mp h)
    have hchar : charAt s s.length = 0 := by simp [charAt, cstr_eq_self hs]
    have hcheck : checkInt 0 s = true := by
      rw [checkInt_eq, hend, hn, hchar]
      simp [hlength, hrange]
    rw [readIntFromBuffer, if_pos hcheck, hn, toInt_of_range hrange.1 hrange.2]

theorem readIntFromBufferInto_eq (errno : ℤ) (buffer : List UInt8) (n : ℤ) :
    readIntFromBufferInto errno buffer n =
      (readIntFromBuffer errno buffer).elim (-1, n) fun v => (0, v) := by
  have hvalue := strtol_value (strtol errno buffer).errno errno buffer
  unfold readIntFromBufferInto readIntFromBuffer
  cases checkInt errno buffer with
  | false => rfl
  | true => simp [hvalue]

/-- Whatever `errno` holds, the integers are accepted and nothing else is. -/
theorem read_int_accepts_ints (errno : ℤ) (buffer : List UInt8) (n : ℤ) :
    (∀ v, readIntFromBufferInto errno buffer n = (0, v) ↔
      Numeral (cstr buffer) v ∧ intMin ≤ v ∧ v ≤ intMax) ∧
    ((readIntFromBufferInto errno buffer n).1 ≠ 0 →
      readIntFromBufferInto errno buffer n = (-1, n)) := by
  have hread : readIntFromBuffer errno buffer = readIntFromBuffer 0 (cstr buffer) := by
    rw [readIntFromBuffer_errno errno 0]
    exact readIntFromBuffer_congr 0 (cstr_cstr buffer).symm
  have hiff := readIntFromBuffer_iff (zero_notMem_cstr buffer)
  rw [readIntFromBufferInto_eq, hread]
  cases h : readIntFromBuffer 0 (cstr buffer) with
  | none =>
      refine ⟨fun v => ?_, fun _ => rfl⟩
      rw [← hiff v, h]
      simp
  | some w =>
      refine ⟨fun v => ?_, fun hne => absurd rfl hne⟩
      rw [← hiff v, h]
      simp

theorem zero_notMem_lineText (buffer : List UInt8) : 0 ∉ lineText buffer := fun h =>
  zero_notMem_cstr buffer ((List.takeWhile_prefix _).subset h)

theorem cstr_set_of_strchr {buffer : List UInt8} {p : ℕ} (h : strchr buffer newline = some p) :
    cstr (buffer.set p 0) = lineText buffer := by
  induction buffer generalizing p with
  | nil => simp [strchr] at h
  | cons c buffer ih =>
      by_cases hc : c = 0
      · simp [strchr, hc] at h
      · rw [strchr, cstr_cons hc, List.idxOf?_cons] at h
        rw [lineText, cstr_cons hc]
        by_cases hn : c = newline
        · simp only [hn, beq_self_eq_true, if_true, Option.some.injEq] at h
          simp [← h, hn]
        · simp only [beq_iff_eq, hn, if_false, Option.map_eq_some_iff] at h
          obtain ⟨q, hq, rfl⟩ := h
          rw [List.set_cons_succ, cstr_cons hc, ih hq]
          simp [lineText, hn]

theorem removeNewline_eq_some {buffer stdin buffer' rest : List UInt8}
    (h : removeNewline buffer stdin = some (buffer', rest)) : cstr buffer' = lineText buffer := by
  rw [removeNewline] at h
  cases hp : strchr buffer newline with
  | some p =>
      simp only [hp, Option.some.injEq, Prod.mk.injEq] at h
      rw [← h.1, cstr_set_of_strchr hp]
  | none =>
      simp only [hp, Option.map_eq_some_iff, Prod.mk.injEq] at h
      obtain ⟨_, -, rfl, -⟩ := h
      have hmem : newline ∉ cstr buffer := (strchr_eq_none_iff buffer newline).mp hp
      exact (takeWhile_ne_eq_self hmem).symm

end LinuxIPC
