import LinuxIPC.IntegerPrompt
import LinuxIPC.Summation

/-!
# The summation client (`unix_domain_sockets/client.c`)

The client sends the integers typed, each in one write, up to a 0, and then shows what the server
answers. A line that is no integer comes to the loop test with the value of the line before. Which
integers are sent depends on the lines alone, not on what the buffer held.
-/

namespace LinuxIPC

open CString

namespace SummationClient

/-- The client is in its loop, waits for the result, is in a `read_line` that does not return, or has
exited. -/
inductive Phase
  | sending
  | receiving
  | endless
  | closed
  deriving DecidableEq, Repr

inductive WriteResult
  | whole
  | epipe
  | failed
  deriving DecidableEq, Repr

structure Client where
  phase : Phase
  stdin : List UInt8
  value : BitVec 32
  deriving DecidableEq, Repr

def Client.init (stdin : List UInt8) : Client := ⟨.sending, stdin, -1⟩

def loopTest (value : BitVec 32) : Phase := if value = 0 then .receiving else .sending

/-- The body of the loop of `main`, and the int that was written. -/
def Client.enter (c : Client) (errno : ℤ) (buffer : CharArray intLen) (stack : List UInt8)
    (result : WriteResult) : Client × Option (BitVec 32) :=
  match readLine buffer c.stdin with
  | .eof => ({ c with phase := .closed }, none)
  | .endless => ({ c with phase := .endless }, none)
  | .line input stdin =>
    match readIntFromBuffer errno (input.bytes ++ stack) with
    | none => (⟨loopTest c.value, stdin, c.value⟩, none)
    | some n =>
      let value := BitVec.ofInt 32 n
      match result with
      | .whole => (⟨loopTest value, stdin, value⟩, some value)
      | .epipe => (⟨.closed, stdin, value⟩, none)
      | .failed => (⟨.receiving, stdin, value⟩, none)

/-- The text shown of what one call of `read` delivers, the last character of the buffer overwritten
by a NUL. -/
def shownText (chunk : Chunk) : List UInt8 := cstr ((received chunk).bytes.set (bufferSize - 1) 0)

def resultChunk (result : CharArray bufferSize) : Chunk := ⟨result.bytes, result.size_eq.le⟩

theorem length_flushStdin_le {stdin rest : List UInt8} (h : flushStdin stdin = some rest) :
    rest.length ≤ stdin.length := by
  induction stdin with
  | nil => simp [flushStdin] at h
  | cons c stdin ih =>
      by_cases hc : c = newline
      · rw [flushStdin, if_pos hc] at h
        rw [← Option.some.inj h, List.length_cons]
        exact Nat.le_succ _
      · rw [flushStdin, if_neg hc] at h
        exact (ih h).trans (Nat.le_succ _)

theorem length_fgetsScan_lt {n : ℕ} (hn : 0 < n) {stdin : List UInt8} (hne : stdin ≠ []) :
    (fgetsScan n stdin).2.length < stdin.length := by
  induction n generalizing stdin with
  | zero => exact absurd hn (lt_irrefl 0)
  | succ n ih =>
      cases stdin with
      | nil => exact absurd rfl hne
      | cons c stdin =>
          by_cases hc : c = newline
          · simp [fgetsScan, hc]
          · simp only [fgetsScan, if_neg hc, List.length_cons]
            cases n with
            | zero => simp [fgetsScan]
            | succ n =>
                cases stdin with
                | nil => simp [fgetsScan]
                | cons d stdin => exact (ih n.succ_pos (by simp)).trans (Nat.lt_succ_self _)

variable {n : ℕ} {buffer b : CharArray n} {stdin rest : List UInt8}

theorem length_lt_of_readLine (hn : 1 < n) (h : readLine buffer stdin = .line b rest) :
    rest.length < stdin.length := by
  have hne : stdin ≠ [] := List.ne_nil_of_mem (newline_mem_of_readLine (Nat.zero_lt_of_lt hn) h)
  have hscan := length_fgetsScan_lt (Nat.sub_pos_of_lt hn) hne
  have hremove := removeNewline_of_readLine h
  unfold removeNewline at hremove
  split at hremove
  · rw [← (Prod.mk.inj (Option.some.inj hremove)).2]
    exact hscan
  · obtain ⟨_, hflush, heq⟩ := Option.map_eq_some_iff.mp hremove
    rw [← (Prod.mk.inj heq).2]
    exact (length_flushStdin_le hflush).trans_lt hscan

/-- `remove_newline` looks no further than the NUL. -/
theorem removeNewline_snd (s t t' stdin : List UInt8) :
    (removeNewline (s ++ 0 :: t) stdin).map Prod.snd =
      (removeNewline (s ++ 0 :: t') stdin).map Prod.snd := by
  have hstrchr : ∀ u, strchr (s ++ 0 :: u) newline = strchr (s ++ [0]) newline := by
    intro u
    rw [strchr, strchr, ← List.singleton_append, ← List.append_assoc, cstr_append_of_mem (by simp)]
  simp only [removeNewline, hstrchr]
  split
  · rfl
  · rw [Option.map_map, Option.map_map]
    rfl

theorem readLine_of_other (hn : 1 < n) (h : readLine buffer stdin = .line b rest)
    (buffer' : CharArray n) :
    ∃ b', readLine buffer' stdin = .line b' rest ∧ b'.text = b.text := by
  have hpos : 0 < n := Nat.zero_lt_of_lt hn
  have hne : stdin ≠ [] := List.ne_nil_of_mem (newline_mem_of_readLine (Nat.zero_lt_of_lt hn) h)
  have hle := length_fgetsScan_le (n - 1) stdin
  have hstore : ((fgetsScan (n - 1) stdin).1 ++ [0]).length ≤ n := by
    rw [List.length_append, List.length_singleton]
    omega
  have hremove := removeNewline_of_readLine h
  rw [buffer.bytes_store hstore, List.append_assoc, List.singleton_append] at hremove
  have hsnd := congrArg (Option.map Prod.snd) hremove
  rw [removeNewline_snd _ _
    (buffer'.bytes.drop ((fgetsScan (n - 1) stdin).1 ++ [0]).length)] at hsnd
  obtain ⟨⟨bytes, _⟩, hremove', rfl⟩ := Option.map_eq_some_iff.mp hsnd
  rw [← List.singleton_append, ← List.append_assoc, ← buffer'.bytes_store hstore] at hremove'
  obtain ⟨b', hb', -⟩ := readLine_eq_line (fgets_eq buffer' hne) hremove'
  exact ⟨b', hb', (text_of_readLine hpos hb').trans (text_of_readLine hpos h).symm⟩

def lineInt (input : CharArray intLen) : Option (BitVec 32) :=
  (readIntFromBuffer 0 input.bytes).map (BitVec.ofInt 32)

/-- The ints of the lines of the standard input, as `read_line` and `read_int_from_buffer` take
them: `read_line` cuts a line after `INT_LEN - 1` characters. -/
def typedInts (stdin : List UInt8) : List (BitVec 32) :=
  match _hline : readLine (strncpy intLen []) stdin with
  | .line input rest => (lineInt input).toList ++ typedInts rest
  | _ => []
termination_by stdin.length
decreasing_by exact length_lt_of_readLine (by decide) _hline

theorem typedInts_of_line {input : CharArray intLen} {stdin rest : List UInt8}
    (h : readLine (strncpy intLen []) stdin = .line input rest) :
    typedInts stdin = (lineInt input).toList ++ typedInts rest := by
  rw [typedInts]
  split
  · rename_i input' rest' h'
    obtain ⟨rfl, rfl⟩ := ReadLine.line.inj (h.symm.trans h')
    rfl
  · rename_i hnot
    exact absurd h (hnot input rest)

/-- The ints do not depend on the buffer of the client, nor on what lies behind it. -/
theorem typedInts_of_readLine {buffer input : CharArray intLen} {stdin rest : List UInt8}
    (h : readLine buffer stdin = .line input rest) (errno : ℤ) (stack : List UInt8) :
    typedInts stdin = ((readIntFromBuffer errno (input.bytes ++ stack)).map
      (BitVec.ofInt 32)).toList ++ typedInts rest := by
  obtain ⟨input', h', htext⟩ := readLine_of_other (by decide) h (strncpy intLen [])
  have hterm : input.Terminated := terminated_of_readLine (by decide) h
  rw [typedInts_of_line h', lineInt, readIntFromBuffer_append hterm,
    readIntFromBuffer_congr 0 htext]

def lineInts (lines : List (List UInt8)) : List (BitVec 32) :=
  lines.filterMap fun line => (readIntFromBuffer 0 line).map (BitVec.ofInt 32)

theorem typedInts_lines {lines : List (List UInt8)}
    (hlines : ∀ line ∈ lines, newline ∉ line ∧ 0 ∉ line) :
    typedInts (lines.flatMap (· ++ [newline])) = lineInts (lines.map (List.take (intLen - 1))) := by
  induction lines with
  | nil =>
      rw [List.flatMap_nil, typedInts]
      rfl
  | cons line lines ih =>
      obtain ⟨hnewline, hzero⟩ := hlines line List.mem_cons_self
      obtain ⟨input, hread, -, htext⟩ := readLine_append_newline (by decide) (strncpy intLen [])
        hnewline hzero (lines.flatMap (· ++ [newline]))
      have hint : lineInt input = (readIntFromBuffer 0 (line.take (intLen - 1))).map
          (BitVec.ofInt 32) := by
        rw [lineInt, readIntFromBuffer_congr 0 (cstr_cstr input.bytes).symm]
        exact congrArg (fun text => (readIntFromBuffer 0 text).map _) htext
      rw [List.flatMap_cons, List.append_assoc, List.singleton_append, typedInts_of_line hread, hint,
        ih fun line' hmem => hlines line' (List.mem_cons_of_mem _ hmem)]
      simp only [lineInts, List.map_cons, List.filterMap_cons]
      cases readIntFromBuffer 0 (line.take (intLen - 1)) <;> rfl

inductive EnterEffect (c : Client) : Client × Option (BitVec 32) → Prop
  | ended (phase : Phase) (hphase : phase = .closed ∨ phase = .endless) :
      EnterEffect c ({ c with phase := phase }, none)
  | skipped (stdin : List UInt8) (htyped : typedInts c.stdin = typedInts stdin) :
      EnterEffect c (⟨loopTest c.value, stdin, c.value⟩, none)
  | sent (stdin : List UInt8) (value : BitVec 32)
      (htyped : typedInts c.stdin = value :: typedInts stdin) :
      EnterEffect c (⟨loopTest value, stdin, value⟩, some value)
  | failed (phase : Phase) (stdin : List UInt8) (value : BitVec 32)
      (hphase : phase = .closed ∨ phase = .receiving)
      (htyped : typedInts c.stdin = value :: typedInts stdin) :
      EnterEffect c (⟨phase, stdin, value⟩, none)

theorem Client.enter_effect (c : Client) (errno : ℤ) (buffer : CharArray intLen)
    (stack : List UInt8) (result : WriteResult) :
    EnterEffect c (c.enter errno buffer stack result) := by
  unfold Client.enter
  cases hline : readLine buffer c.stdin with
  | eof => exact EnterEffect.ended .closed (Or.inl rfl)
  | endless => exact EnterEffect.ended .endless (Or.inr rfl)
  | line input stdin =>
      have htyped := typedInts_of_readLine hline errno stack
      cases hread : readIntFromBuffer errno (input.bytes ++ stack) with
      | none =>
          rw [hread] at htyped
          simp only [hread]
          exact EnterEffect.skipped stdin htyped
      | some n =>
          rw [hread] at htyped
          simp only [hread]
          cases result with
          | whole => exact EnterEffect.sent stdin _ htyped
          | epipe => exact EnterEffect.failed .closed stdin _ (Or.inl rfl) htyped
          | failed => exact EnterEffect.failed .receiving stdin _ (Or.inr rfl) htyped

theorem length_resultText_lt (sum : BitVec 32) : (resultText sum).toList.length < bufferSize := by
  have hlo := BitVec.le_two_mul_toInt (x := sum)
  have hhi := BitVec.two_mul_toInt_lt (x := sum)
  have hrepr : sum.toInt.repr.toList.length ≤ 11 := length_repr_le (by decide) (by omega)
  have hlit : "Result = ".toList.length = 9 := rfl
  rw [resultText, Int.toString_eq_repr, String.toList_append, List.length_append, hlit]
  exact (Nat.add_le_add_left hrepr 9).trans_lt (by decide)

/-- The client shows the result as the server wrote it. -/
theorem shownText_resultChunk (sum : BitVec 32) :
    shownText (resultChunk (resultMessage sum)) = ascii (resultText sum) := by
  have hlength : (ascii (resultText sum)).length < bufferSize := by
    rw [ascii, List.length_map]
    exact length_resultText_lt sum
  have hbytes : (received (resultChunk (resultMessage sum))).bytes = (resultMessage sum).bytes := by
    simp [received, resultChunk, (resultMessage sum).size_eq]
  have hzero := (eightBit_resultText sum).zero_notMem_ascii
  have hresult : (resultMessage sum).bytes = ascii (resultText sum) ++
      List.replicate (bufferSize - (ascii (resultText sum)).length) 0 := by
    simp only [resultMessage, strncpy, cstr_eq_self hzero, List.take_of_length_le hlength.le]
  rw [shownText, hbytes, hresult, List.set_append_right _ _ (by omega), List.set_replicate_self,
    cstr_append_of_notMem hzero]
  obtain ⟨k, hk⟩ := Nat.exists_eq_succ_of_ne_zero (Nat.sub_pos_of_lt hlength).ne'
  rw [hk, List.replicate_succ, cstr_zero_cons, List.append_nil]

end SummationClient

end LinuxIPC
