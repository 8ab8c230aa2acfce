import LinuxIPC.LineReading

/-!
# Asking for an integer (`shm_writer.c`, `mq_client.c`)

The loops of the shared memory writer and of the message queue client begin alike: they read a line
into a buffer of `INT_LEN` characters and go on with it if it is a nonzero integer.
-/

namespace LinuxIPC

open CString

def intLen : ℕ := 12

structure Prompt where
  stdin : List UInt8
  input : CharArray intLen
  value : ℤ

/-- How the loop body begins: `read_line` failed or did not return, the line is no integer, or it is
one. -/
inductive Prompted
  | ended
  | invalid
  | zero
  | nonzero
  deriving DecidableEq

def Prompt.enter (p : Prompt) (errno : ℤ) (buffer : CharArray intLen) (stack : List UInt8) :
    Prompted × Prompt :=
  match readLine buffer p.stdin with
  | .eof => (.ended, p)
  | .endless => (.ended, p)
  | .line input stdin =>
    match readIntFromBuffer errno (input.bytes ++ stack) with
    | none => (.invalid, { p with stdin, input })
    | some value => (if value = 0 then .zero else .nonzero, ⟨stdin, input, value⟩)

def bufferedText (stdin : List UInt8) : List UInt8 := lineText (stdin.take (intLen - 1))

def Accepts (text : List UInt8) (value : ℤ) : Prop :=
  readIntFromBuffer 0 text = some value ∧ value ≠ 0

theorem Prompt.enter_nonzero {p : Prompt} {errno : ℤ} {buffer : CharArray intLen}
    {stack : List UInt8} (h : (p.enter errno buffer stack).1 = .nonzero) :
    (p.enter errno buffer stack).2.input.Terminated ∧
      (p.enter errno buffer stack).2.input.text = bufferedText p.stdin ∧ newline ∈ p.stdin ∧
      Accepts (p.enter errno buffer stack).2.input.text (p.enter errno buffer stack).2.value := by
  unfold Prompt.enter at h ⊢
  cases hline : readLine buffer p.stdin with
  | eof => simp [hline] at h
  | endless => simp [hline] at h
  | line input stdin =>
      simp only [hline] at h ⊢
      have hterm : input.Terminated := terminated_of_readLine (by decide) hline
      have htext : input.text = bufferedText p.stdin := text_of_readLine (by decide) hline
      cases hread : readIntFromBuffer errno (input.bytes ++ stack) with
      | none => simp [hread] at h
      | some value =>
          have hne : value ≠ 0 := by
            intro hzero
            simp [hread, hzero] at h
          rw [readIntFromBuffer_append hterm,
            readIntFromBuffer_congr 0 (cstr_cstr input.bytes).symm] at hread
          exact ⟨hterm, htext, newline_mem_of_readLine (by decide) hline, hread, hne⟩

/-- Ten characters or more that are accepted stand in a line which `read_line` reads. -/
theorem Prompt.enter_of_long (p : Prompt) {value : ℤ} (errno : ℤ) (buffer : CharArray intLen)
    (stack : List UInt8) (hline : newline ∈ p.stdin)
    (hlong : intLen - 2 ≤ (bufferedText p.stdin).length)
    (haccepts : Accepts (bufferedText p.stdin) value) :
    (p.enter errno buffer stack).1 = .nonzero := by
  obtain ⟨hread, hne⟩ := haccepts
  obtain ⟨input, rest, hread'⟩ := @readLine_of_long _ (by decide) buffer _ hline hlong
  have hterm : input.Terminated := terminated_of_readLine (by decide) hread'
  have htext : input.text = bufferedText p.stdin := text_of_readLine (by decide) hread'
  have hvalue : readIntFromBuffer errno (input.bytes ++ stack) = some value := by
    rw [readIntFromBuffer_append hterm, readIntFromBuffer_congr 0 (cstr_cstr input.bytes).symm]
    exact (congrArg _ htext).trans hread
  unfold Prompt.enter
  simp only [hread', hvalue, if_neg hne]

end LinuxIPC
