import LinuxIPC.IntegerPrompt
import LinuxIPC.Runs

/-!
# The shared memory writer and reader (`shm_writer.c`, `shm_reader.c`)

The writer clears the shared bytes and then copies its input buffer to them, in two steps with
polls in between. The buffer is terminated, so that the bytes behind its NUL are shared but never
parsed: a poll finds what was validated, or an empty string. The reader prints a value that differs
from the last one, and its flag tells the first value from the initial `last_value`.
-/

namespace LinuxIPC

open CString Runs

def shmSize : ℕ := 12

inductive WriterPhase
  | reading
  | validated
  | cleared
  | stopped
  deriving DecidableEq

/-- The writer, before `read_line`, before `memset` or before `memcpy`. It has also stopped when
`read_line` does not return. -/
structure Writer where
  prompt : Prompt
  phase : WriterPhase

def loopTest (value : ℤ) : WriterPhase := if value = 0 then .stopped else .reading

def Writer.enter (w : Writer) (errno : ℤ) (buffer : CharArray intLen) (stack : List UInt8) :
    Writer :=
  match w.prompt.enter errno buffer stack with
  | (.ended, prompt) => ⟨prompt, .stopped⟩
  | (.invalid, prompt) => ⟨prompt, loopTest prompt.value⟩
  | (.zero, prompt) => ⟨prompt, loopTest prompt.value⟩
  | (.nonzero, prompt) => ⟨prompt, .validated⟩

structure Reader where
  value : ℤ
  lastValue : ℤ
  printed : Bool

def Reader.poll (r : Reader) (errno : ℤ) (buffer : List UInt8) : Reader × Option ℤ :=
  match readIntFromBuffer errno buffer with
  | none => (r, none)
  | some value =>
    let (lastValue, printed) :=
      if r.lastValue ≠ value then (value, false) else (r.lastValue, r.printed)
    if !printed then (⟨value, lastValue, true⟩, some value) else (⟨value, lastValue, printed⟩, none)

/-- The two processes and the memory they share. Also the integers of the lines accepted, of those
set out to be stored, of the polls that were parsed, and the integers printed. -/
structure SharedMemory where
  writer : Writer
  shmRegion : CharArray shmSize
  reader : Reader
  accepted : List ℤ
  stored : List ℤ
  parsed : List ℤ
  printed : List ℤ

inductive ShmStep
  | enter (errno : ℤ) (buffer : CharArray intLen) (stack : List UInt8)
  | clear
  | copy
  | poll (errno : ℤ) (buffer : CharArray intLen) (stack : List UInt8)

def SharedMemory.polled (s : SharedMemory) (buffer : CharArray intLen) (stack : List UInt8) :
    List UInt8 :=
  (memcpy (memset buffer intLen) s.shmRegion shmSize).bytes ++ stack

def SharedMemory.step (s : SharedMemory) : ShmStep → Option SharedMemory
  | .enter errno buffer stack =>
    if s.writer.phase = .reading then
      let writer := s.writer.enter errno buffer stack
      some { s with
        writer
        accepted :=
          if writer.phase = .validated then s.accepted ++ [writer.prompt.value] else s.accepted }
    else none
  | .clear =>
    if s.writer.phase = .validated then
      some { s with
        writer := { s.writer with phase := .cleared }
        shmRegion := memset s.shmRegion shmSize
        stored := s.stored ++ [s.writer.prompt.value] }
    else none
  | .copy =>
    if s.writer.phase = .cleared then
      some { s with
        writer := { s.writer with phase := loopTest s.writer.prompt.value }
        shmRegion := memcpy s.shmRegion s.writer.prompt.input shmSize }
    else none
  | .poll errno buffer stack =>
    let (reader, shown) := s.reader.poll errno (s.polled buffer stack)
    some { s with
      reader
      parsed := s.parsed ++ (readIntFromBuffer errno (s.polled buffer stack)).toList
      printed := s.printed ++ shown.toList }

/-- Both processes before their loops. Behind the NUL the shared bytes are arbitrary. -/
def SharedMemory.init (stdin : List UInt8) (input : CharArray intLen) (region : CharArray shmSize) :
    SharedMemory where
  writer := ⟨⟨stdin, input, -1⟩, .reading⟩
  shmRegion := region.store [0]
  reader := ⟨-1, -1, false⟩
  accepted := []
  stored := []
  parsed := []
  printed := []

/-- A poll is ignored, which happens only before anything is stored or while the memory is cleared,
or it parses to the integer of the last line that the writer set out to store. -/
def PollFaithful (s : SharedMemory) : ShmStep → Prop
  | .poll errno buffer stack =>
    match readIntFromBuffer errno (s.polled buffer stack) with
    | none => s.reader.poll errno (s.polled buffer stack) = (s.reader, none) ∧
        (s.stored = [] ∨ s.writer.phase = .cleared)
    | some value => s.stored.getLast? = some value
  | _ => True

/-- The integers printed are the parsed ones without repeats. The lines set out to be stored are the
accepted ones, but for a line that is about to be. -/
structure ShowsChanges (s : SharedMemory) : Prop where
  printed_eq : s.printed = s.parsed.destutter (· ≠ ·)
  accepted_eq : s.accepted =
    if s.writer.phase = .validated then s.stored ++ [s.writer.prompt.value] else s.stored

section Steps

variable {s s' : SharedMemory}

theorem SharedMemory.step_enter {errno : ℤ} {buffer : CharArray intLen} {stack : List UInt8}
    (h : s.step (.enter errno buffer stack) = some s') :
    s.writer.phase = .reading ∧
      s' = { s with
        writer := s.writer.enter errno buffer stack
        accepted :=
          if (s.writer.enter errno buffer stack).phase = .validated then
            s.accepted ++ [(s.writer.enter errno buffer stack).prompt.value]
          else s.accepted } := by
  simp only [SharedMemory.step, Option.ite_none_right_eq_some, Option.some.injEq] at h
  exact ⟨h.1, h.2.symm⟩

theorem SharedMemory.step_clear (h : s.step .clear = some s') :
    s.writer.phase = .validated ∧
      s' = { s with
        writer := { s.writer with phase := .cleared }
        shmRegion := memset s.shmRegion shmSize
        stored := s.stored ++ [s.writer.prompt.value] } := by
  simp only [SharedMemory.step, Option.ite_none_right_eq_some, Option.some.injEq] at h
  exact ⟨h.1, h.2.symm⟩

/-- The writer's `memcpy` makes the whole region the input. -/
theorem SharedMemory.step_copy (h : s.step .copy = some s') :
    s.writer.phase = .cleared ∧
      s' = { s with
        writer := { s.writer with phase := loopTest s.writer.prompt.value }
        shmRegion := s.writer.prompt.input } := by
  have hcopy : memcpy s.shmRegion s.writer.prompt.input shmSize = s.writer.prompt.input :=
    memcpy_eq _ _
  simp only [SharedMemory.step, hcopy, Option.ite_none_right_eq_some, Option.some.injEq] at h
  exact ⟨h.1, h.2.symm⟩

end Steps

theorem destutter'_concat {α : Type*} [DecidableEq α] (a : α) (l : List α) (x : α) :
    (l ++ [x]).destutter' (· ≠ ·) a =
      if (a :: l).getLast? = some x then l.destutter' (· ≠ ·) a
      else l.destutter' (· ≠ ·) a ++ [x] := by
  induction l generalizing a with
  | nil => simp
  | cons b l ih =>
      rw [List.getLast?_cons_cons]
      by_cases hab : a = b
      · simp only [hab, List.cons_append, List.destutter'_cons_neg, ne_eq, not_true_eq_false,
          not_false_eq_true, ih]
      · rw [List.cons_append, List.destutter'_cons_pos _ hab, List.destutter'_cons_pos _ hab, ih]
        split_ifs <;> rfl

/-- One element more is a repeat of the last one or stays. -/
theorem destutter_concat {α : Type*} [DecidableEq α] (l : List α) (x : α) :
    (l ++ [x]).destutter (· ≠ ·) =
      if l.getLast? = some x then l.destutter (· ≠ ·) else l.destutter (· ≠ ·) ++ [x] := by
  cases l with
  | nil => simp
  | cons a l => exact destutter'_concat a l x

theorem Reader.poll_of_none (r : Reader) {errno : ℤ} {buffer : List UInt8}
    (h : readIntFromBuffer errno buffer = none) : r.poll errno buffer = (r, none) := by
  unfold Reader.poll
  rw [h]

theorem Reader.poll_of_some (r : Reader) {errno : ℤ} {buffer : List UInt8} {value : ℤ}
    (h : readIntFromBuffer errno buffer = some value) :
    r.poll errno buffer =
      (⟨value, value, true⟩, if r.printed ∧ r.lastValue = value then none else some value) := by
  unfold Reader.poll
  rw [h]
  by_cases heq : r.lastValue = value
  · cases r.printed <;> simp [heq]
  · simp [heq]

structure ReaderInv (s : SharedMemory) : Prop where
  printed_eq : s.printed = s.parsed.destutter (· ≠ ·)
  getLast : s.parsed.getLast? = if s.reader.printed then some s.reader.lastValue else none

theorem ReaderInv.poll {s s' : SharedMemory} (h : ReaderInv s) {errno : ℤ}
    {buffer : CharArray intLen} {stack : List UInt8}
    (hstep : s.step (.poll errno buffer stack) = some s') : ReaderInv s' := by
  obtain ⟨hprinted, hlast⟩ := h
  simp only [SharedMemory.step, Option.some.injEq] at hstep
  cases hread : readIntFromBuffer errno (s.polled buffer stack) with
  | none =>
      rw [s.reader.poll_of_none hread, hread] at hstep
      subst hstep
      exact ⟨by simpa using hprinted, by simpa using hlast⟩
  | some value =>
      rw [s.reader.poll_of_some hread, hread] at hstep
      subst hstep
      have hrepeat : s.parsed.getLast? = some value ↔
          s.reader.printed = true ∧ s.reader.lastValue = value := by
        rw [hlast]
        cases s.reader.printed <;> simp
      refine ⟨?_, by simp⟩
      simp only [Option.toList_some, destutter_concat, hrepeat, ← hprinted]
      split_ifs <;> simp

structure WriterInv (s : SharedMemory) : Prop where
  terminated : s.shmRegion.Terminated
  parses : readIntFromBuffer 0 s.shmRegion.bytes =
    if s.writer.phase = .cleared then none else s.stored.getLast?
  input : s.writer.phase = .validated ∨ s.writer.phase = .cleared →
    s.writer.prompt.input.Terminated ∧
      readIntFromBuffer 0 s.writer.prompt.input.bytes = some s.writer.prompt.value
  getLast : s.writer.phase = .cleared → s.stored.getLast? = some s.writer.prompt.value
  accepted_eq : s.accepted =
    if s.writer.phase = .validated then s.stored ++ [s.writer.prompt.value] else s.stored

theorem loopTest_ne (value : ℤ) : loopTest value ≠ .validated ∧ loopTest value ≠ .cleared := by
  unfold loopTest
  split_ifs <;> simp

theorem Writer.enter_ne_cleared (w : Writer) (errno : ℤ) (buffer : CharArray intLen)
    (stack : List UInt8) : (w.enter errno buffer stack).phase ≠ .cleared := by
  unfold Writer.enter
  split
  · simp
  · exact (loopTest_ne _).2
  · exact (loopTest_ne _).2
  · simp

/-- Only a nonzero integer goes on to be stored, with a NUL behind it in the buffer. -/
theorem Writer.enter_validated (w : Writer) {errno : ℤ} {buffer : CharArray intLen}
    {stack : List UInt8} (h : (w.enter errno buffer stack).phase = .validated) :
    (w.enter errno buffer stack).prompt.input.Terminated ∧
      readIntFromBuffer 0 (w.enter errno buffer stack).prompt.input.bytes =
        some (w.enter errno buffer stack).prompt.value := by
  have hspec := @Prompt.enter_nonzero w.prompt errno buffer stack
  unfold Writer.enter at h ⊢
  split at h
  · simp at h
  · exact absurd h (loopTest_ne _).1
  · exact absurd h (loopTest_ne _).1
  · rename_i prompt heq
    rw [heq] at hspec
    obtain ⟨hterm, -, -, hread, -⟩ := hspec rfl
    exact ⟨hterm, (readIntFromBuffer_congr 0 (cstr_cstr _).symm).trans hread⟩

theorem WriterInv.step {s s' : SharedMemory} (h : WriterInv s) {e : ShmStep}
    (hstep : s.step e = some s') : WriterInv s' := by
  obtain ⟨hterm, hparses, hinput, hlast, haccepted⟩ := h
  cases e with
  | enter errno buffer stack =>
      obtain ⟨hphase, rfl⟩ := SharedMemory.step_enter hstep
      have hne := s.writer.enter_ne_cleared errno buffer stack
      rw [hphase, if_neg (by simp)] at hparses haccepted
      refine ⟨hterm, ?_, ?_, fun hc => absurd hc hne, ?_⟩
      · rw [if_neg hne]
        exact hparses
      · intro hor
        exact s.writer.enter_validated (hor.resolve_right hne)
      · simp only [haccepted]
  | clear =>
      obtain ⟨hphase, rfl⟩ := SharedMemory.step_clear hstep
      have htext : (memset s.shmRegion shmSize).text = [] :=
        text_memset s.shmRegion (by decide) le_rfl
      rw [if_pos hphase] at haccepted
      refine ⟨?_, ?_, fun _ => hinput (.inl hphase), ?_, ?_⟩
      · rw [CharArray.terminated_iff, htext]
        exact Nat.succ_pos _
      · simpa using readIntFromBuffer_of_text_nil htext
      · simp
      · simpa using haccepted
  | copy =>
      obtain ⟨hphase, rfl⟩ := SharedMemory.step_copy hstep
      obtain ⟨hinputTerm, hinputParses⟩ := hinput (.inr hphase)
      obtain ⟨hvalidated, hcleared⟩ := loopTest_ne s.writer.prompt.value
      rw [if_neg (by simp [hphase])] at haccepted
      refine ⟨?_, ?_, ?_, fun hc => absurd hc hcleared, ?_⟩
      · exact hinputTerm
      · rw [if_neg hcleared, hlast hphase]
        exact hinputParses
      · exact fun hor => absurd hor (not_or.mpr ⟨hvalidated, hcleared⟩)
      · rwa [if_neg hvalidated]
  | poll errno buffer stack =>
      simp only [SharedMemory.step, Option.some.injEq] at hstep
      subst hstep
      exact ⟨hterm, hparses, hinput, hlast, haccepted⟩

theorem ReaderInv.step {s s' : SharedMemory} (h : ReaderInv s) {e : ShmStep}
    (hstep : s.step e = some s') : ReaderInv s' := by
  cases e with
  | poll errno buffer stack => exact h.poll hstep
  | enter errno buffer stack =>
      obtain ⟨-, rfl⟩ := SharedMemory.step_enter hstep
      exact ⟨h.printed_eq, h.getLast⟩
  | clear =>
      obtain ⟨-, rfl⟩ := SharedMemory.step_clear hstep
      exact ⟨h.printed_eq, h.getLast⟩
  | copy =>
      obtain ⟨-, rfl⟩ := SharedMemory.step_copy hstep
      exact ⟨h.printed_eq, h.getLast⟩

theorem SharedMemory.polled_eq (s : SharedMemory) (buffer : CharArray intLen)
    (stack : List UInt8) : s.polled buffer stack = s.shmRegion.bytes ++ stack := by
  have hcopy : memcpy (memset buffer intLen) s.shmRegion shmSize = s.shmRegion := memcpy_eq _ _
  rw [SharedMemory.polled, hcopy]

theorem WriterInv.pollFaithful {s : SharedMemory} (h : WriterInv s) (e : ShmStep) :
    PollFaithful s e := by
  cases e with
  | poll errno buffer stack =>
      have hread : readIntFromBuffer errno (s.polled buffer stack) =
          if s.writer.phase = .cleared then none else s.stored.getLast? := by
        rw [s.polled_eq, readIntFromBuffer_append h.terminated, h.parses]
      cases hvalue : readIntFromBuffer errno (s.polled buffer stack) with
      | none =>
          simp only [PollFaithful, hvalue]
          refine ⟨s.reader.poll_of_none hvalue, ?_⟩
          rw [hvalue] at hread
          by_cases hphase : s.writer.phase = .cleared
          · exact Or.inr hphase
          · rw [if_neg hphase] at hread
            exact Or.inl (List.getLast?_eq_none_iff.mp hread.symm)
      | some value =>
          simp only [PollFaithful, hvalue]
          rw [hvalue] at hread
          split_ifs at hread
          exact hread.symm
  | _ => trivial

theorem writerInv_init (stdin : List UInt8) (input : CharArray intLen)
    (region : CharArray shmSize) : WriterInv (.init stdin input region) := by
  have htext : (region.store [0]).text = [] := region.text_store (s := []) (by simp) (by decide)
  refine ⟨?_, ?_, ?_, ?_, rfl⟩
  · rw [CharArray.terminated_iff, SharedMemory.init, htext]
    exact Nat.succ_pos _
  · exact readIntFromBuffer_of_text_nil htext
  · simp [SharedMemory.init]
  · simp [SharedMemory.init]

/-- The reader shows what the writer validated, and each change once. -/
theorem reader_shows_validated (stdin : List UInt8) (input : CharArray intLen)
    (region : CharArray shmSize) (steps : List ShmStep) :
    Throughout SharedMemory.step ShowsChanges (.init stdin input region) steps ∧
      Along SharedMemory.step PollFaithful (.init stdin input region) steps := by
  have hinit : WriterInv (.init stdin input region) ∧ ReaderInv (.init stdin input region) :=
    ⟨writerInv_init stdin input region, rfl, rfl⟩
  have hstep : ∀ s e s', WriterInv s ∧ ReaderInv s → SharedMemory.step s e = some s' →
      WriterInv s' ∧ ReaderInv s' := fun s e s' hs hst => ⟨hs.1.step hst, hs.2.step hst⟩
  constructor
  · apply throughout_of_invariant hstep _ hinit
    exact fun s hs => ⟨hs.2.printed_eq, hs.1.accepted_eq⟩
  · refine (along_congr_of_invariant hstep ?_ hinit steps).mpr (along_true _ steps)
    exact fun s e s' hs _ => iff_of_true (hs.1.pollFaithful e) trivial

/-- A first value of -1 is printed, a repeated value is not, and a poll may find nothing. -/
example :
    let blank : CharArray 12 := strncpy 12 []
    let enter := ShmStep.enter 0 blank []
    let poll := ShmStep.poll 0 blank []
    let steps := [poll, enter, .clear, poll, .copy, poll, poll, enter, .clear, .copy, poll]
    (run SharedMemory.step (.init (ascii "-1\n5\n") blank blank) steps).map (·.printed) =
      some [-1, 5] := by
  decide +kernel

end LinuxIPC
