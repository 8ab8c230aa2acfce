import LinuxIPC.InertLines
import LinuxIPC.LineReading

/-!
# Cuts of the console input (`rtm_server.c`)

The main loop takes each `read` for one line, and `getchar` reads ahead into a buffer of its own,
which the main loop never looks at. What stands behind the first newline of a `read` is lost, and so
is what `getchar` read beyond the newline it was called for.
-/

namespace LinuxIPC

open CString Runs

def typedLines (lines : List AdminLine) : List UInt8 :=
  (lines.map fun line => line.text ++ [newline]).flatten

abbrev FillSize := {size : ℕ // 0 < size}

/-- `while (getchar() != '\n');` with what `getchar` has read ahead and what is unread, where its
calls of `read` deliver the given numbers of bytes. -/
def flushReading : List FillSize → List UInt8 → List UInt8 → Option (List UInt8 × List UInt8)
  | [], stdio, unread => (flushStdin stdio).map fun stdio => (stdio, unread)
  | size :: fills, stdio, unread =>
    match flushStdin stdio with
    | some stdio => some (stdio, unread)
    | none => flushReading fills (unread.take size.1) (unread.drop size.1)

def removeNewlineReading (buffer : List UInt8) (fills : List FillSize) (stdio unread : List UInt8) :
    Option (List UInt8 × List UInt8 × List UInt8) :=
  match strchr buffer newline with
  | some p => some (buffer.set p 0, stdio, unread)
  | none => (flushReading fills stdio unread).map fun rest => (buffer, rest)

/-- An iteration of the main loop: how much `read` delivers, what lies behind the buffer, and how
much the calls of `read` in `getchar` deliver. -/
structure ConsoleRead where
  size : ℕ
  stack : List UInt8
  fills : List FillSize
  size_pos : 0 < size
  size_le : size ≤ bufSize

structure ConsoleStream where
  stdio : List UInt8
  unread : List UInt8
  acted : List (List UInt8)

def ConsoleStream.init (lines : List AdminLine) : ConsoleStream := ⟨[], typedLines lines, []⟩

def ConsoleRead.buffer (r : ConsoleRead) (unread : List UInt8) : List UInt8 :=
  unread.take r.size ++ List.replicate (bufSize - r.size) 0 ++ r.stack

def ConsoleStream.step (s : ConsoleStream) (r : ConsoleRead) : Option ConsoleStream :=
  if r.size ≤ s.unread.length then
    (removeNewlineReading (r.buffer s.unread) r.fills s.stdio (s.unread.drop r.size)).map
      fun (buffer, stdio, unread) => ⟨stdio, unread, s.acted ++ [cstr buffer]⟩
  else none

/-- The read delivers a line with its newline, or the text of a line, and then `getchar` reads
exactly its newline. -/
def OneLineEach (s : ConsoleStream) (r : ConsoleRead) : Prop :=
  s.unread.take r.size = firstLine s.unread ++ [newline] ∨
    s.unread.take r.size = firstLine s.unread ∧
      ∃ size ∈ r.fills.head?, (s.unread.drop r.size).take size.1 = [newline]

theorem flushStdin_append_of_some {stdio rest : List UInt8} (h : flushStdin stdio = some rest)
    (unread : List UInt8) : flushStdin (stdio ++ unread) = some (rest ++ unread) := by
  induction stdio with
  | nil => simp [flushStdin] at h
  | cons c stdio ih =>
      rw [flushStdin] at h
      rw [List.cons_append, flushStdin]
      split_ifs at h ⊢
      · rw [Option.some.injEq] at h ⊢
        rw [h]
      · exact ih h

theorem flushStdin_append_of_none {stdio : List UInt8} (h : flushStdin stdio = none)
    (unread : List UInt8) : flushStdin (stdio ++ unread) = flushStdin unread := by
  induction stdio with
  | nil => rfl
  | cons c stdio ih =>
      rw [flushStdin] at h
      split_ifs at h with hc
      rw [List.cons_append, flushStdin, if_neg hc, ih h]

theorem flushReading_of_some {stdio rest : List UInt8} (h : flushStdin stdio = some rest)
    (fills : List FillSize) (unread : List UInt8) :
    flushReading fills stdio unread = some (rest, unread) := by
  cases fills with
  | nil => simp [flushReading, h]
  | cons size fills => simp [flushReading, h]

theorem flushReading_eq_some {fills : List FillSize} {stdio unread stdio' unread' : List UInt8}
    (h : flushReading fills stdio unread = some (stdio', unread')) :
    flushStdin (stdio ++ unread) = some (stdio' ++ unread') ∧ unread' <:+ unread := by
  induction fills generalizing stdio unread with
  | nil =>
      simp only [flushReading, Option.map_eq_some_iff, Prod.mk.injEq] at h
      obtain ⟨rest, hflush, rfl, rfl⟩ := h
      exact ⟨flushStdin_append_of_some hflush _, List.suffix_rfl⟩
  | cons size fills ih =>
      cases hflush : flushStdin stdio with
      | some rest =>
          rw [flushReading_of_some hflush, Option.some.injEq, Prod.mk.injEq] at h
          obtain ⟨rfl, rfl⟩ := h
          exact ⟨flushStdin_append_of_some hflush _, List.suffix_rfl⟩
      | none =>
          simp only [flushReading, hflush] at h
          obtain ⟨hrest, hsuffix⟩ := ih h
          rw [List.take_append_drop] at hrest
          exact ⟨(flushStdin_append_of_none hflush _).trans hrest,
            hsuffix.trans (List.drop_suffix _ _)⟩

/-- `remove_newline` on the standard input as a whole. -/
theorem removeNewlineReading_eq {buffer buffer' stdio unread stdio' unread' : List UInt8}
    {fills : List FillSize}
    (h : removeNewlineReading buffer fills stdio unread = some (buffer', stdio', unread')) :
    removeNewline buffer (stdio ++ unread) = some (buffer', stdio' ++ unread') := by
  unfold removeNewlineReading at h
  unfold removeNewline
  cases hp : strchr buffer newline with
  | some p =>
      simp only [hp, Option.some.injEq, Prod.mk.injEq] at h ⊢
      obtain ⟨rfl, rfl, rfl⟩ := h
      exact ⟨rfl, rfl⟩
  | none =>
      simp only [hp, Option.map_eq_some_iff, Prod.mk.injEq] at h
      obtain ⟨rest, hflush, rfl, hrest⟩ := h
      subst hrest
      simp only [(flushReading_eq_some hflush).1, Option.map_some]

theorem typedLines_cons (line : AdminLine) (lines : List AdminLine) :
    typedLines (line :: lines) = line.text ++ newline :: typedLines lines := by
  simp [typedLines]

theorem zero_notMem_typedLines (lines : List AdminLine) : 0 ∉ typedLines lines := by
  induction lines with
  | nil => simp [typedLines]
  | cons line lines ih =>
      have hne : (0 : UInt8) ≠ newline := by decide
      simp [typedLines_cons, line.zero_notMem, ih, hne]

theorem firstLine_append_newline {text : List UInt8} (h : newline ∉ text) (rest : List UInt8) :
    firstLine (text ++ newline :: rest) = text :=
  takeWhile_ne_append_cons h rest

theorem count_typedLines (lines : List AdminLine) :
    (typedLines lines).count newline = lines.length := by
  induction lines with
  | nil => rfl
  | cons line lines ih =>
      rw [typedLines_cons, List.count_append, List.count_eq_zero.mpr line.newline_notMem,
        List.count_cons_self, ih, List.length_cons, Nat.zero_add]

theorem countP_text {text : List UInt8} (h : newline ∉ text) :
    text.countP (· ≠ newline) = text.length := by
  rw [List.countP_eq_length]
  exact decide_ne_of_notMem h

theorem countP_typedLines (lines : List AdminLine) :
    (typedLines lines).countP (· ≠ newline) = (lines.map AdminLine.text).flatten.length := by
  induction lines with
  | nil => rfl
  | cons line lines ih =>
      rw [typedLines_cons, List.countP_append, countP_text line.newline_notMem,
        List.countP_cons_of_neg (by simp), ih]
      simp

/-- What is unread of typed lines are typed lines again, the first of them maybe cut short. -/
theorem exists_typedLines_drop (lines : List AdminLine) (k : ℕ) :
    ∃ lines', (typedLines lines).drop k = typedLines lines' := by
  induction lines generalizing k with
  | nil => exact ⟨[], by simp [typedLines]⟩
  | cons line lines ih =>
      rw [typedLines_cons]
      by_cases hk : k ≤ line.text.length
      · have hlength : (line.text.drop k).length < bufSize := by
          have := line.length_lt
          rw [List.length_drop]
          omega
        let cut : AdminLine := ⟨line.text.drop k, hlength,
          fun h => line.zero_notMem (List.mem_of_mem_drop h),
          fun h => line.newline_notMem (List.mem_of_mem_drop h)⟩
        exact ⟨cut :: lines, by rw [List.drop_append_of_le_length hk, typedLines_cons]⟩
      · obtain ⟨j, hj⟩ : ∃ j, k - line.text.length = j + 1 := ⟨k - line.text.length - 1, by omega⟩
        obtain ⟨lines', h⟩ := ih j
        refine ⟨lines', ?_⟩
        rw [List.drop_append, List.drop_of_length_le (by omega), hj, List.drop_succ_cons, h,
          List.nil_append]

theorem newline_mem_of_full {lines : List AdminLine} (h : bufSize ≤ (typedLines lines).length) :
    newline ∈ (typedLines lines).take bufSize := by
  cases lines with
  | nil => simp [typedLines] at h
  | cons line lines =>
      have hlength := line.length_lt
      obtain ⟨j, hj⟩ : ∃ j, bufSize - line.text.length = j + 1 :=
        ⟨bufSize - line.text.length - 1, by omega⟩
      rw [typedLines_cons, List.take_append, hj, List.take_succ_cons]
      simp

/-- The part of the buffer that is a string: the bytes read, up to where they have a newline. -/
theorem lineText_buffer (r : ConsoleRead) {lines : List AdminLine}
    (hsize : r.size ≤ (typedLines lines).length) :
    lineText (r.buffer (typedLines lines)) = firstLine ((typedLines lines).take r.size) ∧
      (strchr (r.buffer (typedLines lines)) newline = none ↔
        newline ∉ (typedLines lines).take r.size) := by
  have hzero : 0 ∉ (typedLines lines).take r.size := fun h =>
    zero_notMem_typedLines lines (List.mem_of_mem_take h)
  rw [strchr_eq_none_iff, lineText, ConsoleRead.buffer, List.append_assoc,
    cstr_append_of_notMem hzero]
  by_cases hmem : newline ∈ (typedLines lines).take r.size
  · exact ⟨takeWhile_ne_append_of_mem hmem _, by simp [hmem]⟩
  · obtain ⟨j, hj⟩ : ∃ j, bufSize - r.size = j + 1 := by
      refine ⟨bufSize - r.size - 1, ?_⟩
      by_contra hfull
      have hle := r.size_le
      have heq : r.size = bufSize := by omega
      rw [heq] at hsize hmem
      exact hmem (newline_mem_of_full hsize)
    rw [hj, List.replicate_succ, List.cons_append, cstr_zero_cons, List.append_nil]
    exact ⟨rfl, Iff.rfl⟩

theorem ConsoleStream.step_eq_some {s s' : ConsoleStream} {r : ConsoleRead}
    {lines : List AdminLine} (hunread : s.unread = typedLines lines) (h : s.step r = some s') :
    r.size ≤ s.unread.length ∧ s'.acted = s.acted ++ [firstLine (s.unread.take r.size)] ∧
      (newline ∈ s.unread.take r.size ∧ s'.stdio = s.stdio ∧ s'.unread = s.unread.drop r.size ∨
        newline ∉ s.unread.take r.size ∧
          flushReading r.fills s.stdio (s.unread.drop r.size) = some (s'.stdio, s'.unread)) := by
  simp only [ConsoleStream.step, Option.ite_none_right_eq_some, Option.map_eq_some_iff] at h
  obtain ⟨hsize, ⟨buffer, stdio, unread⟩, hremove, rfl⟩ := h
  rw [hunread] at hsize hremove ⊢
  obtain ⟨htext, hnone⟩ := lineText_buffer r hsize
  have hcstr := removeNewline_eq_some (removeNewlineReading_eq hremove)
  refine ⟨hsize, by rw [hcstr, htext], ?_⟩
  unfold removeNewlineReading at hremove
  cases hp : strchr (r.buffer (typedLines lines)) newline with
  | none =>
      simp only [hp, Option.map_eq_some_iff, Prod.mk.injEq] at hremove
      obtain ⟨rest, hflush, -, rfl⟩ := hremove
      exact Or.inr ⟨hnone.mp hp, hflush⟩
  | some p =>
      simp only [hp, Option.some.injEq, Prod.mk.injEq] at hremove
      obtain ⟨-, rfl, rfl⟩ := hremove
      refine Or.inl ⟨?_, rfl, rfl⟩
      by_contra hmem
      rw [hnone.mpr hmem] at hp
      exact absurd hp (by simp)

theorem ConsoleStream.step_typed {s s' : ConsoleStream} {r : ConsoleRead} {lines : List AdminLine}
    (hunread : s.unread = typedLines lines) (h : s.step r = some s') :
    ∃ lines', s'.unread = typedLines lines' := by
  obtain ⟨-, -, hor⟩ := ConsoleStream.step_eq_some hunread h
  have hrest : s'.unread <:+ s.unread := by
    obtain ⟨-, -, hrest⟩ | ⟨-, hflush⟩ := hor
    · exact hrest ▸ List.drop_suffix _ _
    · exact (flushReading_eq_some hflush).2.trans (List.drop_suffix _ _)
  rw [List.suffix_iff_eq_drop.mp hrest, hunread]
  exact exists_typedLines_drop lines _

def ConsoleStream.newlines (s : ConsoleStream) : ℕ :=
  s.acted.length + s.stdio.count newline + s.unread.count newline

def ConsoleStream.characters (s : ConsoleStream) : ℕ :=
  s.acted.flatten.length + s.unread.countP (· ≠ newline)

theorem count_flushStdin {stdin rest : List UInt8} (h : flushStdin stdin = some rest) :
    stdin.count newline = rest.count newline + 1 := by
  induction stdin with
  | nil => simp [flushStdin] at h
  | cons c stdin ih =>
      rw [flushStdin] at h
      split_ifs at h with hc
      · rw [hc, List.count_cons_self, Option.some.inj h]
      · rw [List.count_cons_of_ne hc, ih h]

theorem length_firstLine_le (bytes : List UInt8) :
    (firstLine bytes).length ≤ bytes.countP (· ≠ newline) := by
  have hline : newline ∉ firstLine bytes := notMem_takeWhile_ne newline bytes
  rw [← countP_text hline]
  exact (List.takeWhile_prefix _).sublist.countP_le

theorem ConsoleStream.step_le {s s' : ConsoleStream} {r : ConsoleRead} {lines : List AdminLine}
    (hunread : s.unread = typedLines lines) (h : s.step r = some s') :
    s'.newlines ≤ s.newlines ∧ s'.characters ≤ s.characters := by
  obtain ⟨-, hacted, hor⟩ := ConsoleStream.step_eq_some hunread h
  have hline := length_firstLine_le (s.unread.take r.size)
  have hnewlines : s.unread.count newline =
      (s.unread.take r.size).count newline + (s.unread.drop r.size).count newline := by
    rw [← List.count_append, List.take_append_drop]
  have hcharacters : s.unread.countP (· ≠ newline) =
      (s.unread.take r.size).countP (· ≠ newline) + (s.unread.drop r.size).countP (· ≠ newline) := by
    rw [← List.countP_append, List.take_append_drop]
  unfold newlines characters
  rw [hacted, List.length_append, List.length_singleton, List.flatten_append, List.length_append,
    List.flatten_singleton]
  obtain ⟨hmem, hstdio, hrest⟩ | ⟨-, hflush⟩ := hor
  · have hpos := List.count_pos_iff.mpr hmem
    rw [hstdio, hrest]
    omega
  · obtain ⟨hrest, hsuffix⟩ := flushReading_eq_some hflush
    have hcount := count_flushStdin hrest
    have hle : s'.unread.countP (· ≠ newline) ≤ (s.unread.drop r.size).countP (· ≠ newline) :=
      hsuffix.sublist.countP_le
    rw [List.count_append, List.count_append] at hcount
    omega

/-- A run keeps what was acted on, and acts on no more than what was left. -/
theorem ConsoleStream.run_le {s s' : ConsoleStream} {reads : List ConsoleRead}
    {lines : List AdminLine} (hunread : s.unread = typedLines lines)
    (hrun : run ConsoleStream.step s reads = some s') :
    s.acted <+: s'.acted ∧ s'.newlines ≤ s.newlines ∧ s'.characters ≤ s.characters := by
  have hkeep : ∀ t r t', ((∃ ls, t.unread = typedLines ls) ∧ s.acted <+: t.acted ∧
      t.newlines ≤ s.newlines ∧ t.characters ≤ s.characters) → ConsoleStream.step t r = some t' →
      (∃ ls, t'.unread = typedLines ls) ∧ s.acted <+: t'.acted ∧
        t'.newlines ≤ s.newlines ∧ t'.characters ≤ s.characters := by
    intro t r t' ht hstep
    obtain ⟨⟨ls, hls⟩, hkept, hnewlines, hcharacters⟩ := ht
    obtain ⟨-, hacted, -⟩ := ConsoleStream.step_eq_some hls hstep
    obtain ⟨hn, hc⟩ := ConsoleStream.step_le hls hstep
    refine ⟨ConsoleStream.step_typed hls hstep, ?_, hn.trans hnewlines, hc.trans hcharacters⟩
    rw [hacted]
    exact hkept.trans (List.prefix_append _ _)
  exact (run_invariant hkeep ⟨⟨lines, hunread⟩, List.prefix_rfl, le_rfl, le_rfl⟩ hrun).2

theorem typedLines_replicate {lines : List AdminLine} {j : ℕ} {unread : List UInt8}
    (h : typedLines lines = List.replicate j newline ++ unread) :
    ∃ ls, unread = typedLines ls ∧
      lines.map AdminLine.text = List.replicate j [] ++ ls.map AdminLine.text := by
  induction j generalizing lines with
  | zero => exact ⟨lines, h.symm, rfl⟩
  | succ j ih =>
      cases lines with
      | nil => simp [typedLines] at h
      | cons line lines =>
          rw [typedLines_cons, List.replicate_succ, List.cons_append] at h
          cases htext : line.text with
          | nil =>
              rw [htext, List.nil_append, List.cons_inj_right] at h
              obtain ⟨ls, hls, htexts⟩ := ih h
              exact ⟨ls, hls, by simp [htext, htexts, List.replicate_succ]⟩
          | cons c text =>
              rw [htext, List.cons_append, List.cons.injEq] at h
              exact absurd (htext ▸ h.1 ▸ List.mem_cons_self) line.newline_notMem

theorem eq_replicate_newline {bytes : List UInt8} (h : bytes.countP (· ≠ newline) = 0) :
    bytes = List.replicate bytes.length newline := by
  rw [List.countP_eq_zero] at h
  rw [List.eq_replicate_iff]
  exact ⟨rfl, fun c hc => by simpa using h c hc⟩

/-- The last read ahead of `getchar` takes the newline of the line and what stands behind it. -/
theorem flushReading_newline {fills : List FillSize} {unread stdio' unread' : List UInt8}
    (h : flushReading fills [] (newline :: unread) = some (stdio', unread')) :
    ∃ size ∈ fills.head?, ∃ k, (newline :: unread).take size.1 = newline :: unread.take k ∧
      stdio' = unread.take k ∧ unread' = unread.drop k := by
  cases fills with
  | nil => simp [flushReading, flushStdin] at h
  | cons size fills =>
      obtain ⟨k, hk⟩ : ∃ k, size.1 = k + 1 := ⟨size.1 - 1, by have := size.2; omega⟩
      have hflush : flushStdin (newline :: unread.take k) = some (unread.take k) := by
        simp [flushStdin]
      have hnil : flushStdin [] = none := rfl
      rw [flushReading, hnil] at h
      simp only [hk, List.take_succ_cons, List.drop_succ_cons, flushReading_of_some hflush,
        Option.some.injEq, Prod.mk.injEq] at h
      exact ⟨size, rfl, k, by rw [hk, List.take_succ_cons], h.1.symm, h.2.symm⟩

/-- The newlines of `j` empty lines were read ahead, and up to `s'` these lines and then the unread
ones are acted on. -/
structure ActsOn (s s' : ConsoleStream) (j : ℕ) (lines : List AdminLine) : Prop where
  stdio : s.stdio = List.replicate j newline
  unread : s.unread = typedLines lines
  acted : s'.acted = s.acted ++ (List.replicate j [] ++ lines.map AdminLine.text)

theorem ActsOn.budget {s s' : ConsoleStream} {j : ℕ} {lines : List AdminLine}
    (h : ActsOn s s' j lines) :
    s.acted.length + j + lines.length ≤ s'.newlines ∧
      s.acted.flatten.length + (lines.map AdminLine.text).flatten.length ≤ s'.characters := by
  have hempty : (List.replicate j ([] : List UInt8)).flatten = [] := by simp
  unfold ConsoleStream.newlines ConsoleStream.characters
  rw [h.acted]
  simp only [List.length_append, List.length_replicate, List.length_map, List.flatten_append, hempty,
    List.length_nil]
  omega

/-- What the iteration acts on comes first. -/
theorem ActsOn.acted_cons {s s' t : ConsoleStream} {j : ℕ} {lines : List AdminLine}
    (h : ActsOn s s' j lines) {text : List UInt8} (ht : t.acted = s.acted ++ [text])
    (hkept : t.acted <+: s'.acted) :
    ∃ rest, s'.acted = t.acted ++ rest ∧
      text :: rest = List.replicate j [] ++ lines.map AdminLine.text := by
  obtain ⟨rest, hrest⟩ := hkept
  refine ⟨rest, hrest.symm, ?_⟩
  rw [ht, h.acted, List.append_assoc, List.append_cancel_left_eq] at hrest
  exact hrest

/-- What is lost behind a line is missing from the newlines and characters left to act on. -/
theorem ActsOn.take_eq_nil {s s' t : ConsoleStream} {j m : ℕ} {line : AdminLine}
    {lines : List AdminLine} (h : ActsOn s s' j (line :: lines))
    (hacted : t.acted = s.acted ++ [line.text]) (hstdio : t.stdio = s.stdio)
    (hdrop : t.unread = (typedLines lines).drop m) (hnewlines : s'.newlines ≤ t.newlines)
    (hcharacters : s'.characters ≤ t.characters) : (typedLines lines).take m = [] := by
  have hlines := List.take_append_drop m (typedLines lines)
  have hcount := count_typedLines lines
  have hcountP := countP_typedLines lines
  rw [← hlines, List.count_append, ← hdrop] at hcount
  rw [← hlines, List.countP_append, ← hdrop] at hcountP
  have hn := h.budget.1.trans hnewlines
  have hc := h.budget.2.trans hcharacters
  unfold ConsoleStream.newlines at hn
  unfold ConsoleStream.characters at hc
  simp only [hacted, hstdio, h.stdio, List.length_append, List.length_cons, List.length_nil,
    List.count_replicate_self, List.map_cons, List.flatten_append, List.flatten_cons,
    List.flatten_nil] at hn hc
  have hblank : ((typedLines lines).take m).countP (· ≠ newline) = 0 := by omega
  have hnone : ((typedLines lines).take m).count newline = 0 := by omega
  rw [eq_replicate_newline hblank, List.count_replicate_self] at hnone
  exact List.length_eq_zero_iff.mp hnone

/-- It is the same to take `a` from the front and from behind the repeats. -/
theorem eq_of_cons_eq_replicate_append {α : Type*} {j : ℕ} {a b : α} {l l' : List α}
    (h : a :: l = List.replicate j b ++ a :: l') : l = List.replicate j b ++ l' := by
  cases j with
  | zero => exact (List.cons.inj h).2
  | succ j =>
      rw [List.replicate_succ, List.cons_append, List.cons.injEq] at h
      rw [h.2, h.1, List.replicate_succ', List.append_assoc, List.singleton_append]

/-- An iteration that finds a newline must leave nothing behind it. -/
theorem ActsOn.next_of_mem {s s' t : ConsoleStream} {r : ConsoleRead} {reads : List ConsoleRead}
    {j : ℕ} {lines : List AdminLine} (h : ActsOn s s' j lines) (hstep : s.step r = some t)
    (hrun : run ConsoleStream.step t reads = some s') (hmem : newline ∈ s.unread.take r.size) :
    (∃ ls, ActsOn t s' j ls) ∧ OneLineEach s r := by
  obtain ⟨-, hacted, hor⟩ := ConsoleStream.step_eq_some h.unread hstep
  obtain ⟨-, hstdio, hunread⟩ := hor.resolve_right fun hnot => hnot.1 hmem
  obtain ⟨ls, hls⟩ := ConsoleStream.step_typed h.unread hstep
  obtain ⟨hkept, hnewlines, hcharacters⟩ := ConsoleStream.run_le hls hrun
  cases lines with
  | nil =>
      rw [h.unread] at hmem
      simp [typedLines] at hmem
  | cons line lines =>
      have hsplit := h.unread
      rw [typedLines_cons] at hsplit
      have hlong : line.text.length < r.size := by
        by_contra hle
        rw [hsplit, List.take_append_of_le_length (not_lt.mp hle)] at hmem
        exact line.newline_notMem (List.mem_of_mem_take hmem)
      obtain ⟨m, hm⟩ : ∃ m, r.size = line.text.length + (m + 1) :=
        ⟨r.size - line.text.length - 1, by omega⟩
      have htake : s.unread.take r.size = line.text ++ newline :: (typedLines lines).take m := by
        rw [hsplit, hm, List.take_length_add_append, List.take_succ_cons]
      have hdrop : t.unread = (typedLines lines).drop m := by
        rw [hunread, hsplit, hm, List.drop_length_add_append, List.drop_succ_cons]
      rw [htake, firstLine_append_newline line.newline_notMem] at hacted
      obtain ⟨rest, hrest, hcons⟩ := h.acted_cons hacted hkept
      have hnil := h.take_eq_nil hacted hstdio hdrop hnewlines hcharacters
      have hall : t.unread = typedLines lines := by
        have hlines := List.take_append_drop m (typedLines lines)
        rwa [hnil, List.nil_append, ← hdrop] at hlines
      have hone : OneLineEach s r := by
        refine Or.inl ?_
        rw [htake, hnil, hsplit, firstLine_append_newline line.newline_notMem]
      refine ⟨⟨lines, hstdio.trans h.stdio, hall, ?_⟩, hone⟩
      rw [hrest, List.append_cancel_left_eq]
      exact eq_of_cons_eq_replicate_append hcons

/-- An iteration that finds no newline must have read the text of a line, and what `getchar` reads
ahead must be empty lines. -/
theorem ActsOn.next_of_notMem {s s' t : ConsoleStream} {r : ConsoleRead} {reads : List ConsoleRead}
    {j : ℕ} {lines : List AdminLine} (h : ActsOn s s' j lines) (hstep : s.step r = some t)
    (hrun : run ConsoleStream.step t reads = some s') (hmem : newline ∉ s.unread.take r.size) :
    j = 0 ∧ ∃ i ls, ActsOn t s' i ls ∧ (i = 0 → OneLineEach s r) := by
  obtain ⟨hsize, hacted, hor⟩ := ConsoleStream.step_eq_some h.unread hstep
  obtain ⟨-, hflush⟩ := hor.resolve_left fun hin => hmem hin.1
  have hpos := r.size_pos
  have hchunk : firstLine (s.unread.take r.size) = s.unread.take r.size :=
    takeWhile_ne_eq_self hmem
  have hlength : (s.unread.take r.size).length = r.size := List.length_take_of_le hsize
  obtain ⟨ls, hls⟩ := ConsoleStream.step_typed h.unread hstep
  obtain ⟨hkept, -, hcharacters⟩ := ConsoleStream.run_le hls hrun
  rw [hchunk] at hacted
  obtain ⟨rest, hrest, hcons⟩ := h.acted_cons hacted hkept
  cases j with
  | succ j =>
      rw [List.replicate_succ, List.cons_append, List.cons.injEq] at hcons
      rw [hcons.1, List.length_nil] at hlength
      omega
  | zero =>
      refine ⟨rfl, ?_⟩
      cases lines with
      | nil => simp at hcons
      | cons line lines =>
          rw [List.replicate_zero, List.nil_append, List.map_cons, List.cons.injEq] at hcons
          obtain ⟨htext, rfl⟩ := hcons
          have hdrop : s.unread.drop r.size = newline :: typedLines lines := by
            have hsplit := List.take_append_drop r.size s.unread
            conv_rhs at hsplit => rw [h.unread]
            rw [htext, typedLines_cons] at hsplit
            exact List.append_cancel_left hsplit
          rw [h.stdio, hdrop] at hflush
          obtain ⟨size, hhead, k, htake, hstdio, hunread⟩ := flushReading_newline hflush
          have hlines := List.take_append_drop k (typedLines lines)
          rw [← hstdio, ← hunread] at hlines
          have hcountP := countP_typedLines lines
          rw [← hlines, List.countP_append] at hcountP
          have hc := h.budget.2.trans hcharacters
          unfold ConsoleStream.characters at hc
          simp only [hacted, htext, List.map_cons, List.flatten_append, List.flatten_cons,
            List.flatten_nil, List.length_append, List.length_nil] at hc
          have hnone : t.stdio.countP (· ≠ newline) = 0 := by omega
          have hblank := eq_replicate_newline hnone
          rw [hblank] at hlines
          obtain ⟨ls, hls, htexts⟩ := typedLines_replicate hlines.symm
          refine ⟨t.stdio.length, ls, ⟨hblank, hls, by rw [hrest, htexts]⟩, fun hzero => ?_⟩
          refine Or.inr ⟨?_, size, hhead, ?_⟩
          · rw [htext, h.unread, typedLines_cons, firstLine_append_newline line.newline_notMem]
          · rw [hdrop, htake, ← hstdio, List.length_eq_zero_iff.mp hzero]

/-- Lines that were read ahead are never acted on in their place. -/
theorem ActsOn.along {s s' : ConsoleStream} {reads : List ConsoleRead} {j : ℕ}
    {lines : List AdminLine} (h : ActsOn s s' j lines)
    (hrun : run ConsoleStream.step s reads = some s') :
    j = 0 ∧ Along ConsoleStream.step OneLineEach s reads := by
  induction reads generalizing s j lines with
  | nil =>
      obtain rfl : s = s' := Option.some.inj hrun
      have hacted := (List.append_right_eq_self.mp h.acted.symm)
      rw [List.append_eq_nil_iff] at hacted
      exact ⟨by simpa using hacted.1, trivial⟩
  | cons r reads ih =>
      obtain ⟨t, hst, hrest⟩ := run_cons_eq_some.mp hrun
      obtain ⟨i, ls, hj, hnext, hone⟩ : ∃ i ls, (i = 0 → j = 0) ∧ ActsOn t s' i ls ∧
          (i = 0 → OneLineEach s r) := by
        by_cases hmem : newline ∈ s.unread.take r.size
        · obtain ⟨⟨ls, hnext⟩, hone⟩ := h.next_of_mem hst hrest hmem
          exact ⟨j, ls, id, hnext, fun _ => hone⟩
        · obtain ⟨hj, i, ls, hnext, hone⟩ := h.next_of_notMem hst hrest hmem
          exact ⟨i, ls, fun _ => hj, hnext, hone⟩
      obtain ⟨hi, halong⟩ := ih hnext hrest
      refine ⟨hj hi, fun u hu => ?_⟩
      obtain rfl : t = u := Option.some.inj (hst.symm.trans hu)
      exact ⟨hone hi, halong⟩

/-- A read that delivers one line acts on it and leaves the others unread. -/
theorem ConsoleStream.step_of_oneLine {s t : ConsoleStream} {r : ConsoleRead}
    {lines : List AdminLine} (hstdio : s.stdio = []) (hunread : s.unread = typedLines lines)
    (hone : OneLineEach s r) (hstep : s.step r = some t) :
    ∃ line ls, lines = line :: ls ∧ t.stdio = [] ∧ t.unread = typedLines ls ∧
      t.acted = s.acted ++ [line.text] := by
  obtain ⟨hsize, hacted, hor⟩ := ConsoleStream.step_eq_some hunread hstep
  have hsplit := List.take_append_drop r.size s.unread
  cases lines with
  | nil =>
      have hpos := r.size_pos
      rw [hunread] at hsize
      simp only [typedLines, List.map_nil, List.flatten_nil, List.length_nil] at hsize
      omega
  | cons line ls =>
      refine ⟨line, ls, rfl, ?_⟩
      have hline : firstLine s.unread = line.text := by
        rw [hunread, typedLines_cons, firstLine_append_newline line.newline_notMem]
      conv_rhs at hsplit => rw [hunread, typedLines_cons]
      unfold OneLineEach at hone
      rw [hline] at hone
      obtain hwhole | ⟨htext, size, hhead, hnewline⟩ := hone
      · rw [hwhole, List.append_assoc, List.singleton_append, List.append_cancel_left_eq,
          List.cons_inj_right] at hsplit
        rw [hwhole] at hacted hor
        obtain ⟨-, hstdio', hrest⟩ := hor.resolve_right fun hnot => hnot.1 (by simp)
        refine ⟨hstdio'.trans hstdio, hrest.trans hsplit, ?_⟩
        rw [hacted, firstLine_append_newline line.newline_notMem]
      · rw [htext, List.append_cancel_left_eq] at hsplit
        rw [htext] at hacted hor
        obtain ⟨-, hflush⟩ := hor.resolve_left fun hin => line.newline_notMem hin.1
        rw [hstdio, hsplit] at hflush
        obtain ⟨size', hhead', k, htake, hstdio', hrest⟩ := flushReading_newline hflush
        obtain rfl : size = size' := Option.mem_unique hhead hhead'
        rw [hsplit, htake, List.cons.injEq] at hnewline
        have hdrop := List.take_append_drop k (typedLines ls)
        rw [hnewline.2, List.nil_append] at hdrop
        refine ⟨hstdio'.trans hnewline.2, hrest.trans hdrop, ?_⟩
        rw [hacted, firstLine, takeWhile_ne_eq_self line.newline_notMem]

theorem acted_of_along {s s' : ConsoleStream} {reads : List ConsoleRead} {lines : List AdminLine}
    (hstdio : s.stdio = []) (hunread : s.unread = typedLines lines)
    (halong : Along ConsoleStream.step OneLineEach s reads)
    (hrun : run ConsoleStream.step s reads = some s') (hall : s'.unread = []) :
    s'.acted = s.acted ++ lines.map AdminLine.text := by
  induction reads generalizing s lines with
  | nil =>
      obtain rfl : s = s' := Option.some.inj hrun
      cases lines with
      | nil => simp
      | cons line lines =>
          rw [hall, typedLines_cons] at hunread
          simp at hunread
  | cons r reads ih =>
      obtain ⟨t, hst, hrest⟩ := run_cons_eq_some.mp hrun
      obtain ⟨hone, halong⟩ := halong t hst
      obtain ⟨line, ls, rfl, hstdio', hunread', hacted⟩ :=
        ConsoleStream.step_of_oneLine hstdio hunread hone hst
      rw [ih hstdio' hunread' halong hrest, hacted, List.append_assoc, List.map_cons,
        List.singleton_append]

def AdminLine.choice (c : UInt8) (h : c ≠ 0 ∧ c ≠ newline) : AdminLine where
  text := [c]
  length_lt := show 1 < bufSize by decide
  zero_notMem := by simpa using Ne.symm h.1
  newline_notMem := by simpa using Ne.symm h.2

end LinuxIPC
