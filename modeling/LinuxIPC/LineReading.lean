import LinuxIPC.Utils

/-!
# Lines of the standard input (`read_line`)

`fgets` stops behind a newline or when the buffer is full, and in the latter case `remove_newline`
discards the rest of the line. A last line that does not end with a newline is never read to its
end: `getchar` goes on returning `EOF`.
-/

namespace LinuxIPC

open CString

/-- The loop of `fgets` with room for `n` characters: those it reads, and what it leaves. -/
def fgetsScan : ℕ → List UInt8 → List UInt8 × List UInt8
  | 0, stdin => ([], stdin)
  | _ + 1, [] => ([], [])
  | n + 1, c :: stdin =>
    if c = newline then ([c], stdin)
    else
      let (text, rest) := fgetsScan n stdin
      (c :: text, rest)

/-- `fgets(buffer, n, stdin)` for `n` of at least 2; `none` for the null pointer. -/
def fgets {n : ℕ} (buffer : CharArray n) (stdin : List UInt8) :
    Option (CharArray n × List UInt8) :=
  if stdin = [] then none
  else
    let (text, rest) := fgetsScan (n - 1) stdin
    some (buffer.store (text ++ [0]), rest)

/-- `read_line` returns -1, does not return, or returns 0 with the buffer and the standard input as
it leaves them. -/
inductive ReadLine (n : ℕ) where
  | eof
  | endless
  | line (buffer : CharArray n) (stdin : List UInt8)
  deriving DecidableEq

theorem length_removeNewline {buffer stdin buffer' rest : List UInt8}
    (h : removeNewline buffer stdin = some (buffer', rest)) : buffer'.length = buffer.length := by
  unfold removeNewline at h
  cases hp : strchr buffer newline with
  | some p =>
      simp only [hp, Option.some.injEq, Prod.mk.injEq] at h
      rw [← h.1, List.length_set]
  | none =>
      simp only [hp, Option.map_eq_some_iff, Prod.mk.injEq] at h
      obtain ⟨_, -, rfl, -⟩ := h
      rfl

def readLine {n : ℕ} (buffer : CharArray n) (stdin : List UInt8) : ReadLine n :=
  match fgets buffer stdin with
  | none => .eof
  | some (buffer, stdin) =>
    match h : removeNewline buffer.bytes stdin with
    | none => .endless
    | some (bytes, stdin) => .line ⟨bytes, (length_removeNewline h).trans buffer.size_eq⟩ stdin

def firstLine (stdin : List UInt8) : List UInt8 := stdin.takeWhile (· ≠ newline)

def afterLine (stdin : List UInt8) : List UInt8 := (stdin.dropWhile (· ≠ newline)).tail

def TakesLine {n : ℕ} (buffer : CharArray n) (stdin : List UInt8) : Prop :=
  ∃ buffer' : CharArray n, readLine buffer stdin = .line buffer' (afterLine stdin) ∧
    buffer'.Terminated ∧ buffer'.text = (firstLine stdin).take (n - 1)

structure ReadsOneLine {n : ℕ} (buffer : CharArray n) (stdin : List UInt8) : Prop where
  ends : readLine buffer stdin ≠ .endless
  eof_iff : readLine buffer stdin = .eof ↔ stdin = []
  line : stdin ≠ [] → TakesLine buffer stdin

theorem flushStdin_eq (stdin : List UInt8) :
    flushStdin stdin = if newline ∈ stdin then some (afterLine stdin) else none := by
  induction stdin with
  | nil => rfl
  | cons c stdin ih =>
      by_cases hc : c = newline
      · simp [flushStdin, afterLine, hc]
      · rw [flushStdin, if_neg hc, ih]
        simp [afterLine, hc, Ne.symm hc]

theorem fgetsScan_of_mem {n : ℕ} {stdin : List UInt8} (h : newline ∈ stdin.take n) :
    fgetsScan n stdin = (firstLine stdin ++ [newline], afterLine stdin) := by
  induction n generalizing stdin with
  | zero => simp at h
  | succ n ih =>
      cases stdin with
      | nil => simp at h
      | cons c stdin =>
          by_cases hc : c = newline
          · simp [fgetsScan, firstLine, afterLine, hc]
          · have hmem : newline ∈ stdin.take n := by
              simpa [Ne.symm hc] using h
            simp [fgetsScan, firstLine, afterLine, hc, ih hmem]

theorem fgetsScan_of_notMem {n : ℕ} {stdin : List UInt8} (h : newline ∉ stdin.take n) :
    fgetsScan n stdin = (stdin.take n, stdin.drop n) := by
  induction n generalizing stdin with
  | zero => rfl
  | succ n ih =>
      cases stdin with
      | nil => rfl
      | cons c stdin =>
          simp only [List.take_succ_cons, List.mem_cons, not_or] at h
          simp [fgetsScan, Ne.symm h.1, ih h.2]

theorem length_fgetsScan_le (n : ℕ) (stdin : List UInt8) : (fgetsScan n stdin).1.length ≤ n := by
  induction n generalizing stdin with
  | zero => simp [fgetsScan]
  | succ n ih =>
      cases stdin with
      | nil => simp [fgetsScan]
      | cons c stdin =>
          by_cases hc : c = newline
          · simp [fgetsScan, hc]
          · simpa [fgetsScan, hc] using ih stdin

theorem readLine_of_nil {n : ℕ} (buffer : CharArray n) : readLine buffer [] = .eof := rfl

theorem readLine_eq_endless {n : ℕ} {buffer b : CharArray n} {stdin rest : List UInt8}
    (hfgets : fgets buffer stdin = some (b, rest)) (hremove : removeNewline b.bytes rest = none) :
    readLine buffer stdin = .endless := by
  unfold readLine
  rw [hfgets]
  simp only
  split
  · rfl
  · simp_all

theorem readLine_eq_line {n : ℕ} {buffer b : CharArray n} {stdin rest bytes rest' : List UInt8}
    (hfgets : fgets buffer stdin = some (b, rest))
    (hremove : removeNewline b.bytes rest = some (bytes, rest')) :
    ∃ buffer', readLine buffer stdin = .line buffer' rest' ∧ buffer'.bytes = bytes := by
  unfold readLine
  rw [hfgets]
  simp only
  split
  · simp_all
  · rename_i bytes' rest'' heq
    obtain ⟨rfl, rfl⟩ : bytes' = bytes ∧ rest'' = rest' := by simpa [heq] using hremove
    exact ⟨_, rfl, rfl⟩

theorem mem_of_mem_fgetsScan {n : ℕ} {stdin : List UInt8} {c : UInt8}
    (h : c ∈ (fgetsScan n stdin).1) : c ∈ stdin := by
  by_cases htake : newline ∈ stdin.take n
  · rw [fgetsScan_of_mem htake, List.mem_append, List.mem_singleton] at h
    rcases h with h | rfl
    · exact (List.takeWhile_prefix _).subset h
    · exact List.mem_of_mem_take htake
  · rw [fgetsScan_of_notMem htake] at h
    exact List.mem_of_mem_take h

theorem mem_firstLine_of_mem_fgetsScan {n : ℕ} {stdin : List UInt8} {c : UInt8}
    (h : c ∈ (fgetsScan n stdin).1) : c ∈ firstLine stdin ∨ c = newline := by
  by_cases htake : newline ∈ stdin.take n
  · rw [fgetsScan_of_mem htake, List.mem_append, List.mem_singleton] at h
    exact h
  · rw [fgetsScan_of_notMem htake] at h
    left
    rw [firstLine, ← List.take_append_drop n stdin,
      List.takeWhile_append_of_pos (decide_ne_of_notMem htake)]
    exact List.mem_append_left _ h

theorem fgets_eq {n : ℕ} (buffer : CharArray n) {stdin : List UInt8} (hne : stdin ≠ []) :
    fgets buffer stdin = some (buffer.store ((fgetsScan (n - 1) stdin).1 ++ [0]),
      (fgetsScan (n - 1) stdin).2) := by
  unfold fgets
  rw [if_neg hne]

theorem removeNewline_of_readLine {n : ℕ} {buffer b : CharArray n} {stdin rest : List UInt8}
    (h : readLine buffer stdin = .line b rest) :
    removeNewline (buffer.store ((fgetsScan (n - 1) stdin).1 ++ [0])).bytes
      (fgetsScan (n - 1) stdin).2 = some (b.bytes, rest) := by
  have hne : stdin ≠ [] := by
    intro hnil
    simp [hnil, readLine_of_nil] at h
  have hfgets := fgets_eq buffer hne
  generalize buffer.store ((fgetsScan (n - 1) stdin).1 ++ [0]) = stored at hfgets ⊢
  cases hremove : removeNewline stored.bytes (fgetsScan (n - 1) stdin).2 with
  | none => simp [readLine_eq_endless hfgets hremove] at h
  | some p =>
      obtain ⟨b', hread, hbytes⟩ := readLine_eq_line hfgets hremove
      obtain ⟨rfl, hrest⟩ : b' = b ∧ p.2 = rest := by simpa [hread] using h
      rw [hbytes, ← hrest]

/-- The loop of `fgets` stops at the first newline, as the text of a line does. -/
theorem lineText_fgetsScan (n : ℕ) (stdin t : List UInt8) :
    lineText ((fgetsScan n stdin).1 ++ 0 :: t) = lineText (stdin.take n) := by
  have hzero : ∀ s, lineText (s ++ 0 :: t) = lineText s := by
    intro s
    induction s with
    | nil => simp [lineText]
    | cons c s ih =>
        by_cases hc : c = 0
        · simp [lineText, hc]
        · simp only [lineText, List.cons_append, cstr_cons hc, List.takeWhile_cons] at ih ⊢
          rw [ih]
  rw [hzero]
  induction n generalizing stdin with
  | zero => rfl
  | succ n ih =>
      cases stdin with
      | nil => rfl
      | cons c stdin =>
          by_cases hn : c = newline
          · have hc : newline ≠ 0 := by decide
            simp [fgetsScan, hn, lineText, cstr_cons hc]
          · simp only [fgetsScan, hn, if_false, List.take_succ_cons]
            by_cases hc : c = 0
            · simp [lineText, hc]
            · simp only [lineText, cstr_cons hc, List.takeWhile_cons] at ih ⊢
              rw [ih]

section Stored

variable {n : ℕ} (hn : 0 < n) {buffer b : CharArray n} {stdin rest : List UInt8}

include hn

/-- The text of the line is what `fgets` stored of it. -/
theorem lineText_store :
    lineText (buffer.store ((fgetsScan (n - 1) stdin).1 ++ [0])).bytes =
      lineText (stdin.take (n - 1)) := by
  have hle := length_fgetsScan_le (n - 1) stdin
  rw [buffer.bytes_store, List.append_assoc, List.singleton_append, lineText_fgetsScan]
  rw [List.length_append, List.length_singleton]
  omega

theorem text_of_readLine (h : readLine buffer stdin = .line b rest) :
    b.text = lineText (stdin.take (n - 1)) := by
  rw [CharArray.text, removeNewline_eq_some (removeNewline_of_readLine h), lineText_store hn]

theorem newline_mem_of_readLine (h : readLine buffer stdin = .line b rest) : newline ∈ stdin := by
  have hremove := removeNewline_of_readLine h
  have hle := length_fgetsScan_le (n - 1) stdin
  rw [buffer.bytes_store (by simp; omega)] at hremove
  unfold removeNewline at hremove
  cases hp : strchr ((fgetsScan (n - 1) stdin).1 ++ [0] ++
      buffer.bytes.drop ((fgetsScan (n - 1) stdin).1 ++ [0]).length) newline with
  | some p =>
      have hzero : 0 ∈ (fgetsScan (n - 1) stdin).1 ++ [0] := List.mem_append_right _ (by simp)
      have hmem := (strchr_eq_none_iff _ newline).not.mp (by rw [hp]; simp)
      rw [not_not, cstr_append_of_mem hzero] at hmem
      have hor : newline ∈ (fgetsScan (n - 1) stdin).1 ++ [0] :=
        (List.takeWhile_prefix _).subset hmem
      rw [List.mem_append, List.mem_singleton] at hor
      exact mem_of_mem_fgetsScan (hor.resolve_right (by decide))
  | none =>
      by_contra hnot
      have hdrop : newline ∉ stdin.drop (n - 1) := fun hmem => hnot (List.mem_of_mem_drop hmem)
      have htake : newline ∉ stdin.take (n - 1) := fun hmem => hnot (List.mem_of_mem_take hmem)
      rw [hp, fgetsScan_of_notMem htake, flushStdin_eq, if_neg hdrop] at hremove
      simp at hremove

/-- A line that is read leaves a NUL in the buffer, even if there are NULs in the line. -/
theorem terminated_of_readLine (h : readLine buffer stdin = .line b rest) : b.Terminated := by
  have hle : (lineText (stdin.take (n - 1))).length ≤ n - 1 := by
    have hline := (List.takeWhile_prefix (l := cstr (stdin.take (n - 1))) (· ≠ newline)).length_le
    have hcstr := length_cstr_le (stdin.take (n - 1))
    exact (hline.trans hcstr).trans (List.length_take_le _ _)
  rw [CharArray.terminated_iff, text_of_readLine hn h]
  omega

/-- A line is read if its text fills the buffer up to the last character or the last but one: a NUL
in front of the newline would have made the text shorter. -/
theorem readLine_of_long (hline : newline ∈ stdin)
    (hlong : n - 2 ≤ (lineText (stdin.take (n - 1))).length) :
    ∃ b rest, readLine buffer stdin = .line b rest := by
  have hfgets := fgets_eq buffer (List.ne_nil_of_mem hline)
  suffices ∃ p, removeNewline (buffer.store ((fgetsScan (n - 1) stdin).1 ++ [0])).bytes
      (fgetsScan (n - 1) stdin).2 = some p by
    obtain ⟨p, hp⟩ := this
    obtain ⟨b, hb, -⟩ := readLine_eq_line hfgets hp
    exact ⟨b, _, hb⟩
  unfold removeNewline
  cases hp : strchr (buffer.store ((fgetsScan (n - 1) stdin).1 ++ [0])).bytes newline with
  | some p => exact ⟨_, rfl⟩
  | none =>
      suffices newline ∈ (fgetsScan (n - 1) stdin).2 by simp [flushStdin_eq, this]
      by_cases htake : newline ∈ stdin.take (n - 1)
      · exfalso
        have hle := length_fgetsScan_le (n - 1) stdin
        rw [← lineText_store hn, lineText] at hlong
        rw [strchr_eq_none_iff] at hp
        rw [buffer.bytes_store (by simp; omega), fgetsScan_of_mem htake] at hp hlong
        rw [fgetsScan_of_mem htake, List.length_append, List.length_singleton] at hle
        simp only [List.append_assoc] at hp hlong
        have hzero : 0 ∈ firstLine stdin := by
          by_contra hnot
          simp [cstr_append_of_notMem hnot, cstr_cons (show newline ≠ 0 by decide)] at hp
        rw [cstr_append_of_mem hzero] at hlong
        have hshort := (zero_mem_iff_length_cstr_lt (firstLine stdin)).mp hzero
        have hshorter := (List.takeWhile_prefix (l := cstr (firstLine stdin)) (· ≠ newline)).length_le
        omega
      · rw [fgetsScan_of_notMem htake]
        rw [← List.take_append_drop (n - 1) stdin, List.mem_append] at hline
        exact hline.resolve_left htake

end Stored

section OneLine

variable {n : ℕ} (hn : 2 ≤ n) (buffer : CharArray n) {stdin : List UInt8}
  (hzero : 0 ∉ firstLine stdin)

include hn hzero

theorem text_fgets : (buffer.store ((fgetsScan (n - 1) stdin).1 ++ [0])).text =
    (fgetsScan (n - 1) stdin).1 := by
  have hle := length_fgetsScan_le (n - 1) stdin
  refine buffer.text_store (fun hmem => ?_) (by omega)
  exact (mem_firstLine_of_mem_fgetsScan hmem).elim hzero (by decide)

/-- The line fits together with its newline, which becomes the NUL. -/
theorem takesLine_of_mem_take (h : newline ∈ stdin.take (n - 1)) : TakesLine buffer stdin := by
  have hne : stdin ≠ [] := by
    rintro rfl
    simp at h
  have htext := text_fgets hn buffer hzero
  have hfgets := fgets_eq buffer hne
  rw [fgetsScan_of_mem h] at htext hfgets
  have hnl : newline ∉ firstLine stdin := notMem_takeWhile_ne newline stdin
  have hlen : (firstLine stdin).length < n - 1 := by
    have hle := length_fgetsScan_le (n - 1) stdin
    rw [fgetsScan_of_mem h, List.length_append] at hle
    exact hle
  generalize buffer.store (firstLine stdin ++ [newline] ++ [0]) = stored at htext hfgets
  have hline : lineText stored.bytes = firstLine stdin := by
    change stored.text.takeWhile (· ≠ newline) = _
    rw [htext, takeWhile_ne_append_cons hnl]
  cases hp : strchr stored.bytes newline with
  | none =>
      have hmem : newline ∈ stored.text := by simp [htext]
      exact absurd hmem ((strchr_eq_none_iff _ _).mp hp)
  | some p =>
      have hremove : removeNewline stored.bytes (afterLine stdin) =
          some (stored.bytes.set p 0, afterLine stdin) := by
        rw [removeNewline, hp]
      obtain ⟨buffer', hread, hbytes⟩ := readLine_eq_line hfgets hremove
      have htext' : buffer'.text = firstLine stdin := by
        rw [CharArray.text, hbytes, removeNewline_eq_some hremove, hline]
      refine ⟨buffer', hread, buffer'.terminated_iff.mpr ?_, ?_⟩
      · rw [htext']
        omega
      · rw [htext', List.take_of_length_le hlen.le]

/-- The buffer is filled by a part of the line, or by all of it but the newline. -/
theorem takesLine_of_notMem_take (h : newline ∉ stdin.take (n - 1)) (hmem : newline ∈ stdin) :
    TakesLine buffer stdin := by
  have hne : stdin ≠ [] := List.ne_nil_of_mem hmem
  have htext := text_fgets hn buffer hzero
  have hfgets := fgets_eq buffer hne
  rw [fgetsScan_of_notMem h] at htext hfgets
  generalize buffer.store (stdin.take (n - 1) ++ [0]) = stored at htext hfgets
  have hpos := decide_ne_of_notMem h
  have hsplit := List.take_append_drop (n - 1) stdin
  have hrest : newline ∈ stdin.drop (n - 1) := by
    rw [← hsplit, List.mem_append] at hmem
    exact hmem.resolve_left h
  have hafter : afterLine (stdin.drop (n - 1)) = afterLine stdin := by
    conv_rhs => rw [← hsplit]
    rw [afterLine, afterLine, List.dropWhile_append_of_pos hpos]
  have hfirst : (firstLine stdin).take (n - 1) = stdin.take (n - 1) := by
    conv_lhs => rw [← hsplit]
    rw [firstLine, List.takeWhile_append_of_pos hpos]
    apply List.take_left'
    have hlt := List.length_pos_of_mem hrest
    rw [List.length_drop] at hlt
    rw [List.length_take]
    omega
  have hp : strchr stored.bytes newline = none := by
    rw [strchr_eq_none_iff]
    change newline ∉ stored.text
    rwa [htext]
  have hremove : removeNewline stored.bytes (stdin.drop (n - 1)) =
      some (stored.bytes, afterLine stdin) := by
    rw [removeNewline, hp, ← hafter]
    simp [flushStdin_eq, hrest]
  obtain ⟨buffer', hread, hbytes⟩ := readLine_eq_line hfgets hremove
  have htext' : buffer'.text = stdin.take (n - 1) := by
    rw [CharArray.text, hbytes]
    exact htext
  refine ⟨buffer', hread, buffer'.terminated_iff.mpr ?_, htext'.trans hfirst.symm⟩
  rw [htext', List.length_take]
  omega

theorem takesLine (hmem : newline ∈ stdin) : TakesLine buffer stdin := by
  by_cases htake : newline ∈ stdin.take (n - 1)
  · exact takesLine_of_mem_take hn buffer hzero htake
  · exact takesLine_of_notMem_take hn buffer hzero htake hmem

theorem readLine_of_notMem (hne : stdin ≠ []) (h : newline ∉ stdin) :
    readLine buffer stdin = .endless := by
  have htake : newline ∉ stdin.take (n - 1) := fun hmem => h (List.mem_of_mem_take hmem)
  have hdrop : newline ∉ stdin.drop (n - 1) := fun hmem => h (List.mem_of_mem_drop hmem)
  have htext := text_fgets hn buffer hzero
  have hfgets := fgets_eq buffer hne
  rw [fgetsScan_of_notMem htake] at htext hfgets
  apply readLine_eq_endless hfgets
  have hp : strchr (buffer.store (stdin.take (n - 1) ++ [0])).bytes newline = none := by
    rw [strchr_eq_none_iff]
    change newline ∉ (buffer.store (stdin.take (n - 1) ++ [0])).text
    rwa [htext]
  rw [removeNewline, hp]
  simp [flushStdin_eq, hdrop]

end OneLine

theorem readLine_append_newline {n : ℕ} (hn : 2 ≤ n) (buffer : CharArray n) {text : List UInt8}
    (hnewline : newline ∉ text) (hzero : 0 ∉ text) (rest : List UInt8) :
    ∃ b : CharArray n, readLine buffer (text ++ newline :: rest) = .line b rest ∧ b.Terminated ∧
      b.text = text.take (n - 1) := by
  have hfirst : firstLine (text ++ newline :: rest) = text := takeWhile_ne_append_cons hnewline rest
  have hafter : afterLine (text ++ newline :: rest) = rest := by
    rw [afterLine, List.dropWhile_append_of_pos (decide_ne_of_notMem hnewline)]
    simp
  have htakes := takesLine hn buffer (hfirst.symm ▸ hzero)
    (show newline ∈ text ++ newline :: rest by simp)
  rwa [TakesLine, hfirst, hafter] at htakes

/-- `read_line` reads exactly one line, if there is a newline in the input or nothing at all. -/
theorem read_line_one_line (n : ℕ) (hn : 2 ≤ n) (buffer : CharArray n) (stdin : List UInt8)
    (hstdin : 0 ∉ stdin) : ReadsOneLine buffer stdin ↔ stdin = [] ∨ newline ∈ stdin := by
  have hzero : 0 ∉ firstLine stdin := fun h => hstdin ((List.takeWhile_prefix _).subset h)
  constructor
  · intro h
    by_contra hcontra
    obtain ⟨hne, hnot⟩ := not_or.mp hcontra
    exact h.ends (readLine_of_notMem hn buffer hzero hne hnot)
  · intro h
    by_cases hne : stdin = []
    · subst hne
      have heof := readLine_of_nil buffer
      exact ⟨by simp [heof], iff_of_true heof rfl, fun hne => absurd rfl hne⟩
    · have hmem : newline ∈ stdin := h.resolve_left hne
      have htakes := takesLine hn buffer hzero hmem
      have ⟨buffer', hread, _⟩ := htakes
      exact ⟨by simp [hread], iff_of_false (by simp [hread]) hne, fun _ => htakes⟩

theorem read_line_one_line_long :
    2 ≤ 4 ∧ ReadsOneLine (strncpy 4 []) (ascii "12345\n6\n") :=
  ⟨by decide, (read_line_one_line 4 (by decide) _ _ (by decide)).mpr (by decide)⟩

/-- A digit that no newline follows is never read. -/
theorem read_line_one_line_unfinished :
    ¬ ∀ (n : ℕ) (_ : 2 ≤ n) (buffer : CharArray n) (stdin : List UInt8) (_ : 0 ∉ stdin),
      ReadsOneLine buffer stdin := by
  intro h
  exact (h 12 (by decide) (strncpy 12 []) (ascii "5") (by decide)).ends (by decide +kernel)

end LinuxIPC
