import LinuxIPC.SharedMemory

/-!
# The integers that the reader shows

However the reader polls, it shows some of the integers accepted by the writer, in their order, never
0 and never the same one twice in a row. It misses none of the changes if it polls after each copy
before the writer clears the memory again.
-/

namespace LinuxIPC

open CString Runs

structure ShowsSome (s : SharedMemory) : Prop where
  sublist : s.printed.Sublist s.stored
  accepted : s.stored <+: s.accepted
  nonzero : ∀ value ∈ s.printed, value ≠ 0
  changes : s.printed.IsChain (· ≠ ·)

/-- Whether the memory holds an integer that was copied to it and not polled since, after a step. -/
def awaitsPoll (awaits : Bool) : ShmStep → Bool
  | .copy => true
  | .poll _ _ _ => false
  | _ => awaits

def eachPolled : Bool → List ShmStep → Bool
  | _, [] => true
  | awaits, .clear :: steps => !awaits && eachPolled awaits steps
  | awaits, e :: steps => eachPolled (awaitsPoll awaits e) steps

/-- The integers that were to be seen: all that were stored but one that is still to be copied or
polled. -/
def SharedMemory.shown (s : SharedMemory) (awaits : Bool) : List ℤ :=
  if awaits ∨ s.writer.phase = .cleared then s.stored.dropLast else s.stored

theorem getLast?_destutter {α : Type*} [DecidableEq α] (l : List α) :
    (l.destutter (· ≠ ·)).getLast? = l.getLast? := by
  induction l using List.reverseRecOn with
  | nil => rfl
  | append_singleton l x ih =>
      rw [destutter_concat]
      split_ifs with h
      · rw [ih, h, List.getLast?_concat]
      · rw [List.getLast?_concat, List.getLast?_concat]

theorem sublist_of_getLast?_ne {α : Type*} {l front : List α} {x : α}
    (h : l.Sublist (front ++ [x])) (hne : l.getLast? ≠ some x) : l.Sublist front := by
  obtain ⟨l₁, l₂, rfl, hfront, hlast⟩ := List.sublist_append_iff.mp h
  rcases List.sublist_singleton.mp hlast with rfl | rfl
  · rwa [List.append_nil]
  · exact absurd List.getLast?_concat hne

/-- The last integer printed is the reader's `last_value`. -/
theorem ReaderInv.getLast_printed {s : SharedMemory} (h : ReaderInv s) :
    s.printed.getLast? = if s.reader.printed then some s.reader.lastValue else none := by
  rw [h.printed_eq, getLast?_destutter, h.getLast]

/-- A poll prints the integer that the memory holds, if it is not the one printed last. -/
theorem SharedMemory.step_poll {s s' : SharedMemory} (hw : WriterInv s) (hr : ReaderInv s)
    {errno : ℤ} {buffer : CharArray intLen} {stack : List UInt8}
    (h : s.step (.poll errno buffer stack) = some s') :
    s'.writer = s.writer ∧ s'.stored = s.stored ∧ s'.accepted = s.accepted ∧
      (s'.printed = s.printed ∧ (s.writer.phase = .cleared ∨ s.stored = []) ∨
        ∃ value, s.writer.phase ≠ .cleared ∧ s.stored.getLast? = some value ∧
          s'.printed =
            if s.printed.getLast? = some value then s.printed else s.printed ++ [value]) := by
  have hread : readIntFromBuffer errno (s.polled buffer stack) =
      if s.writer.phase = .cleared then none else s.stored.getLast? := by
    rw [s.polled_eq, readIntFromBuffer_append hw.terminated, hw.parses]
  simp only [SharedMemory.step, Option.some.injEq] at h
  cases hvalue : readIntFromBuffer errno (s.polled buffer stack) with
  | none =>
      rw [s.reader.poll_of_none hvalue] at h
      rw [hvalue] at hread
      subst h
      refine ⟨rfl, rfl, rfl, Or.inl ⟨by simp, ?_⟩⟩
      by_cases hphase : s.writer.phase = .cleared
      · exact Or.inl hphase
      · rw [if_neg hphase] at hread
        exact Or.inr (List.getLast?_eq_none_iff.mp hread.symm)
  | some value =>
      rw [s.reader.poll_of_some hvalue] at h
      rw [hvalue] at hread
      have hphase : s.writer.phase ≠ .cleared := by
        intro hc
        simp [hc] at hread
      rw [if_neg hphase] at hread
      subst h
      refine ⟨rfl, rfl, rfl, Or.inr ⟨value, hphase, hread.symm, ?_⟩⟩
      have hrepeat : s.printed.getLast? = some value ↔
          s.reader.printed = true ∧ s.reader.lastValue = value := by
        rw [hr.getLast_printed]
        cases s.reader.printed <;> simp
      simp only [hrepeat]
      split_ifs <;> simp

structure ShownInv (s : SharedMemory) : Prop where
  writer : WriterInv s
  reader : ReaderInv s
  sublist : s.printed.Sublist s.stored
  nonzero : ∀ value ∈ s.accepted, value ≠ 0

theorem Writer.value_ne_zero (w : Writer) {errno : ℤ} {buffer : CharArray intLen}
    {stack : List UInt8} (h : (w.enter errno buffer stack).phase = .validated) :
    (w.enter errno buffer stack).prompt.value ≠ 0 := by
  have hspec := @Prompt.enter_nonzero w.prompt errno buffer stack
  unfold Writer.enter at h ⊢
  split at h
  · simp at h
  · exact absurd h (loopTest_ne _).1
  · exact absurd h (loopTest_ne _).1
  · rename_i prompt heq
    rw [heq] at hspec
    exact (hspec rfl).2.2.2.2

theorem ShownInv.step {s s' : SharedMemory} (h : ShownInv s) {e : ShmStep}
    (hstep : s.step e = some s') : ShownInv s' := by
  have hwriter := h.writer.step hstep
  have hreader := h.reader.step hstep
  cases e with
  | enter errno buffer stack =>
      obtain ⟨-, rfl⟩ := SharedMemory.step_enter hstep
      refine ⟨hwriter, hreader, h.sublist, fun value hvalue => ?_⟩
      simp only at hvalue
      split_ifs at hvalue with hvalidated
      · rcases List.mem_append.mp hvalue with hvalue | hvalue
        · exact h.nonzero value hvalue
        · rw [List.mem_singleton.mp hvalue]
          exact s.writer.value_ne_zero hvalidated
      · exact h.nonzero value hvalue
  | clear =>
      obtain ⟨-, rfl⟩ := SharedMemory.step_clear hstep
      exact ⟨hwriter, hreader, h.sublist.trans (List.sublist_append_left _ _), h.nonzero⟩
  | copy =>
      obtain ⟨-, rfl⟩ := SharedMemory.step_copy hstep
      exact ⟨hwriter, hreader, h.sublist, h.nonzero⟩
  | poll errno buffer stack =>
      obtain ⟨-, hstored, haccepted, hprinted⟩ :=
        SharedMemory.step_poll h.writer h.reader hstep
      refine ⟨hwriter, hreader, ?_, haccepted ▸ h.nonzero⟩
      rw [hstored]
      rcases hprinted with ⟨hsame, -⟩ | ⟨value, -, hlast, hprinted⟩
      · exact hsame ▸ h.sublist
      · rw [hprinted]
        split_ifs with hrepeat
        · exact h.sublist
        · have hsplit := List.dropLast_append_getLast? value hlast
          have hfront := sublist_of_getLast?_ne (hsplit ▸ h.sublist) hrepeat
          rw [← hsplit]
          exact hfront.append_right [value]

theorem ShownInv.init (stdin : List UInt8) (input : CharArray intLen) (region : CharArray shmSize) :
    ShownInv (.init stdin input region) :=
  ⟨writerInv_init stdin input region, ⟨rfl, rfl⟩, List.Sublist.refl _, by simp [SharedMemory.init]⟩

theorem ShownInv.showsSome {s : SharedMemory} (h : ShownInv s) : ShowsSome s := by
  have haccepted : s.stored <+: s.accepted := by
    rw [h.writer.accepted_eq]
    split_ifs
    · exact List.prefix_append _ _
    · exact List.prefix_rfl
  refine ⟨h.sublist, haccepted, fun value hvalue => ?_, ?_⟩
  · exact h.nonzero value (haccepted.subset (h.sublist.subset hvalue))
  · rw [h.reader.printed_eq]
    exact List.isChain_destutter _ _

/-- In every run the integers shown are some of those stored, in their order, without 0 and without
repeats. -/
theorem reader_shows_some_stored (stdin : List UInt8) (input : CharArray intLen)
    (region : CharArray shmSize) (steps : List ShmStep) :
    Throughout SharedMemory.step ShowsSome (.init stdin input region) steps :=
  throughout_of_invariant (fun _ _ _ h hstep => h.step hstep) (fun _ h => h.showsSome)
    (ShownInv.init stdin input region) steps

structure SeenInv (awaits : Bool) (s : SharedMemory) : Prop where
  writer : WriterInv s
  reader : ReaderInv s
  printed_eq : s.printed = (s.shown awaits).destutter (· ≠ ·)

theorem eachPolled_cons {awaits : Bool} {e : ShmStep} {steps : List ShmStep}
    (h : eachPolled awaits (e :: steps) = true) :
    (e = .clear → awaits = false) ∧ eachPolled (awaitsPoll awaits e) steps = true := by
  cases e with
  | clear =>
      rw [eachPolled, Bool.and_eq_true, Bool.not_eq_true'] at h
      exact ⟨fun _ => h.1, h.2⟩
  | enter errno buffer stack => exact ⟨nofun, h⟩
  | copy => exact ⟨nofun, h⟩
  | poll errno buffer stack => exact ⟨nofun, h⟩

theorem SeenInv.step {awaits : Bool} {s s' : SharedMemory} (h : SeenInv awaits s) {e : ShmStep}
    (hclear : e = .clear → awaits = false) (hstep : s.step e = some s') :
    SeenInv (awaitsPoll awaits e) s' := by
  refine ⟨h.writer.step hstep, h.reader.step hstep, ?_⟩
  have hprinted := h.printed_eq
  cases e with
  | enter errno buffer stack =>
      obtain ⟨hphase, rfl⟩ := SharedMemory.step_enter hstep
      have hne := s.writer.enter_ne_cleared errno buffer stack
      simpa [SharedMemory.shown, hphase, hne, awaitsPoll] using hprinted
  | clear =>
      obtain ⟨hphase, rfl⟩ := SharedMemory.step_clear hstep
      have hshown : s.shown awaits = s.stored := by
        rw [SharedMemory.shown, hclear rfl, hphase]
        simp
      rw [hshown] at hprinted
      simpa [SharedMemory.shown] using hprinted
  | copy =>
      obtain ⟨hphase, rfl⟩ := SharedMemory.step_copy hstep
      simpa [SharedMemory.shown, hphase, awaitsPoll] using hprinted
  | poll errno buffer stack =>
      obtain ⟨hwriter, hstored, -, hcases⟩ := SharedMemory.step_poll h.writer h.reader hstep
      rcases hcases with ⟨hsame, hnothing⟩ | ⟨value, hphase, hlast, hadded⟩
      · have hshown : s'.shown (awaitsPoll awaits (.poll errno buffer stack)) = s.shown awaits := by
          rcases hnothing with hcleared | hempty
          · simp [SharedMemory.shown, hwriter, hstored, hcleared]
          · simp [SharedMemory.shown, hstored, hempty]
        rw [hsame, hshown, hprinted]
      · have hshown : s'.shown (awaitsPoll awaits (.poll errno buffer stack)) = s.stored := by
          simp [SharedMemory.shown, awaitsPoll, hwriter, hstored, hphase]
        have hsplit := List.dropLast_append_getLast? value hlast
        rw [hadded, hshown]
        cases awaits with
        | false =>
            have hall : s.shown false = s.stored := by simp [SharedMemory.shown, hphase]
            rw [hall] at hprinted
            rw [hprinted, getLast?_destutter, hlast, if_pos rfl]
        | true =>
            have hall : s.shown true = s.stored.dropLast := by simp [SharedMemory.shown]
            rw [hall] at hprinted
            rw [hprinted, getLast?_destutter, ← destutter_concat, hsplit]

theorem SeenInv.run {awaits : Bool} {s s' : SharedMemory} {steps : List ShmStep}
    (h : SeenInv awaits s) (hpolled : eachPolled awaits steps = true)
    (hrun : run SharedMemory.step s steps = some s') : SeenInv (steps.foldl awaitsPoll awaits) s' := by
  induction steps generalizing awaits s with
  | nil => exact Option.some.inj hrun ▸ h
  | cons e steps ih =>
      obtain ⟨t, hst, htr⟩ := run_cons_eq_some.mp hrun
      obtain ⟨hclear, hrest⟩ := eachPolled_cons hpolled
      exact ih (h.step hclear hst) hrest htr

/-- If every integer copied is polled before the memory is cleared again, then every change among
the integers stored is shown. -/
theorem polled_integers_shown (stdin : List UInt8) (input : CharArray intLen)
    (region : CharArray shmSize) (steps : List ShmStep) (hpolled : eachPolled false steps = true)
    (s : SharedMemory) (hrun : run SharedMemory.step (.init stdin input region) steps = some s) :
    s.printed = (s.shown (steps.foldl awaitsPoll false)).destutter (· ≠ ·) := by
  have hinit : SeenInv false (.init stdin input region) :=
    ⟨writerInv_init stdin input region, ⟨rfl, rfl⟩, rfl⟩
  exact (hinit.run hpolled hrun).printed_eq

def writeAndPoll : List ShmStep :=
  [.enter 0 (strncpy intLen []) [], .clear, .copy, .poll 0 (strncpy intLen []) []]

/-- Of 7, 7 and -1, each of them polled, 7 and -1 are shown. -/
theorem polled_integers_shown_change :
    ∃ s, run SharedMemory.step
        (.init (ascii "7\n7\n-1\n") (strncpy intLen []) (strncpy shmSize []))
        (writeAndPoll ++ writeAndPoll ++ writeAndPoll) = some s ∧
      s.stored = [7, 7, -1] ∧ s.printed = [7, -1] := by
  have hstored : (run SharedMemory.step
      (.init (ascii "7\n7\n-1\n") (strncpy intLen []) (strncpy shmSize []))
      (writeAndPoll ++ writeAndPoll ++ writeAndPoll)).map
        (fun s => (s.stored, decide (s.writer.phase = .cleared))) = some ([7, 7, -1], false) := by
    decide +kernel
  obtain ⟨s, hrun, hs⟩ := Option.map_eq_some_iff.mp hstored
  obtain ⟨hs, hphase⟩ := Prod.mk.inj hs
  have hprinted := polled_integers_shown _ _ _ _ (by decide) s hrun
  have hawaits : (writeAndPoll ++ writeAndPoll ++ writeAndPoll).foldl awaitsPoll false = false := by
    decide
  have hchanges : ([7, 7, -1] : List ℤ).destutter (· ≠ ·) = [7, -1] := by decide
  rw [hawaits, SharedMemory.shown, if_neg (by simpa using hphase), hs, hchanges] at hprinted
  exact ⟨s, hrun, hs, hprinted⟩

end LinuxIPC
