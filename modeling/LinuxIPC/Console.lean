import LinuxIPC.AdminInvariant
import LinuxIPC.Runs

/-!
# Runs of the admin console

A run is a sequence of calls of `handle_admin_input`. Beside the variables of the program, two
histories are kept: the messages handed to `send_synchronization_message`, and the last line that
was accepted as the subnet of a record to create or to update.
-/

namespace LinuxIPC

open CString Runs

structure AdminInput where
  amb : Ambient
  buffer : List UInt8
  stdin : List UInt8

abbrev bufSize : ℕ := 32

def AdminInput.ofLine (amb : Ambient) (line : List UInt8) : AdminInput :=
  ⟨amb, line ++ newline :: List.replicate (bufSize - 1 - line.length) 0 ++ amb.stack, []⟩

def typed (line : String) : AdminInput := AdminInput.ofLine Ambient.zero (ascii line)

structure Console where
  admin : Admin
  broadcasts : List SyncMsg
  entered : List UInt8

def Console.init (entry : EntryType) (record : MsgBody) : Console :=
  ⟨⟨[], .idle, entry, record⟩, [], []⟩

def AdminInput.answer (i : AdminInput) (a : Admin) : Option Answer :=
  (handleAdminInput i.amb a i.buffer i.stdin).map Prod.fst

def Console.after (c : Console) (i : AdminInput) (answer : Answer) : Console where
  admin := answer.admin
  broadcasts := c.broadcasts ++ answer.broadcast.toList
  entered := if answer.reply = .prompt ∧ c.admin.entry = .subnet then lineText i.buffer
    else c.entered

/-- The console after a call; `none` when the call waits for ever or shuts the server down. -/
def consoleStep (c : Console) (i : AdminInput) : Option Console :=
  (i.answer c.admin).bind fun answer =>
    if answer.reply = .shutdown then none else some (c.after i answer)

theorem AdminInput.answer_effect {i : AdminInput} {a : Admin} {answer : Answer}
    (h : i.answer a = some answer) : LineEffect a (lineText i.buffer) answer := by
  simp only [AdminInput.answer, handleAdminInput, Option.map_map, Option.map_eq_some_iff] at h
  obtain ⟨⟨buffer, rest⟩, hremove, rfl⟩ := h
  rw [← removeNewline_eq_some hremove]
  exact handleAdminLine_effect i.amb a buffer

theorem consoleStep_eq_some {c c' : Console} {i : AdminInput} (h : consoleStep c i = some c') :
    ∃ answer, i.answer c.admin = some answer ∧ answer.reply ≠ .shutdown ∧ c' = c.after i answer := by
  obtain ⟨answer, hanswer, hstep⟩ := Option.bind_eq_some_iff.mp h
  by_cases hshut : answer.reply = .shutdown
  · simp [hshut] at hstep
  · rw [if_neg hshut] at hstep
    exact ⟨answer, hanswer, hshut, (Option.some.inj hstep).symm⟩

theorem consoleStep_adminOk {c c' : Console} {i : AdminInput} (h : AdminOk c.admin)
    (hstep : consoleStep c i = some c') : AdminOk c'.admin := by
  obtain ⟨answer, hanswer, -, rfl⟩ := consoleStep_eq_some hstep
  exact h.step (AdminInput.answer_effect hanswer)

end LinuxIPC
