import LinuxIPC.MessageQueue

/-!
# What passes through the message queue

The client goes on when the queue refuses a message, so that an integer is lost exactly when its text
has ten characters or more. All others arrive in the order in which their client accepted them,
the queue never holds more than `MAX_MESSAGES`, and what the server receives is always an integer.
-/

namespace LinuxIPC

open CString Runs

def fitsMessage (a : List UInt8 × Option ℤ) : Bool := a.1.length < maxMessages

section History

variable {ι : Type*} [DecidableEq ι]

/-- Of the integers accepted from a client, those that fit a message are received, in the queue or
about to be sent, in this order. -/
def MqSystem.LosesLong (s : MqSystem ι) : Prop :=
  ∀ k, (s.acceptedBy k).filter fitsMessage =
    s.receivedFrom k ++ s.queuedFrom k ++ (s.pendingFrom k).filter fitsMessage

structure QueueHistory (s : MqSystem ι) : Prop where
  loses : s.LosesLong
  bounded : s.queue.length ≤ maxMessages
  integers : ∀ r ∈ s.received, ∃ value, r.2.2 = some value ∧ Accepts r.2.1 value

theorem MqSystem.LosesLong.enter {s s' : MqSystem ι} (h : s.LosesLong) {k : ι} {errno : ℤ}
    {buffer : CharArray intLen} {stack : List UInt8}
    (hstep : s.step (.enter k errno buffer stack) = some s') : s'.LosesLong := by
  obtain ⟨hphase, rfl⟩ := MqSystem.step_enter hstep
  intro j
  have hj := h j
  by_cases hjk : j = k
  · subst hjk
    have hpending : s.pendingFrom j = [] := if_neg (by simp [hphase])
    rw [hpending, List.filter_nil, List.append_nil] at hj
    simp only [acceptedBy, receivedFrom, queuedFrom, pendingFrom, Function.update_self] at hj ⊢
    split_ifs
    · rw [ofClient_append, ofClient_singleton, if_pos rfl, List.map_append, List.filter_append, hj]
      rfl
    · rw [hj, List.filter_nil, List.append_nil]
  · simp only [acceptedBy, receivedFrom, queuedFrom, pendingFrom, Function.update_of_ne hjk] at hj ⊢
    rw [← hj]
    split_ifs
    · rw [ofClient_append, ofClient_singleton, if_neg (Ne.symm hjk), List.append_nil]
    · rfl

omit [DecidableEq ι] in
/-- A string is read from its message as it was accepted. -/
theorem MqInv.readMessage_eq {s : MqSystem ι} (h : MqInv s) {k : ι}
    (hphase : (s.client k).phase = .sending) :
    readMessage (s.client k).message =
      ((s.client k).prompt.input.text, some (s.client k).prompt.value) := by
  obtain ⟨hterm, hread, -⟩ := h.sending k hphase
  have htext : cstr (s.client k).message = (s.client k).prompt.input.text := by
    rw [MqClient.message_eq hterm, CharArray.text, cstr_append_of_notMem (zero_notMem_cstr _),
      cstr_zero_cons, List.append_nil]
  rw [readMessage, htext, ← hread]
  exact congrArg _ (readIntFromBuffer_congr 0 (htext.trans (cstr_cstr _).symm))

theorem MqSystem.LosesLong.send {s s' : MqSystem ι} (hinv : MqInv s) (h : s.LosesLong) {k : ι}
    (hstep : s.step (.send k) = some s') : s'.LosesLong := by
  obtain ⟨hphase, hor⟩ := MqSystem.step_send hstep
  have hlength := MqClient.length_message_le (hinv.sending k hphase).1
  intro j
  have hj := h j
  by_cases hjk : j = k
  · subst hjk
    have hpending : s.pendingFrom j =
        [((s.client j).prompt.input.text, some (s.client j).prompt.value)] := if_pos hphase
    rw [hpending, List.filter_singleton, fitsMessage] at hj
    obtain ⟨hlong, rfl⟩ | ⟨hshort, rfl⟩ := hor
    · have hdropped : ¬ (s.client j).prompt.input.text.length < maxMessages := by
        rw [← hlength]
        exact not_le.mpr hlong
      simp only [hdropped, decide_false, cond_false, acceptedBy, receivedFrom, queuedFrom,
        pendingFrom, Function.update_self, MqClient.sent, loopTest_ne_sending, if_false,
        List.filter_nil] at hj ⊢
      exact hj
    · have hkept := hlength.mp hshort
      simp only [hkept, decide_true, cond_true, acceptedBy, receivedFrom, queuedFrom, pendingFrom,
        Function.update_self, MqClient.sent, loopTest_ne_sending, if_false, List.filter_nil]
        at hj ⊢
      rw [hj, ofClient_append, ofClient_singleton, if_pos rfl, List.map_append, List.map_singleton,
        hinv.readMessage_eq hphase, List.append_nil, List.append_assoc]
  · obtain ⟨-, rfl⟩ | ⟨-, rfl⟩ := hor <;>
      simp only [acceptedBy, receivedFrom, queuedFrom, pendingFrom, Function.update_of_ne hjk]
        at hj ⊢
    · exact hj
    · rw [hj, ofClient_append, ofClient_singleton, if_neg (Ne.symm hjk), List.append_nil]

theorem MqSystem.LosesLong.receive {s s' : MqSystem ι} (hinv : MqInv s) (h : s.LosesLong)
    {errno : ℤ} {buffer : CharArray intLen} {stack : List UInt8}
    (hstep : s.step (.receive errno buffer stack) = some s') : s'.LosesLong := by
  obtain ⟨k, message, queue, hqueue, rfl⟩ := MqSystem.step_receive hinv hstep
  intro j
  have hj := h j
  rw [queuedFrom, hqueue, ← List.singleton_append, ofClient_append] at hj
  simp only [acceptedBy, receivedFrom, queuedFrom, pendingFrom] at hj ⊢
  rw [hj, ofClient_append, ofClient_singleton, ofClient_singleton]
  split_ifs <;> simp

/-- A message is only queued where there is room. -/
theorem MqSystem.length_queue_send {s s' : MqSystem ι} {k : ι}
    (hbound : s.queue.length ≤ maxMessages) (h : s.step (.send k) = some s') :
    s'.queue.length ≤ maxMessages := by
  simp only [MqSystem.step, Option.ite_none_right_eq_some] at h
  obtain ⟨-, h⟩ := h
  cases hsend : mqSend mqAttr s.queue.length (s.client k).message.length with
  | blocks => simp [hsend] at h
  | refused =>
      rw [hsend, Option.some.injEq] at h
      exact h ▸ hbound
  | queued =>
      have hroom : s.queue.length < maxMessages := by
        by_contra hfull
        unfold mqSend at hsend
        split_ifs at hsend with hlong hless
        exact hfull hless
      rw [hsend, Option.some.injEq] at h
      rw [← h, List.length_append, List.length_singleton]
      exact hroom

structure HistoryInv (s : MqSystem ι) : Prop where
  inv : MqInv s
  history : QueueHistory s
  queued : ∀ m ∈ s.queue, ∃ value, (readMessage m.2).2 = some value ∧
    Accepts (readMessage m.2).1 value

theorem HistoryInv.step {s s' : MqSystem ι} (h : HistoryInv s) {e : MqStep ι}
    (hstep : s.step e = some s') : HistoryInv s' := by
  have hinv := h.inv.step hstep
  cases e with
  | enter k errno buffer stack =>
      have hloses := h.history.loses.enter hstep
      obtain ⟨-, rfl⟩ := MqSystem.step_enter hstep
      exact ⟨hinv, ⟨hloses, h.history.bounded, h.history.integers⟩, h.queued⟩
  | send k =>
      have hloses := h.history.loses.send h.inv hstep
      have hbound := MqSystem.length_queue_send h.history.bounded hstep
      obtain ⟨hphase, hor⟩ := MqSystem.step_send hstep
      have hmessage := h.inv.readMessage_eq hphase
      obtain ⟨-, haccepts⟩ := h.inv.sending k hphase
      obtain ⟨-, rfl⟩ | ⟨-, rfl⟩ := hor
      · exact ⟨hinv, ⟨hloses, hbound, h.history.integers⟩, h.queued⟩
      · refine ⟨hinv, ⟨hloses, hbound, h.history.integers⟩, fun m hm => ?_⟩
        rcases List.mem_append.mp hm with hm | hm
        · exact h.queued m hm
        · rw [List.mem_singleton.mp hm, hmessage]
          exact ⟨_, rfl, haccepts⟩
  | receive errno buffer stack =>
      have hloses := h.history.loses.receive h.inv hstep
      obtain ⟨k, message, queue, hqueue, rfl⟩ := MqSystem.step_receive h.inv hstep
      have hmessage := h.queued (k, message) (by simp [hqueue])
      have hrest : ∀ m ∈ queue, m ∈ s.queue := fun m hm => hqueue ▸ List.mem_cons_of_mem _ hm
      refine ⟨hinv, ⟨hloses, ?_, fun r hr => ?_⟩, fun m hm => h.queued m (hrest m hm)⟩
      · have hbound := h.history.bounded
        rw [hqueue, List.length_cons] at hbound
        exact (Nat.le_succ _).trans hbound
      · rcases List.mem_append.mp hr with hr | hr
        · exact h.history.integers r hr
        · rw [List.mem_singleton.mp hr]
          exact hmessage

/-- In every run, the queue loses exactly the integers whose texts do not fit its messages, keeps to
its limit, and delivers nothing but integers. -/
theorem queue_loses_only_long (stdin : ι → List UInt8) (input : ι → CharArray intLen)
    (steps : List (MqStep ι)) :
    Throughout MqSystem.step QueueHistory (.init stdin input) steps := by
  have hinv : MqInv (.init stdin input) :=
    ⟨fun k h => by simp [MqSystem.init] at h, by simp [MqSystem.init]⟩
  have hhistory : QueueHistory (.init stdin input) :=
    ⟨fun k => rfl, Nat.zero_le _, by simp [MqSystem.init]⟩
  have hinit : HistoryInv (.init stdin input) := ⟨hinv, hhistory, by simp [MqSystem.init]⟩
  exact throughout_of_invariant (fun s e s' h hstep => h.step hstep) (fun s h => h.history) hinit
    steps

end History

end LinuxIPC
