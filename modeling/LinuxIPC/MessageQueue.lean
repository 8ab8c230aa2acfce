import LinuxIPC.IntegerPrompt
import LinuxIPC.Runs

/-!
# The message queue (`mq_server.c`, `mq_client.c`)

The server gives the queue `MAX_MESSAGES` for the size of a message as well, which is less than the
`INT_LEN` characters of the buffers. An integer whose text has ten characters or more is accepted by
the client and refused by the queue, and the client goes on with the next line.
-/

namespace LinuxIPC

open CString Runs

def maxMessages : ℕ := 10

structure MqAttr where
  maxmsg : ℕ
  msgsize : ℕ

def mqAttr : MqAttr := ⟨maxMessages, maxMessages⟩

inductive MqSend
  | refused
  | blocks
  | queued
  deriving DecidableEq

def mqSend (attr : MqAttr) (curmsgs length : ℕ) : MqSend :=
  if attr.msgsize < length then .refused else if curmsgs < attr.maxmsg then .queued else .blocks

/-- `mq_receive` into a buffer of `size` bytes, with the messages left in the queue. There is
nothing to receive from an empty queue, and the call fails if the buffer could be too small. -/
def mqReceive {μ : Type*} (attr : MqAttr) (size : ℕ) (queue : List μ) : Option (μ × List μ) :=
  if size < attr.msgsize then none else queue.head?.map fun message => (message, queue.tail)

inductive MqPhase
  | reading
  | sending
  | stopped
  deriving DecidableEq

structure MqClient where
  prompt : Prompt
  phase : MqPhase

def MqPhase.loopTest (value : ℤ) : MqPhase := if value = 0 then .stopped else .reading

/-- The loop body up to `mq_send`. -/
def MqClient.enter (c : MqClient) (errno : ℤ) (buffer : CharArray intLen) (stack : List UInt8) :
    MqClient :=
  match c.prompt.enter errno buffer stack with
  | (.ended, prompt) => ⟨prompt, .stopped⟩
  | (.invalid, prompt) => ⟨prompt, .loopTest prompt.value⟩
  | (.zero, prompt) => ⟨prompt, .stopped⟩
  | (.nonzero, prompt) => ⟨prompt, .sending⟩

def MqClient.message (c : MqClient) : List UInt8 :=
  c.prompt.input.bytes.take (strlen c.prompt.input.bytes + 1)

/-- The rest of the loop body, whether `mq_send` failed or not. -/
def MqClient.sent (c : MqClient) : MqClient := { c with phase := .loopTest c.prompt.value }

/-- The clients and the queue, whose messages are marked with their senders. Also the texts that the
clients accepted with their integers, and the texts that the server received with the integers it
read from them. -/
structure MqSystem (ι : Type*) where
  client : ι → MqClient
  queue : List (ι × List UInt8)
  accepted : List (ι × List UInt8 × ℤ)
  received : List (ι × List UInt8 × Option ℤ)

inductive MqStep (ι : Type*)
  | enter (k : ι) (errno : ℤ) (buffer : CharArray intLen) (stack : List UInt8)
  | send (k : ι)
  | receive (errno : ℤ) (buffer : CharArray intLen) (stack : List UInt8)

section System

variable {ι : Type*} [DecidableEq ι]

def MqSystem.step (s : MqSystem ι) : MqStep ι → Option (MqSystem ι)
  | .enter k errno buffer stack =>
    if (s.client k).phase = .reading then
      let c := (s.client k).enter errno buffer stack
      some { s with
        client := Function.update s.client k c
        accepted :=
          if c.phase = .sending then s.accepted ++ [(k, c.prompt.input.text, c.prompt.value)]
          else s.accepted }
    else none
  | .send k =>
    let c := s.client k
    if c.phase = .sending then
      match mqSend mqAttr s.queue.length c.message.length with
      | .blocks => none
      | .refused => some { s with client := Function.update s.client k c.sent }
      | .queued => some { s with
          client := Function.update s.client k c.sent
          queue := s.queue ++ [(k, c.message)] }
    else none
  | .receive errno buffer stack =>
    (mqReceive mqAttr intLen s.queue).map fun ((k, message), queue) =>
      let input := (memset buffer intLen).store message
      { s with
        queue
        received := s.received ++
          [(k, input.text, readIntFromBuffer errno (input.bytes ++ stack))] }

def MqSystem.init (stdin : ι → List UInt8) (input : ι → CharArray intLen) : MqSystem ι where
  client := fun k => ⟨⟨stdin k, input k, -1⟩, .reading⟩
  queue := []
  accepted := []
  received := []

def ofClient {α : Type*} (k : ι) (history : List (ι × α)) : List α :=
  (history.filter (·.1 = k)).map Prod.snd

def readMessage (message : List UInt8) : List UInt8 × Option ℤ :=
  (cstr message, readIntFromBuffer 0 message)

def MqSystem.acceptedBy (s : MqSystem ι) (k : ι) : List (List UInt8 × Option ℤ) :=
  (ofClient k s.accepted).map fun a => (a.1, some a.2)

def MqSystem.receivedFrom (s : MqSystem ι) (k : ι) : List (List UInt8 × Option ℤ) :=
  ofClient k s.received

def MqSystem.queuedFrom (s : MqSystem ι) (k : ι) : List (List UInt8 × Option ℤ) :=
  (ofClient k s.queue).map readMessage

def MqSystem.pendingFrom (s : MqSystem ι) (k : ι) : List (List UInt8 × Option ℤ) :=
  if (s.client k).phase = .sending then
    [((s.client k).prompt.input.text, some (s.client k).prompt.value)]
  else []

/-- Each client's integers, in its order: those received, those in the queue, the one being sent. -/
def MqSystem.InOrder (s : MqSystem ι) : Prop :=
  ∀ k, s.acceptedBy k = s.receivedFrom k ++ s.queuedFrom k ++ s.pendingFrom k

/-- No text accepted is refused, none is lost, and the server receives those in the queue by as many
calls of `mq_receive`. -/
structure Delivered (s : MqSystem ι) : Prop where
  inOrder : s.InOrder
  not_refused : ∀ k, (s.client k).phase = .sending →
    mqSend mqAttr s.queue.length (s.client k).message.length ≠ .refused
  arrives : ∀ errno buffer stack, ∃ s',
    run MqSystem.step s (List.replicate s.queue.length (.receive errno buffer stack)) = some s' ∧
      s'.client = s.client ∧ ∀ k, s.acceptedBy k = s'.receivedFrom k ++ s.pendingFrom k

def ShortEntry (s : MqSystem ι) : MqStep ι → Prop
  | .enter k _ _ _ => newline ∈ (s.client k).prompt.stdin →
    ∀ value, Accepts (bufferedText (s.client k).prompt.stdin) value →
      (bufferedText (s.client k).prompt.stdin).length < maxMessages
  | _ => True

theorem ofClient_append {α : Type*} (k : ι) (h h' : List (ι × α)) :
    ofClient k (h ++ h') = ofClient k h ++ ofClient k h' := by
  simp [ofClient]

theorem ofClient_singleton {α : Type*} (k k' : ι) (a : α) :
    ofClient k [(k', a)] = if k' = k then [a] else [] := by
  unfold ofClient
  split_ifs with h <;> simp [h]

structure MqInv (s : MqSystem ι) : Prop where
  sending : ∀ k, (s.client k).phase = .sending →
    (s.client k).prompt.input.Terminated ∧
      Accepts (s.client k).prompt.input.text (s.client k).prompt.value
  queued : ∀ m ∈ s.queue, 0 ∈ m.2 ∧ m.2.length ≤ intLen

theorem loopTest_ne_sending (value : ℤ) : MqPhase.loopTest value ≠ .sending := by
  unfold MqPhase.loopTest
  split_ifs <;> simp

theorem MqClient.enter_sending (c : MqClient) {errno : ℤ} {buffer : CharArray intLen}
    {stack : List UInt8} :
    (c.enter errno buffer stack).phase = .sending ↔
      (c.prompt.enter errno buffer stack).1 = .nonzero := by
  unfold MqClient.enter
  split
  · simp [*]
  · simp [*, loopTest_ne_sending]
  · simp [*]
  · simp [*]

theorem MqClient.prompt_enter (c : MqClient) (errno : ℤ) (buffer : CharArray intLen)
    (stack : List UInt8) :
    (c.enter errno buffer stack).prompt = (c.prompt.enter errno buffer stack).2 := by
  unfold MqClient.enter
  split <;> simp [*]

theorem MqClient.enter_spec {c : MqClient} {errno : ℤ} {buffer : CharArray intLen}
    {stack : List UInt8} (h : (c.enter errno buffer stack).phase = .sending) :
    (c.enter errno buffer stack).prompt.input.Terminated ∧
      (c.enter errno buffer stack).prompt.input.text = bufferedText c.prompt.stdin ∧
      newline ∈ c.prompt.stdin ∧
      Accepts (c.enter errno buffer stack).prompt.input.text
        (c.enter errno buffer stack).prompt.value := by
  rw [MqClient.prompt_enter]
  exact Prompt.enter_nonzero (c.enter_sending.mp h)

theorem MqClient.message_eq {c : MqClient} (h : c.prompt.input.Terminated) :
    c.message = c.prompt.input.text ++ [0] :=
  take_strlen_succ h

theorem mqSend_eq_queued {curmsgs length : ℕ} (h : mqSend mqAttr curmsgs length = .queued) :
    length ≤ maxMessages := by
  unfold mqSend at h
  by_contra hlong
  simp [mqAttr, not_le.mp hlong] at h

theorem mqSend_refused_iff (curmsgs length : ℕ) :
    mqSend mqAttr curmsgs length = .refused ↔ maxMessages < length := by
  unfold mqSend
  split_ifs with hlong hfull
  · exact iff_of_true rfl hlong
  · exact iff_of_false (by simp) hlong
  · exact iff_of_false (by simp) hlong

/-- A message is received as it was sent, whatever the buffer and the memory behind it hold. -/
theorem store_message (buffer : CharArray intLen) {message : List UInt8} (hzero : 0 ∈ message)
    (hlength : message.length ≤ intLen) (errno : ℤ) (stack : List UInt8) :
    let input := (memset buffer intLen).store message
    (input.text, readIntFromBuffer errno (input.bytes ++ stack)) = readMessage message := by
  have hbytes := (memset buffer intLen).bytes_store hlength
  have htext : ((memset buffer intLen).store message).text = cstr message := by
    rw [CharArray.text, hbytes, cstr_append_of_mem hzero]
  have hterm : ((memset buffer intLen).store message).Terminated := by
    rw [CharArray.Terminated, hbytes]
    exact List.mem_append_left _ hzero
  simp only [readMessage, readIntFromBuffer_append hterm, htext]
  exact congrArg _ (readIntFromBuffer_congr 0 htext)

theorem MqSystem.step_enter {s s' : MqSystem ι} {k : ι} {errno : ℤ} {buffer : CharArray intLen}
    {stack : List UInt8} (h : s.step (.enter k errno buffer stack) = some s') :
    (s.client k).phase = .reading ∧
      s' = { s with
        client := Function.update s.client k ((s.client k).enter errno buffer stack)
        accepted :=
          if ((s.client k).enter errno buffer stack).phase = .sending then
            s.accepted ++ [(k, ((s.client k).enter errno buffer stack).prompt.input.text,
              ((s.client k).enter errno buffer stack).prompt.value)]
          else s.accepted } := by
  simp only [MqSystem.step, Option.ite_none_right_eq_some, Option.some.injEq] at h
  exact ⟨h.1, h.2.symm⟩

theorem MqSystem.step_send {s s' : MqSystem ι} {k : ι} (h : s.step (.send k) = some s') :
    (s.client k).phase = .sending ∧
      (maxMessages < (s.client k).message.length ∧
          s' = { s with client := Function.update s.client k (s.client k).sent } ∨
        (s.client k).message.length ≤ maxMessages ∧
          s' = { s with
            client := Function.update s.client k (s.client k).sent
            queue := s.queue ++ [(k, (s.client k).message)] }) := by
  simp only [MqSystem.step, Option.ite_none_right_eq_some] at h
  obtain ⟨hphase, h⟩ := h
  refine ⟨hphase, ?_⟩
  cases hsend : mqSend mqAttr s.queue.length (s.client k).message.length with
  | blocks => simp [hsend] at h
  | refused =>
      rw [hsend, Option.some.injEq] at h
      exact Or.inl ⟨(mqSend_refused_iff _ _).mp hsend, h.symm⟩
  | queued =>
      rw [hsend, Option.some.injEq] at h
      exact Or.inr ⟨mqSend_eq_queued hsend, h.symm⟩

/-- Whether or not it sent, a client goes back to its loop test; the other clients still send. -/
theorem MqSystem.sending_of_sent {s : MqSystem ι} {j k : ι}
    (h : (Function.update s.client k (s.client k).sent j).phase = .sending) :
    Function.update s.client k (s.client k).sent j = s.client j ∧
      (s.client j).phase = .sending := by
  by_cases hjk : j = k
  · subst hjk
    rw [Function.update_self] at h
    exact absurd h (loopTest_ne_sending _)
  · rw [Function.update_of_ne hjk] at h ⊢
    exact ⟨rfl, h⟩

theorem MqSystem.step_receive {s s' : MqSystem ι} (hinv : MqInv s) {errno : ℤ}
    {buffer : CharArray intLen} {stack : List UInt8}
    (h : s.step (.receive errno buffer stack) = some s') :
    ∃ k message queue, s.queue = (k, message) :: queue ∧
      s' = { s with queue, received := s.received ++ [(k, readMessage message)] } := by
  cases hqueue : s.queue with
  | nil => simp [MqSystem.step, hqueue, mqReceive] at h
  | cons m queue =>
      obtain ⟨k, message⟩ := m
      obtain ⟨hzero, hlength⟩ := hinv.queued (k, message) (by simp [hqueue])
      have hread := store_message buffer hzero hlength errno stack
      have hreceive : mqReceive mqAttr intLen ((k, message) :: queue) = some ((k, message), queue) :=
        rfl
      simp only [MqSystem.step, hqueue, hreceive, Option.map_some, Option.some.injEq] at h
      simp only at hread
      rw [hread] at h
      exact ⟨k, message, queue, rfl, h.symm⟩

theorem MqInv.step {s s' : MqSystem ι} (h : MqInv s) {e : MqStep ι} (hstep : s.step e = some s') :
    MqInv s' := by
  cases e with
  | enter k errno buffer stack =>
      obtain ⟨-, rfl⟩ := MqSystem.step_enter hstep
      refine ⟨fun j hj => ?_, h.queued⟩
      by_cases hjk : j = k
      · subst hjk
        simp only [Function.update_self] at hj ⊢
        obtain ⟨hterm, -, -, haccepts⟩ := MqClient.enter_spec hj
        exact ⟨hterm, haccepts⟩
      · simp only [Function.update_of_ne hjk] at hj ⊢
        exact h.sending j hj
  | send k =>
      obtain ⟨hphase, hor⟩ := MqSystem.step_send hstep
      have hclients : ∀ j, (Function.update s.client k (s.client k).sent j).phase = .sending →
          (Function.update s.client k (s.client k).sent j).prompt.input.Terminated ∧
            Accepts (Function.update s.client k (s.client k).sent j).prompt.input.text
              (Function.update s.client k (s.client k).sent j).prompt.value := by
        intro j hj
        obtain ⟨hclient, hj⟩ := MqSystem.sending_of_sent hj
        rw [hclient]
        exact h.sending j hj
      rcases hor with ⟨-, rfl⟩ | ⟨hshort, rfl⟩
      · exact ⟨hclients, h.queued⟩
      · refine ⟨hclients, fun m hm => ?_⟩
        rcases List.mem_append.mp hm with hm | hm
        · exact h.queued m hm
        · rw [List.mem_singleton.mp hm]
          have hfits : maxMessages ≤ intLen := by decide
          refine ⟨?_, hshort.trans hfits⟩
          rw [MqClient.message_eq (h.sending k hphase).1]
          simp
  | receive errno buffer stack =>
      obtain ⟨k, message, queue, hqueue, rfl⟩ := MqSystem.step_receive h hstep
      refine ⟨h.sending, fun m hm => h.queued m ?_⟩
      rw [hqueue]
      exact List.mem_cons_of_mem _ hm

theorem MqSystem.InOrder.enter {s s' : MqSystem ι} (h : s.InOrder) {k : ι} {errno : ℤ}
    {buffer : CharArray intLen} {stack : List UInt8}
    (hstep : s.step (.enter k errno buffer stack) = some s') : s'.InOrder := by
  obtain ⟨hphase, rfl⟩ := MqSystem.step_enter hstep
  intro j
  have hj := h j
  by_cases hjk : j = k
  · subst hjk
    have hpending : s.pendingFrom j = [] := if_neg (by simp [hphase])
    rw [hpending, List.append_nil] at hj
    simp only [acceptedBy, receivedFrom, queuedFrom, pendingFrom, Function.update_self] at hj ⊢
    split_ifs
    · rw [ofClient_append, ofClient_singleton, if_pos rfl, List.map_append, hj]
      rfl
    · rw [hj, List.append_nil]
  · simp only [acceptedBy, receivedFrom, queuedFrom, pendingFrom, Function.update_of_ne hjk] at hj ⊢
    rw [← hj]
    split_ifs
    · rw [ofClient_append, ofClient_singleton, if_neg (Ne.symm hjk), List.append_nil]
    · rfl

theorem MqSystem.InOrder.send {s s' : MqSystem ι} (hinv : MqInv s) (h : s.InOrder) {k : ι}
    (hshort : (s.client k).message.length ≤ maxMessages) (hstep : s.step (.send k) = some s') :
    s'.InOrder := by
  obtain ⟨hphase, hor⟩ := MqSystem.step_send hstep
  obtain ⟨hlong, -⟩ | ⟨-, rfl⟩ := hor
  · exact absurd hshort (not_le.mpr hlong)
  intro j
  have hj := h j
  by_cases hjk : j = k
  · subst hjk
    obtain ⟨hterm, hread, -⟩ := hinv.sending j hphase
    have hmessage : readMessage (s.client j).message =
        ((s.client j).prompt.input.text, some (s.client j).prompt.value) := by
      have htext : cstr (s.client j).message = (s.client j).prompt.input.text := by
        rw [MqClient.message_eq hterm, CharArray.text, cstr_append_of_notMem (zero_notMem_cstr _),
          cstr_zero_cons, List.append_nil]
      rw [readMessage, htext, ← hread]
      exact congrArg _ (readIntFromBuffer_congr 0 (htext.trans (cstr_cstr _).symm))
    simp only [acceptedBy, receivedFrom, queuedFrom, pendingFrom, hphase, if_true,
      Function.update_self, MqClient.sent, loopTest_ne_sending, if_false] at hj ⊢
    rw [hj, ofClient_append, ofClient_singleton, if_pos rfl, List.map_append, List.map_singleton,
      hmessage, List.append_nil, List.append_assoc]
  · simp only [acceptedBy, receivedFrom, queuedFrom, pendingFrom, Function.update_of_ne hjk] at hj ⊢
    rw [hj, ofClient_append, ofClient_singleton, if_neg (Ne.symm hjk), List.append_nil]

theorem MqSystem.InOrder.receive {s s' : MqSystem ι} (hinv : MqInv s) (h : s.InOrder) {errno : ℤ}
    {buffer : CharArray intLen} {stack : List UInt8}
    (hstep : s.step (.receive errno buffer stack) = some s') : s'.InOrder := by
  obtain ⟨k, message, queue, hqueue, rfl⟩ := MqSystem.step_receive hinv hstep
  intro j
  have hj := h j
  rw [queuedFrom, hqueue, ← List.singleton_append, ofClient_append] at hj
  simp only [acceptedBy, receivedFrom, queuedFrom, pendingFrom] at hj ⊢
  rw [hj, ofClient_append, ofClient_singleton, ofClient_singleton]
  split_ifs <;> simp

/-- The queue is emptied by receiving, and nothing else happens. -/
theorem MqSystem.InOrder.run_receives {s : MqSystem ι} (hinv : MqInv s) (h : s.InOrder) (errno : ℤ)
    (buffer : CharArray intLen) (stack : List UInt8) :
    ∃ s', run MqSystem.step s (List.replicate s.queue.length (.receive errno buffer stack)) =
        some s' ∧
      s'.client = s.client ∧ s'.accepted = s.accepted ∧ s'.queue = [] ∧ s'.InOrder := by
  generalize hn : s.queue.length = n
  induction n generalizing s with
  | zero => exact ⟨s, rfl, rfl, rfl, List.length_eq_zero_iff.mp hn, h⟩
  | succ n ih =>
      obtain ⟨⟨k, message⟩, queue, hqueue⟩ := List.exists_cons_of_length_eq_add_one hn
      obtain ⟨t, ht⟩ : ∃ t, s.step (.receive errno buffer stack) = some t := by
        simp [MqSystem.step, hqueue, mqReceive, mqAttr, intLen, maxMessages]
      obtain ⟨k', message', queue', hqueue', rfl⟩ := MqSystem.step_receive hinv ht
      have hlen : queue'.length = n := by simpa [hqueue'] using hn
      obtain ⟨s', hrun, hclient, haccepted, hempty, horder⟩ :=
        ih (hinv.step ht) (h.receive hinv ht) hlen
      refine ⟨s', ?_, hclient, haccepted, hempty, horder⟩
      exact run_cons_eq_some.mpr ⟨_, ht, hrun⟩

theorem MqSystem.InOrder.delivered {s : MqSystem ι} (hinv : MqInv s) (h : s.InOrder)
    (hshort : ∀ k, (s.client k).phase = .sending → (s.client k).message.length ≤ maxMessages) :
    Delivered s := by
  refine ⟨h, ?_, ?_⟩
  · intro k hphase hrefused
    exact absurd ((mqSend_refused_iff _ _).mp hrefused) (not_lt.mpr (hshort k hphase))
  · intro errno buffer stack
    obtain ⟨s', hrun, hclient, haccepted, hempty, horder⟩ := h.run_receives hinv errno buffer stack
    refine ⟨s', hrun, hclient, fun k => ?_⟩
    have hk := horder k
    simp only [acceptedBy, queuedFrom, pendingFrom, hclient, haccepted, hempty] at hk ⊢
    simpa [ofClient] using hk

theorem Delivered.length_message {s : MqSystem ι} (h : Delivered s) {k : ι}
    (hphase : (s.client k).phase = .sending) : (s.client k).message.length ≤ maxMessages := by
  by_contra hlong
  exact h.not_refused k hphase ((mqSend_refused_iff _ _).mpr (not_le.mp hlong))

theorem MqClient.length_message_le {c : MqClient} (h : c.prompt.input.Terminated) :
    c.message.length ≤ maxMessages ↔ c.prompt.input.text.length < maxMessages := by
  rw [MqClient.message_eq h, List.length_append, List.length_singleton, Nat.succ_le_iff]

/-- A line breaks the delivery exactly if its text is accepted and longer than the queue permits. -/
theorem Delivered.step_iff {s s' : MqSystem ι} (hinv : MqInv s) (h : Delivered s) {e : MqStep ι}
    (hstep : s.step e = some s') : Delivered s' ↔ ShortEntry s e := by
  have hinv' := hinv.step hstep
  cases e with
  | enter k errno buffer stack =>
      have horder := h.inOrder.enter hstep
      obtain ⟨-, rfl⟩ := MqSystem.step_enter hstep
      constructor
      · intro hd hline value haccepts
        by_contra hlong
        have hsending := (s.client k).enter_sending.mpr ((s.client k).prompt.enter_of_long errno
          buffer stack hline (not_lt.mp hlong) haccepts)
        obtain ⟨hterm, htext, -⟩ := MqClient.enter_spec hsending
        have hlength := hd.length_message (k := k)
        simp only [Function.update_self] at hlength
        have hshort := (MqClient.length_message_le hterm).mp (hlength hsending)
        exact hlong (htext ▸ hshort)
      · intro hshort
        refine horder.delivered hinv' fun j hj => ?_
        by_cases hjk : j = k
        · subst hjk
          simp only [Function.update_self] at hj ⊢
          obtain ⟨hterm, htext, hline, haccepts⟩ := MqClient.enter_spec hj
          rw [MqClient.length_message_le hterm, htext]
          exact hshort hline _ (htext ▸ haccepts)
        · simp only [Function.update_of_ne hjk] at hj ⊢
          exact h.length_message hj
  | send k =>
      refine iff_of_true ?_ trivial
      obtain ⟨hphase, hor⟩ := MqSystem.step_send hstep
      refine (h.inOrder.send hinv (h.length_message hphase) hstep).delivered hinv' fun j hj => ?_
      have hclient : s'.client = Function.update s.client k (s.client k).sent := by
        obtain ⟨-, rfl⟩ | ⟨-, rfl⟩ := hor <;> rfl
      rw [hclient] at hj ⊢
      obtain ⟨hsame, hj⟩ := MqSystem.sending_of_sent hj
      rw [hsame]
      exact h.length_message hj
  | receive errno buffer stack =>
      refine iff_of_true ((h.inOrder.receive hinv hstep).delivered hinv' fun j hj => ?_) trivial
      obtain ⟨k, message, queue, hqueue, rfl⟩ := MqSystem.step_receive hinv hstep
      exact h.length_message hj

/-- The integers that the clients accept are delivered as long as no line accepted has more than nine
characters. -/
theorem accepted_integers_delivered (stdin : ι → List UInt8) (input : ι → CharArray intLen)
    (steps : List (MqStep ι)) :
    Throughout MqSystem.step Delivered (.init stdin input) steps ↔
      Along MqSystem.step ShortEntry (.init stdin input) steps := by
  have hinit : MqInv (.init stdin input) :=
    ⟨fun k h => by simp [MqSystem.init] at h, by simp [MqSystem.init]⟩
  have horder : (MqSystem.init stdin input).InOrder := fun _ => rfl
  have hdelivered := horder.delivered hinit fun k h => by simp [MqSystem.init] at h
  exact throughout_iff_along MqInv (fun s e s' hinv hst => hinv.step hst)
    (fun s e s' hinv hd hst => hd.step_iff hinv hst) hinit hdelivered steps

end System

/-- Ten digits are accepted and refused, and the client reads on. -/
theorem accepted_integers_delivered_ten_digits :
    ¬ ∀ steps : List (MqStep Unit),
      Throughout MqSystem.step Delivered
        (.init (fun _ => ascii "1234567890\n") fun _ => strncpy intLen []) steps := by
  intro h
  have hlost : (run MqSystem.step
      (.init (fun _ => ascii "1234567890\n") fun _ => strncpy intLen [])
      [.enter () 0 (strncpy intLen []) [], .send ()]).map
        (fun s => (s.acceptedBy (), s.receivedFrom () ++ s.queuedFrom () ++ s.pendingFrom ())) =
      some ([(ascii "1234567890", some 1234567890)], []) := by
    decide +kernel
  obtain ⟨s, hrun, hs⟩ := Option.map_eq_some_iff.mp hlost
  have hd := throughout_iff_forall_run.mp (h _) _ List.prefix_rfl s hrun
  obtain ⟨haccepted, hrest⟩ := Prod.mk.inj hs
  have horder := hd.inOrder ()
  rw [haccepted, hrest] at horder
  simp at horder

end LinuxIPC
