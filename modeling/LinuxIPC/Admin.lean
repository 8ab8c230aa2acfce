import LinuxIPC.Table
import LinuxIPC.Validators

/-!
# The admin console of the routing table server (`input.c`, `rtm_server.c`)

The administrator enters an operation and then, line by line, the subnet, the gateway and the
outgoing interface. The record in progress is shared by the three operations. A line is answered
by a reply on the console and, when it completes an operation, by the message that is handed to
`send_synchronization_message`.
-/

namespace LinuxIPC

open CString

inductive InputState where
  | idle
  | creating
  | updating
  | deleting
  deriving DecidableEq, Repr

/-- `ENTRY_TYPE`. A variable that was never assigned may also hold another value. -/
inductive EntryType where
  | subnet
  | gateway
  | oif
  | other (value : UInt32)
  deriving DecidableEq, Repr

structure Admin where
  rtm : RoutingTable
  state : InputState
  entry : EntryType
  record : MsgBody
  deriving DecidableEq, Repr

inductive ErrorMessage where
  | incorrectSubnet
  | alreadyContained
  | notContained
  | incorrectIp
  | invalidOif
  | unknownEntryType
  deriving DecidableEq, Repr

def ErrorMessage.text : ErrorMessage → String
  | incorrectSubnet => "\tIncorrect destination subnet format. Try again."
  | alreadyContained => "\tRouting table already contains the specified record. Try again."
  | notContained => "\tThe specified record does not exist in the routing table. Try again."
  | incorrectIp => "\tIncorrect IP address format. Try again."
  | invalidOif => "\tInvalid outgoing interface. Try again."
  | unknownEntryType => "\tUnknown entry type."

/-- The console's answer to a line: `Unknown option '...'`, an operation chosen from the menu, the
table printed, the shutdown, an error message, the prompt for the next entry, or the end of an
operation with the return value of the table function. -/
inductive Reply where
  | unknownOption (option : List UInt8)
  | menu
  | printed
  | shutdown
  | error (message : ErrorMessage)
  | prompt
  | finished (opCode : OpCode) (ok : Bool)
  deriving DecidableEq, Repr

structure Answer where
  admin : Admin
  reply : Reply
  broadcast : Option SyncMsg
  deriving DecidableEq, Repr

/-- The subnet entry of the three operations: the line is read into the record in progress, and
refused when it is no subnet or when `refused` holds of the table's containing it. -/
def enterSubnet (refused : Bool → Bool) (refusal : ErrorMessage) (amb : Ambient) (a : Admin)
    (buffer : List UInt8) : Admin × Option ErrorMessage :=
  let r := readDestinationSubnetFromBuffer amb buffer a.record.destination a.record.mask
  let a := { a with record := { a.record with destination := r.ipAddress, mask := r.mask } }
  if !r.ok then (a, some .incorrectSubnet)
  else if refused (routingTableContainsDstSubnet a.rtm a.record.fromDestination a.record.mask) then
    (a, some refusal)
  else (a, none)

/-- What `create_record` and `update_record` have in common: the three entries of a record, and
`operation` on the table at the end. -/
def enterRecord (refused : Bool → Bool) (refusal : ErrorMessage) (opCode : OpCode)
    (operation : RoutingTable → MsgBody → RoutingTable × Bool) (amb : Ambient) (a : Admin)
    (buffer : List UInt8) : Answer :=
  match a.entry with
  | .subnet =>
    match enterSubnet refused refusal amb a buffer with
    | (a, some message) => ⟨a, .error message, none⟩
    | (a, none) => ⟨{ a with entry := .gateway }, .prompt, none⟩
  | .gateway =>
    if !readIpAddressFromBuffer amb buffer then ⟨a, .error .incorrectIp, none⟩
    else
      let record := { a.record with gatewayIp := strncpy ipAddrLen buffer }
      ⟨{ a with record := record, entry := .oif }, .prompt, none⟩
  | .oif =>
    if strlen buffer > oifLen then ⟨a, .error .invalidOif, none⟩
    else
      let record := { a.record with oif := strncpy oifLen buffer }
      let (rtm, ok) := operation a.rtm record
      ⟨{ rtm := rtm, state := .idle, entry := .subnet, record := record }, .finished opCode ok,
        some (prepareSynchronizationMessage opCode record)⟩
  | .other _ => ⟨a, .error .unknownEntryType, none⟩

def createRecord (amb : Ambient) (a : Admin) (buffer : List UInt8) : Answer :=
  enterRecord id .alreadyContained .create (routingTableInsert amb) amb a buffer

def updateRecord (amb : Ambient) (a : Admin) (buffer : List UInt8) : Answer :=
  enterRecord not .notContained .update routingTableUpdate amb a buffer

def deleteRecord (amb : Ambient) (a : Admin) (buffer : List UInt8) : Answer :=
  match enterSubnet not .notContained amb a buffer with
  | (a, some message) => ⟨a, .error message, none⟩
  | (a, none) =>
    let r := routingTableDelete a.rtm a.record
    ⟨{ a with rtm := r.table, state := .idle }, .finished .delete r.ok,
      some (prepareSynchronizationMessage .delete a.record)⟩

def isLetter (c : UInt8) (lower upper : Char) : Bool :=
  c = UInt8.ofNat lower.toNat || c = UInt8.ofNat upper.toNat

/-- `handle_admin_input` in the state `IDLE`. -/
def chooseOperation (a : Admin) (buffer : List UInt8) : Answer :=
  if strlen buffer ≠ 1 then ⟨a, .unknownOption (cstr buffer), none⟩
  else
    let option := charAt buffer 0
    if a.rtm.length = 0 ∧ !isLetter option 'c' 'C' ∧ !isLetter option 'q' 'Q' then
      ⟨a, .unknownOption [option], none⟩
    else if isLetter option 'c' 'C' then
      ⟨{ a with state := .creating, entry := .subnet }, .menu, none⟩
    else if isLetter option 'u' 'U' then
      ⟨{ a with state := .updating, entry := .subnet }, .menu, none⟩
    else if isLetter option 'd' 'D' then
      ⟨{ a with state := .deleting, entry := .subnet }, .menu, none⟩
    else if isLetter option 'p' 'P' then ⟨{ a with entry := .subnet }, .printed, none⟩
    else if isLetter option 'q' 'Q' then ⟨a, .shutdown, none⟩
    else ⟨{ a with entry := .subnet }, .unknownOption [option], none⟩

/-- `handle_admin_input` behind the call of `remove_newline`. -/
def handleAdminLine (amb : Ambient) (a : Admin) (buffer : List UInt8) : Answer :=
  match a.state with
  | .idle => chooseOperation a buffer
  | .creating => createRecord amb a buffer
  | .updating => updateRecord amb a buffer
  | .deleting => deleteRecord amb a buffer

/-- `handle_admin_input`, with what is left of the standard input; `none` when it waits for ever
for a newline. -/
def handleAdminInput (amb : Ambient) (a : Admin) (buffer stdin : List UInt8) :
    Option (Answer × List UInt8) :=
  (removeNewline buffer stdin).map fun (buffer, stdin) => (handleAdminLine amb a buffer, stdin)

def Reply.rejected : Reply → Bool
  | .unknownOption _ => true
  | .error message => message ≠ .unknownEntryType
  | _ => false

namespace MsgBody

def withKey (record : MsgBody) (destination : CharArray ipAddrLen) (mask : UInt16) : MsgBody :=
  { record with destination := destination, mask := mask }

def withGateway (record : MsgBody) (text : List UInt8) : MsgBody :=
  { record with gatewayIp := strncpy ipAddrLen text }

def withOif (record : MsgBody) (text : List UInt8) : MsgBody :=
  { record with oif := strncpy oifLen text }

end MsgBody

/-- A line with the text `text` completes an operation: it is an interface that fits, or the subnet
of a record to delete. -/
def Admin.Completes (a : Admin) (text : List UInt8) : Prop :=
  ((a.state = .creating ∨ a.state = .updating) ∧ a.entry = .oif ∧ text.length ≤ oifLen) ∨
  (a.state = .deleting ∧ ∃ destination mask, parseSubnet text = some (destination, mask) ∧
    a.rtm.any (recordMatches · (a.record.withKey destination mask)) = true)

def Admin.ReadsSubnet (a : Admin) : Prop :=
  (a.state = .creating ∨ a.state = .updating) ∧ a.entry = .subnet ∨ a.state = .deleting

def Admin.EntersGateway (a : Admin) (text : List UInt8) : Prop :=
  (a.state = .creating ∨ a.state = .updating) ∧ a.entry = .gateway ∧ validAddress text = true

structure Admin.Ignores (a : Admin) (text : List UInt8) : Prop where
  gateway : ¬ a.EntersGateway text
  completes : ¬ a.Completes text

inductive LineEffect (a : Admin) (text : List UInt8) : Answer → Prop
  /-- Nothing but the reply. -/
  | same (reply : Reply)
      (hreply : reply.rejected = true ∨ reply = .shutdown ∨ reply = .error .unknownEntryType)
      (hreads : ¬ a.ReadsSubnet) (hignores : a.Ignores text) :
      LineEffect a text ⟨a, reply, none⟩
  /-- In the menu of a table with records, the entry type is reset. -/
  | reset (reply : Reply) (hstate : a.state = .idle) (htable : a.rtm ≠ [])
      (hreply : reply.rejected = true ∨ reply = .printed) :
      LineEffect a text ⟨{ a with entry := .subnet }, reply, none⟩
  /-- An operation is chosen, with records to work on unless it is to create one. -/
  | chosen (state : InputState) (hstate : a.state = .idle) (hne : state ≠ .idle)
      (htable : state ≠ .creating → a.rtm ≠ []) :
      LineEffect a text ⟨{ a with state := state, entry := .subnet }, .menu, none⟩
  /-- A subnet is refused, and the record in progress may be overwritten all the same. -/
  | refused (destination : CharArray ipAddrLen) (mask : UInt16) (message : ErrorMessage)
      (hreads : a.ReadsSubnet) (hmessage : message ≠ .unknownEntryType)
      (hstored : ∀ d m, parseSubnet text = some (d, m) → destination = d)
      (hignores : a.Ignores text) :
      LineEffect a text
        ⟨{ a with record := a.record.withKey destination mask }, .error message, none⟩
  /-- A subnet is accepted for a record to create or to update. -/
  | key (destination : CharArray ipAddrLen) (mask : UInt16)
      (hstate : a.state = .creating ∨ a.state = .updating) (hentry : a.entry = .subnet)
      (hparse : parseSubnet text = some (destination, mask))
      (hany : a.rtm.any (recordMatches · (a.record.withKey destination mask)) =
        decide (a.state = .updating)) :
      LineEffect a text
        ⟨{ a with record := a.record.withKey destination mask, entry := .gateway }, .prompt, none⟩
  | gateway (hstate : a.state = .creating ∨ a.state = .updating) (hentry : a.entry = .gateway)
      (hvalid : validAddress text = true) :
      LineEffect a text ⟨{ a with record := a.record.withGateway text, entry := .oif }, .prompt, none⟩
  | created (hstate : a.state = .creating) (hentry : a.entry = .oif)
      (hlen : text.length ≤ oifLen) :
      LineEffect a text
        ⟨⟨a.rtm ++ [(a.record.withOif text).copy], .idle, .subnet, a.record.withOif text⟩,
          .finished .create true, some ⟨.create, a.record.withOif text⟩⟩
  | updated (hstate : a.state = .updating) (hentry : a.entry = .oif)
      (hlen : text.length ≤ oifLen) :
      LineEffect a text
        ⟨⟨(routingTableUpdate a.rtm (a.record.withOif text)).1, .idle, .subnet,
            a.record.withOif text⟩,
          .finished .update (routingTableUpdate a.rtm (a.record.withOif text)).2,
          some ⟨.update, a.record.withOif text⟩⟩
  | deleted (destination : CharArray ipAddrLen) (mask : UInt16) (hstate : a.state = .deleting)
      (hparse : parseSubnet text = some (destination, mask))
      (hany : a.rtm.any (recordMatches · (a.record.withKey destination mask)) = true) :
      LineEffect a text
        ⟨⟨(routingTableDelete a.rtm (a.record.withKey destination mask)).table, .idle, a.entry,
            a.record.withKey destination mask⟩,
          .finished .delete (routingTableDelete a.rtm (a.record.withKey destination mask)).ok,
          some ⟨.delete, a.record.withKey destination mask⟩⟩

theorem isLetter_eq_false {c : UInt8} {lower upper lower' upper' : Char}
    (h : isLetter c lower upper = true)
    (hne : isLetter (UInt8.ofNat lower.toNat) lower' upper' = false ∧
      isLetter (UInt8.ofNat upper.toNat) lower' upper' = false) :
    isLetter c lower' upper' = false := by
  simp only [isLetter, Bool.or_eq_true, decide_eq_true_eq] at h
  rcases h with rfl | rfl
  · exact hne.1
  · exact hne.2

theorem not_readsSubnet_of_idle {a : Admin} (h : a.state = .idle) : ¬ a.ReadsSubnet := by
  rintro (⟨hs | hs, -⟩ | hs) <;> simp [h] at hs

theorem not_readsSubnet_of_entry {a : Admin} (hstate : a.state = .creating ∨ a.state = .updating)
    (hentry : a.entry ≠ .subnet) : ¬ a.ReadsSubnet := by
  rintro (⟨-, he⟩ | hs)
  · exact hentry he
  · rcases hstate with h | h <;> simp [h] at hs

theorem ignores_of_idle {a : Admin} (h : a.state = .idle) (text : List UInt8) :
    a.Ignores text where
  gateway := by
    rintro ⟨hs | hs, -⟩ <;> simp [h] at hs
  completes := by
    rintro (⟨hs | hs, -⟩ | ⟨hs, -⟩) <;> simp [h] at hs

theorem not_completes_of_entry {a : Admin} (hstate : a.state = .creating ∨ a.state = .updating)
    (hentry : a.entry ≠ .oif) (text : List UInt8) : ¬ a.Completes text := by
  rintro (⟨-, he, -⟩ | ⟨hs, -⟩)
  · exact hentry he
  · rcases hstate with h | h <;> simp [h] at hs

theorem ignores_of_entry {a : Admin} (hstate : a.state = .creating ∨ a.state = .updating)
    (hgateway : a.entry ≠ .gateway) (hoif : a.entry ≠ .oif) (text : List UInt8) :
    a.Ignores text where
  gateway := fun h => hgateway h.2.1
  completes := not_completes_of_entry hstate hoif text

theorem ignores_of_deleting {a : Admin} (hstate : a.state = .deleting) {text : List UInt8}
    (hcompletes : ¬ a.Completes text) : a.Ignores text where
  gateway := by
    rintro ⟨hs | hs, -⟩ <;> simp [hstate] at hs
  completes := hcompletes

theorem enterSubnet_cases (refused : Bool → Bool) (refusal : ErrorMessage) (amb : Ambient)
    (a : Admin) (buffer : List UInt8) :
    (∃ destination mask, parseSubnet (cstr buffer) = none ∧
      enterSubnet refused refusal amb a buffer =
        ({ a with record := a.record.withKey destination mask }, some .incorrectSubnet)) ∨
    (∃ destination mask, parseSubnet (cstr buffer) = some (destination, mask) ∧
      enterSubnet refused refusal amb a buffer =
        ({ a with record := a.record.withKey destination mask },
          if refused (a.rtm.any (recordMatches · (a.record.withKey destination mask))) then
            some refusal else none)) := by
  rcases readDestinationSubnetFromBuffer_spec amb buffer a.record.destination a.record.mask with
    ⟨ip, k, hparse, hread⟩ | ⟨hparse, hok⟩
  · have heq : enterSubnet refused refusal amb a buffer =
        if refused (routingTableContainsDstSubnet a.rtm (a.record.withKey ip k).fromDestination
          (a.record.withKey ip k).mask) then
          ({ a with record := a.record.withKey ip k }, some refusal)
        else ({ a with record := a.record.withKey ip k }, none) := by
      simp only [enterSubnet, hread, Bool.not_true, Bool.false_eq_true, if_false]
      rfl
    rw [routingTableContainsDstSubnet_eq] at heq
    refine Or.inr ⟨ip, k, hparse, heq.trans ?_⟩
    split_ifs <;> rfl
  · generalize hr : readDestinationSubnetFromBuffer amb buffer a.record.destination
      a.record.mask = r at hok
    refine Or.inl ⟨r.ipAddress, r.mask, hparse, ?_⟩
    simp only [enterSubnet, hr, hok, Bool.not_false, if_true]
    rfl

theorem enterRecord_effect {refused : Bool → Bool} {refusal : ErrorMessage} {opCode : OpCode}
    {operation : RoutingTable → MsgBody → RoutingTable × Bool} {amb : Ambient} {a : Admin}
    {buffer : List UInt8} (hstate : a.state = .creating ∨ a.state = .updating)
    (hmessage : refusal ≠ .unknownEntryType)
    (hrefused : ∀ b, refused b = false → b = decide (a.state = .updating))
    (hfinish : a.entry = .oif → (cstr buffer).length ≤ oifLen → LineEffect a (cstr buffer)
      ⟨⟨(operation a.rtm (a.record.withOif buffer)).1, .idle, .subnet, a.record.withOif buffer⟩,
        .finished opCode (operation a.rtm (a.record.withOif buffer)).2,
        some ⟨opCode, a.record.withOif buffer⟩⟩) :
    LineEffect a (cstr buffer) (enterRecord refused refusal opCode operation amb a buffer) := by
  obtain ⟨rtm, state, entry, record⟩ := a
  cases entry with
  | subnet =>
      have hreads : Admin.ReadsSubnet ⟨rtm, state, .subnet, record⟩ := Or.inl ⟨hstate, rfl⟩
      have hignores := ignores_of_entry (a := ⟨rtm, state, .subnet, record⟩) hstate (by simp)
        (by simp) (cstr buffer)
      rcases enterSubnet_cases refused refusal amb ⟨rtm, state, .subnet, record⟩ buffer with
        ⟨d, m, hparse, heq⟩ | ⟨d, m, hparse, heq⟩
      · simp only [enterRecord, heq]
        exact LineEffect.refused d m _ hreads (by simp) (by simp [hparse]) hignores
      · cases hr : refused (rtm.any (recordMatches · (record.withKey d m))) with
        | true =>
            simp only [enterRecord, heq, hr, if_true]
            refine LineEffect.refused d m _ hreads hmessage (fun d' m' hparse' => ?_) hignores
            exact (Prod.mk.inj (Option.some.inj (hparse.symm.trans hparse'))).1
        | false =>
            simp only [enterRecord, heq, hr, Bool.false_eq_true, if_false]
            exact LineEffect.key d m hstate rfl hparse (hrefused _ hr)
  | gateway =>
      simp only [enterRecord, readIpAddressFromBuffer_eq]
      cases hvalid : validAddress (cstr buffer) with
      | false =>
          refine LineEffect.same _ (Or.inl rfl) (not_readsSubnet_of_entry hstate (by simp))
            ⟨?_, not_completes_of_entry hstate (by simp) _⟩
          rintro ⟨-, -, hv⟩
          simp [hvalid] at hv
      | true =>
          have hcopy : strncpy ipAddrLen buffer = strncpy ipAddrLen (cstr buffer) :=
            strncpy_congr (cstr_cstr buffer).symm
          simp only [Bool.not_true, Bool.false_eq_true, if_false, hcopy]
          exact LineEffect.gateway hstate rfl hvalid
  | oif =>
      by_cases hlen : strlen buffer > oifLen
      · simp only [enterRecord, if_pos hlen]
        refine LineEffect.same _ (Or.inl rfl) (not_readsSubnet_of_entry hstate (by simp))
          ⟨?_, ?_⟩
        · rintro ⟨-, he, -⟩
          simp at he
        · rintro (⟨-, -, hle⟩ | ⟨hs, -⟩)
          · exact absurd hlen (not_lt.mpr hle)
          · rcases hstate with h | h <;> exact absurd (h.symm.trans hs) (by simp)
      · simp only [enterRecord, if_neg hlen]
        exact hfinish rfl (not_lt.mp hlen)
  | other value =>
      exact LineEffect.same _ (Or.inr (Or.inr rfl)) (not_readsSubnet_of_entry hstate (by simp))
        (ignores_of_entry hstate (by simp) (by simp) _)

theorem withOif_cstr (record : MsgBody) (buffer : List UInt8) :
    record.withOif (cstr buffer) = record.withOif buffer := by
  rw [MsgBody.withOif, MsgBody.withOif, strncpy_congr (cstr_cstr buffer)]

theorem deleteRecord_effect {amb : Ambient} {a : Admin} {buffer : List UInt8}
    (hstate : a.state = .deleting) :
    LineEffect a (cstr buffer) (deleteRecord amb a buffer) := by
  have hreads : a.ReadsSubnet := Or.inr hstate
  rcases enterSubnet_cases not .notContained amb a buffer with
    ⟨d, m, hparse, heq⟩ | ⟨d, m, hparse, heq⟩
  · simp only [deleteRecord, heq]
    refine LineEffect.refused d m _ hreads (by simp) (by simp [hparse])
      (ignores_of_deleting hstate ?_)
    rintro (⟨hs | hs, -⟩ | ⟨-, _, _, hsome, -⟩)
    · simp [hstate] at hs
    · simp [hstate] at hs
    · simp [hparse] at hsome
  · have hstored : ∀ d' m', parseSubnet (cstr buffer) = some (d', m') → (d, m) = (d', m') :=
      fun d' m' hparse' => Option.some.inj (hparse.symm.trans hparse')
    cases hany : a.rtm.any (recordMatches · (a.record.withKey d m)) with
    | true =>
        simp only [deleteRecord, heq, hany, Bool.not_true, Bool.false_eq_true, if_false]
        exact LineEffect.deleted d m hstate hparse hany
    | false =>
        simp only [deleteRecord, heq, hany, Bool.not_false, if_true]
        refine LineEffect.refused d m _ hreads (by simp)
          (fun d' m' hparse' => (Prod.mk.inj (hstored d' m' hparse')).1)
          (ignores_of_deleting hstate ?_)
        rintro (⟨hs | hs, -⟩ | ⟨-, d', m', hsome, hany'⟩)
        · simp [hstate] at hs
        · simp [hstate] at hs
        · obtain ⟨rfl, rfl⟩ := Prod.mk.inj (hstored d' m' hsome)
          simp [hany] at hany'

theorem chooseOperation_effect {a : Admin} (hstate : a.state = .idle) (buffer : List UInt8) :
    LineEffect a (cstr buffer) (chooseOperation a buffer) := by
  have hreads := not_readsSubnet_of_idle hstate
  have hignores := ignores_of_idle hstate (cstr buffer)
  simp only [chooseOperation]
  split_ifs with hlen hempty hc hu hd hp hq
  · exact LineEffect.same _ (Or.inl rfl) hreads hignores
  · exact LineEffect.same _ (Or.inl rfl) hreads hignores
  · exact LineEffect.chosen .creating hstate (by simp) (by simp)
  · have hq : isLetter (charAt buffer 0) 'q' 'Q' = false := isLetter_eq_false hu (by decide)
    have hne : a.rtm ≠ [] := fun hnil => hempty (by simp [hnil, hc, hq])
    exact LineEffect.chosen .updating hstate (by simp) fun _ => hne
  · have hq : isLetter (charAt buffer 0) 'q' 'Q' = false := isLetter_eq_false hd (by decide)
    have hne : a.rtm ≠ [] := fun hnil => hempty (by simp [hnil, hc, hq])
    exact LineEffect.chosen .deleting hstate (by simp) fun _ => hne
  · have hq : isLetter (charAt buffer 0) 'q' 'Q' = false := isLetter_eq_false hp (by decide)
    have hne : a.rtm ≠ [] := fun hnil => hempty (by simp [hnil, hc, hq])
    exact LineEffect.reset _ hstate hne (Or.inr rfl)
  · exact LineEffect.same _ (Or.inr (Or.inl rfl)) hreads hignores
  · have hne : a.rtm ≠ [] := fun hnil => hempty (by simp [hnil, hc, hq])
    exact LineEffect.reset _ hstate hne (Or.inl rfl)

theorem handleAdminLine_effect (amb : Ambient) (a : Admin) (buffer : List UInt8) :
    LineEffect a (cstr buffer) (handleAdminLine amb a buffer) := by
  cases hstate : a.state with
  | idle =>
      simp only [handleAdminLine, hstate]
      exact chooseOperation_effect hstate buffer
  | creating =>
      simp only [handleAdminLine, hstate]
      apply enterRecord_effect (Or.inl hstate) (by simp) (by simp [hstate])
      intro hentry hlen
      simpa only [routingTableInsert_eq, withOif_cstr] using LineEffect.created hstate hentry hlen
  | updating =>
      simp only [handleAdminLine, hstate]
      apply enterRecord_effect (Or.inr hstate) (by simp) (by simp [hstate])
      intro hentry hlen
      simpa only [withOif_cstr] using LineEffect.updated hstate hentry hlen
  | deleting =>
      simp only [handleAdminLine, hstate]
      exact deleteRecord_effect hstate

section TwoConsoles

variable (amb amb' : Ambient) {buffer buffer' : List UInt8}

/-- The menu goes by the table and the text of the line. -/
theorem chooseOperation_two (rtm : RoutingTable) (entry entry' : EntryType) (r r' : MsgBody)
    (hbuffer : cstr buffer = cstr buffer') :
    (∃ reply,
      chooseOperation ⟨rtm, .idle, entry, r⟩ buffer = ⟨⟨rtm, .idle, entry, r⟩, reply, none⟩ ∧
      chooseOperation ⟨rtm, .idle, entry', r'⟩ buffer' = ⟨⟨rtm, .idle, entry', r'⟩, reply, none⟩) ∨
    (∃ state reply,
      chooseOperation ⟨rtm, .idle, entry, r⟩ buffer = ⟨⟨rtm, state, .subnet, r⟩, reply, none⟩ ∧
      chooseOperation ⟨rtm, .idle, entry', r'⟩ buffer' =
        ⟨⟨rtm, state, .subnet, r'⟩, reply, none⟩) := by
  simp only [chooseOperation, strlen, charAt_congr hbuffer, hbuffer]
  split_ifs
  · exact Or.inl ⟨_, rfl, rfl⟩
  · exact Or.inl ⟨_, rfl, rfl⟩
  · exact Or.inr ⟨_, _, rfl, rfl⟩
  · exact Or.inr ⟨_, _, rfl, rfl⟩
  · exact Or.inr ⟨_, _, rfl, rfl⟩
  · exact Or.inr ⟨_, _, rfl, rfl⟩
  · exact Or.inl ⟨_, rfl, rfl⟩
  · exact Or.inr ⟨_, _, rfl, rfl⟩

/-- A subnet that is one is the same for both; the lookups of its key may differ. -/
theorem enterSubnet_two (refused : Bool → Bool) (refusal : ErrorMessage) (rtm : RoutingTable)
    (state : InputState) (entry : EntryType) (r r' : MsgBody)
    (hbuffer : cstr buffer = cstr buffer') :
    (∃ d m d' m',
      enterSubnet refused refusal amb ⟨rtm, state, entry, r⟩ buffer =
        (⟨rtm, state, entry, r.withKey d m⟩, some .incorrectSubnet) ∧
      enterSubnet refused refusal amb' ⟨rtm, state, entry, r'⟩ buffer' =
        (⟨rtm, state, entry, r'.withKey d' m'⟩, some .incorrectSubnet)) ∨
    (∃ d m, parseSubnet (cstr buffer) = some (d, m) ∧
      enterSubnet refused refusal amb ⟨rtm, state, entry, r⟩ buffer =
        (⟨rtm, state, entry, r.withKey d m⟩,
          if refused (rtm.any (recordMatches · (r.withKey d m))) then some refusal else none) ∧
      enterSubnet refused refusal amb' ⟨rtm, state, entry, r'⟩ buffer' =
        (⟨rtm, state, entry, r'.withKey d m⟩,
          if refused (rtm.any (recordMatches · (r'.withKey d m))) then some refusal else none)) := by
  rcases enterSubnet_cases refused refusal amb ⟨rtm, state, entry, r⟩ buffer with
    ⟨d, m, hparse, heq⟩ | ⟨d, m, hparse, heq⟩ <;>
  rcases enterSubnet_cases refused refusal amb' ⟨rtm, state, entry, r'⟩ buffer' with
    ⟨d', m', hparse', heq'⟩ | ⟨d', m', hparse', heq'⟩ <;>
  rw [← hbuffer, hparse] at hparse'
  · exact Or.inl ⟨d, m, d', m', heq, heq'⟩
  · simp at hparse'
  · simp at hparse'
  · obtain ⟨rfl, rfl⟩ := Prod.mk.inj (Option.some.inj hparse')
    exact Or.inr ⟨d, m, hparse, heq, heq'⟩

/-- What holds of the two answers in every state holds of `handle_admin_input`. The memory that
`malloc` returns is overwritten whole, so that it does not matter which it is. -/
theorem handleAdminLine_two {R : Answer → Answer → Prop} {a b : Admin} (hstate : a.state = b.state)
    (hchoose : a.state = .idle → R (chooseOperation a buffer) (chooseOperation b buffer'))
    (henter : a.state = .creating ∨ a.state = .updating → ∀ refused refusal opCode operation,
      R (enterRecord refused refusal opCode operation amb a buffer)
        (enterRecord refused refusal opCode operation amb' b buffer'))
    (hdelete : a.state = .deleting → R (deleteRecord amb a buffer) (deleteRecord amb' b buffer')) :
    R (handleAdminLine amb a buffer) (handleAdminLine amb' b buffer') := by
  simp only [handleAdminLine, ← hstate]
  cases hs : a.state with
  | idle => exact hchoose hs
  | creating => exact henter (Or.inl hs) id .alreadyContained .create (routingTableInsert amb)
  | updating => exact henter (Or.inr hs) not .notContained .update routingTableUpdate
  | deleting => exact hdelete hs

end TwoConsoles

theorem LineEffect.isSome_broadcast {a : Admin} {text : List UInt8} {answer : Answer}
    (hline : LineEffect a text answer) : answer.broadcast.isSome = true ↔ a.Completes text := by
  cases hline with
  | same reply hreply hreads hignores => exact iff_of_false (by simp) hignores.completes
  | reset reply hstate hne hreply =>
      exact iff_of_false (by simp) (ignores_of_idle hstate text).completes
  | chosen state hstate hne htable =>
      exact iff_of_false (by simp) (ignores_of_idle hstate text).completes
  | refused destination mask message hreads hmessage hstored hignores =>
      exact iff_of_false (by simp) hignores.completes
  | key destination mask hstate hentry hparse hany =>
      exact iff_of_false (by simp) (not_completes_of_entry hstate (by simp [hentry]) text)
  | gateway hstate hentry hvalid =>
      exact iff_of_false (by simp) (not_completes_of_entry hstate (by simp [hentry]) text)
  | created hstate hentry hlen =>
      exact iff_of_true rfl (Or.inl ⟨Or.inl hstate, hentry, hlen⟩)
  | updated hstate hentry hlen =>
      exact iff_of_true rfl (Or.inl ⟨Or.inr hstate, hentry, hlen⟩)
  | deleted destination mask hstate hparse hany =>
      exact iff_of_true rfl (Or.inr ⟨hstate, destination, mask, hparse, hany⟩)

end LinuxIPC
