import LinuxIPC.ServerInvariant

/-!
# Uninitialised memory stays inside the server

The record in progress and the entry type are not initialised, nor is what `malloc` returns. Two
servers that differ in such memory only agree on it as soon as it is looked at: choosing an operation
sets the entry type, the key is set before it is compared, and once there is a record in the table
to delete, an earlier session has filled in the whole record in progress.
-/

namespace LinuxIPC

open CString Runs

/-- What a `read` of the console delivers, and what is left of the standard input: a line of at most
31 characters with its newline, or any input that leaves a NUL in the buffer. -/
structure ConsoleChunk where
  bytes : List UInt8
  stdin : List UInt8
  length_le : bytes.length ≤ bufSize
  ends : bytes.length < bufSize ∨ newline ∈ bytes

def ConsoleChunk.input (chunk : ConsoleChunk) (amb : Ambient) : AdminInput where
  amb := amb
  buffer := chunk.bytes ++ List.replicate (bufSize - chunk.bytes.length) 0 ++ amb.stack
  stdin := chunk.stdin

structure Iteration where
  ready : List ℤ
  dataSocket : ℤ
  chunk : ConsoleChunk
  writeOk : ℕ → Bool
  amb : Ambient
  amb' : Ambient

def Iteration.first (i : Iteration) : Wakeup :=
  ⟨i.ready, i.dataSocket, i.chunk.input i.amb, i.writeOk⟩

def Iteration.second (i : Iteration) : Wakeup :=
  ⟨i.ready, i.dataSocket, i.chunk.input i.amb', i.writeOk⟩

/-- The same input state and table, after the same calls of `write`. -/
structure SameObserved (s s' : Server) : Prop where
  state : s.admin.state = s'.admin.state
  rtm : s.admin.rtm = s'.admin.rtm
  writes : s.writes = s'.writes
  monitored : s.monitored = s'.monitored

/-- The variables are equal, as far as they were assigned. -/
structure Admin.Agree (a b : Admin) : Prop where
  rtm : a.rtm = b.rtm
  state : a.state = b.state
  entry : a.state ≠ .idle → a.entry = b.entry
  key : a.HasKey → a.record.key = b.record.key
  gatewayIp : a.HasKey → a.entry = .oif → a.record.gatewayIp = b.record.gatewayIp
  filled : a.rtm ≠ [] → a.record.gatewayIp = b.record.gatewayIp ∧ a.record.oif = b.record.oif

structure Answer.Agree (x y : Answer) : Prop where
  admin : x.admin.Agree y.admin
  reply : x.reply = y.reply
  broadcast : x.broadcast = y.broadcast

structure Server.Agree (s s' : Server) : Prop where
  admin : s.admin.Agree s'.admin
  eq : s' = { s with admin := s'.admin }

theorem Admin.Agree.refl (a : Admin) : a.Agree a :=
  ⟨rfl, rfl, fun _ => rfl, fun _ => rfl, fun _ _ => rfl, fun _ => ⟨rfl, rfl⟩⟩

theorem Answer.Agree.refl (x : Answer) : x.Agree x := ⟨Admin.Agree.refl _, rfl, rfl⟩

theorem Admin.Agree.of_not_hasKey {rtm : RoutingTable} {state : InputState} {entry entry' : EntryType}
    {r r' : MsgBody} (hentry : state ≠ .idle → entry = entry')
    (hkey : ¬ Admin.HasKey ⟨rtm, state, entry, r⟩)
    (hfilled : rtm ≠ [] → r.gatewayIp = r'.gatewayIp ∧ r.oif = r'.oif) :
    Admin.Agree ⟨rtm, state, entry, r⟩ ⟨rtm, state, entry', r'⟩ :=
  ⟨rfl, rfl, hentry, fun hk => absurd hk hkey, fun hk => absurd hk hkey, hfilled⟩

theorem chooseOperation_agree {a b : Admin} (h : a.Agree b) (hstate : a.state = .idle)
    {buffer buffer' : List UInt8} (hbuffer : cstr buffer = cstr buffer') :
    (chooseOperation a buffer).Agree (chooseOperation b buffer') := by
  obtain ⟨rtm, state, entry, r⟩ := a
  obtain ⟨rtm', state', entry', r'⟩ := b
  obtain ⟨hrtm, hstate', -, -, -, hfilled⟩ := h
  simp only at hrtm hstate' hfilled hstate
  subst hrtm hstate' hstate
  rcases chooseOperation_two rtm entry entry' r r' hbuffer with
    ⟨reply, heq, heq'⟩ | ⟨state, reply, heq, heq'⟩
  · rw [heq, heq']
    exact ⟨Admin.Agree.of_not_hasKey (fun hne => absurd rfl hne) (not_hasKey_of_idle rfl) hfilled,
      rfl, rfl⟩
  · rw [heq, heq']
    exact ⟨Admin.Agree.of_not_hasKey (fun _ => rfl) (not_hasKey_of_subnet rfl) hfilled, rfl, rfl⟩

/-- A subnet is refused or accepted alike, though the lookup of its key may read beyond the
destination. -/
theorem enterSubnet_agree (refused : Bool → Bool) (refusal : ErrorMessage) (amb amb' : Ambient)
    {rtm : RoutingTable} (hrtm : ∀ r ∈ rtm, r.ValidKey) (state : InputState) (entry : EntryType)
    (r r' : MsgBody) {buffer buffer' : List UInt8} (hbuffer : cstr buffer = cstr buffer') :
    (∃ d m d' m',
      enterSubnet refused refusal amb ⟨rtm, state, entry, r⟩ buffer =
        (⟨rtm, state, entry, r.withKey d m⟩, some .incorrectSubnet) ∧
      enterSubnet refused refusal amb' ⟨rtm, state, entry, r'⟩ buffer' =
        (⟨rtm, state, entry, r'.withKey d' m'⟩, some .incorrectSubnet)) ∨
    (∃ d m,
      enterSubnet refused refusal amb ⟨rtm, state, entry, r⟩ buffer =
        (⟨rtm, state, entry, r.withKey d m⟩,
          if refused (decide ((d, m) ∈ rtm.keys)) then some refusal else none) ∧
      enterSubnet refused refusal amb' ⟨rtm, state, entry, r'⟩ buffer' =
        (⟨rtm, state, entry, r'.withKey d m⟩,
          if refused (decide ((d, m) ∈ rtm.keys)) then some refusal else none)) := by
  rcases enterSubnet_two amb amb' refused refusal rtm state entry r r' hbuffer with
    hincorrect | ⟨d, m, hparse, heq, heq'⟩
  · exact Or.inl hincorrect
  · rw [any_recordMatches hrtm (MsgBody.ValidKey.withKey hparse), MsgBody.key_withKey] at heq heq'
    exact Or.inr ⟨d, m, heq, heq'⟩

theorem enterRecord_agree {refused : Bool → Bool} {refusal : ErrorMessage} {opCode : OpCode}
    {operation : RoutingTable → MsgBody → RoutingTable × Bool} {amb amb' : Ambient} {a b : Admin}
    (h : a.Agree b) (hadmin : AdminOk a) (hstate : a.state = .creating ∨ a.state = .updating)
    {buffer buffer' : List UInt8} (hbuffer : cstr buffer = cstr buffer') :
    (enterRecord refused refusal opCode operation amb a buffer).Agree
      (enterRecord refused refusal opCode operation amb' b buffer') := by
  obtain ⟨rtm, state, entry, r⟩ := a
  obtain ⟨rtm', state', entry', r'⟩ := b
  obtain ⟨hrtm, hstate', hentry, hkey, hgateway, hfilled⟩ := h
  have hne : state ≠ .idle := by rcases hstate with rfl | rfl <;> simp
  obtain rfl : entry = entry' := hentry hne
  simp only at hrtm hstate' hkey hgateway hfilled
  subst hrtm hstate'
  cases entry with
  | subnet =>
      rcases enterSubnet_agree refused refusal amb amb' hadmin.validKey state .subnet r r' hbuffer
        with ⟨d, m, d', m', heq, heq'⟩ | ⟨d, m, heq, heq'⟩
      · simp only [enterRecord, heq, heq']
        exact ⟨Admin.Agree.of_not_hasKey (fun _ => rfl) (not_hasKey_of_subnet rfl) hfilled, rfl, rfl⟩
      · simp only [enterRecord, heq, heq']
        split_ifs
        · exact ⟨Admin.Agree.of_not_hasKey (fun _ => rfl) (not_hasKey_of_subnet rfl) hfilled,
            rfl, rfl⟩
        · exact ⟨⟨rfl, rfl, fun _ => rfl, fun _ => rfl, fun _ hoif => by simp at hoif, hfilled⟩,
            rfl, rfl⟩
  | gateway =>
      simp only [enterRecord, readIpAddressFromBuffer_eq, hbuffer, strncpy_congr hbuffer]
      have hk : r.key = r'.key := hkey ⟨hstate, Or.inl rfl⟩
      cases validAddress (cstr buffer') with
      | false => exact ⟨⟨rfl, rfl, fun _ => rfl, fun _ => hk, hgateway, hfilled⟩, rfl, rfl⟩
      | true =>
          exact ⟨⟨rfl, rfl, fun _ => rfl, fun _ => hk, fun _ _ => rfl,
            fun htable => ⟨rfl, (hfilled htable).2⟩⟩, rfl, rfl⟩
  | oif =>
      have hcase : Admin.HasKey ⟨rtm, state, .oif, r⟩ := ⟨hstate, Or.inr rfl⟩
      have hstrlen : strlen buffer = strlen buffer' := congrArg List.length hbuffer
      have hrecord : { r with oif := strncpy oifLen buffer' } =
          { r' with oif := strncpy oifLen buffer' } :=
        MsgBody.eq_of_key (hkey hcase) (hgateway hcase rfl) rfl
      simp only [enterRecord, hstrlen, strncpy_congr hbuffer, hrecord]
      split_ifs
      · exact ⟨⟨rfl, rfl, hentry, hkey, hgateway, hfilled⟩, rfl, rfl⟩
      · exact Answer.Agree.refl _
  | other value => exact ⟨⟨rfl, rfl, hentry, hkey, hgateway, hfilled⟩, rfl, rfl⟩

/-- There is a record to delete only after a session that filled in the record in progress. -/
theorem deleteRecord_agree {amb amb' : Ambient} {a b : Admin} (h : a.Agree b) (hadmin : AdminOk a)
    (hstate : a.state = .deleting) {buffer buffer' : List UInt8}
    (hbuffer : cstr buffer = cstr buffer') :
    (deleteRecord amb a buffer).Agree (deleteRecord amb' b buffer') := by
  obtain ⟨rtm, state, entry, r⟩ := a
  obtain ⟨rtm', state', entry', r'⟩ := b
  have hne : rtm ≠ [] := hadmin.nonempty (Or.inr hstate)
  obtain ⟨hrtm, hstate', hentry, -, -, hfilled⟩ := h
  simp only at hrtm hstate' hentry hfilled hstate
  subst hrtm hstate' hstate
  obtain rfl : entry = entry' := hentry (by simp)
  have hkey : ∀ {r}, ¬ Admin.HasKey ⟨rtm, .deleting, entry, r⟩ := by
    rintro r ⟨hs | hs, -⟩ <;> simp at hs
  rcases enterSubnet_agree not .notContained amb amb' hadmin.validKey .deleting entry r r' hbuffer
    with ⟨d, m, d', m', heq, heq'⟩ | ⟨d, m, heq, heq'⟩
  · simp only [deleteRecord, heq, heq']
    exact ⟨Admin.Agree.of_not_hasKey (fun _ => rfl) hkey hfilled, rfl, rfl⟩
  · obtain ⟨hg, ho⟩ := hfilled hne
    simp only [deleteRecord, heq, heq', MsgBody.withKey_congr hg ho]
    exact Answer.Agree.refl _

theorem handleAdminLine_agree (amb amb' : Ambient) {a b : Admin} (h : a.Agree b)
    (hadmin : AdminOk a) {buffer buffer' : List UInt8} (hbuffer : cstr buffer = cstr buffer') :
    (handleAdminLine amb a buffer).Agree (handleAdminLine amb' b buffer') :=
  handleAdminLine_two amb amb' h.state (fun hs => chooseOperation_agree h hs hbuffer)
    (fun hs _ _ _ _ => enterRecord_agree h hadmin hs hbuffer)
    fun hs => deleteRecord_agree h hadmin hs hbuffer

theorem ConsoleChunk.zero_mem_or (chunk : ConsoleChunk) :
    0 ∈ chunk.bytes ++ List.replicate (bufSize - chunk.bytes.length) 0 ∨ newline ∈ chunk.bytes := by
  rcases chunk.ends with hlt | hmem
  · left
    rw [List.mem_append, List.mem_replicate]
    exact Or.inr ⟨by omega, rfl⟩
  · exact Or.inr hmem

/-- Behind the first NUL or newline of the buffer nothing is looked at. -/
theorem ConsoleChunk.input_congr (chunk : ConsoleChunk) (amb amb' : Ambient) :
    lineText (chunk.input amb).buffer = lineText (chunk.input amb').buffer ∧
      (strchr (chunk.input amb).buffer newline).isSome =
        (strchr (chunk.input amb').buffer newline).isSome := by
  unfold lineText strchr input
  simp only
  generalize hpadded : chunk.bytes ++ List.replicate (bufSize - chunk.bytes.length) 0 = padded
  by_cases hzero : 0 ∈ padded
  · rw [cstr_append_of_mem hzero, cstr_append_of_mem hzero]
    exact ⟨rfl, rfl⟩
  · have hmem : newline ∈ padded := by
      rcases chunk.zero_mem_or with hz | hmem
      · exact absurd (hpadded ▸ hz) hzero
      · rw [← hpadded]
        exact List.mem_append_left _ hmem
    have htext := takeWhile_ne_append_of_mem hmem
    have hidx : ∀ t, ((padded ++ t).idxOf? newline).isSome = true := by
      intro t
      rw [List.isSome_idxOf?]
      exact List.mem_append_left _ hmem
    rw [cstr_append_of_notMem hzero, cstr_append_of_notMem hzero]
    exact ⟨(htext _).trans (htext _).symm, (hidx _).trans (hidx _).symm⟩

/-- The two servers answer alike, or neither gets to an answer. -/
theorem answer_agree (chunk : ConsoleChunk) (amb amb' : Ambient) {a b : Admin} (h : a.Agree b)
    (hadmin : AdminOk a) :
    Option.Rel Answer.Agree ((chunk.input amb).answer a) ((chunk.input amb').answer b) := by
  obtain ⟨htext, hfound⟩ := chunk.input_congr amb amb'
  have hremoved : (removeNewline (chunk.input amb).buffer chunk.stdin).isSome =
      (removeNewline (chunk.input amb').buffer chunk.stdin).isSome := by
    unfold removeNewline
    cases hp : strchr (chunk.input amb).buffer newline <;>
    cases hp' : strchr (chunk.input amb').buffer newline <;>
    simp [hp, hp'] at hfound ⊢
  unfold AdminInput.answer handleAdminInput
  change Option.Rel _ (Option.map _ (Option.map _ (removeNewline _ chunk.stdin)))
    (Option.map _ (Option.map _ (removeNewline _ chunk.stdin)))
  cases hr : removeNewline (chunk.input amb).buffer chunk.stdin with
  | none =>
      rw [hr, Option.isSome_none, eq_comm, Option.isSome_eq_false_iff, Option.isNone_iff_eq_none]
        at hremoved
      rw [hremoved]
      exact Option.Rel.none
  | some removed =>
      rw [hr, Option.isSome_some, eq_comm, Option.isSome_iff_exists] at hremoved
      obtain ⟨removed', hr'⟩ := hremoved
      rw [hr']
      apply Option.Rel.some
      apply handleAdminLine_agree amb amb' h hadmin
      rw [removeNewline_eq_some hr, removeNewline_eq_some hr', htext]

def AdminFree (f : Server → Server) : Prop :=
  ∀ (s : Server) (b : Admin), f { s with admin := b } = { f s with admin := b }

theorem AdminFree.agree {f : Server → Server} (hf : AdminFree f) {s t : Server} (h : s.Agree t) :
    (f s).Agree (f t) := by
  have hself : f s = { f s with admin := s.admin } := hf s s.admin
  have hadmin : (f s).admin = s.admin := by rw [hself]
  have heq : f t = { f s with admin := t.admin } := by
    rw [← hf s t.admin, ← h.eq]
  rw [heq]
  exact ⟨hadmin ▸ h.admin, rfl⟩

theorem adminFree_foldl {α : Type*} {f : Server → α → Server} (hf : ∀ x, AdminFree fun s => f s x)
    (xs : List α) : AdminFree fun s => xs.foldl f s := by
  intro s b
  simp only
  induction xs generalizing s with
  | nil => rfl
  | cons x xs ih =>
      have hx : f { s with admin := b } x = { f s x with admin := b } := hf x s b
      rw [List.foldl_cons, List.foldl_cons, hx, ih]

theorem adminFree_sendTo (writeOk : ℕ → Bool) (syncMsg : SyncMsg) (fd : ℤ) :
    AdminFree fun s => sendTo writeOk s syncMsg fd := by
  intro s b
  simp only [sendTo]
  cases hok : writeOk s.writes.length <;> simp

theorem adminFree_dump (writeOk : ℕ → Bool) (rt : RoutingTable) (fd : ℤ) :
    AdminFree fun s => dumpRtmContents writeOk s rt fd :=
  adminFree_foldl (fun _ => adminFree_sendTo writeOk _ fd) rt

theorem adminFree_broadcast (writeOk : ℕ → Bool) (syncMsg : SyncMsg) :
    AdminFree fun s => sendSynchronizationMessage writeOk s syncMsg := by
  apply adminFree_foldl
  intro i s b
  by_cases hdata : s.isDataSocket (s.monitored.slots.getD i (-1)) = true
  · have hdata' : Server.isDataSocket { s with admin := b } (s.monitored.slots.getD i (-1)) = true :=
      hdata
    simp only [sendToSlot, hdata, hdata', if_true]
    exact adminFree_sendTo writeOk syncMsg _ s b
  · have hdata' : ¬ Server.isDataSocket { s with admin := b }
        (s.monitored.slots.getD i (-1)) = true := hdata
    simp only [sendToSlot, if_neg hdata, if_neg hdata']

theorem accept_agree {s : Server} {b : Admin} (h : s.admin.Agree b) (i : Iteration) :
    Option.Rel Server.Agree (handleConnectionInitiationRequest i.first s)
      (handleConnectionInitiationRequest i.second { s with admin := b }) := by
  simp only [handleConnectionInitiationRequest, Iteration.first, Iteration.second, ← h.rtm]
  cases accept s.openFds i.dataSocket with
  | none => exact Option.Rel.none
  | some fd => exact Option.Rel.some ((adminFree_dump i.writeOk s.admin.rtm fd).agree ⟨h, rfl⟩)

theorem handleLine_agree {s : Server} {b : Admin} (h : s.admin.Agree b) (hadmin : AdminOk s.admin)
    (i : Iteration) :
    Option.Rel Server.Agree (handleLine i.first s) (handleLine i.second { s with admin := b }) := by
  have hanswers := answer_agree i.chunk i.amb i.amb' h hadmin
  simp only [handleLine, Iteration.first, Iteration.second]
  cases hx : (i.chunk.input i.amb).answer s.admin with
  | none =>
      cases hy : (i.chunk.input i.amb').answer b with
      | none => exact Option.Rel.none
      | some y => simp [hx, hy] at hanswers
  | some x =>
      cases hy : (i.chunk.input i.amb').answer b with
      | none => simp [hx, hy] at hanswers
      | some y =>
          obtain ⟨hanswered, hreply, hbroadcast⟩ : x.Agree y := by simpa [hx, hy] using hanswers
          simp only [hreply, hbroadcast]
          split_ifs with hshut
          · exact Option.Rel.none
          · cases y.broadcast with
            | none => exact Option.Rel.some ⟨hanswered, rfl⟩
            | some syncMsg =>
                exact Option.Rel.some
                  ((adminFree_broadcast i.writeOk syncMsg).agree ⟨hanswered, rfl⟩)

theorem serverStep_agree {s t : Server} (h : s.Agree t) (hok : ServerOk s) (i : Iteration) :
    Option.Rel Server.Agree (serverStep s i.first) (serverStep t i.second) := by
  have hready : i.first.ready = i.second.ready := rfl
  obtain ⟨hadmin, heq⟩ := h
  rw [heq]
  simp only [serverStep, hready]
  split_ifs with haccepts hreads
  · exact accept_agree hadmin i
  · exact handleLine_agree hadmin hok.admin i
  · exact Option.Rel.some ⟨hadmin, rfl⟩

theorem run_agree {s t : Server} (h : s.Agree t) (hok : ServerOk s) (is : List Iteration) :
    Option.Rel Server.Agree (run serverStep s (is.map Iteration.first))
      (run serverStep t (is.map Iteration.second)) := by
  induction is generalizing s t with
  | nil => exact Option.Rel.some h
  | cons i is ih =>
      have hstep := serverStep_agree h hok i
      rw [List.map_cons, List.map_cons, run, run]
      cases hs : serverStep s i.first with
      | none =>
          cases ht : serverStep t i.second with
          | none => exact Option.Rel.none
          | some t' => simp [hs, ht] at hstep
      | some s' =>
          cases ht : serverStep t i.second with
          | none => simp [hs, ht] at hstep
          | some t' =>
              have hagree : s'.Agree t' := by simpa [hs, ht] using hstep
              exact ih hagree (serverStep_serverOk hok hs)

/-- Two runs on the same connections and console input, from starts and in memories that differ in
what was never assigned, have the same input states and tables and write the same messages to the
same clients, for as long as either lasts. -/
theorem uninitialised_memory_unseen (launch : Launch) (entry entry' : EntryType)
    (record record' : MsgBody) (is : List Iteration) :
    Option.Rel SameObserved
      (run serverStep (Server.init ⟨launch, entry, record⟩) (is.map Iteration.first))
      (run serverStep (Server.init ⟨launch, entry', record'⟩) (is.map Iteration.second)) := by
  have hadmin : Admin.Agree ⟨[], .idle, entry, record⟩ ⟨[], .idle, entry', record'⟩ :=
    Admin.Agree.of_not_hasKey (fun hne => absurd rfl hne) (not_hasKey_of_idle rfl)
      fun hne => absurd rfl hne
  have hinit : (Server.init ⟨launch, entry, record⟩).Agree (Server.init ⟨launch, entry', record'⟩) :=
    ⟨hadmin, rfl⟩
  refine rel_mono (fun s t h => ?_) (run_agree hinit (ServerOk.init _) is)
  exact ⟨h.admin.state, h.admin.rtm, by rw [h.eq], by rw [h.eq]⟩

end LinuxIPC
