import LinuxIPC.Console

/-!
# Rejected lines are inert

Deleting rejected lines from a session changes nothing else. A rejected subnet may have overwritten
the destination and the mask of the record in progress, so that two consoles count as alike whatever
these are while no key is held; a key is always entered anew before it is used.
-/

namespace LinuxIPC

open CString Runs

/-- A line of the administrator, which fits the buffer together with its newline. -/
structure AdminLine where
  text : List UInt8
  length_lt : text.length < bufSize
  zero_notMem : 0 ∉ text
  newline_notMem : newline ∉ text

/-- A line, deleted or not, and what the memory holds at it before and after lines are deleted. -/
structure EditedLine where
  line : AdminLine
  deleted : Bool
  before : Ambient
  after : Ambient

def EditedLine.input (l : EditedLine) : AdminInput := AdminInput.ofLine l.before l.line.text

def EditedLine.remaining (l : EditedLine) : Option AdminInput :=
  if l.deleted then none else some (AdminInput.ofLine l.after l.line.text)

def verdict (c : Console) (i : AdminInput) : Option Reply := (i.answer c.admin).map Answer.reply

def editedStep (c : Console) (l : EditedLine) : Option Console := consoleStep c l.input

def editedVerdict (c : Console) (l : EditedLine) : Option Reply := verdict c l.input

structure SameOutcome (c c' : Console) : Prop where
  rtm : c.admin.rtm = c'.admin.rtm
  state : c.admin.state = c'.admin.state
  entry : c.admin.entry = c'.admin.entry
  broadcasts : c.broadcasts = c'.broadcasts

/-- The variables are equal, but for the key of the record in progress while none is held. -/
structure Admin.Alike (a b : Admin) : Prop where
  rtm : a.rtm = b.rtm
  state : a.state = b.state
  entry : a.entry = b.entry
  gatewayIp : a.record.gatewayIp = b.record.gatewayIp
  oif : a.record.oif = b.record.oif
  key : a.HasKey → a.record.key = b.record.key

structure Answer.Alike (x y : Answer) : Prop where
  admin : x.admin.Alike y.admin
  reply : x.reply = y.reply
  broadcast : x.broadcast = y.broadcast

def Admin.MenuReset (a : Admin) : Prop := a.state = .idle → a.rtm ≠ [] → a.entry = .subnet

/-- The simulation relation: the first console runs all lines, the second those that remain. -/
structure Follows (c c' : Console) : Prop where
  admin : AdminOk c.admin
  menu : c.admin.MenuReset
  alike : c.admin.Alike c'.admin
  broadcasts : c.broadcasts = c'.broadcasts

theorem Admin.Alike.refl (a : Admin) : a.Alike a := ⟨rfl, rfl, rfl, rfl, rfl, fun _ => rfl⟩

theorem Answer.Alike.refl (x : Answer) : x.Alike x := ⟨Admin.Alike.refl _, rfl, rfl⟩

theorem Admin.Alike.of_records {rtm : RoutingTable} {state : InputState} {entry : EntryType}
    {r r' : MsgBody} (hg : r.gatewayIp = r'.gatewayIp) (ho : r.oif = r'.oif)
    (hkey : ¬ Admin.HasKey ⟨rtm, state, entry, r⟩) :
    Admin.Alike ⟨rtm, state, entry, r⟩ ⟨rtm, state, entry, r'⟩ :=
  ⟨rfl, rfl, rfl, hg, ho, fun hk => absurd hk hkey⟩

theorem chooseOperation_alike {a b : Admin} (h : a.Alike b) (hstate : a.state = .idle)
    {buffer buffer' : List UInt8} (hbuffer : cstr buffer = cstr buffer') :
    (chooseOperation a buffer).Alike (chooseOperation b buffer') := by
  obtain ⟨rtm, state, entry, record⟩ := a
  obtain ⟨rtm', state', entry', record'⟩ := b
  obtain ⟨hrtm, hstate', hentry, hg, ho, -⟩ := h
  simp only at hrtm hstate' hentry hg ho hstate
  subst hrtm hstate' hentry hstate
  rcases chooseOperation_two rtm entry entry record record' hbuffer with
    ⟨reply, heq, heq'⟩ | ⟨state, reply, heq, heq'⟩
  · rw [heq, heq']
    exact ⟨Admin.Alike.of_records hg ho (not_hasKey_of_idle rfl), rfl, rfl⟩
  · rw [heq, heq']
    exact ⟨Admin.Alike.of_records hg ho (not_hasKey_of_subnet rfl), rfl, rfl⟩

theorem enterSubnet_alike (refused : Bool → Bool) (refusal : ErrorMessage) (amb amb' : Ambient)
    (rtm : RoutingTable) (state : InputState) (entry : EntryType) {r r' : MsgBody}
    (hg : r.gatewayIp = r'.gatewayIp) (ho : r.oif = r'.oif) {buffer buffer' : List UInt8}
    (hbuffer : cstr buffer = cstr buffer') :
    (∃ d m d' m',
      enterSubnet refused refusal amb ⟨rtm, state, entry, r⟩ buffer =
        (⟨rtm, state, entry, r.withKey d m⟩, some .incorrectSubnet) ∧
      enterSubnet refused refusal amb' ⟨rtm, state, entry, r'⟩ buffer' =
        (⟨rtm, state, entry, r'.withKey d' m'⟩, some .incorrectSubnet)) ∨
    (∃ d m message,
      enterSubnet refused refusal amb ⟨rtm, state, entry, r⟩ buffer =
        (⟨rtm, state, entry, r.withKey d m⟩, message) ∧
      enterSubnet refused refusal amb' ⟨rtm, state, entry, r'⟩ buffer' =
        (⟨rtm, state, entry, r.withKey d m⟩, message)) := by
  rcases enterSubnet_two amb amb' refused refusal rtm state entry r r' hbuffer with
    hincorrect | ⟨d, m, -, heq, heq'⟩
  · exact Or.inl hincorrect
  · rw [← MsgBody.withKey_congr hg ho] at heq'
    exact Or.inr ⟨d, m, _, heq, heq'⟩

theorem enterRecord_alike {refused : Bool → Bool} {refusal : ErrorMessage} {opCode : OpCode}
    {operation : RoutingTable → MsgBody → RoutingTable × Bool} {amb amb' : Ambient} {a b : Admin}
    (h : a.Alike b) (hstate : a.state = .creating ∨ a.state = .updating)
    {buffer buffer' : List UInt8} (hbuffer : cstr buffer = cstr buffer') :
    (enterRecord refused refusal opCode operation amb a buffer).Alike
      (enterRecord refused refusal opCode operation amb' b buffer') := by
  obtain ⟨rtm, state, entry, r⟩ := a
  obtain ⟨rtm', state', entry', r'⟩ := b
  obtain ⟨hrtm, hstate', hentry, hg, ho, hkey⟩ := h
  simp only at hrtm hstate' hentry hg ho hkey
  subst hrtm hstate' hentry
  cases entry with
  | subnet =>
      rcases enterSubnet_alike refused refusal amb amb' rtm state .subnet hg ho hbuffer with
        ⟨d, m, d', m', heq, heq'⟩ | ⟨d, m, message, heq, heq'⟩
      · simp only [enterRecord, heq, heq']
        exact ⟨Admin.Alike.of_records hg ho (not_hasKey_of_subnet rfl), rfl, rfl⟩
      · simp only [enterRecord, heq, heq']
        cases message <;> exact Answer.Alike.refl _
  | gateway =>
      simp only [enterRecord, readIpAddressFromBuffer_eq, hbuffer, strncpy_congr hbuffer]
      have hk : r.key = r'.key := hkey ⟨hstate, Or.inl rfl⟩
      cases validAddress (cstr buffer') with
      | false => exact ⟨⟨rfl, rfl, rfl, hg, ho, fun _ => hk⟩, rfl, rfl⟩
      | true => exact ⟨⟨rfl, rfl, rfl, rfl, ho, fun _ => hk⟩, rfl, rfl⟩
  | oif =>
      obtain rfl := MsgBody.eq_of_key (hkey ⟨hstate, Or.inr rfl⟩) hg ho
      simp only [enterRecord, strlen, hbuffer, strncpy_congr hbuffer]
      exact Answer.Alike.refl _
  | other value => exact ⟨⟨rfl, rfl, rfl, hg, ho, hkey⟩, rfl, rfl⟩

theorem deleteRecord_alike {amb amb' : Ambient} {a b : Admin} (h : a.Alike b)
    (hstate : a.state = .deleting) {buffer buffer' : List UInt8}
    (hbuffer : cstr buffer = cstr buffer') :
    (deleteRecord amb a buffer).Alike (deleteRecord amb' b buffer') := by
  obtain ⟨rtm, state, entry, r⟩ := a
  obtain ⟨rtm', state', entry', r'⟩ := b
  obtain ⟨hrtm, hstate', hentry, hg, ho, -⟩ := h
  simp only at hrtm hstate' hentry hg ho hstate
  subst hrtm hstate' hentry hstate
  rcases enterSubnet_alike not .notContained amb amb' rtm .deleting entry hg ho hbuffer with
    ⟨d, m, d', m', heq, heq'⟩ | ⟨d, m, message, heq, heq'⟩
  · simp only [deleteRecord, heq, heq']
    refine ⟨Admin.Alike.of_records hg ho ?_, rfl, rfl⟩
    rintro ⟨hs | hs, -⟩ <;> simp at hs
  · simp only [deleteRecord, heq, heq']
    cases message <;> exact Answer.Alike.refl _

theorem handleAdminLine_alike (amb amb' : Ambient) {a b : Admin} (h : a.Alike b)
    {buffer buffer' : List UInt8} (hbuffer : cstr buffer = cstr buffer') :
    (handleAdminLine amb a buffer).Alike (handleAdminLine amb' b buffer') :=
  handleAdminLine_two amb amb' h.state (fun hs => chooseOperation_alike h hs hbuffer)
    (fun hs _ _ _ _ => enterRecord_alike h hs hbuffer) fun hs => deleteRecord_alike h hs hbuffer

theorem Admin.MenuReset.step {a : Admin} {text : List UInt8} {answer : Answer} (h : a.MenuReset)
    (hadmin : AdminOk a) (hline : LineEffect a text answer) : answer.admin.MenuReset := by
  cases hline with
  | same reply hreply hreads hignores => exact h
  | reset reply hstate hne hreply => exact fun _ _ => rfl
  | chosen state hstate hne htable => exact fun _ _ => rfl
  | refused destination mask message hreads hmessage hstored hignores =>
      exact fun hidle => absurd hreads (not_readsSubnet_of_idle hidle)
  | key destination mask hstate hentry hparse hany =>
      intro hidle
      rcases hstate with hs | hs <;> simp [hs] at hidle
  | gateway hstate hentry hvalid =>
      intro hidle
      rcases hstate with hs | hs <;> simp [hs] at hidle
  | created hstate hentry hlen => exact fun _ _ => rfl
  | updated hstate hentry hlen => exact fun _ _ => rfl
  | deleted destination mask hstate hparse hany => exact fun _ _ => hadmin.deleting hstate

theorem Admin.Alike.of_rejected {a b : Admin} {text : List UInt8} {answer : Answer}
    (h : a.Alike b) (hadmin : AdminOk a) (hmenu : a.MenuReset) (hline : LineEffect a text answer)
    (hrejected : answer.reply.rejected = true) :
    answer.admin.Alike b ∧ answer.broadcast = none := by
  cases hline with
  | same reply hreply hreads hignores => exact ⟨h, rfl⟩
  | reset reply hstate hne hreply =>
      have hentry : a.entry = .subnet := hmenu hstate hne
      exact ⟨⟨h.rtm, h.state, hentry.symm.trans h.entry, h.gatewayIp, h.oif,
        fun hk => absurd hk (not_hasKey_of_subnet rfl)⟩, rfl⟩
  | refused destination mask message hreads hmessage hstored hignores =>
      exact ⟨⟨h.rtm, h.state, h.entry, h.gatewayIp, h.oif,
        fun hk => absurd hk (hadmin.not_hasKey_of_reads hreads)⟩, rfl⟩
  | chosen state hstate hne htable => simp [Reply.rejected] at hrejected
  | key destination mask hstate hentry hparse hany => simp [Reply.rejected] at hrejected
  | gateway hstate hentry hvalid => simp [Reply.rejected] at hrejected
  | created hstate hentry hlen => simp [Reply.rejected] at hrejected
  | updated hstate hentry hlen => simp [Reply.rejected] at hrejected
  | deleted destination mask hstate hparse hany => simp [Reply.rejected] at hrejected

theorem answer_ofLine (amb : Ambient) (l : AdminLine) (a : Admin) :
    ∃ buffer, cstr buffer = l.text ∧
      (AdminInput.ofLine amb l.text).answer a = some (handleAdminLine amb a buffer) := by
  have hcstr : ∀ rest, cstr (l.text ++ newline :: rest) = l.text ++ newline :: cstr rest := by
    intro rest
    rw [cstr_append_of_notMem l.zero_notMem, cstr_cons (by decide)]
  have hbuffer : (AdminInput.ofLine amb l.text).buffer = l.text ++ newline ::
      (List.replicate (bufSize - 1 - l.text.length) 0 ++ amb.stack) := by
    simp [AdminInput.ofLine]
  have htext : lineText (AdminInput.ofLine amb l.text).buffer = l.text := by
    rw [lineText, hbuffer, hcstr, takeWhile_ne_append_cons l.newline_notMem]
  cases hchr : strchr (AdminInput.ofLine amb l.text).buffer newline with
  | none =>
      rw [strchr_eq_none_iff, hbuffer, hcstr] at hchr
      simp at hchr
  | some p =>
      refine ⟨(AdminInput.ofLine amb l.text).buffer.set p 0, ?_, ?_⟩
      · rw [cstr_set_of_strchr hchr, htext]
      · simp only [AdminInput.answer, handleAdminInput, removeNewline, hchr, Option.map_some]
        rfl

theorem Follows.skip {c c' : Console} (h : Follows c c') {i : AdminInput}
    (hrejected : (verdict c i).any Reply.rejected = true) :
    ∃ d, consoleStep c i = some d ∧ Follows d c' := by
  cases hanswer : i.answer c.admin with
  | none => simp [verdict, hanswer] at hrejected
  | some answer =>
      have hreply : answer.reply.rejected = true := by simpa [verdict, hanswer] using hrejected
      have hshut : answer.reply ≠ .shutdown := fun heq => by simp [heq, Reply.rejected] at hreply
      have hline := AdminInput.answer_effect hanswer
      obtain ⟨halike, hnone⟩ := h.alike.of_rejected h.admin h.menu hline hreply
      refine ⟨c.after i answer, by simp [consoleStep, hanswer, hshut], ?_⟩
      exact
        { admin := h.admin.step hline
          menu := h.menu.step h.admin hline
          alike := halike
          broadcasts := by simp [Console.after, hnone, h.broadcasts] }

theorem Follows.keep {c c' : Console} (h : Follows c c') (l : AdminLine) (amb amb' : Ambient) :
    verdict c (AdminInput.ofLine amb l.text) = verdict c' (AdminInput.ofLine amb' l.text) ∧
      Option.Rel Follows (consoleStep c (AdminInput.ofLine amb l.text))
        (consoleStep c' (AdminInput.ofLine amb' l.text)) := by
  obtain ⟨buffer, hbuffer, hanswer⟩ := answer_ofLine amb l c.admin
  obtain ⟨buffer', hbuffer', hanswer'⟩ := answer_ofLine amb' l c'.admin
  have halike := handleAdminLine_alike amb amb' h.alike (hbuffer.trans hbuffer'.symm)
  have hline := AdminInput.answer_effect hanswer
  rw [verdict, verdict, consoleStep, consoleStep, hanswer, hanswer']
  simp only [Option.map_some, Option.bind_some, halike.reply, true_and]
  split_ifs with hshut
  · exact Option.Rel.none
  · refine Option.Rel.some ⟨h.admin.step hline, h.menu.step h.admin hline, halike.admin, ?_⟩
    simp only [Console.after, h.broadcasts, halike.broadcast]

theorem Follows.sameOutcome {c c' : Console} (h : Follows c c') : SameOutcome c c' :=
  ⟨h.alike.rtm, h.alike.state, h.alike.entry, h.broadcasts⟩

/-- Rejected lines, whichever of them are deleted, change neither the replies to the remaining lines
nor the table, the input state, the entry type and the messages at the end. -/
theorem rejected_lines_inert (entry : EntryType) (record : MsgBody) (ls : List EditedLine)
    (hdeleted : ∀ p ∈ trace editedStep editedVerdict (Console.init entry record) ls,
      p.1.deleted = true → p.2.any Reply.rejected = true) :
    Option.Rel SameOutcome (run editedStep (Console.init entry record) ls)
        (run consoleStep (Console.init entry record) (ls.filterMap EditedLine.remaining)) ∧
      (trace editedStep editedVerdict (Console.init entry record) ls).filterMap
          (kept EditedLine.remaining) =
        trace consoleStep verdict (Console.init entry record)
          (ls.filterMap EditedLine.remaining) := by
  have hinit : Follows (Console.init entry record) (Console.init entry record) :=
    ⟨AdminOk.initial entry record, fun _ hne => absurd rfl hne, Admin.Alike.refl _, rfl⟩
  have hskip : ∀ c l c', Follows c c' → l.remaining = none →
      (editedVerdict c l).any Reply.rejected = true → ∃ d, editedStep c l = some d ∧ Follows d c' :=
    fun c l c' h _ hrejected => h.skip hrejected
  have hkeep : ∀ c l c' i, Follows c c' → l.remaining = some i →
      editedVerdict c l = verdict c' i ∧ Option.Rel Follows (editedStep c l) (consoleStep c' i) := by
    intro c l c' i h hi
    cases hdel : l.deleted with
    | true => simp [EditedLine.remaining, hdel] at hi
    | false =>
        obtain rfl : AdminInput.ofLine l.after l.line.text = i := by
          simpa [EditedLine.remaining, hdel] using hi
        exact h.keep l.line l.before l.after
  have hinert : ∀ p ∈ trace editedStep editedVerdict (Console.init entry record) ls,
      p.1.remaining = none → p.2.any Reply.rejected = true := by
    intro p hp hnone
    exact hdeleted p hp (by simpa [EditedLine.remaining] using hnone)
  obtain ⟨hrun, htrace⟩ := erasure Follows (fun o => o.any Reply.rejected = true)
    EditedLine.remaining hskip hkeep hinit hinert
  exact ⟨rel_mono (fun _ _ h => h.sameOutcome) hrun, htrace⟩

def edited (p : String × Bool) : Option EditedLine :=
  if h : (ascii p.1).length < bufSize ∧ 0 ∉ ascii p.1 ∧ newline ∉ ascii p.1 then
    some ⟨⟨ascii p.1, h.1, h.2.1, h.2.2⟩, p.2, Ambient.zero, Ambient.zero⟩
  else none

theorem rejected_lines_inert_session :
    Option.Rel SameOutcome
        (run editedStep (Console.init .subnet Ambient.zero.heap)
          ([("u", true), ("c", false), ("1.2.3.4", true), ("9.9.9.9/99", true), ("1.2.3.4/8", false),
            ("1.2.3", true), ("10.0.0.1", false), ("eth0", false)].filterMap edited))
        (run consoleStep (Console.init .subnet Ambient.zero.heap)
          (([("u", true), ("c", false), ("1.2.3.4", true), ("9.9.9.9/99", true),
            ("1.2.3.4/8", false), ("1.2.3", true), ("10.0.0.1", false),
            ("eth0", false)].filterMap edited).filterMap EditedLine.remaining)) :=
  (rejected_lines_inert .subnet Ambient.zero.heap _ (by decide +kernel)).1

end LinuxIPC
