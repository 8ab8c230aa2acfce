import LinuxIPC.Console

/-!
# Admin sessions

A session starts with the choice of an operation and ends with the line that carries it out.
Whatever the lines, the operation finds the table as the check of its key left it: it succeeds,
changes the table by itself alone and is broadcast once. Its key is the key the administrator
entered as long as the address of the entry fits its array; a longer text is cut without notice.
-/

namespace LinuxIPC

open CString Runs

/-- What every reachable state satisfies, in the comparisons of the source. -/
structure AdminInv (a : Admin) : Prop where
  distinct : a.rtm.Pairwise fun r r' => recordMatches r r' = false
  creating : a.state = .creating → a.entry = .gateway ∨ a.entry = .oif →
    routingTableContainsDstSubnet a.rtm a.record.fromDestination a.record.mask = false
  updating : a.state = .updating → a.entry = .gateway ∨ a.entry = .oif →
    routingTableContainsDstSubnet a.rtm a.record.fromDestination a.record.mask = true
  nonempty : a.state = .updating ∨ a.state = .deleting → a.rtm ≠ []
  deleting : a.state = .deleting → a.entry = .subnet

/-- The table before and after one operation: no other record has the key, and no other record
changes. -/
inductive Performs (body : MsgBody) : OpCode → RoutingTable → RoutingTable → Prop
  | create {rt : RoutingTable} (hothers : ∀ q ∈ rt, recordMatches q body = false) :
      Performs body .create rt (rt ++ [body])
  | update {r : MsgBody} {before after : RoutingTable} (hmatch : recordMatches r body = true)
      (hothers : ∀ q ∈ before ++ after, recordMatches q body = false) :
      Performs body .update (before ++ r :: after) (before ++ body :: after)
  | delete {r : MsgBody} {before after : RoutingTable} (hmatch : recordMatches r body = true)
      (hothers : ∀ q ∈ before ++ after, recordMatches q body = false) :
      Performs body .delete (before ++ r :: after) (before ++ after)

/-- The key a subnet line spells: its address, of any length, and the value of its mask. -/
def enteredKey (line : List UInt8) : List UInt8 × ℤ :=
  (addressText line, (strtol 0 (maskText line)).value)

/-- The key a record holds: the address in its array, and its mask. -/
def heldKey (r : MsgBody) : List UInt8 × ℤ := (r.destination.text, r.mask.toNat)

def InputState.operation : InputState → Option OpCode
  | .idle => none
  | .creating => some .create
  | .updating => some .update
  | .deleting => some .delete

structure SessionOpen (a : Admin) (answer : Answer) : Prop where
  table : answer.admin.rtm = a.rtm
  state : a.state ≠ .idle → answer.admin.state = a.state
  reply : ∀ opCode ok, answer.reply ≠ .finished opCode ok

/-- A line that ends the session with the message `m`, the subnet having been entered as `line`. -/
structure SessionEnds (a : Admin) (line : List UInt8) (answer : Answer) (m : SyncMsg) : Prop where
  operation : a.state.operation = some m.opCode
  state : answer.admin.state = .idle
  reply : answer.reply = .finished m.opCode true
  performs : Performs m.msgBody m.opCode a.rtm answer.admin.rtm
  key : heldKey m.msgBody = enteredKey line

/-- The line that entered the subnet of the operation that this line would complete. -/
def subnetLine (c : Console) (i : AdminInput) : List UInt8 :=
  if c.admin.state = .deleting then lineText i.buffer else c.entered

def SessionStep (c : Console) (i : AdminInput) : Prop :=
  ∀ answer, i.answer c.admin = some answer →
    match answer.broadcast with
    | none => SessionOpen c.admin answer
    | some m => SessionEnds c.admin (subnetLine c i) answer m

/-- If the line completes an operation, then the address entered for it fits its array. The keys of
records are up to 16 characters, so that an address of 16 fits, though without a NUL; as a string it
would have to be shorter. -/
def EnteredFits (c : Console) (i : AdminInput) : Prop :=
  c.admin.Completes (lineText i.buffer) → (addressText (subnetLine c i)).length ≤ ipAddrLen

structure ConsoleOk (c : Console) : Prop where
  admin : AdminOk c.admin
  entered : c.admin.HasKey → parseSubnet c.entered = some c.admin.record.key
  string : 0 ∉ c.entered

theorem AdminOk.contains_eq {a : Admin} (h : AdminOk a) (hkey : a.HasKey) :
    routingTableContainsDstSubnet a.rtm a.record.fromDestination a.record.mask =
      decide (a.state = .updating) := by
  obtain ⟨hvalid, hmem⟩ := h.pending hkey
  rw [routingTableContainsDstSubnet_eq, any_recordMatches h.validKey hvalid, decide_eq_decide]
  exact hmem

theorem AdminOk.adminInv {a : Admin} (h : AdminOk a) : AdminInv a where
  distinct := by
    have hkeys : a.rtm.Pairwise fun r r' => r.key ≠ r'.key := List.pairwise_map.mp h.nodup
    refine hkeys.imp_of_mem fun {r r'} hr hr' hne => ?_
    rw [(h.validKey r hr).recordMatches_eq (h.validKey r' hr'), decide_eq_false hne]
  creating := by
    intro hstate hentry
    rw [h.contains_eq ⟨Or.inl hstate, hentry⟩]
    simp [hstate]
  updating := by
    intro hstate hentry
    rw [h.contains_eq ⟨Or.inr hstate, hentry⟩]
    simp [hstate]
  nonempty := h.nonempty
  deleting := h.deleting

theorem consoleOk_init (entry : EntryType) (record : MsgBody) :
    ConsoleOk (Console.init entry record) where
  admin := AdminOk.initial entry record
  entered := by simp [Console.init, Admin.HasKey]
  string := by simp [Console.init]

/-- A session gets its key from the line that enters it, and keeps it until it ends. -/
theorem ConsoleOk.after {c : Console} {i : AdminInput} {answer : Answer} (h : ConsoleOk c)
    (hanswer : i.answer c.admin = some answer) : ConsoleOk (c.after i answer) where
  admin := h.admin.step (AdminInput.answer_effect hanswer)
  entered := by
    have hline := AdminInput.answer_effect hanswer
    intro hkey
    change answer.admin.HasKey at hkey
    simp only [Console.after]
    cases hline with
    | same reply hreply hreads hignores =>
        have hprompt : reply ≠ .prompt := by
          rintro rfl
          simp [Reply.rejected] at hreply
        simpa [hprompt] using h.entered hkey
    | reset reply hstate hne hreply => exact absurd hkey (not_hasKey_of_subnet rfl)
    | chosen state hstate hne htable => exact absurd hkey (not_hasKey_of_subnet rfl)
    | refused destination mask message hreads hmessage hstored hignores =>
        exact absurd hkey (h.admin.not_hasKey_of_reads hreads)
    | key destination mask hstate hentry hparse hany => simpa [hentry] using hparse
    | gateway hstate hentry hvalid =>
        have hkept := h.entered ⟨hstate, Or.inl hentry⟩
        simpa [hentry] using hkept
    | created hstate hentry hlen => exact absurd hkey (not_hasKey_of_idle rfl)
    | updated hstate hentry hlen => exact absurd hkey (not_hasKey_of_idle rfl)
    | deleted destination mask hstate hparse hany => exact absurd hkey (not_hasKey_of_idle rfl)
  string := by
    simp only [Console.after]
    split_ifs
    · exact zero_notMem_lineText i.buffer
    · exact h.string

theorem consoleStep_consoleOk {c c' : Console} {i : AdminInput} (h : ConsoleOk c)
    (hstep : consoleStep c i = some c') : ConsoleOk c' := by
  obtain ⟨answer, hanswer, -, rfl⟩ := consoleStep_eq_some hstep
  exact h.after hanswer

theorem AdminOk.split {a : Admin} (h : AdminOk a) {record : MsgBody} (hvalid : record.ValidKey)
    (hmem : record.key ∈ a.rtm.keys) :
    ∃ before r after, a.rtm = before ++ r :: after ∧ recordMatches r record = true ∧
      ∀ q ∈ before ++ after, recordMatches q record = false := by
  obtain ⟨r, hr, hrkey⟩ := List.mem_map.mp hmem
  obtain ⟨before, after, hsplit, hothers⟩ := split_of_nodup h.nodup hr
  refine ⟨before, r, after, hsplit, ?_, fun q hq => ?_⟩
  · rw [(h.validKey r hr).recordMatches_eq hvalid, decide_eq_true hrkey]
  · obtain ⟨hmem, hne⟩ := hothers q hq
    rw [(h.validKey q hmem).recordMatches_eq hvalid, decide_eq_false (hrkey ▸ hne)]

theorem AdminOk.performs_create {a : Admin} (h : AdminOk a) (hkey : a.HasKey)
    (hstate : a.state = .creating) (text : List UInt8) :
    Performs (a.record.withOif text) .create a.rtm (a.rtm ++ [a.record.withOif text]) := by
  have hvalid := h.validKey_withOif hkey text
  have hnot : a.rtm.any (recordMatches · (a.record.withOif text)) = false := by
    rw [any_recordMatches h.validKey hvalid, decide_eq_false]
    simp [(h.pending hkey).2, hstate]
  apply Performs.create
  intro q hq
  rw [List.any_eq_false] at hnot
  simpa using hnot q hq

theorem AdminOk.performs_update {a : Admin} (h : AdminOk a) (hkey : a.HasKey)
    (hstate : a.state = .updating) (hentry : a.entry = .oif) (text : List UInt8) :
    (routingTableUpdate a.rtm (a.record.withOif text)).2 = true ∧
      Performs (a.record.withOif text) .update a.rtm
        (routingTableUpdate a.rtm (a.record.withOif text)).1 := by
  have hvalid := h.validKey_withOif hkey text
  have hpadded := h.padded_withOif hkey hentry text
  have hmem : (a.record.withOif text).key ∈ a.rtm.keys := by
    simpa using (h.pending hkey).2.mpr hstate
  obtain ⟨before, r, after, hsplit, hmatch, hothers⟩ := h.split hvalid hmem
  have hr : r ∈ a.rtm := by simp [hsplit]
  have hroute : r.withRoute (a.record.withOif text) = a.record.withOif text := by
    obtain ⟨hd, hm⟩ := (recordMatches_iff (h.validKey r hr) hvalid).mp hmatch
    exact hpadded.withRoute_eq hd hm
  rw [hsplit, routingTableUpdate_split (fun q hq => hothers q (List.mem_append_left _ hq)) hmatch,
    hroute]
  exact ⟨rfl, Performs.update hmatch hothers⟩

theorem AdminOk.performs_delete {a : Admin} (h : AdminOk a) {record : MsgBody}
    (hvalid : record.ValidKey) (hany : a.rtm.any (recordMatches · record) = true) :
    (routingTableDelete a.rtm record).ok = true ∧
      Performs record .delete a.rtm (routingTableDelete a.rtm record).table := by
  rw [any_recordMatches h.validKey hvalid, decide_eq_true_eq] at hany
  obtain ⟨before, r, after, hsplit, hmatch, hothers⟩ := h.split hvalid hany
  rw [hsplit, routingTableDelete_split (fun q hq => hothers q (List.mem_append_left _ hq)) hmatch]
  exact ⟨rfl, Performs.delete hmatch hothers⟩

theorem heldKey_eq_enteredKey_iff {line : List UInt8} {r : MsgBody} (hstring : 0 ∉ line)
    (hparse : parseSubnet line = some r.key) :
    heldKey r = enteredKey line ↔ (addressText line).length ≤ ipAddrLen := by
  obtain ⟨-, hip, hmask⟩ := parseSubnet_eq_some hparse
  have haddress : 0 ∉ addressText line := fun h => hstring ((List.takeWhile_prefix _).subset h)
  have htext : r.destination.text = (addressText line).take ipAddrLen := by
    rw [hip, text_strncpy, cstr_eq_self haddress]
  rw [heldKey, enteredKey, Prod.mk.injEq, htext, List.take_eq_self_iff]
  exact and_iff_left (parseMask_eq_some hmask).2

theorem SessionOpen.of_effect {a : Admin} {text : List UInt8} {answer : Answer}
    (hline : LineEffect a text answer) (hnone : answer.broadcast = none) :
    SessionOpen a answer := by
  cases hline with
  | same reply hreply hreads hignores =>
      refine ⟨rfl, fun _ => rfl, fun opCode ok heq => ?_⟩
      simp [show reply = _ from heq, Reply.rejected] at hreply
  | reset reply hstate hne hreply =>
      refine ⟨rfl, fun h => absurd hstate h, fun opCode ok heq => ?_⟩
      simp [show reply = _ from heq, Reply.rejected] at hreply
  | chosen state hstate hne htable => exact ⟨rfl, fun h => absurd hstate h, by simp⟩
  | refused destination mask message hreads hmessage hstored hignores =>
      exact ⟨rfl, fun _ => rfl, by simp⟩
  | key destination mask hstate hentry hparse hany => exact ⟨rfl, fun _ => rfl, by simp⟩
  | gateway hstate hentry hvalid => exact ⟨rfl, fun _ => rfl, by simp⟩
  | created hstate hentry hlen => simp at hnone
  | updated hstate hentry hlen => simp at hnone
  | deleted destination mask hstate hparse hany => simp at hnone

/-- The key of the operation that a line completes is parsed from the subnet line; only that the key
is the one entered is left open here. -/
theorem ConsoleOk.session_ends {c : Console} {i : AdminInput} {answer : Answer} {m : SyncMsg}
    (h : ConsoleOk c) (hline : LineEffect c.admin (lineText i.buffer) answer)
    (hsome : answer.broadcast = some m) :
    parseSubnet (subnetLine c i) = some m.msgBody.key ∧
      (heldKey m.msgBody = enteredKey (subnetLine c i) →
        SessionEnds c.admin (subnetLine c i) answer m) := by
  cases hline with
  | same reply hreply hreads hignores => simp at hsome
  | reset reply hstate hne hreply => simp at hsome
  | chosen state hstate hne htable => simp at hsome
  | refused destination mask message hreads hmessage hstored hignores => simp at hsome
  | key destination mask hstate hentry hparse hany => simp at hsome
  | gateway hstate hentry hvalid => simp at hsome
  | created hstate hentry hlen =>
      have hkey : c.admin.HasKey := ⟨Or.inl hstate, Or.inr hentry⟩
      obtain rfl := Option.some.inj hsome
      refine ⟨?_, fun heq => ?_⟩
      · simpa [subnetLine, hstate] using h.entered hkey
      · refine ⟨by simp [hstate, InputState.operation], rfl, rfl, ?_, heq⟩
        rw [(h.admin.padded_withOif hkey hentry _).copy_eq]
        exact h.admin.performs_create hkey hstate _
  | updated hstate hentry hlen =>
      have hkey : c.admin.HasKey := ⟨Or.inr hstate, Or.inr hentry⟩
      obtain ⟨hok, hperforms⟩ := h.admin.performs_update hkey hstate hentry (lineText i.buffer)
      obtain rfl := Option.some.inj hsome
      refine ⟨?_, fun heq => ?_⟩
      · simpa [subnetLine, hstate] using h.entered hkey
      · exact ⟨by simp [hstate, InputState.operation], rfl, by rw [hok], hperforms, heq⟩
  | deleted destination mask hstate hparse hany =>
      obtain ⟨hok, hperforms⟩ := h.admin.performs_delete (MsgBody.ValidKey.withKey hparse) hany
      obtain rfl := Option.some.inj hsome
      refine ⟨?_, fun heq => ?_⟩
      · simpa [subnetLine, hstate] using hparse
      · exact ⟨by simp [hstate, InputState.operation], rfl, by rw [hok], hperforms, heq⟩

theorem ConsoleOk.zero_notMem_subnetLine {c : Console} (h : ConsoleOk c) (i : AdminInput) :
    0 ∉ subnetLine c i := by
  rw [subnetLine]
  split_ifs
  · exact zero_notMem_lineText i.buffer
  · exact h.string

theorem consoleStep_session {c c' : Console} {i : AdminInput} (h : ConsoleOk c)
    (hstep : consoleStep c i = some c') : SessionStep c i ↔ EnteredFits c i := by
  obtain ⟨answer, hanswer, -, rfl⟩ := consoleStep_eq_some hstep
  have hline := AdminInput.answer_effect hanswer
  have hsession : SessionStep c i ↔ match answer.broadcast with
      | none => SessionOpen c.admin answer
      | some m => SessionEnds c.admin (subnetLine c i) answer m := by
    refine ⟨fun hall => hall answer hanswer, fun hthis other hother => ?_⟩
    obtain rfl := Option.some.inj (hanswer.symm.trans hother)
    exact hthis
  have hcompletes := hline.isSome_broadcast
  rw [hsession]
  cases hm : answer.broadcast with
  | none =>
      have hnot : ¬ c.admin.Completes (lineText i.buffer) := by simpa [hm] using hcompletes
      exact ⟨fun _ hcompletes => absurd hcompletes hnot, fun _ => SessionOpen.of_effect hline hm⟩
  | some m =>
      have hcompletes : c.admin.Completes (lineText i.buffer) := hcompletes.mp (by simp [hm])
      obtain ⟨hparse, hends⟩ := h.session_ends hline hm
      have hkey := heldKey_eq_enteredKey_iff (h.zero_notMem_subnetLine i) hparse
      exact ⟨fun hend _ => hkey.mp hend.key, fun hfits => hends (hkey.mpr (hfits hcompletes))⟩

/-- Whatever lines are entered, the states reached satisfy the invariant; and the sessions carry
out what was entered exactly when no address entered is cut. -/
theorem admin_session (entry : EntryType) (record : MsgBody) (is : List AdminInput) :
    Throughout consoleStep (fun c => AdminInv c.admin) (Console.init entry record) is ∧
      (Along consoleStep SessionStep (Console.init entry record) is ↔
        Along consoleStep EnteredFits (Console.init entry record) is) := by
  have hpreserved : ∀ c i c', ConsoleOk c → consoleStep c i = some c' → ConsoleOk c' :=
    fun _ _ _ => consoleStep_consoleOk
  refine ⟨throughout_of_invariant hpreserved (fun c h => h.admin.adminInv)
    (consoleOk_init entry record) is, ?_⟩
  exact along_congr_of_invariant hpreserved (fun _ _ _ => consoleStep_session)
    (consoleOk_init entry record) is

/-- The address `1.2.3.0000000000004` is accepted, and the record is created for `1.2.3.0`. -/
theorem admin_session_cut_address :
    ¬ Along consoleStep SessionStep (Console.init .subnet Ambient.zero.heap)
      (["c", "1.2.3.0000000000004/5", "1.2.3.4", "eth0"].map typed) := by
  intro h
  have hlast : ["c", "1.2.3.0000000000004/5", "1.2.3.4", "eth0"].map typed =
      ["c", "1.2.3.0000000000004/5", "1.2.3.4"].map typed ++ [typed "eth0"] := rfl
  rw [hlast, along_append] at h
  have hcut : ((run consoleStep (Console.init .subnet Ambient.zero.heap)
      (["c", "1.2.3.0000000000004/5", "1.2.3.4"].map typed)).bind fun c =>
        ((typed "eth0").answer c.admin).bind fun answer =>
          answer.broadcast.map fun m => (decide (answer.reply = .shutdown),
            decide (heldKey m.msgBody = enteredKey (subnetLine c (typed "eth0"))))) =
      some (false, false) := by
    decide +kernel
  simp only [Option.bind_eq_some_iff, Option.map_eq_some_iff, Prod.mk.injEq,
    decide_eq_false_iff_not] at hcut
  obtain ⟨c, hrun, answer, hanswer, m, hm, hshut, hkey⟩ := hcut
  have hstep : consoleStep c (typed "eth0") = some (c.after (typed "eth0") answer) := by
    simp [consoleStep, hanswer, hshut]
  have hsession := (h.2 c hrun _ hstep).1 answer hanswer
  simp only [hm] at hsession
  exact hkey hsession.key

end LinuxIPC
