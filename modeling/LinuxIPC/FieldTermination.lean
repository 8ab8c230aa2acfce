import LinuxIPC.Console

/-!
# The ends of the text fields

The copies into the fields of a record stop at the size of the array, and a text of exactly that
size or more leaves no NUL. The validators let such texts through: an address group may have
leading zeros, and the interface is only refused when it is longer than the array.
-/

namespace LinuxIPC

open CString Runs

/-- The fields accepted so far end inside their arrays: those of the record in progress, of the
table and of the messages. With a record in the table, an earlier session has filled in the whole
record in progress. -/
structure FieldsEnd (c : Console) : Prop where
  destination : c.admin.HasKey → c.admin.record.destination.Terminated
  gateway : c.admin.HasKey ∧ c.admin.entry = .oif ∨ c.admin.rtm ≠ [] →
    c.admin.record.gatewayIp.Terminated
  oif : c.admin.rtm ≠ [] → c.admin.record.oif.Terminated
  records : ∀ r ∈ c.admin.rtm, r.Terminated
  broadcasts : ∀ m ∈ c.broadcasts, m.msgBody.Terminated

/-- A destination read from a well-formed subnet, which the lookup of its key then compares, ends
inside its array, even if the key is refused. -/
def DestinationEnds (c : Console) (i : AdminInput) : Prop :=
  ∀ answer, i.answer c.admin = some answer → c.admin.ReadsSubnet →
    (parseSubnet (lineText i.buffer)).isSome = true → answer.admin.record.destination.Terminated

structure TextsFit (c : Console) (i : AdminInput) : Prop where
  subnet : c.admin.ReadsSubnet → (parseSubnet (lineText i.buffer)).isSome = true →
    (addressText (lineText i.buffer)).length < ipAddrLen
  gateway : c.admin.EntersGateway (lineText i.buffer) → (lineText i.buffer).length < ipAddrLen
  oif : c.admin.state = .creating ∨ c.admin.state = .updating → c.admin.entry = .oif →
    (lineText i.buffer).length ≠ oifLen

theorem terminated_strncpy_of_notMem {n : ℕ} {text : List UInt8} (h : 0 ∉ text) :
    (strncpy n text).Terminated ↔ text.length < n := by
  rw [terminated_strncpy, cstr_eq_self h]

theorem LineEffect.destination_eq {a : Admin} {text : List UInt8} {answer : Answer}
    (hline : LineEffect a text answer) (hreads : a.ReadsSubnet) {ip : CharArray ipAddrLen}
    {k : UInt16} (hparse : parseSubnet text = some (ip, k)) :
    answer.admin.record.destination = ip := by
  cases hline with
  | same reply hreply hnot hignores => exact absurd hreads hnot
  | reset reply hstate hne hreply => exact absurd hreads (not_readsSubnet_of_idle hstate)
  | chosen state hstate hne htable => exact absurd hreads (not_readsSubnet_of_idle hstate)
  | refused destination mask message hreads' hmessage hstored hignores => exact hstored ip k hparse
  | key destination mask hstate hentry hparse' hany =>
      exact (Prod.mk.inj (Option.some.inj (hparse'.symm.trans hparse))).1
  | gateway hstate hentry hvalid =>
      exact absurd hreads (not_readsSubnet_of_entry hstate (by simp [hentry]))
  | created hstate hentry hlen =>
      exact absurd hreads (not_readsSubnet_of_entry (Or.inl hstate) (by simp [hentry]))
  | updated hstate hentry hlen =>
      exact absurd hreads (not_readsSubnet_of_entry (Or.inr hstate) (by simp [hentry]))
  | deleted destination mask hstate hparse' hany =>
      exact (Prod.mk.inj (Option.some.inj (hparse'.symm.trans hparse))).1

theorem terminated_parseSubnet {text : List UInt8} (hstring : 0 ∉ text) {ip : CharArray ipAddrLen}
    {k : UInt16} (hparse : parseSubnet text = some (ip, k)) :
    ip.Terminated ↔ (addressText text).length < ipAddrLen := by
  have haddress : 0 ∉ addressText text := fun h => hstring ((List.takeWhile_prefix _).subset h)
  rw [(parseSubnet_eq_some hparse).2.1, terminated_strncpy_of_notMem haddress]

theorem destinationEnds_iff {c : Console} {i : AdminInput} {answer : Answer}
    (hanswer : i.answer c.admin = some answer) :
    DestinationEnds c i ↔ (c.admin.ReadsSubnet →
      (parseSubnet (lineText i.buffer)).isSome = true →
        (addressText (lineText i.buffer)).length < ipAddrLen) := by
  have hline := AdminInput.answer_effect hanswer
  have hstring := zero_notMem_lineText i.buffer
  constructor
  · intro h hreads hsome
    obtain ⟨⟨ip, k⟩, hparse⟩ := Option.isSome_iff_exists.mp hsome
    have hend := h answer hanswer hreads hsome
    rw [hline.destination_eq hreads hparse] at hend
    exact (terminated_parseSubnet hstring hparse).mp hend
  · intro h other hother hreads hsome
    obtain rfl := Option.some.inj (hanswer.symm.trans hother)
    obtain ⟨⟨ip, k⟩, hparse⟩ := Option.isSome_iff_exists.mp hsome
    rw [hline.destination_eq hreads hparse]
    exact (terminated_parseSubnet hstring hparse).mpr (h hreads hsome)

theorem FieldsEnd.of_table {c c' : Console} (h : FieldsEnd c)
    (htable : c'.admin.rtm = c.admin.rtm)
    (hgateway : c'.admin.record.gatewayIp = c.admin.record.gatewayIp)
    (hoif : c'.admin.record.oif = c.admin.record.oif) (hbroadcasts : c'.broadcasts = c.broadcasts)
    (hkey : ¬ c'.admin.HasKey) : FieldsEnd c' where
  destination := fun hk => absurd hk hkey
  gateway := by
    rintro (⟨hk, -⟩ | hne)
    · exact absurd hk hkey
    · rw [hgateway]
      exact h.gateway (Or.inr (htable ▸ hne))
  oif := fun hne => by
    rw [hoif]
    exact h.oif (htable ▸ hne)
  records := htable ▸ h.records
  broadcasts := hbroadcasts ▸ h.broadcasts

theorem FieldsEnd.finish {c c' : Console} (opCode : OpCode) (h : FieldsEnd c)
    (hidle : c'.admin.state = .idle) (hbody : c'.admin.record.Terminated)
    (hrecords : ∀ r ∈ c'.admin.rtm, r.Terminated)
    (hbroadcasts : c'.broadcasts = c.broadcasts ++ [⟨opCode, c'.admin.record⟩]) :
    FieldsEnd c' where
  destination := fun hk => absurd hk (not_hasKey_of_idle hidle)
  gateway := fun _ => hbody.gatewayIp
  oif := fun _ => hbody.oif
  records := hrecords
  broadcasts := by
    rw [hbroadcasts]
    intro m hm
    rcases List.mem_append.mp hm with hm | hm
    · exact h.broadcasts m hm
    · rw [List.mem_singleton.mp hm]
      exact hbody

theorem FieldsEnd.terminated_withOif {c : Console} (h : FieldsEnd c) (hkey : c.admin.HasKey)
    (hentry : c.admin.entry = .oif) {text : List UInt8} (hstring : 0 ∉ text)
    (hlen : text.length < oifLen) : (c.admin.record.withOif text).Terminated where
  destination := h.destination hkey
  gatewayIp := h.gateway (Or.inl ⟨hkey, hentry⟩)
  oif := (terminated_strncpy_of_notMem hstring).mpr hlen

theorem FieldsEnd.terminated_key {c : Console} (h : FieldsEnd c) (hadmin : AdminOk c.admin)
    {record : MsgBody} (hvalid : record.ValidKey)
    (hany : c.admin.rtm.any (recordMatches · record) = true) : record.destination.Terminated := by
  obtain ⟨r, hr, hmatch⟩ := List.any_eq_true.mp hany
  rw [← ((recordMatches_iff (hadmin.validKey r hr) hvalid).mp hmatch).1]
  exact (h.records r hr).destination

theorem TextsFit.of_ignores {c : Console} {i : AdminInput}
    (hsubnet : c.admin.ReadsSubnet → (parseSubnet (lineText i.buffer)).isSome = true →
      (addressText (lineText i.buffer)).length < ipAddrLen)
    (hignores : c.admin.Ignores (lineText i.buffer)) : TextsFit c i where
  subnet := hsubnet
  gateway := fun h => absurd h hignores.gateway
  oif := fun hstate hentry hlen => hignores.completes (Or.inl ⟨hstate, hentry, hlen.le⟩)

theorem TextsFit.of_oif {c : Console} {i : AdminInput}
    (hstate : c.admin.state = .creating ∨ c.admin.state = .updating) (hentry : c.admin.entry = .oif)
    (hlen : (lineText i.buffer).length < oifLen) : TextsFit c i where
  subnet := fun hreads => absurd hreads (not_readsSubnet_of_entry hstate (by simp [hentry]))
  gateway := fun h => absurd (hentry.symm.trans h.2.1) (by simp)
  oif := fun _ _ => hlen.ne

theorem FieldsEnd.oif_lt {c : Console} {opCode : OpCode} {record : MsgBody} {text : List UInt8}
    (hstring : 0 ∉ text) (h : FieldsEnd c) (hmem : ⟨opCode, record.withOif text⟩ ∈ c.broadcasts) :
    text.length < oifLen :=
  (terminated_strncpy_of_notMem hstring).mp (h.broadcasts _ hmem).oif

/-- The line that finishes a record to create or to update is its interface. -/
theorem FieldsEnd.record_iff {c c' : Console} {i : AdminInput} (opCode : OpCode) (h : FieldsEnd c)
    (hstate : c.admin.state = .creating ∨ c.admin.state = .updating) (hentry : c.admin.entry = .oif)
    (hlen : (lineText i.buffer).length ≤ oifLen) (hidle : c'.admin.state = .idle)
    (hrecord : c'.admin.record = c.admin.record.withOif (lineText i.buffer))
    (hrecords : c'.admin.record.Terminated → ∀ r ∈ c'.admin.rtm, r.Terminated)
    (hbroadcasts : c'.broadcasts = c.broadcasts ++ [⟨opCode, c'.admin.record⟩]) :
    FieldsEnd c' ↔ TextsFit c i := by
  have hstring := zero_notMem_lineText i.buffer
  constructor
  · intro hend
    have hmem : ⟨opCode, c.admin.record.withOif (lineText i.buffer)⟩ ∈ c'.broadcasts := by
      rw [hbroadcasts, hrecord]
      exact List.mem_append_right _ (List.mem_singleton_self _)
    exact TextsFit.of_oif hstate hentry (hend.oif_lt hstring hmem)
  · intro hfits
    have hlt : (lineText i.buffer).length < oifLen := lt_of_le_of_ne hlen (hfits.oif hstate hentry)
    have hbody : c'.admin.record.Terminated := by
      rw [hrecord]
      exact h.terminated_withOif ⟨hstate, Or.inr hentry⟩ hentry hstring hlt
    exact h.finish opCode hidle hbody (hrecords hbody) hbroadcasts

/-- The line that is copied into the record is its gateway. -/
theorem FieldsEnd.gateway_iff {c c' : Console} {i : AdminInput} (h : FieldsEnd c)
    (hstate : c.admin.state = .creating ∨ c.admin.state = .updating)
    (hentry : c.admin.entry = .gateway) (hvalid : validAddress (lineText i.buffer) = true)
    (hsubnet : c.admin.ReadsSubnet → (parseSubnet (lineText i.buffer)).isSome = true →
      (addressText (lineText i.buffer)).length < ipAddrLen)
    (hadmin : c'.admin =
      { c.admin with record := c.admin.record.withGateway (lineText i.buffer), entry := .oif })
    (hbroadcasts : c'.broadcasts = c.broadcasts) : FieldsEnd c' ↔ TextsFit c i := by
  have hkey : c.admin.HasKey := ⟨hstate, Or.inl hentry⟩
  have hcopy : (c.admin.record.withGateway (lineText i.buffer)).gatewayIp.Terminated ↔
      (lineText i.buffer).length < ipAddrLen :=
    terminated_strncpy_of_notMem (zero_notMem_lineText i.buffer)
  constructor
  · intro hend
    have hgateway := hend.gateway
    rw [hadmin] at hgateway
    exact
      { subnet := hsubnet
        gateway := fun _ => hcopy.mp (hgateway (Or.inl ⟨⟨hstate, Or.inr rfl⟩, rfl⟩))
        oif := fun _ hoif => by simp [hentry] at hoif }
  · intro hfits
    have hlen := hfits.gateway ⟨hstate, hentry, hvalid⟩
    exact
      { destination := fun _ => hadmin ▸ h.destination hkey
        gateway := fun _ => hadmin ▸ hcopy.mpr hlen
        oif := hadmin ▸ h.oif
        records := hadmin ▸ h.records
        broadcasts := hbroadcasts ▸ h.broadcasts }

theorem FieldsEnd.after_iff {c : Console} {i : AdminInput} {answer : Answer}
    (hadmin : AdminOk c.admin) (h : FieldsEnd c) (hanswer : i.answer c.admin = some answer)
    (hsubnet : c.admin.ReadsSubnet → (parseSubnet (lineText i.buffer)).isSome = true →
      (addressText (lineText i.buffer)).length < ipAddrLen) :
    FieldsEnd (c.after i answer) ↔ TextsFit c i := by
  have hline := AdminInput.answer_effect hanswer
  have hstring := zero_notMem_lineText i.buffer
  cases hline with
  | same reply hreply hreads hignores =>
      refine iff_of_true ⟨h.destination, h.gateway, h.oif, h.records, ?_⟩
        (TextsFit.of_ignores hsubnet hignores)
      simpa [Console.after] using h.broadcasts
  | reset reply hstate hne hreply =>
      refine iff_of_true (h.of_table rfl rfl rfl ?_ (not_hasKey_of_idle hstate))
        (TextsFit.of_ignores hsubnet (ignores_of_idle hstate _))
      simp [Console.after]
  | chosen state hstate hne htable =>
      refine iff_of_true (h.of_table rfl rfl rfl ?_ (not_hasKey_of_subnet rfl))
        (TextsFit.of_ignores hsubnet (ignores_of_idle hstate _))
      simp [Console.after]
  | refused destination mask message hreads hmessage hstored hignores =>
      refine iff_of_true (h.of_table rfl rfl rfl ?_ (hadmin.not_hasKey_of_reads hreads))
        (TextsFit.of_ignores hsubnet hignores)
      simp [Console.after]
  | key destination mask hstate hentry hparse hany =>
      have hlen := hsubnet (Or.inl ⟨hstate, hentry⟩) (by simp [hparse])
      have hend := (terminated_parseSubnet hstring hparse).mpr hlen
      refine iff_of_true ⟨fun _ => hend, ?_, h.oif, h.records, ?_⟩
        (TextsFit.of_ignores hsubnet (ignores_of_entry hstate (by simp [hentry])
          (by simp [hentry]) _))
      · rintro (⟨-, hoif⟩ | hne)
        · simp [Console.after] at hoif
        · exact h.gateway (Or.inr hne)
      · simpa [Console.after] using h.broadcasts
  | gateway hstate hentry hvalid =>
      exact h.gateway_iff hstate hentry hvalid hsubnet rfl (by simp [Console.after])
  | created hstate hentry hlen =>
      apply h.record_iff .create (Or.inl hstate) hentry hlen rfl rfl _ rfl
      intro hbody r hr
      rcases List.mem_append.mp hr with hr | hr
      · exact h.records r hr
      · rw [List.mem_singleton.mp hr]
        exact hbody.copy
  | updated hstate hentry hlen =>
      apply h.record_iff .update (Or.inr hstate) hentry hlen rfl rfl _ rfl
      intro hbody r hr
      rcases mem_routingTableUpdate hr with hr | ⟨current, hc, rfl⟩
      · exact h.records r hr
      · exact (h.records current hc).withRoute hbody
  | deleted destination mask hstate hparse hany =>
      have hvalid := MsgBody.ValidKey.withKey (r := c.admin.record) hparse
      have hne : c.admin.rtm ≠ [] := hadmin.nonempty (Or.inr hstate)
      have hbody : (c.admin.record.withKey destination mask).Terminated :=
        ⟨h.terminated_key hadmin hvalid hany, h.gateway (Or.inr hne), h.oif hne⟩
      refine iff_of_true (h.finish .delete rfl hbody (fun r hr => ?_) rfl)
        ⟨hsubnet, fun hg => ?_, fun hs => ?_⟩
      · simp only [Console.after, routingTableDelete_of_any _ _ hany] at hr
        exact h.records r (List.mem_of_mem_eraseP hr)
      · rcases hg.1 with hs | hs <;> simp [hstate] at hs
      · rcases hs with hs | hs <;> simp [hstate] at hs

theorem fieldsEnd_init (entry : EntryType) (record : MsgBody) :
    FieldsEnd (Console.init entry record) where
  destination := by simp [Console.init, Admin.HasKey]
  gateway := by simp [Console.init, Admin.HasKey]
  oif := by simp [Console.init]
  records := by simp [Console.init]
  broadcasts := by simp [Console.init]

/-- Every text field accepted ends inside its array, in every state reached, exactly when every
text accepted is shorter than its array. -/
theorem text_fields_end (entry : EntryType) (record : MsgBody) (is : List AdminInput) :
    Throughout consoleStep FieldsEnd (Console.init entry record) is ∧
        Along consoleStep DestinationEnds (Console.init entry record) is ↔
      Along consoleStep TextsFit (Console.init entry record) is := by
  refine throughout_along_iff_along (fun c => AdminOk c.admin)
    (fun c i c' h hstep => consoleStep_adminOk h hstep) ?_ (AdminOk.initial entry record)
    (fieldsEnd_init entry record) is
  intro c i c' hadmin hend hstep
  obtain ⟨answer, hanswer, -, rfl⟩ := consoleStep_eq_some hstep
  rw [destinationEnds_iff hanswer]
  constructor
  · rintro ⟨hafter, hsubnet⟩
    exact (hend.after_iff hadmin hanswer hsubnet).mp hafter
  · intro hfits
    exact ⟨(hend.after_iff hadmin hanswer hfits.subnet).mpr hfits, hfits.subnet⟩

/-- An address of 16 characters fills its array in the table. -/
theorem text_fields_end_full_address :
    ¬ Throughout consoleStep FieldsEnd (Console.init .subnet Ambient.zero.heap)
      (["c", "001.002.003.0004/5", "1.2.3.4", "eth0"].map typed) := by
  intro h
  rw [throughout_iff_forall_run] at h
  have hfull : ((run consoleStep (Console.init .subnet Ambient.zero.heap)
      (["c", "001.002.003.0004/5", "1.2.3.4", "eth0"].map typed)).map fun c =>
        c.admin.rtm.map fun r => decide r.destination.Terminated) = some [false] := by
    decide +kernel
  obtain ⟨c, hrun, hrecords⟩ := Option.map_eq_some_iff.mp hfull
  obtain ⟨r, hr, hend⟩ := List.mem_map.mp (hrecords ▸ List.mem_singleton_self false)
  exact of_decide_eq_false hend ((h _ List.prefix_rfl c hrun).records r hr).destination

end LinuxIPC
