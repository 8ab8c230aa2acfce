import LinuxIPC.Admin
import LinuxIPC.Runs

/-!
# What holds between two admin lines

The check that a key is absent or present is made two lines before the table is changed. `AdminOk`
ties the input state, the entry type, the record in progress and the table together, so that the
check still holds when the operation is carried out. Between valid records, the comparisons of the
source are comparisons of keys.
-/

namespace LinuxIPC

open CString

namespace MsgBody

def key (r : MsgBody) : CharArray ipAddrLen × UInt16 := (r.destination, r.mask)

@[simp] theorem key_copy {r : MsgBody} (h : r.ValidKey) : r.copy.key = r.key := by
  rw [key, key, copy]
  exact congrArg (·, r.mask) h.padded

@[simp] theorem key_withRoute (current record : MsgBody) :
    (current.withRoute record).key = current.key := rfl

@[simp] theorem key_withKey (r : MsgBody) (ip : CharArray ipAddrLen) (k : UInt16) :
    (r.withKey ip k).key = (ip, k) := rfl

@[simp] theorem key_withGateway (r : MsgBody) (text : List UInt8) :
    (r.withGateway text).key = r.key := rfl

@[simp] theorem key_withOif (r : MsgBody) (text : List UInt8) : (r.withOif text).key = r.key := rfl

theorem withKey_congr {r r' : MsgBody} (hg : r.gatewayIp = r'.gatewayIp)
    (ho : r.oif = r'.oif) (ip : CharArray ipAddrLen) (k : UInt16) :
    r.withKey ip k = r'.withKey ip k := by
  unfold withKey
  rw [hg, ho]

theorem eq_of_key {r r' : MsgBody} (hkey : r.key = r'.key)
    (hg : r.gatewayIp = r'.gatewayIp) (ho : r.oif = r'.oif) : r = r' := by
  obtain ⟨hd, hm⟩ := Prod.mk.inj hkey
  cases r
  cases r'
  simp_all only

theorem ValidKey.of_key {r r' : MsgBody} (h : r.ValidKey) (heq : r'.key = r.key) :
    r'.ValidKey := by
  obtain ⟨hd, hm⟩ := Prod.mk.inj heq
  exact ⟨hd ▸ h.padded, hm ▸ h.mask_le⟩

theorem ValidKey.recordMatches_eq {r r' : MsgBody} (h : r.ValidKey) (h' : r'.ValidKey) :
    recordMatches r r' = decide (r.key = r'.key) := by
  rw [Bool.eq_iff_iff, recordMatches_iff h h', decide_eq_true_eq, key, key, Prod.mk.injEq]

theorem ValidKey.withKey {r : MsgBody} {text : List UInt8} {ip : CharArray ipAddrLen}
    {k : UInt16} (h : parseSubnet text = some (ip, k)) : (r.withKey ip k).ValidKey := by
  obtain ⟨-, hip, hmask⟩ := parseSubnet_eq_some h
  exact ⟨hip ▸ padded_strncpy _ _, (parseMask_eq_some hmask).1⟩

end MsgBody

def RoutingTable.keys (rt : RoutingTable) : List (CharArray ipAddrLen × UInt16) :=
  rt.map MsgBody.key

theorem any_recordMatches {rt : RoutingTable} (hrt : ∀ r ∈ rt, r.ValidKey) {record : MsgBody}
    (h : record.ValidKey) : rt.any (recordMatches · record) = decide (record.key ∈ rt.keys) := by
  rw [Bool.eq_iff_iff, List.any_eq_true, decide_eq_true_eq, RoutingTable.keys, List.mem_map]
  apply exists_congr
  intro r
  apply and_congr_right
  intro hr
  rw [(hrt r hr).recordMatches_eq h, decide_eq_true_eq]

theorem keys_routingTableUpdate (rt : RoutingTable) (record : MsgBody) :
    RoutingTable.keys (routingTableUpdate rt record).1 = rt.keys := by
  rw [routingTableUpdate_eq]
  apply List.lookmap_map_eq
  intro current updated hu
  simp only [Option.mem_def] at hu
  split_ifs at hu
  rw [← Option.some.inj hu, MsgBody.key_withRoute]

/-- The record in progress has a key: its subnet was accepted, its other entries are awaited. -/
def Admin.HasKey (a : Admin) : Prop :=
  (a.state = .creating ∨ a.state = .updating) ∧ (a.entry = .gateway ∨ a.entry = .oif)

structure AdminOk (a : Admin) : Prop where
  padded : ∀ r ∈ a.rtm, r.Padded
  validKey : ∀ r ∈ a.rtm, r.ValidKey
  nodup : a.rtm.keys.Nodup
  pending : a.HasKey → a.record.ValidKey ∧ (a.record.key ∈ a.rtm.keys ↔ a.state = .updating)
  gateway : a.HasKey → a.entry = .oif → a.record.gatewayIp.Padded
  nonempty : a.state = .updating ∨ a.state = .deleting → a.rtm ≠ []
  deleting : a.state = .deleting → a.entry = .subnet

theorem AdminOk.initial (entry : EntryType) (record : MsgBody) :
    AdminOk ⟨[], .idle, entry, record⟩ where
  padded := by simp
  validKey := by simp
  nodup := by simp [RoutingTable.keys]
  pending := by simp [Admin.HasKey]
  gateway := by simp [Admin.HasKey]
  nonempty := by simp
  deleting := by simp

theorem AdminOk.padded_withOif {a : Admin} (h : AdminOk a) (hkey : a.HasKey)
    (hentry : a.entry = .oif) (text : List UInt8) : (a.record.withOif text).Padded :=
  ⟨(h.pending hkey).1.padded, h.gateway hkey hentry, padded_strncpy _ _⟩

theorem AdminOk.validKey_withOif {a : Admin} (h : AdminOk a) (hkey : a.HasKey)
    (text : List UInt8) : (a.record.withOif text).ValidKey :=
  (h.pending hkey).1.of_key (MsgBody.key_withOif a.record text)

theorem AdminOk.of_table {a b : Admin} (h : AdminOk a) (htable : b.rtm = a.rtm)
    (hkey : ¬ b.HasKey) (hnonempty : b.state = .updating ∨ b.state = .deleting → b.rtm ≠ [])
    (hdeleting : b.state = .deleting → b.entry = .subnet) : AdminOk b where
  padded := htable ▸ h.padded
  validKey := htable ▸ h.validKey
  nodup := htable ▸ h.nodup
  pending := fun hk => absurd hk hkey
  gateway := fun hk => absurd hk hkey
  nonempty := hnonempty
  deleting := hdeleting

theorem not_hasKey_of_idle {a : Admin} (h : a.state = .idle) : ¬ a.HasKey := by
  rintro ⟨hs | hs, -⟩ <;> simp [h] at hs

theorem not_hasKey_of_subnet {a : Admin} (h : a.entry = .subnet) : ¬ a.HasKey := by
  rintro ⟨-, hs | hs⟩ <;> simp [h] at hs

theorem AdminOk.not_hasKey_of_reads {a : Admin} (h : AdminOk a) (hreads : a.ReadsSubnet) :
    ¬ a.HasKey := by
  rcases hreads with ⟨-, hentry⟩ | hdel
  · exact not_hasKey_of_subnet hentry
  · exact not_hasKey_of_subnet (h.deleting hdel)

/-- Where no session is open, the invariant is about the table alone. -/
theorem AdminOk.of_idle {a : Admin} (hidle : a.state = .idle) (hpadded : ∀ r ∈ a.rtm, r.Padded)
    (hvalid : ∀ r ∈ a.rtm, r.ValidKey) (hnodup : a.rtm.keys.Nodup) : AdminOk a where
  padded := hpadded
  validKey := hvalid
  nodup := hnodup
  pending := fun hk => absurd hk (not_hasKey_of_idle hidle)
  gateway := fun hk => absurd hk (not_hasKey_of_idle hidle)
  nonempty := by simp [hidle]
  deleting := by simp [hidle]

theorem AdminOk.step {a : Admin} {text : List UInt8} {answer : Answer} (h : AdminOk a)
    (hline : LineEffect a text answer) : AdminOk answer.admin := by
  cases hline with
  | same reply hreply hreads hignores => exact h
  | reset reply hstate hne hreply =>
      exact h.of_table rfl (not_hasKey_of_idle hstate) h.nonempty fun _ => rfl
  | chosen state hstate hne htable =>
      refine h.of_table rfl (not_hasKey_of_subnet rfl) (fun hs => htable ?_) fun _ => rfl
      rcases hs with hs | hs <;> simp_all
  | refused destination mask message hreads hmessage hstored hignores =>
      exact h.of_table rfl (h.not_hasKey_of_reads hreads) h.nonempty h.deleting
  | key destination mask hstate hentry hparse hany =>
      have hvalid : (a.record.withKey destination mask).ValidKey :=
        MsgBody.ValidKey.withKey hparse
      rw [any_recordMatches h.validKey hvalid, decide_eq_decide] at hany
      exact
        { padded := h.padded
          validKey := h.validKey
          nodup := h.nodup
          pending := fun _ => ⟨hvalid, hany⟩
          gateway := fun _ hoif => by simp at hoif
          nonempty := h.nonempty
          deleting := fun hdel => by rcases hstate with hs | hs <;> simp [hs] at hdel }
  | gateway hstate hentry hvalid =>
      have hkey : a.HasKey := ⟨hstate, Or.inl hentry⟩
      exact
        { padded := h.padded
          validKey := h.validKey
          nodup := h.nodup
          pending := fun _ => ⟨(h.pending hkey).1.of_key rfl, (h.pending hkey).2⟩
          gateway := fun _ _ => padded_strncpy _ _
          nonempty := h.nonempty
          deleting := fun hdel => by rcases hstate with hs | hs <;> simp [hs] at hdel }
  | created hstate hentry hlen =>
      have hkey : a.HasKey := ⟨Or.inl hstate, Or.inr hentry⟩
      have hvalid := h.validKey_withOif hkey text
      have hpadded := h.padded_withOif hkey hentry text
      have hfresh : a.record.key ∉ a.rtm.keys := by simp [(h.pending hkey).2, hstate]
      have hnodup : (a.rtm ++ [a.record.withOif text]).keys.Nodup := by
        have hconcat := h.nodup.concat hfresh
        rw [List.concat_eq_append] at hconcat
        simpa only [RoutingTable.keys, List.map_append, List.map_cons, List.map_nil,
          MsgBody.key_withOif] using hconcat
      rw [hpadded.copy_eq]
      apply AdminOk.of_idle rfl _ _ hnodup
      · simpa [or_imp, forall_and] using ⟨h.padded, hpadded⟩
      · simpa [or_imp, forall_and] using ⟨h.validKey, hvalid⟩
  | updated hstate hentry hlen =>
      have hmem : ∀ r ∈ (routingTableUpdate a.rtm (a.record.withOif text)).1,
          r.Padded ∧ r.ValidKey := by
        intro r hr
        rcases mem_routingTableUpdate hr with hr | ⟨current, hc, rfl⟩
        · exact ⟨h.padded r hr, h.validKey r hr⟩
        · exact ⟨(h.padded current hc).withRoute _, (h.validKey current hc).of_key rfl⟩
      apply AdminOk.of_idle rfl (fun r hr => (hmem r hr).1) (fun r hr => (hmem r hr).2)
      simpa only [keys_routingTableUpdate] using h.nodup
  | deleted destination mask hstate hparse hany =>
      rw [routingTableDelete_of_any _ _ hany]
      have hsub : (a.rtm.eraseP (recordMatches · (a.record.withKey destination mask))).Sublist
          a.rtm := List.eraseP_sublist
      exact AdminOk.of_idle rfl (fun r hr => h.padded r (hsub.subset hr))
        (fun r hr => h.validKey r (hsub.subset hr)) ((hsub.map MsgBody.key).nodup h.nodup)

end LinuxIPC
