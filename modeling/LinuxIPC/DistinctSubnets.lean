import LinuxIPC.Console

/-!
# Subnets in the table

A record is refused when the table has one with the same text for a destination and the same mask.
The same address has other texts, with leading zeros, a plus sign or blanks before a group, and
under another text it enters the table again.
-/

namespace LinuxIPC

open CString Runs

def addressGroups (address : CharArray ipAddrLen) : List ℤ :=
  (strsepTokens dot address.text).map fun group => (strtol 0 group).value

def MsgBody.SameSubnet (r r' : MsgBody) : Prop :=
  addressGroups r.destination = addressGroups r'.destination ∧ r.mask = r'.mask

def SubnetsDistinct (c : Console) : Prop :=
  c.admin.rtm.Pairwise fun r r' => ¬ r.SameSubnet r'

/-- If the line completes the creation of a record, then the table does not have its subnet under
another text. -/
def SpelledAlike (c : Console) (i : AdminInput) : Prop :=
  c.admin.state = .creating → c.admin.entry = .oif → (lineText i.buffer).length ≤ oifLen →
    ∀ r ∈ c.admin.rtm, r.SameSubnet c.admin.record →
      r.destination.text = c.admin.record.destination.text

theorem subnetsDistinct_iff_keys (c : Console) :
    SubnetsDistinct c ↔ c.admin.rtm.keys.Pairwise fun k k' =>
      ¬ (addressGroups k.1 = addressGroups k'.1 ∧ k.2 = k'.2) := by
  rw [RoutingTable.keys, List.pairwise_map]
  rfl

theorem SubnetsDistinct.of_keys {c c' : Console} (h : SubnetsDistinct c)
    (hkeys : c'.admin.rtm.keys.Sublist c.admin.rtm.keys) : SubnetsDistinct c' := by
  rw [subnetsDistinct_iff_keys] at h ⊢
  exact h.sublist hkeys

theorem SpelledAlike.of_not_completes {c : Console} {i : AdminInput}
    (h : ¬ c.admin.Completes (lineText i.buffer)) : SpelledAlike c i :=
  fun hstate hentry hlen => absurd (Or.inl ⟨Or.inl hstate, hentry, hlen⟩) h

theorem pairwise_append_iff {a : Admin} (h : AdminOk a) (hkey : a.HasKey)
    (hstate : a.state = .creating) {body : MsgBody} (hbody : body.key = a.record.key)
    (hdistinct : a.rtm.Pairwise fun r r' => ¬ r.SameSubnet r') :
    ((a.rtm ++ [body]).Pairwise fun r r' => ¬ r.SameSubnet r') ↔
      ∀ r ∈ a.rtm, r.SameSubnet a.record → r.destination.text = a.record.destination.text := by
  have hsame : ∀ r : MsgBody, r.SameSubnet body ↔ r.SameSubnet a.record := by
    intro r
    unfold MsgBody.SameSubnet
    rw [(Prod.mk.inj hbody).1, (Prod.mk.inj hbody).2]
  have hfresh : a.record.key ∉ a.rtm.keys := by simp [(h.pending hkey).2, hstate]
  rw [List.pairwise_append]
  constructor
  · rintro ⟨-, -, hne⟩ r hr hr'
    exact absurd ((hsame r).mpr hr') (hne r hr body (List.mem_singleton_self body))
  · intro htext
    refine ⟨hdistinct, List.pairwise_singleton _ _, fun r hr body' hbody' hr' => ?_⟩
    rw [List.mem_singleton.mp hbody', hsame] at hr'
    have hdestination := (h.padded r hr).destination.eq_of_text (h.pending hkey).1.padded
      (htext r hr hr')
    exact hfresh (List.mem_map.mpr ⟨r, hr, Prod.ext hdestination hr'.2⟩)

theorem subnetsDistinct_after_iff {c : Console} {i : AdminInput} {answer : Answer}
    (hadmin : AdminOk c.admin) (h : SubnetsDistinct c) (hanswer : i.answer c.admin = some answer) :
    SubnetsDistinct (c.after i answer) ↔ SpelledAlike c i := by
  have hline := AdminInput.answer_effect hanswer
  cases hline with
  | same reply hreply hreads hignores =>
      exact iff_of_true h (SpelledAlike.of_not_completes hignores.completes)
  | reset reply hstate hne hreply =>
      exact iff_of_true h (SpelledAlike.of_not_completes (ignores_of_idle hstate _).completes)
  | chosen state hstate hne htable =>
      exact iff_of_true h (SpelledAlike.of_not_completes (ignores_of_idle hstate _).completes)
  | refused destination mask message hreads hmessage hstored hignores =>
      exact iff_of_true h (SpelledAlike.of_not_completes hignores.completes)
  | key destination mask hstate hentry hparse hany =>
      have hnot := not_completes_of_entry hstate (by simp [hentry]) (lineText i.buffer)
      exact iff_of_true h (SpelledAlike.of_not_completes hnot)
  | gateway hstate hentry hvalid =>
      have hnot := not_completes_of_entry hstate (by simp [hentry]) (lineText i.buffer)
      exact iff_of_true h (SpelledAlike.of_not_completes hnot)
  | created hstate hentry hlen =>
      have hkey : c.admin.HasKey := ⟨Or.inl hstate, Or.inr hentry⟩
      have hbody : (c.admin.record.withOif (lineText i.buffer)).copy.key = c.admin.record.key := by
        rw [MsgBody.key_copy (hadmin.validKey_withOif hkey _), MsgBody.key_withOif]
      have happend := pairwise_append_iff hadmin hkey hstate hbody h
      exact happend.trans ⟨fun hall _ _ _ => hall, fun hall => hall hstate hentry hlen⟩
  | updated hstate hentry hlen =>
      refine iff_of_true (h.of_keys ?_) fun hcreating => by simp [hstate] at hcreating
      simp only [Console.after, keys_routingTableUpdate]
      exact List.Sublist.refl _
  | deleted destination mask hstate hparse hany =>
      refine iff_of_true (h.of_keys ?_) fun hcreating => by simp [hstate] at hcreating
      simp only [Console.after, routingTableDelete_of_any _ _ hany]
      exact List.eraseP_sublist.map MsgBody.key

/-- No subnet is twice in the table, in any state reached, exactly when no record is created whose
subnet the table has under another text. -/
theorem subnets_distinct (entry : EntryType) (record : MsgBody) (is : List AdminInput) :
    Throughout consoleStep SubnetsDistinct (Console.init entry record) is ↔
      Along consoleStep SpelledAlike (Console.init entry record) is := by
  refine throughout_iff_along (fun c => AdminOk c.admin)
    (fun c i c' h hstep => consoleStep_adminOk h hstep) ?_ (AdminOk.initial entry record)
    List.Pairwise.nil is
  intro c i c' hadmin hdistinct hstep
  obtain ⟨answer, hanswer, -, rfl⟩ := consoleStep_eq_some hstep
  exact subnetsDistinct_after_iff hadmin hdistinct hanswer

/-- The table takes `01.2.3.4/8` in beside `1.2.3.4/8`. -/
theorem subnets_distinct_leading_zero :
    ¬ Throughout consoleStep SubnetsDistinct (Console.init .subnet Ambient.zero.heap)
      (["c", "1.2.3.4/8", "10.0.0.1", "eth0", "c", "01.2.3.4/8", "10.0.0.1", "eth0"].map typed) := by
  intro h
  rw [throughout_iff_forall_run] at h
  have htwice : ((run consoleStep (Console.init .subnet Ambient.zero.heap)
      (["c", "1.2.3.4/8", "10.0.0.1", "eth0", "c", "01.2.3.4/8", "10.0.0.1", "eth0"].map typed)).map
        fun c => c.admin.rtm.map fun r => (addressGroups r.destination, r.mask)) =
      some [([1, 2, 3, 4], 8), ([1, 2, 3, 4], 8)] := by
    decide +kernel
  obtain ⟨c, hrun, hrecords⟩ := Option.map_eq_some_iff.mp htwice
  have hpair : (c.admin.rtm.map fun r => (addressGroups r.destination, r.mask)).Pairwise (· ≠ ·) := by
    have hdistinct : SubnetsDistinct c := h _ List.prefix_rfl c hrun
    rw [List.pairwise_map]
    exact hdistinct.imp fun hne heq => hne (Prod.mk.inj heq)
  rw [hrecords] at hpair
  simp at hpair

end LinuxIPC
