import LinuxIPC.InertLines
import LinuxIPC.SubnetPrinting

/-!
# The tables that can be entered

Every record in the table was entered: its addresses passed the validator, and its interface was a
line. Together with the different keys this is all that is known of the table, since any table of
this kind can be typed in, record by record.
-/

namespace LinuxIPC

open CString Runs

structure AddressField (a : CharArray ipAddrLen) : Prop where
  valid : validAddress a.text = true
  newline_notMem : newline ∉ a.text

/-- The texts of a record, where `Oif` holds of the lines entered as interfaces. -/
structure MsgBody.Entered (Oif : List UInt8 → Prop) (r : MsgBody) : Prop where
  destination : AddressField r.destination
  gatewayIp : AddressField r.gatewayIp
  oif : Oif r.oif.text

structure EntriesOk (Oif : List UInt8 → Prop) (a : Admin) : Prop where
  destination : a.HasKey → AddressField a.record.destination
  gateway : a.HasKey → a.entry = .oif → AddressField a.record.gatewayIp
  records : ∀ r ∈ a.rtm, r.Entered Oif

def FitsLine (text : List UInt8) : Prop := text.length < bufSize ∧ newline ∉ text

def typedStep (amb : Ambient) (c : Console) (l : AdminLine) : Option Console :=
  consoleStep c (AdminInput.ofLine amb l.text)

structure MsgBody.Enterable (r : MsgBody) : Prop where
  padded : r.Padded
  mask_le : r.mask.toNat ≤ 32
  entered : r.Entered FitsLine

variable {Oif : List UInt8 → Prop}

theorem text_strncpy_of_length_le {n : ℕ} {text : List UInt8} (hzero : 0 ∉ text)
    (hlen : text.length ≤ n) : (strncpy n text).text = text := by
  rw [text_strncpy, cstr_eq_self hzero, List.take_of_length_le hlen]

/-- The validator reads no more of a text than is stored of it. -/
theorem addressField_strncpy {text : List UInt8} (hzero : 0 ∉ text) (hline : newline ∉ text)
    (hvalid : validAddress text = true) : AddressField (strncpy ipAddrLen text) := by
  have htext : (strncpy ipAddrLen text).text = text.take ipAddrLen := by
    rw [text_strncpy, cstr_eq_self hzero]
  constructor
  · rwa [htext, validAddress_take]
  · rw [htext]
    exact fun hmem => hline (List.mem_of_mem_take hmem)

theorem addressField_of_parseSubnet {text : List UInt8} (hzero : 0 ∉ text) (hline : newline ∉ text)
    {ip : CharArray ipAddrLen} {mask : UInt16} (h : parseSubnet text = some (ip, mask)) :
    AddressField ip := by
  obtain ⟨hvalid, rfl, -⟩ := parseSubnet_eq_some h
  have hsub : addressText text ⊆ text := (List.takeWhile_prefix _).subset
  exact addressField_strncpy (fun hmem => hzero (hsub hmem)) (fun hmem => hline (hsub hmem)) hvalid

theorem EntriesOk.of_not_hasKey {a : Admin} (hkey : ¬ a.HasKey)
    (hrecords : ∀ r ∈ a.rtm, r.Entered Oif) : EntriesOk Oif a :=
  ⟨fun hk => absurd hk hkey, fun hk => absurd hk hkey, hrecords⟩

theorem EntriesOk.init (entry : EntryType) (record : MsgBody) :
    EntriesOk Oif (Console.init entry record).admin :=
  .of_not_hasKey (not_hasKey_of_idle rfl) fun _ hr => absurd hr List.not_mem_nil

theorem EntriesOk.withOif {a : Admin} (h : EntriesOk Oif a) (hkey : a.HasKey)
    (hentry : a.entry = .oif) {text : List UInt8} (hzero : 0 ∉ text) (hlen : text.length ≤ oifLen)
    (hoif : Oif text) : (a.record.withOif text).Entered Oif where
  destination := h.destination hkey
  gatewayIp := h.gateway hkey hentry
  oif := by
    have htext : (a.record.withOif text).oif.text = text := text_strncpy_of_length_le hzero hlen
    rwa [htext]

theorem EntriesOk.step {a : Admin} {text : List UInt8} {answer : Answer} (h : EntriesOk Oif a)
    (hadmin : AdminOk a) (hzero : 0 ∉ text) (hline : newline ∉ text) (hoif : Oif text)
    (heffect : LineEffect a text answer) : EntriesOk Oif answer.admin := by
  cases heffect with
  | same _ _ _ _ => exact h
  | reset _ hstate _ _ => exact .of_not_hasKey (not_hasKey_of_idle hstate) h.records
  | chosen _ _ _ _ => exact .of_not_hasKey (not_hasKey_of_subnet rfl) h.records
  | refused _ _ _ hreads _ _ _ =>
      exact .of_not_hasKey (hadmin.not_hasKey_of_reads hreads) h.records
  | key destination mask hstate hentry hparse hany =>
      exact ⟨fun _ => addressField_of_parseSubnet hzero hline hparse,
        fun _ hoif => by simp at hoif, h.records⟩
  | gateway hstate hentry hvalid =>
      have hkey : a.HasKey := ⟨hstate, Or.inl hentry⟩
      exact ⟨fun _ => h.destination hkey, fun _ _ => addressField_strncpy hzero hline hvalid,
        h.records⟩
  | created hstate hentry hlen =>
      have hkey : a.HasKey := ⟨Or.inl hstate, Or.inr hentry⟩
      refine .of_not_hasKey (not_hasKey_of_idle rfl) fun r hr => ?_
      rw [(hadmin.padded_withOif hkey hentry text).copy_eq] at hr
      rcases List.mem_append.mp hr with hr | hr
      · exact h.records r hr
      · rw [List.mem_singleton.mp hr]
        exact h.withOif hkey hentry hzero hlen hoif
  | updated hstate hentry hlen =>
      have hkey : a.HasKey := ⟨Or.inr hstate, Or.inr hentry⟩
      have hentered := h.withOif hkey hentry hzero hlen hoif
      refine .of_not_hasKey (not_hasKey_of_idle rfl) fun r hr => ?_
      rcases mem_routingTableUpdate hr with hr | ⟨current, hcurrent, rfl⟩
      · exact h.records r hr
      · have hpadded := hadmin.padded_withOif hkey hentry text
        have hgateway : (current.withRoute (a.record.withOif text)).gatewayIp =
            (a.record.withOif text).gatewayIp := hpadded.gatewayIp
        have hroute : (current.withRoute (a.record.withOif text)).oif =
            (a.record.withOif text).oif := hpadded.oif
        exact ⟨(h.records current hcurrent).destination, hgateway ▸ hentered.gatewayIp,
          hroute ▸ hentered.oif⟩
  | deleted destination mask hstate hparse hany =>
      refine .of_not_hasKey (not_hasKey_of_idle rfl) fun r hr => ?_
      simp only [routingTableDelete_of_any _ _ hany] at hr
      exact h.records r (List.mem_of_mem_eraseP hr)

/-- Only the characters of numbers and dots stand in an address that is accepted. -/
theorem AddressField.notMem {a : CharArray ipAddrLen} (h : AddressField a) {c : UInt8}
    (hspace : ¬ isspace c = true) (hdigit : ¬ isdigit c = true) (hplus : c ≠ 43) (hminus : c ≠ 45)
    (hdot : c ≠ dot) : c ∉ a.text := by
  have hlenient := (validAddress_iff (zero_notMem_cstr a.bytes)).mp h.valid
  have hlen : a.text.length ≤ ipAddrLen := (length_cstr_le a.bytes).trans a.size_eq.le
  have htext : a.text.take ipAddrLen = a.text := List.take_of_length_le hlen
  obtain ⟨x, y, z, w, hsplit, -, hx, hy, hz, hw⟩ := hlenient.exists_four
  have hgroup : ∀ {s}, NumberText ipAddrMax s → c ∉ s := fun ⟨_, hv, _⟩ =>
    hv.notMem hspace hdigit hplus hminus
  rw [← htext]
  change c ∉ (cstr a.bytes).take ipAddrLen
  rw [hsplit]
  simp only [List.mem_append, List.mem_cons, not_or]
  exact ⟨hgroup hx, hdot, hgroup hy, hdot, hgroup hz, hdot, hgroup hw⟩

theorem strncpy_text {n : ℕ} {a : CharArray n} (h : a.Padded) : strncpy n a.text = a :=
  (strncpy_congr (cstr_cstr a.bytes)).trans h

def MsgBody.subnetText (r : MsgBody) : List UInt8 :=
  r.destination.text ++ slash :: decimalText r.mask.toNat

theorem MsgBody.zero_notMem_subnetText (r : MsgBody) : 0 ∉ r.subnetText := by
  simp only [MsgBody.subnetText, List.mem_append, List.mem_cons, not_or]
  exact ⟨zero_notMem_cstr _, by decide, (digits_decimalText _).notMem (by decide)⟩

/-- The subnet of a record, as it is printed, is read as its destination and its mask. -/
theorem MsgBody.Enterable.parseSubnet_eq {r : MsgBody} (h : r.Enterable) :
    parseSubnet r.subnetText = some (r.destination, r.mask) := by
  have hdest := h.entered.destination
  obtain ⟨v, hv, hlo, hhi⟩ : NumberText maskMax (decimalText r.mask.toNat) :=
    numberText_decimalText (by have := h.mask_le; simp only [maskMax]; omega)
  have hvalue : (r.mask.toNat : ℤ) = v := by
    have hnumeral := (digits_decimalText r.mask.toNat).numeral
    rw [decimal_decimalText] at hnumeral
    exact hnumeral.eq hv
  rw [parseSubnet_iff r.zero_notMem_subnetText]
  refine ⟨_, _, rfl, ?_, ?_, (strncpy_text h.padded.destination).symm, v, hv, hlo, hhi, hvalue⟩
  · exact hdest.notMem (by decide) (by decide) (by decide) (by decide) (by decide)
  · exact (validAddress_iff (zero_notMem_cstr _)).mp hdest.valid

theorem typedStep_eq_some (amb : Ambient) {l : AdminLine} {c : Console} {answer : Answer}
    (h : ∀ buffer, cstr buffer = l.text → handleAdminLine amb c.admin buffer = answer)
    (hreply : answer.reply ≠ .shutdown) :
    ∃ c', typedStep amb c l = some c' ∧ c'.admin = answer.admin := by
  obtain ⟨buffer, hbuffer, hanswer⟩ := answer_ofLine amb l c.admin
  rw [h buffer hbuffer] at hanswer
  exact ⟨_, by rw [typedStep, consoleStep, hanswer, Option.bind_some, if_neg hreply], rfl⟩

section Lines

variable {amb : Ambient} {a : Admin} {buffer text : List UInt8}

theorem handleAdminLine_create (hstate : a.state = .idle) (hbuffer : cstr buffer = ascii "c") :
    handleAdminLine amb a buffer =
      ⟨{ a with state := .creating, entry := .subnet }, .menu, none⟩ := by
  have hlen : strlen buffer = 1 := by
    rw [strlen, hbuffer]
    rfl
  have hchar : charAt buffer 0 = 99 := by
    rw [charAt, hbuffer]
    rfl
  have hletter : isLetter 99 'c' 'C' = true := by decide
  simp only [handleAdminLine, hstate, chooseOperation, hlen, hchar, hletter]
  simp

theorem handleAdminLine_subnet (hstate : a.state = .creating) (hentry : a.entry = .subnet)
    (hbuffer : cstr buffer = text) {d : CharArray ipAddrLen} {m : UInt16}
    (hparse : parseSubnet text = some (d, m))
    (hany : a.rtm.any (recordMatches · (a.record.withKey d m)) = false) :
    handleAdminLine amb a buffer =
      ⟨{ a with record := a.record.withKey d m, entry := .gateway }, .prompt, none⟩ := by
  subst hbuffer
  rcases enterSubnet_cases id .alreadyContained amb a buffer with
    ⟨_, _, hnone, -⟩ | ⟨d', m', hsome, heq⟩
  · exact absurd (hnone.symm.trans hparse) (by simp)
  · obtain ⟨rfl, rfl⟩ := Prod.mk.inj (Option.some.inj (hsome.symm.trans hparse))
    simp only [handleAdminLine, hstate, createRecord, enterRecord, hentry, heq, hany, id_eq,
      Bool.false_eq_true, if_false]

theorem handleAdminLine_gateway (hstate : a.state = .creating) (hentry : a.entry = .gateway)
    (hbuffer : cstr buffer = text) (hvalid : validAddress text = true) :
    handleAdminLine amb a buffer =
      ⟨{ a with record := a.record.withGateway text, entry := .oif }, .prompt, none⟩ := by
  subst hbuffer
  have hcopy : strncpy ipAddrLen buffer = strncpy ipAddrLen (cstr buffer) :=
    strncpy_congr (cstr_cstr buffer).symm
  simp only [handleAdminLine, hstate, createRecord, enterRecord, hentry, readIpAddressFromBuffer_eq,
    hvalid, Bool.not_true, Bool.false_eq_true, if_false, hcopy]
  rfl

theorem handleAdminLine_oif (hstate : a.state = .creating) (hentry : a.entry = .oif)
    (hbuffer : cstr buffer = text) (hlen : text.length ≤ oifLen) :
    handleAdminLine amb a buffer =
      ⟨⟨a.rtm ++ [(a.record.withOif text).copy], .idle, .subnet, a.record.withOif text⟩,
        .finished .create true, some ⟨.create, a.record.withOif text⟩⟩ := by
  subst hbuffer
  have hfits : ¬ strlen buffer > oifLen := not_lt.mpr hlen
  simp only [handleAdminLine, hstate, createRecord, enterRecord, hentry, hfits, if_false,
    routingTableInsert_eq, withOif_cstr]
  rfl

end Lines

def AdminLine.create : AdminLine := ⟨ascii "c", by decide, by decide, by decide⟩

def MsgBody.Enterable.subnetEntry {r : MsgBody} (h : r.Enterable) : AdminLine where
  text := r.subnetText
  length_lt := by
    have hdest : r.destination.text.length ≤ 16 :=
      (length_cstr_le r.destination.bytes).trans r.destination.size_eq.le
    have hmask := length_mask h.mask_le
    simp only [MsgBody.subnetText, List.length_append, List.length_cons, bufSize]
    omega
  zero_notMem := r.zero_notMem_subnetText
  newline_notMem := by
    simp only [MsgBody.subnetText, List.mem_append, List.mem_cons, not_or]
    exact ⟨h.entered.destination.newline_notMem, by decide,
      (digits_decimalText _).notMem (by decide)⟩

def MsgBody.Enterable.gatewayEntry {r : MsgBody} (h : r.Enterable) : AdminLine where
  text := r.gatewayIp.text
  length_lt := ((length_cstr_le r.gatewayIp.bytes).trans r.gatewayIp.size_eq.le).trans_lt (by decide)
  zero_notMem := zero_notMem_cstr _
  newline_notMem := h.entered.gatewayIp.newline_notMem

def MsgBody.Enterable.oifEntry {r : MsgBody} (h : r.Enterable) : AdminLine where
  text := r.oif.text
  length_lt := h.entered.oif.1
  zero_notMem := zero_notMem_cstr _
  newline_notMem := h.entered.oif.2

/-- The record that the four lines make up, whatever it was before. -/
theorem MsgBody.Padded.entries_eq {r : MsgBody} (h : r.Padded) (record : MsgBody) :
    ((record.withKey r.destination r.mask).withGateway r.gatewayIp.text).withOif r.oif.text = r := by
  obtain ⟨destination, mask, gatewayIp, oif⟩ := r
  simp only [MsgBody.withKey, MsgBody.withGateway, MsgBody.withOif, MsgBody.mk.injEq, true_and]
  exact ⟨strncpy_text h.gatewayIp, strncpy_text h.oif⟩

/-- Four lines create a record behind those of the table. -/
theorem MsgBody.Enterable.exists_run {r : MsgBody} (h : r.Enterable) (amb : Ambient) {c : Console}
    (hadmin : AdminOk c.admin) (hidle : c.admin.state = .idle) (hfresh : r.key ∉ c.admin.rtm.keys) :
    ∃ (lines : List AdminLine) (c' : Console),
      run (typedStep amb) c lines = some c' ∧
        c'.admin.state = .idle ∧ c'.admin.rtm = c.admin.rtm ++ [r] := by
  obtain ⟨c₁, hstep₁, hc₁⟩ := typedStep_eq_some amb (l := .create) (c := c)
    (fun buffer hbuffer => handleAdminLine_create hidle hbuffer) (by simp)
  have hnone : c₁.admin.rtm.any (recordMatches · (c₁.admin.record.withKey r.destination r.mask)) =
      false := by
    have hvalid : (c₁.admin.record.withKey r.destination r.mask).ValidKey :=
      ⟨h.padded.destination, h.mask_le⟩
    rw [hc₁, any_recordMatches hadmin.validKey (hc₁ ▸ hvalid)]
    exact decide_eq_false hfresh
  obtain ⟨c₂, hstep₂, hc₂⟩ := typedStep_eq_some amb (l := h.subnetEntry) (c := c₁)
    (fun buffer hbuffer => handleAdminLine_subnet (by rw [hc₁]) (by rw [hc₁]) hbuffer
      h.parseSubnet_eq hnone) (by simp)
  obtain ⟨c₃, hstep₃, hc₃⟩ := typedStep_eq_some amb (l := h.gatewayEntry) (c := c₂)
    (fun buffer hbuffer => handleAdminLine_gateway (by rw [hc₂, hc₁]) (by rw [hc₂]) hbuffer
      h.entered.gatewayIp.valid) (by simp)
  obtain ⟨c₄, hstep₄, hc₄⟩ := typedStep_eq_some amb (l := h.oifEntry) (c := c₃)
    (fun buffer hbuffer => handleAdminLine_oif (by rw [hc₃, hc₂, hc₁]) (by rw [hc₃]) hbuffer
      h.entered.oif.1.le) (by simp)
  refine ⟨[.create, h.subnetEntry, h.gatewayEntry, h.oifEntry], c₄, ?_, by rw [hc₄], ?_⟩
  · simp only [run_cons_eq_some]
    exact ⟨c₁, hstep₁, c₂, hstep₂, c₃, hstep₃, c₄, hstep₄, rfl⟩
  · have hentries : c₃.admin.record.withOif h.oifEntry.text = r := by
      rw [hc₃, hc₂]
      exact h.padded.entries_eq c₁.admin.record
    have htable : c₃.admin.rtm = c.admin.rtm := by rw [hc₃, hc₂, hc₁]
    simp only [hc₄, hentries, h.padded.copy_eq, htable]

structure TypedOk (c : Console) : Prop where
  admin : AdminOk c.admin
  entries : EntriesOk FitsLine c.admin

theorem TypedOk.init (entry : EntryType) (record : MsgBody) : TypedOk (Console.init entry record) :=
  ⟨AdminOk.initial entry record, EntriesOk.init entry record⟩

theorem TypedOk.step {amb : Ambient} (c : Console) (l : AdminLine) (c' : Console) (h : TypedOk c)
    (hstep : typedStep amb c l = some c') : TypedOk c' := by
  obtain ⟨answer, hanswer, -, rfl⟩ := consoleStep_eq_some hstep
  obtain ⟨buffer, hbuffer, hline⟩ := answer_ofLine amb l c.admin
  obtain rfl := Option.some.inj (hline.symm.trans hanswer)
  have heffect := handleAdminLine_effect amb c.admin buffer
  rw [hbuffer] at heffect
  exact ⟨h.admin.step heffect, h.entries.step h.admin l.zero_notMem l.newline_notMem
    ⟨l.length_lt, l.newline_notMem⟩ heffect⟩

theorem TypedOk.enterable {c : Console} (h : TypedOk c) {r : MsgBody} (hr : r ∈ c.admin.rtm) :
    r.Enterable where
  padded := h.admin.padded r hr
  mask_le := (h.admin.validKey r hr).mask_le
  entered := h.entries.records r hr

theorem exists_run_of_enterable (amb : Ambient) (entry : EntryType) (record : MsgBody)
    {rt : RoutingTable} (hnodup : rt.keys.Nodup) (henterable : ∀ r ∈ rt, r.Enterable) :
    ∃ lines c, run (typedStep amb) (Console.init entry record) lines = some c ∧
      c.admin.state = .idle ∧ c.admin.rtm = rt := by
  induction rt using List.reverseRecOn with
  | nil => exact ⟨[], _, rfl, rfl, rfl⟩
  | append_singleton rt r ih =>
      rw [RoutingTable.keys, List.map_append, List.map_singleton] at hnodup
      obtain ⟨hkeys, -, hdisjoint⟩ := List.nodup_append.mp hnodup
      obtain ⟨lines, c, hrun, hidle, htable⟩ :=
        ih hkeys fun r' hr' => henterable r' (List.mem_append_left _ hr')
      have hadmin := (run_invariant TypedOk.step (TypedOk.init entry record) hrun).admin
      have hfresh : r.key ∉ c.admin.rtm.keys := by
        rw [htable]
        exact fun hmem => hdisjoint _ hmem _ (List.mem_singleton_self _) rfl
      have hr : r.Enterable := henterable r (by simp)
      obtain ⟨more, c', hmore, hidle', htable'⟩ := hr.exists_run amb hadmin hidle hfresh
      refine ⟨lines ++ more, c', ?_, hidle', by rw [htable', htable]⟩
      rw [run_append, hrun]
      exact hmore

/-- The tables that typed lines lead to are those with different keys whose records are enterable:
the invariant of the table is as strong as can be. -/
theorem entered_tables_iff (amb : Ambient) (entry : EntryType) (record : MsgBody)
    (rt : RoutingTable) :
    (∃ lines c, run (typedStep amb) (Console.init entry record) lines = some c ∧
      c.admin.rtm = rt) ↔ rt.keys.Nodup ∧ ∀ r ∈ rt, r.Enterable := by
  constructor
  · rintro ⟨lines, c, hrun, rfl⟩
    have h := run_invariant TypedOk.step (TypedOk.init entry record) hrun
    exact ⟨h.admin.nodup, fun r hr => h.enterable hr⟩
  · rintro ⟨hnodup, henterable⟩
    obtain ⟨lines, c, hrun, -, htable⟩ :=
      exists_run_of_enterable amb entry record hnodup henterable
    exact ⟨lines, c, hrun, htable⟩

end LinuxIPC
