import LinuxIPC.ValidatorGrammar

/-!
# Printed subnets (`rtm.c`)

A row of the printed routing table shows the subnet of its record as text. For an address in dotted
decimal notation the text fits its array, and the validator reads the same address and mask from it.
-/

namespace LinuxIPC

open CString

/-- The array `dst_subnet` in `routing_table_print`, given what it held before. -/
def printedSubnet (dstSubnet : CharArray (ipAddrLen + 3)) (record : MsgBody) :
    CharArray (ipAddrLen + 3) :=
  snprintf dstSubnet (cstr record.fromDestination ++ slash :: decimalText record.mask.toNat)

def dottedDecimal (a b c d : UInt8) : List UInt8 :=
  decimalText a.toNat ++ dot ::
    (decimalText b.toNat ++ dot :: (decimalText c.toNat ++ dot :: decimalText d.toNat))

structure PrintsAndReads (dest : List UInt8) (record : MsgBody)
    (dstSubnet : CharArray (ipAddrLen + 3)) (amb : Ambient) (ipAddress : CharArray ipAddrLen)
    (mask : UInt16) : Prop where
  terminated : (printedSubnet dstSubnet record).Terminated
  printed : (printedSubnet dstSubnet record).text =
    dest ++ slash :: decimalText record.mask.toNat
  read : ∃ ip : CharArray ipAddrLen,
    readDestinationSubnetFromBuffer amb ((printedSubnet dstSubnet record).bytes ++ amb.stack)
      ipAddress mask = ⟨true, ip, record.mask⟩ ∧ ip.Terminated ∧ ip.text = dest

theorem length_octet (a : UInt8) : (decimalText a.toNat).length ≤ 3 :=
  length_decimalText_le (by norm_num) (a.toNat_lt.trans (by norm_num))

theorem length_dottedDecimal (a b c d : UInt8) : (dottedDecimal a b c d).length < ipAddrLen := by
  have ha := length_octet a
  have hb := length_octet b
  have hc := length_octet c
  have hd := length_octet d
  simp only [dottedDecimal, List.length_append, List.length_cons, ipAddrLen]
  omega

theorem numberText_decimalText {bound : ℤ} {n : ℕ} (h : (n : ℤ) ≤ bound) :
    NumberText bound (decimalText n) := by
  have hnumeral := (digits_decimalText n).numeral
  rw [decimal_decimalText] at hnumeral
  exact ⟨n, hnumeral, by omega, h⟩

theorem numberText_octet (a : UInt8) : NumberText ipAddrMax (decimalText a.toNat) := by
  have hlt := a.toNat_lt
  exact numberText_decimalText (by simp only [ipAddrMax]; omega)

theorem lenientAddress_dottedDecimal (a b c d : UInt8) :
    LenientAddress (dottedDecimal a b c d) := by
  have hsplit : (dottedDecimal a b c d).splitOn dot =
      [decimalText a.toNat, decimalText b.toNat, decimalText c.toNat, decimalText d.toNat] :=
    splitOn_four (numberText_octet a).dot_notMem (numberText_octet b).dot_notMem
      (numberText_octet c).dot_notMem (numberText_octet d).dot_notMem
  refine ⟨by rw [hsplit]; rfl, ?_⟩
  rw [hsplit]
  simp only [List.forall_mem_cons]
  exact ⟨numberText_octet a, numberText_octet b, numberText_octet c, numberText_octet d, by simp⟩

/-- Only digits and dots stand in the text of an address. -/
theorem notMem_dottedDecimal (a b c d : UInt8) {x : UInt8} (hdigit : ¬ isdigit x = true)
    (hdot : x ≠ dot) : x ∉ dottedDecimal a b c d := by
  have hnot : ∀ n, x ∉ decimalText n := fun n => (digits_decimalText n).notMem hdigit
  simp only [dottedDecimal, List.mem_append, List.mem_cons, not_or]
  exact ⟨hnot _, hdot, hnot _, hdot, hnot _, hdot, hnot _⟩

theorem length_mask {mask : UInt16} (h : mask.toNat ≤ 32) :
    (decimalText mask.toNat).length ≤ 2 :=
  length_decimalText_le (by norm_num) (h.trans_lt (by norm_num))

theorem parseSubnet_dottedDecimal (a b c d : UInt8) {mask : UInt16} (h : mask.toNat ≤ 32) :
    parseSubnet (dottedDecimal a b c d ++ slash :: decimalText mask.toNat) =
      some (strncpy ipAddrLen (dottedDecimal a b c d), mask) := by
  have hlen := length_dottedDecimal a b c d
  have hzero : 0 ∉ dottedDecimal a b c d ++ slash :: decimalText mask.toNat := by
    simp only [List.mem_append, List.mem_cons, not_or]
    exact ⟨notMem_dottedDecimal a b c d (by decide) (by decide), by decide,
      (digits_decimalText _).notMem (by decide)⟩
  have hnumber : NumberText maskMax (decimalText mask.toNat) :=
    numberText_decimalText (by simp only [maskMax]; omega)
  obtain ⟨v, hv, hlo, hhi⟩ := hnumber
  have hvalue : (mask.toNat : ℤ) = v := by
    have hnumeral := (digits_decimalText mask.toNat).numeral
    rw [decimal_decimalText] at hnumeral
    exact hnumeral.eq hv
  rw [parseSubnet_iff hzero]
  refine ⟨_, _, rfl, notMem_dottedDecimal a b c d (by decide) (by decide), ?_, rfl, v, hv, hlo,
    hhi, hvalue⟩
  rw [List.take_of_length_le hlen.le]
  exact lenientAddress_dottedDecimal a b c d

/-- Printing a subnet and reading it are inverse. -/
theorem printed_subnet_read (a b c d : UInt8) (record : MsgBody)
    (hdest : record.destination.text = dottedDecimal a b c d) (hmask : record.mask.toNat ≤ 32)
    (dstSubnet : CharArray (ipAddrLen + 3)) (amb : Ambient) (ipAddress : CharArray ipAddrLen)
    (mask : UInt16) :
    PrintsAndReads (dottedDecimal a b c d) record dstSubnet amb ipAddress mask := by
  have hlen := length_dottedDecimal a b c d
  have hterm : record.destination.Terminated := by
    rw [CharArray.terminated_iff, hdest]
    exact hlen
  have hcstr : cstr record.fromDestination = dottedDecimal a b c d :=
    (cstr_append_of_mem hterm _).trans hdest
  have hzero : 0 ∉ dottedDecimal a b c d :=
    notMem_dottedDecimal a b c d (by decide) (by decide)
  have hprinted : (printedSubnet dstSubnet record).text =
      dottedDecimal a b c d ++ slash :: decimalText record.mask.toNat := by
    rw [printedSubnet, hcstr]
    apply text_snprintf
    · simp only [List.mem_append, List.mem_cons, not_or]
      exact ⟨hzero, by decide, (digits_decimalText _).notMem (by decide)⟩
    · have hm := length_mask hmask
      rw [List.length_append, List.length_cons]
      omega
  have hfits : (printedSubnet dstSubnet record).Terminated := by
    have hm := length_mask hmask
    rw [CharArray.terminated_iff, hprinted, List.length_append, List.length_cons]
    omega
  have hparse := parseSubnet_dottedDecimal a b c d hmask
  rw [← hprinted, CharArray.text, ← cstr_append_of_mem hfits amb.stack] at hparse
  refine ⟨hfits, hprinted, strncpy ipAddrLen (dottedDecimal a b c d), ?_, ?_, ?_⟩
  · exact (readDestinationSubnetFromBuffer_eq_iff amb _ ipAddress _ mask _).mpr hparse
  · rwa [terminated_strncpy, cstr_eq_self hzero]
  · rw [text_strncpy, cstr_eq_self hzero, List.take_of_length_le hlen.le]

/-- The longest text, with a mask of two digits. -/
theorem printed_subnet_read_longest :
    let record : MsgBody := ⟨strncpy ipAddrLen (ascii "255.255.255.255"), 32,
      strncpy ipAddrLen [], strncpy oifLen []⟩
    record.destination.text = dottedDecimal 255 255 255 255 ∧ record.mask.toNat ≤ 32 ∧
      PrintsAndReads (dottedDecimal 255 255 255 255) record (strncpy (ipAddrLen + 3) [])
        Ambient.zero (strncpy ipAddrLen (ascii "occupied before")) 7 :=
  ⟨by decide +kernel, by decide, printed_subnet_read 255 255 255 255 _ (by decide +kernel)
    (by decide) _ _ _ _⟩

end LinuxIPC
