import LinuxIPC.LineReading
import LinuxIPC.ValidatorGrammar

/-!
# Reading from the standard input (`utils.c`, `input.c`)

The readers of the standard input read a line into a buffer and then do what the parsers of a buffer
do. A line that is longer than the buffer is cut and the rest discarded, so that a reader may accept
the beginning of a line which as a whole is something else.
-/

namespace LinuxIPC

open CString

abbrev intBufferLen : ℕ := 12

abbrev subnetBufferLen : ℕ := ipAddrLen + 3

/-- `read_int_from_stdin`, with its buffer before it is filled: the integer stored on success, and
what is left of the standard input; `none` when it does not return. -/
def readIntFromStdin (amb : Ambient) (buffer : CharArray intBufferLen) (stdin : List UInt8) :
    Option (Option ℤ × List UInt8) :=
  match readLine buffer stdin with
  | .eof => some (none, stdin)
  | .endless => none
  | .line buffer stdin =>
    let m := buffer.bytes ++ amb.stack
    some (if checkInt amb.errno m then some (toInt (strtol amb.errno m).value) else none, stdin)

def readIpAddressFromStdin (amb : Ambient) (ipAddress : CharArray ipAddrLen)
    (stdin : List UInt8) : Option (Bool × CharArray ipAddrLen × List UInt8) :=
  match readLine ipAddress stdin with
  | .eof => some (false, ipAddress, stdin)
  | .endless => none
  | .line ipAddress stdin =>
    some (readIpAddressFromBuffer amb (ipAddress.bytes ++ amb.stack), ipAddress, stdin)

def readDestinationSubnetFromStdin (amb : Ambient) (dstSubnet : CharArray subnetBufferLen)
    (ipAddress : CharArray ipAddrLen) (mask : UInt16) (stdin : List UInt8) :
    Option (SubnetRead × CharArray subnetBufferLen × List UInt8) :=
  match readLine dstSubnet stdin with
  | .eof => some (⟨false, ipAddress, mask⟩, dstSubnet, stdin)
  | .endless => none
  | .line dstSubnet stdin =>
    let dstSubnetCopy := strncpy subnetBufferLen (dstSubnet.bytes ++ amb.stack)
    some (readDestinationSubnetFromBuffer amb (dstSubnetCopy.bytes ++ amb.stack) ipAddress mask,
      dstSubnet, stdin)

structure TypedLine where
  text : List UInt8
  rest : List UInt8
  zero_notMem : 0 ∉ text
  newline_notMem : newline ∉ text

def TypedLine.stdin (line : TypedLine) : List UInt8 := line.text ++ newline :: line.rest

def IntAgrees (amb : Ambient) (buffer : CharArray intBufferLen) (line : TypedLine) : Prop :=
  ∀ v rest, readIntFromStdin amb buffer line.stdin = some (some v, rest) →
    readIntFromBuffer amb.errno line.text = some v

def AddressAgrees (amb : Ambient) (ipAddress : CharArray ipAddrLen) (line : TypedLine) : Prop :=
  ∀ ip rest, readIpAddressFromStdin amb ipAddress line.stdin = some (true, ip, rest) →
    readIpAddressFromBuffer amb line.text = true ∧ ip.text = line.text

def SubnetAgrees (amb : Ambient) (dstSubnet : CharArray subnetBufferLen)
    (ipAddress : CharArray ipAddrLen) (mask : UInt16) (line : TypedLine) : Prop :=
  ∀ r dst rest,
    readDestinationSubnetFromStdin amb dstSubnet ipAddress mask line.stdin = some (r, dst, rest) →
      r.ok = true → readDestinationSubnetFromBuffer amb line.text ipAddress mask = r

def GoesOn (v : ℤ) (rest : List UInt8) : Prop := v ≠ 0 ∨ ∃ c ∈ rest, c ≠ 48

/-- The line is longer than 11 characters, which are an integer, and the line goes on otherwise than
with zeros behind a zero. -/
structure CutInt (text : List UInt8) : Prop where
  long : intBufferLen - 1 < text.length
  cut : ∃ v, Numeral (text.take (intBufferLen - 1)) v ∧ intMin ≤ v ∧ v ≤ intMax ∧
    GoesOn v (text.drop (intBufferLen - 1))

/-- The line is longer than 15 characters, which are an address to the validator. -/
structure CutAddress (text : List UInt8) : Prop where
  long : ipAddrLen - 1 < text.length
  cut : LenientAddress (text.take (ipAddrLen - 1))

/-- The line is longer than 18 characters, which are an address, a slash and a mask to the validator,
and the line goes on otherwise than with zeros behind a mask of zero. -/
structure CutSubnet (text : List UInt8) : Prop where
  long : subnetBufferLen - 1 < text.length
  cut : ∃ address mask v, text.take (subnetBufferLen - 1) = address ++ slash :: mask ∧
    slash ∉ address ∧ LenientAddress (address.take ipAddrLen) ∧ Numeral mask v ∧ 0 ≤ v ∧
    v ≤ maskMax ∧ GoesOn v (text.drop (subnetBufferLen - 1))

theorem TypedLine.readLine_eq (line : TypedLine) {n : ℕ} (hn : 2 ≤ n) (buffer : CharArray n) :
    ∃ b : CharArray n, readLine buffer line.stdin = .line b line.rest ∧ b.Terminated ∧
      b.text = line.text.take (n - 1) :=
  readLine_append_newline hn buffer line.newline_notMem line.zero_notMem line.rest

theorem readIntFromStdin_line (amb : Ambient) (buffer : CharArray intBufferLen)
    (line : TypedLine) :
    readIntFromStdin amb buffer line.stdin =
      some (readIntFromBuffer 0 (line.text.take (intBufferLen - 1)), line.rest) := by
  obtain ⟨b, hread, hterm, htext⟩ := line.readLine_eq (by norm_num) buffer
  have hvalue := readIntFromBuffer_append hterm amb.errno amb.stack
  rw [readIntFromBuffer_congr 0 (cstr_cstr b.bytes).symm, ← CharArray.text, htext] at hvalue
  rw [← hvalue, readIntFromStdin, hread]
  rfl

theorem readIpAddressFromStdin_line (amb : Ambient) (ipAddress : CharArray ipAddrLen)
    (line : TypedLine) :
    ∃ ip : CharArray ipAddrLen, ip.text = line.text.take (ipAddrLen - 1) ∧
      readIpAddressFromStdin amb ipAddress line.stdin =
        some (validAddress (line.text.take (ipAddrLen - 1)), ip, line.rest) := by
  obtain ⟨ip, hread, hterm, htext⟩ := line.readLine_eq (by norm_num) ipAddress
  refine ⟨ip, htext, ?_⟩
  rw [readIpAddressFromStdin, hread]
  simp only [readIpAddressFromBuffer_eq, cstr_append_of_mem hterm]
  rw [← htext, CharArray.text]

theorem readDestinationSubnetFromStdin_line (amb : Ambient) (dstSubnet : CharArray subnetBufferLen)
    (ipAddress : CharArray ipAddrLen) (mask : UInt16) (line : TypedLine) :
    ∃ m dst, cstr m = line.text.take (subnetBufferLen - 1) ∧
      readDestinationSubnetFromStdin amb dstSubnet ipAddress mask line.stdin =
        some (readDestinationSubnetFromBuffer amb m ipAddress mask, dst, line.rest) := by
  obtain ⟨dst, hread, hterm, htext⟩ := line.readLine_eq (by norm_num) dstSubnet
  have hcstr : cstr (dst.bytes ++ amb.stack) = dst.text := cstr_append_of_mem hterm amb.stack
  have hlen : dst.text.length < subnetBufferLen := dst.terminated_iff.mp hterm
  have hcopy : (strncpy subnetBufferLen (dst.bytes ++ amb.stack)).Terminated := by
    rwa [terminated_strncpy, hcstr]
  refine ⟨_, dst, ?_, by rw [readDestinationSubnetFromStdin, hread]⟩
  rw [cstr_append_of_mem hcopy, ← CharArray.text, text_strncpy, hcstr,
    List.take_of_length_le hlen.le, htext]

theorem not_goesOn {v : ℤ} {rest : List UInt8} : ¬ GoesOn v rest ↔ v = 0 ∧ ∀ c ∈ rest, c = 48 := by
  unfold GoesOn
  push Not
  exact Iff.rfl

theorem drop_ne_nil {text : List UInt8} {n : ℕ} (hlong : n < text.length) : text.drop n ≠ [] :=
  fun hnil => not_le.mpr hlong (List.drop_eq_nil_iff.mp hnil)

/-- The beginning of a longer line stands for the number of the line unless it goes on. -/
theorem numeral_line_iff {text : List UInt8} {n : ℕ} {v : ℤ} (hlong : n < text.length)
    (h : Numeral (text.take n) v) : Numeral text v ↔ ¬ GoesOn v (text.drop n) := by
  have happend := h.append_iff (drop_ne_nil hlong)
  rw [List.take_append_drop] at happend
  rw [happend, not_goesOn]

theorem intAgrees_iff (amb : Ambient) (buffer : CharArray intBufferLen) (line : TypedLine) :
    IntAgrees amb buffer line ↔ ¬ CutInt line.text := by
  have hzero : 0 ∉ line.text.take (intBufferLen - 1) := fun h =>
    line.zero_notMem (List.mem_of_mem_take h)
  unfold IntAgrees
  rw [readIntFromStdin_line, readIntFromBuffer_errno amb.errno 0]
  constructor
  · rintro h ⟨hlong, v, hv, hlo, hhi, hgoes⟩
    have hread := (readIntFromBuffer_iff hzero v).mpr ⟨hv, hlo, hhi⟩
    have hwhole := h v line.rest (by rw [hread])
    have hnumeral := ((readIntFromBuffer_iff line.zero_notMem v).mp hwhole).1
    exact (numeral_line_iff hlong hv).mp hnumeral hgoes
  · intro h v rest hread
    have hcut := (Prod.mk.inj (Option.some.inj hread)).1
    by_cases hlong : intBufferLen - 1 < line.text.length
    · obtain ⟨hv, hlo, hhi⟩ := (readIntFromBuffer_iff hzero v).mp hcut
      have hgoes : ¬ GoesOn v (line.text.drop (intBufferLen - 1)) := fun hgoes =>
        h ⟨hlong, v, hv, hlo, hhi, hgoes⟩
      exact (readIntFromBuffer_iff line.zero_notMem v).mpr
        ⟨(numeral_line_iff hlong hv).mpr hgoes, hlo, hhi⟩
    · rwa [List.take_of_length_le (not_lt.mp hlong)] at hcut

theorem addressAgrees_iff (amb : Ambient) (ipAddress : CharArray ipAddrLen) (line : TypedLine) :
    AddressAgrees amb ipAddress line ↔ ¬ CutAddress line.text := by
  have hzero : 0 ∉ line.text.take (ipAddrLen - 1) := fun h =>
    line.zero_notMem (List.mem_of_mem_take h)
  have hvalid := validAddress_iff hzero
  rw [List.take_take, min_eq_right (by norm_num)] at hvalid
  obtain ⟨ip, htext, hread⟩ := readIpAddressFromStdin_line amb ipAddress line
  unfold AddressAgrees
  rw [hread, readIpAddressFromBuffer_eq, cstr_eq_self line.zero_notMem]
  constructor
  · rintro h ⟨hlong, hcut⟩
    have hwhole := (h ip line.rest (by rw [hvalid.mpr hcut])).2
    have hlength := congrArg List.length (htext.symm.trans hwhole)
    rw [List.length_take_of_le hlong.le] at hlength
    omega
  · intro h ip' rest hsome
    simp only [Option.some.injEq, Prod.mk.injEq] at hsome
    obtain ⟨haccept, rfl, -⟩ := hsome
    have hlong : ¬ ipAddrLen - 1 < line.text.length := fun hlong =>
      h ⟨hlong, hvalid.mp haccept⟩
    rw [List.take_of_length_le (not_lt.mp hlong)] at haccept htext
    exact ⟨haccept, htext⟩

/-- A line whose beginning is a subnet is the same subnet unless its mask goes on. -/
theorem parseSubnet_line_iff {text address mask : List UInt8} {n : ℕ} {k : UInt16} {v : ℤ}
    (hzero : 0 ∉ text) (hlong : n < text.length) (hcut : text.take n = address ++ slash :: mask)
    (hslash : slash ∉ address) (hlenient : LenientAddress (address.take ipAddrLen))
    (hv : Numeral mask v) (hlo : 0 ≤ v) (hhi : v ≤ maskMax) (hk : (k.toNat : ℤ) = v) :
    parseSubnet text = some (strncpy ipAddrLen address, k) ↔ ¬ GoesOn v (text.drop n) := by
  have htext : text = address ++ slash :: (mask ++ text.drop n) := by
    conv_lhs => rw [← List.take_append_drop n text, hcut]
    simp
  rw [parseSubnet_iff hzero, not_goesOn, ← hv.append_iff (drop_ne_nil hlong)]
  constructor
  · rintro ⟨address', mask', heq, hslash', -, -, w, hw, -, -, hkw⟩
    obtain ⟨-, rfl⟩ := eq_of_append_slash hslash hslash' (htext.symm.trans heq)
    obtain rfl : v = w := hk.symm.trans hkw
    exact hw
  · intro hnumeral
    exact ⟨address, _, htext, hslash, hlenient, rfl, v, hnumeral, hlo, hhi, hk⟩

theorem subnetAgrees_iff (amb : Ambient) (dstSubnet : CharArray subnetBufferLen)
    (ipAddress : CharArray ipAddrLen) (mask : UInt16) (line : TypedLine) :
    SubnetAgrees amb dstSubnet ipAddress mask line ↔ ¬ CutSubnet line.text := by
  have hzero : 0 ∉ line.text.take (subnetBufferLen - 1) := fun h =>
    line.zero_notMem (List.mem_of_mem_take h)
  obtain ⟨m, dst, hm, hread⟩ :=
    readDestinationSubnetFromStdin_line amb dstSubnet ipAddress mask line
  unfold SubnetAgrees
  rw [hread]
  constructor
  · rintro h ⟨hlong, address, text, v, hcut, hslash, hlenient, hv, hlo, hhi, hgoes⟩
    have hk := toNat_toU16 hlo hhi
    have hsome : parseSubnet (cstr m) = some (strncpy ipAddrLen address, toU16 v) := by
      rw [hm, parseSubnet_iff hzero]
      exact ⟨address, text, hcut, hslash, hlenient, rfl, v, hv, hlo, hhi, hk⟩
    have haccept := (readDestinationSubnetFromBuffer_eq_iff amb m ipAddress _ mask _).mpr hsome
    have hwhole := h _ dst line.rest rfl (by rw [haccept])
    rw [haccept, readDestinationSubnetFromBuffer_eq_iff, cstr_eq_self line.zero_notMem] at hwhole
    exact (parseSubnet_line_iff line.zero_notMem hlong hcut hslash hlenient hv hlo hhi hk).mp
      hwhole hgoes
  · intro h r dst' rest hsome hok
    obtain rfl := (Prod.mk.inj (Option.some.inj hsome)).1
    obtain ⟨ip, k, hparse, haccept⟩ | ⟨-, hrefused⟩ :=
      readDestinationSubnetFromBuffer_spec amb m ipAddress mask
    · rw [haccept, readDestinationSubnetFromBuffer_eq_iff, cstr_eq_self line.zero_notMem]
      rw [hm] at hparse
      by_cases hlong : subnetBufferLen - 1 < line.text.length
      · obtain ⟨address, text, hcut, hslash, hlenient, rfl, v, hv, hlo, hhi, hk⟩ :=
          (parseSubnet_iff hzero ip k).mp hparse
        rw [parseSubnet_line_iff line.zero_notMem hlong hcut hslash hlenient hv hlo hhi hk]
        exact fun hgoes =>
          h ⟨hlong, address, text, v, hcut, hslash, hlenient, hv, hlo, hhi, hgoes⟩
      · rwa [List.take_of_length_le (not_lt.mp hlong)] at hparse
    · rw [hrefused] at hok
      exact absurd hok (by simp)

/-- The readers agree with the parsers on the whole line, but for lines that are cut to something
that is accepted. -/
theorem stdin_readers_agree (amb : Ambient) (line : TypedLine) :
    (∀ buffer, IntAgrees amb buffer line ↔ ¬ CutInt line.text) ∧
      (∀ ipAddress, AddressAgrees amb ipAddress line ↔ ¬ CutAddress line.text) ∧
      ∀ dstSubnet ipAddress mask,
        SubnetAgrees amb dstSubnet ipAddress mask line ↔ ¬ CutSubnet line.text :=
  ⟨fun buffer => intAgrees_iff amb buffer line,
    fun ipAddress => addressAgrees_iff amb ipAddress line,
    fun dstSubnet ipAddress mask => subnetAgrees_iff amb dstSubnet ipAddress mask line⟩

/-- The address 255.255.255.2556 is read as 255.255.255.255. -/
theorem stdin_readers_agree_cut :
    ¬ ∀ (amb : Ambient) (line : TypedLine), (∀ buffer, IntAgrees amb buffer line) ∧
      (∀ ipAddress, AddressAgrees amb ipAddress line) ∧
      ∀ dstSubnet ipAddress mask, SubnetAgrees amb dstSubnet ipAddress mask line := by
  intro h
  have haddress := (h Ambient.zero
    ⟨ascii "255.255.255.2556", [], by decide, by decide⟩).2.1 (strncpy ipAddrLen [])
  have hread := haddress (strncpy ipAddrLen (ascii "255.255.255.255")) [] (by decide +kernel)
  exact absurd hread.2 (by decide +kernel)

/-- Leading zeros fill the buffer of an integer. -/
example : (readIntFromStdin Ambient.zero (strncpy intBufferLen []) (ascii "0000000000012\n")).map
    Prod.fst = some (some 0) := by
  decide +kernel

end LinuxIPC
