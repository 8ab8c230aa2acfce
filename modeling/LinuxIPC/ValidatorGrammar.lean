import LinuxIPC.Validators

/-!
# What the validators accept (`input.c`)

An address is four groups of digits between three dots, a subnet is an address, a slash and the digits
of a mask. The validators accept these and more: `strtol` skips white space and takes a sign, and an
address is looked at up to its 16th character only.
-/

namespace LinuxIPC

open CString

def DigitText (bound : ℤ) (s : List UInt8) : Prop := Digits s ∧ (decimal s : ℤ) ≤ bound

def NumberText (bound : ℤ) (s : List UInt8) : Prop := ∃ v, Numeral s v ∧ 0 ≤ v ∧ v ≤ bound

structure GroupsOf (group : List UInt8 → Prop) (s : List UInt8) : Prop where
  count : (s.splitOn dot).length = ipAddrGp
  groups : ∀ g ∈ s.splitOn dot, group g

def AddressText (s : List UInt8) : Prop := GroupsOf (DigitText ipAddrMax) s

def LenientAddress (s : List UInt8) : Prop := GroupsOf (NumberText ipAddrMax) s

def lastGroup (s : List UInt8) : List UInt8 := (s.splitOn dot).getLastD []

/-- The first 16 characters are an address to the validator, but a group has a sign or white space,
or what stands behind them does not go on with the digits of the last group. -/
structure AddressLoophole (s : List UInt8) : Prop where
  lenient : LenientAddress (s.take ipAddrLen)
  flaw : (∃ g ∈ (s.take ipAddrLen).splitOn dot, ¬ Digits g) ∨
    (∃ c ∈ s.drop ipAddrLen, ¬ isdigit c = true) ∨
    ipAddrMax < decimal (lastGroup (s.take ipAddrLen) ++ s.drop ipAddrLen)

/-- An address and a mask to the validator, but one of them has a sign or white space, or the address
does not fit its field together with a NUL. -/
structure SubnetLoophole (address mask : List UInt8) : Prop where
  slash_notMem : slash ∉ address
  lenient : LenientAddress (address.take ipAddrLen)
  number : NumberText maskMax mask
  flaw : ipAddrLen ≤ address.length ∨ (∃ g ∈ address.splitOn dot, ¬ Digits g) ∨ ¬ Digits mask

/-- A subnet that is accepted: its address as a string in the field, and its mask. A caller of the
validator is handed a pointer to the field and needs the NUL; the records of the table are compared
by up to 16 characters, with or without one. -/
structure SubnetText (address mask : List UInt8) (r : SubnetRead) : Prop where
  groups : AddressText address
  digits : DigitText maskMax mask
  terminated : r.ipAddress.Terminated
  text : r.ipAddress.text = address
  value : r.mask.toNat = decimal mask

def AcceptsAddresses (amb : Ambient) (m : List UInt8) : Prop :=
  readIpAddressFromBuffer amb m = true → AddressText (cstr m)

def AcceptsSubnets (amb : Ambient) (m : List UInt8) (ipAddress : CharArray ipAddrLen)
    (mask : UInt16) : Prop :=
  (readDestinationSubnetFromBuffer amb m ipAddress mask).ok = true →
    ∃ address text, cstr m = address ++ slash :: text ∧
      SubnetText address text (readDestinationSubnetFromBuffer amb m ipAddress mask)

theorem DigitText.of_numberText {bound : ℤ} {s : List UInt8} (h : NumberText bound s)
    (hdigits : Digits s) : DigitText bound s := by
  obtain ⟨v, hv, -, hle⟩ := h
  exact ⟨hdigits, hdigits.numeral.eq hv ▸ hle⟩

theorem countGroups_iff {tokens : List (List UInt8)} (hzero : ∀ token ∈ tokens, 0 ∉ token)
    (gpCount n : ℕ) :
    countGroups 0 tokens gpCount = some n ↔
      n = gpCount + tokens.length ∧ ∀ token ∈ tokens, NumberText ipAddrMax token := by
  induction tokens generalizing gpCount with
  | nil => simp [countGroups, eq_comm]
  | cons token rest ih =>
      have hrest := ih (fun t ht => hzero t (List.mem_cons_of_mem _ ht)) (gpCount + 1)
      have htoken := readIntFromBuffer_iff (hzero token List.mem_cons_self)
      rw [List.length_cons, List.forall_mem_cons, countGroups]
      cases hread : readIntFromBuffer 0 token with
      | none =>
          refine iff_of_false (by simp) ?_
          rintro ⟨-, ⟨v, hv, hlo, hhi⟩, -⟩
          have hsome := (htoken v).mpr ⟨hv, by simp only [intMin]; omega, by
            simp only [intMax]; simp only [ipAddrMax] at hhi; omega⟩
          rw [hread] at hsome
          exact absurd hsome (by simp)
      | some ipGp =>
          have hnumeral := ((htoken ipGp).mp hread).1
          have hmin : ipAddrMin = 0 := rfl
          dsimp only
          split_ifs with hrange
          · refine iff_of_false (by simp) ?_
            rintro ⟨-, ⟨v, hv, hlo, hhi⟩, -⟩
            obtain rfl := hnumeral.eq hv
            omega
          · rw [hrest]
            have hnumber : NumberText ipAddrMax token := ⟨ipGp, hnumeral, by omega, by omega⟩
            constructor
            · rintro ⟨hn, hall⟩
              exact ⟨by omega, hnumber, hall⟩
            · rintro ⟨hn, -, hall⟩
              exact ⟨by omega, hall⟩

theorem validAddress_iff {text : List UInt8} (hzero : 0 ∉ text) :
    validAddress text = true ↔ LenientAddress (text.take ipAddrLen) := by
  have htokens : ∀ token ∈ strsepTokens dot (text.take ipAddrLen), 0 ∉ token := fun token ht hmem =>
    hzero (List.mem_of_mem_take (mem_of_mem_strsepTokens ht hmem))
  rw [validAddress, decide_eq_true_eq, countGroups_iff htokens, Nat.zero_add]
  exact ⟨fun h => ⟨h.1.symm, h.2⟩, fun h => ⟨h.count.symm, h.groups⟩⟩

theorem length_splitOn (c : UInt8) (s : List UInt8) : (s.splitOn c).length = s.count c + 1 := by
  induction s with
  | nil => rfl
  | cons d s ih =>
      rw [List.splitOn_cons_eq_if_modifyHead]
      by_cases hd : d = c
      · simp [hd, ih]
      · simp [hd, ih]

theorem splitOn_four {a b c d : List UInt8} (ha : dot ∉ a) (hb : dot ∉ b) (hc : dot ∉ c)
    (hd : dot ∉ d) :
    (a ++ dot :: (b ++ dot :: (c ++ dot :: d))).splitOn dot = [a, b, c, d] := by
  rw [List.splitOn_append_cons_self_of_not_mem ha, List.splitOn_append_cons_self_of_not_mem hb,
    List.splitOn_append_cons_self_of_not_mem hc, List.splitOn_eq_singleton hd]

/-- The four groups of a text. -/
theorem GroupsOf.exists_four {group : List UInt8 → Prop} {s : List UInt8} (h : GroupsOf group s) :
    ∃ a b c d, s = a ++ dot :: (b ++ dot :: (c ++ dot :: d)) ∧ s.splitOn dot = [a, b, c, d] ∧
      group a ∧ group b ∧ group c ∧ group d := by
  obtain ⟨hcount, hgroups⟩ := h
  obtain ⟨a, b, c, d, hsplit⟩ := List.length_eq_four.mp hcount
  have hjoin : [dot].intercalate (s.splitOn dot) = s := List.intercalate_splitOn dot
  rw [hsplit] at hjoin hgroups
  refine ⟨a, b, c, d, ?_, hsplit, ?_⟩
  · rw [← hjoin]
    simp
  · simpa using hgroups

theorem NumberText.dot_notMem {bound : ℤ} {s : List UInt8} (h : NumberText bound s) : dot ∉ s := by
  obtain ⟨v, hv, -⟩ := h
  exact hv.notMem (by decide) (by decide) (by decide) (by decide)

/-- What the validator does not look at must go on with the last group. -/
theorem addressText_iff {x rest : List UInt8} (h : LenientAddress x) :
    AddressText (x ++ rest) ↔
      (∀ g ∈ x.splitOn dot, Digits g) ∧ (∀ c ∈ rest, isdigit c = true) ∧
        (decimal (lastGroup x ++ rest) : ℤ) ≤ ipAddrMax := by
  obtain ⟨a, b, c, d, hx, hsplit, ha, hb, hc, hd⟩ := h.exists_four
  have hlast : lastGroup x = d := by simp [lastGroup, hsplit]
  have happend : dot ∉ rest → (x ++ rest).splitOn dot = [a, b, c, d ++ rest] := by
    intro hrest
    have hdr : dot ∉ d ++ rest := by
      rw [List.mem_append, not_or]
      exact ⟨hd.dot_notMem, hrest⟩
    rw [← splitOn_four ha.dot_notMem hb.dot_notMem hc.dot_notMem hdr, hx]
    simp
  constructor
  · intro hwf
    have hrest : dot ∉ rest := by
      have hcount := hwf.count
      have hcount' := h.count
      rw [length_splitOn] at hcount hcount'
      rw [List.count_append] at hcount
      exact List.count_eq_zero.mp (by omega)
    have hgroups := hwf.groups
    rw [happend hrest] at hgroups
    simp only [List.forall_mem_cons] at hgroups
    obtain ⟨ha', hb', hc', hd', -⟩ := hgroups
    have hne : d ≠ [] := by
      obtain ⟨v, hv, -⟩ := hd
      exact hv.ne_nil
    have hdigits : Digits d := ⟨hne, fun k hk => hd'.1.2 k (List.mem_append_left _ hk)⟩
    refine ⟨?_, fun k hk => hd'.1.2 k (List.mem_append_right _ hk), hlast ▸ hd'.2⟩
    rw [hsplit]
    simp only [List.forall_mem_cons]
    exact ⟨ha'.1, hb'.1, hc'.1, hdigits, by simp⟩
  · rintro ⟨hgroups, hdigits, hbound⟩
    have hrest : dot ∉ rest := fun hmem => absurd (hdigits dot hmem) (by decide)
    rw [hsplit] at hgroups
    simp only [List.forall_mem_cons] at hgroups
    obtain ⟨ha', hb', hc', hd', -⟩ := hgroups
    rw [hlast] at hbound
    have hall : Digits (d ++ rest) := by
      refine ⟨by simp [hd'.1], fun k hk => ?_⟩
      rcases List.mem_append.mp hk with hk | hk
      · exact hd'.2 k hk
      · exact hdigits k hk
    refine ⟨by rw [happend hrest]; rfl, ?_⟩
    rw [happend hrest]
    simp only [List.forall_mem_cons]
    exact ⟨.of_numberText ha ha', .of_numberText hb hb', .of_numberText hc hc', ⟨hall, hbound⟩,
      by simp⟩

theorem acceptsAddresses_iff (amb : Ambient) (m : List UInt8) :
    AcceptsAddresses amb m ↔ ¬ AddressLoophole (cstr m) := by
  have haccept := validAddress_iff (zero_notMem_cstr m)
  rw [AcceptsAddresses, readIpAddressFromBuffer_eq, haccept]
  constructor
  · rintro h ⟨hlenient, hflaw⟩
    have hwf := h hlenient
    rw [← List.take_append_drop ipAddrLen (cstr m), addressText_iff hlenient] at hwf
    obtain ⟨hgroups, hdigits, hbound⟩ := hwf
    obtain ⟨g, hg, hnot⟩ | ⟨c, hc, hnot⟩ | hlarge := hflaw
    · exact hnot (hgroups g hg)
    · exact hnot (hdigits c hc)
    · exact absurd hbound (not_le.mpr hlarge)
  · intro h hlenient
    rw [← List.take_append_drop ipAddrLen (cstr m), addressText_iff hlenient]
    by_contra hnot
    refine h ⟨hlenient, ?_⟩
    by_contra hflaw
    push Not at hflaw
    exact hnot hflaw

theorem parseMask_iff {text : List UInt8} (hzero : 0 ∉ text) (k : UInt16) :
    parseMask text = some k ↔ ∃ v, Numeral text v ∧ 0 ≤ v ∧ v ≤ maskMax ∧ (k.toNat : ℤ) = v := by
  have hint := readIntFromBuffer_iff hzero
  constructor
  · intro h
    obtain ⟨hle, hvalue⟩ := parseMask_eq_some h
    rw [parseMask] at h
    cases hread : readIntFromBuffer 0 text with
    | none => simp [hread] at h
    | some v =>
        have hv := readIntFromBuffer_eq_some hread
        simp only [maskMax]
        exact ⟨v, ((hint v).mp hread).1, by omega, by omega, by omega⟩
  · rintro ⟨v, hv, hlo, hhi, hk⟩
    have hvalue := toNat_toU16 hlo hhi
    have hmax : maskMax = 32 := rfl
    have hread := (hint v).mpr ⟨hv, by simp only [intMin]; omega, by simp only [intMax]; omega⟩
    have hrange : ¬ (v < maskMin ∨ v > maskMax) := not_or.mpr ⟨not_lt.mpr hlo, not_lt.mpr hhi⟩
    have hk' : toU16 v = k := UInt16.toNat_inj.mp (by omega)
    rw [parseMask, hread]
    simp only [if_neg hrange, hk']

theorem addressText_append {address : List UInt8} (h : slash ∉ address) (mask : List UInt8) :
    addressText (address ++ slash :: mask) = address ∧
      maskText (address ++ slash :: mask) = mask := by
  constructor
  · exact takeWhile_ne_append_cons h mask
  · rw [maskText, List.dropWhile_append_of_pos (decide_ne_of_notMem h)]
    simp

/-- The address and the mask of a subnet that is accepted stand around its only slash. -/
theorem parseSubnet_iff {text : List UInt8} (hzero : 0 ∉ text) (ip : CharArray ipAddrLen)
    (k : UInt16) :
    parseSubnet text = some (ip, k) ↔
      ∃ address mask, text = address ++ slash :: mask ∧ slash ∉ address ∧
        LenientAddress (address.take ipAddrLen) ∧ ip = strncpy ipAddrLen address ∧
        ∃ v, Numeral mask v ∧ 0 ≤ v ∧ v ≤ maskMax ∧ (k.toNat : ℤ) = v := by
  constructor
  · intro h
    obtain ⟨hvalid, hip, hmask⟩ := parseSubnet_eq_some h
    have hsplit := addressText_append_maskText (slash_mem_of_parseSubnet h)
    rw [← hsplit, List.mem_append, List.mem_cons, not_or, not_or] at hzero
    have hslash : slash ∉ addressText text := notMem_takeWhile_ne slash text
    exact ⟨_, _, hsplit.symm, hslash, (validAddress_iff hzero.1).mp hvalid, hip,
      (parseMask_iff hzero.2.2 k).mp hmask⟩
  · rintro ⟨address, mask, rfl, hslash, hlenient, rfl, v, hv, hrange⟩
    have hmask : slash ∉ mask := hv.notMem (by decide) (by decide) (by decide) (by decide)
    have htokens : strsepTokens slash (address ++ slash :: mask) = [address, mask] := by
      rw [strsepTokens, List.splitOn_append_cons_self_of_not_mem hslash,
        List.splitOn_eq_singleton hmask]
    rw [List.mem_append, List.mem_cons, not_or, not_or] at hzero
    rw [parseSubnet, htokens]
    simp only [(validAddress_iff hzero.1).mpr hlenient,
      (parseMask_iff hzero.2.2 k).mpr ⟨v, hv, hrange⟩, if_true, Option.map_some]

theorem AddressText.notMem {s : List UInt8} (h : AddressText s) {c : UInt8}
    (hdigit : ¬ isdigit c = true) (hdot : c ≠ dot) : c ∉ s := by
  obtain ⟨a, b, d, e, rfl, -, ha, hb, hd, he⟩ := h.exists_four
  simp only [List.mem_append, List.mem_cons, not_or]
  exact ⟨ha.1.notMem hdigit, hdot, hb.1.notMem hdigit, hdot, hd.1.notMem hdigit, hdot,
    he.1.notMem hdigit⟩

/-- The first slash splits a text in one way. -/
theorem eq_of_append_slash {address mask address' mask' : List UInt8} (h : slash ∉ address)
    (h' : slash ∉ address') (heq : address ++ slash :: mask = address' ++ slash :: mask') :
    address = address' ∧ mask = mask' := by
  obtain ⟨haddress, hmask⟩ := addressText_append h mask
  obtain ⟨haddress', hmask'⟩ := addressText_append h' mask'
  rw [heq] at haddress hmask
  exact ⟨haddress.symm.trans haddress', hmask.symm.trans hmask'⟩

/-- Whatever is read from a loophole, it is no subnet. -/
theorem SubnetLoophole.not_subnetText {address mask : List UInt8} (h : SubnetLoophole address mask)
    (r : SubnetRead) : ¬ SubnetText address mask r := by
  intro htext
  obtain hlong | ⟨g, hg, hnot⟩ | hnot := h.flaw
  · have hterm := htext.terminated
    rw [CharArray.terminated_iff, htext.text] at hterm
    exact absurd hterm (not_lt.mpr hlong)
  · exact hnot (htext.groups.groups g hg).1
  · exact hnot htext.digits.1

/-- What is accepted is a subnet if it is no loophole. -/
theorem SubnetText.of_not_loophole {address mask : List UInt8} {r : SubnetRead} (hzero : 0 ∉ address)
    (hslash : slash ∉ address) (hlenient : LenientAddress (address.take ipAddrLen))
    (hip : r.ipAddress = strncpy ipAddrLen address) {v : ℤ} (hv : Numeral mask v) (hlo : 0 ≤ v)
    (hhi : v ≤ maskMax) (hk : (r.mask.toNat : ℤ) = v) (h : ¬ SubnetLoophole address mask) :
    SubnetText address mask r := by
  have hnumber : NumberText maskMax mask := ⟨v, hv, hlo, hhi⟩
  have hflaw : ¬ (ipAddrLen ≤ address.length ∨ (∃ g ∈ address.splitOn dot, ¬ Digits g) ∨
      ¬ Digits mask) := fun hflaw => h ⟨hslash, hlenient, hnumber, hflaw⟩
  push Not at hflaw
  obtain ⟨hshort, hgroups, hdigits⟩ := hflaw
  have hcstr := cstr_eq_self hzero
  rw [List.take_of_length_le hshort.le] at hlenient
  refine ⟨?_, .of_numberText hnumber hdigits, ?_, ?_, ?_⟩
  · exact ⟨hlenient.count, fun g hg => .of_numberText (hlenient.groups g hg) (hgroups g hg)⟩
  · rwa [hip, terminated_strncpy, hcstr]
  · rw [hip, text_strncpy, hcstr, List.take_of_length_le hshort.le]
  · have hdecimal := hdigits.numeral.eq hv
    omega

theorem acceptsSubnets_iff (amb : Ambient) (m : List UInt8) (ipAddress : CharArray ipAddrLen)
    (mask : UInt16) :
    AcceptsSubnets amb m ipAddress mask ↔
      ¬ ∃ address text, cstr m = address ++ slash :: text ∧ SubnetLoophole address text := by
  have hzero := zero_notMem_cstr m
  unfold AcceptsSubnets
  obtain ⟨ip, k, hparse, hread⟩ | ⟨hnone, hrefused⟩ :=
    readDestinationSubnetFromBuffer_spec amb m ipAddress mask
  · obtain ⟨address, text, hm, hslash, hlenient, hip, v, hv, hlo, hhi, hk⟩ :=
      (parseSubnet_iff hzero ip k).mp hparse
    rw [hread]
    constructor
    · intro h hor
      obtain ⟨address', text', hm', hloophole⟩ := hor
      obtain ⟨address'', text'', hm'', htext⟩ := h rfl
      have hslash'' : slash ∉ address'' := htext.groups.notMem (by decide) (by decide)
      obtain ⟨rfl, rfl⟩ :=
        eq_of_append_slash hloophole.slash_notMem hslash'' (hm'.symm.trans hm'')
      exact hloophole.not_subnetText _ htext
    · intro h _
      have hnot : ¬ SubnetLoophole address text := fun hloophole => h ⟨address, text, hm, hloophole⟩
      rw [hm, List.mem_append, not_or] at hzero
      exact ⟨address, text, hm, .of_not_loophole hzero.1 hslash hlenient hip hv hlo hhi hk hnot⟩
  · refine iff_of_true (fun hok => absurd hok (by simp [hrefused])) ?_
    rintro ⟨address, text, hm, hloophole⟩
    obtain ⟨v, hv, hlo, hhi⟩ := hloophole.number
    have hsome := (parseSubnet_iff hzero (strncpy ipAddrLen address) (toU16 v)).mpr
      ⟨address, text, hm, hloophole.slash_notMem, hloophole.lenient, rfl, v, hv, hlo, hhi,
        toNat_toU16 hlo hhi⟩
    rw [hnone] at hsome
    exact absurd hsome (by simp)

/-- The validators accept nothing but addresses and subnets, the loopholes apart. -/
theorem validators_accept_well_formed (amb : Ambient) :
    (∀ m, AcceptsAddresses amb m ↔ ¬ AddressLoophole (cstr m)) ∧
      ∀ m ipAddress mask, AcceptsSubnets amb m ipAddress mask ↔
        ¬ ∃ address text, cstr m = address ++ slash :: text ∧ SubnetLoophole address text :=
  ⟨acceptsAddresses_iff amb, acceptsSubnets_iff amb⟩

/-- A space and a sign are no digits. -/
theorem validators_accept_well_formed_blank :
    ¬ ∀ amb, (∀ m, AcceptsAddresses amb m) ∧
      ∀ m ipAddress mask, AcceptsSubnets amb m ipAddress mask := by
  intro h
  have haddress := (h Ambient.zero).1 (ascii " 1.2.3.+4") (by decide)
  have hgroup := haddress.groups (ascii " 1") (by decide)
  exact absurd hgroup.1 (by decide)

example : readIpAddressFromBuffer Ambient.zero (ascii "100.100.100.0001 behind") = true := by
  decide

end LinuxIPC
