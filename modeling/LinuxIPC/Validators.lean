import LinuxIPC.Record

/-!
# Validation of addresses and subnets (`input.c`)

Both validators work on copies of at most `ipAddrLen` characters. What lies behind the local copy
of a destination, and the `errno` the conversions start from, never decides a verdict: acceptance
and the values stored are functions of the text alone (`validAddress`, `parseSubnet`).
-/

namespace LinuxIPC

open CString

def dot : UInt8 := 46

def slash : UInt8 := 47

/-- The `strsep` loop of `read_ip_address_from_buffer` over the tokens to come: the number of
groups read, `none` for the jump to `clean_fail`. -/
def countGroups (errno : ℤ) : List (List UInt8) → ℕ → Option ℕ
  | [], gpCount => some gpCount
  | token :: rest, gpCount =>
    match readIntFromBuffer errno token with
    | none => none
    | some ipGp =>
      if ipGp < ipAddrMin ∨ ipGp > ipAddrMax then none
      else countGroups errno rest (gpCount + 1)

def readIpAddressFromBuffer (amb : Ambient) (ipAddress : List UInt8) : Bool :=
  if strchr ipAddress dot = none then false
  else
    let buffer := strndup ipAddress ipAddrLen
    match countGroups amb.errno (strsepTokens dot buffer) 0 with
    | none => false
    | some gpCount => gpCount = ipAddrGp

def toU16 (v : ℤ) : UInt16 := UInt16.ofNat (v % 2 ^ 16).toNat

structure SubnetRead where
  ok : Bool
  ipAddress : CharArray ipAddrLen
  mask : UInt16
  deriving DecidableEq, Repr

def readSubnetTokens (amb : Ambient) :
    List (List UInt8) → ℕ → CharArray ipAddrLen → UInt16 → SubnetRead
  | [], _, ipAddress, mask => ⟨true, ipAddress, mask⟩
  | token :: rest, tokenCount, ipAddress, mask =>
    if tokenCount + 1 > 2 then ⟨false, ipAddress, mask⟩
    else if tokenCount + 1 = 1 then
      let buffer := strncpy ipAddrLen token
      if !readIpAddressFromBuffer amb (buffer.bytes ++ amb.stack) then ⟨false, ipAddress, mask⟩
      else readSubnetTokens amb rest (tokenCount + 1) (strncpy ipAddrLen token) mask
    else
      match readIntFromBuffer amb.errno token with
      | none => ⟨false, ipAddress, mask⟩
      | some mask' =>
        if mask' < maskMin ∨ mask' > maskMax then ⟨false, ipAddress, mask⟩
        else readSubnetTokens amb rest (tokenCount + 1) ipAddress (toU16 mask')

def readDestinationSubnetFromBuffer (amb : Ambient) (dstSubnet : List UInt8)
    (ipAddress : CharArray ipAddrLen) (mask : UInt16) : SubnetRead :=
  if strchr dstSubnet slash = none then ⟨false, ipAddress, mask⟩
  else readSubnetTokens amb (strsepTokens slash (cstr dstSubnet)) 0 ipAddress mask

/-- Is the text an address, going by its first `ipAddrLen` characters? -/
def validAddress (text : List UInt8) : Bool :=
  countGroups 0 (strsepTokens dot (text.take ipAddrLen)) 0 = some ipAddrGp

def parseMask (text : List UInt8) : Option UInt16 :=
  match readIntFromBuffer 0 text with
  | none => none
  | some mask => if mask < maskMin ∨ mask > maskMax then none else some (toU16 mask)

/-- The address and the mask that a line stores when it is accepted as a subnet. -/
def parseSubnet (text : List UInt8) : Option (CharArray ipAddrLen × UInt16) :=
  match strsepTokens slash text with
  | [address, mask] =>
    if validAddress address then (parseMask mask).map fun m => (strncpy ipAddrLen address, m)
    else none
  | _ => none

def addressText (text : List UInt8) : List UInt8 := text.takeWhile (· ≠ slash)

def maskText (text : List UInt8) : List UInt8 := (text.dropWhile (· ≠ slash)).tail

theorem countGroups_errno (errno errno' : ℤ) (tokens : List (List UInt8)) (gpCount : ℕ) :
    countGroups errno tokens gpCount = countGroups errno' tokens gpCount := by
  induction tokens generalizing gpCount with
  | nil => rfl
  | cons token rest ih => simp only [countGroups, readIntFromBuffer_errno errno errno', ih]

theorem countGroups_eq_some {errno : ℤ} {tokens : List (List UInt8)} {gpCount n : ℕ}
    (h : countGroups errno tokens gpCount = some n) : n = gpCount + tokens.length := by
  induction tokens generalizing gpCount with
  | nil => simpa [countGroups] using h.symm
  | cons token rest ih =>
      simp only [countGroups] at h
      cases hread : readIntFromBuffer errno token with
      | none => simp [hread] at h
      | some ipGp =>
          simp only [hread] at h
          split_ifs at h
          have hn := ih h
          rw [List.length_cons]
          omega

/-- The test for a dot before the loop only anticipates the count of the groups. -/
theorem dot_mem_of_validAddress {text : List UInt8} (h : validAddress text = true) :
    dot ∈ text := by
  by_contra hdot
  have htake : dot ∉ text.take ipAddrLen := fun hmem => hdot (List.mem_of_mem_take hmem)
  rw [validAddress, strsepTokens, List.splitOn_eq_singleton htake, decide_eq_true_eq] at h
  have hcount := countGroups_eq_some h
  simp at hcount

theorem readIpAddressFromBuffer_eq (amb : Ambient) (m : List UInt8) :
    readIpAddressFromBuffer amb m = validAddress (cstr m) := by
  by_cases hdot : dot ∈ cstr m
  · have hchr : strchr m dot ≠ none := fun h => (strchr_eq_none_iff m dot).mp h hdot
    simp only [readIpAddressFromBuffer, if_neg hchr, strndup, validAddress,
      countGroups_errno amb.errno 0]
    cases countGroups 0 (strsepTokens dot ((cstr m).take ipAddrLen)) 0 <;> simp
  · have hfalse : validAddress (cstr m) = false := by
      rw [← Bool.not_eq_true]
      exact fun hv => hdot (dot_mem_of_validAddress hv)
    rw [readIpAddressFromBuffer, if_pos ((strchr_eq_none_iff m dot).mpr hdot), hfalse]

theorem validAddress_take (text : List UInt8) :
    validAddress (text.take ipAddrLen) = validAddress text := by
  simp only [validAddress, List.take_take, min_self]

/-- The scan of the local copy may run past it, but not to a different verdict. -/
theorem readIpAddressFromBuffer_strncpy (amb : Ambient) (token stack : List UInt8) :
    readIpAddressFromBuffer amb ((strncpy ipAddrLen token).bytes ++ stack) =
      validAddress (cstr token) := by
  have hcopy := strncpy_append (strncpy ipAddrLen token) stack
  have htext := congrArg CharArray.text (hcopy.trans (padded_strncpy ipAddrLen token))
  rw [text_strncpy, text_strncpy] at htext
  rw [readIpAddressFromBuffer_eq, ← validAddress_take, htext, validAddress_take]

theorem cstr_token {delim : UInt8} {m token : List UInt8}
    (h : token ∈ strsepTokens delim (cstr m)) : cstr token = token :=
  cstr_eq_self fun hz => zero_notMem_cstr m (mem_of_mem_strsepTokens h hz)

theorem readSubnetTokens_address (amb : Ambient) {token : List UInt8} (h : cstr token = token)
    (rest : List (List UInt8)) (ipAddress : CharArray ipAddrLen) (mask : UInt16) :
    readSubnetTokens amb (token :: rest) 0 ipAddress mask =
      if validAddress token then readSubnetTokens amb rest 1 (strncpy ipAddrLen token) mask
      else ⟨false, ipAddress, mask⟩ := by
  simp only [readSubnetTokens, readIpAddressFromBuffer_strncpy, h]
  cases validAddress token <;> simp

theorem readSubnetTokens_mask (amb : Ambient) (token : List UInt8) (rest : List (List UInt8))
    (ipAddress : CharArray ipAddrLen) (mask : UInt16) :
    readSubnetTokens amb (token :: rest) 1 ipAddress mask =
      match parseMask token with
      | none => ⟨false, ipAddress, mask⟩
      | some k => readSubnetTokens amb rest 2 ipAddress k := by
  simp only [readSubnetTokens, parseMask, readIntFromBuffer_errno amb.errno 0]
  cases readIntFromBuffer 0 token with
  | none => rfl
  | some v => by_cases hv : v < maskMin ∨ v > maskMax <;> simp [hv]

/-- On success the variables hold the parsed address and mask; a failure says nothing of them. -/
theorem readDestinationSubnetFromBuffer_spec (amb : Ambient) (m : List UInt8)
    (ipAddress : CharArray ipAddrLen) (mask : UInt16) :
    (∃ ip k, parseSubnet (cstr m) = some (ip, k) ∧
      readDestinationSubnetFromBuffer amb m ipAddress mask = ⟨true, ip, k⟩) ∨
    (parseSubnet (cstr m) = none ∧
      (readDestinationSubnetFromBuffer amb m ipAddress mask).ok = false) := by
  by_cases hslash : slash ∈ cstr m
  · have hchr : strchr m slash ≠ none := fun h => (strchr_eq_none_iff m slash).mp h hslash
    obtain ⟨second, rest, htokens⟩ := strsepTokens_eq_cons_cons hslash
    have hfirst := cstr_token (htokens ▸ List.mem_cons_self)
    rw [readDestinationSubnetFromBuffer, if_neg hchr, parseSubnet, htokens,
      readSubnetTokens_address amb hfirst, readSubnetTokens_mask]
    generalize (cstr m).takeWhile (· ≠ slash) = first
    cases hv : validAddress first with
    | false => cases rest <;> simp [hv]
    | true =>
        cases hk : parseMask second with
        | none => cases rest <;> simp [hv, hk]
        | some k => cases rest <;> simp [hv, hk, readSubnetTokens]
  · have hsingle : strsepTokens slash (cstr m) = [cstr m] := List.splitOn_eq_singleton hslash
    rw [readDestinationSubnetFromBuffer, if_pos ((strchr_eq_none_iff m slash).mpr hslash),
      parseSubnet, hsingle]
    exact Or.inr ⟨rfl, rfl⟩

theorem readDestinationSubnetFromBuffer_eq_iff (amb : Ambient) (m : List UInt8)
    (ipAddress ip : CharArray ipAddrLen) (mask k : UInt16) :
    readDestinationSubnetFromBuffer amb m ipAddress mask = ⟨true, ip, k⟩ ↔
      parseSubnet (cstr m) = some (ip, k) := by
  obtain ⟨ip', k', hparse, hread⟩ | ⟨hnone, hrefused⟩ :=
    readDestinationSubnetFromBuffer_spec amb m ipAddress mask
  · rw [hread, hparse]
    simp
  · refine iff_of_false (fun h => ?_) (by simp [hnone])
    rw [h] at hrefused
    exact absurd hrefused (by simp)

theorem slash_mem_of_parseSubnet {text : List UInt8} {p : CharArray ipAddrLen × UInt16}
    (h : parseSubnet text = some p) : slash ∈ text := by
  by_contra hmem
  have hsingle : strsepTokens slash text = [text] := List.splitOn_eq_singleton hmem
  simp [parseSubnet, hsingle] at h

theorem addressText_append_maskText {text : List UInt8} (h : slash ∈ text) :
    addressText text ++ slash :: maskText text = text := by
  induction text with
  | nil => simp at h
  | cons c text ih =>
      by_cases hc : c = slash
      · simp [addressText, maskText, hc]
      · have hmem : slash ∈ text := (List.mem_cons.mp h).resolve_left (Ne.symm hc)
        simpa [addressText, maskText, hc] using ih hmem

/-- The values stored for an accepted line, from the texts before and behind its only slash. -/
theorem parseSubnet_eq_some {text : List UInt8} {ip : CharArray ipAddrLen} {k : UInt16}
    (h : parseSubnet text = some (ip, k)) :
    validAddress (addressText text) = true ∧ ip = strncpy ipAddrLen (addressText text) ∧
      parseMask (maskText text) = some k := by
  have hslash := slash_mem_of_parseSubnet h
  have htokens := strsepTokens_eq_strsep slash text
  rw [strsep, if_pos hslash] at htokens
  change strsepTokens slash text = addressText text :: strsepTokens slash (maskText text) at htokens
  have hmask : [slash].intercalate (strsepTokens slash (maskText text)) = maskText text :=
    List.intercalate_splitOn slash
  rw [parseSubnet, htokens] at h
  rcases hrest : strsepTokens slash (maskText text) with _ | ⟨mask, _ | ⟨second, rest⟩⟩
  · simp [hrest] at h
  · have heq : mask = maskText text := by simpa [hrest] using hmask
    simp only [hrest, heq] at h
    split_ifs at h with hvalid
    obtain ⟨m, hm, hpair⟩ := Option.map_eq_some_iff.mp h
    simp only [Prod.mk.injEq] at hpair
    exact ⟨hvalid, hpair.1.symm, hpair.2 ▸ hm⟩
  · simp [hrest] at h

theorem toNat_toU16 {v : ℤ} (hlo : maskMin ≤ v) (hhi : v ≤ maskMax) : ((toU16 v).toNat : ℤ) = v := by
  simp only [maskMin, maskMax] at hlo hhi
  have hmod : (v % 2 ^ 16).toNat = v.toNat := by omega
  have hsize : v.toNat < 65536 := by omega
  have hnat : (UInt16.ofNat v.toNat).toNat = v.toNat := UInt16.toNat_ofNat_of_lt' hsize
  rw [toU16, hmod, hnat]
  omega

theorem parseMask_eq_some {text : List UInt8} {k : UInt16} (h : parseMask text = some k) :
    k.toNat ≤ 32 ∧ (k.toNat : ℤ) = (strtol 0 text).value := by
  rw [parseMask] at h
  cases hread : readIntFromBuffer 0 text with
  | none => simp [hread] at h
  | some v =>
      simp only [hread] at h
      split_ifs at h with hrange
      simp only [not_or, not_lt] at hrange
      have hvalue := toNat_toU16 hrange.1 hrange.2
      rw [← readIntFromBuffer_eq_some hread, ← Option.some.inj h]
      simp only [maskMax] at hrange
      exact ⟨by omega, hvalue⟩

end LinuxIPC
