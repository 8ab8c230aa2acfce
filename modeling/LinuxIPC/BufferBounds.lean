import LinuxIPC.BoundedScan
import LinuxIPC.Console

/-!
# The bounds of the admin's buffer (`rtm_server.c`, `input.c`, `utils.c`)

The functions that `handle_admin_input` calls on its buffer, with indexing that fails outside the
array: the outer `none` of a result is a read behind the last byte of the buffer. Where the buffer
holds a NUL, each of them returns what the function of the same name does. Copies of the text that
the functions make on the stack or on the heap are no part of the buffer.
-/

namespace LinuxIPC

open CString

namespace Bounded

/-- `remove_newline`; the inner `none` is the wait for a newline that never comes. -/
def removeNewline (buffer stdin : List UInt8) : Option (Option (List UInt8 × List UInt8)) :=
  (Bounded.strchr buffer newline).map fun
    | some p => some (buffer.set p 0, stdin)
    | none => (flushStdin stdin).map fun rest => (buffer, rest)

def checkInt (errno : ℤ) (buffer : List UInt8) : Option Bool :=
  (Bounded.strtol errno buffer).bind fun r =>
    if r.endOffset = 0 then some false
    else
      (buffer[r.endOffset]?).map fun c =>
        if c ≠ 0 then false
        else if (r.value = longMin ∨ r.value = longMax) ∧ r.errno ≠ 0 then false
        else if r.value < intMin ∨ r.value > intMax then false
        else true

def readIntFromBuffer (errno : ℤ) (buffer : List UInt8) : Option (Option ℤ) :=
  (checkInt errno buffer).bind fun ok =>
    if ok then (Bounded.strtol errno buffer).map fun r => some (toInt r.value) else some none

def readIpAddressFromBuffer (amb : Ambient) (ipAddress : List UInt8) : Option Bool :=
  (Bounded.strchr ipAddress dot).bind fun p =>
    if p = none then some false
    else
      (Bounded.strndup ipAddress ipAddrLen).map fun buffer =>
        match countGroups amb.errno (strsepTokens dot buffer) 0 with
        | none => false
        | some gpCount => gpCount = ipAddrGp

/-- The `strsep` loop of `read_destination_subnet_from_buffer`, with the pointer `dst_subnet` into
the buffer, which is `none` behind the last token. -/
def readSubnetTokens (amb : Ambient) (dstSubnet : Option (List UInt8)) (tokenCount : ℕ)
    (ipAddress : CharArray ipAddrLen) (mask : UInt16) : Option SubnetRead :=
  match dstSubnet with
  | none => some ⟨true, ipAddress, mask⟩
  | some s =>
    (Bounded.strsep slash s).bind fun (token, dstSubnet) =>
      if tokenCount + 1 > 2 then some ⟨false, ipAddress, mask⟩
      else if tokenCount + 1 = 1 then
        (Bounded.strncpy ipAddrLen token).bind fun buffer =>
          if !LinuxIPC.readIpAddressFromBuffer amb (buffer.bytes ++ amb.stack) then
            some ⟨false, ipAddress, mask⟩
          else
            (Bounded.strncpy ipAddrLen token).bind fun ipAddress =>
              readSubnetTokens amb dstSubnet (tokenCount + 1) ipAddress mask
      else
        (readIntFromBuffer amb.errno token).bind fun
          | none => some ⟨false, ipAddress, mask⟩
          | some mask' =>
            if mask' < maskMin ∨ mask' > maskMax then some ⟨false, ipAddress, mask⟩
            else readSubnetTokens amb dstSubnet (tokenCount + 1) ipAddress (toU16 mask')
termination_by 3 - tokenCount

def readDestinationSubnetFromBuffer (amb : Ambient) (dstSubnet : List UInt8)
    (ipAddress : CharArray ipAddrLen) (mask : UInt16) : Option SubnetRead :=
  (Bounded.strchr dstSubnet slash).bind fun p =>
    if p = none then some ⟨false, ipAddress, mask⟩
    else readSubnetTokens amb (some dstSubnet) 0 ipAddress mask

def enterSubnet (refused : Bool → Bool) (refusal : ErrorMessage) (amb : Ambient) (a : Admin)
    (buffer : List UInt8) : Option (Admin × Option ErrorMessage) :=
  (readDestinationSubnetFromBuffer amb buffer a.record.destination a.record.mask).map fun r =>
    let a := { a with record := { a.record with destination := r.ipAddress, mask := r.mask } }
    if !r.ok then (a, some .incorrectSubnet)
    else if refused (routingTableContainsDstSubnet a.rtm a.record.fromDestination a.record.mask) then
      (a, some refusal)
    else (a, none)

def enterRecord (refused : Bool → Bool) (refusal : ErrorMessage) (opCode : OpCode)
    (operation : RoutingTable → MsgBody → RoutingTable × Bool) (amb : Ambient) (a : Admin)
    (buffer : List UInt8) : Option Answer :=
  match a.entry with
  | .subnet =>
    (enterSubnet refused refusal amb a buffer).map fun
      | (a, some message) => ⟨a, .error message, none⟩
      | (a, none) => ⟨{ a with entry := .gateway }, .prompt, none⟩
  | .gateway =>
    (readIpAddressFromBuffer amb buffer).bind fun ok =>
      if !ok then some ⟨a, .error .incorrectIp, none⟩
      else
        (Bounded.strncpy ipAddrLen buffer).map fun gatewayIp =>
          ⟨{ a with record := { a.record with gatewayIp := gatewayIp }, entry := .oif }, .prompt,
            none⟩
  | .oif =>
    (Bounded.strlen buffer).bind fun length =>
      if length > oifLen then some ⟨a, .error .invalidOif, none⟩
      else
        (Bounded.strncpy oifLen buffer).map fun oif =>
          let record := { a.record with oif := oif }
          let (rtm, ok) := operation a.rtm record
          ⟨{ rtm := rtm, state := .idle, entry := .subnet, record := record }, .finished opCode ok,
            some (prepareSynchronizationMessage opCode record)⟩
  | .other _ => some ⟨a, .error .unknownEntryType, none⟩

def createRecord (amb : Ambient) (a : Admin) (buffer : List UInt8) : Option Answer :=
  enterRecord id .alreadyContained .create (routingTableInsert amb) amb a buffer

def updateRecord (amb : Ambient) (a : Admin) (buffer : List UInt8) : Option Answer :=
  enterRecord not .notContained .update routingTableUpdate amb a buffer

def deleteRecord (amb : Ambient) (a : Admin) (buffer : List UInt8) : Option Answer :=
  (enterSubnet not .notContained amb a buffer).map fun
    | (a, some message) => ⟨a, .error message, none⟩
    | (a, none) =>
      let r := routingTableDelete a.rtm a.record
      ⟨{ a with rtm := r.table, state := .idle }, .finished .delete r.ok,
        some (prepareSynchronizationMessage .delete a.record)⟩

def chooseOperation (a : Admin) (buffer : List UInt8) : Option Answer :=
  (Bounded.strlen buffer).bind fun length =>
    if length ≠ 1 then
      (Bounded.strlen buffer).map fun length => ⟨a, .unknownOption (buffer.take length), none⟩
    else
      (buffer[0]?).map fun option =>
        if a.rtm.length = 0 ∧ !isLetter option 'c' 'C' ∧ !isLetter option 'q' 'Q' then
          ⟨a, .unknownOption [option], none⟩
        else if isLetter option 'c' 'C' then
          ⟨{ a with state := .creating, entry := .subnet }, .menu, none⟩
        else if isLetter option 'u' 'U' then
          ⟨{ a with state := .updating, entry := .subnet }, .menu, none⟩
        else if isLetter option 'd' 'D' then
          ⟨{ a with state := .deleting, entry := .subnet }, .menu, none⟩
        else if isLetter option 'p' 'P' then ⟨{ a with entry := .subnet }, .printed, none⟩
        else if isLetter option 'q' 'Q' then ⟨a, .shutdown, none⟩
        else ⟨{ a with entry := .subnet }, .unknownOption [option], none⟩

def handleAdminLine (amb : Ambient) (a : Admin) (buffer : List UInt8) : Option Answer :=
  match a.state with
  | .idle => chooseOperation a buffer
  | .creating => createRecord amb a buffer
  | .updating => updateRecord amb a buffer
  | .deleting => deleteRecord amb a buffer

def handleAdminInput (amb : Ambient) (a : Admin) (buffer stdin : List UInt8) :
    Option (Option (Answer × List UInt8)) :=
  (removeNewline buffer stdin).bind fun
    | none => some none
    | some (buffer, stdin) => (handleAdminLine amb a buffer).map fun answer => some (answer, stdin)

theorem checkInt_of_mem {buffer : List UInt8} (h : 0 ∈ buffer) (errno : ℤ) :
    checkInt errno buffer = some (LinuxIPC.checkInt errno buffer) := by
  have hchar := Bounded.getElem_of_le_strlen h (Bounded.endOffset_le_strlen errno buffer)
  rw [checkInt, Bounded.strtol_of_mem h, Option.bind_some, hchar, Option.map_some]
  by_cases hend : (strtol errno buffer).endOffset = 0
  · simp only [hend, if_true, LinuxIPC.checkInt]
  · simp only [hend, if_false, LinuxIPC.checkInt]

theorem readIntFromBuffer_of_mem {buffer : List UInt8} (h : 0 ∈ buffer) (errno : ℤ) :
    readIntFromBuffer errno buffer = some (LinuxIPC.readIntFromBuffer errno buffer) := by
  rw [readIntFromBuffer, checkInt_of_mem h, Bounded.strtol_of_mem h, Option.bind_some,
    LinuxIPC.readIntFromBuffer]
  split_ifs <;> rfl

theorem readIpAddressFromBuffer_of_mem {ipAddress : List UInt8} (h : 0 ∈ ipAddress)
    (amb : Ambient) :
    readIpAddressFromBuffer amb ipAddress =
      some (LinuxIPC.readIpAddressFromBuffer amb ipAddress) := by
  rw [readIpAddressFromBuffer, Bounded.strchr_of_mem (Or.inl h), Bounded.strndup_of_mem h, Option.bind_some,
    LinuxIPC.readIpAddressFromBuffer]
  split_ifs <;> rfl

/-- The tokens are those of the string, whatever the delimiters overwritten. -/
theorem readSubnetTokens_of_mem (amb : Ambient) (dstSubnet : Option (List UInt8))
    (h : ∀ s ∈ dstSubnet, 0 ∈ s) (tokenCount : ℕ) (ipAddress : CharArray ipAddrLen)
    (mask : UInt16) :
    readSubnetTokens amb dstSubnet tokenCount ipAddress mask =
      some (LinuxIPC.readSubnetTokens amb ((dstSubnet.map cstr).elim [] (strsepTokens slash))
        tokenCount ipAddress mask) := by
  cases dstSubnet with
  | none =>
      rw [readSubnetTokens]
      rfl
  | some s =>
      obtain ⟨token, next, hstrsep, hzero, htoken, hnext, hrest⟩ :=
        Bounded.strsep_of_mem (h s rfl) (by decide : slash ≠ 0)
      have hint : LinuxIPC.readIntFromBuffer amb.errno token =
          LinuxIPC.readIntFromBuffer amb.errno (strsep slash (cstr s)).1 :=
        htoken ▸ readIntFromBuffer_congr amb.errno (cstr_cstr token).symm
      have hcopy : strncpy ipAddrLen token = strncpy ipAddrLen (strsep slash (cstr s)).1 :=
        htoken ▸ strncpy_congr (cstr_cstr token).symm
      rw [readSubnetTokens, hstrsep, Option.bind_some, Option.map_some, Option.elim_some,
        strsepTokens_eq_strsep, ← hrest, LinuxIPC.readSubnetTokens]
      dsimp only
      by_cases hcount : tokenCount + 1 > 2
      · rw [if_pos hcount, if_pos hcount]
      rw [if_neg hcount, if_neg hcount]
      by_cases hfirst : tokenCount + 1 = 1
      · rw [if_pos hfirst, if_pos hfirst, Bounded.strncpy_of_mem hzero, Option.bind_some, Option.bind_some,
          hcopy]
        split_ifs
        · rfl
        · exact readSubnetTokens_of_mem amb next hnext _ _ _
      · rw [if_neg hfirst, if_neg hfirst, readIntFromBuffer_of_mem hzero, Option.bind_some, hint]
        cases LinuxIPC.readIntFromBuffer amb.errno (strsep slash (cstr s)).1 with
        | none => rfl
        | some mask' =>
            dsimp only
            split_ifs
            · rfl
            · exact readSubnetTokens_of_mem amb next hnext _ _ _
termination_by 3 - tokenCount

theorem readDestinationSubnetFromBuffer_of_mem {dstSubnet : List UInt8} (h : 0 ∈ dstSubnet)
    (amb : Ambient) (ipAddress : CharArray ipAddrLen) (mask : UInt16) :
    readDestinationSubnetFromBuffer amb dstSubnet ipAddress mask =
      some (LinuxIPC.readDestinationSubnetFromBuffer amb dstSubnet ipAddress mask) := by
  have htokens := readSubnetTokens_of_mem amb (some dstSubnet)
    (fun s hs => Option.mem_some.mp hs ▸ h) 0 ipAddress mask
  rw [readDestinationSubnetFromBuffer, Bounded.strchr_of_mem (Or.inl h), Option.bind_some, htokens,
    LinuxIPC.readDestinationSubnetFromBuffer]
  split_ifs <;> rfl

theorem enterSubnet_of_mem {buffer : List UInt8} (h : 0 ∈ buffer) (refused : Bool → Bool)
    (refusal : ErrorMessage) (amb : Ambient) (a : Admin) :
    enterSubnet refused refusal amb a buffer =
      some (LinuxIPC.enterSubnet refused refusal amb a buffer) := by
  rw [enterSubnet, readDestinationSubnetFromBuffer_of_mem h]
  rfl

theorem enterRecord_of_mem {buffer : List UInt8} (h : 0 ∈ buffer) (refused : Bool → Bool)
    (refusal : ErrorMessage) (opCode : OpCode)
    (operation : RoutingTable → MsgBody → RoutingTable × Bool) (amb : Ambient) (a : Admin) :
    enterRecord refused refusal opCode operation amb a buffer =
      some (LinuxIPC.enterRecord refused refusal opCode operation amb a buffer) := by
  rw [enterRecord, LinuxIPC.enterRecord]
  cases a.entry with
  | subnet =>
      simp only [enterSubnet_of_mem h]
      rcases LinuxIPC.enterSubnet refused refusal amb a buffer with ⟨a', _ | message⟩ <;> rfl
  | gateway =>
      simp only [readIpAddressFromBuffer_of_mem h, Bounded.strncpy_of_mem h, Option.bind_some]
      split_ifs <;> rfl
  | oif =>
      simp only [Bounded.strlen_of_mem h, Bounded.strncpy_of_mem h, Option.bind_some]
      split_ifs <;> rfl
  | other value => rfl

theorem deleteRecord_of_mem {buffer : List UInt8} (h : 0 ∈ buffer) (amb : Ambient) (a : Admin) :
    deleteRecord amb a buffer = some (LinuxIPC.deleteRecord amb a buffer) := by
  rw [deleteRecord, LinuxIPC.deleteRecord, enterSubnet_of_mem h]
  rcases LinuxIPC.enterSubnet not .notContained amb a buffer with ⟨a', _ | message⟩ <;> rfl

theorem chooseOperation_of_mem {buffer : List UInt8} (h : 0 ∈ buffer) (a : Admin) :
    chooseOperation a buffer = some (LinuxIPC.chooseOperation a buffer) := by
  have htext : buffer.take (strlen buffer) = cstr buffer :=
    (List.prefix_iff_eq_take.mp (List.takeWhile_prefix _)).symm
  have hfirst := Bounded.getElem_of_le_strlen h (Nat.zero_le _)
  rw [chooseOperation, LinuxIPC.chooseOperation, Bounded.strlen_of_mem h, Option.bind_some,
    Option.map_some, htext, hfirst]
  split_ifs <;> rfl

theorem handleAdminLine_of_mem {buffer : List UInt8} (h : 0 ∈ buffer) (amb : Ambient) (a : Admin) :
    handleAdminLine amb a buffer = some (LinuxIPC.handleAdminLine amb a buffer) := by
  rw [handleAdminLine, LinuxIPC.handleAdminLine]
  cases a.state with
  | idle => exact chooseOperation_of_mem h a
  | creating => exact enterRecord_of_mem h _ _ _ _ _ _
  | updating => exact enterRecord_of_mem h _ _ _ _ _ _
  | deleting => exact deleteRecord_of_mem h amb a

theorem removeNewline_of_mem {buffer : List UInt8} (h : 0 ∈ buffer ∨ newline ∈ buffer)
    (stdin : List UInt8) :
    removeNewline buffer stdin = some (LinuxIPC.removeNewline buffer stdin) := by
  rw [removeNewline, LinuxIPC.removeNewline, Bounded.strchr_of_mem h]
  cases strchr buffer newline <;> rfl

/-- A newline is overwritten with a NUL, and without a newline there was one before. -/
theorem zero_mem_of_removeNewline {buffer stdin buffer' rest : List UInt8}
    (h : 0 ∈ buffer ∨ newline ∈ buffer)
    (hremove : LinuxIPC.removeNewline buffer stdin = some (buffer', rest)) : 0 ∈ buffer' := by
  rw [LinuxIPC.removeNewline] at hremove
  cases hp : strchr buffer newline with
  | some p =>
      simp only [hp, Option.some.injEq, Prod.mk.injEq] at hremove
      obtain ⟨rfl, -⟩ := hremove
      have hlt : p < (cstr buffer).length := by
        rw [strchr, List.idxOf?_eq_some_iff] at hp
        exact hp.1
      exact List.mem_set (hlt.trans_le (length_cstr_le buffer)) 0
  | none =>
      simp only [hp, Option.map_eq_some_iff, Prod.mk.injEq] at hremove
      obtain ⟨_, -, rfl, -⟩ := hremove
      by_contra hzero
      have hnone : newline ∉ cstr buffer := (strchr_eq_none_iff buffer newline).mp hp
      rw [cstr_eq_self hzero] at hnone
      exact h.elim hzero hnone

/-- On a buffer with a NUL or a newline the two readings of the source agree. -/
theorem handleAdminInput_of_mem {buffer : List UInt8} (h : 0 ∈ buffer ∨ newline ∈ buffer)
    (amb : Ambient) (a : Admin) (stdin : List UInt8) :
    handleAdminInput amb a buffer stdin = some (LinuxIPC.handleAdminInput amb a buffer stdin) := by
  rw [handleAdminInput, LinuxIPC.handleAdminInput, removeNewline_of_mem h, Option.bind_some]
  rcases hremove : LinuxIPC.removeNewline buffer stdin with _ | ⟨buffer', rest⟩
  · rfl
  · dsimp only
    rw [handleAdminLine_of_mem (zero_mem_of_removeNewline h hremove)]
    rfl

theorem handleAdminInput_ne_none_iff (amb : Ambient) (a : Admin) (buffer stdin : List UInt8) :
    handleAdminInput amb a buffer stdin ≠ none ↔ 0 ∈ buffer ∨ newline ∈ buffer := by
  constructor
  · intro hne
    by_contra h
    rw [not_or] at h
    have hnone := Bounded.strchr_eq_none_iff.mpr h
    rw [handleAdminInput, removeNewline, hnone] at hne
    exact hne rfl
  · intro h
    rw [handleAdminInput_of_mem h]
    exact Option.some_ne_none _

end Bounded

structure AdminChunk where
  bytes : List UInt8
  length_le : bytes.length ≤ bufSize

def AdminChunk.received (chunk : AdminChunk) (buffer : CharArray bufSize) : CharArray bufSize :=
  (memset buffer bufSize).store chunk.bytes

theorem AdminChunk.bytes_received (chunk : AdminChunk) (buffer : CharArray bufSize) :
    (chunk.received buffer).bytes =
      chunk.bytes ++ List.replicate (bufSize - chunk.bytes.length) 0 := by
  have hzeros : (memset buffer bufSize).bytes = List.replicate bufSize 0 := by
    rw [memset, buffer.bytes_store (by simp), List.length_replicate,
      List.drop_of_length_le buffer.size_eq.le, List.append_nil]
  rw [AdminChunk.received, CharArray.bytes_store _ chunk.length_le, hzeros, List.drop_replicate]

/-- Only a chunk that fills the buffer, with neither a NUL nor a newline, is scanned past its end. -/
theorem admin_buffer_scans_in_bounds (amb : Ambient) (a : Admin) (buffer : CharArray bufSize)
    (chunk : AdminChunk) (stdin : List UInt8) :
    Bounded.handleAdminInput amb a (chunk.received buffer).bytes stdin ≠ none ↔
      chunk.bytes.length < bufSize ∨ 0 ∈ chunk.bytes ∨ newline ∈ chunk.bytes := by
  have hpad : ∀ c : UInt8, c ∈ (chunk.received buffer).bytes ↔
      c ∈ chunk.bytes ∨ chunk.bytes.length < bufSize ∧ c = 0 := by
    intro c
    rw [chunk.bytes_received, List.mem_append, List.mem_replicate, Nat.sub_ne_zero_iff_lt]
  have hnewline : newline ≠ 0 := by decide
  rw [Bounded.handleAdminInput_ne_none_iff, hpad, hpad]
  simp only [hnewline, and_true, and_false, or_false]
  tauto

def fullChunk : AdminChunk := ⟨List.replicate bufSize (UInt8.ofNat 'a'.toNat), by simp⟩

theorem admin_buffer_scanned_past_end :
    let record : MsgBody :=
      ⟨strncpy ipAddrLen [], 0, strncpy ipAddrLen [], strncpy oifLen []⟩
    Bounded.handleAdminInput Ambient.zero (Console.init .subnet record).admin
      (fullChunk.received (strncpy bufSize [])).bytes (ascii "aaaaaaaa\n") = none := by
  decide

end LinuxIPC
