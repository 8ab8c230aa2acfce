import LinuxIPC.Utils

/-!
# Routing records and synchronization messages (`rtm.h`)

A record is compared through pointers to its destination. The bytes that can be read from such a
pointer are the destination and, when it holds no NUL, the fields laid out behind it: the mask in
little-endian order, the gateway and the outgoing interface, without padding in between.
-/

namespace LinuxIPC

open CString

abbrev maskMin : ℤ := 0
abbrev maskMax : ℤ := 32
abbrev ipAddrLen : ℕ := 16
abbrev ipAddrGp : ℕ := 4
abbrev ipAddrMin : ℤ := 0
abbrev ipAddrMax : ℤ := 255
abbrev oifLen : ℕ := 32

structure MsgBody where
  destination : CharArray ipAddrLen
  mask : UInt16
  gatewayIp : CharArray ipAddrLen
  oif : CharArray oifLen
  deriving DecidableEq, Repr

inductive OpCode where
  | create
  | update
  | delete
  deriving DecidableEq, Repr

structure SyncMsg where
  opCode : OpCode
  msgBody : MsgBody
  deriving DecidableEq, Repr

/-- What the process may read without having written it: a block fresh from `malloc`, the bytes
behind a local array, and the value `errno` was left with. -/
structure Ambient where
  heap : MsgBody
  stack : List UInt8
  errno : ℤ

def Ambient.zero : Ambient where
  heap := ⟨strncpy ipAddrLen [], 0, strncpy ipAddrLen [], strncpy oifLen []⟩
  stack := []
  errno := 0

def maskBytes (mask : UInt16) : List UInt8 :=
  [UInt8.ofNat (mask.toNat % 256), UInt8.ofNat (mask.toNat / 256)]

namespace MsgBody

/-- The bytes from the pointer `record->destination` on, to the end of the record. -/
def fromDestination (record : MsgBody) : List UInt8 :=
  record.destination.bytes ++ (maskBytes record.mask ++ (record.gatewayIp.bytes ++ record.oif.bytes))

structure Padded (record : MsgBody) : Prop where
  destination : record.destination.Padded
  gatewayIp : record.gatewayIp.Padded
  oif : record.oif.Padded

structure ValidKey (record : MsgBody) : Prop where
  padded : record.destination.Padded
  mask_le : record.mask.toNat ≤ 32

structure Terminated (record : MsgBody) : Prop where
  destination : record.destination.Terminated
  gatewayIp : record.gatewayIp.Terminated
  oif : record.oif.Terminated

theorem Terminated.cstr_fromDestination {r : MsgBody} (h : r.Terminated) :
    cstr r.fromDestination = r.destination.text :=
  cstr_append_of_mem h.destination _

/-- A valid mask has a zero byte, so that reading from the destination stops before the gateway. -/
theorem ValidKey.cstr_fromDestination {r : MsgBody} (h : r.ValidKey) :
    cstr r.fromDestination = if r.destination.Terminated then r.destination.text
      else r.destination.bytes ++ cstr (maskBytes r.mask) := by
  have hmask : 0 ∈ maskBytes r.mask := by
    have hle := h.mask_le
    have hdiv : r.mask.toNat / 256 = 0 := by omega
    simp [maskBytes, hdiv]
  split_ifs with ht
  · exact cstr_append_of_mem ht _
  · rw [fromDestination, cstr_append_of_notMem ht, cstr_append_of_mem hmask]

theorem ValidKey.strcmp_eq_zero_iff {r r' : MsgBody} (h : r.ValidKey) (h' : r'.ValidKey)
    (hm : r.mask = r'.mask) :
    strcmp r.fromDestination r'.fromDestination = 0 ↔ r.destination = r'.destination := by
  rw [CString.strcmp_eq_zero_iff, h.cstr_fromDestination, h'.cstr_fromDestination, hm]
  have short : ∀ {a : CharArray ipAddrLen}, a.Terminated → a.text.length < ipAddrLen :=
    fun {a} ha => a.terminated_iff.mp ha
  constructor
  · intro heq
    split_ifs at heq with ht ht' ht'
    · exact h.padded.eq_of_text h'.padded heq
    · have hlen := congrArg List.length heq
      have hlt := short ht
      rw [List.length_append, r'.destination.size_eq] at hlen
      omega
    · have hlen := congrArg List.length heq
      have hlt := short ht'
      rw [List.length_append, r.destination.size_eq] at hlen
      omega
    · exact CharArray.ext_bytes (List.append_cancel_right heq)
  · intro heq
    rw [heq]

end MsgBody

end LinuxIPC
