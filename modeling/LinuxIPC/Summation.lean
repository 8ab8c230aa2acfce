import LinuxIPC.CString
import LinuxIPC.LittleEndian

/-!
# The summation server for one client (`no_multiplexing/server.c`)

A client writes ints to its socket, a 0 after the last, and the server answers with their sum. After
each `read` the server takes the first int of the buffer, which was zeroed before, for what the client
sent. An int that overflows wraps around.
-/

namespace LinuxIPC

open CString

abbrev bufferSize : ℕ := 128

structure Chunk where
  bytes : List UInt8
  length_le : bytes.length ≤ bufferSize
  deriving DecidableEq, Repr

def received (chunk : Chunk) : CharArray bufferSize where
  bytes := chunk.bytes ++ List.replicate (bufferSize - chunk.bytes.length) 0
  size_eq := by
    have hle := chunk.length_le
    rw [List.length_append, List.length_replicate]
    omega

def memcpyInt (buffer : CharArray bufferSize) : BitVec 32 :=
  BitVec.ofNat 32 (LittleEndian.value (buffer.bytes.take 4))

def intBytes (value : BitVec 32) : List UInt8 := LittleEndian.encode 4 value.toNat

def resultText (sum : BitVec 32) : String := "Result = " ++ toString sum.toInt

/-- What `memset` and `sprintf(buffer, "Result = %d", sum)` leave in the buffer. -/
def resultMessage (sum : BitVec 32) : CharArray bufferSize := strncpy bufferSize (ascii (resultText sum))

namespace NoMultiplexing

/-- `handle_service_request`, given what the calls of `read` deliver, none of which fails: the sum,
and what is not read; `none` while it waits for more. -/
def handleServiceRequest : List Chunk → BitVec 32 → Option (BitVec 32 × List Chunk)
  | [], _ => none
  | chunk :: chunks, sum =>
    let data := memcpyInt (received chunk)
    if data = 0 then some (sum, chunks) else handleServiceRequest chunks (sum + data)

/-- An iteration of the loop of `main`: the message the client gets, and what is not read. -/
def serve (chunks : List Chunk) : Option (CharArray bufferSize × List Chunk) :=
  (handleServiceRequest chunks 0).map fun p => (resultMessage p.1, p.2)

end NoMultiplexing

theorem memcpyInt_received (chunk : Chunk) :
    memcpyInt (received chunk) = BitVec.ofNat 32 (LittleEndian.value (chunk.bytes.take 4)) := by
  rw [memcpyInt, received, List.take_append, List.take_replicate, LittleEndian.value_append_zeros]

theorem length_intBytes (value : BitVec 32) : (intBytes value).length = 4 :=
  LittleEndian.length_encode 4 _

theorem memcpyInt_of_append {chunk : Chunk} {value : BitVec 32} {rest : List UInt8}
    (h : chunk.bytes = intBytes value ++ rest) : memcpyInt (received chunk) = value := by
  have hlt : value.toNat % 256 ^ 4 = value.toNat := Nat.mod_eq_of_lt value.isLt
  rw [memcpyInt_received, h, List.take_left' (length_intBytes value), intBytes,
    LittleEndian.value_encode, hlt, BitVec.ofNat_toNat, BitVec.setWidth_eq]

theorem eightBit_resultText (sum : BitVec 32) : EightBit (resultText sum) := by
  have hlit : EightBit "Result = " := by simp [EightBit]
  rw [resultText, Int.toString_eq_repr]
  exact hlit.append (eightBit_repr _)

theorem length_resultText_le (sum : BitVec 32) : (resultText sum).toList.length ≤ bufferSize := by
  have hlo := BitVec.le_two_mul_toInt (x := sum)
  have hhi := BitVec.two_mul_toInt_lt (x := sum)
  have hrepr : sum.toInt.repr.toList.length ≤ 11 := length_repr_le (by decide) (by omega)
  have hlit : "Result = ".toList.length = 9 := rfl
  rw [resultText, Int.toString_eq_repr, String.toList_append, List.length_append, hlit]
  exact (Nat.add_le_add_left hrepr 9).trans (by decide)

theorem resultMessage_injective : Function.Injective resultMessage := by
  intro sum sum' h
  have htext : resultText sum = resultText sum' :=
    (eightBit_resultText sum).eq_of_strncpy (eightBit_resultText sum') (length_resultText_le sum)
      (length_resultText_le sum') h
  rw [resultText, resultText, String.append_right_inj, Int.toString_eq_repr,
    Int.toString_eq_repr] at htext
  exact BitVec.toInt_inj.mp (Int.repr_injective htext)

namespace NoMultiplexing

def Running (reads : List Chunk) (sum : BitVec 32) : Prop :=
  ∀ more, handleServiceRequest (reads ++ more) 0 = handleServiceRequest more sum

theorem Running.nil : Running [] 0 := fun _ => rfl

theorem Running.add {reads : List Chunk} {sum : BitVec 32} {chunk : Chunk} (h : Running reads sum)
    (hdata : memcpyInt (received chunk) ≠ 0) :
    Running (reads ++ [chunk]) (sum + memcpyInt (received chunk)) := by
  intro more
  rw [List.append_assoc, h, List.singleton_append, handleServiceRequest]
  exact if_neg hdata

theorem Running.finish {reads : List Chunk} {sum : BitVec 32} {chunk : Chunk}
    (h : Running reads sum) (hdata : memcpyInt (received chunk) = 0) (more : List Chunk) :
    serve (reads ++ [chunk] ++ more) = some (resultMessage sum, more) := by
  rw [serve, List.append_assoc, h, List.singleton_append, handleServiceRequest]
  simp [hdata]

theorem Running.serve_eq_none {reads : List Chunk} {sum : BitVec 32} (h : Running reads sum) :
    serve reads = none := by
  have hreads := h []
  rw [List.append_nil] at hreads
  rw [serve, hreads]
  rfl

end NoMultiplexing

end LinuxIPC
