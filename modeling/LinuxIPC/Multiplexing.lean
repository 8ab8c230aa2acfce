import LinuxIPC.FdSet
import LinuxIPC.Runs
import LinuxIPC.Summation

/-!
# The summation server for several clients (`multiplexing/server.c`)

The sums are kept by slots of the table of monitored descriptors. Beside the variables of the server
and its open descriptors stands the history of each connection: what was read from its socket, and
what was written to it. No connection shares its descriptor with another that is open, and so the
history goes by descriptors.

The service loop also calls `FD_ISSET` on the -1 of free slots, where the behaviour is undefined, and
`FD_SET` has no room for descriptors from `FD_SETSIZE` on. Here a membership test on a free slot is
false, and the monitored descriptors are taken to be below `FD_SETSIZE`.
-/

namespace LinuxIPC

open CString SlotTable Runs

namespace Multiplexing

structure Connection where
  dataSocket : ℤ
  isOpen : Bool
  reads : List Chunk
  written : List (CharArray bufferSize)
  deriving DecidableEq, Repr

structure Server where
  monitored : FdSet
  clientResult : Vector (BitVec 32) maxClients
  connectionSocket : ℤ
  openFds : List ℤ
  connections : List Connection

/-- What an iteration of the main loop meets: the descriptors with something to read, the
descriptor for `accept` to return, and what `read` delivers from each descriptor, `none` for a
failure. -/
structure Wakeup where
  ready : List ℤ
  dataSocket : ℤ
  data : ℤ → Option Chunk

def Server.init (launch : Launch) : Server where
  monitored := launch.initialFdSet
  clientResult := Vector.replicate maxClients 0
  connectionSocket := launch.connectionSocket
  openFds := launch.connectionSocket :: launch.openFds
  connections := []

def Server.accepted (s : Server) (dataSocket : ℤ) : Server :=
  { s with
    monitored := addToMonitoredFdSet s.monitored dataSocket
    openFds := dataSocket :: s.openFds
    connections := s.connections ++ [⟨dataSocket, true, [], []⟩] }

/-- `handle_connection_initiation_request`; `none` for `error_and_exit`. -/
def handleConnectionInitiationRequest (w : Wakeup) (s : Server) : Option Server :=
  (accept s.openFds w.dataSocket).map s.accepted

def Connection.Owns (c : Connection) (fd : ℤ) : Prop := c.isOpen = true ∧ c.dataSocket = fd

instance (c : Connection) (fd : ℤ) : Decidable (c.Owns fd) :=
  inferInstanceAs (Decidable (_ ∧ _))

def Connection.afterRead (c : Connection) (chunk : Chunk) : Connection :=
  { c with reads := c.reads ++ [chunk] }

def Connection.afterResult (c : Connection) (result : CharArray bufferSize) : Connection :=
  { c with written := c.written ++ [result], isOpen := false }

def onSocket (fd : ℤ) (f : Connection → Connection) (connections : List Connection) :
    List Connection :=
  connections.map fun c => if c.Owns fd then f c else c

def Server.added (s : Server) (i : Fin maxClients) (chunk : Chunk) : Server :=
  { s with
    connections := onSocket (s.monitored.slot i) (fun c => c.afterRead chunk) s.connections
    clientResult := s.clientResult.set i (s.clientResult[i] + memcpyInt (received chunk)) }

def Server.finished (s : Server) (i : Fin maxClients) (chunk : Chunk) : Server :=
  { s with
    connections := onSocket (s.monitored.slot i)
      (fun c => (c.afterRead chunk).afterResult (resultMessage s.clientResult[i])) s.connections
    openFds := s.openFds.filter (· ≠ s.monitored.slot i)
    clientResult := s.clientResult.set i 0
    monitored := removeFromMonitoredFdSet s.monitored (s.monitored.slot i) }

/-- One iteration of the loop of `handle_service_request`. The test of a free slot, `FD_ISSET(-1, ...)`,
is false here: there are only monitored descriptors in `readfds`. -/
def serveSlot (w : Wakeup) (readfds : List ℤ) (s : Server) (i : Fin maxClients) : Option Server :=
  let commSocketFd := s.monitored.slot i
  if commSocketFd ∈ readfds then
    match w.data commSocketFd with
    | none => none
    | some chunk =>
      let data := memcpyInt (received chunk)
      -- a failing `write` of the result is only reported
      if data = 0 then some (s.finished i chunk) else some (s.added i chunk)
  else some s

/-- `handle_service_request`; `none` for `error_and_exit`. -/
def handleServiceRequest (w : Wakeup) (readfds : List ℤ) (s : Server) : Option Server :=
  run (serveSlot w readfds) s (List.finRange maxClients)

/-- One iteration of the loop of `main`. -/
def serverStep (s : Server) (w : Wakeup) : Option Server :=
  let readfds := s.monitored.selected w.ready
  if s.connectionSocket ∈ readfds then handleConnectionInitiationRequest w s
  else if 0 ∈ readfds then (w.data 0).map fun _ => s
  else handleServiceRequest w readfds s

inductive SlotEffect (w : Wakeup) (readfds : List ℤ) (s : Server) (i : Fin maxClients) :
    Server → Prop where
  | skipped (hready : s.monitored.slot i ∉ readfds) : SlotEffect w readfds s i s
  | added (chunk : Chunk) (hready : s.monitored.slot i ∈ readfds)
      (hread : w.data (s.monitored.slot i) = some chunk) (hdata : memcpyInt (received chunk) ≠ 0) :
      SlotEffect w readfds s i (s.added i chunk)
  | finished (chunk : Chunk) (hready : s.monitored.slot i ∈ readfds)
      (hread : w.data (s.monitored.slot i) = some chunk) (hdata : memcpyInt (received chunk) = 0) :
      SlotEffect w readfds s i (s.finished i chunk)

theorem serveSlot_effect {w : Wakeup} {readfds : List ℤ} {s s' : Server} {i : Fin maxClients}
    (hserve : serveSlot w readfds s i = some s') : SlotEffect w readfds s i s' := by
  unfold serveSlot at hserve
  by_cases hready : s.monitored.slot i ∈ readfds
  · rw [if_pos hready] at hserve
    cases hread : w.data (s.monitored.slot i) with
    | none => simp [hread] at hserve
    | some chunk =>
        simp only [hread] at hserve
        split_ifs at hserve with hdata
        · exact Option.some.inj hserve ▸ SlotEffect.finished chunk hready hread hdata
        · exact Option.some.inj hserve ▸ SlotEffect.added chunk hready hread hdata
  · rw [if_neg hready] at hserve
    exact Option.some.inj hserve ▸ SlotEffect.skipped hready

theorem Server.clientResult_added (s : Server) (i : Fin maxClients) (chunk : Chunk) :
    (s.added i chunk).clientResult[i] = s.clientResult[i] + memcpyInt (received chunk) :=
  Vector.getElem_set_self i.isLt

theorem Server.clientResult_added_of_ne (s : Server) {i j : Fin maxClients} (chunk : Chunk)
    (hij : i ≠ j) : (s.added i chunk).clientResult[j] = s.clientResult[j] :=
  Vector.getElem_set_ne i.isLt j.isLt (Fin.val_ne_of_ne hij)

theorem Server.clientResult_finished (s : Server) (i : Fin maxClients) (chunk : Chunk) :
    (s.finished i chunk).clientResult[i] = 0 :=
  Vector.getElem_set_self i.isLt

theorem Server.clientResult_finished_of_ne (s : Server) {i j : Fin maxClients} (chunk : Chunk)
    (hij : i ≠ j) : (s.finished i chunk).clientResult[j] = s.clientResult[j] :=
  Vector.getElem_set_ne i.isLt j.isLt (Fin.val_ne_of_ne hij)

def Server.ClientSlot (s : Server) (fd : ℤ) : Prop :=
  fd ∈ s.monitored.members ∧ fd ≠ 0 ∧ fd ≠ s.connectionSocket

theorem mem_onSocket {fd : ℤ} {f : Connection → Connection} {connections : List Connection}
    {c' : Connection} :
    c' ∈ onSocket fd f connections ↔
      ∃ c ∈ connections, (c.Owns fd ∧ c' = f c) ∨ (¬ c.Owns fd ∧ c' = c) := by
  simp only [onSocket, List.mem_map]
  apply exists_congr
  intro c
  apply and_congr_right
  intro _
  by_cases howns : c.Owns fd
  · simp [howns, eq_comm]
  · simp [howns, eq_comm]

end Multiplexing

end LinuxIPC
