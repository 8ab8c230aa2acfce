import LinuxIPC.Console
import LinuxIPC.FdSet

/-!
# The routing table server (`rtm_server.c`, `rtm.c`)

Between two iterations of the main loop the server has the variables of the console, the monitored
descriptors and its open descriptors. Histories are kept beside them: the calls of `write` with
their outcomes, the messages handed to `send_synchronization_message`, the connections accepted,
and the data sockets that were ever monitored. The server closes no data socket.
-/

namespace LinuxIPC

open SlotTable

structure Write where
  dataSocket : ℤ
  syncMsg : SyncMsg
  ok : Bool
  deriving DecidableEq, Repr

/-- A connection accepted, with the table at that time and the number of broadcasts before. -/
structure Connection where
  dataSocket : ℤ
  dump : RoutingTable
  since : ℕ
  deriving DecidableEq, Repr

structure Server where
  admin : Admin
  monitored : FdSet
  connectionSocket : ℤ
  openFds : List ℤ
  writes : List Write
  broadcasts : List SyncMsg
  connections : List Connection
  onceMonitored : List ℤ

/-- The process before `initialize_server`, with what the variables of `main` hold unassigned. -/
structure Startup extends Launch where
  entry : EntryType
  record : MsgBody

/-- What an iteration of the main loop meets: the descriptors with something to read, the
descriptor for `accept` to return, the line of the administrator, and which calls of `write`
succeed, numbered from the start of the run. -/
structure Wakeup where
  ready : List ℤ
  dataSocket : ℤ
  input : AdminInput
  writeOk : ℕ → Bool

def Server.init (start : Startup) : Server where
  admin := ⟨[], .idle, start.entry, start.record⟩
  monitored := start.initialFdSet
  connectionSocket := start.connectionSocket
  openFds := start.connectionSocket :: start.openFds
  writes := []
  broadcasts := []
  connections := []
  onceMonitored := []

/-- `_send_synchronization_message`. -/
def sendTo (writeOk : ℕ → Bool) (s : Server) (syncMsg : SyncMsg) (dataSocket : ℤ) : Server :=
  let ok := writeOk s.writes.length
  let s := { s with writes := s.writes ++ [⟨dataSocket, syncMsg, ok⟩] }
  if !ok then { s with monitored := removeFromMonitoredFdSet s.monitored dataSocket } else s

def dumpRtmContents (writeOk : ℕ → Bool) (s : Server) (rt : RoutingTable) (dataSocket : ℤ) :
    Server :=
  rt.foldl (fun s record =>
    sendTo writeOk s (prepareSynchronizationMessage .create record) dataSocket) s

/-- The test of the loop of `send_synchronization_message`. -/
def Server.isDataSocket (s : Server) (fd : ℤ) : Bool := fd > 0 && fd ≠ s.connectionSocket

/-- One iteration of the loop of `send_synchronization_message`. -/
def sendToSlot (writeOk : ℕ → Bool) (syncMsg : SyncMsg) (s : Server) (i : ℕ) : Server :=
  let fd := s.monitored.slots.getD i (-1)
  if s.isDataSocket fd then sendTo writeOk s syncMsg fd else s

def sendSynchronizationMessage (writeOk : ℕ → Bool) (s : Server) (syncMsg : SyncMsg) : Server :=
  (List.range maxClients).foldl (sendToSlot writeOk syncMsg) s

/-- `handle_connection_initiation_request`; `none` for `error_and_exit`. -/
def handleConnectionInitiationRequest (w : Wakeup) (s : Server) : Option Server :=
  match accept s.openFds w.dataSocket with
  | none => none
  | some dataSocket =>
    let monitored := addToMonitoredFdSet s.monitored dataSocket
    let s :=
      { s with
        monitored := monitored
        openFds := dataSocket :: s.openFds
        connections := s.connections ++ [⟨dataSocket, s.admin.rtm, s.broadcasts.length⟩]
        onceMonitored :=
          if dataSocket ∈ monitored.slots then dataSocket :: s.onceMonitored
          else s.onceMonitored }
    some (dumpRtmContents w.writeOk s s.admin.rtm dataSocket)

/-- The branch of `main` that handles a line; `none` when the server waits for ever or exits. -/
def handleLine (w : Wakeup) (s : Server) : Option Server :=
  match w.input.answer s.admin with
  | none => none
  | some answer =>
    if answer.reply = .shutdown then none
    else
      let s := { s with admin := answer.admin }
      match answer.broadcast with
      | none => some s
      | some syncMsg =>
        let s := { s with broadcasts := s.broadcasts ++ [syncMsg] }
        some (sendSynchronizationMessage w.writeOk s syncMsg)

def serverStep (s : Server) (w : Wakeup) : Option Server :=
  let readfds := s.monitored.selected w.ready
  if s.connectionSocket ∈ readfds then handleConnectionInitiationRequest w s
  else if 0 ∈ readfds then handleLine w s
  else some s

def standardStartup : Startup where
  toLaunch := standardLaunch
  entry := .subnet
  record := Ambient.zero.heap

def connecting (writeOk : ℕ → Bool) (dataSocket : ℤ) : Wakeup := ⟨[3], dataSocket, typed "", writeOk⟩

def entering (writeOk : ℕ → Bool) (line : String) : Wakeup := ⟨[0], -1, typed line, writeOk⟩

def Server.dataSockets (s : Server) : List ℤ := s.monitored.slots.filter s.isDataSocket

def numbered (writeOk : ℕ → Bool) (n : ℕ) (sends : List (ℤ × SyncMsg)) : List Write :=
  (sends.zipIdx n).map fun p => ⟨p.1.1, p.1.2, writeOk p.2⟩

def failedIn (ws : List Write) (fd : ℤ) : Bool := ws.any fun w => w.dataSocket = fd && !w.ok

def Server.afterWrites (s : Server) (ws : List Write) : Server :=
  { s with writes := s.writes ++ ws, monitored := s.monitored.release (failedIn ws) }

def sendAll (writeOk : ℕ → Bool) (s : Server) (sends : List (ℤ × SyncMsg)) : Server :=
  sends.foldl (fun s send => sendTo writeOk s send.2 send.1) s

theorem numbered_cons (writeOk : ℕ → Bool) (n : ℕ) (send : ℤ × SyncMsg)
    (sends : List (ℤ × SyncMsg)) :
    numbered writeOk n (send :: sends) =
      ⟨send.1, send.2, writeOk n⟩ :: numbered writeOk (n + 1) sends := by
  simp [numbered, List.zipIdx_cons]

theorem Server.afterWrites_nil (s : Server) : s.afterWrites [] = s := by
  have hrelease : s.monitored.release (failedIn []) = s.monitored := s.monitored.release_false
  simp [afterWrites, hrelease]

theorem Server.afterWrites_afterWrites (s : Server) (ws ws' : List Write) :
    (s.afterWrites ws).afterWrites ws' = s.afterWrites (ws ++ ws') := by
  have hfailed : (fun fd => failedIn ws fd || failedIn ws' fd) = failedIn (ws ++ ws') := by
    funext fd
    simp [failedIn]
  simp only [afterWrites, List.append_assoc, FdSet.release_release, hfailed]

theorem sendTo_eq (writeOk : ℕ → Bool) {s : Server} (syncMsg : SyncMsg) {dataSocket : ℤ}
    (hnodup : s.monitored.members.Nodup) (hne : dataSocket ≠ -1) :
    sendTo writeOk s syncMsg dataSocket =
      s.afterWrites [⟨dataSocket, syncMsg, writeOk s.writes.length⟩] := by
  have hfailed : ∀ ok, failedIn [⟨dataSocket, syncMsg, ok⟩] =
      fun fd => decide (fd = dataSocket) && !ok := by
    intro ok
    funext fd
    simp [failedIn, eq_comm]
  simp only [sendTo, Server.afterWrites, hfailed]
  cases writeOk s.writes.length with
  | true => simp [FdSet.release_false]
  | false => simp [FdSet.remove_eq_release hnodup hne]

theorem sendAll_eq (writeOk : ℕ → Bool) {s : Server} {sends : List (ℤ × SyncMsg)}
    (hnodup : s.monitored.members.Nodup) (hne : ∀ send ∈ sends, send.1 ≠ -1) :
    sendAll writeOk s sends = s.afterWrites (numbered writeOk s.writes.length sends) := by
  induction sends generalizing s with
  | nil => exact s.afterWrites_nil.symm
  | cons send sends ih =>
      have hsend := sendTo_eq writeOk send.2 hnodup
        (hne send List.mem_cons_self)
      rw [sendAll, List.foldl_cons, hsend]
      change sendAll writeOk (s.afterWrites _) sends = _
      rw [ih (FdSet.nodup_release hnodup _) fun send' h => hne send' (List.mem_cons_of_mem _ h),
        Server.afterWrites_afterWrites, numbered_cons]
      simp [Server.afterWrites]

theorem dumpRtmContents_eq_sendAll (writeOk : ℕ → Bool) (s : Server) (rt : RoutingTable)
    (dataSocket : ℤ) :
    dumpRtmContents writeOk s rt dataSocket =
      sendAll writeOk s ((dumpMessages rt).map fun m => (dataSocket, m)) := by
  simp only [dumpRtmContents, sendAll, dumpMessages, List.map_map, List.foldl_map]
  rfl

theorem isDataSocket_ne {s : Server} {fd : ℤ} (h : s.isDataSocket fd = true) : fd ≠ -1 := by
  simp only [Server.isDataSocket, Bool.and_eq_true, decide_eq_true_eq] at h
  omega

theorem sendTo_slots (writeOk : ℕ → Bool) {s : Server} (syncMsg : SyncMsg) {fd : ℤ}
    {front back : List ℤ} (hslots : s.monitored.slots = front ++ fd :: back) (hfront : fd ∉ front) :
    ∃ fd', (sendTo writeOk s syncMsg fd).monitored.slots = (front ++ [fd']) ++ back := by
  cases hok : writeOk s.writes.length with
  | true => exact ⟨fd, by simp [sendTo, hok, hslots]⟩
  | false =>
      refine ⟨-1, ?_⟩
      simp only [sendTo, hok, Bool.not_false, if_true, removeFromMonitoredFdSet, hslots]
      rw [List.replace_append_right hfront, List.replace_cons_self]
      simp

/-- The loop reads each slot when it comes to it; until then the slot is as it was. -/
theorem sendToSlot_loop (writeOk : ℕ → Bool) (syncMsg : SyncMsg) {s : Server} {front back : List ℤ}
    (hslots : s.monitored.slots = front ++ back) (hnodup : s.monitored.members.Nodup) :
    (List.range' front.length back.length).foldl (sendToSlot writeOk syncMsg) s =
      sendAll writeOk s ((back.filter s.isDataSocket).map fun fd => (fd, syncMsg)) := by
  induction back generalizing s front with
  | nil => rfl
  | cons fd back ih =>
      have hget : s.monitored.slots.getD front.length (-1) = fd := by simp [hslots]
      rw [List.length_cons, List.range'_succ, List.foldl_cons]
      have hlength : front.length + 1 = (front ++ [fd]).length := by simp
      cases hdata : s.isDataSocket fd with
      | false =>
          have hslots' : s.monitored.slots = (front ++ [fd]) ++ back := by simp [hslots]
          rw [List.filter_cons_of_neg (by simp [hdata]), hlength]
          simp only [sendToSlot, hget, hdata, Bool.false_eq_true, if_false]
          exact ih hslots' hnodup
      | true =>
          have hne := isDataSocket_ne hdata
          have hfront : fd ∉ front := by
            intro hmem
            rw [FdSet.members, hslots, occupied, List.filter_append,
              List.filter_cons_of_pos (by simpa using hne)] at hnodup
            exact List.disjoint_of_nodup_append hnodup (List.mem_filter.mpr ⟨hmem, by simpa using hne⟩)
              List.mem_cons_self
          obtain ⟨fd', hslots'⟩ := sendTo_slots writeOk syncMsg hslots hfront
          have hnodup' : (sendTo writeOk s syncMsg fd).monitored.members.Nodup := by
            rw [sendTo_eq writeOk syncMsg hnodup hne]
            exact FdSet.nodup_release hnodup _
          have hconn : (sendTo writeOk s syncMsg fd).isDataSocket = s.isDataSocket := by
            rw [sendTo_eq writeOk syncMsg hnodup hne]
            rfl
          have hstep : sendToSlot writeOk syncMsg s front.length = sendTo writeOk s syncMsg fd := by
            simp only [sendToSlot, hget, hdata, if_true]
          have hlength' : front.length + 1 = (front ++ [fd']).length := by simp
          rw [List.filter_cons_of_pos hdata, hstep, hlength', ih hslots' hnodup', hconn]
          rfl

theorem sendSynchronizationMessage_eq (writeOk : ℕ → Bool) {s : Server} (syncMsg : SyncMsg)
    (hnodup : s.monitored.members.Nodup) :
    sendSynchronizationMessage writeOk s syncMsg = s.afterWrites
      (numbered writeOk s.writes.length (s.dataSockets.map fun fd => (fd, syncMsg))) := by
  have hslots : s.monitored.slots = [] ++ s.monitored.slots := rfl
  have hloop := sendToSlot_loop writeOk syncMsg hslots hnodup
  rw [List.length_nil, s.monitored.size_eq, ← List.range_eq_range'] at hloop
  rw [sendSynchronizationMessage, hloop, sendAll_eq writeOk hnodup]
  · rfl
  · intro send hsend
    obtain ⟨fd, hfd, rfl⟩ := List.mem_map.mp hsend
    exact isDataSocket_ne (List.mem_filter.mp hfd).2

end LinuxIPC
