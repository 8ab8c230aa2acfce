import LinuxIPC.Feed
import LinuxIPC.Server

/-!
# What an iteration of the server does

An iteration accepts a connection and dumps the table to it, or answers a line and broadcasts its
message, or does nothing. `ServerOk` holds between iterations. To each connection, the calls of
`write` are the feed of a subscriber: the dump, and then the broadcasts for as long as the data
socket is monitored.
-/

namespace LinuxIPC

open SlotTable Runs

def Server.Accepts (s : Server) (w : Wakeup) : Prop :=
  s.connectionSocket ∈ s.monitored.selected w.ready

def Server.ReadsLine (s : Server) (w : Wakeup) : Prop :=
  ¬ s.Accepts w ∧ 0 ∈ s.monitored.selected w.ready

/-- The server with a new connection, before the dump. -/
def Server.accepted (s : Server) (w : Wakeup) : Server :=
  { s with
    monitored := addToMonitoredFdSet s.monitored w.dataSocket
    openFds := w.dataSocket :: s.openFds
    connections := s.connections ++ [⟨w.dataSocket, s.admin.rtm, s.broadcasts.length⟩]
    onceMonitored :=
      if w.dataSocket ∈ (addToMonitoredFdSet s.monitored w.dataSocket).slots then
        w.dataSocket :: s.onceMonitored
      else s.onceMonitored }

def Server.answered (s : Server) (answer : Answer) : Server :=
  { s with admin := answer.admin, broadcasts := s.broadcasts ++ answer.broadcast.toList }

def Server.dumpWrites (s : Server) (w : Wakeup) : List Write :=
  numbered w.writeOk s.writes.length
    ((dumpMessages s.admin.rtm).map fun syncMsg => (w.dataSocket, syncMsg))

def Server.lineWrites (s : Server) (w : Wakeup) (broadcast : Option SyncMsg) : List Write :=
  numbered w.writeOk s.writes.length
    (broadcast.toList.flatMap fun syncMsg => s.dataSockets.map fun fd => (fd, syncMsg))

inductive ServerEffect (s : Server) (w : Wakeup) : Server → Prop
  | quiet (haccepts : ¬ s.Accepts w) (hreads : ¬ s.ReadsLine w) : ServerEffect s w s
  | accepted (haccepts : s.Accepts w) (hnonneg : 0 ≤ w.dataSocket)
      (hunused : w.dataSocket ∉ s.openFds) :
      ServerEffect s w ((s.accepted w).afterWrites (s.dumpWrites w))
  | line (answer : Answer) (hreads : s.ReadsLine w)
      (hanswer : w.input.answer s.admin = some answer) :
      ServerEffect s w ((s.answered answer).afterWrites (s.lineWrites w answer.broadcast))

structure ServerOk (s : Server) : Prop where
  admin : AdminOk s.admin
  nodup : s.monitored.members.Nodup
  socket_pos : 0 < s.connectionSocket
  socket_open : s.connectionSocket ∈ s.openFds
  stdin_open : 0 ∈ s.openFds
  members_open : ∀ fd ∈ s.monitored.members, fd ∈ s.openFds
  distinct : (s.connections.map Connection.dataSocket).Nodup
  connection : ∀ c ∈ s.connections, s.isDataSocket c.dataSocket = true ∧ c.dataSocket ∈ s.openFds
  since_le : ∀ c ∈ s.connections, c.since ≤ s.broadcasts.length
  member : ∀ fd ∈ s.dataSockets, ∃ c ∈ s.connections, c.dataSocket = fd
  written : ∀ w ∈ s.writes, ∃ c ∈ s.connections, c.dataSocket = w.dataSocket

theorem Server.mem_dataSockets {s : Server} {fd : ℤ} :
    fd ∈ s.dataSockets ↔ fd ∈ s.monitored.members ∧ s.isDataSocket fd = true := by
  rw [dataSockets, List.mem_filter, mem_occupied]
  constructor
  · rintro ⟨hslots, hdata⟩
    exact ⟨⟨hslots, isDataSocket_ne hdata⟩, hdata⟩
  · rintro ⟨⟨hslots, -⟩, hdata⟩
    exact ⟨hslots, hdata⟩

theorem Server.nodup_dataSockets {s : Server} (h : s.monitored.members.Nodup) :
    s.dataSockets.Nodup := by
  have hmembers : s.dataSockets = s.monitored.members.filter s.isDataSocket := by
    rw [Server.dataSockets, FdSet.members, occupied, List.filter_filter]
    apply List.filter_congr
    intro fd _
    cases hdata : s.isDataSocket fd with
    | false => simp
    | true => simp [isDataSocket_ne hdata]
  rw [hmembers]
  exact h.filter _

theorem Server.mem_dataSockets_afterWrites {s : Server} {ws : List Write} {fd : ℤ} :
    fd ∈ (s.afterWrites ws).dataSockets ↔ fd ∈ s.dataSockets ∧ failedIn ws fd = false := by
  rw [mem_dataSockets, mem_dataSockets]
  have hmembers : fd ∈ (s.afterWrites ws).monitored.members ↔
      fd ∈ s.monitored.members ∧ failedIn ws fd = false := mem_occupied_release
  have hdata : (s.afterWrites ws).isDataSocket fd = s.isDataSocket fd := rfl
  rw [hmembers, hdata]
  tauto

theorem ServerOk.isDataSocket_new {s : Server} (h : ServerOk s) {fd : ℤ} (hnonneg : 0 ≤ fd)
    (hunused : fd ∉ s.openFds) : s.isDataSocket fd = true := by
  have hzero : fd ≠ 0 := fun heq => hunused (heq ▸ h.stdin_open)
  have hconn : fd ≠ s.connectionSocket := fun heq => hunused (heq ▸ h.socket_open)
  simp only [Server.isDataSocket, Bool.and_eq_true, decide_eq_true_eq]
  exact ⟨by omega, hconn⟩

theorem ServerOk.mem_dataSockets_accepted {s : Server} (h : ServerOk s) {w : Wakeup}
    (hnonneg : 0 ≤ w.dataSocket) (hunused : w.dataSocket ∉ s.openFds) {fd : ℤ} :
    fd ∈ (s.accepted w).dataSockets ↔
      fd ∈ s.dataSockets ∨ fd = w.dataSocket ∧ -1 ∈ s.monitored.slots := by
  have hdata := h.isDataSocket_new hnonneg hunused
  have hadd : fd ∈ (s.accepted w).monitored.members ↔
      fd ∈ s.monitored.members ∨ fd = w.dataSocket ∧ -1 ∈ s.monitored.slots :=
    FdSet.mem_members_add (isDataSocket_ne hdata)
  have hsame : (s.accepted w).isDataSocket fd = s.isDataSocket fd := rfl
  rw [Server.mem_dataSockets, Server.mem_dataSockets, hadd, hsame]
  constructor
  · rintro ⟨hmem | hnew, hfd⟩
    · exact Or.inl ⟨hmem, hfd⟩
    · exact Or.inr hnew
  · rintro (⟨hmem, hfd⟩ | ⟨rfl, hfree⟩)
    · exact ⟨Or.inl hmem, hfd⟩
    · exact ⟨Or.inr ⟨rfl, hfree⟩, hdata⟩

theorem ServerOk.nodup_accepted {s : Server} (h : ServerOk s) {w : Wakeup}
    (hnonneg : 0 ≤ w.dataSocket) (hunused : w.dataSocket ∉ s.openFds) :
    (s.accepted w).monitored.members.Nodup :=
  FdSet.nodup_add h.nodup (by omega) fun hmem => hunused (h.members_open _ hmem)

theorem serverStep_effect {s s' : Server} {w : Wakeup} (h : ServerOk s)
    (hstep : serverStep s w = some s') : ServerEffect s w s' := by
  unfold serverStep at hstep
  by_cases haccepts : s.connectionSocket ∈ s.monitored.selected w.ready
  · rw [if_pos haccepts] at hstep
    simp only [handleConnectionInitiationRequest, accept] at hstep
    by_cases hnew : 0 ≤ w.dataSocket ∧ w.dataSocket ∉ s.openFds
    · rw [if_pos hnew, Option.some.injEq, dumpRtmContents_eq_sendAll] at hstep
      have hne : ∀ send ∈ (dumpMessages s.admin.rtm).map fun m => (w.dataSocket, m),
          send.1 ≠ -1 := by
        intro send hsend
        obtain ⟨_, -, rfl⟩ := List.mem_map.mp hsend
        exact isDataSocket_ne (h.isDataSocket_new hnew.1 hnew.2)
      rw [← hstep]
      exact sendAll_eq w.writeOk (h.nodup_accepted hnew.1 hnew.2) hne ▸
        ServerEffect.accepted haccepts hnew.1 hnew.2
    · simp [hnew] at hstep
  · rw [if_neg haccepts] at hstep
    by_cases hline : (0 : ℤ) ∈ s.monitored.selected w.ready
    · rw [if_pos hline, handleLine] at hstep
      have hreads : s.ReadsLine w := ⟨haccepts, hline⟩
      cases hanswer : w.input.answer s.admin with
      | none => simp [hanswer] at hstep
      | some answer =>
          simp only [hanswer] at hstep
          split_ifs at hstep with hshut
          have heffect := ServerEffect.line answer hreads hanswer
          cases hbroadcast : answer.broadcast with
          | none =>
              have hquiet : s.lineWrites w none = [] := rfl
              rw [hbroadcast, hquiet, Server.afterWrites_nil] at heffect
              simp only [hbroadcast, Option.some.injEq] at hstep
              simpa [Server.answered, hbroadcast, hstep] using heffect
          | some syncMsg =>
              have hwrites : s.lineWrites w (some syncMsg) = numbered w.writeOk s.writes.length
                  (s.dataSockets.map fun fd => (fd, syncMsg)) := by
                simp [Server.lineWrites]
              rw [hbroadcast, hwrites] at heffect
              have hanswered : s.answered answer =
                  { s with admin := answer.admin, broadcasts := s.broadcasts ++ [syncMsg] } := by
                simp [Server.answered, hbroadcast]
              have hsend := sendSynchronizationMessage_eq w.writeOk syncMsg
                (s := s.answered answer) h.nodup
              simp only [hbroadcast, Option.some.injEq] at hstep
              rw [← hanswered, hsend] at hstep
              exact hstep ▸ heffect
    · rw [if_neg hline, Option.some.injEq] at hstep
      exact hstep ▸ ServerEffect.quiet haccepts fun hreads => hline hreads.2

theorem Server.init_members (start : Startup) :
    (Server.init start).monitored.members = [0, start.connectionSocket] :=
  start.members_initialFdSet

theorem ServerOk.init (start : Startup) : ServerOk (Server.init start) where
  admin := AdminOk.initial start.entry start.record
  nodup := start.nodup_initialFdSet
  socket_pos := start.connectionSocket_pos
  socket_open := List.mem_cons_self
  stdin_open := List.mem_cons_of_mem _ start.stdin_mem
  members_open := by
    intro fd hfd
    rw [Server.init_members] at hfd
    rcases List.mem_cons.mp hfd with rfl | hfd
    · exact List.mem_cons_of_mem _ start.stdin_mem
    · rw [List.mem_singleton.mp hfd]
      exact List.mem_cons_self
  distinct := List.nodup_nil
  connection := by simp [Server.init]
  since_le := by simp [Server.init]
  member := by
    intro fd hfd
    rw [Server.mem_dataSockets, Server.init_members] at hfd
    obtain ⟨hmem, hdata⟩ := hfd
    simp only [Server.isDataSocket, Bool.and_eq_true, decide_eq_true_eq] at hdata
    rcases List.mem_cons.mp hmem with rfl | hmem
    · exact absurd hdata.1 (lt_irrefl 0)
    · exact absurd (List.mem_singleton.mp hmem) hdata.2
  written := by simp [Server.init]

theorem failedIn_eq_false_iff {ws : List Write} {fd : ℤ} :
    failedIn ws fd = false ↔ ∀ w ∈ ws, w.dataSocket = fd → w.ok = true := by
  simp only [failedIn, List.any_eq_false, Bool.and_eq_true, decide_eq_true_eq, Bool.not_eq_true',
    not_and, Bool.not_eq_false]

theorem mem_numbered {writeOk : ℕ → Bool} {n : ℕ} {sends : List (ℤ × SyncMsg)} {w : Write}
    (h : w ∈ numbered writeOk n sends) : (w.dataSocket, w.syncMsg) ∈ sends := by
  obtain ⟨p, hp, rfl⟩ := List.mem_map.mp h
  exact List.fst_mem_of_mem_zipIdx hp

theorem Server.mem_lineWrites {s : Server} {w : Wakeup} {broadcast : Option SyncMsg} {c : Write}
    (h : c ∈ s.lineWrites w broadcast) :
    c.dataSocket ∈ s.dataSockets ∧ broadcast = some c.syncMsg := by
  obtain ⟨m, hm, hsend⟩ := List.mem_flatMap.mp (mem_numbered h)
  obtain ⟨fd, hfd, heq⟩ := List.mem_map.mp hsend
  obtain ⟨rfl, rfl⟩ := Prod.mk.inj heq
  exact ⟨hfd, Option.mem_toList.mp hm⟩

theorem Server.mem_dumpWrites {s : Server} {w : Wakeup} {c : Write} (h : c ∈ s.dumpWrites w) :
    c.dataSocket = w.dataSocket ∧ c.syncMsg ∈ dumpMessages s.admin.rtm := by
  obtain ⟨m, hm, heq⟩ := List.mem_map.mp (mem_numbered h)
  obtain ⟨hfd, hmsg⟩ := Prod.mk.inj heq
  exact ⟨hfd.symm, hmsg ▸ hm⟩

/-- Writing stops the monitoring of some data sockets and changes nothing else. -/
theorem ServerOk.afterWrites {s : Server} (h : ServerOk s) {ws : List Write}
    (hws : ∀ w ∈ ws, ∃ c ∈ s.connections, c.dataSocket = w.dataSocket) :
    ServerOk (s.afterWrites ws) where
  admin := h.admin
  nodup := FdSet.nodup_release h.nodup _
  socket_pos := h.socket_pos
  socket_open := h.socket_open
  stdin_open := h.stdin_open
  members_open := fun fd hfd => h.members_open fd (mem_occupied_release.mp hfd).1
  distinct := h.distinct
  connection := h.connection
  since_le := h.since_le
  member := fun fd hfd => h.member fd (Server.mem_dataSockets_afterWrites.mp hfd).1
  written := by
    intro c hc
    rcases List.mem_append.mp hc with hc | hc
    · exact h.written c hc
    · exact hws c hc

theorem ServerOk.accepted {s : Server} (h : ServerOk s) {w : Wakeup} (hnonneg : 0 ≤ w.dataSocket)
    (hunused : w.dataSocket ∉ s.openFds) : ServerOk (s.accepted w) where
  admin := h.admin
  nodup := h.nodup_accepted hnonneg hunused
  socket_pos := h.socket_pos
  socket_open := List.mem_cons_of_mem _ h.socket_open
  stdin_open := List.mem_cons_of_mem _ h.stdin_open
  members_open := by
    intro fd hfd
    have hdata := h.isDataSocket_new hnonneg hunused
    rcases (FdSet.mem_members_add (isDataSocket_ne hdata)).mp hfd with hfd | ⟨rfl, -⟩
    · exact List.mem_cons_of_mem _ (h.members_open fd hfd)
    · exact List.mem_cons_self
  distinct := by
    simp only [Server.accepted, List.map_append, List.map_cons, List.map_nil]
    rw [← List.concat_eq_append]
    apply h.distinct.concat
    intro hmem
    obtain ⟨c, hc, heq⟩ := List.mem_map.mp hmem
    exact hunused (heq ▸ (h.connection c hc).2)
  connection := by
    intro c hc
    rcases List.mem_append.mp hc with hc | hc
    · exact ⟨(h.connection c hc).1, List.mem_cons_of_mem _ (h.connection c hc).2⟩
    · rw [List.mem_singleton.mp hc]
      exact ⟨h.isDataSocket_new hnonneg hunused, List.mem_cons_self⟩
  since_le := by
    intro c hc
    rcases List.mem_append.mp hc with hc | hc
    · exact h.since_le c hc
    · rw [List.mem_singleton.mp hc]
      exact le_refl _
  member := by
    intro fd hfd
    rcases (h.mem_dataSockets_accepted hnonneg hunused).mp hfd with hfd | ⟨rfl, -⟩
    · obtain ⟨c, hc, heq⟩ := h.member fd hfd
      exact ⟨c, List.mem_append_left _ hc, heq⟩
    · exact ⟨_, List.mem_append_right _ (List.mem_singleton_self _), rfl⟩
  written := by
    intro c hc
    obtain ⟨d, hd, heq⟩ := h.written c hc
    exact ⟨d, List.mem_append_left _ hd, heq⟩

theorem ServerOk.answered {s : Server} (h : ServerOk s) {answer : Answer}
    (hadmin : AdminOk answer.admin) : ServerOk (s.answered answer) where
  admin := hadmin
  nodup := h.nodup
  socket_pos := h.socket_pos
  socket_open := h.socket_open
  stdin_open := h.stdin_open
  members_open := h.members_open
  distinct := h.distinct
  connection := h.connection
  since_le := by
    intro c hc
    have hle := h.since_le c hc
    simp only [Server.answered, List.length_append]
    omega
  member := h.member
  written := h.written

theorem ServerOk.step {s s' : Server} {w : Wakeup} (h : ServerOk s) (heffect : ServerEffect s w s') :
    ServerOk s' := by
  cases heffect with
  | quiet haccepts hreads => exact h
  | accepted haccepts hnonneg hunused =>
      apply (h.accepted hnonneg hunused).afterWrites
      intro c hc
      have hnew := (Server.mem_dumpWrites hc).1
      exact ⟨_, List.mem_append_right _ (List.mem_singleton_self _), hnew.symm⟩
  | line answer hreads hanswer =>
      apply (h.answered (h.admin.step (AdminInput.answer_effect hanswer))).afterWrites
      intro c hc
      exact h.member c.dataSocket (Server.mem_lineWrites hc).1

theorem serverStep_serverOk {s s' : Server} {w : Wakeup} (h : ServerOk s)
    (hstep : serverStep s w = some s') : ServerOk s' :=
  h.step (serverStep_effect h hstep)

end LinuxIPC
