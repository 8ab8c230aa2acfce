import LinuxIPC.ServiceLoop

/-!
# The server as single-client servers side by side (`multiplexing/server.c`)

A client sees of the server whether its descriptor found a slot, what was read from it and what it
was sent. The loop over the slots takes descriptors out of the table that it goes over. All the same
it reads once from each client that is ready, and each read is that of a server for this client
alone. This takes `FD_ISSET` to be false for free slots, where it is undefined, and the descriptors to
be below `FD_SETSIZE`.
-/

namespace LinuxIPC

open SlotTable Runs NoMultiplexing

namespace Multiplexing

structure Session where
  connection : Connection
  isMonitored : Bool
  deriving DecidableEq, Repr

/-- What a server for this client alone does with a chunk. -/
def Connection.take (c : Connection) (chunk : Chunk) : Connection :=
  match serve (c.reads ++ [chunk]) with
  | none => c.afterRead chunk
  | some (result, _) => (c.afterRead chunk).afterResult result

def Session.take (x : Session) (chunk : Chunk) : Session where
  connection := x.connection.take chunk
  isMonitored := x.isMonitored && (x.connection.take chunk).isOpen

def Session.Ready (x : Session) (w : Wakeup) : Prop :=
  x.isMonitored = true ∧ x.connection.dataSocket ∈ w.ready

instance (x : Session) (w : Wakeup) : Decidable (x.Ready w) :=
  inferInstanceAs (Decidable (_ ∧ _))

def Session.read (w : Wakeup) (x : Session) : Session :=
  match w.data x.connection.dataSocket with
  | none => x
  | some chunk => x.take chunk

def Session.wake (w : Wakeup) (x : Session) : Session := if x.Ready w then x.read w else x

/-- The client of a new connection, given the clients before; the standard input and the socket have
slots, too. -/
def Session.new (sessions : List Session) (dataSocket : ℤ) : Session where
  connection := ⟨dataSocket, true, [], []⟩
  isMonitored := decide (sessions.countP Session.isMonitored + 2 < maxClients)

def InUse (launch : Launch) (sessions : List Session) (fd : ℤ) : Prop :=
  fd ∈ launch.connectionSocket :: launch.openFds ∨ ∃ x ∈ sessions, x.connection.Owns fd

instance (launch : Launch) (sessions : List Session) (fd : ℤ) :
    Decidable (InUse launch sessions fd) :=
  inferInstanceAs (Decidable (_ ∨ _))

def ReadFails (sessions : List Session) (w : Wakeup) : Prop :=
  ∃ x ∈ sessions, x.Ready w ∧ w.data x.connection.dataSocket = none

instance (sessions : List Session) (w : Wakeup) : Decidable (ReadFails sessions w) :=
  inferInstanceAs (Decidable (∃ x ∈ sessions, _))

/-- An iteration of the main loop for the clients, without a table. -/
def sessionsStep (launch : Launch) (sessions : List Session) (w : Wakeup) :
    Option (List Session) :=
  if launch.connectionSocket ∈ w.ready then
    if 0 ≤ w.dataSocket ∧ ¬ InUse launch sessions w.dataSocket then
      some (sessions ++ [Session.new sessions w.dataSocket])
    else none
  else if 0 ∈ w.ready then (w.data 0).map fun _ => sessions
  else if ReadFails sessions w then none
  else some (sessions.map (Session.wake w))

def Serves (launch : Launch) (w : Wakeup) : Prop :=
  launch.connectionSocket ∉ w.ready ∧ 0 ∉ w.ready

instance (launch : Launch) (w : Wakeup) : Decidable (Serves launch w) :=
  inferInstanceAs (Decidable (_ ∧ _))

def Server.session (s : Server) (c : Connection) : Session where
  connection := c
  isMonitored := c.isOpen && decide (c.dataSocket ∈ s.monitored.members)

def Server.sessions (s : Server) : List Session := s.connections.map s.session

@[simp] theorem Session.dataSocket_read (w : Wakeup) (x : Session) :
    (x.read w).connection.dataSocket = x.connection.dataSocket := by
  rw [Session.read]
  cases w.data x.connection.dataSocket with
  | none => rfl
  | some chunk =>
      simp only [Session.take, Connection.take]
      cases serve (x.connection.reads ++ [chunk]) with
      | none => rfl
      | some r => rfl

theorem Connection.take_of_running {c : Connection} {sum : BitVec 32} (h : Running c.reads sum)
    (chunk : Chunk) :
    c.take chunk =
      if memcpyInt (received chunk) = 0 then (c.afterRead chunk).afterResult (resultMessage sum)
      else c.afterRead chunk := by
  rw [Connection.take]
  split_ifs with hdata
  · have hserve := h.finish hdata []
    rw [List.append_nil] at hserve
    rw [hserve]
  · rw [(h.add hdata).serve_eq_none]

/-- A client that is monitored reads as a server for this client alone would. -/
theorem Server.read_eq {w : Wakeup} {s : Server} {fd : ℤ} {chunk : Chunk}
    (hmem : fd ∈ s.monitored.members) (hread : w.data fd = some chunk) {c : Connection}
    (howns : c.Owns fd) {sum : BitVec 32} (hrunning : Running c.reads sum) :
    (s.session c).read w =
      if memcpyInt (received chunk) = 0 then
        ⟨(c.afterRead chunk).afterResult (resultMessage sum), false⟩
      else s.session (c.afterRead chunk) := by
  have hdata : w.data c.dataSocket = some chunk := howns.2 ▸ hread
  have hmonitored : c.dataSocket ∈ s.monitored.members := howns.2 ▸ hmem
  simp only [Session.read, Server.session, hdata, Session.take,
    Connection.take_of_running hrunning chunk]
  split_ifs
  · simp only [Connection.afterResult, Bool.and_false]
  · simp only [Connection.afterRead, howns.1, hmonitored, decide_true, Bool.and_true]

theorem Server.sessions_of_onSocket {w : Wakeup} {s s' : Server} {fd : ℤ}
    {f : Connection → Connection} (hconnections : s'.connections = onSocket fd f s.connections)
    (hread : ∀ c ∈ s.connections, c.Owns fd → s'.session (f c) = (s.session c).read w)
    (hother : ∀ c ∈ s.connections, ¬ c.Owns fd → s'.session c = s.session c) :
    s'.sessions = s.sessions.map fun x => if x.connection.Owns fd then x.read w else x := by
  rw [Server.sessions, Server.sessions, hconnections, onSocket, List.map_map, List.map_map]
  refine List.map_congr_left fun c hc => ?_
  have hconnection : (s.session c).connection = c := rfl
  simp only [Function.comp_apply, hconnection]
  split_ifs with howns
  · exact hread c hc howns
  · exact hother c hc howns

/-- The sessions after a slot: that of its descriptor, if it is ready, has read once. -/
theorem ServerOk.sessions_slot {w : Wakeup} {readfds : List ℤ} {s s' : Server} {i : Fin maxClients}
    (h : ServerOk s) (hclients : ClientsOnly s.connectionSocket readfds)
    (heffect : SlotEffect w readfds s i s') :
    s'.sessions = s.sessions.map fun x =>
      if s.monitored.slot i ∈ readfds ∧ x.connection.Owns (s.monitored.slot i) then x.read w
      else x := by
  cases heffect with
  | skipped hready => simp [hready]
  | added chunk hready hread hdata =>
      have hslot := hclients.clientSlot hready
      simp only [hready, true_and]
      refine Server.sessions_of_onSocket rfl (fun c hc howns => ?_) fun _ _ _ => rfl
      have hrunning := (h.running c hc howns.1).2 i howns
      rw [Server.read_eq hslot.1 hread howns hrunning, if_neg hdata]
      rfl
  | finished chunk hready hread hdata =>
      have hslot := hclients.clientSlot hready
      simp only [hready, true_and]
      refine Server.sessions_of_onSocket rfl (fun c hc howns => ?_) fun c _ howns => ?_
      · have hrunning := (h.running c hc howns.1).2 i howns
        rw [Server.read_eq hslot.1 hread howns hrunning, if_pos hdata]
        rfl
      · -- the descriptor freed is that of no other connection that is open
        cases hopen : c.isOpen with
        | false => simp [Server.session, hopen]
        | true =>
            have hne : c.dataSocket ≠ s.monitored.slot i := fun heq => howns ⟨hopen, heq⟩
            simp [Server.session, hopen, Server.mem_members_finished h hslot, hne]

theorem ServerOk.sessions_slots {w : Wakeup} {readfds : List ℤ} {s s' : Server}
    {slots : List (Fin maxClients)} (h : ServerOk s)
    (hclients : ClientsOnly s.connectionSocket readfds) (hnodup : slots.Nodup)
    (hrun : run (serveSlot w readfds) s slots = some s') :
    s'.sessions = s.sessions.map fun x =>
      if ∃ i ∈ slots, s.monitored.slot i ∈ readfds ∧ x.connection.Owns (s.monitored.slot i) then
        x.read w
      else x := by
  induction slots generalizing s with
  | nil =>
      obtain rfl := Option.some.inj hrun
      simp
  | cons k slots ih =>
      obtain ⟨t, hserve, hrest⟩ := run_cons_eq_some.mp hrun
      obtain ⟨hk, hnodup⟩ := List.nodup_cons.mp hnodup
      have heffect := serveSlot_effect hserve
      have hsame : ∀ j ∈ slots, t.monitored.slot j = s.monitored.slot j := fun j hj =>
        h.slot_of_ne hclients heffect fun heq => hk (heq ▸ hj)
      rw [ih (h.slot hclients heffect) (heffect.connectionSocket ▸ hclients) hnodup hrest,
        h.sessions_slot hclients heffect, List.map_map]
      refine List.map_congr_left fun x _ => ?_
      have hslots : ∀ y : Session,
          (∃ i ∈ slots, t.monitored.slot i ∈ readfds ∧ y.connection.Owns (t.monitored.slot i)) ↔
            ∃ i ∈ slots, s.monitored.slot i ∈ readfds ∧ y.connection.Owns (s.monitored.slot i) :=
        fun y => exists_congr fun i => and_congr_right fun hi => by rw [hsame i hi]
      simp only [Function.comp_apply, hslots, List.exists_mem_cons_iff]
      by_cases hfirst : s.monitored.slot k ∈ readfds ∧ x.connection.Owns (s.monitored.slot k)
      · -- no other slot has the descriptor of this client
        rw [if_pos hfirst, if_pos (Or.inl hfirst), if_neg]
        rintro ⟨i, hi, -, howns⟩
        have hsocket : x.connection.dataSocket = s.monitored.slot i :=
          (x.dataSocket_read w).symm.trans howns.2
        have heq := h.eq_of_slot (hclients.clientSlot hfirst.1) (hfirst.2.2.symm.trans hsocket)
        exact hk (heq ▸ hi)
      · simp only [hfirst, false_or, if_false]

theorem ServerOk.slots_eq_none_iff {w : Wakeup} {readfds : List ℤ} {s : Server}
    {slots : List (Fin maxClients)} (h : ServerOk s)
    (hclients : ClientsOnly s.connectionSocket readfds) (hnodup : slots.Nodup) :
    run (serveSlot w readfds) s slots = none ↔
      ∃ i ∈ slots, s.monitored.slot i ∈ readfds ∧ w.data (s.monitored.slot i) = none := by
  induction slots generalizing s with
  | nil => simp
  | cons k slots ih =>
      obtain ⟨hk, hnodup⟩ := List.nodup_cons.mp hnodup
      rw [List.exists_mem_cons_iff, run, Option.bind_eq_none_iff]
      cases hserve : serveSlot w readfds s k with
      | none =>
          have hfails : s.monitored.slot k ∈ readfds ∧ w.data (s.monitored.slot k) = none := by
            by_contra hnot
            rw [not_and] at hnot
            obtain ⟨t, ht⟩ := exists_serveSlot_iff.mpr hnot
            exact absurd (hserve.symm.trans ht) (Option.some_ne_none t).symm
          simp [hfails]
      | some t =>
          have heffect := serveSlot_effect hserve
          have hsame : ∀ j ∈ slots, t.monitored.slot j = s.monitored.slot j := fun j hj =>
            h.slot_of_ne hclients heffect fun heq => hk (heq ▸ hj)
          have hreads := exists_serveSlot_iff.mp ⟨t, hserve⟩
          have hfirst : ¬ (s.monitored.slot k ∈ readfds ∧ w.data (s.monitored.slot k) = none) :=
            fun hfails => hreads hfails.1 hfails.2
          have hrest := ih (h.slot hclients heffect) (heffect.connectionSocket ▸ hclients) hnodup
          simp only [Option.some.injEq, forall_eq', hrest, hfirst, false_or]
          exact exists_congr fun i => and_congr_right fun hi => by rw [hsame i hi]

structure SessionsOk (launch : Launch) (s : Server) : Prop where
  serverOk : ServerOk s
  socket : s.connectionSocket = launch.connectionSocket
  mem_openFds : ∀ fd, fd ∈ s.openFds ↔ InUse launch s.sessions fd
  unused : ∀ c ∈ s.connections, c.isOpen = true →
    c.dataSocket ∉ launch.connectionSocket :: launch.openFds

theorem Server.mem_sessions {s : Server} {x : Session} :
    x ∈ s.sessions ↔ ∃ c ∈ s.connections, s.session c = x :=
  List.mem_map

theorem inUse_sessions {launch : Launch} {s : Server} {fd : ℤ} :
    InUse launch s.sessions fd ↔
      fd ∈ launch.connectionSocket :: launch.openFds ∨ ∃ c ∈ s.connections, c.Owns fd := by
  refine or_congr_right ⟨?_, ?_⟩
  · rintro ⟨x, hx, howns⟩
    obtain ⟨c, hc, rfl⟩ := Server.mem_sessions.mp hx
    exact ⟨c, hc, howns⟩
  · rintro ⟨c, hc, howns⟩
    exact ⟨s.session c, Server.mem_sessions.mpr ⟨c, hc, rfl⟩, howns⟩

theorem SessionsOk.init (launch : Launch) : SessionsOk launch (Server.init launch) where
  serverOk := ServerOk.init launch
  socket := rfl
  mem_openFds := fun fd => by simp [Server.init, Server.sessions, InUse]
  unused := by simp [Server.init]

theorem SessionsOk.added {launch : Launch} {s : Server} {i : Fin maxClients} {chunk : Chunk}
    (h : SessionsOk launch s) (hok : ServerOk (s.added i chunk)) :
    SessionsOk launch (s.added i chunk) where
  serverOk := hok
  socket := h.socket
  mem_openFds := by
    intro fd
    refine (h.mem_openFds fd).trans ?_
    rw [inUse_sessions, inUse_sessions]
    refine or_congr_right ⟨?_, ?_⟩
    · rintro ⟨c, hc, howns⟩
      by_cases hown : c.Owns (s.monitored.slot i)
      · exact ⟨c.afterRead chunk, mem_onSocket_of_owns hc hown, howns⟩
      · exact ⟨c, mem_onSocket_of_not_owns hc hown, howns⟩
    · rintro ⟨c', hc', howns⟩
      obtain ⟨c, hc, ⟨-, rfl⟩ | ⟨-, rfl⟩⟩ := mem_onSocket.mp hc'
      · exact ⟨c, hc, howns⟩
      · exact ⟨c', hc, howns⟩
  unused := by
    intro c' hc' hopen
    obtain ⟨c, hc, ⟨-, rfl⟩ | ⟨-, rfl⟩⟩ := mem_onSocket.mp hc'
    · exact h.unused c hc hopen
    · exact h.unused c' hc hopen

theorem SessionsOk.finished {launch : Launch} {s : Server} {i : Fin maxClients} {chunk : Chunk}
    (h : SessionsOk launch s) (hslot : s.ClientSlot (s.monitored.slot i))
    (hok : ServerOk (s.finished i chunk)) : SessionsOk launch (s.finished i chunk) where
  serverOk := hok
  socket := h.socket
  mem_openFds := by
    intro fd
    rw [mem_openFds_finished, h.mem_openFds, inUse_sessions, inUse_sessions]
    constructor
    · rintro ⟨hbase | ⟨c, hc, howns⟩, hne⟩
      · exact Or.inl hbase
      · exact Or.inr ⟨c, mem_onSocket_of_not_owns hc fun hown => hne (howns.eq hown), howns⟩
    · rintro (hbase | ⟨c', hc', howns⟩)
      · obtain ⟨c, hc, hopen, hsocket⟩ := h.serverOk.owner _ hslot
        refine ⟨Or.inl hbase, fun heq => h.unused c hc hopen ?_⟩
        rwa [hsocket, ← heq]
      · obtain ⟨c, hc, ⟨-, rfl⟩ | ⟨hown, rfl⟩⟩ := mem_onSocket.mp hc'
        · exact absurd howns.1 Bool.false_ne_true
        · exact ⟨Or.inr ⟨c', hc, howns⟩, fun heq => hown (heq ▸ howns)⟩
  unused := by
    intro c' hc' hopen
    obtain ⟨c, hc, ⟨-, rfl⟩ | ⟨-, rfl⟩⟩ := mem_onSocket.mp hc'
    · exact absurd hopen Bool.false_ne_true
    · exact h.unused c' hc hopen

theorem SessionsOk.slot {launch : Launch} {w : Wakeup} {readfds : List ℤ} {s s' : Server}
    {i : Fin maxClients} (h : SessionsOk launch s)
    (hclients : ClientsOnly s.connectionSocket readfds) (heffect : SlotEffect w readfds s i s') :
    SessionsOk launch s' := by
  have hok := h.serverOk.slot hclients heffect
  cases heffect with
  | skipped _ => exact h
  | added _ _ _ _ => exact h.added hok
  | finished _ hready _ _ => exact h.finished (hclients.clientSlot hready) hok

theorem SessionsOk.accepted {launch : Launch} {s : Server} (h : SessionsOk launch s) {dataSocket : ℤ}
    (hnonneg : 0 ≤ dataSocket) (hunused : dataSocket ∉ s.openFds) :
    SessionsOk launch (s.accepted dataSocket) where
  serverOk := h.serverOk.accepted hnonneg hunused
  socket := h.socket
  mem_openFds := by
    intro fd
    have hnew : fd ∈ (s.accepted dataSocket).openFds ↔ fd = dataSocket ∨ fd ∈ s.openFds :=
      List.mem_cons
    rw [hnew, h.mem_openFds, inUse_sessions, inUse_sessions, or_left_comm]
    refine or_congr_right ?_
    simp only [Server.accepted, List.mem_append, List.mem_singleton, or_and_right, exists_or,
      exists_eq_left, Connection.Owns, true_and, or_comm, eq_comm]
  unused := by
    intro c hc hopen
    rcases List.mem_append.mp hc with hc | hc
    · exact h.unused c hc hopen
    · rw [List.mem_singleton.mp hc]
      exact fun hbase => hunused ((h.mem_openFds _).mpr (Or.inl hbase))

theorem SessionsOk.step {launch : Launch} (s : Server) (w : Wakeup) (s' : Server)
    (h : SessionsOk launch s) (hstep : serverStep s w = some s') : SessionsOk launch s' := by
  cases serverStep_effect hstep with
  | accepted _ hnonneg hunused => exact h.accepted hnonneg hunused
  | console _ _ => exact h
  | served hclients hserved =>
      have hslot : ∀ t i t', SessionsOk launch t ∧
          ClientsOnly t.connectionSocket (s.monitored.selected w.ready) →
          serveSlot w (s.monitored.selected w.ready) t i = some t' → SessionsOk launch t' ∧
          ClientsOnly t'.connectionSocket (s.monitored.selected w.ready) := by
        rintro t i t' ⟨ht, hclients⟩ hserve
        have heffect := serveSlot_effect hserve
        exact ⟨ht.slot hclients heffect, heffect.connectionSocket ▸ hclients⟩
      exact (run_invariant hslot ⟨h, hclients⟩ hserved).1

theorem Server.mem_monitored_sessions {s : Server} {fd : ℤ} :
    fd ∈ (s.sessions.filter Session.isMonitored).map (fun x => x.connection.dataSocket) ↔
      ∃ c ∈ s.connections, c.Owns fd ∧ fd ∈ s.monitored.members := by
  simp only [Server.sessions, Server.session, List.mem_map, List.mem_filter, Connection.Owns]
  constructor
  · rintro ⟨_, ⟨⟨c, hc, rfl⟩, hmonitored⟩, rfl⟩
    rw [Bool.and_eq_true, decide_eq_true_eq] at hmonitored
    exact ⟨c, hc, ⟨hmonitored.1, rfl⟩, hmonitored.2⟩
  · rintro ⟨c, hc, ⟨hopen, rfl⟩, hmem⟩
    exact ⟨_, ⟨⟨c, hc, rfl⟩, by simp [hopen, hmem]⟩, rfl⟩

theorem ServerOk.nodup_monitored_sessions {s : Server} (h : ServerOk s) :
    ((s.sessions.filter Session.isMonitored).map fun x => x.connection.dataSocket).Nodup := by
  rw [List.Nodup, List.pairwise_map, List.pairwise_filter, Server.sessions, List.pairwise_map]
  refine h.distinct.imp fun hdistinct hc hd => ?_
  simp only [Server.session, Bool.and_eq_true] at hc hd
  exact hdistinct hc.1 hd.1

/-- The table holds the standard input, the socket and the descriptors of the monitored clients. -/
theorem ServerOk.members_perm {s : Server} (h : ServerOk s) :
    s.monitored.members.Perm (0 :: s.connectionSocket ::
      (s.sessions.filter Session.isMonitored).map fun x => x.connection.dataSocket) := by
  have hclient : ∀ {fd}, (∃ c ∈ s.connections, c.Owns fd ∧ fd ∈ s.monitored.members) →
      0 < fd ∧ fd ≠ s.connectionSocket := by
    rintro fd ⟨c, hc, ⟨hopen, rfl⟩, -⟩
    obtain ⟨hpos, hsocket, -⟩ := h.dataSocket c hc hopen
    exact ⟨hpos, hsocket⟩
  have hnodup : (0 :: s.connectionSocket ::
      (s.sessions.filter Session.isMonitored).map fun x => x.connection.dataSocket).Nodup := by
    refine List.nodup_cons.mpr ⟨fun hzero => ?_, List.nodup_cons.mpr ⟨fun hsocket => ?_,
      h.nodup_monitored_sessions⟩⟩
    · rcases List.mem_cons.mp hzero with hzero | hzero
      · exact absurd hzero h.socket_pos.ne
      · exact lt_irrefl _ (hclient (Server.mem_monitored_sessions.mp hzero)).1
    · exact (hclient (Server.mem_monitored_sessions.mp hsocket)).2 rfl
  rw [List.perm_ext_iff_of_nodup h.nodup hnodup]
  intro fd
  rw [List.mem_cons, List.mem_cons, Server.mem_monitored_sessions]
  constructor
  · intro hmem
    by_cases hzero : fd = 0
    · exact Or.inl hzero
    by_cases hsocket : fd = s.connectionSocket
    · exact Or.inr (Or.inl hsocket)
    obtain ⟨c, hc, howns⟩ := h.owner fd ⟨hmem, hzero, hsocket⟩
    exact Or.inr (Or.inr ⟨c, hc, howns, hmem⟩)
  · rintro (rfl | rfl | ⟨-, -, -, hmem⟩)
    · exact h.stdin_monitored
    · exact h.socket_monitored
    · exact hmem

/-- A slot is free while fewer than 30 clients are monitored. -/
theorem ServerOk.free_iff {s : Server} (h : ServerOk s) :
    -1 ∈ s.monitored.slots ↔ s.sessions.countP Session.isMonitored + 2 < maxClients := by
  have hlength := h.members_perm.length_eq
  rw [List.length_cons, List.length_cons, List.length_map, ← List.countP_eq_length_filter] at hlength
  rw [← hlength, free_mem_iff, s.monitored.size_eq]

theorem ServerOk.sessions_accepted {s : Server} (h : ServerOk s) {dataSocket : ℤ}
    (hnonneg : 0 ≤ dataSocket) (hunused : dataSocket ∉ s.openFds) :
    (s.accepted dataSocket).sessions = s.sessions ++ [Session.new s.sessions dataSocket] := by
  have hne : dataSocket ≠ -1 := by omega
  rw [Server.sessions, Server.accepted, List.map_append, List.map_singleton]
  congr 1
  · refine List.map_congr_left fun c hc => ?_
    cases hopen : c.isOpen with
    | false => simp only [Server.session, hopen, Bool.false_and]
    | true =>
        have hother : c.dataSocket ≠ dataSocket := fun heq =>
          hunused (heq ▸ (h.dataSocket c hc hopen).2.2)
        simp only [Server.session, hopen, Bool.true_and, FdSet.mem_members_add hne, hother,
          false_and, or_false]
  · have hnew : dataSocket ∉ s.monitored.members := fun hold => hunused (h.members_open hold)
    simp only [Server.session, Session.new, Bool.true_and, FdSet.mem_members_add hne, hnew,
      true_and, false_or, h.free_iff]

theorem Server.ready_iff {s : Server} {w : Wakeup} {c : Connection} :
    (s.session c).Ready w ↔ c.isOpen = true ∧ c.dataSocket ∈ s.monitored.selected w.ready := by
  simp [Session.Ready, Server.session, FdSet.mem_selected, and_assoc]

/-- The slots that are served are those of the clients that are ready. -/
theorem Server.exists_slot_iff {s : Server} {w : Wakeup} {c : Connection} :
    (∃ i ∈ List.finRange maxClients, s.monitored.slot i ∈ s.monitored.selected w.ready ∧
      c.Owns (s.monitored.slot i)) ↔ (s.session c).Ready w := by
  rw [Server.ready_iff]
  constructor
  · rintro ⟨i, -, hready, hopen, hsocket⟩
    exact ⟨hopen, hsocket ▸ hready⟩
  · rintro ⟨hopen, hready⟩
    obtain ⟨i, hi⟩ := FdSet.exists_slot (FdSet.mem_selected.mp hready).1
    exact ⟨i, List.mem_finRange i, hi ▸ hready, hopen, hi.symm⟩

theorem ServerOk.sessions_served {s : Server} {w : Wakeup} (h : ServerOk s)
    (hclients : ClientsOnly s.connectionSocket (s.monitored.selected w.ready)) :
    (handleServiceRequest w (s.monitored.selected w.ready) s).map Server.sessions =
      if ReadFails s.sessions w then none else some (s.sessions.map (Session.wake w)) := by
  have hnodup := List.nodup_finRange maxClients
  have hfails : handleServiceRequest w (s.monitored.selected w.ready) s = none ↔
      ReadFails s.sessions w := by
    rw [handleServiceRequest, h.slots_eq_none_iff hclients hnodup]
    constructor
    · rintro ⟨i, hi, hready, hdata⟩
      obtain ⟨c, hc, howns⟩ := h.owner _ (hclients.clientSlot hready)
      refine ⟨s.session c, Server.mem_sessions.mpr ⟨c, hc, rfl⟩, ?_, ?_⟩
      · exact Server.exists_slot_iff.mp ⟨i, hi, hready, howns⟩
      · rwa [← howns.2] at hdata
    · rintro ⟨x, hx, hready, hdata⟩
      obtain ⟨c, -, rfl⟩ := Server.mem_sessions.mp hx
      obtain ⟨i, hi, hready, howns⟩ := Server.exists_slot_iff.mpr hready
      exact ⟨i, hi, hready, howns.2 ▸ hdata⟩
  cases hserved : handleServiceRequest w (s.monitored.selected w.ready) s with
  | none => rw [if_pos (hfails.mp hserved), Option.map_none]
  | some s' =>
      have hnot : ¬ ReadFails s.sessions w := fun hread =>
        absurd (hserved.symm.trans (hfails.mpr hread)) (Option.some_ne_none s')
      rw [if_neg hnot, Option.map_some, h.sessions_slots hclients hnodup hserved]
      congr 1
      refine List.map_congr_left fun x hx => ?_
      obtain ⟨c, -, rfl⟩ := Server.mem_sessions.mp hx
      have hslot := Server.exists_slot_iff (s := s) (w := w) (c := c)
      rw [Session.wake]
      exact if_congr hslot rfl rfl

theorem SessionsOk.sessions_step {launch : Launch} (s : Server) (w : Wakeup)
    (h : SessionsOk launch s) :
    (serverStep s w).map Server.sessions = sessionsStep launch s.sessions w := by
  have hsocket : s.connectionSocket ∈ s.monitored.selected w.ready ↔
      launch.connectionSocket ∈ w.ready := by
    rw [FdSet.mem_selected, and_iff_right h.serverOk.socket_monitored, h.socket]
  have hstdin : 0 ∈ s.monitored.selected w.ready ↔ 0 ∈ w.ready := by
    rw [FdSet.mem_selected, and_iff_right h.serverOk.stdin_monitored]
  unfold serverStep sessionsStep
  by_cases hconnects : launch.connectionSocket ∈ w.ready
  · have hunused : 0 ≤ w.dataSocket ∧ w.dataSocket ∉ s.openFds ↔
        0 ≤ w.dataSocket ∧ ¬ InUse launch s.sessions w.dataSocket := by rw [h.mem_openFds]
    rw [if_pos (hsocket.mpr hconnects), if_pos hconnects, handleConnectionInitiationRequest, accept]
    by_cases haccept : 0 ≤ w.dataSocket ∧ w.dataSocket ∉ s.openFds
    · rw [if_pos haccept, if_pos (hunused.mp haccept), Option.map_some, Option.map_some,
        h.serverOk.sessions_accepted haccept.1 haccept.2]
    · rw [if_neg haccept, if_neg (mt hunused.mpr haccept)]
      rfl
  rw [if_neg (mt hsocket.mp hconnects), if_neg hconnects]
  by_cases hconsole : (0 : ℤ) ∈ w.ready
  · rw [if_pos (hstdin.mpr hconsole), if_pos hconsole, Option.map_map]
    rfl
  · rw [if_neg (mt hstdin.mp hconsole), if_neg hconsole]
    apply h.serverOk.sessions_served
    refine ⟨fun hmem => ?_, mt hstdin.mp hconsole, mt hsocket.mp hconnects⟩
    exact (mem_occupied.mp (FdSet.mem_selected.mp hmem).1).2 rfl

/-- In every run the clients see what they would see of single-client servers side by side: each
iteration of the loop over the slots, though it changes the table that it goes over, reads exactly
once from each monitored client that is ready; only a client that connects while 30 are monitored is
never read from; and, with `FD_ISSET` false for free slots, the server exits exactly when `accept` or a
call of `read` for a monitored descriptor fails. -/
theorem clients_served_side_by_side (launch : Launch) (ws : List Wakeup) :
    (run serverStep (Server.init launch) ws).map Server.sessions =
      run (sessionsStep launch) [] ws :=
  run_view SessionsOk.step SessionsOk.sessions_step (SessionsOk.init launch) ws

theorem getElem?_sessionsStep {launch : Launch} {sessions sessions' : List Session} {w : Wakeup}
    (hstep : sessionsStep launch sessions w = some sessions') {k : ℕ} {x : Session}
    (hget : sessions[k]? = some x) :
    sessions'[k]? = some (if Serves launch w then x.wake w else x) := by
  unfold sessionsStep at hstep
  split_ifs at hstep with hconnects haccept hconsole hfails
  · obtain rfl := Option.some.inj hstep
    rw [if_neg fun hserves => hserves.1 hconnects,
      List.getElem?_append_left (List.getElem?_eq_some_iff.mp hget).1, hget]
  · obtain ⟨-, -, rfl⟩ := Option.map_eq_some_iff.mp hstep
    rw [if_neg fun hserves => hserves.2 hconsole, hget]
  · obtain rfl := Option.some.inj hstep
    rw [if_pos ⟨hconnects, hconsole⟩, List.getElem?_map, hget, Option.map_some]

theorem getElem?_run_sessionsStep {launch : Launch} {sessions sessions' : List Session}
    {ws : List Wakeup} (hrun : run (sessionsStep launch) sessions ws = some sessions') {k : ℕ}
    {x : Session} (hget : sessions[k]? = some x) :
    sessions'[k]? = some ((ws.filter (Serves launch)).foldl (fun x w => x.wake w) x) := by
  induction ws generalizing sessions x with
  | nil =>
      obtain rfl := Option.some.inj hrun
      exact hget
  | cons w ws ih =>
      obtain ⟨next, hstep, hrest⟩ := run_cons_eq_some.mp hrun
      have hnext := ih hrest (getElem?_sessionsStep hstep hget)
      rw [hnext, List.filter_cons]
      split_ifs with hserves hdecide hdecide
      · rfl
      · exact absurd (decide_eq_true hserves) hdecide
      · exact absurd (of_decide_eq_true hdecide) hserves
      · rfl

/-- What becomes of a client in the rest of a run goes by its own descriptor alone: whatever other
clients are connected and whatever they send, it is read from once in each iteration that serves
clients and finds it ready, with what its socket delivers there. -/
theorem clients_served_alone (launch : Launch) (ws : List Wakeup) :
    Throughout serverStep (fun s => ∀ us s', run serverStep s us = some s' →
      ∀ (k : ℕ) (x : Session), s.sessions[k]? = some x →
        s'.sessions[k]? = some ((us.filter (Serves launch)).foldl (fun x w => x.wake w) x))
      (Server.init launch) ws := by
  refine throughout_of_invariant SessionsOk.step (fun s h us s' hrun k x hget => ?_)
    (SessionsOk.init launch) ws
  have hview := run_view SessionsOk.step SessionsOk.sessions_step h us
  rw [hrun, Option.map_some] at hview
  exact getElem?_run_sessionsStep hview.symm hget

end Multiplexing

end LinuxIPC
