import LinuxIPC.Replica
import LinuxIPC.ServerFeeds

/-!
# The server and its clients (`rtm_client.c`)

Each client has its own copy of the table and is connected by a channel that delivers whole messages
in order. A client joins when its connection is accepted; the writes that succeed on its data socket
enter its channel. The table of a client that is still monitored, once it has read what is in
flight, is the table of the server.
-/

namespace LinuxIPC

open SlotTable Runs

def synchronizeWithServer (amb : Ambient) (rtm : RoutingTable) (syncMsg : SyncMsg) :
    RoutingTable :=
  match syncMsg.opCode with
  | .create => (routingTableInsert amb rtm syncMsg.msgBody).1
  | .update => (routingTableUpdate rtm syncMsg.msgBody).1
  | .delete => (routingTableDelete rtm syncMsg.msgBody).table

/-- The messages read one after the other, the `k`-th of them in the memory `amb k`. -/
def synchronizeAll (amb : ℕ → Ambient) : RoutingTable → List SyncMsg → RoutingTable
  | rtm, [] => rtm
  | rtm, syncMsg :: rest =>
    synchronizeAll (fun k => amb (k + 1)) (synchronizeWithServer (amb 0) rtm syncMsg) rest

/-- A client, by the data socket of its connection: its table, what is in flight to it, and whether
it is still there to read. -/
structure Client where
  dataSocket : ℤ
  replica : Replica RoutingTable SyncMsg
  connected : Bool

structure System where
  server : Server
  clients : List Client

inductive SystemEvent where
  | serve (w : Wakeup)
  | deliver (k : ℕ) (amb : Ambient)
  | disconnect (k : ℕ)

def System.init (start : Startup) : System := ⟨Server.init start, []⟩

def deliveredTo (ws : List Write) (fd : ℤ) : List SyncMsg :=
  ((ws.filter fun w => w.dataSocket = fd).filter Write.ok).map Write.syncMsg

def Client.send (ws : List Write) (client : Client) : Client :=
  { client with replica := client.replica.send (deliveredTo ws client.dataSocket) }

def Client.read (amb : Ambient) (client : Client) : Client :=
  if client.connected then
    { client with replica := client.replica.deliver (synchronizeWithServer amb) }
  else client

def systemStep (s : System) : SystemEvent → Option System
  | .serve w =>
    (serverStep s.server w).map fun server =>
      let joined := (server.connections.drop s.server.connections.length).map fun c =>
        ⟨c.dataSocket, ⟨[], []⟩, true⟩
      let written := server.writes.drop s.server.writes.length
      ⟨server, (s.clients ++ joined).map (Client.send written)⟩
  | .deliver k amb => some { s with clients := s.clients.modify k (Client.read amb) }
  | .disconnect k =>
    some { s with clients := s.clients.modify k fun client => { client with connected := false } }

/-- The table of a client that is monitored, with what is in flight to it read, is the server's; two
such clients with nothing in flight have the same table, whenever they joined. -/
structure Converged (s : System) : Prop where
  settled : ∀ client ∈ s.clients, client.dataSocket ∈ s.server.monitored.slots → ∀ amb,
    synchronizeAll amb client.replica.state client.replica.queue = s.server.admin.rtm
  agree : ∀ client ∈ s.clients, ∀ client' ∈ s.clients,
    client.dataSocket ∈ s.server.monitored.slots → client'.dataSocket ∈ s.server.monitored.slots →
      client.replica.queue = [] → client'.replica.queue = [] →
        client.replica.state = client'.replica.state

def applyMessage (rtm : RoutingTable) (syncMsg : SyncMsg) : RoutingTable :=
  synchronizeWithServer Ambient.zero rtm syncMsg

theorem synchronizeWithServer_eq (amb : Ambient) (rtm : RoutingTable) (syncMsg : SyncMsg) :
    synchronizeWithServer amb rtm syncMsg = applyMessage rtm syncMsg := by
  unfold applyMessage synchronizeWithServer
  cases syncMsg.opCode <;> rfl

theorem synchronizeAll_eq (amb : ℕ → Ambient) (rtm : RoutingTable) (msgs : List SyncMsg) :
    synchronizeAll amb rtm msgs = msgs.foldl applyMessage rtm := by
  induction msgs generalizing amb rtm with
  | nil => rfl
  | cons m msgs ih => rw [synchronizeAll, ih, synchronizeWithServer_eq, List.foldl_cons]

theorem foldl_dumpMessages {rt : RoutingTable} (h : ∀ r ∈ rt, r.Padded) (front : RoutingTable) :
    (dumpMessages rt).foldl applyMessage front = front ++ rt := by
  induction rt generalizing front with
  | nil => simp [dumpMessages]
  | cons r rt ih =>
      have hcreate : applyMessage front (prepareSynchronizationMessage .create r) = front ++ [r] := by
        have hinsert := routingTableInsert_eq Ambient.zero front r
        rw [(h r List.mem_cons_self).copy_eq] at hinsert
        exact congrArg Prod.fst hinsert
      have hrest := ih (fun r' hr' => h r' (List.mem_cons_of_mem _ hr')) (front ++ [r])
      rw [dumpMessages, List.map_cons, List.foldl_cons, hcreate]
      rw [dumpMessages] at hrest
      rw [hrest, List.append_assoc, List.singleton_append]

theorem foldl_broadcast {a : Admin} {text : List UInt8} {answer : Answer}
    (hline : LineEffect a text answer) :
    answer.broadcast.toList.foldl applyMessage a.rtm = answer.admin.rtm := by
  cases hline <;> rfl

def DueOk (s : Server) : Prop :=
  ∀ c ∈ s.connections, (s.feed c).due.foldl applyMessage [] = s.admin.rtm

theorem DueOk.step {s s' : Server} {w : Wakeup} (h : DueOk s) (hs : ServerOk s)
    (heffect : ServerEffect s w s') : DueOk s' := by
  cases heffect with
  | quiet haccepts hreads => exact h
  | accepted haccepts hnonneg hunused =>
      intro c hc
      rcases List.mem_append.mp hc with hc | hc
      · rw [hs.feed_accepted hnonneg hunused hc]
        exact h c hc
      · rw [List.mem_singleton.mp hc, hs.feed_new hnonneg hunused]
        exact foldl_dumpMessages hs.admin.padded []
  | line answer hreads hanswer =>
      intro c hc
      have hdue : (s.broadcasts ++ answer.broadcast.toList).drop c.since =
          s.broadcasts.drop c.since ++ answer.broadcast.toList :=
        List.drop_append_of_le_length (hs.since_le c hc)
      have hbefore : (dumpMessages c.dump ++ s.broadcasts.drop c.since).foldl applyMessage [] =
          s.admin.rtm := h c hc
      simp only [Server.feed, Server.afterWrites, Server.answered, hdue]
      rw [← List.append_assoc, List.foldl_append, hbefore]
      exact foldl_broadcast (AdminInput.answer_effect hanswer)

/-- The invariant of the system: each client's settled table is what was delivered to it. -/
structure SystemOk (s : System) : Prop where
  feeds : FeedsOk s.server
  due : DueOk s.server
  joined : ∀ client ∈ s.clients, ∃ c ∈ s.server.connections, c.dataSocket = client.dataSocket
  settled : ∀ client ∈ s.clients, client.replica.settled applyMessage =
    (deliveredTo s.server.writes client.dataSocket).foldl applyMessage []

theorem SystemOk.init (start : Startup) : SystemOk (System.init start) where
  feeds := FeedsOk.init start
  due := by simp [DueOk, System.init, Server.init]
  joined := by simp [System.init]
  settled := by simp [System.init]

theorem deliveredTo_append (ws ws' : List Write) (fd : ℤ) :
    deliveredTo (ws ++ ws') fd = deliveredTo ws fd ++ deliveredTo ws' fd := by
  simp [deliveredTo]

theorem deliveredTo_eq_delivered (s : Server) (c : Connection) :
    deliveredTo s.writes c.dataSocket = (s.feed c).delivered := by
  simp only [deliveredTo, Feed.delivered, Server.feed, callsTo, List.filter_map, List.map_map]
  rfl

theorem ServerEffect.histories {s s' : Server} {w : Wakeup} (heffect : ServerEffect s w s') :
    ∃ ws cs, s'.writes = s.writes ++ ws ∧ s'.connections = s.connections ++ cs ∧
      ∀ c ∈ cs, c.dataSocket ∉ s.openFds := by
  cases heffect with
  | quiet haccepts hreads => exact ⟨[], [], by simp, by simp, by simp⟩
  | accepted haccepts hnonneg hunused => exact ⟨_, _, rfl, rfl, by simpa using hunused⟩
  | line answer hreads hanswer => exact ⟨_, [], rfl, by simp [Server.afterWrites, Server.answered],
      by simp⟩

theorem ServerOk.deliveredTo_new {s : Server} (h : ServerOk s) {fd : ℤ} (hnew : fd ∉ s.openFds) :
    deliveredTo s.writes fd = [] := by
  have hfilter : (s.writes.filter fun w => w.dataSocket = fd) = [] := by
    rw [List.filter_eq_nil_iff]
    intro w hw hfd
    obtain ⟨c, hc, hcfd⟩ := h.written w hw
    exact hnew (of_decide_eq_true hfd ▸ hcfd ▸ (h.connection c hc).2)
  rw [deliveredTo, hfilter, List.filter_nil, List.map_nil]

theorem SystemOk.serve {s s' : System} {w : Wakeup} (h : SystemOk s)
    (hstep : systemStep s (.serve w) = some s') : SystemOk s' := by
  obtain ⟨server, hserver, rfl⟩ := Option.map_eq_some_iff.mp hstep
  have heffect := serverStep_effect h.feeds.server hserver
  obtain ⟨ws, cs, hwrites, hconnections, hnew⟩ := heffect.histories
  refine ⟨serverStep_feedsOk h.feeds hserver, h.due.step h.feeds.server heffect, ?_, ?_⟩
  · intro client hclient
    obtain ⟨before, hbefore, rfl⟩ := List.mem_map.mp hclient
    rcases List.mem_append.mp hbefore with hbefore | hbefore
    · obtain ⟨c, hc, hfd⟩ := h.joined before hbefore
      exact ⟨c, by simp [hconnections, hc], hfd⟩
    · obtain ⟨c, hc, rfl⟩ := List.mem_map.mp hbefore
      exact ⟨c, List.mem_of_mem_drop hc, rfl⟩
  · intro client hclient
    obtain ⟨before, hbefore, rfl⟩ := List.mem_map.mp hclient
    have hold : before.replica.settled applyMessage =
        (deliveredTo s.server.writes before.dataSocket).foldl applyMessage [] := by
      rcases List.mem_append.mp hbefore with hbefore | hbefore
      · exact h.settled before hbefore
      · obtain ⟨c, hc, rfl⟩ := List.mem_map.mp hbefore
        rw [hconnections, List.drop_left] at hc
        rw [h.feeds.server.deliveredTo_new (hnew c hc)]
        rfl
    simp only [Client.send, hwrites, List.drop_left]
    rw [Replica.settled_send, hold, deliveredTo_append, List.foldl_append]

theorem SystemOk.modify {s : System} (h : SystemOk s) (k : ℕ) {f : Client → Client}
    (hsocket : ∀ client, (f client).dataSocket = client.dataSocket)
    (hsettled : ∀ client, (f client).replica.settled applyMessage =
      client.replica.settled applyMessage) :
    SystemOk { s with clients := s.clients.modify k f } := by
  have hmem : ∀ client ∈ s.clients.modify k f, ∃ before ∈ s.clients,
      client.dataSocket = before.dataSocket ∧
        client.replica.settled applyMessage = before.replica.settled applyMessage := by
    intro client hclient
    obtain ⟨i, hi, rfl⟩ := List.mem_iff_getElem.mp hclient
    rw [List.length_modify] at hi
    refine ⟨s.clients[i], List.getElem_mem hi, ?_⟩
    rw [List.getElem_modify]
    split_ifs
    · exact ⟨hsocket _, hsettled _⟩
    · exact ⟨rfl, rfl⟩
  refine ⟨h.feeds, h.due, fun client hclient => ?_, fun client hclient => ?_⟩
  · obtain ⟨before, hbefore, hfd, -⟩ := hmem client hclient
    rw [hfd]
    exact h.joined before hbefore
  · obtain ⟨before, hbefore, hfd, heq⟩ := hmem client hclient
    rw [hfd, heq]
    exact h.settled before hbefore

theorem SystemOk.step {s s' : System} {e : SystemEvent} (h : SystemOk s)
    (hstep : systemStep s e = some s') : SystemOk s' := by
  cases e with
  | serve w => exact h.serve hstep
  | deliver k amb =>
      rw [← Option.some.inj hstep]
      refine h.modify k (fun client => ?_) fun client => ?_
      · unfold Client.read
        split_ifs <;> rfl
      · unfold Client.read
        split_ifs
        · exact Replica.settled_deliver applyMessage (synchronizeWithServer_eq amb) _
        · rfl
  | disconnect k =>
      rw [← Option.some.inj hstep]
      exact h.modify k (fun _ => rfl) fun _ => rfl

theorem SystemOk.settled_eq {s : System} (h : SystemOk s) {client : Client}
    (hclient : client ∈ s.clients) (hmonitored : client.dataSocket ∈ s.server.monitored.slots) :
    client.replica.settled applyMessage = s.server.admin.rtm := by
  obtain ⟨c, hc, hfd⟩ := h.joined client hclient
  have hlive : c.dataSocket ∈ s.server.dataSockets :=
    List.mem_filter.mpr ⟨hfd ▸ hmonitored, (h.feeds.server.connection c hc).1⟩
  have hdelivered := Feed.delivered_eq_due (h.feeds.feeds c hc) (decide_eq_true hlive)
  rw [h.settled client hclient, ← hfd, deliveredTo_eq_delivered, hdelivered]
  exact h.due c hc

theorem SystemOk.converged {s : System} (h : SystemOk s) : Converged s where
  settled := by
    intro client hclient hmonitored amb
    rw [synchronizeAll_eq]
    exact h.settled_eq hclient hmonitored
  agree := by
    intro client hclient client' hclient' hmonitored hmonitored' hqueue hqueue'
    rw [← Replica.settled_of_queue applyMessage hqueue,
      ← Replica.settled_of_queue applyMessage hqueue', h.settled_eq hclient hmonitored,
      h.settled_eq hclient' hmonitored']

/-- Every monitored client converges to the server's table, in every state that any run of the
server and its clients reaches. -/
theorem clients_converge (start : Startup) (es : List SystemEvent) :
    Throughout systemStep Converged (System.init start) es :=
  throughout_of_invariant (fun _ _ _ h hstep => h.step hstep) (fun _ h => h.converged)
    (SystemOk.init start) es

end LinuxIPC
