import LinuxIPC.AdminSession
import LinuxIPC.System

/-!
# What a client shows on the way

The server's table is made by the messages it has broadcast. A client reads the dump and then the
broadcasts, so that its table is at any time a part of the dump or a table the server had since it
accepted the client; each message finds the table it was made for, and no operation fails. This holds
of the clients to which no write succeeded after one that failed.
-/

namespace LinuxIPC

open SlotTable Runs

def synchronizeError (amb : Ambient) (rtm : RoutingTable) (syncMsg : SyncMsg) : Option String :=
  match syncMsg.opCode with
  | .create =>
    if (routingTableInsert amb rtm syncMsg.msgBody).2 then none else some "Could not insert record."
  | .update =>
    if (routingTableUpdate rtm syncMsg.msgBody).2 then none else some "Could not update record."
  | .delete =>
    if (routingTableDelete rtm syncMsg.msgBody).ok then none else some "Could not delete record."

def Server.tableAt (s : Server) (k : ℕ) : RoutingTable :=
  (s.broadcasts.take k).foldl applyMessage []

/-- A table that a client with a connection may show: the part of the dump it has read, or the
table of the server after some of the broadcasts. -/
inductive Snapshot (s : Server) (c : Connection) : RoutingTable → Prop
  | dumping (n : ℕ) : Snapshot s c (c.dump.take n)
  | following (k : ℕ) (hsince : c.since ≤ k) (hlength : k ≤ s.broadcasts.length) :
      Snapshot s c (s.tableAt k)

structure ShowsSnapshot (s : Server) (c : Connection) (r : Replica RoutingTable SyncMsg) :
    Prop where
  snapshot : Snapshot s c r.state
  performs : ∀ m, r.queue.head? = some m → ∀ amb,
    Performs m.msgBody m.opCode r.state (synchronizeWithServer amb r.state m) ∧
      synchronizeError amb r.state m = none

structure Consistent (s : System) : Prop where
  table : s.server.tableAt s.server.broadcasts.length = s.server.admin.rtm
  client : ∀ client ∈ s.clients, ∃ c ∈ s.server.connections,
    c.dataSocket = client.dataSocket ∧ c.dump = s.server.tableAt c.since ∧
      ((s.server.feed c).Gapless → ShowsSnapshot s.server c client.replica)

structure LogOk (s : Server) : Prop where
  table : s.tableAt s.broadcasts.length = s.admin.rtm
  performs : ∀ (k : ℕ) (m : SyncMsg), s.broadcasts[k]? = some m →
    Performs m.msgBody m.opCode (s.tableAt k) (s.tableAt (k + 1))
  dump : ∀ c ∈ s.connections, c.dump = s.tableAt c.since
  padded : ∀ c ∈ s.connections, ∀ r ∈ c.dump, r.Padded
  distinct : ∀ c ∈ s.connections, c.dump.Pairwise fun r r' => recordMatches r r' = false

theorem AdminOk.performs_broadcast {a : Admin} {text : List UInt8} {answer : Answer} {m : SyncMsg}
    (h : AdminOk a) (hline : LineEffect a text answer) (hsome : answer.broadcast = some m) :
    m.msgBody.ValidKey ∧ Performs m.msgBody m.opCode a.rtm answer.admin.rtm := by
  cases hline with
  | same reply hreply hreads hignores => simp at hsome
  | reset reply hstate hne hreply => simp at hsome
  | chosen state hstate hne htable => simp at hsome
  | refused destination mask message hreads hmessage hstored hignores => simp at hsome
  | key destination mask hstate hentry hparse hany => simp at hsome
  | gateway hstate hentry hvalid => simp at hsome
  | created hstate hentry hlen =>
      have hkey : a.HasKey := ⟨Or.inl hstate, Or.inr hentry⟩
      obtain rfl := Option.some.inj hsome
      rw [(h.padded_withOif hkey hentry _).copy_eq]
      exact ⟨h.validKey_withOif hkey _, h.performs_create hkey hstate _⟩
  | updated hstate hentry hlen =>
      have hkey : a.HasKey := ⟨Or.inr hstate, Or.inr hentry⟩
      obtain rfl := Option.some.inj hsome
      exact ⟨h.validKey_withOif hkey _, (h.performs_update hkey hstate hentry _).2⟩
  | deleted destination mask hstate hparse hany =>
      obtain rfl := Option.some.inj hsome
      have hvalid : (a.record.withKey destination mask).ValidKey := MsgBody.ValidKey.withKey hparse
      exact ⟨hvalid, (h.performs_delete hvalid hany).2⟩

theorem LogOk.init (start : Startup) : LogOk (Server.init start) where
  table := rfl
  performs := by simp [Server.init]
  dump := by simp [Server.init]
  padded := by simp [Server.init]
  distinct := by simp [Server.init]

/-- One more broadcast leaves the tables before it as they are. -/
theorem tableAt_append {s s' : Server} {ms : List SyncMsg}
    (hlog : s'.broadcasts = s.broadcasts ++ ms) {k : ℕ} (hk : k ≤ s.broadcasts.length) :
    s'.tableAt k = s.tableAt k := by
  rw [Server.tableAt, hlog, List.take_append_of_le_length hk, Server.tableAt]

theorem LogOk.step {s s' : Server} {w : Wakeup} (h : LogOk s) (hs : ServerOk s)
    (heffect : ServerEffect s w s') : LogOk s' := by
  cases heffect with
  | quiet haccepts hreads => exact h
  | accepted haccepts hnonneg hunused =>
      refine ⟨h.table, h.performs, fun c hc => ?_, fun c hc => ?_, fun c hc => ?_⟩ <;>
        rcases List.mem_append.mp hc with hc | hc
      · exact h.dump c hc
      · rw [List.mem_singleton.mp hc]
        exact h.table.symm
      · exact h.padded c hc
      · rw [List.mem_singleton.mp hc]
        exact hs.admin.padded
      · exact h.distinct c hc
      · rw [List.mem_singleton.mp hc]
        exact hs.admin.adminInv.distinct
  | line answer hreads hanswer =>
      have hline := AdminInput.answer_effect hanswer
      have hlog : ((s.answered answer).afterWrites (s.lineWrites w answer.broadcast)).broadcasts =
          s.broadcasts ++ answer.broadcast.toList := rfl
      have htable : (s.broadcasts ++ answer.broadcast.toList).foldl applyMessage [] =
          answer.admin.rtm := by
        have hbefore := h.table
        rw [Server.tableAt, List.take_length] at hbefore
        rw [List.foldl_append, hbefore]
        exact foldl_broadcast hline
      refine ⟨?_, fun k m hm => ?_, fun c hc => ?_, h.padded, h.distinct⟩
      · rw [Server.tableAt, hlog, List.take_length]
        exact htable
      · rw [hlog] at hm
        by_cases hk : k < s.broadcasts.length
        · rw [List.getElem?_append_left hk] at hm
          rw [tableAt_append hlog hk.le, tableAt_append hlog hk]
          exact h.performs k m hm
        · rw [List.getElem?_append_right (by omega)] at hm
          obtain ⟨hlt, hget⟩ := List.getElem?_eq_some_iff.mp hm
          have hsome : answer.broadcast = some m :=
            Option.mem_toList.mp (hget ▸ List.getElem_mem hlt)
          have hone : answer.broadcast.toList.length = 1 := by rw [hsome, Option.toList_some]; rfl
          obtain rfl : k = s.broadcasts.length := by omega
          have hafter : ((s.answered answer).afterWrites
              (s.lineWrites w answer.broadcast)).tableAt (s.broadcasts.length + 1) =
                answer.admin.rtm := by
            rw [Server.tableAt, hlog, List.take_of_length_le (by simp [hone])]
            exact htable
          rw [tableAt_append hlog le_rfl, h.table, hafter]
          exact (hs.admin.performs_broadcast hline hsome).2
      · rw [tableAt_append hlog (hs.since_le c hc)]
        exact h.dump c hc

theorem Performs.no_error {m : SyncMsg} {rt rt' : RoutingTable}
    (h : Performs m.msgBody m.opCode rt rt') (amb : Ambient) :
    synchronizeError amb rt m = none := by
  obtain ⟨opCode, body⟩ := m
  cases h with
  | create hothers => rfl
  | @update r before after hmatch hothers =>
      have hfront : ∀ q ∈ before, recordMatches q body = false :=
        fun q hq => hothers q (List.mem_append_left _ hq)
      simp [synchronizeError, routingTableUpdate_split hfront hmatch]
  | @delete r before after hmatch hothers =>
      have hfront : ∀ q ∈ before, recordMatches q body = false :=
        fun q hq => hothers q (List.mem_append_left _ hq)
      simp [synchronizeError, routingTableDelete_split hfront hmatch]

section Due

variable {s : Server} {c : Connection}

theorem foldl_due_append (h : LogOk s) (hc : c ∈ s.connections) (n : ℕ) :
    ((s.feed c).due.take n).foldl applyMessage [] =
      ((s.broadcasts.drop c.since).take (n - c.dump.length)).foldl applyMessage
        (c.dump.take n) := by
  have hlength : (dumpMessages c.dump).length = c.dump.length := List.length_map _
  have hpadded : ∀ r ∈ c.dump.take n, r.Padded :=
    fun r hr => h.padded c hc r (List.mem_of_mem_take hr)
  have hdump : ((dumpMessages c.dump).take n).foldl applyMessage [] = c.dump.take n := by
    have hfold := foldl_dumpMessages hpadded []
    rwa [dumpMessages, List.map_take] at hfold
  change ((dumpMessages c.dump ++ s.broadcasts.drop c.since).take n).foldl applyMessage [] = _
  rw [List.take_append, List.foldl_append, hlength, hdump]

/-- The table after the first `n` messages that a connection is due, within the dump. -/
theorem LogOk.foldl_due_dump (h : LogOk s) (hc : c ∈ s.connections) {n : ℕ}
    (hn : n ≤ c.dump.length) :
    ((s.feed c).due.take n).foldl applyMessage [] = c.dump.take n := by
  rw [foldl_due_append h hc, Nat.sub_eq_zero_of_le hn]
  rfl

/-- The table after the first `n` messages that a connection is due, from the end of the dump on. -/
theorem LogOk.foldl_due_log (h : LogOk s) (hc : c ∈ s.connections) {n : ℕ}
    (hn : c.dump.length ≤ n) :
    ((s.feed c).due.take n).foldl applyMessage [] =
      s.tableAt (c.since + (n - c.dump.length)) := by
  rw [foldl_due_append h hc, List.take_of_length_le hn, h.dump c hc, Server.tableAt,
    Server.tableAt, ← List.foldl_append, ← List.take_add]

/-- The message after the first `n` that a connection is due, on the table made by those. -/
theorem LogOk.performs_due (h : LogOk s) (hc : c ∈ s.connections) {n : ℕ} {m : SyncMsg}
    (hm : (s.feed c).due[n]? = some m) :
    Performs m.msgBody m.opCode (((s.feed c).due.take n).foldl applyMessage [])
      (((s.feed c).due.take (n + 1)).foldl applyMessage []) := by
  have hlength : (dumpMessages c.dump).length = c.dump.length := List.length_map _
  change (dumpMessages c.dump ++ s.broadcasts.drop c.since)[n]? = some m at hm
  by_cases hn : n < c.dump.length
  · rw [h.foldl_due_dump hc hn.le, h.foldl_due_dump hc hn]
    rw [List.getElem?_append_left (by omega), dumpMessages, List.getElem?_map,
      List.getElem?_eq_getElem hn] at hm
    obtain rfl := Option.some.inj hm
    rw [List.take_succ_eq_append_getElem hn]
    refine Performs.create fun q hq => ?_
    obtain ⟨i, hi, rfl⟩ := List.mem_iff_getElem.mp hq
    rw [List.getElem_take]
    rw [List.length_take] at hi
    exact List.pairwise_iff_getElem.mp (h.distinct c hc) i n _ hn (by omega)
  · rw [h.foldl_due_log hc (by omega), h.foldl_due_log hc (by omega)]
    rw [List.getElem?_append_right (by omega), hlength, List.getElem?_drop] at hm
    have hnext : c.since + (n + 1 - c.dump.length) = c.since + (n - c.dump.length) + 1 := by omega
    rw [hnext]
    exact h.performs _ m hm

/-- A replica that has applied the first messages of the feed of a connection shows a snapshot. -/
theorem LogOk.showsSnapshot (h : LogOk s) (hs : ServerOk s) (hc : c ∈ s.connections)
    {r : Replica RoutingTable SyncMsg} {sent : List SyncMsg} (hdue : sent <+: (s.feed c).due)
    (hreceived : r.Received applyMessage [] sent) : ShowsSnapshot s c r := by
  obtain ⟨read, rfl, hstate⟩ := hreceived
  obtain ⟨rest, hrest⟩ := hdue
  have hread : read = (s.feed c).due.take read.length := by
    rw [← hrest, List.append_assoc, List.take_left]
  have htable : r.state = ((s.feed c).due.take read.length).foldl applyMessage [] := by
    rw [← hread]
    exact hstate
  refine ⟨?_, fun m hm amb => ?_⟩
  · rw [htable]
    by_cases hn : read.length ≤ c.dump.length
    · rw [h.foldl_due_dump hc hn]
      exact Snapshot.dumping _
    · rw [h.foldl_due_log hc (by omega)]
      refine Snapshot.following _ (Nat.le_add_right _ _) ?_
      have hlength : (s.feed c).due.length =
          c.dump.length + (s.broadcasts.length - c.since) := by
        simp [Server.feed, dumpMessages]
      have hle : read.length ≤ (s.feed c).due.length := by
        rw [← hrest]
        simp
      have hsince := hs.since_le c hc
      omega
  · obtain ⟨queue, hqueue⟩ : ∃ queue, r.queue = m :: queue := by
      cases hr : r.queue with
      | nil => simp [hr] at hm
      | cons m' queue => exact ⟨queue, by simpa [hr] using hm⟩
    have hget : (s.feed c).due[read.length]? = some m := by
      rw [← hrest, hqueue]
      simp
    have hperforms := h.performs_due hc hget
    have hafter : ((s.feed c).due.take (read.length + 1)).foldl applyMessage [] =
        synchronizeWithServer amb r.state m := by
      rw [List.take_add_one, hget, List.foldl_append, ← htable, synchronizeWithServer_eq]
      rfl
    rw [← htable, hafter] at hperforms
    exact ⟨hperforms, hperforms.no_error amb⟩

end Due

/-- The invariant: every client has applied a part of what was written to it. -/
structure SnapshotsOk (s : System) : Prop where
  system : SystemOk s
  log : LogOk s.server
  received : ∀ client ∈ s.clients, client.replica.Received applyMessage []
    (deliveredTo s.server.writes client.dataSocket)

theorem SnapshotsOk.init (start : Startup) : SnapshotsOk (System.init start) where
  system := SystemOk.init start
  log := LogOk.init start
  received := by simp [System.init]

theorem SnapshotsOk.serve {s s' : System} {w : Wakeup} (h : SnapshotsOk s)
    (hstep : systemStep s (.serve w) = some s') : SnapshotsOk s' := by
  refine ⟨h.system.serve hstep, ?_, ?_⟩ <;>
    obtain ⟨server, hserver, rfl⟩ := Option.map_eq_some_iff.mp hstep
  · exact h.log.step h.system.feeds.server (serverStep_effect h.system.feeds.server hserver)
  · obtain ⟨ws, cs, hwrites, hconnections, hnew⟩ :=
      (serverStep_effect h.system.feeds.server hserver).histories
    intro client hclient
    obtain ⟨before, hbefore, rfl⟩ := List.mem_map.mp hclient
    have hold : before.replica.Received applyMessage []
        (deliveredTo s.server.writes before.dataSocket) := by
      rcases List.mem_append.mp hbefore with hbefore | hbefore
      · exact h.received before hbefore
      · obtain ⟨c, hc, rfl⟩ := List.mem_map.mp hbefore
        rw [hconnections, List.drop_left] at hc
        rw [h.system.feeds.server.deliveredTo_new (hnew c hc)]
        exact ⟨[], rfl, rfl⟩
    simp only [Client.send, hwrites, List.drop_left, deliveredTo_append]
    exact hold.send applyMessage _

theorem SnapshotsOk.modify {s s' : System} (h : SnapshotsOk s) (hs' : SystemOk s') {k : ℕ}
    {f : Client → Client} (heq : s' = { s with clients := s.clients.modify k f })
    (hreceived : ∀ client sent, client.replica.Received applyMessage [] sent →
      (f client).replica.Received applyMessage [] sent)
    (hsocket : ∀ client, (f client).dataSocket = client.dataSocket) : SnapshotsOk s' := by
  subst heq
  refine ⟨hs', h.log, fun client hclient => ?_⟩
  obtain ⟨i, hi, rfl⟩ := List.mem_iff_getElem.mp hclient
  have hi' : i < s.clients.length := by simpa using hi
  have hbefore := h.received _ (List.getElem_mem hi')
  simp only [List.getElem_modify]
  split_ifs
  · rw [hsocket]
    exact hreceived _ _ hbefore
  · exact hbefore

theorem SnapshotsOk.step {s s' : System} {e : SystemEvent} (h : SnapshotsOk s)
    (hstep : systemStep s e = some s') : SnapshotsOk s' := by
  have hsystem := h.system.step hstep
  cases e with
  | serve w => exact h.serve hstep
  | deliver k amb =>
      refine h.modify hsystem (Option.some.inj hstep).symm (fun client sent hclient => ?_)
        fun client => ?_
      · unfold Client.read
        split_ifs
        · exact hclient.deliver applyMessage (synchronizeWithServer_eq amb)
        · exact hclient
      · unfold Client.read
        split_ifs <;> rfl
  | disconnect k =>
      exact h.modify hsystem (Option.some.inj hstep).symm (fun _ _ hclient => hclient) fun _ => rfl

theorem SnapshotsOk.consistent {s : System} (h : SnapshotsOk s) : Consistent s where
  table := h.log.table
  client := by
    intro client hclient
    obtain ⟨c, hc, hfd⟩ := h.system.joined client hclient
    refine ⟨c, hc, hfd, h.log.dump c hc, fun hgapless => ?_⟩
    have hreceived := h.received client hclient
    rw [← hfd, deliveredTo_eq_delivered] at hreceived
    exact h.log.showsSnapshot h.system.feeds.server hc
      (Feed.delivered_isPrefix (h.system.feeds.feeds c hc) hgapless) hreceived

/-- In every run of the server and its clients, a client to which no write succeeded after one that
failed shows only tables the server had, and no message makes it report an error. -/
theorem clients_show_snapshots (start : Startup) (es : List SystemEvent) :
    Throughout systemStep Consistent (System.init start) es :=
  throughout_of_invariant (fun _ _ _ h hstep => h.step hstep) (fun _ h => h.consistent)
    (SnapshotsOk.init start) es

end LinuxIPC
