import LinuxIPC.ClientSnapshots

/-!
# Clients do not go back (`rtm_client.c`)

The tables that a client of a connection may show come one after the other: the parts of the dump,
and then the table after each broadcast. A client moves on in this order only, and so it never
shows an older table than it has shown before.
-/

namespace LinuxIPC

open SlotTable Runs

def Server.version (s : Server) (c : Connection) (n : ℕ) : RoutingTable :=
  if n ≤ c.dump.length then c.dump.take n else s.tableAt (c.since + (n - c.dump.length))

def Server.MovesOn (s : Server) (c : Connection) (rt rt' : RoutingTable) : Prop :=
  ∃ i j, i ≤ j ∧ j ≤ (s.feed c).due.length ∧ rt = s.version c i ∧ rt' = s.version c j

/-- Whatever happens next, no client goes back, as long as it has missed no message in between. -/
def ReadsOn (s : System) : Prop :=
  ∀ later s', run systemStep s later = some s' →
    ∀ (k : ℕ) (client : Client), s.clients[k]? = some client →
      ∃ client' c, s'.clients[k]? = some client' ∧ c ∈ s'.server.connections ∧
        c.dataSocket = client.dataSocket ∧ client'.dataSocket = client.dataSocket ∧
          ((s'.server.feed c).Gapless →
            s'.server.MovesOn c client.replica.state client'.replica.state)

theorem LogOk.version_eq {s : Server} {c : Connection} (h : LogOk s) (hc : c ∈ s.connections)
    (n : ℕ) : s.version c n = ((s.feed c).due.take n).foldl applyMessage [] := by
  unfold Server.version
  split_ifs with hn
  · exact (h.foldl_due_dump hc hn).symm
  · exact (h.foldl_due_log hc (not_le.mp hn).le).symm

structure HasRead (k : ℕ) (dataSocket : ℤ) (read : List SyncMsg) (s : System) : Prop where
  snapshots : SnapshotsOk s
  client : ∃ client more, s.clients[k]? = some client ∧ client.dataSocket = dataSocket ∧
    client.replica.Read applyMessage [] (deliveredTo s.server.writes dataSocket) (read ++ more)

section Step

variable {k : ℕ} {dataSocket : ℤ} {read : List SyncMsg} {s s' : System}

theorem HasRead.serve {w : Wakeup} (h : HasRead k dataSocket read s)
    (hstep : systemStep s (.serve w) = some s') : HasRead k dataSocket read s' := by
  refine ⟨h.snapshots.step hstep, ?_⟩
  obtain ⟨client, more, hget, rfl, hread⟩ := h.client
  obtain ⟨server, hserver, rfl⟩ := Option.map_eq_some_iff.mp hstep
  obtain ⟨ws, -, hwrites, -, -⟩ :=
    (serverStep_effect h.snapshots.system.feeds.server hserver).histories
  refine ⟨client.send ws, more, ?_, rfl, ?_⟩
  · rw [List.getElem?_map, List.getElem?_append_left (List.getElem?_eq_some_iff.mp hget).1, hget,
      Option.map_some, hwrites, List.drop_left]
  · rw [hwrites, deliveredTo_append]
    exact hread.send applyMessage _

theorem HasRead.modify (h : HasRead k dataSocket read s) {i : ℕ} {f : Client → Client}
    (hs' : SnapshotsOk s') (heq : s' = { s with clients := s.clients.modify i f })
    (hsocket : ∀ client, (f client).dataSocket = client.dataSocket)
    (hread : ∀ client sent before, client.replica.Read applyMessage [] sent before →
      ∃ more, (f client).replica.Read applyMessage [] sent (before ++ more)) :
    HasRead k dataSocket read s' := by
  subst heq
  refine ⟨hs', ?_⟩
  obtain ⟨client, more, hget, rfl, hbefore⟩ := h.client
  by_cases hik : i = k
  · subst hik
    obtain ⟨next, hnext⟩ := hread client _ _ hbefore
    refine ⟨f client, more ++ next, ?_, hsocket client, ?_⟩
    · rw [List.getElem?_modify_eq, hget]
      rfl
    · rw [← List.append_assoc]
      exact hnext
  · exact ⟨client, more, (List.getElem?_modify_ne f s.clients hik).trans hget, rfl, hbefore⟩

theorem HasRead.step {e : SystemEvent} (h : HasRead k dataSocket read s)
    (hstep : systemStep s e = some s') : HasRead k dataSocket read s' := by
  have hs' := h.snapshots.step hstep
  cases e with
  | serve w => exact h.serve hstep
  | deliver i amb =>
      refine h.modify hs' (Option.some.inj hstep).symm (fun client => ?_) ?_
      · unfold Client.read
        split_ifs <;> rfl
      · intro client sent before hbefore
        unfold Client.read
        split_ifs
        · exact hbefore.deliver applyMessage (synchronizeWithServer_eq amb)
        · exact ⟨[], by rwa [List.append_nil]⟩
  | disconnect i =>
      exact h.modify hs' (Option.some.inj hstep).symm (fun _ => rfl)
        fun client sent before hbefore => ⟨[], by rwa [List.append_nil]⟩

end Step

/-- What a client has read since is behind what it had read. -/
theorem SnapshotsOk.readsOn {s : System} (h : SnapshotsOk s) : ReadsOn s := by
  intro later s' hrun k client hget
  have hclient := List.mem_of_getElem? hget
  obtain ⟨read, hread⟩ := h.received client hclient
  have hstart : HasRead k client.dataSocket read s :=
    ⟨h, client, [], hget, rfl, by rwa [List.append_nil]⟩
  obtain ⟨h', client', more, hget', hfd, hread'⟩ :=
    run_invariant (fun _ _ _ hs hstep => HasRead.step hs hstep) hstart hrun
  obtain ⟨c, hc, hcfd⟩ := h'.system.joined client' (List.mem_of_getElem? hget')
  refine ⟨client', c, hget', hc, hcfd.trans hfd, hfd, fun hgapless => ?_⟩
  have hprefix := Feed.delivered_isPrefix (h'.system.feeds.feeds c hc) hgapless
  rw [← deliveredTo_eq_delivered, hcfd, hfd, hread'.sent_eq] at hprefix
  obtain ⟨rest, hrest⟩ := hprefix
  have htake : (s'.server.feed c).due.take (read ++ more).length = read ++ more := by
    rw [← hrest, List.append_assoc, List.take_left]
  have hfirst : (s'.server.feed c).due.take read.length = read := by
    rw [← hrest, List.append_assoc, List.append_assoc, List.take_left]
  refine ⟨read.length, (read ++ more).length, ?_, ?_, ?_, ?_⟩
  · rw [List.length_append]
    exact Nat.le_add_right _ _
  · rw [← htake]
    exact List.length_take_le' _ _
  · rw [h'.log.version_eq hc, hfirst]
    exact hread.state_eq
  · rw [h'.log.version_eq hc, htake]
    exact hread'.state_eq

end LinuxIPC
