import LinuxIPC.ClientSnapshots
import LinuxIPC.KeyedLog

/-!
# The route of a destination

The broadcasts of the server are a log of its table: the record found for a destination and mask is
the one that was last broadcast with this key, and there is none when that was a deletion or nothing
was broadcast. The table of a client that has read what was sent to it, which comes in whole messages,
answers alike. A key is what the server stores of the line entered: an address that was cut is found
under what is left of it, and another spelling of an address is another key.
-/

namespace LinuxIPC

open CString SlotTable Runs

def SyncMsg.entry (m : SyncMsg) : Option MsgBody :=
  if m.opCode = .delete then none else some m.msgBody

/-- The record last broadcast for a key, unless the last broadcast for it was a deletion. -/
def lastBroadcast (log : List SyncMsg) (key : CharArray ipAddrLen × UInt16) : Option MsgBody :=
  KeyedLog.lookup (fun m => m.msgBody.key) SyncMsg.entry log key

/-- The records of a table and the answers of `routing_table_contains_dst_subnet` are those of the
last broadcasts. -/
structure RoutesBy (log : List SyncMsg) (rt : RoutingTable) : Prop where
  find : ∀ key, rt.find? (·.key = key) = lastBroadcast log key
  contains : ∀ record : MsgBody, record.ValidKey →
    routingTableContainsDstSubnet rt record.fromDestination record.mask =
      (lastBroadcast log record.key).isSome

structure RoutesAlike (s : System) : Prop where
  server : RoutesBy s.server.broadcasts s.server.admin.rtm
  client : ∀ client ∈ s.clients, client.dataSocket ∈ s.server.monitored.slots →
    client.replica.queue = [] → RoutesBy s.server.broadcasts client.replica.state

def Logged (log : List SyncMsg) (rt : RoutingTable) : Prop :=
  KeyedLog.Holds (fun m => m.msgBody.key) SyncMsg.entry MsgBody.key rt log

theorem Performs.logged {m : SyncMsg} {log : List SyncMsg} {rt rt' : RoutingTable}
    (hperforms : Performs m.msgBody m.opCode rt rt') (h : Logged log rt)
    (hvalid : m.msgBody.ValidKey) (hrt : ∀ r ∈ rt, r.ValidKey) : Logged (log ++ [m]) rt' := by
  obtain ⟨opCode, body⟩ := m
  have hkey : ∀ {r : MsgBody}, r ∈ rt → (recordMatches r body = true ↔ r.key = body.key) := by
    intro r hr
    rw [(hrt r hr).recordMatches_eq hvalid, decide_eq_true_eq]
  have hne : ∀ {r : MsgBody}, r ∈ rt → recordMatches r body = false → r.key ≠ body.key :=
    fun hr hfalse heq => Bool.false_ne_true (hfalse.symm.trans ((hkey hr).mpr heq))
  cases hperforms with
  | create hothers => exact h.add (fun q hq => hne hq (hothers q hq)) rfl rfl
  | @update r before after hmatch hothers =>
      have hmem : ∀ q ∈ before ++ after, q ∈ before ++ r :: after :=
        fun q hq => List.perm_middle.mem_iff.mpr (List.mem_cons_of_mem _ hq)
      exact h.replace (fun q hq => hne (hmem q hq) (hothers q hq)) ((hkey (by simp)).mp hmatch) rfl
        rfl
  | @delete r before after hmatch hothers =>
      have hmem : ∀ q ∈ before ++ after, q ∈ before ++ r :: after :=
        fun q hq => List.perm_middle.mem_iff.mpr (List.mem_cons_of_mem _ hq)
      exact h.remove (fun q hq => hne (hmem q hq) (hothers q hq)) ((hkey (by simp)).mp hmatch) rfl

theorem Logged.routesBy {log : List SyncMsg} {rt : RoutingTable} (h : Logged log rt)
    (hrt : ∀ r ∈ rt, r.ValidKey) : RoutesBy log rt where
  find := h
  contains := by
    intro record hrecord
    rw [routingTableContainsDstSubnet_eq, any_recordMatches hrt hrecord, Bool.eq_iff_iff,
      decide_eq_true_eq, lastBroadcast, ← h, List.find?_isSome, RoutingTable.keys, List.mem_map]
    simp

theorem Logged.step {s s' : Server} {w : Wakeup} (h : Logged s.broadcasts s.admin.rtm)
    (hs : ServerOk s) (heffect : ServerEffect s w s') : Logged s'.broadcasts s'.admin.rtm := by
  cases heffect with
  | quiet haccepts hreads => exact h
  | accepted haccepts hnonneg hunused => exact h
  | line answer hreads hanswer =>
      have hline := AdminInput.answer_effect hanswer
      change Logged (s.broadcasts ++ answer.broadcast.toList) answer.admin.rtm
      cases hbroadcast : answer.broadcast with
      | none =>
          rw [(SessionOpen.of_effect hline hbroadcast).table, Option.toList_none, List.append_nil]
          exact h
      | some m =>
          obtain ⟨hvalid, hperforms⟩ := hs.admin.performs_broadcast hline hbroadcast
          exact hperforms.logged h hvalid hs.admin.validKey

structure RoutesOk (s : System) : Prop where
  system : SystemOk s
  logged : Logged s.server.broadcasts s.server.admin.rtm

theorem RoutesOk.step {s s' : System} {e : SystemEvent} (h : RoutesOk s)
    (hstep : systemStep s e = some s') : RoutesOk s' := by
  refine ⟨h.system.step hstep, ?_⟩
  cases e with
  | serve w =>
      obtain ⟨server, hserver, rfl⟩ := Option.map_eq_some_iff.mp hstep
      exact h.logged.step h.system.feeds.server (serverStep_effect h.system.feeds.server hserver)
  | deliver k amb =>
      rw [← Option.some.inj hstep]
      exact h.logged
  | disconnect k =>
      rw [← Option.some.inj hstep]
      exact h.logged

theorem RoutesOk.routesAlike {s : System} (h : RoutesOk s) : RoutesAlike s where
  server := h.logged.routesBy h.system.feeds.server.admin.validKey
  client := by
    intro client hclient hmonitored hqueue
    have hstate := h.system.settled_eq hclient hmonitored
    rw [Replica.settled_of_queue applyMessage hqueue] at hstate
    rw [hstate]
    exact h.logged.routesBy h.system.feeds.server.admin.validKey

/-- In every run of the server and its clients, the record found for a stored destination and mask, at
the server and at every client that is up to date, is the one that the server broadcast last for it. -/
theorem routes_are_last_broadcast (start : Startup) (es : List SystemEvent) :
    Throughout systemStep RoutesAlike (System.init start) es := by
  have hinit : RoutesOk (System.init start) :=
    ⟨SystemOk.init start, KeyedLog.holds_nil _ _ _⟩
  exact throughout_of_invariant (fun s e s' h hstep => h.step hstep) (fun s h => h.routesAlike)
    hinit es

end LinuxIPC
