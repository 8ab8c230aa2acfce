import LinuxIPC.ClientSnapshots
import LinuxIPC.TablePrinting

/-!
# The tables that the processes show (`rtm_server.c`, `rtm_client.c`)

A client prints its table after each message. What the server sends are copies of records that the
admin entered, and no message, even one that finds another table than the server had, brings anything
else into a client's table. So the table printed by any process is read as its records, and at a
client that has missed no message those are records that the server had.
-/

namespace LinuxIPC

open CString SlotTable Runs

structure MsgBody.Printable (r : MsgBody) : Prop where
  padded : r.Padded
  terminated : r.Terminated
  mask_le : r.mask.toNat ≤ 32
  entered : r.Entered NoNewline

def SyncMsg.Brings (P : MsgBody → Prop) (m : SyncMsg) : Prop := m.opCode ≠ .delete → P m.msgBody

/-- The console of a server, whose last line accepted as a subnet is not kept. -/
def Server.console (s : Server) : Console := ⟨s.admin, s.broadcasts, []⟩

def EntriesFit (s : System) : SystemEvent → Prop
  | .serve w => s.server.ReadsLine w → TextsFit s.server.console w.input
  | _ => True

def ReadBack (rt shown : RoutingTable) : Prop :=
  ∀ memory : PrintMemory, readTable (routingTablePrint memory shown) = rt.map MsgBody.row

/-- What is printed by the server and by each client is read as the records that it has. At a client
with no message missing in between they are those of a table that the server had. -/
structure TablesRead (s : System) : Prop where
  server : ReadBack s.server.admin.rtm s.server.admin.rtm
  client : ∀ client ∈ s.clients, ReadBack client.replica.state client.replica.state
  snapshot : ∀ client ∈ s.clients, ∃ c ∈ s.server.connections,
    c.dataSocket = client.dataSocket ∧ ((s.server.feed c).Gapless →
      ∃ rt, Snapshot s.server c rt ∧ ReadBack rt client.replica.state)

theorem MsgBody.Printable.withRoute {current record : MsgBody} (h : current.Printable)
    (h' : record.Printable) : (current.withRoute record).Printable where
  padded := h.padded.withRoute record
  terminated := h.terminated.withRoute h'.terminated
  mask_le := h.mask_le
  entered := by
    have hgateway : (current.withRoute record).gatewayIp = record.gatewayIp := h'.padded.gatewayIp
    have hoif : (current.withRoute record).oif = record.oif := h'.padded.oif
    exact ⟨h.entered.destination, hgateway ▸ h'.entered.gatewayIp, hoif ▸ h'.entered.oif⟩

/-- Whatever `routing_table_delete` takes out, it puts nothing in. -/
theorem mem_of_mem_routingTableDelete {rt : RoutingTable} {record r : MsgBody}
    (h : r ∈ (routingTableDelete rt record).table) : r ∈ rt := by
  have hremove : ∀ index, (removeAt rt index).1 ⊆ rt := by
    intro index
    unfold removeAt
    split_ifs
    · exact fun _ hr => List.mem_of_mem_eraseIdx hr
    · exact List.Subset.refl rt
  unfold routingTableDelete at h
  dsimp only at h
  split_ifs at h
  · exact h
  · have hsub := hremove (deleteScan record rt (-1) none).1
    split at h <;> rename_i heq <;> rw [heq] at hsub <;> exact hsub h

theorem printable_applyMessage {rt : RoutingTable} {m : SyncMsg} (hm : m.Brings MsgBody.Printable)
    (hrt : ∀ r ∈ rt, r.Printable) : ∀ r ∈ applyMessage rt m, r.Printable := by
  obtain ⟨opCode, record⟩ := m
  cases opCode with
  | create =>
      have hrecord : record.Printable := hm (by simp)
      have happly : applyMessage rt ⟨.create, record⟩ = rt ++ [record.copy] := rfl
      rw [happly, hrecord.padded.copy_eq]
      intro r hr
      rcases List.mem_append.mp hr with hr | hr
      · exact hrt r hr
      · exact List.mem_singleton.mp hr ▸ hrecord
  | update =>
      have hrecord : record.Printable := hm (by simp)
      intro r hr
      rcases mem_routingTableUpdate hr with hr | ⟨current, hcurrent, rfl⟩
      · exact hrt r hr
      · exact (hrt current hcurrent).withRoute hrecord
  | delete => exact fun r hr => hrt r (mem_of_mem_routingTableDelete hr)

theorem printable_foldl {msgs : List SyncMsg} (hmsgs : ∀ m ∈ msgs, m.Brings MsgBody.Printable)
    {rt : RoutingTable} (hrt : ∀ r ∈ rt, r.Printable) :
    ∀ r ∈ msgs.foldl applyMessage rt, r.Printable := by
  induction msgs generalizing rt with
  | nil => exact hrt
  | cons m msgs ih =>
      have hfirst := printable_applyMessage (hmsgs m List.mem_cons_self) hrt
      exact ih (fun m' hm' => hmsgs m' (List.mem_cons_of_mem _ hm')) hfirst

theorem readBack_of_printable {rt : RoutingTable} (h : ∀ r ∈ rt, r.Printable) : ReadBack rt rt :=
  fun memory => readTable_print memory (fun r hr => (h r hr).terminated)
    (fun r hr => (h r hr).mask_le) fun r hr => (h r hr).entered

theorem FieldsEnd.of_entered {a : Admin} {broadcasts : List SyncMsg} {entered : List UInt8}
    (h : FieldsEnd ⟨a, broadcasts, entered⟩) (entered' : List UInt8) :
    FieldsEnd ⟨a, broadcasts, entered'⟩ :=
  ⟨h.destination, h.gateway, h.oif, h.records, h.broadcasts⟩

theorem EntriesOk.brings {a : Admin} {text : List UInt8} {answer : Answer} {m : SyncMsg}
    (h : EntriesOk NoNewline a) (hadmin : AdminOk a) (hzero : 0 ∉ text) (hline : newline ∉ text)
    (heffect : LineEffect a text answer) (hm : answer.broadcast = some m) :
    m.Brings fun r => r.Padded ∧ r.Entered NoNewline := by
  have hbrings : ∀ opCode, a.HasKey → a.entry = .oif → text.length ≤ oifLen →
      SyncMsg.Brings (fun r => r.Padded ∧ r.Entered NoNewline)
        (prepareSynchronizationMessage opCode (a.record.withOif text)) :=
    fun _ hkey hentry hlen _ =>
      ⟨hadmin.padded_withOif hkey hentry text, h.withOif hkey hentry hzero hlen hline⟩
  cases heffect with
  | same _ _ _ _ => simp at hm
  | reset _ _ _ _ => simp at hm
  | chosen _ _ _ _ => simp at hm
  | refused _ _ _ _ _ _ _ => simp at hm
  | key _ _ _ _ _ _ => simp at hm
  | gateway _ _ _ => simp at hm
  | created hstate hentry hlen =>
      exact Option.some.inj hm ▸ hbrings .create ⟨Or.inl hstate, Or.inr hentry⟩ hentry hlen
  | updated hstate hentry hlen =>
      exact Option.some.inj hm ▸ hbrings .update ⟨Or.inr hstate, Or.inr hentry⟩ hentry hlen
  | deleted _ _ _ _ _ => exact Option.some.inj hm ▸ fun hne => absurd rfl hne

structure PrintOk (s : Server) : Prop where
  ends : FieldsEnd s.console
  entries : EntriesOk NoNewline s.admin
  written : ∀ w ∈ s.writes, w.syncMsg.Brings MsgBody.Printable

theorem PrintOk.init (start : Startup) : PrintOk (Server.init start) where
  ends := fieldsEnd_init start.entry start.record
  entries := EntriesOk.init start.entry start.record
  written := by simp [Server.init]

theorem PrintOk.printable {s : Server} (h : PrintOk s) (hs : ServerOk s) :
    ∀ r ∈ s.admin.rtm, r.Printable := fun r hr =>
  ⟨hs.admin.padded r hr, h.ends.records r hr, (hs.admin.validKey r hr).mask_le,
    h.entries.records r hr⟩

theorem PrintOk.step {s s' : Server} {w : Wakeup} (h : PrintOk s) (hs : ServerOk s)
    (hfits : s.ReadsLine w → TextsFit s.console w.input) (heffect : ServerEffect s w s') :
    PrintOk s' := by
  cases heffect with
  | quiet haccepts hreads => exact h
  | accepted haccepts hnonneg hunused =>
      refine ⟨h.ends, h.entries, fun v hv => ?_⟩
      rcases List.mem_append.mp hv with hv | hv
      · exact h.written v hv
      · obtain ⟨r, hr, heq⟩ := List.mem_map.mp (Server.mem_dumpWrites hv).2
        rw [← heq]
        exact fun _ => h.printable hs r hr
  | line answer hreads hanswer =>
      have hline := AdminInput.answer_effect hanswer
      have hzero := zero_notMem_lineText w.input.buffer
      have hnewline : newline ∉ lineText w.input.buffer := notMem_takeWhile_ne newline _
      have hend := (h.ends.after_iff hs.admin hanswer (hfits hreads).subnet).mpr (hfits hreads)
      refine ⟨hend.of_entered [], h.entries.step hs.admin hzero hnewline hnewline hline, ?_⟩
      intro v hv
      rcases List.mem_append.mp hv with hv | hv
      · exact h.written v hv
      · have hbroadcast := (Server.mem_lineWrites hv).2
        obtain ⟨hvalid, -⟩ := hs.admin.performs_broadcast hline hbroadcast
        have hterminated := hend.broadcasts v.syncMsg
          (List.mem_append_right _ (Option.mem_toList.mpr hbroadcast))
        intro hne
        obtain ⟨hpadded, hentered⟩ :=
          h.entries.brings hs.admin hzero hnewline hline hbroadcast hne
        exact ⟨hpadded, hterminated, hvalid.mask_le, hentered⟩

structure ShownOk (s : System) : Prop where
  snapshots : SnapshotsOk s
  print : PrintOk s.server

theorem ShownOk.step {s s' : System} {e : SystemEvent} (h : ShownOk s) (hfits : EntriesFit s e)
    (hstep : systemStep s e = some s') : ShownOk s' := by
  refine ⟨h.snapshots.step hstep, ?_⟩
  cases e with
  | serve w =>
      obtain ⟨server, hserver, rfl⟩ := Option.map_eq_some_iff.mp hstep
      have hs := h.snapshots.system.feeds.server
      exact h.print.step hs hfits (serverStep_effect hs hserver)
  | deliver k amb => exact Option.some.inj hstep ▸ h.print
  | disconnect k => exact Option.some.inj hstep ▸ h.print

theorem ShownOk.tablesRead {s : System} (h : ShownOk s) : TablesRead s := by
  have hclient : ∀ client ∈ s.clients, ReadBack client.replica.state client.replica.state := by
    intro client hclient
    obtain ⟨read, hread, hstate⟩ := h.snapshots.received client hclient
    rw [hstate]
    refine readBack_of_printable (printable_foldl (fun m hm => ?_) fun r hr => by simp at hr)
    have hmem : m ∈ deliveredTo s.server.writes client.dataSocket :=
      hread ▸ List.mem_append_left _ hm
    obtain ⟨w, hw, rfl⟩ := List.mem_map.mp hmem
    exact h.print.written w (List.mem_of_mem_filter (List.mem_of_mem_filter hw))
  refine ⟨readBack_of_printable (h.print.printable h.snapshots.system.feeds.server), hclient, ?_⟩
  intro client hmem
  obtain ⟨c, hc, hfd, -, hshows⟩ := h.snapshots.consistent.client client hmem
  exact ⟨c, hc, hfd, fun hgapless => ⟨_, (hshows hgapless).snapshot, hclient client hmem⟩⟩

/-- In every run of the server and its clients in which the texts accepted fit their arrays, every
table that a process prints is read as the records that it has, whatever messages it missed. -/
theorem shown_tables_read (start : Startup) (es : List SystemEvent)
    (hfits : Along systemStep EntriesFit (System.init start) es) :
    Throughout systemStep TablesRead (System.init start) es :=
  throughout_of_along ShownOk (fun _ _ _ h hfits hstep => h.step hfits hstep)
    (fun _ h => h.tablesRead) ⟨SnapshotsOk.init start, PrintOk.init start⟩ hfits

instance (s : Server) (w : Wakeup) : Decidable (s.Accepts w) := inferInstanceAs (Decidable (_ ∈ _))

instance (s : Server) (w : Wakeup) : Decidable (s.ReadsLine w) :=
  inferInstanceAs (Decidable (_ ∧ _))

instance (s : System) : ∀ e, Decidable (EntriesFit s e)
  | .serve _ => inferInstanceAs (Decidable (_ → _))
  | .deliver _ _ => isTrue trivial
  | .disconnect _ => isTrue trivial

/-- Two clients, of which the first misses the record of 10.0.0.0/8 and is sent nothing after it. -/
def missedRecord : List SystemEvent :=
  let ok := fun n => decide (n ≠ 1)
  [.serve (connecting ok 4), .serve (entering ok "c"), .serve (entering ok "1.2.3.4/32"),
    .serve (entering ok "1.2.3.5"), .serve (entering ok "eth0"), .serve (entering ok "c"),
    .serve (entering ok "10.0.0.0/8"), .serve (entering ok "10.0.0.1"),
    .serve (entering ok "| wlan"), .serve (connecting ok 5), .deliver 0 Ambient.zero,
    .deliver 1 Ambient.zero, .deliver 1 Ambient.zero]

theorem shown_tables_read_missed :
    Throughout systemStep TablesRead (System.init standardStartup) missedRecord :=
  shown_tables_read standardStartup missedRecord (by decide +kernel)

example : (run systemStep (System.init standardStartup) missedRecord).map (fun s =>
    s.clients.map fun client => client.replica.state.map fun r => r.oif.text) =
      some [[ascii "eth0"], [ascii "eth0", ascii "| wlan"]] := by
  decide +kernel

end LinuxIPC
