import LinuxIPC.ServiceLoop
import LinuxIPC.SummationResults

/-!
# The two summation servers and their clients (`unix_domain_sockets`)

The server without multiplexing accepts a client, goes through `handle_service_request` with it, and
then accepts the next. Both servers are servers that sum, and so what is shown by their clients is the
same whatever the order of events: the sum of what was typed, if no client writes before the server
has read what it wrote.
-/

namespace LinuxIPC

open CString Runs NoMultiplexing SummationClient SummationServer

def multiplexed : SummationServer where
  State := Multiplexing.Server
  step := Multiplexing.serverStep
  connections := fun s => s.connections
  connectionSocket := fun s => s.connectionSocket

namespace Multiplexing

theorem SlotEffect.length_connections {w : Wakeup} {readfds : List ℤ} {s s' : Server}
    {i : Fin maxClients} (heffect : SlotEffect w readfds s i s') :
    s'.connections.length = s.connections.length := by
  cases heffect with
  | skipped _ => rfl
  | added _ _ _ _ => exact List.length_map _
  | finished _ _ _ _ => exact List.length_map _

/-- A connection without a slot is not served. -/
theorem ServerOk.slots_of_unmonitored {w : Wakeup} {readfds : List ℤ} {s s' : Server}
    {slots : List (Fin maxClients)} (h : ServerOk s)
    (hclients : ClientsOnly s.connectionSocket readfds)
    (hrun : run (serveSlot w readfds) s slots = some s') {n : ℕ} {c : Connection}
    (hget : s.connections[n]? = some c) (hmem : c.dataSocket ∉ s.monitored.members) :
    s'.connections[n]? = some c := by
  have hstep : ∀ t i t', (ServerOk t ∧ ClientsOnly t.connectionSocket readfds ∧
      t.connections[n]? = some c ∧ c.dataSocket ∉ t.monitored.members) →
        serveSlot w readfds t i = some t' → ServerOk t' ∧
          ClientsOnly t'.connectionSocket readfds ∧ t'.connections[n]? = some c ∧
            c.dataSocket ∉ t'.monitored.members := by
    rintro t i t' ⟨ht, hclients, hget, hmem⟩ hserve
    have heffect := serveSlot_effect hserve
    have hnot : t.monitored.slot i ∈ readfds → ¬ c.Owns (t.monitored.slot i) := fun hready howns =>
      hmem (howns.2 ▸ (hclients.clientSlot hready).1)
    refine ⟨ht.slot hclients heffect, heffect.connectionSocket ▸ hclients, ?_⟩
    cases heffect with
    | skipped _ => exact ⟨hget, hmem⟩
    | added chunk hready hread hdata =>
        exact ⟨(SlotEffect.added chunk hready hread hdata).getElem? hget (hnot hready), hmem⟩
    | finished chunk hready hread hdata =>
        refine ⟨(SlotEffect.finished chunk hready hread hdata).getElem? hget (hnot hready), ?_⟩
        rw [Server.mem_members_finished ht (hclients.clientSlot hready)]
        exact fun hboth => hmem hboth.1
  exact (run_invariant hstep ⟨h, hclients, hget, hmem⟩ hrun).2.2.1

theorem Connection.eq_of_fields {c c' : Connection} (hsocket : c'.dataSocket = c.dataSocket)
    (hopen : c'.isOpen = c.isOpen) (hreads : c'.reads = c.reads) (hwritten : c'.written = c.written) :
    c' = c := by
  cases c
  cases c'
  simp only [Connection.mk.injEq]
  exact ⟨hsocket, hopen, hreads, hwritten⟩

/-- An iteration reads from a connection, or leaves it as it is. -/
theorem ServerOk.step_connection {s s' : Server} {w : Wakeup} (h : ServerOk s)
    (hclients : ClientsOnly s.connectionSocket (s.monitored.selected w.ready))
    (hserved : handleServiceRequest w (s.monitored.selected w.ready) s = some s')
    (hstep : serverStep s w = some s') {n : ℕ} {c : Connection}
    (hget : s.connections[n]? = some c) :
    ∃ c', s'.connections[n]? = some c' ∧ (c' = c ∨ ReadsChunk w c c') := by
  have hmem := List.mem_of_getElem? hget
  cases hopen : c.isOpen with
  | false => exact ⟨c, step_of_closed hstep hget hopen, Or.inl rfl⟩
  | true =>
      by_cases hmonitored : c.dataSocket ∈ s.monitored.members
      · obtain ⟨c', hc'⟩ := h.step_reads hstep hget hopen hmonitored
        refine ⟨c', hc'.get, ?_⟩
        have hreads := hc'.reads
        cases hread : w.readFrom s.connectionSocket c.dataSocket with
        | none =>
            left
            rw [hread, Option.toList_none, List.append_nil] at hreads
            have h' := serverStep_serverOk s w s' h hstep
            have hmem' := List.mem_of_getElem? hc'.get
            cases hopen' : c'.isOpen with
            | false =>
                obtain ⟨_, -, hserve⟩ := h'.answered c' hmem' hopen'
                have hnone := h.serve_eq_none hmem hopen hmonitored
                rw [← List.append_nil c.reads, ← hreads, hserve] at hnone
                exact absurd hnone (Option.some_ne_none _)
            | true =>
                have hwritten := (h.running c hmem hopen).1
                have hwritten' := (h'.running c' hmem' hopen').1
                exact Connection.eq_of_fields hc'.dataSocket (hopen'.trans hopen.symm) hreads
                  (hwritten'.trans hwritten.symm)
        | some chunk =>
            right
            rw [hread] at hreads
            rw [h.readFrom_of_clientsOnly hclients hmonitored] at hread
            split_ifs at hread with hready
            exact ⟨hopen, (FdSet.mem_selected.mp hready).2, chunk, hread, hreads⟩
      · exact ⟨c, h.slots_of_unmonitored hclients hserved hget hmonitored, Or.inl rfl⟩

end Multiplexing

theorem multiplexed_sums : Sums multiplexed Multiplexing.ServerOk where
  inv := fun s w s' => Multiplexing.serverStep_serverOk s w s'
  step := by
    intro s w s' h hstep
    cases Multiplexing.serverStep_effect hstep with
    | accepted hsocket _ _ => exact ConnectionsStep.accepted (FdSet.mem_selected.mp hsocket).2
    | console _ _ => exact ConnectionsStep.served rfl fun n c hc => ⟨c, hc, Or.inl rfl⟩
    | served hclients hserved =>
        refine ConnectionsStep.served ?_ fun n c hc => h.step_connection hclients hserved hstep hc
        have hslot : ∀ t i t', t.connections.length = s.connections.length →
            Multiplexing.serveSlot w (s.monitored.selected w.ready) t i = some t' →
              t'.connections.length = s.connections.length := fun t i t' ht hserve =>
          (Multiplexing.serveSlot_effect hserve).length_connections.trans ht
        exact run_invariant hslot rfl hserved
  distinct := fun s h => h.distinct
  dataSocket := by
    intro s h c hc hopen
    obtain ⟨hpos, hsocket, -⟩ := h.dataSocket c hc hopen
    exact ⟨hpos.ne', hsocket⟩
  waiting := fun s h c hc hopen => (h.running c hc hopen).1
  answered := fun s h => h.answered

namespace NoMultiplexing

/-- The process between two calls that may block: the client that `handle_service_request` is in
with its sum, if any, and the descriptors and histories as for the server with multiplexing. -/
structure Server where
  serving : Option (ℤ × BitVec 32)
  connectionSocket : ℤ
  openFds : List ℤ
  connections : List Multiplexing.Connection

def Server.init (launch : Launch) : Server where
  serving := none
  connectionSocket := launch.connectionSocket
  openFds := launch.connectionSocket :: launch.openFds
  connections := []

def Server.accepted (s : Server) (dataSocket : ℤ) : Server :=
  { s with
    serving := some (dataSocket, 0)
    openFds := dataSocket :: s.openFds
    connections := s.connections ++ [⟨dataSocket, true, [], []⟩] }

def Server.added (s : Server) (dataSocket : ℤ) (sum : BitVec 32) (chunk : Chunk) : Server :=
  { s with
    serving := some (dataSocket, sum + memcpyInt (received chunk))
    connections := Multiplexing.onSocket dataSocket (fun c => c.afterRead chunk) s.connections }

def Server.finished (s : Server) (dataSocket : ℤ) (sum : BitVec 32) (chunk : Chunk) : Server :=
  { s with
    serving := none
    openFds := s.openFds.filter (· ≠ dataSocket)
    connections := Multiplexing.onSocket dataSocket
      (fun c => (c.afterRead chunk).afterResult (resultMessage sum)) s.connections }

/-- The loop of `main` up to the next call that may block: `accept` waits for a client, and `read` for
the client that is served. `none` for `error_and_exit`. -/
def serverStep (s : Server) (w : Multiplexing.Wakeup) : Option Server :=
  match s.serving with
  | none =>
    if s.connectionSocket ∈ w.ready then (accept s.openFds w.dataSocket).map s.accepted else some s
  | some (dataSocket, sum) =>
    if dataSocket ∈ w.ready then
      match w.data dataSocket with
      | none => none
      | some chunk =>
        let data := memcpyInt (received chunk)
        if data = 0 then some (s.finished dataSocket sum chunk)
        else some (s.added dataSocket sum chunk)
    else some s

inductive StepEffect (s : Server) (w : Multiplexing.Wakeup) : Server → Prop
  | blocked : StepEffect s w s
  | accepted (hidle : s.serving = none) (hready : s.connectionSocket ∈ w.ready)
      (hunused : w.dataSocket ∉ s.openFds) : StepEffect s w (s.accepted w.dataSocket)
  | added (dataSocket : ℤ) (sum : BitVec 32) (chunk : Chunk)
      (hserving : s.serving = some (dataSocket, sum)) (hready : dataSocket ∈ w.ready)
      (hread : w.data dataSocket = some chunk) (hdata : memcpyInt (received chunk) ≠ 0) :
      StepEffect s w (s.added dataSocket sum chunk)
  | finished (dataSocket : ℤ) (sum : BitVec 32) (chunk : Chunk)
      (hserving : s.serving = some (dataSocket, sum)) (hready : dataSocket ∈ w.ready)
      (hread : w.data dataSocket = some chunk) (hdata : memcpyInt (received chunk) = 0) :
      StepEffect s w (s.finished dataSocket sum chunk)

theorem serverStep_effect {s s' : Server} {w : Multiplexing.Wakeup}
    (hstep : serverStep s w = some s') : StepEffect s w s' := by
  unfold serverStep at hstep
  cases hserving : s.serving with
  | none =>
      simp only [hserving] at hstep
      split_ifs at hstep with hready
      · obtain ⟨fd, haccept, rfl⟩ := Option.map_eq_some_iff.mp hstep
        obtain ⟨rfl, -, hunused⟩ := accept_eq_some.mp haccept
        exact StepEffect.accepted hserving hready hunused
      · exact Option.some.inj hstep ▸ StepEffect.blocked
  | some client =>
      obtain ⟨dataSocket, sum⟩ := client
      simp only [hserving] at hstep
      by_cases hready : dataSocket ∈ w.ready
      · rw [if_pos hready] at hstep
        cases hread : w.data dataSocket with
        | none => simp [hread] at hstep
        | some chunk =>
            simp only [hread] at hstep
            split_ifs at hstep with hdata
            · exact Option.some.inj hstep ▸
                StepEffect.finished dataSocket sum chunk hserving hready hread hdata
            · exact Option.some.inj hstep ▸
                StepEffect.added dataSocket sum chunk hserving hready hread hdata
      · rw [if_neg hready] at hstep
        exact Option.some.inj hstep ▸ StepEffect.blocked

structure ServerOk (s : Server) : Prop where
  stdin_open : 0 ∈ s.openFds
  socket_open : s.connectionSocket ∈ s.openFds
  idle : s.serving = none → ∀ c ∈ s.connections, c.isOpen = false
  serving : ∀ dataSocket sum, s.serving = some (dataSocket, sum) →
    dataSocket ≠ 0 ∧ dataSocket ≠ s.connectionSocket ∧
      ∃ front reads, s.connections = front ++ [⟨dataSocket, true, reads, []⟩] ∧
        (∀ c ∈ front, c.isOpen = false) ∧ Running reads sum
  answered : ∀ c ∈ s.connections, c.isOpen = false → c.Answered

theorem ServerOk.init (launch : Launch) : ServerOk (Server.init launch) where
  stdin_open := List.mem_cons_of_mem _ launch.stdin_mem
  socket_open := List.mem_cons_self
  idle := by simp [Server.init]
  serving := by simp [Server.init]
  answered := by simp [Server.init]

/-- The only connection that is open is the last one. -/
theorem onSocket_last {fd : ℤ} {f : Multiplexing.Connection → Multiplexing.Connection}
    {front : List Multiplexing.Connection} (hfront : ∀ c ∈ front, c.isOpen = false)
    (reads : List Chunk) :
    Multiplexing.onSocket fd f (front ++ [⟨fd, true, reads, []⟩]) =
      front ++ [f ⟨fd, true, reads, []⟩] := by
  have hsame : front.map (fun c => if c.Owns fd then f c else c) = front := by
    refine (List.map_congr_left fun c hc => ?_).trans (List.map_id front)
    exact if_neg (Multiplexing.not_owns_of_closed (hfront c hc) fd)
  have howns : (⟨fd, true, reads, []⟩ : Multiplexing.Connection).Owns fd := ⟨rfl, rfl⟩
  rw [Multiplexing.onSocket, List.map_append, hsame, List.map_singleton, if_pos howns]

theorem ServerOk.accepted {s : Server} (h : ServerOk s) (hidle : s.serving = none)
    {dataSocket : ℤ} (hunused : dataSocket ∉ s.openFds) : ServerOk (s.accepted dataSocket) where
  stdin_open := List.mem_cons_of_mem _ h.stdin_open
  socket_open := List.mem_cons_of_mem _ h.socket_open
  idle := fun hnone => absurd hnone (Option.some_ne_none _)
  serving := by
    intro fd sum hserving
    obtain ⟨rfl, rfl⟩ := Prod.mk.inj (Option.some.inj hserving)
    refine ⟨fun heq => hunused (heq ▸ h.stdin_open), fun heq => hunused (heq ▸ h.socket_open), ?_⟩
    exact ⟨s.connections, [], rfl, h.idle hidle, Running.nil⟩
  answered := by
    intro c hc hclosed
    rcases List.mem_append.mp hc with hc | hc
    · exact h.answered c hc hclosed
    · rw [List.mem_singleton.mp hc] at hclosed
      exact absurd hclosed.symm Bool.false_ne_true

theorem ServerOk.added {s : Server} (h : ServerOk s) {dataSocket : ℤ} {sum : BitVec 32}
    {chunk : Chunk} (hserving : s.serving = some (dataSocket, sum))
    (hdata : memcpyInt (received chunk) ≠ 0) : ServerOk (s.added dataSocket sum chunk) := by
  obtain ⟨hzero, hsocket, front, reads, hconnections, hfront, hrunning⟩ :=
    h.serving dataSocket sum hserving
  have hafter : (s.added dataSocket sum chunk).connections =
      front ++ [⟨dataSocket, true, reads ++ [chunk], []⟩] := by
    rw [Server.added, hconnections, onSocket_last hfront]
    rfl
  refine ⟨h.stdin_open, h.socket_open, fun hnone => absurd hnone (Option.some_ne_none _), ?_, ?_⟩
  · intro fd sum' hserving'
    obtain ⟨rfl, rfl⟩ := Prod.mk.inj (Option.some.inj hserving')
    exact ⟨hzero, hsocket, front, reads ++ [chunk], hafter, hfront, hrunning.add hdata⟩
  · intro c hc hclosed
    rw [hafter] at hc
    rcases List.mem_append.mp hc with hc | hc
    · exact h.answered c (hconnections ▸ List.mem_append_left _ hc) hclosed
    · rw [List.mem_singleton.mp hc] at hclosed
      exact absurd hclosed.symm Bool.false_ne_true

theorem ServerOk.finished {s : Server} (h : ServerOk s) {dataSocket : ℤ} {sum : BitVec 32}
    {chunk : Chunk} (hserving : s.serving = some (dataSocket, sum))
    (hdata : memcpyInt (received chunk) = 0) : ServerOk (s.finished dataSocket sum chunk) := by
  obtain ⟨hzero, hsocket, front, reads, hconnections, hfront, hrunning⟩ :=
    h.serving dataSocket sum hserving
  have hafter : (s.finished dataSocket sum chunk).connections =
      front ++ [⟨dataSocket, false, reads ++ [chunk], [resultMessage sum]⟩] := by
    rw [Server.finished, hconnections, onSocket_last hfront]
    rfl
  have hclosed : ∀ c ∈ (s.finished dataSocket sum chunk).connections, c.isOpen = false := by
    intro c hc
    rw [hafter] at hc
    rcases List.mem_append.mp hc with hc | hc
    · exact hfront c hc
    · rw [List.mem_singleton.mp hc]
  refine ⟨?_, ?_, fun _ => hclosed, fun _ _ hsome => absurd hsome.symm (Option.some_ne_none _), ?_⟩
  · exact List.mem_filter.mpr ⟨h.stdin_open, decide_eq_true hzero.symm⟩
  · exact List.mem_filter.mpr ⟨h.socket_open, decide_eq_true hsocket.symm⟩
  · intro c hc hclosed
    rw [hafter] at hc
    rcases List.mem_append.mp hc with hc | hc
    · exact h.answered c (hconnections ▸ List.mem_append_left _ hc) hclosed
    · rw [List.mem_singleton.mp hc]
      exact ⟨resultMessage sum, rfl, hrunning.finish hdata⟩

theorem serverStep_serverOk (s : Server) (w : Multiplexing.Wakeup) (s' : Server) (h : ServerOk s)
    (hstep : serverStep s w = some s') : ServerOk s' := by
  cases serverStep_effect hstep with
  | blocked => exact h
  | accepted hidle _ hunused => exact h.accepted hidle hunused
  | added dataSocket sum chunk hserving _ _ hdata => exact h.added hserving hdata
  | finished dataSocket sum chunk hserving _ _ hdata => exact h.finished hserving hdata

/-- The only open connection is that of the client that is served. -/
theorem ServerOk.eq_of_open {s : Server} (h : ServerOk s) {c : Multiplexing.Connection}
    (hc : c ∈ s.connections) (hopen : c.isOpen = true) :
    ∃ dataSocket sum reads, s.serving = some (dataSocket, sum) ∧
      c = ⟨dataSocket, true, reads, []⟩ := by
  cases hserving : s.serving with
  | none => exact absurd ((h.idle hserving c hc).symm.trans hopen) Bool.false_ne_true
  | some client =>
      obtain ⟨dataSocket, sum⟩ := client
      obtain ⟨-, -, front, reads, hconnections, hfront, -⟩ := h.serving dataSocket sum hserving
      rw [hconnections] at hc
      rcases List.mem_append.mp hc with hc | hc
      · exact absurd ((hfront c hc).symm.trans hopen) Bool.false_ne_true
      · exact ⟨dataSocket, sum, reads, rfl, List.mem_singleton.mp hc⟩

theorem ServerOk.distinct {s : Server} (h : ServerOk s) : s.connections.Pairwise fun c d =>
    c.isOpen = true → d.isOpen = true → c.dataSocket ≠ d.dataSocket := by
  have hclosed : ∀ l : List Multiplexing.Connection, (∀ c ∈ l, c.isOpen = false) →
      l.Pairwise fun c d => c.isOpen = true → d.isOpen = true → c.dataSocket ≠ d.dataSocket :=
    fun l hl => List.pairwise_of_forall_mem_list fun c hc d _ hopen =>
      absurd ((hl c hc).symm.trans hopen) Bool.false_ne_true
  cases hserving : s.serving with
  | none => exact hclosed _ (h.idle hserving)
  | some client =>
      obtain ⟨dataSocket, sum⟩ := client
      obtain ⟨-, -, front, reads, hconnections, hfront, -⟩ := h.serving dataSocket sum hserving
      rw [hconnections]
      refine List.pairwise_append.mpr ⟨hclosed front hfront, List.pairwise_singleton _ _, ?_⟩
      exact fun c hc d _ hopen => absurd ((hfront c hc).symm.trans hopen) Bool.false_ne_true

/-- Only the connection that is read from changes. -/
theorem onSocket_reads {s : Server} {w : Multiplexing.Wakeup} {dataSocket : ℤ}
    {chunk : Chunk} (hready : dataSocket ∈ w.ready) (hread : w.data dataSocket = some chunk)
    {f : Multiplexing.Connection → Multiplexing.Connection}
    (hf : ∀ c, (f c).reads = c.reads ++ [chunk]) {n : ℕ} {c : Multiplexing.Connection}
    (hc : s.connections[n]? = some c) :
    ∃ c', (Multiplexing.onSocket dataSocket f s.connections)[n]? = some c' ∧
      (c' = c ∨ ReadsChunk w c c') := by
  refine ⟨_, Multiplexing.getElem?_onSocket dataSocket f hc, ?_⟩
  split_ifs with howns
  · obtain ⟨hopen, rfl⟩ := howns
    exact Or.inr ⟨hopen, hready, chunk, hread, hf c⟩
  · exact Or.inl rfl

end NoMultiplexing

def singleClient : SummationServer where
  State := NoMultiplexing.Server
  step := NoMultiplexing.serverStep
  connections := fun s => s.connections
  connectionSocket := fun s => s.connectionSocket

theorem singleClient_sums : Sums singleClient NoMultiplexing.ServerOk where
  inv := fun s w s' => NoMultiplexing.serverStep_serverOk s w s'
  step := by
    intro s w s' h hstep
    cases NoMultiplexing.serverStep_effect hstep with
    | blocked => exact ConnectionsStep.served rfl fun n c hc => ⟨c, hc, Or.inl rfl⟩
    | accepted _ hready _ => exact ConnectionsStep.accepted hready
    | added dataSocket sum chunk _ hready hread _ =>
        exact ConnectionsStep.served (List.length_map _) fun n c hc =>
          NoMultiplexing.onSocket_reads hready hread (fun _ => rfl) hc
    | finished dataSocket sum chunk _ hready hread _ =>
        exact ConnectionsStep.served (List.length_map _) fun n c hc =>
          NoMultiplexing.onSocket_reads hready hread (fun _ => rfl) hc
  distinct := fun s h => h.distinct
  dataSocket := by
    intro s h c hc hopen
    obtain ⟨dataSocket, sum, _, hserving, rfl⟩ := h.eq_of_open hc hopen
    obtain ⟨hzero, hsocket, -⟩ := h.serving dataSocket sum hserving
    exact ⟨hzero, hsocket⟩
  waiting := by
    intro s h c hc hopen
    obtain ⟨_, _, _, -, rfl⟩ := h.eq_of_open hc hopen
    rfl
  answered := fun s h => h.answered

def multiplexedSystem (launch : Launch) : multiplexed.System := ⟨Multiplexing.Server.init launch, []⟩

def singleClientSystem (launch : Launch) : singleClient.System :=
  ⟨NoMultiplexing.Server.init launch, []⟩

/-- Whatever the clients type and in whatever order things happen, a client that is shown a result is
shown the sum of the first ints of the groups in which the server read its ints before the first 0. -/
theorem results_sum_first_ints (launch : Launch) (events : List Event) :
    Throughout System.step (System.All FirstsSummed) (multiplexedSystem launch) events ∧
      Throughout System.step (System.All FirstsSummed) (singleClientSystem launch) events :=
  ⟨throughout_firstsSummed multiplexed_sums (Multiplexing.ServerOk.init launch) rfl events,
    throughout_firstsSummed singleClient_sums (NoMultiplexing.ServerOk.init launch) rfl events⟩

def entersLine (n : ℕ) : Event := .enter n 0 (strncpy intLen []) [] .whole

def pacedEvents : List Event :=
  [.connect (ascii "5\nx\n7\n0\n"), .serve [3] 4 none, entersLine 0, .serve [4] 0 none,
    entersLine 0, entersLine 0, .serve [4] 0 none, entersLine 0, .serve [4] 0 none, .receive 0]

example : (run System.step (multiplexedSystem standardLaunch) pacedEvents).map
    (fun s => s.peers.map Peer.shown) = some [some (ascii "Result = 12")] := by
  decide +kernel

/-- The ints 5 and 7 are read together, and the 7 is lost. -/
example : (run System.step (multiplexedSystem standardLaunch)
    [.connect (ascii "5\n7\n0\n"), .serve [3] 4 none, entersLine 0, entersLine 0,
      .serve [4] 0 none, entersLine 0, .serve [4] 0 none, .receive 0]).map
    (fun s => s.peers.map Peer.shown) = some [some (ascii "Result = 5")] := by
  decide +kernel

/-- A client whose 0 was read behind another int waits for ever. -/
theorem lost_zero_waits_for_ever (launch : Launch) (events : List Event) :
    Throughout System.step (fun s => ∀ n, WaitsForEver n s) (multiplexedSystem launch) events ∧
      Throughout System.step (fun s => ∀ n, WaitsForEver n s) (singleClientSystem launch) events :=
  ⟨throughout_waitsForEver multiplexed_sums (Multiplexing.ServerOk.init launch) rfl events,
    throughout_waitsForEver singleClient_sums (NoMultiplexing.ServerOk.init launch) rfl events⟩

/-- A client that wrote its 0 and has a slot is answered by the next iteration that finds it ready,
and then shows the sum of all it typed before the 0, as `read_line` cuts the lines. That the iteration
comes to its end rests on `FD_ISSET` being false for free slots, as everywhere in this model. -/
def AnsweredNext (n : ℕ) (s : multiplexed.System) : Prop :=
  ∀ p c, s.peers[n]? = some p → s.connections[n]? = some c → p.client.phase = .receiving →
    0 ∈ p.written → c.isOpen = true → c.dataSocket ∈ s.server.monitored.members →
    ∀ ready dataSocket console, c.dataSocket ∈ ready → 0 ∉ ready →
      s.server.connectionSocket ∉ ready →
      ∃ s' s'' q, s.step (.serve ready dataSocket console) = some s' ∧
        s'.step (.receive n) = some s'' ∧ s''.peers[n]? = some q ∧
          q.shown = some (ascii (resultText ((typedInts p.typed).takeWhile (· ≠ 0)).sum))

theorem Multiplexing.exists_run_serveSlot {w : Multiplexing.Wakeup} {readfds : List ℤ}
    (hdata : ∀ fd ∈ readfds, w.data fd ≠ none) (slots : List (Fin maxClients))
    (s : Multiplexing.Server) : ∃ s', run (Multiplexing.serveSlot w readfds) s slots = some s' := by
  induction slots generalizing s with
  | nil => exact ⟨s, rfl⟩
  | cons i slots ih =>
      obtain ⟨t, ht⟩ := Multiplexing.exists_serveSlot_iff.mpr fun hready => hdata _ hready
      obtain ⟨s', hs'⟩ := ih t
      exact ⟨s', run_cons_eq_some.mpr ⟨t, ht, hs'⟩⟩

theorem Multiplexing.Server.Serving.step_eq {s : Multiplexing.Server} {w : Multiplexing.Wakeup}
    (h : s.Serving w) : Multiplexing.serverStep s w =
      Multiplexing.handleServiceRequest w (s.monitored.selected w.ready) s := by
  rw [Multiplexing.serverStep, if_neg h.1, if_neg h.2]

section Progress

variable {s : multiplexed.System} {ready : List ℤ} (dataSocket : ℤ) (console : Option Chunk)

/-- The sockets of clients that are found ready have something to read. -/
theorem data_ne_none (hok : s.Ok Multiplexing.ServerOk) (hzero : 0 ∉ ready)
    (hsocket : s.server.connectionSocket ∉ ready) {fd : ℤ}
    (hfd : fd ∈ s.server.monitored.selected (s.wakeup ready dataSocket console).ready) :
    (s.wakeup ready dataSocket console).data fd ≠ none := by
  obtain ⟨hmem, hready⟩ := FdSet.mem_selected.mp hfd
  have hin := (List.mem_filter.mp hready).1
  have hne : fd ≠ 0 := fun heq => hzero (heq ▸ hin)
  obtain ⟨d, hd, hopen, rfl⟩ := hok.server.owner fd ⟨hmem, hne, fun heq => hsocket (heq ▸ hin)⟩
  obtain ⟨m, hm⟩ := List.getElem?_of_mem hd
  have hlt : m < s.peers.length :=
    (List.getElem?_eq_some_iff.mp hm).1.trans_le hok.length
  have hof : s.peerOf d.dataSocket = some s.peers[m] :=
    peerOf_of_open hok.server.distinct hm (List.getElem?_eq_getElem hlt) hopen
  simp [System.wakeup, hne, hof]

theorem serving_wakeup (hzero : 0 ∉ ready) (hsocket : s.server.connectionSocket ∉ ready) :
    Multiplexing.Server.Serving s.server (s.wakeup ready dataSocket console) :=
  ⟨fun hmem => hsocket (List.mem_filter.mp (FdSet.mem_selected.mp hmem).2).1,
    fun hmem => hzero (List.mem_filter.mp (FdSet.mem_selected.mp hmem).2).1⟩

/-- An iteration that finds only clients ready goes through all slots. -/
theorem exists_serverStep (hok : s.Ok Multiplexing.ServerOk) (hzero : 0 ∉ ready)
    (hsocket : s.server.connectionSocket ∉ ready) :
    ∃ server, Multiplexing.serverStep s.server (s.wakeup ready dataSocket console) =
      some server := by
  rw [(serving_wakeup dataSocket console hzero hsocket).step_eq]
  exact Multiplexing.exists_run_serveSlot
    (fun fd => data_ne_none dataSocket console hok hzero hsocket) _ _

/-- A connection that is ready and has a slot is read from. -/
theorem readFrom_wakeup (hok : s.Ok Multiplexing.ServerOk) (hzero : 0 ∉ ready)
    (hsocket : s.server.connectionSocket ∉ ready) {n : ℕ} {p : Peer} {c : Multiplexing.Connection}
    (hp : s.peers[n]? = some p) (hc : s.connections[n]? = some c) (hopen : c.isOpen = true)
    (hmonitored : c.dataSocket ∈ s.server.monitored.members) (hready : c.dataSocket ∈ ready)
    (hreads : p.readable = true) :
    (s.wakeup ready dataSocket console).readFrom s.server.connectionSocket c.dataSocket =
      some p.chunk := by
  obtain ⟨hpos, hne, -⟩ := hok.server.dataSocket c (List.mem_of_getElem? hc) hopen
  have hof : s.peerOf c.dataSocket = some p := peerOf_of_open hok.server.distinct hc hp hopen
  have hreadable : s.readable c.dataSocket = true := by
    have hne' : c.dataSocket ≠ multiplexed.connectionSocket s.server := hne
    rw [System.readable, if_neg hne', hof]
    simp [hreads]
  have hselected : c.dataSocket ∈
      s.server.monitored.selected (s.wakeup ready dataSocket console).ready :=
    FdSet.mem_selected.mpr ⟨hmonitored, List.mem_filter.mpr ⟨hready, hreadable⟩⟩
  have hclients := (serving_wakeup dataSocket console hzero hsocket).clientsOnly
  rw [Multiplexing.ServerOk.readFrom_of_clientsOnly hok.server hclients hmonitored,
    if_pos hselected]
  simp [System.wakeup, hpos.ne', hof]

end Progress

theorem answeredNext {s : multiplexed.System} (hok : s.Ok Multiplexing.ServerOk)
    (hall : s.All PeerOk) (hpaced : s.All Paced) (n : ℕ) : AnsweredNext n s := by
  intro p c hp hc hphase hwritten hopen hmonitored ready dataSocket console hready hzero hsocket
  have hpeer := hall n p hp
  rw [hc] at hpeer
  have hpace := hpaced n p hp
  rw [hc] at hpace
  have hwaits := hok.server.serve_eq_none (List.mem_of_getElem? hc) hopen hmonitored
  have hunread := hpeer.unread_eq hpace hwritten hwaits
  obtain ⟨server, hserver⟩ := exists_serverStep dataSocket console hok hzero hsocket
  have hreadable : p.readable = true := by
    have hne : p.unread ≠ [] := by
      rw [hunread]
      decide
    simp [Peer.readable, hne]
  have hread := readFrom_wakeup dataSocket console hok hzero hsocket hp hc hopen hmonitored hready
    hreadable
  obtain ⟨c', hc'⟩ := hok.server.step_reads hserver hc hopen hmonitored
  rw [hread] at hc'
  have hstep : s.step (.serve ready dataSocket console) =
      some ⟨server, s.peers.mapIdx (takeReads s.connections (multiplexed.connections server))⟩ :=
    congrArg (Option.map _) hserver
  obtain ⟨hok', hall'⟩ := hok.step_peerOk multiplexed_sums hall hstep
  have hpaces : Paces s (.serve ready dataSocket console) := trivial
  have hpaced' := hok.step_paced multiplexed_sums hpaced hpaces hstep
  have hclosed : c'.isOpen = false := by
    by_contra hopen'
    rw [Bool.not_eq_false] at hopen'
    have hwaits' := hok'.server.serve_eq_none (List.mem_of_getElem? hc'.get) hopen'
      (hc'.dataSocket ▸ hc'.monitored hopen')
    rw [hc'.reads] at hwaits'
    exact hpeer.serve_zero_ne_none hunread hwaits'
  have hp' : (s.peers.mapIdx (takeReads s.connections (multiplexed.connections server)))[n]? =
      some (takeReads s.connections (multiplexed.connections server) n p) := by
    rw [List.getElem?_mapIdx, hp, Option.map_some]
  obtain ⟨s'', q, hreceive, hq, hshown⟩ :=
    hok'.receives multiplexed_sums hall' hpaced' hp' hc'.get hphase hclosed
  exact ⟨_, s'', q, hstep, hreceive, hq, hshown⟩

end LinuxIPC
