import LinuxIPC.SummationServers

/-!
# Clients that have gone and clients that wait (`multiplexing/server.c`, `no_multiplexing/server.c`)

A client that exits without its 0 leaves an end of file behind what it wrote, and the server takes
this for a 0. So the server with multiplexing keeps no slot for a client that has gone: it closes the
connection after as many iterations as it takes to read what is left, whatever other clients do
meanwhile. A client that goes on waiting keeps its slot, and holds up the server without multiplexing
altogether.
-/

namespace LinuxIPC

open CString SlotTable Runs NoMultiplexing SummationClient SummationServer

def Peer.readsToEnd (p : Peer) : ℕ := (p.unread.length + (bufferSize - 1)) / bufferSize + 1

def servesSocket (connectionSocket fd : ℤ) : Event → Bool
  | .serve ready _ _ => fd ∈ ready && 0 ∉ ready && connectionSocket ∉ ready
  | _ => false

/-- The server releases the client `n` if it has gone, once enough iterations have found it ready. With
`FD_ISSET` false for free slots, any such iteration comes to its end. -/
def ReleasesGone (n : ℕ) (s : multiplexed.System) : Prop :=
  ∀ p c, s.peers[n]? = some p → s.connections[n]? = some c → p.client.phase = .closed →
    c.dataSocket ∈ s.server.monitored.members →
    (∀ e, servesSocket s.server.connectionSocket c.dataSocket e = true → ∃ s', s.step e = some s') ∧
    ∀ (later : List Event) (s' : multiplexed.System), run System.step s later = some s' →
      p.readsToEnd ≤ later.countP (servesSocket s.server.connectionSocket c.dataSocket) →
        ∃ c', s'.connections[n]? = some c' ∧ c'.isOpen = false

theorem SummationServer.PeerEffect.gone {e : Event} {n : ℕ} {p p' : Peer}
    {c c' : Option Multiplexing.Connection} (heffect : PeerEffect e n p c p' c')
    (hphase : p.client.phase = .closed) :
    p'.client.phase = .closed ∧ p'.unread.length ≤ p.unread.length := by
  cases heffect with
  | same => exact ⟨hphase, le_rfl⟩
  | entered _ _ _ _ _ hsending => simp [hphase] at hsending
  | received _ hreceiving _ _ => simp [hphase] at hreceiving
  | interrupted => exact ⟨rfl, le_rfl⟩
  | accepted _ => exact ⟨hphase, le_rfl⟩
  | read _ _ _ => exact ⟨hphase, (List.drop_sublist _ _).length_le⟩

section Step

variable {s s' : multiplexed.System} {n : ℕ} {p : Peer} {c : Multiplexing.Connection}

/-- A connection that is open after a step was open before, with the same slot. -/
theorem step_connection {e : Event} (hok : s.Ok Multiplexing.ServerOk)
    (hstep : s.step e = some s') (hc : s.connections[n]? = some c)
    (hslot : c.isOpen = true → c.dataSocket ∈ s.server.monitored.members) :
    s'.server.connectionSocket = s.server.connectionSocket ∧
      ∃ c', s'.connections[n]? = some c' ∧ (c'.isOpen = true → c.isOpen = true ∧
        c'.dataSocket = c.dataSocket ∧ c.dataSocket ∈ s'.server.monitored.members) := by
  have hsame : s'.server = s.server → s'.server.connectionSocket = s.server.connectionSocket ∧
      ∃ c', s'.connections[n]? = some c' ∧ (c'.isOpen = true → c.isOpen = true ∧
        c'.dataSocket = c.dataSocket ∧ c.dataSocket ∈ s'.server.monitored.members) := by
    intro heq
    refine ⟨by rw [heq], c, ?_, fun hopen => ⟨hopen, rfl, heq ▸ hslot hopen⟩⟩
    rw [System.connections, heq]
    exact hc
  cases e with
  | connect stdin => exact hsame (Option.some.inj hstep ▸ rfl)
  | enter m errno buffer stack result =>
      obtain ⟨q, -, hstep⟩ := Option.bind_eq_some_iff.mp hstep
      obtain ⟨-, hstep⟩ := Option.ite_none_right_eq_some.mp hstep
      exact hsame (Option.some.inj hstep ▸ rfl)
  | receive m =>
      obtain ⟨q, -, hstep⟩ := Option.bind_eq_some_iff.mp hstep
      obtain ⟨-, hstep⟩ := Option.ite_none_right_eq_some.mp hstep
      obtain ⟨_, -, rfl⟩ := Option.map_eq_some_iff.mp hstep
      exact hsame rfl
  | interrupt m =>
      obtain ⟨q, -, rfl⟩ := Option.map_eq_some_iff.mp hstep
      exact hsame rfl
  | serve ready dataSocket console =>
      obtain ⟨server, hserver, rfl⟩ := Option.map_eq_some_iff.mp hstep
      refine ⟨Multiplexing.step_connectionSocket hserver, ?_⟩
      cases hopen : c.isOpen with
      | false =>
          refine ⟨c, Multiplexing.step_of_closed hserver hc hopen, fun hopen' => ?_⟩
          exact absurd (hopen.symm.trans hopen') Bool.false_ne_true
      | true =>
          obtain ⟨c', hc'⟩ := hok.server.step_reads hserver hc hopen (hslot hopen)
          exact ⟨c', hc'.get, fun hopen' => ⟨rfl, hc'.dataSocket, hc'.monitored hopen'⟩⟩

/-- The end of file is taken for a 0. -/
theorem Multiplexing.ServerOk.serve_end {server : Multiplexing.Server}
    (h : Multiplexing.ServerOk server) (hc : c ∈ server.connections) (hopen : c.isOpen = true)
    (hmonitored : c.dataSocket ∈ server.monitored.members) {chunk : Chunk}
    (hend : chunk.bytes = []) : serve (c.reads ++ [chunk]) ≠ none := by
  obtain ⟨i, hi⟩ := FdSet.exists_slot hmonitored
  have hrunning := (h.running c hc hopen).2 i ⟨hopen, hi.symm⟩
  have hdata : memcpyInt (received chunk) = 0 := by
    rw [memcpyInt_received, hend]
    rfl
  have hfinish := hrunning.finish hdata []
  rw [List.append_nil] at hfinish
  rw [hfinish]
  exact Option.some_ne_none _

/-- An iteration that finds a client ready that has gone takes up to a buffer of what it left, and
closes the connection if there is nothing left. -/
theorem step_gone (hok : s.Ok Multiplexing.ServerOk) {e : Event}
    (hserves : servesSocket s.server.connectionSocket c.dataSocket e = true)
    (hstep : s.step e = some s') (hp : s.peers[n]? = some p) (hc : s.connections[n]? = some c)
    (hphase : p.client.phase = .closed) (hopen : c.isOpen = true)
    (hmonitored : c.dataSocket ∈ s.server.monitored.members) :
    ∃ p' c', s'.peers[n]? = some p' ∧ s'.connections[n]? = some c' ∧
      p'.unread = p.unread.drop bufferSize ∧ (p.unread = [] → c'.isOpen = false) := by
  cases e with
  | serve ready dataSocket console =>
      simp only [servesSocket, Bool.and_eq_true, decide_eq_true_eq] at hserves
      obtain ⟨⟨hready, hzero⟩, hsocket⟩ := hserves
      obtain ⟨server, hserver, rfl⟩ := Option.map_eq_some_iff.mp hstep
      have hread := readFrom_wakeup dataSocket console hok hzero hsocket hp hc hopen hmonitored
        hready (by simp [Peer.readable, hphase])
      obtain ⟨c', hc'⟩ := hok.server.step_reads hserver hc hopen hmonitored
      rw [hread] at hc'
      have hreads : c'.reads = c.reads ++ [p.chunk] := hc'.reads
      have hget : (multiplexed.connections server)[n]? = some c' := hc'.get
      refine ⟨takeReads s.connections (multiplexed.connections server) n p, c', ?_, hget, ?_, ?_⟩
      · rw [List.getElem?_mapIdx, hp, Option.map_some]
      · have hchunk : p.chunk.bytes = p.unread.take bufferSize := rfl
        simp only [takeReads, hc, hget, Option.elim_some, hreads, List.drop_left,
          List.flatMap_singleton, hchunk, List.length_take]
        rcases le_total bufferSize p.unread.length with hle | hle
        · rw [min_eq_left hle]
        · rw [min_eq_right hle, List.drop_length, List.drop_of_length_le hle]
      · intro hunread
        have hend : p.chunk.bytes = [] := by simp [Peer.chunk, hunread]
        by_contra hopen'
        rw [Bool.not_eq_false] at hopen'
        have hok' := Multiplexing.serverStep_serverOk _ _ _ hok.server hserver
        have hwaits := hok'.serve_eq_none (List.mem_of_getElem? hc'.get) hopen'
          (hc'.dataSocket ▸ hc'.monitored hopen')
        rw [hreads] at hwaits
        exact hok.server.serve_end (List.mem_of_getElem? hc) hopen hmonitored hend hwaits
  | connect stdin => simp [servesSocket] at hserves
  | enter m errno buffer stack result => simp [servesSocket] at hserves
  | receive m => simp [servesSocket] at hserves
  | interrupt m => simp [servesSocket] at hserves

end Step

structure GoneWithin (n : ℕ) (connectionSocket fd : ℤ) (k : ℕ) (s : multiplexed.System) : Prop where
  ok : s.Ok Multiplexing.ServerOk
  socket : s.server.connectionSocket = connectionSocket
  gone : ∃ p c, s.peers[n]? = some p ∧ s.connections[n]? = some c ∧ p.client.phase = .closed ∧
    (c.isOpen = true → c.dataSocket = fd ∧ fd ∈ s.server.monitored.members ∧ p.readsToEnd ≤ k)

theorem Peer.readsToEnd_le {p p' : Peer} (h : p'.unread.length ≤ p.unread.length) :
    p'.readsToEnd ≤ p.readsToEnd :=
  Nat.succ_le_succ (Nat.div_le_div_right (Nat.add_le_add_right h _))

theorem Peer.readsToEnd_drop {p p' : Peer} (hne : p.unread ≠ [])
    (hunread : p'.unread = p.unread.drop bufferSize) : p'.readsToEnd + 1 ≤ p.readsToEnd := by
  have hpos : 0 < p.unread.length := List.length_pos_iff.mpr hne
  have hsize : bufferSize = 128 := rfl
  simp only [Peer.readsToEnd, hunread, List.length_drop, hsize]
  omega

variable {n k : ℕ} {connectionSocket fd : ℤ} {s s' : multiplexed.System} {e : Event}

theorem GoneWithin.step (h : GoneWithin n connectionSocket fd k s) (hstep : s.step e = some s') :
    GoneWithin n connectionSocket fd k s' := by
  obtain ⟨hok, rfl, p, c, hp, hc, hphase, hslot⟩ := h
  obtain ⟨hok', hchanges⟩ := hok.step multiplexed_sums hstep
  obtain ⟨hsocket, c', hc', hopen⟩ :=
    step_connection hok hstep hc fun hopen => (hslot hopen).1 ▸ (hslot hopen).2.1
  have hlt := (List.getElem?_eq_some_iff.mp hp).1.trans_le (System.length_peers_le hstep)
  have hp' := List.getElem?_eq_getElem hlt
  rcases hchanges n _ hp' with ⟨q, hq, heffect⟩ | ⟨hnone, -⟩
  · obtain rfl := Option.some.inj (hp.symm.trans hq)
    obtain ⟨hphase', hle⟩ := heffect.gone hphase
    refine ⟨hok', hsocket, _, c', hp', hc', hphase', fun hopen' => ?_⟩
    obtain ⟨hbefore, hfd, hmonitored⟩ := hopen hopen'
    obtain ⟨rfl, -, hreads⟩ := hslot hbefore
    exact ⟨hfd, hmonitored, (Peer.readsToEnd_le hle).trans hreads⟩
  · exact absurd (hp.symm.trans hnone) (Option.some_ne_none p)

theorem GoneWithin.served (h : GoneWithin n connectionSocket fd (k + 1) s)
    (hserves : servesSocket connectionSocket fd e = true) (hstep : s.step e = some s') :
    GoneWithin n connectionSocket fd k s' := by
  obtain ⟨hok', hsocket', p', c', hp', hc', hphase', hslot'⟩ := h.step hstep
  obtain ⟨hok, rfl, p, c, hp, hc, hphase, hslot⟩ := h
  refine ⟨hok', hsocket', p', c', hp', hc', hphase', fun hopen' => ?_⟩
  obtain ⟨hfd', hmonitored', -⟩ := hslot' hopen'
  obtain ⟨-, d, hd, hopen⟩ :=
    step_connection hok hstep hc fun hopen => (hslot hopen).1 ▸ (hslot hopen).2.1
  obtain rfl := Option.some.inj (hc'.symm.trans hd)
  have hbefore := (hopen hopen').1
  obtain ⟨rfl, hmonitored, hreads⟩ := hslot hbefore
  obtain ⟨q, d, hq, hd, hunread, hclosed⟩ :=
    step_gone hok hserves hstep hp hc hphase hbefore hmonitored
  obtain rfl := Option.some.inj (hp'.symm.trans hq)
  obtain rfl := Option.some.inj (hc'.symm.trans hd)
  have hne : p.unread ≠ [] := fun hnil => by simp [hclosed hnil] at hopen'
  exact ⟨hfd', hmonitored', Nat.le_of_succ_le_succ ((Peer.readsToEnd_drop hne hunread).trans hreads)⟩

theorem releasesGone (hok : s.Ok Multiplexing.ServerOk) (n : ℕ) : ReleasesGone n s := by
  intro p c hp hc hphase hmonitored
  constructor
  · intro e hserves
    cases e with
    | serve ready dataSocket console =>
        simp only [servesSocket, Bool.and_eq_true, decide_eq_true_eq] at hserves
        obtain ⟨server, hserver⟩ := exists_serverStep dataSocket console hok hserves.1.2 hserves.2
        exact ⟨_, congrArg (Option.map _) hserver⟩
    | connect stdin => simp [servesSocket] at hserves
    | enter m errno buffer stack result => simp [servesSocket] at hserves
    | receive m => simp [servesSocket] at hserves
    | interrupt m => simp [servesSocket] at hserves
  · intro later s' hrun hcount
    have hstart : GoneWithin n s.server.connectionSocket c.dataSocket p.readsToEnd s :=
      ⟨hok, rfl, p, c, hp, hc, hphase, fun _ => ⟨rfl, hmonitored, le_rfl⟩⟩
    obtain ⟨-, -, q, d, -, hd, -, hslot⟩ := run_countdown (fun k s e s' h => h.step)
      (fun k s e s' hserves h => h.served hserves) hstart hrun hcount
    refine ⟨d, hd, ?_⟩
    by_contra hopen
    have hreads := (hslot (by simpa using hopen)).2.2
    exact absurd hreads (Nat.not_succ_le_zero _)

/-- In every run, a client that has gone is released after as many iterations that find it ready as it
takes to read what it left, whatever happens in between. -/
theorem gone_clients_released (launch : Launch) (events : List Event) :
    Throughout System.step (fun s => ∀ n, ReleasesGone n s) (multiplexedSystem launch) events :=
  throughout_of_ok multiplexed_sums (fun _ hok n => releasesGone hok n)
    (Multiplexing.ServerOk.init launch) rfl events

/-- Of two clients that were interrupted, one left 5 and 7, and the server has read the 5 and the 7 and
then the end of file: their slots are free again. -/
example : (run System.step (multiplexedSystem standardLaunch)
    [.connect (ascii "5\n7\n"), .connect [], .serve [3] 4 none, .serve [3] 5 none, entersLine 0,
      entersLine 0, .interrupt 0, .interrupt 1, .serve [4, 5] 0 none, .serve [4] 0 none]).map
    (fun s => (s.server.monitored.members, s.connections.map fun c => c.isOpen)) =
      some ([0, 3], [false, false]) := by
  decide +kernel

/-- Once the server has read all that the waiting client `n` wrote and keeps the connection open, it
does nothing any more, until the client is interrupted. -/
def HoldsUp (n : ℕ) (s : singleClient.System) : Prop :=
  ∀ p c, s.peers[n]? = some p → s.connections[n]? = some c → p.client.phase = .receiving →
    c.isOpen = true → p.unread = [] → ∀ later : List Event, (∀ e ∈ later, e ≠ .interrupt n) →
      Throughout System.step (fun t : singleClient.System => t.server = s.server) s later

theorem takeReads_self (connections : List Multiplexing.Connection) (n : ℕ) (p : Peer) :
    takeReads connections connections n p = p := by
  simp [takeReads]

/-- The server waits in `read` for the client `n`, which waits for the server. -/
theorem step_heldUp {s s' : singleClient.System} {n : ℕ} {p : Peer} {c : Multiplexing.Connection}
    {e : Event} (hok : s.Ok NoMultiplexing.ServerOk) (hp : s.peers[n]? = some p)
    (hc : s.connections[n]? = some c) (hphase : p.client.phase = .receiving)
    (hopen : c.isOpen = true) (hunread : p.unread = []) (hne : e ≠ .interrupt n)
    (hstep : s.step e = some s') : s'.server = s.server ∧ s'.peers[n]? = some p := by
  have hmem : c ∈ s.server.connections := List.mem_of_getElem? hc
  cases e with
  | connect stdin =>
      obtain rfl := Option.some.inj hstep
      exact ⟨rfl, (List.getElem?_append_left (List.getElem?_eq_some_iff.mp hp).1).trans hp⟩
  | enter m errno buffer stack result =>
      obtain ⟨q, hq, hstep⟩ := Option.bind_eq_some_iff.mp hstep
      obtain ⟨hsending, hstep⟩ := Option.ite_none_right_eq_some.mp hstep
      obtain rfl := Option.some.inj hstep
      have hmn : m ≠ n := by
        rintro rfl
        obtain rfl := Option.some.inj (hp.symm.trans hq)
        simp [hphase] at hsending
      exact ⟨rfl, (List.getElem?_set_ne hmn).trans hp⟩
  | receive m =>
      obtain ⟨q, -, hstep⟩ := Option.bind_eq_some_iff.mp hstep
      obtain ⟨-, hstep⟩ := Option.ite_none_right_eq_some.mp hstep
      obtain ⟨result, hresult, rfl⟩ := Option.map_eq_some_iff.mp hstep
      have hmn : m ≠ n := by
        rintro rfl
        have hwritten := singleClient_sums.waiting _ hok.server c hmem hopen
        rw [hc, Option.bind_some, hwritten] at hresult
        exact absurd hresult.symm (Option.some_ne_none result)
      exact ⟨rfl, (List.getElem?_set_ne hmn).trans hp⟩
  | interrupt m =>
      obtain ⟨q, -, rfl⟩ := Option.map_eq_some_iff.mp hstep
      have hmn : m ≠ n := fun heq => hne (heq ▸ rfl)
      exact ⟨rfl, (List.getElem?_set_ne hmn).trans hp⟩
  | serve ready dataSocket console =>
      obtain ⟨server, hserver, rfl⟩ := Option.map_eq_some_iff.mp hstep
      obtain ⟨fd, sum, reads, hserving, rfl⟩ := hok.server.eq_of_open hmem hopen
      have hof : s.peerOf fd = some p :=
        peerOf_of_open (singleClient_sums.distinct _ hok.server) hc hp hopen
      obtain ⟨hzero, hsocket, -⟩ := hok.server.serving fd sum hserving
      have hnot : fd ∉ (s.wakeup ready dataSocket console).ready := by
        intro hready
        have hreadable := (List.mem_filter.mp hready).2
        have hne' : fd ≠ singleClient.connectionSocket s.server := hsocket
        rw [System.readable, if_neg hne', hof] at hreadable
        simp [hzero, Peer.readable, hunread, hphase] at hreadable
      have hsame : server = s.server := by
        have hstep' : NoMultiplexing.serverStep s.server (s.wakeup ready dataSocket console) =
            some server := hserver
        simp only [NoMultiplexing.serverStep, hserving, if_neg hnot] at hstep'
        exact (Option.some.inj hstep').symm
      subst hsame
      refine ⟨rfl, ?_⟩
      rw [List.getElem?_mapIdx, hp, Option.map_some]
      exact congrArg some (takeReads_self _ n p)

theorem holdsUp {s : singleClient.System} (hok : s.Ok NoMultiplexing.ServerOk) (n : ℕ) :
    HoldsUp n s := by
  intro p c hp hc hphase hopen hunread later hlater
  refine throughout_of_along (fun t : singleClient.System => t.Ok NoMultiplexing.ServerOk ∧
    t.server = s.server ∧ t.peers[n]? = some p) ?_ (fun t ht => ht.2.1) ⟨hok, rfl, hp⟩
    (along_of_forall (fun e he _ => hlater e he) s)
  rintro t e t' ⟨hok', hserver, hp'⟩ hne hstep
  have hc' : t.connections[n]? = some c := by
    rw [System.connections, hserver]
    exact hc
  obtain ⟨hserver', hp''⟩ := step_heldUp hok' hp' hc' hphase hopen hunread hne hstep
  exact ⟨(hok'.step singleClient_sums hstep).1, hserver'.trans hserver, hp''⟩

/-- In every run, a client that waits for a result which does not come holds up the server without
multiplexing, and with it every client behind it. -/
theorem waiting_client_holds_up (launch : Launch) (events : List Event) :
    Throughout System.step (fun s => ∀ n, HoldsUp n s) (singleClientSystem launch) events :=
  throughout_of_ok singleClient_sums (fun _ hok n => holdsUp hok n)
    (NoMultiplexing.ServerOk.init launch) rfl events

/-- The 0 of the first client was read behind its 5, and the second client is not accepted. -/
example : (run System.step (singleClientSystem standardLaunch)
    [.connect (ascii "5\n0\n"), .serve [3] 4 none, entersLine 0, entersLine 0, .serve [4] 0 none,
      .connect (ascii "1\n0\n"), .serve [3, 4] 5 none]).map
    (fun s => (s.server.serving, s.peers.map fun p => p.client.phase)) =
      some (some (4, 5), [.receiving, .sending]) := by
  decide +kernel

end LinuxIPC
