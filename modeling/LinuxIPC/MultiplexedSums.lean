import LinuxIPC.Multiplexing

/-!
# Every client gets the result of a server of its own

While a client is connected and monitored, the single-client server that reads what it sent has the
sum in its slot and waits for more. Slots without a client hold 0. When the result is sent, the
single-client server would have sent the same, whatever follows on the socket.
-/

namespace LinuxIPC

open CString SlotTable Runs NoMultiplexing

namespace Multiplexing

/-- One result was sent, the one that the single-client server sends to what was read. -/
def Connection.Answered (c : Connection) : Prop :=
  ∃ result, c.written = [result] ∧ ∀ more, serve (c.reads ++ more) = some (result, more)

structure ServerOk (s : Server) : Prop where
  nodup : s.monitored.members.Nodup
  stdin_monitored : 0 ∈ s.monitored.members
  socket_monitored : s.connectionSocket ∈ s.monitored.members
  socket_pos : 0 < s.connectionSocket
  stdin_open : 0 ∈ s.openFds
  socket_open : s.connectionSocket ∈ s.openFds
  distinct : s.connections.Pairwise fun c d =>
    c.isOpen = true → d.isOpen = true → c.dataSocket ≠ d.dataSocket
  dataSocket : ∀ c ∈ s.connections, c.isOpen = true →
    0 < c.dataSocket ∧ c.dataSocket ≠ s.connectionSocket ∧ c.dataSocket ∈ s.openFds
  owner : ∀ fd, s.ClientSlot fd → ∃ c ∈ s.connections, c.Owns fd
  free : ∀ i : Fin maxClients, (∀ c ∈ s.connections, ¬ c.Owns (s.monitored.slot i)) →
    s.clientResult[i] = 0
  running : ∀ c ∈ s.connections, c.isOpen = true → c.written = [] ∧
    ∀ i : Fin maxClients, c.Owns (s.monitored.slot i) → Running c.reads s.clientResult[i]
  answered : ∀ c ∈ s.connections, c.isOpen = false → c.Answered

theorem ServerOk.init (launch : Launch) : ServerOk (Server.init launch) where
  nodup := launch.nodup_initialFdSet
  stdin_monitored := by simp [Server.init, launch.members_initialFdSet]
  socket_monitored := by simp [Server.init, launch.members_initialFdSet]
  socket_pos := launch.connectionSocket_pos
  stdin_open := List.mem_cons_of_mem _ launch.stdin_mem
  socket_open := List.mem_cons_self
  distinct := List.Pairwise.nil
  dataSocket := by simp [Server.init]
  owner := by
    rintro fd ⟨hmem, hzero, hsocket⟩
    simp only [Server.init, launch.members_initialFdSet, List.mem_cons, List.not_mem_nil,
      or_false] at hmem hsocket
    exact absurd hmem (not_or.mpr ⟨hzero, hsocket⟩)
  free := by simp [Server.init]
  running := by simp [Server.init]
  answered := by simp [Server.init]

theorem Server.ClientSlot.ne_neg_one {s : Server} {fd : ℤ} (h : s.ClientSlot fd) : fd ≠ -1 :=
  (mem_occupied.mp h.1).2

theorem ServerOk.eq_of_slot {s : Server} (h : ServerOk s) {i j : Fin maxClients}
    (hi : s.ClientSlot (s.monitored.slot i)) (heq : s.monitored.slot i = s.monitored.slot j) :
    i = j :=
  Fin.ext (FdSet.slot_injective h.nodup hi.ne_neg_one heq)

theorem Connection.Owns.eq {c : Connection} {fd fd' : ℤ} (h : c.Owns fd) (h' : c.Owns fd') :
    fd = fd' :=
  h.2.symm.trans h'.2

theorem pairwise_onSocket {fd : ℤ} {f : Connection → Connection} {connections : List Connection}
    (hsocket : ∀ c, (f c).dataSocket = c.dataSocket)
    (hopen : ∀ c, (f c).isOpen = true → c.isOpen = true)
    (h : connections.Pairwise fun c d =>
      c.isOpen = true → d.isOpen = true → c.dataSocket ≠ d.dataSocket) :
    (onSocket fd f connections).Pairwise fun c d =>
      c.isOpen = true → d.isOpen = true → c.dataSocket ≠ d.dataSocket := by
  have hsocket' : ∀ c : Connection, (if c.Owns fd then f c else c).dataSocket = c.dataSocket := by
    intro c
    split_ifs
    · exact hsocket c
    · rfl
  have hopen' : ∀ c : Connection, (if c.Owns fd then f c else c).isOpen = true →
      c.isOpen = true := by
    intro c hc
    split_ifs at hc
    · exact hopen c hc
    · exact hc
  rw [onSocket, List.pairwise_map]
  apply h.imp
  intro c d hcd hc hd
  rw [hsocket', hsocket']
  exact hcd (hopen' c hc) (hopen' d hd)

theorem mem_onSocket_of_owns {fd : ℤ} {f : Connection → Connection} {connections : List Connection}
    {c : Connection} (hc : c ∈ connections) (howns : c.Owns fd) :
    f c ∈ onSocket fd f connections :=
  mem_onSocket.mpr ⟨c, hc, Or.inl ⟨howns, rfl⟩⟩

theorem mem_onSocket_of_not_owns {fd : ℤ} {f : Connection → Connection}
    {connections : List Connection} {c : Connection} (hc : c ∈ connections) (howns : ¬ c.Owns fd) :
    c ∈ onSocket fd f connections :=
  mem_onSocket.mpr ⟨c, hc, Or.inr ⟨howns, rfl⟩⟩

theorem ServerOk.added {s : Server} (h : ServerOk s) {i : Fin maxClients} {chunk : Chunk}
    (hslot : s.ClientSlot (s.monitored.slot i)) (hdata : memcpyInt (received chunk) ≠ 0) :
    ServerOk (s.added i chunk) where
  nodup := h.nodup
  stdin_monitored := h.stdin_monitored
  socket_monitored := h.socket_monitored
  socket_pos := h.socket_pos
  stdin_open := h.stdin_open
  socket_open := h.socket_open
  distinct := pairwise_onSocket (fun _ => rfl) (fun _ hc => hc) h.distinct
  dataSocket := by
    intro c' hc' hopen
    obtain ⟨c, hc, ⟨-, rfl⟩ | ⟨-, heq⟩⟩ := mem_onSocket.mp hc'
    · exact h.dataSocket c hc hopen
    · exact h.dataSocket c' (heq ▸ hc) hopen
  owner := by
    intro fd hfd
    obtain ⟨c, hc, howns⟩ := h.owner fd hfd
    by_cases hown : c.Owns (s.monitored.slot i)
    · exact ⟨c.afterRead chunk, mem_onSocket_of_owns hc hown, howns⟩
    · exact ⟨c, mem_onSocket_of_not_owns hc hown, howns⟩
  free := by
    intro j hfree
    have hfree' : ∀ c ∈ s.connections, ¬ c.Owns (s.monitored.slot j) := by
      intro c hc howns
      by_cases hown : c.Owns (s.monitored.slot i)
      · exact hfree _ (mem_onSocket_of_owns hc hown) howns
      · exact hfree c (mem_onSocket_of_not_owns hc hown) howns
    obtain ⟨c, hc, hown⟩ := h.owner _ hslot
    have hij : i ≠ j := fun heq => hfree' c hc (heq ▸ hown)
    exact (s.clientResult_added_of_ne chunk hij).trans (h.free j hfree')
  running := by
    intro c' hc' hopen
    obtain ⟨c, hc, ⟨hown, rfl⟩ | ⟨hown, heq⟩⟩ := mem_onSocket.mp hc'
    · obtain ⟨hwritten, hrunning⟩ := h.running c hc hopen
      refine ⟨hwritten, fun j howns => ?_⟩
      obtain rfl := h.eq_of_slot hslot (hown.eq howns)
      rw [s.clientResult_added i chunk]
      exact (hrunning i hown).add hdata
    · subst heq
      obtain ⟨hwritten, hrunning⟩ := h.running c' hc hopen
      refine ⟨hwritten, fun j howns => ?_⟩
      have hij : i ≠ j := fun heq => hown (heq ▸ howns)
      rw [s.clientResult_added_of_ne chunk hij]
      exact hrunning j howns
  answered := by
    intro c' hc' hclosed
    obtain ⟨c, hc, ⟨hown, rfl⟩ | ⟨-, heq⟩⟩ := mem_onSocket.mp hc'
    · exact absurd (hown.1.symm.trans hclosed) (by decide)
    · exact h.answered c' (heq ▸ hc) hclosed

theorem Server.slot_finished {s : Server} (h : ServerOk s) {i : Fin maxClients} {chunk : Chunk}
    (hslot : s.ClientSlot (s.monitored.slot i)) (j : ℕ) :
    (s.finished i chunk).monitored.slot j =
      if s.monitored.slot j = s.monitored.slot i then -1 else s.monitored.slot j :=
  FdSet.slot_remove h.nodup hslot.ne_neg_one j

theorem Server.mem_members_finished {s : Server} (h : ServerOk s) {i : Fin maxClients}
    {chunk : Chunk} (hslot : s.ClientSlot (s.monitored.slot i)) {fd : ℤ} :
    fd ∈ (s.finished i chunk).monitored.members ↔
      fd ∈ s.monitored.members ∧ fd ≠ s.monitored.slot i := by
  have hmembers : (s.finished i chunk).monitored.members =
      s.monitored.members.filter (· ≠ s.monitored.slot i) :=
    FdSet.members_remove h.nodup hslot.ne_neg_one
  rw [hmembers, List.mem_filter, decide_eq_true_eq]

theorem mem_openFds_finished {s : Server} {i : Fin maxClients} {chunk : Chunk} {fd : ℤ} :
    fd ∈ (s.finished i chunk).openFds ↔ fd ∈ s.openFds ∧ fd ≠ s.monitored.slot i := by
  rw [Server.finished, List.mem_filter, decide_eq_true_eq]

theorem ServerOk.finished {s : Server} (h : ServerOk s) {i : Fin maxClients} {chunk : Chunk}
    (hslot : s.ClientSlot (s.monitored.slot i)) (hdata : memcpyInt (received chunk) = 0) :
    ServerOk (s.finished i chunk) where
  nodup := by
    have hmembers : (s.finished i chunk).monitored.members =
        s.monitored.members.filter (· ≠ s.monitored.slot i) :=
      FdSet.members_remove h.nodup hslot.ne_neg_one
    rw [hmembers]
    exact h.nodup.filter _
  stdin_monitored := (Server.mem_members_finished h hslot).mpr ⟨h.stdin_monitored, hslot.2.1.symm⟩
  socket_monitored :=
    (Server.mem_members_finished h hslot).mpr ⟨h.socket_monitored, hslot.2.2.symm⟩
  socket_pos := h.socket_pos
  stdin_open := mem_openFds_finished.mpr ⟨h.stdin_open, hslot.2.1.symm⟩
  socket_open := mem_openFds_finished.mpr ⟨h.socket_open, hslot.2.2.symm⟩
  distinct := pairwise_onSocket (fun _ => rfl) (fun _ hc => absurd hc Bool.false_ne_true) h.distinct
  dataSocket := by
    intro c' hc' hopen
    obtain ⟨c, hc, ⟨-, rfl⟩ | ⟨hown, rfl⟩⟩ := mem_onSocket.mp hc'
    · exact absurd hopen Bool.false_ne_true
    · obtain ⟨hpos, hsocket, hmem⟩ := h.dataSocket c' hc hopen
      exact ⟨hpos, hsocket, mem_openFds_finished.mpr ⟨hmem, fun heq => hown ⟨hopen, heq⟩⟩⟩
  owner := by
    rintro fd ⟨hmem, hzero, hsocket⟩
    obtain ⟨hmem, hne⟩ := (Server.mem_members_finished h hslot).mp hmem
    obtain ⟨c, hc, howns⟩ := h.owner fd ⟨hmem, hzero, hsocket⟩
    exact ⟨c, mem_onSocket_of_not_owns hc fun hown => hne (howns.eq hown), howns⟩
  free := by
    intro j hfree
    by_cases hij : i = j
    · subst hij
      exact s.clientResult_finished i chunk
    · have hne : s.monitored.slot j ≠ s.monitored.slot i :=
        fun heq => hij (h.eq_of_slot hslot heq.symm)
      have hsame : (s.finished i chunk).monitored.slot j = s.monitored.slot j := by
        rw [Server.slot_finished h hslot, if_neg hne]
      refine (s.clientResult_finished_of_ne chunk hij).trans (h.free j fun c hc howns => ?_)
      refine hfree c (mem_onSocket_of_not_owns hc fun hown => hne (howns.eq hown)) ?_
      rwa [hsame]
  running := by
    intro c' hc' hopen
    obtain ⟨c, hc, ⟨-, rfl⟩ | ⟨hown, rfl⟩⟩ := mem_onSocket.mp hc'
    · exact absurd hopen Bool.false_ne_true
    · obtain ⟨hwritten, hrunning⟩ := h.running c' hc hopen
      refine ⟨hwritten, fun j howns => ?_⟩
      have hpos := (h.dataSocket c' hc hopen).1
      rw [Server.slot_finished h hslot] at howns
      split_ifs at howns with hslots
      · have hneg := howns.2
        omega
      · have hij : i ≠ j := fun heq => hslots (heq ▸ rfl)
        rw [s.clientResult_finished_of_ne chunk hij]
        exact hrunning j howns
  answered := by
    intro c' hc' hclosed
    obtain ⟨c, hc, ⟨hown, rfl⟩ | ⟨-, rfl⟩⟩ := mem_onSocket.mp hc'
    · obtain ⟨hwritten, hrunning⟩ := h.running c hc hown.1
      refine ⟨resultMessage s.clientResult[i], ?_, (hrunning i hown).finish hdata⟩
      simp [Connection.afterRead, Connection.afterResult, hwritten]
    · exact h.answered c' hc hclosed

structure ClientsOnly (connectionSocket : ℤ) (readfds : List ℤ) : Prop where
  free : -1 ∉ readfds
  stdin : 0 ∉ readfds
  socket : connectionSocket ∉ readfds

theorem ClientsOnly.clientSlot {s : Server} {readfds : List ℤ}
    (h : ClientsOnly s.connectionSocket readfds) {i : ℕ} (hready : s.monitored.slot i ∈ readfds) :
    s.ClientSlot (s.monitored.slot i) := by
  refine ⟨FdSet.slot_mem_members ?_, ?_, ?_⟩
  · exact fun heq => h.free (heq ▸ hready)
  · exact fun heq => h.stdin (heq ▸ hready)
  · exact fun heq => h.socket (heq ▸ hready)

theorem SlotEffect.connectionSocket {w : Wakeup} {readfds : List ℤ} {s s' : Server}
    {i : Fin maxClients} (heffect : SlotEffect w readfds s i s') :
    s'.connectionSocket = s.connectionSocket := by
  cases heffect with
  | skipped _ => rfl
  | added _ _ _ _ => rfl
  | finished _ _ _ _ => rfl

theorem ServerOk.slot {w : Wakeup} {readfds : List ℤ} {s s' : Server} {i : Fin maxClients}
    (h : ServerOk s) (hclients : ClientsOnly s.connectionSocket readfds)
    (heffect : SlotEffect w readfds s i s') : ServerOk s' := by
  cases heffect with
  | skipped _ => exact h
  | added chunk hready _ hdata => exact h.added (hclients.clientSlot hready) hdata
  | finished chunk hready _ hdata => exact h.finished (hclients.clientSlot hready) hdata

theorem ServerOk.slots {w : Wakeup} {readfds : List ℤ} {s s' : Server} {slots : List (Fin maxClients)}
    (h : ServerOk s) (hclients : ClientsOnly s.connectionSocket readfds)
    (hrun : run (serveSlot w readfds) s slots = some s') :
    ServerOk s' ∧ ClientsOnly s'.connectionSocket readfds := by
  have hstep : ∀ t i t', ServerOk t ∧ ClientsOnly t.connectionSocket readfds →
      serveSlot w readfds t i = some t' → ServerOk t' ∧ ClientsOnly t'.connectionSocket readfds := by
    rintro t i t' ⟨ht, hclients⟩ hserve
    have heffect := serveSlot_effect hserve
    exact ⟨ht.slot hclients heffect, heffect.connectionSocket ▸ hclients⟩
  exact run_invariant hstep ⟨h, hclients⟩ hrun

theorem ServerOk.members_open {s : Server} (h : ServerOk s) {fd : ℤ}
    (hfd : fd ∈ s.monitored.members) : fd ∈ s.openFds := by
  by_cases hzero : fd = 0
  · exact hzero ▸ h.stdin_open
  by_cases hsocket : fd = s.connectionSocket
  · exact hsocket ▸ h.socket_open
  obtain ⟨c, hc, hopen, rfl⟩ := h.owner fd ⟨hfd, hzero, hsocket⟩
  exact (h.dataSocket c hc hopen).2.2

theorem ServerOk.accepted {s : Server} (h : ServerOk s) {dataSocket : ℤ} (hnonneg : 0 ≤ dataSocket)
    (hunused : dataSocket ∉ s.openFds) : ServerOk (s.accepted dataSocket) where
  nodup := FdSet.nodup_add h.nodup (by omega) fun hmem => hunused (h.members_open hmem)
  stdin_monitored := (FdSet.mem_members_add (by omega)).mpr (Or.inl h.stdin_monitored)
  socket_monitored := (FdSet.mem_members_add (by omega)).mpr (Or.inl h.socket_monitored)
  socket_pos := h.socket_pos
  stdin_open := List.mem_cons_of_mem _ h.stdin_open
  socket_open := List.mem_cons_of_mem _ h.socket_open
  distinct := by
    refine List.pairwise_append.mpr ⟨h.distinct, List.pairwise_singleton _ _, ?_⟩
    intro c hc d hd hopen _ heq
    rw [List.mem_singleton.mp hd] at heq
    have hsame : c.dataSocket = dataSocket := heq
    exact hunused (hsame ▸ (h.dataSocket c hc hopen).2.2)
  dataSocket := by
    intro c hc hopen
    rcases List.mem_append.mp hc with hc | hc
    · obtain ⟨hpos, hsocket, hmem⟩ := h.dataSocket c hc hopen
      exact ⟨hpos, hsocket, List.mem_cons_of_mem _ hmem⟩
    · rw [List.mem_singleton.mp hc]
      have hzero : dataSocket ≠ 0 := fun heq => hunused (heq ▸ h.stdin_open)
      have hsocket : dataSocket ≠ s.connectionSocket := fun heq => hunused (heq ▸ h.socket_open)
      exact ⟨lt_of_le_of_ne hnonneg hzero.symm, hsocket, List.mem_cons_self⟩
  owner := by
    rintro fd ⟨hmem, hzero, hsocket⟩
    rcases (FdSet.mem_members_add (by omega)).mp hmem with hmem | ⟨rfl, -⟩
    · obtain ⟨c, hc, howns⟩ := h.owner fd ⟨hmem, hzero, hsocket⟩
      exact ⟨c, List.mem_append_left _ hc, howns⟩
    · exact ⟨_, List.mem_append_right _ List.mem_cons_self, rfl, rfl⟩
  free := by
    intro j hfree
    rcases FdSet.slot_add s.monitored dataSocket j with hsame | ⟨-, hnew⟩
    · apply h.free j
      intro c hc howns
      exact hfree c (List.mem_append_left _ hc) (hsame.symm ▸ howns)
    · exact absurd ⟨rfl, hnew.symm⟩ (hfree _ (List.mem_append_right _ List.mem_cons_self))
  running := by
    intro c hc hopen
    rcases List.mem_append.mp hc with hc | hc
    · obtain ⟨hwritten, hrunning⟩ := h.running c hc hopen
      refine ⟨hwritten, fun j howns => ?_⟩
      rcases FdSet.slot_add s.monitored dataSocket j with hsame | ⟨-, hnew⟩
      · exact hrunning j (hsame ▸ howns)
      · have heq : c.dataSocket = dataSocket := howns.2.trans hnew
        exact absurd (heq ▸ (h.dataSocket c hc hopen).2.2) hunused
    · rw [List.mem_singleton.mp hc]
      refine ⟨rfl, fun j howns => ?_⟩
      have hfree : s.monitored.slot j = -1 := by
        rcases FdSet.slot_add s.monitored dataSocket j with hsame | ⟨hfree, -⟩
        · by_contra hne
          have hslot : s.monitored.slot j = dataSocket := hsame.symm.trans howns.2.symm
          exact hunused (hslot ▸ h.members_open (FdSet.slot_mem_members hne))
        · exact hfree
      have hzero : s.clientResult[j] = 0 := by
        apply h.free j
        rintro c hc ⟨hopen, hsocket⟩
        have hpos := (h.dataSocket c hc hopen).1
        omega
      have hresult : (s.accepted dataSocket).clientResult[j] = 0 := hzero
      rw [hresult]
      exact Running.nil
  answered := by
    intro c hc hclosed
    rcases List.mem_append.mp hc with hc | hc
    · exact h.answered c hc hclosed
    · rw [List.mem_singleton.mp hc] at hclosed
      exact absurd hclosed.symm Bool.false_ne_true

inductive StepEffect (s : Server) (w : Wakeup) : Server → Prop where
  | accepted (hsocket : s.connectionSocket ∈ s.monitored.selected w.ready)
      (hnonneg : 0 ≤ w.dataSocket) (hunused : w.dataSocket ∉ s.openFds) :
      StepEffect s w (s.accepted w.dataSocket)
  | console (hsocket : s.connectionSocket ∉ s.monitored.selected w.ready)
      (hstdin : 0 ∈ s.monitored.selected w.ready) : StepEffect s w s
  | served {s' : Server} (hclients : ClientsOnly s.connectionSocket (s.monitored.selected w.ready))
      (hserved : handleServiceRequest w (s.monitored.selected w.ready) s = some s') :
      StepEffect s w s'

theorem serverStep_effect {s s' : Server} {w : Wakeup} (hstep : serverStep s w = some s') :
    StepEffect s w s' := by
  unfold serverStep at hstep
  by_cases hsocket : s.connectionSocket ∈ s.monitored.selected w.ready
  · rw [if_pos hsocket, handleConnectionInitiationRequest] at hstep
    obtain ⟨fd, haccept, rfl⟩ := Option.map_eq_some_iff.mp hstep
    obtain ⟨rfl, hnonneg, hunused⟩ := accept_eq_some.mp haccept
    exact StepEffect.accepted hsocket hnonneg hunused
  · rw [if_neg hsocket] at hstep
    by_cases hstdin : (0 : ℤ) ∈ s.monitored.selected w.ready
    · rw [if_pos hstdin] at hstep
      obtain ⟨_, -, rfl⟩ := Option.map_eq_some_iff.mp hstep
      exact StepEffect.console hsocket hstdin
    · rw [if_neg hstdin] at hstep
      have hfree : -1 ∉ s.monitored.selected w.ready :=
        fun hmem => (mem_occupied.mp (FdSet.mem_selected.mp hmem).1).2 rfl
      exact StepEffect.served ⟨hfree, hstdin, hsocket⟩ hstep

theorem serverStep_serverOk (s : Server) (w : Wakeup) (s' : Server) (h : ServerOk s)
    (hstep : serverStep s w = some s') : ServerOk s' := by
  cases serverStep_effect hstep with
  | accepted _ hnonneg hunused => exact h.accepted hnonneg hunused
  | console _ _ => exact h
  | served hclients hserved => exact (h.slots hclients hserved).1

/-- A connection is sent at most one message, the one that a server for this client alone would
send: having read what was read from this connection, that server sends the message and leaves
whatever follows unread. Connections that are open at a time have different descriptors, so that
what is read from one is not read from another. -/
theorem multiplexed_refines (launch : Launch) (ws : List Wakeup) :
    Throughout serverStep (fun s =>
      (s.connections.Pairwise fun c d =>
        c.isOpen = true → d.isOpen = true → c.dataSocket ≠ d.dataSocket) ∧
      ∀ c ∈ s.connections, c.written = [] ∨
        ∃ result, c.written = [result] ∧
          ∀ more, serve (c.reads ++ more) = some (result, more)) (Server.init launch) ws := by
  refine throughout_of_invariant serverStep_serverOk (fun s h => ⟨h.distinct, fun c hc => ?_⟩)
    (ServerOk.init launch) ws
  cases hopen : c.isOpen with
  | true => exact Or.inl (h.running c hc hopen).1
  | false => exact Or.inr (h.answered c hc hopen)

end Multiplexing

end LinuxIPC
