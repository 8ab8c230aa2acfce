import LinuxIPC.MultiplexedSums

/-!
# What one socket delivers

The multiplexed server reads a client's socket once in every iteration that finds it ready, until it
has sent the result. Whatever else happens in these iterations, the connection ends as the
single-client server would have it.
-/

namespace LinuxIPC

open CString SlotTable Runs NoMultiplexing

namespace Multiplexing

def Wakeup.readFrom (connectionSocket fd : ℤ) (w : Wakeup) : Option Chunk :=
  if connectionSocket ∈ w.ready ∨ 0 ∈ w.ready then none
  else if fd ∈ w.ready then w.data fd else none

theorem not_owns_of_closed {c : Connection} (hclosed : c.isOpen = false) (fd : ℤ) : ¬ c.Owns fd :=
  fun howns => Bool.false_ne_true (hclosed.symm.trans howns.1)

theorem getElem?_onSocket (fd : ℤ) (f : Connection → Connection) {connections : List Connection}
    {n : ℕ} {c : Connection} (hget : connections[n]? = some c) :
    (onSocket fd f connections)[n]? = some (if c.Owns fd then f c else c) := by
  rw [onSocket, List.getElem?_map, hget, Option.map_some]

/-- A slot of another descriptor leaves the connection alone. -/
theorem SlotEffect.getElem? {w : Wakeup} {readfds : List ℤ} {s s' : Server} {i : Fin maxClients}
    (heffect : SlotEffect w readfds s i s') {n : ℕ} {c : Connection}
    (hget : s.connections[n]? = some c) (howns : ¬ c.Owns (s.monitored.slot i)) :
    s'.connections[n]? = some c := by
  cases heffect with
  | skipped _ => exact hget
  | added chunk _ _ _ =>
      have hsame := getElem?_onSocket (s.monitored.slot i) (fun c => c.afterRead chunk) hget
      rwa [if_neg howns] at hsame
  | finished chunk _ _ _ =>
      have hsame := getElem?_onSocket (s.monitored.slot i)
        (fun c => (c.afterRead chunk).afterResult (resultMessage s.clientResult[i])) hget
      rwa [if_neg howns] at hsame

theorem slots_of_closed {w : Wakeup} {readfds : List ℤ} {s s' : Server}
    {slots : List (Fin maxClients)} (hrun : run (serveSlot w readfds) s slots = some s') {n : ℕ}
    {c : Connection} (hget : s.connections[n]? = some c) (hclosed : c.isOpen = false) :
    s'.connections[n]? = some c := by
  have hstep : ∀ t i t', t.connections[n]? = some c → serveSlot w readfds t i = some t' →
      t'.connections[n]? = some c := fun t i t' ht hserve =>
    (serveSlot_effect hserve).getElem? ht (not_owns_of_closed hclosed _)
  exact run_invariant hstep hget hrun

/-- The slot of a client that is not served stays with its connection. -/
theorem ServerOk.other_slot {w : Wakeup} {readfds : List ℤ} {s s' : Server} {i j : Fin maxClients}
    (h : ServerOk s) (hclients : ClientsOnly s.connectionSocket readfds)
    (heffect : SlotEffect w readfds s j s') (hji : j ≠ i) {n : ℕ} {c : Connection}
    (hget : s.connections[n]? = some c) (howns : c.Owns (s.monitored.slot i)) :
    s'.connections[n]? = some c ∧ c.Owns (s'.monitored.slot i) := by
  have hother : s.monitored.slot j ∈ readfds → s.monitored.slot j ≠ s.monitored.slot i :=
    fun hready heq => hji (h.eq_of_slot (hclients.clientSlot hready) heq)
  cases heffect with
  | skipped _ => exact ⟨hget, howns⟩
  | added chunk hready hread hdata =>
      have hown : ¬ c.Owns (s.monitored.slot j) := fun hown => hother hready (hown.eq howns)
      exact ⟨(SlotEffect.added chunk hready hread hdata).getElem? hget hown, howns⟩
  | finished chunk hready hread hdata =>
      have hown : ¬ c.Owns (s.monitored.slot j) := fun hown => hother hready (hown.eq howns)
      refine ⟨(SlotEffect.finished chunk hready hread hdata).getElem? hget hown, ?_⟩
      rw [Server.slot_finished h (hclients.clientSlot hready), if_neg (hother hready).symm]
      exact howns

/-- Serving its slot, if it is ready, reads the connection's socket; if it stays open, it keeps the
slot. -/
theorem SlotEffect.own_slot {w : Wakeup} {readfds : List ℤ} {s s' : Server} {i : Fin maxClients}
    (heffect : SlotEffect w readfds s i s') {n : ℕ} {c : Connection}
    (hget : s.connections[n]? = some c) (howns : c.Owns (s.monitored.slot i)) :
    ∃ c', s'.connections[n]? = some c' ∧ c'.dataSocket = c.dataSocket ∧
      c'.reads = c.reads ++
        (if c.dataSocket ∈ readfds then w.data c.dataSocket else none).toList ∧
      (c'.isOpen = true → c'.Owns (s'.monitored.slot i)) := by
  rw [howns.2]
  cases heffect with
  | skipped hready =>
      rw [if_neg hready]
      exact ⟨c, hget, howns.2, by simp, fun _ => howns⟩
  | added chunk hready hread _ =>
      have hget' := getElem?_onSocket (s.monitored.slot i) (fun c => c.afterRead chunk) hget
      rw [if_pos howns] at hget'
      rw [if_pos hready, hread]
      exact ⟨_, hget', howns.2, rfl, fun _ => howns⟩
  | finished chunk hready hread _ =>
      have hget' := getElem?_onSocket (s.monitored.slot i)
        (fun c => (c.afterRead chunk).afterResult (resultMessage s.clientResult[i])) hget
      rw [if_pos howns] at hget'
      rw [if_pos hready, hread]
      exact ⟨_, hget', howns.2, rfl, fun hopen => absurd hopen Bool.false_ne_true⟩

/-- What a connection is after an iteration: it has the chunk read, if any, at the end of its reads,
and while it is open it has its slot. -/
structure Connection.Reads (c : Connection) (chunk : Option Chunk) (s' : Server) (n : ℕ)
    (c' : Connection) : Prop where
  get : s'.connections[n]? = some c'
  dataSocket : c'.dataSocket = c.dataSocket
  reads : c'.reads = c.reads ++ chunk.toList
  monitored : c'.isOpen = true → c.dataSocket ∈ s'.monitored.members

theorem Connection.Reads.of_none {c c' : Connection} {s' : Server} {n : ℕ}
    (h : c.Reads none s' n c') {d : Connection} {chunk : Option Chunk}
    (hsocket : c.dataSocket = d.dataSocket) (hreads : c.reads = d.reads ++ chunk.toList) :
    d.Reads chunk s' n c' where
  get := h.get
  dataSocket := h.dataSocket.trans hsocket
  reads := by rw [h.reads, hreads, Option.toList_none, List.append_nil]
  monitored := fun hopen => hsocket ▸ h.monitored hopen

/-- The loop reads a connection's socket when it comes to its slot, if at all. -/
theorem ServerOk.slots_reads {w : Wakeup} {readfds : List ℤ} {s s' : Server}
    {slots : List (Fin maxClients)} (h : ServerOk s)
    (hclients : ClientsOnly s.connectionSocket readfds) (hnodup : slots.Nodup)
    (hrun : run (serveSlot w readfds) s slots = some s') {n : ℕ} {c : Connection}
    {i : Fin maxClients} (hget : s.connections[n]? = some c) (howns : c.Owns (s.monitored.slot i)) :
    ∃ c', c.Reads (if i ∈ slots ∧ c.dataSocket ∈ readfds then w.data c.dataSocket else none)
      s' n c' := by
  induction slots generalizing s c with
  | nil =>
      obtain rfl := Option.some.inj hrun
      have hpos := (h.dataSocket c (List.mem_of_getElem? hget) howns.1).1
      have hne : s.monitored.slot i ≠ -1 := by
        have hsocket := howns.2
        omega
      refine ⟨c, hget, rfl, by simp, fun _ => ?_⟩
      rw [howns.2]
      exact FdSet.slot_mem_members hne
  | cons j slots ih =>
      obtain ⟨t, hserve, hrest⟩ := run_cons_eq_some.mp hrun
      obtain ⟨hj, hnodup⟩ := List.nodup_cons.mp hnodup
      have heffect := serveSlot_effect hserve
      have ht := h.slot hclients heffect
      have hclients' : ClientsOnly t.connectionSocket readfds :=
        heffect.connectionSocket ▸ hclients
      by_cases hji : j = i
      · subst hji
        obtain ⟨d, hget', hsocket, hreads, hslot⟩ := heffect.own_slot hget howns
        simp only [List.mem_cons_self, true_and]
        cases hopen : d.isOpen with
        | true =>
            obtain ⟨c', hc'⟩ := ih ht hclients' hnodup hrest hget' (hslot hopen)
            rw [if_neg fun hmem => hj hmem.1] at hc'
            exact ⟨c', hc'.of_none hsocket hreads⟩
        | false =>
            have hclosed := slots_of_closed hrest hget' hopen
            exact ⟨d, hclosed, hsocket, hreads,
              fun hopen' => absurd (hopen.symm.trans hopen') Bool.false_ne_true⟩
      · obtain ⟨hget', howns'⟩ := h.other_slot hclients heffect hji hget howns
        obtain ⟨c', hc'⟩ := ih ht hclients' hnodup hrest hget' howns'
        have hmem : i ∈ j :: slots ↔ i ∈ slots := by
          rw [List.mem_cons, or_iff_right (Ne.symm hji)]
        simp only [hmem]
        exact ⟨c', hc'⟩

theorem ServerOk.readFrom_of_clientsOnly {s : Server} {w : Wakeup} (h : ServerOk s)
    (hclients : ClientsOnly s.connectionSocket (s.monitored.selected w.ready)) {fd : ℤ}
    (hmem : fd ∈ s.monitored.members) :
    w.readFrom s.connectionSocket fd =
      if fd ∈ s.monitored.selected w.ready then w.data fd else none := by
  have hquiet : ¬ (s.connectionSocket ∈ w.ready ∨ 0 ∈ w.ready) := by
    rintro (hready | hready)
    · exact hclients.socket (FdSet.mem_selected.mpr ⟨h.socket_monitored, hready⟩)
    · exact hclients.stdin (FdSet.mem_selected.mpr ⟨h.stdin_monitored, hready⟩)
  rw [Wakeup.readFrom, if_neg hquiet]
  simp only [FdSet.mem_selected, hmem, true_and]

theorem ServerOk.step_reads {s s' : Server} {w : Wakeup} (h : ServerOk s)
    (hstep : serverStep s w = some s') {n : ℕ} {c : Connection} (hget : s.connections[n]? = some c)
    (hopen : c.isOpen = true) (hmem : c.dataSocket ∈ s.monitored.members) :
    ∃ c', c.Reads (w.readFrom s.connectionSocket c.dataSocket) s' n c' := by
  cases serverStep_effect hstep with
  | accepted hsocket hnonneg _ =>
      have hnone : w.readFrom s.connectionSocket c.dataSocket = none :=
        if_pos (Or.inl (FdSet.mem_selected.mp hsocket).2)
      rw [hnone]
      refine ⟨c, ?_, rfl, by simp, fun _ => (FdSet.mem_members_add (by omega)).mpr (Or.inl hmem)⟩
      rw [Server.accepted, List.getElem?_append_left (List.getElem?_eq_some_iff.mp hget).1, hget]
  | console _ hstdin =>
      have hnone : w.readFrom s.connectionSocket c.dataSocket = none :=
        if_pos (Or.inr (FdSet.mem_selected.mp hstdin).2)
      rw [hnone]
      exact ⟨c, hget, rfl, by simp, fun _ => hmem⟩
  | served hclients hserved =>
      obtain ⟨i, hi⟩ := FdSet.exists_slot hmem
      have hreads := h.slots_reads hclients (List.nodup_finRange _) hserved hget ⟨hopen, hi.symm⟩
      simp only [List.mem_finRange, true_and] at hreads
      rwa [h.readFrom_of_clientsOnly hclients hmem]

theorem step_of_closed {s s' : Server} {w : Wakeup} (hstep : serverStep s w = some s') {n : ℕ}
    {c : Connection} (hget : s.connections[n]? = some c) (hclosed : c.isOpen = false) :
    s'.connections[n]? = some c := by
  cases serverStep_effect hstep with
  | accepted _ _ _ =>
      rw [Server.accepted, List.getElem?_append_left (List.getElem?_eq_some_iff.mp hget).1, hget]
  | console _ _ => exact hget
  | served _ hserved => exact slots_of_closed hserved hget hclosed

theorem step_connectionSocket {s s' : Server} {w : Wakeup} (hstep : serverStep s w = some s') :
    s'.connectionSocket = s.connectionSocket := by
  cases serverStep_effect hstep with
  | accepted _ _ _ => rfl
  | console _ _ => rfl
  | served _ hserved =>
      have hslot : ∀ t i t', t.connectionSocket = s.connectionSocket →
          serveSlot w (s.monitored.selected w.ready) t i = some t' →
          t'.connectionSocket = s.connectionSocket :=
        fun t i t' ht hserve => (serveSlot_effect hserve).connectionSocket.trans ht
      exact run_invariant hslot rfl hserved

theorem ServerOk.serve_eq_none {s : Server} (h : ServerOk s) {c : Connection}
    (hc : c ∈ s.connections) (hopen : c.isOpen = true) (hmem : c.dataSocket ∈ s.monitored.members) :
    serve c.reads = none := by
  obtain ⟨i, hi⟩ := FdSet.exists_slot hmem
  exact ((h.running c hc hopen).2 i ⟨hopen, hi.symm⟩).serve_eq_none

/-- What a connection has read after a step, and what its socket still delivers. -/
theorem Connection.Reads.append_filterMap {s s' : Server} {w : Wakeup} {n : ℕ} {c c' : Connection}
    (h : c.Reads (w.readFrom s.connectionSocket c.dataSocket) s' n c')
    (hstep : serverStep s w = some s') (ws : List Wakeup) :
    c'.reads ++ ws.filterMap (Wakeup.readFrom s'.connectionSocket c'.dataSocket) =
      c.reads ++ (w :: ws).filterMap (Wakeup.readFrom s.connectionSocket c.dataSocket) := by
  rw [h.reads, h.dataSocket, step_connectionSocket hstep]
  cases hread : w.readFrom s.connectionSocket c.dataSocket with
  | none => simp [List.filterMap_cons_none hread]
  | some chunk => simp [List.filterMap_cons_some hread]

/-- What a run makes of an open connection: it has read all that the socket delivered and waits for
more, or it was closed with the result for what it had read by then. -/
theorem ServerOk.run_connection {s s' : Server} (h : ServerOk s) {n : ℕ} {c : Connection}
    (hget : s.connections[n]? = some c) (hopen : c.isOpen = true)
    (hmem : c.dataSocket ∈ s.monitored.members) {ws : List Wakeup}
    (hrun : run serverStep s ws = some s') :
    (s'.connections[n]? = some ⟨c.dataSocket, true,
        c.reads ++ ws.filterMap (Wakeup.readFrom s.connectionSocket c.dataSocket), []⟩ ∧
      c.dataSocket ∈ s'.monitored.members) ∨
    ∃ reads more result,
      reads ++ more = c.reads ++ ws.filterMap (Wakeup.readFrom s.connectionSocket c.dataSocket) ∧
      s'.connections[n]? = some ⟨c.dataSocket, false, reads, [result]⟩ ∧
      serve (reads ++ more) = some (result, more) := by
  induction ws generalizing s c with
  | nil =>
      obtain rfl := Option.some.inj hrun
      have hwritten := (h.running c (List.mem_of_getElem? hget) hopen).1
      refine Or.inl ⟨?_, hmem⟩
      rw [hget, List.filterMap_nil, List.append_nil, ← hwritten, ← hopen]
  | cons w ws ih =>
      obtain ⟨t, hstep, hrest⟩ := run_cons_eq_some.mp hrun
      have ht := serverStep_serverOk s w t h hstep
      obtain ⟨c', hc'⟩ := h.step_reads hstep hget hopen hmem
      have hdelivered := hc'.append_filterMap hstep ws
      rw [← hdelivered, ← hc'.dataSocket]
      cases hopen' : c'.isOpen with
      | true => exact ih ht hc'.get hopen' (hc'.dataSocket ▸ hc'.monitored hopen') hrest
      | false =>
          obtain ⟨result, hwritten, hserve⟩ :=
            ht.answered c' (List.mem_of_getElem? hc'.get) hopen'
          have hclosed : ∀ u v u', u.connections[n]? = some c' → serverStep u v = some u' →
              u'.connections[n]? = some c' := fun u v u' hu hstep => step_of_closed hstep hu hopen'
          refine Or.inr ⟨c'.reads, _, result, rfl, ?_, hserve _⟩
          rw [← hopen', ← hwritten]
          exact run_invariant hclosed hc'.get hrest

/-- If the single-client server reads exactly the given chunks and answers, then so does the
multiplexed one in every run in which the socket delivers them. -/
theorem ServerOk.run_reads {s s' : Server} (h : ServerOk s) {n : ℕ} {c : Connection}
    (hget : s.connections[n]? = some c) (hopen : c.isOpen = true)
    (hmem : c.dataSocket ∈ s.monitored.members) {chunks : List Chunk} {result : CharArray bufferSize}
    (hserve : serve chunks = some (result, [])) {ws : List Wakeup}
    (hchunks : c.reads ++ ws.filterMap (Wakeup.readFrom s.connectionSocket c.dataSocket) = chunks)
    (hrun : run serverStep s ws = some s') :
    s'.connections[n]? = some ⟨c.dataSocket, false, chunks, [result]⟩ := by
  rcases h.run_connection hget hopen hmem hrun with
    ⟨hget', hmem'⟩ | ⟨reads, more, result', hreads, hget', hserve'⟩
  · have hok := run_invariant serverStep_serverOk h hrun
    have hnone := hok.serve_eq_none (List.mem_of_getElem? hget') rfl hmem'
    rw [hchunks, hserve] at hnone
    exact absurd hnone (Option.some_ne_none _)
  · rw [hreads, hchunks, hserve] at hserve'
    obtain ⟨rfl, rfl⟩ := Prod.mk.inj (Option.some.inj hserve')
    rw [hget', ← hchunks, ← hreads, List.append_nil]

/-- If it would still wait for more, then so does the multiplexed one. -/
theorem ServerOk.run_open {s s' : Server} (h : ServerOk s) {n : ℕ} {c : Connection}
    (hget : s.connections[n]? = some c) (hopen : c.isOpen = true)
    (hmem : c.dataSocket ∈ s.monitored.members) {chunks : List Chunk} (hnone : serve chunks = none)
    {ws : List Wakeup}
    (hchunks : c.reads ++ ws.filterMap (Wakeup.readFrom s.connectionSocket c.dataSocket) = chunks)
    (hrun : run serverStep s ws = some s') :
    s'.connections[n]? = some ⟨c.dataSocket, true, chunks, []⟩ ∧
      c.dataSocket ∈ s'.monitored.members := by
  rcases h.run_connection hget hopen hmem hrun with hstays | ⟨reads, more, _, hreads, -, hserve⟩
  · rwa [hchunks] at hstays
  · rw [hreads, hchunks, hnone] at hserve
    exact absurd hserve.symm (Option.some_ne_none _)

def delivering (fd : ℤ) (chunk : Chunk) : Wakeup := ⟨[fd], -1, fun _ => some chunk⟩

theorem serveSlot_isSome {w : Wakeup} (hdata : ∀ fd, (w.data fd).isSome = true) (readfds : List ℤ)
    (s : Server) (i : Fin maxClients) : (serveSlot w readfds s i).isSome = true := by
  obtain ⟨chunk, hchunk⟩ := Option.isSome_iff_exists.mp (hdata (s.monitored.slot i))
  simp only [serveSlot, hchunk]
  split_ifs
  · rfl
  · rfl
  · rfl

/-- The server does not exit while its calls of `read` succeed and no client connects. -/
theorem serverStep_isSome {w : Wakeup} {s : Server} (hsocket : s.connectionSocket ∉ w.ready)
    (hdata : ∀ fd, (w.data fd).isSome = true) : (serverStep s w).isSome = true := by
  have hslots : ∀ (readfds : List ℤ) (slots : List (Fin maxClients)) (t : Server),
      (run (serveSlot w readfds) t slots).isSome = true := by
    intro readfds slots
    induction slots with
    | nil => exact fun t => rfl
    | cons i slots ih =>
        intro t
        obtain ⟨t', ht'⟩ := Option.isSome_iff_exists.mp (serveSlot_isSome hdata readfds t i)
        simpa [run, ht'] using ih t'
  have hselected : s.connectionSocket ∉ s.monitored.selected w.ready :=
    fun hmem => hsocket (FdSet.mem_selected.mp hmem).2
  simp only [serverStep, if_neg hselected]
  split_ifs
  · rw [Option.isSome_map, hdata]
  · exact hslots _ _ s

theorem run_delivering {s : Server} {fd : ℤ} (hne : fd ≠ s.connectionSocket)
    (chunks : List Chunk) : ∃ s', run serverStep s (chunks.map (delivering fd)) = some s' := by
  induction chunks generalizing s with
  | nil => exact ⟨s, rfl⟩
  | cons chunk chunks ih =>
      have hsome : (serverStep s (delivering fd chunk)).isSome = true :=
        serverStep_isSome (fun hmem => hne (List.mem_singleton.mp hmem).symm) fun _ => rfl
      obtain ⟨t, hstep⟩ := Option.isSome_iff_exists.mp hsome
      obtain ⟨s', hrun⟩ := ih (s := t) (step_connectionSocket hstep ▸ hne)
      exact ⟨s', run_cons_eq_some.mpr ⟨t, hstep, hrun⟩⟩

theorem serverStep_accepted {s : Server} {w : Wakeup}
    (hsocket : s.connectionSocket ∈ s.monitored.selected w.ready) (hnonneg : 0 ≤ w.dataSocket)
    (hunused : w.dataSocket ∉ s.openFds) : serverStep s w = some (s.accepted w.dataSocket) := by
  have haccept := accept_eq_some.mpr ⟨rfl, hnonneg, hunused⟩
  simp only [serverStep, if_pos hsocket, handleConnectionInitiationRequest, haccept, Option.map_some]

/-- The first client of a server that was started with the standard descriptors. -/
theorem serverStep_first_client :
    serverStep (Server.init standardLaunch) ⟨[3], 4, fun _ => none⟩ =
      some ((Server.init standardLaunch).accepted 4) := by
  refine serverStep_accepted ?_ (by decide) (by decide)
  exact FdSet.mem_selected.mpr ⟨by decide, List.mem_singleton.mpr rfl⟩

theorem filterMap_delivering {fd connectionSocket : ℤ} (hsocket : fd ≠ connectionSocket)
    (hstdin : fd ≠ 0) (chunks : List Chunk) :
    (chunks.map (delivering fd)).filterMap (Wakeup.readFrom connectionSocket fd) = chunks := by
  have hread : ∀ chunk, (delivering fd chunk).readFrom connectionSocket fd = some chunk := by
    intro chunk
    simp [Wakeup.readFrom, delivering, hsocket.symm, hstdin.symm]
  induction chunks with
  | nil => rfl
  | cons chunk chunks ih => rw [List.map_cons, List.filterMap_cons_some (hread chunk), ih]

end Multiplexing

end LinuxIPC
