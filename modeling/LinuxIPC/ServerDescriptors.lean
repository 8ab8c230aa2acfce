import LinuxIPC.ServerInvariant

/-!
# The descriptors of the server

A data socket is taken out of the monitored set when a write to it fails, and nothing closes it.
As long as no write to a monitored data socket fails, the data sockets once monitored are still
monitored, and the descriptors in the set stay small.
-/

namespace LinuxIPC

open SlotTable Runs

/-- The data sockets once monitored and removed since are closed: of those once monitored, the open
ones are those in the set. -/
def NoLeak (s : Server) : Prop :=
  (∀ fd ∈ s.onceMonitored, fd ∉ s.monitored.slots → fd ∉ s.openFds) ∧
    ∀ fd, fd ∈ s.onceMonitored ∧ fd ∈ s.openFds ↔ fd ∈ s.dataSockets

/-- No write to a monitored data socket fails: neither the dump to a new client that has a slot, nor
the broadcast of a completed operation. -/
structure WritesSucceed (s : Server) (w : Wakeup) : Prop where
  dump : s.Accepts w → -1 ∈ s.monitored.slots → ∀ k, s.writes.length ≤ k →
    k < s.writes.length + s.admin.rtm.length → w.writeOk k = true
  line : s.ReadsLine w → s.admin.Completes (lineText w.input.buffer) → ∀ k, s.writes.length ≤ k →
    k < s.writes.length + s.dataSockets.length → w.writeOk k = true

def LowestUnused (s : Server) (w : Wakeup) : Prop :=
  s.Accepts w → ∀ fd, 0 ≤ fd → fd < w.dataSocket → fd ∈ s.openFds

structure OnceOk (s : Server) : Prop where
  server : ServerOk s
  monitored : ∀ fd ∈ s.dataSockets, fd ∈ s.onceMonitored
  socket : ∀ fd ∈ s.onceMonitored, s.isDataSocket fd = true ∧ fd ∈ s.openFds

theorem OnceOk.noLeak_iff {s : Server} (h : OnceOk s) :
    NoLeak s ↔ ∀ fd ∈ s.onceMonitored, fd ∈ s.dataSockets := by
  constructor
  · intro hleak fd hfd
    exact (hleak.2 fd).mp ⟨hfd, (h.socket fd hfd).2⟩
  · intro hall
    refine ⟨fun fd hfd hslots => ?_, fun fd => ⟨fun hfd => hall fd hfd.1, fun hfd => ?_⟩⟩
    · exact absurd (List.mem_filter.mp (hall fd hfd)).1 hslots
    · exact ⟨h.monitored fd hfd, (h.socket fd (h.monitored fd hfd)).2⟩

theorem numbered_map_ok (writeOk : ℕ → Bool) (n : ℕ) (sends : List (ℤ × SyncMsg)) :
    (numbered writeOk n sends).map Write.ok = (List.range' n sends.length).map writeOk := by
  rw [numbered, List.map_map, ← List.zipIdx_map_snd n sends, List.map_map]
  rfl

theorem forall_numbered_ok {writeOk : ℕ → Bool} {n : ℕ} {sends : List (ℤ × SyncMsg)} :
    (∀ v ∈ numbered writeOk n sends, v.ok = true) ↔
      ∀ k, n ≤ k → k < n + sends.length → writeOk k = true := by
  have hmap : (∀ v ∈ numbered writeOk n sends, v.ok = true) ↔
      ∀ b ∈ (numbered writeOk n sends).map Write.ok, b = true := by
    rw [List.forall_mem_map]
  rw [hmap, numbered_map_ok, List.forall_mem_map]
  simp only [List.mem_range'_1, and_imp]

theorem forall_mem_afterWrites_iff (s : Server) (ws : List Write) (fds : List ℤ)
    (hfds : ∀ fd ∈ fds, fd ∈ s.dataSockets) (hws : ∀ w ∈ ws, w.dataSocket ∈ fds) :
    (∀ fd ∈ fds, fd ∈ (s.afterWrites ws).dataSockets) ↔ ∀ w ∈ ws, w.ok = true := by
  constructor
  · intro hall w hw
    have hmem := (Server.mem_dataSockets_afterWrites.mp (hall _ (hws w hw))).2
    exact failedIn_eq_false_iff.mp hmem w hw rfl
  · intro hok fd hfd
    rw [Server.mem_dataSockets_afterWrites, failedIn_eq_false_iff]
    exact ⟨hfds fd hfd, fun w hw _ => hok w hw⟩

theorem dumpWrites_ok_iff (s : Server) (w : Wakeup) :
    (∀ v ∈ s.dumpWrites w, v.ok = true) ↔ ∀ k, s.writes.length ≤ k →
      k < s.writes.length + s.admin.rtm.length → w.writeOk k = true := by
  rw [Server.dumpWrites, forall_numbered_ok, List.length_map, dumpMessages, List.length_map]

theorem lineWrites_ok_iff {s : Server} {w : Wakeup} {answer : Answer}
    (hanswer : w.input.answer s.admin = some answer) :
    (∀ v ∈ s.lineWrites w answer.broadcast, v.ok = true) ↔
      (s.admin.Completes (lineText w.input.buffer) → ∀ k, s.writes.length ≤ k →
        k < s.writes.length + s.dataSockets.length → w.writeOk k = true) := by
  have hcompletes := (AdminInput.answer_effect hanswer).isSome_broadcast
  cases hbroadcast : answer.broadcast with
  | none =>
      have hnot : ¬ s.admin.Completes (lineText w.input.buffer) := by
        simpa [hbroadcast] using hcompletes
      have hwrites : s.lineWrites w none = [] := rfl
      rw [hwrites]
      exact iff_of_true (by simp) fun hc => absurd hc hnot
  | some m =>
      have hc : s.admin.Completes (lineText w.input.buffer) := hcompletes.mp (by simp [hbroadcast])
      have hwrites : s.lineWrites w (some m) =
          numbered w.writeOk s.writes.length (s.dataSockets.map fun fd => (fd, m)) := by
        simp [Server.lineWrites]
      rw [hwrites, forall_numbered_ok, List.length_map]
      exact ⟨fun hall _ => hall, fun hall => hall hc⟩

theorem ServerOk.mem_onceMonitored_accepted {s : Server} (h : ServerOk s) {w : Wakeup}
    (hnonneg : 0 ≤ w.dataSocket) (hunused : w.dataSocket ∉ s.openFds) {fd : ℤ} :
    fd ∈ (s.accepted w).onceMonitored ↔
      fd ∈ s.onceMonitored ∨ fd = w.dataSocket ∧ -1 ∈ s.monitored.slots := by
  have hdata := h.isDataSocket_new hnonneg hunused
  have hold : w.dataSocket ∉ s.monitored.members := fun hmem => hunused (h.members_open _ hmem)
  have hadd : w.dataSocket ∈ (addToMonitoredFdSet s.monitored w.dataSocket).slots ↔
      -1 ∈ s.monitored.slots := by
    have hmembers : w.dataSocket ∈ (addToMonitoredFdSet s.monitored w.dataSocket).members ↔
        w.dataSocket ∈ s.monitored.members ∨ w.dataSocket = w.dataSocket ∧ -1 ∈ s.monitored.slots :=
      FdSet.mem_members_add (isDataSocket_ne hdata)
    rw [FdSet.members, mem_occupied, and_iff_left (isDataSocket_ne hdata)] at hmembers
    rw [hmembers]
    tauto
  simp only [Server.accepted, hadd]
  split_ifs with hfree
  · rw [List.mem_cons]
    tauto
  · tauto

theorem OnceOk.step {s s' : Server} {w : Wakeup} (h : OnceOk s) (heffect : ServerEffect s w s') :
    OnceOk s' := by
  refine ⟨h.server.step heffect, ?_, ?_⟩
  · cases heffect with
    | quiet haccepts hreads => exact h.monitored
    | accepted haccepts hnonneg hunused =>
        intro fd hfd
        have hmem := (Server.mem_dataSockets_afterWrites.mp hfd).1
        rw [h.server.mem_dataSockets_accepted hnonneg hunused] at hmem
        apply (h.server.mem_onceMonitored_accepted hnonneg hunused).mpr
        exact hmem.imp_left (h.monitored fd)
    | line answer hreads hanswer =>
        intro fd hfd
        exact h.monitored fd (Server.mem_dataSockets_afterWrites.mp hfd).1
  · cases heffect with
    | quiet haccepts hreads => exact h.socket
    | accepted haccepts hnonneg hunused =>
        intro fd hfd
        rcases (h.server.mem_onceMonitored_accepted hnonneg hunused).mp hfd with hfd | ⟨rfl, -⟩
        · exact ⟨(h.socket fd hfd).1, List.mem_cons_of_mem _ (h.socket fd hfd).2⟩
        · exact ⟨h.server.isDataSocket_new hnonneg hunused, List.mem_cons_self⟩
    | line answer hreads hanswer => exact h.socket

theorem OnceOk.noLeak_accepted {s : Server} {w : Wakeup} (h : OnceOk s) (hleak : NoLeak s)
    (hnonneg : 0 ≤ w.dataSocket) (hunused : w.dataSocket ∉ s.openFds) :
    (∀ fd ∈ (s.accepted w).onceMonitored,
        fd ∈ ((s.accepted w).afterWrites (s.dumpWrites w)).dataSockets) ↔
      (-1 ∈ s.monitored.slots → ∀ k, s.writes.length ≤ k →
        k < s.writes.length + s.admin.rtm.length → w.writeOk k = true) := by
  have honce : ∀ fd, fd ∈ (s.accepted w).onceMonitored ↔
      fd ∈ s.onceMonitored ∨ fd = w.dataSocket ∧ -1 ∈ s.monitored.slots :=
    fun _ => h.server.mem_onceMonitored_accepted hnonneg hunused
  have hsockets : ∀ fd, fd ∈ (s.accepted w).dataSockets ↔
      fd ∈ s.dataSockets ∨ fd = w.dataSocket ∧ -1 ∈ s.monitored.slots :=
    fun _ => h.server.mem_dataSockets_accepted hnonneg hunused
  constructor
  · intro hall hfree
    have hmem := hall w.dataSocket ((honce _).mpr (Or.inr ⟨rfl, hfree⟩))
    rw [Server.mem_dataSockets_afterWrites, failedIn_eq_false_iff] at hmem
    exact (dumpWrites_ok_iff s w).mp fun v hv => hmem.2 v hv (Server.mem_dumpWrites hv).1
  · intro hok fd hfd
    rw [Server.mem_dataSockets_afterWrites, failedIn_eq_false_iff, hsockets]
    rcases (honce fd).mp hfd with hfd | ⟨rfl, hfree⟩
    · refine ⟨Or.inl (h.noLeak_iff.mp hleak fd hfd), fun v hv heq => ?_⟩
      have hnew : fd = w.dataSocket := heq.symm.trans (Server.mem_dumpWrites hv).1
      exact absurd (hnew ▸ (h.socket fd hfd).2) hunused
    · exact ⟨Or.inr ⟨rfl, hfree⟩, fun v hv _ => (dumpWrites_ok_iff s w).mpr (hok hfree) v hv⟩

theorem OnceOk.noLeak_answered {s : Server} {w : Wakeup} (h : OnceOk s) (hleak : NoLeak s)
    {answer : Answer} (hanswer : w.input.answer s.admin = some answer) :
    (∀ fd ∈ s.onceMonitored,
        fd ∈ ((s.answered answer).afterWrites (s.lineWrites w answer.broadcast)).dataSockets) ↔
      (s.admin.Completes (lineText w.input.buffer) → ∀ k, s.writes.length ≤ k →
        k < s.writes.length + s.dataSockets.length → w.writeOk k = true) := by
  have hkeep := forall_mem_afterWrites_iff (s.answered answer) (s.lineWrites w answer.broadcast)
    s.onceMonitored (h.noLeak_iff.mp hleak) fun v hv => h.monitored _ (Server.mem_lineWrites hv).1
  exact hkeep.trans (lineWrites_ok_iff hanswer)

theorem OnceOk.noLeak_step {s s' : Server} {w : Wakeup} (h : OnceOk s) (hleak : NoLeak s)
    (heffect : ServerEffect s w s') : NoLeak s' ↔ WritesSucceed s w := by
  rw [(h.step heffect).noLeak_iff]
  cases heffect with
  | quiet haccepts hreads =>
      refine iff_of_true (h.noLeak_iff.mp hleak) ⟨?_, ?_⟩
      · exact fun hacc => absurd hacc haccepts
      · exact fun hline => absurd hline hreads
  | accepted haccepts hnonneg hunused =>
      apply (h.noLeak_accepted hleak hnonneg hunused).trans
      constructor
      · exact fun hdump => ⟨fun _ => hdump, fun hline => absurd haccepts hline.1⟩
      · exact fun hok => hok.dump haccepts
  | line answer hreads hanswer =>
      apply (h.noLeak_answered hleak hanswer).trans
      constructor
      · exact fun hline => ⟨fun hacc => absurd hacc hreads.1, fun _ => hline⟩
      · exact fun hok => hok.line hreads

/-- With `base` descriptors open at the start: as long as there is a free slot, all descriptors
opened since are monitored; and those monitored are below `base + maxClients`. -/
structure SmallOk (base : ℕ) (s : Server) : Prop where
  once : OnceOk s
  count : -1 ∈ s.monitored.slots → s.openFds.length + 1 = s.monitored.members.length + base
  small : ∀ fd ∈ s.monitored.members, fd < base + maxClients

theorem le_length_of_lowest {fds : List ℤ} {n : ℤ} (h : ∀ fd, 0 ≤ fd → fd < n → fd ∈ fds) :
    n ≤ fds.length := by
  have hsubset : (List.range n.toNat).map (fun k : ℕ => (k : ℤ)) ⊆ fds := by
    intro fd hfd
    obtain ⟨k, hk, rfl⟩ := List.mem_map.mp hfd
    rw [List.mem_range] at hk
    exact h k (by omega) (by omega)
  have hnodup : ((List.range n.toNat).map fun k : ℕ => (k : ℤ)).Nodup :=
    List.nodup_range.map Nat.cast_injective
  have hle := (hnodup.subperm hsubset).length_le
  rw [List.length_map, List.length_range] at hle
  omega

theorem FdSet.length_members_lt {s : FdSet} (h : -1 ∈ s.slots) : s.members.length < maxClients := by
  rw [← s.size_eq]
  apply List.length_filter_lt_length_iff_exists.mpr
  exact ⟨-1, h, by simp⟩

theorem Server.monitored_afterWrites {s : Server} {ws : List Write}
    (h : ∀ v ∈ ws, v.dataSocket ∈ s.monitored.members → v.ok = true) :
    (s.afterWrites ws).monitored = s.monitored := by
  refine FdSet.ext (release_eq_self fun fd hfd => ?_)
  rw [failedIn_eq_false_iff]
  exact fun v hv heq => h v hv (heq ▸ hfd)

theorem SmallOk.init (start : Startup) : SmallOk start.openFds.length (Server.init start) where
  once := ⟨ServerOk.init start, fun fd hfd => by
    obtain ⟨c, hc, -⟩ := (ServerOk.init start).member fd hfd
    simp [Server.init] at hc, by simp [Server.init]⟩
  count := by
    intro _
    rw [Server.init_members]
    simp only [Server.init, List.length_cons, List.length_nil]
    omega
  small := by
    intro fd hfd
    rw [Server.init_members] at hfd
    have hle := le_length_of_lowest start.lowest
    have hmax : (maxClients : ℤ) = 32 := rfl
    rcases List.mem_cons.mp hfd with rfl | hfd
    · omega
    · rw [List.mem_singleton.mp hfd]
      omega

theorem SmallOk.accepted {base : ℕ} {s : Server} {w : Wakeup} (h : SmallOk base s)
    (hnonneg : 0 ≤ w.dataSocket)
    (hlowest : ∀ fd, 0 ≤ fd → fd < w.dataSocket → fd ∈ s.openFds) :
    (-1 ∈ (s.accepted w).monitored.slots →
        (s.accepted w).openFds.length + 1 = (s.accepted w).monitored.members.length + base) ∧
      ∀ fd ∈ (s.accepted w).monitored.members, fd < base + maxClients := by
  have hne : w.dataSocket ≠ -1 := by omega
  by_cases hfree : -1 ∈ s.monitored.slots
  · have hcount := h.count hfree
    have hroom := FdSet.length_members_lt hfree
    have hle := le_length_of_lowest hlowest
    have hperm : (s.accepted w).monitored.members.Perm (w.dataSocket :: s.monitored.members) :=
      occupied_enter hfree hne
    constructor
    · intro _
      rw [hperm.length_eq]
      simp only [Server.accepted, List.length_cons]
      omega
    · intro fd hfd
      rcases List.mem_cons.mp (hperm.mem_iff.mp hfd) with rfl | hfd
      · omega
      · exact h.small fd hfd
  · have hsame : (s.accepted w).monitored = s.monitored :=
      FdSet.ext (List.replace_of_not_mem hfree)
    rw [hsame]
    exact ⟨fun hmem => absurd hmem hfree, h.small⟩

theorem SmallOk.step {base : ℕ} {s s' : Server} {w : Wakeup} (h : SmallOk base s)
    (hwrites : WritesSucceed s w) (hlowest : LowestUnused s w) (heffect : ServerEffect s w s') :
    SmallOk base s' := by
  have honce := h.once.step heffect
  cases heffect with
  | quiet haccepts hreads => exact h
  | accepted haccepts hnonneg hunused =>
      obtain ⟨hcount, hsmall⟩ := h.accepted hnonneg (hlowest haccepts)
      have hmonitored : ((s.accepted w).afterWrites (s.dumpWrites w)).monitored =
          (s.accepted w).monitored := by
        apply Server.monitored_afterWrites
        intro v hv hmem
        rw [(Server.mem_dumpWrites hv).1] at hmem
        rcases (FdSet.mem_members_add (by omega)).mp hmem with hmem | ⟨-, hfree⟩
        · exact absurd (h.once.server.members_open _ hmem) hunused
        · exact (dumpWrites_ok_iff s w).mpr (hwrites.dump haccepts hfree) v hv
      exact ⟨honce, hmonitored ▸ hcount, hmonitored ▸ hsmall⟩
  | line answer hreads hanswer =>
      have hmonitored :
          ((s.answered answer).afterWrites (s.lineWrites w answer.broadcast)).monitored =
            s.monitored :=
        Server.monitored_afterWrites fun v hv _ =>
          (lineWrites_ok_iff hanswer).mpr (hwrites.line hreads) v hv
      exact ⟨honce, hmonitored ▸ h.count, hmonitored ▸ h.small⟩

/-- The data sockets removed from the set are closed, in every state reached, exactly when no write
to a monitored data socket fails; and then, if `accept` returns the lowest unused descriptor, the
descriptors in the set stay below the bound of an `fd_set`. -/
theorem no_leak (start : Startup) (ws : List Wakeup) :
    (Throughout serverStep NoLeak (Server.init start) ws ↔
        Along serverStep WritesSucceed (Server.init start) ws) ∧
      (start.openFds.length + maxClients ≤ fdSetSize →
        Along serverStep WritesSucceed (Server.init start) ws →
        Along serverStep LowestUnused (Server.init start) ws →
        Throughout serverStep (fun s => ∀ fd ∈ s.monitored.slots, fd < fdSetSize)
          (Server.init start) ws) := by
  have hinit := SmallOk.init start
  constructor
  · refine throughout_iff_along OnceOk
      (fun s w s' h hstep => h.step (serverStep_effect h.server hstep)) ?_ hinit.once
      (hinit.once.noLeak_iff.mpr (by simp [Server.init])) ws
    intro s w s' h hleak hstep
    exact h.noLeak_step hleak (serverStep_effect h.server hstep)
  · intro hbase hwrites hlowest
    refine throughout_of_along (SmallOk start.openFds.length) ?_ ?_ hinit
      (along_and hwrites hlowest)
    · intro s w s' h hboth hstep
      exact h.step hboth.1 hboth.2 (serverStep_effect h.once.server hstep)
    · intro s h fd hfd
      by_cases hne : fd = -1
      · rw [hne]
        exact neg_one_lt_zero.trans (by norm_num)
      · have hlt := h.small fd (mem_occupied.mpr ⟨hfd, hne⟩)
        omega

instance (s : Server) (w : Wakeup) : Decidable (LowestUnused s w) :=
  inferInstanceAs (Decidable (s.connectionSocket ∈ s.monitored.selected w.ready →
    ∀ fd, 0 ≤ fd → fd < w.dataSocket → fd ∈ s.openFds))

def twoClients : List Wakeup :=
  [connecting (fun _ => true) 4, connecting (fun _ => true) 5] ++
    ["c", "1.2.3.4/8", "10.0.0.1", "eth0"].map (entering fun _ => true)

theorem no_leak_two_clients :
    Throughout serverStep (fun s => ∀ fd ∈ s.monitored.slots, fd < fdSetSize)
      (Server.init standardStartup) twoClients := by
  have hok : ∀ w ∈ twoClients, ∀ k, w.writeOk k = true := by simp [twoClients, connecting, entering]
  refine (no_leak standardStartup twoClients).2 (by decide) (along_of_forall ?_ _)
    (by decide +kernel)
  exact fun w hw s => ⟨fun _ _ k _ _ => hok w hw k, fun _ _ k _ _ => hok w hw k⟩

example : (run serverStep (Server.init standardStartup) twoClients).map
    (fun s => (s.broadcasts.length, s.dataSockets)) = some (1, [4, 5]) := by
  decide +kernel

/-- A client disconnects, the next message fails, and its data socket stays open. -/
theorem no_leak_failed_write :
    ¬ Throughout serverStep NoLeak (Server.init standardStartup)
      (connecting (fun _ => true) 4 ::
        ["c", "1.2.3.4/8", "10.0.0.1", "eth0"].map (entering fun _ => false)) := by
  intro h
  rw [throughout_iff_forall_run] at h
  have hopen : ((run serverStep (Server.init standardStartup)
      (connecting (fun _ => true) 4 ::
        ["c", "1.2.3.4/8", "10.0.0.1", "eth0"].map (entering fun _ => false))).map fun s =>
          (decide (4 ∈ s.onceMonitored), decide (4 ∈ s.monitored.slots),
            decide (4 ∈ s.openFds))) = some (true, false, true) := by
    decide +kernel
  obtain ⟨s, hrun, hstate⟩ := Option.map_eq_some_iff.mp hopen
  simp only [Prod.mk.injEq, decide_eq_true_eq, decide_eq_false_iff_not] at hstate
  exact (h _ List.prefix_rfl s hrun).1 4 hstate.1 hstate.2.1 hstate.2.2

end LinuxIPC
