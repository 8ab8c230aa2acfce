import LinuxIPC.ServerInvariant

/-!
# Broadcasts that fail on some clients

`send_synchronization_message` goes through the slots of the monitored descriptors while the calls
of `write` that fail take descriptors out of them. No descriptor stands in two slots, and neither
the standard input nor the master socket is written to: so a client that fails loses its own slot,
which the loop has passed, and nothing else changes.
-/

namespace LinuxIPC

open SlotTable Runs

def Server.IsClient (s : Server) (fd : ℤ) : Prop :=
  fd ∈ s.monitored.members ∧ fd ≠ 0 ∧ fd ≠ s.connectionSocket

def Server.attempts (s : Server) (writeOk : ℕ → Bool) (syncMsg : SyncMsg) : List Write :=
  (sendSynchronizationMessage writeOk s syncMsg).writes.drop s.writes.length

def Server.failing (s : Server) (writeOk : ℕ → Bool) (syncMsg : SyncMsg) : Set ℤ :=
  {fd | ∃ w ∈ s.attempts writeOk syncMsg, w.dataSocket = fd ∧ w.ok = false}

/-- A broadcast from `s` to `s'` that fails on the clients in `failed` is written to each client
once, and takes these clients out of their slots. -/
structure Undisturbed (s : Server) (syncMsg : SyncMsg) (failed : Set ℤ) (s' : Server) : Prop where
  writes : ∃ attempts, s'.writes = s.writes ++ attempts ∧
    (attempts.map Write.dataSocket).Nodup ∧
    (∀ fd, fd ∈ attempts.map Write.dataSocket ↔ s.IsClient fd) ∧
    ∀ w ∈ attempts, w.syncMsg = syncMsg ∧ (w.ok = true ↔ w.dataSocket ∉ failed)
  members : ∀ fd, fd ∈ s'.monitored.members ↔ fd ∈ s.monitored.members ∧ fd ∉ failed
  kept : ∀ i : Fin maxClients, s.monitored.slot i ∉ failed →
    s'.monitored.slot i = s.monitored.slot i
  freed : ∀ i : Fin maxClients, s.monitored.slot i ∈ failed → s'.monitored.slot i = -1
  stdin : 0 ∈ s'.monitored.members
  socket : s'.connectionSocket = s.connectionSocket ∧ s'.connectionSocket ∈ s'.monitored.members
  admin : s'.admin = s.admin

def FailuresIsolated (s : Server) : Prop :=
  ∀ (syncMsg : SyncMsg) (failed : Set ℤ), (∀ fd ∈ failed, s.IsClient fd) →
    (∃ writeOk, s.failing writeOk syncMsg = failed) ∧
      ∀ writeOk, s.failing writeOk syncMsg = failed →
        Undisturbed s syncMsg failed (sendSynchronizationMessage writeOk s syncMsg)

/-- Failures are isolated between two iterations, and in the middle of one that answers a line. -/
structure BroadcastsIsolated (s : Server) : Prop where
  idle : FailuresIsolated s
  answering : ∀ answer, FailuresIsolated (s.answered answer)

structure Monitors (s : Server) : Prop where
  stdin : 0 ∈ s.monitored.members
  socket : s.connectionSocket ∈ s.monitored.members
  nonneg : ∀ fd ∈ s.monitored.members, 0 ≤ fd

theorem Server.mem_members_afterWrites {s : Server} {ws : List Write} {fd : ℤ} :
    fd ∈ (s.afterWrites ws).monitored.members ↔
      fd ∈ s.monitored.members ∧ failedIn ws fd = false :=
  mem_occupied_release

theorem Monitors.afterWrites {s : Server} (h : Monitors s) {ws : List Write}
    (hws : ∀ w ∈ ws, s.isDataSocket w.dataSocket = true) : Monitors (s.afterWrites ws) := by
  have hkept : ∀ fd, s.isDataSocket fd = false → failedIn ws fd = false := by
    intro fd hfd
    rw [failedIn_eq_false_iff]
    rintro w hw rfl
    exact absurd ((hws w hw).symm.trans hfd) (by simp)
  constructor
  · exact Server.mem_members_afterWrites.mpr ⟨h.stdin, hkept 0 (by simp [Server.isDataSocket])⟩
  · exact Server.mem_members_afterWrites.mpr
      ⟨h.socket, hkept s.connectionSocket (by simp [Server.isDataSocket])⟩
  · exact fun fd hfd => h.nonneg fd (Server.mem_members_afterWrites.mp hfd).1

theorem Monitors.step {s s' : Server} {w : Wakeup} (h : Monitors s) (hok : ServerOk s)
    (heffect : ServerEffect s w s') : Monitors s' := by
  cases heffect with
  | quiet haccepts hreads => exact h
  | accepted haccepts hnonneg hunused =>
      have hdata := hok.isDataSocket_new hnonneg hunused
      have hadd : ∀ fd, fd ∈ (s.accepted w).monitored.members ↔
          fd ∈ s.monitored.members ∨ fd = w.dataSocket ∧ -1 ∈ s.monitored.slots :=
        fun fd => FdSet.mem_members_add (isDataSocket_ne hdata)
      have haccepted : Monitors (s.accepted w) := by
        refine ⟨(hadd 0).mpr (Or.inl h.stdin), (hadd _).mpr (Or.inl h.socket), fun fd hfd => ?_⟩
        rcases (hadd fd).mp hfd with hfd | ⟨rfl, -⟩
        · exact h.nonneg fd hfd
        · exact hnonneg
      apply haccepted.afterWrites
      intro c hc
      rw [(Server.mem_dumpWrites hc).1]
      exact hdata
  | line answer hreads hanswer =>
      have hanswered : Monitors (s.answered answer) := ⟨h.stdin, h.socket, h.nonneg⟩
      apply hanswered.afterWrites
      intro c hc
      exact (Server.mem_dataSockets.mp (Server.mem_lineWrites hc).1).2

theorem Monitors.init (start : Startup) : Monitors (Server.init start) := by
  have hpos := start.connectionSocket_pos
  refine ⟨?_, ?_, fun fd hfd => ?_⟩
  · simp [Server.init_members]
  · rw [Server.init_members]
    exact List.mem_cons_of_mem _ List.mem_cons_self
  · rw [Server.init_members] at hfd
    rcases List.mem_cons.mp hfd with rfl | hfd
    · exact le_refl 0
    · rw [List.mem_singleton.mp hfd]
      exact hpos.le

theorem Monitors.isClient_iff {s : Server} (h : Monitors s) {fd : ℤ} :
    s.IsClient fd ↔ fd ∈ s.dataSockets := by
  rw [Server.mem_dataSockets, Server.IsClient, Server.isDataSocket, Bool.and_eq_true,
    decide_eq_true_eq, decide_eq_true_eq]
  constructor
  · rintro ⟨hmem, hzero, hsocket⟩
    have hnonneg := h.nonneg fd hmem
    exact ⟨hmem, by omega, hsocket⟩
  · rintro ⟨hmem, hpos, hsocket⟩
    exact ⟨hmem, by omega, hsocket⟩

section Broadcast

variable {s : Server} (hnodup : s.monitored.members.Nodup) (syncMsg : SyncMsg)

include hnodup

theorem Server.attempts_eq (writeOk : ℕ → Bool) : s.attempts writeOk syncMsg =
    numbered writeOk s.writes.length (s.dataSockets.map fun fd => (fd, syncMsg)) := by
  rw [attempts, sendSynchronizationMessage_eq writeOk syncMsg hnodup]
  exact List.drop_left

theorem Server.broadcast_eq (writeOk : ℕ → Bool) :
    sendSynchronizationMessage writeOk s syncMsg = s.afterWrites (s.attempts writeOk syncMsg) := by
  rw [attempts_eq hnodup, sendSynchronizationMessage_eq writeOk syncMsg hnodup]

theorem Server.attempts_dataSocket (writeOk : ℕ → Bool) :
    (s.attempts writeOk syncMsg).map Write.dataSocket = s.dataSockets := by
  rw [attempts_eq hnodup, numbered, List.map_map, List.zipIdx_map, List.map_map]
  exact List.zipIdx_map_fst _ _

theorem Server.mem_attempts {writeOk : ℕ → Bool} {w : Write} :
    w ∈ s.attempts writeOk syncMsg ↔ ∃ k, s.writes.length ≤ k ∧
      s.dataSockets[k - s.writes.length]? = some w.dataSocket ∧ w.syncMsg = syncMsg ∧
        w.ok = writeOk k := by
  rw [attempts_eq hnodup, numbered, List.zipIdx_map, List.map_map, List.mem_map]
  constructor
  · rintro ⟨⟨fd, k⟩, hmem, rfl⟩
    obtain ⟨hle, hget⟩ := List.mk_mem_zipIdx_iff_le_and_getElem?_sub.mp hmem
    exact ⟨k, hle, hget, rfl, rfl⟩
  · rintro ⟨k, hle, hget, hmsg, hok⟩
    refine ⟨(w.dataSocket, k), List.mk_mem_zipIdx_iff_le_and_getElem?_sub.mpr ⟨hle, hget⟩, ?_⟩
    cases w
    simp only at hmsg hok
    simp [hmsg, hok]

/-- Any set of clients may be the one on which the writes fail. -/
theorem Server.exists_failing {failed : Set ℤ} (hfailed : ∀ fd ∈ failed, fd ∈ s.dataSockets) :
    ∃ writeOk, s.failing writeOk syncMsg = failed := by
  classical
  refine ⟨fun k => decide (∀ fd, s.dataSockets[k - s.writes.length]? = some fd → fd ∉ failed), ?_⟩
  ext fd
  constructor
  · rintro ⟨w, hw, rfl, hok⟩
    obtain ⟨k, hle, hget, -, hwrite⟩ := (mem_attempts hnodup syncMsg).mp hw
    rw [hwrite, decide_eq_false_iff_not] at hok
    by_contra hnot
    apply hok
    intro fd hfd
    rw [hget, Option.some.injEq] at hfd
    exact hfd ▸ hnot
  · intro hfd
    obtain ⟨i, hget⟩ := List.mem_iff_getElem?.mp (hfailed fd hfd)
    refine ⟨⟨fd, syncMsg, false⟩, (mem_attempts hnodup syncMsg).mpr ?_, rfl, rfl⟩
    refine ⟨s.writes.length + i, Nat.le_add_right _ _, ?_, rfl, ?_⟩
    · rwa [Nat.add_sub_cancel_left]
    · rw [eq_comm, decide_eq_false_iff_not, Nat.add_sub_cancel_left]
      exact fun hall => hall fd hget hfd

theorem Monitors.undisturbed (h : Monitors s) {writeOk : ℕ → Bool} {failed : Set ℤ}
    (hfailed : ∀ fd ∈ failed, s.IsClient fd) (hfailing : s.failing writeOk syncMsg = failed) :
    Undisturbed s syncMsg failed (sendSynchronizationMessage writeOk s syncMsg) := by
  have hmem : ∀ fd, failedIn (s.attempts writeOk syncMsg) fd = true ↔ fd ∈ failed := by
    intro fd
    rw [← hfailing]
    simp [Server.failing, failedIn]
  have hnot : ∀ fd, failedIn (s.attempts writeOk syncMsg) fd = false ↔ fd ∉ failed := by
    intro fd
    rw [← hmem, Bool.not_eq_true]
  have hsockets := Server.attempts_dataSocket hnodup syncMsg writeOk
  have honce : ((s.attempts writeOk syncMsg).map Write.dataSocket).Nodup :=
    hsockets ▸ Server.nodup_dataSockets hnodup
  rw [Server.broadcast_eq hnodup]
  have hmembers : ∀ fd, fd ∈ (s.afterWrites (s.attempts writeOk syncMsg)).monitored.members ↔
      fd ∈ s.monitored.members ∧ fd ∉ failed := by
    intro fd
    rw [Server.mem_members_afterWrites, hnot]
  have hslot : ∀ i : ℕ, (s.afterWrites (s.attempts writeOk syncMsg)).monitored.slot i =
      if failedIn (s.attempts writeOk syncMsg) (s.monitored.slot i) then -1
      else s.monitored.slot i := fun i => getD_release _ s.monitored.slots i
  constructor
  · refine ⟨s.attempts writeOk syncMsg, rfl, honce, fun fd => ?_, fun w hw => ⟨?_, ?_⟩⟩
    · rw [hsockets, h.isClient_iff]
    · obtain ⟨_, -, -, hmsg, -⟩ := (Server.mem_attempts hnodup syncMsg).mp hw
      exact hmsg
    · rw [← hfailing]
      constructor
      · rintro hok ⟨w', hw', hsocket, hfail⟩
        have heq : w' = w := List.inj_on_of_nodup_map honce hw' hw hsocket
        exact absurd (hok.symm.trans (heq ▸ hfail)) (by simp)
      · intro hnotfailing
        by_contra hok
        exact hnotfailing ⟨w, hw, rfl, Bool.not_eq_true _ ▸ hok⟩
  · exact hmembers
  · intro i hi
    rw [hslot, (hnot _).mpr hi]
    rfl
  · intro i hi
    rw [hslot, (hmem _).mpr hi]
    rfl
  · exact (hmembers 0).mpr ⟨h.stdin, fun hmem => (hfailed 0 hmem).2.1 rfl⟩
  · exact ⟨rfl, (hmembers _).mpr ⟨h.socket, fun hmem => (hfailed _ hmem).2.2 rfl⟩⟩
  · rfl

end Broadcast

theorem Monitors.failuresIsolated {s : Server} (h : Monitors s)
    (hnodup : s.monitored.members.Nodup) : FailuresIsolated s := by
  intro syncMsg failed hfailed
  refine ⟨?_, fun writeOk hfailing => h.undisturbed hnodup syncMsg hfailed hfailing⟩
  exact Server.exists_failing hnodup syncMsg fun fd hfd => h.isClient_iff.mp (hfailed fd hfd)

/-- In every state the server reaches, a broadcast reaches each client on which the write does not
fail, whatever the set of the clients on which it fails, and only the latter lose their slots. -/
theorem broadcasts_isolated (start : Startup) (ws : List Wakeup) :
    Throughout serverStep BroadcastsIsolated (Server.init start) ws := by
  have hstep : ∀ s w s', ServerOk s ∧ Monitors s → serverStep s w = some s' →
      ServerOk s' ∧ Monitors s' := by
    rintro s w s' ⟨hok, hmonitors⟩ hstep
    have heffect := serverStep_effect hok hstep
    exact ⟨hok.step heffect, hmonitors.step hok heffect⟩
  have hisolated : ∀ s, ServerOk s ∧ Monitors s → BroadcastsIsolated s := by
    rintro s ⟨hok, hmonitors⟩
    have hanswered : ∀ answer, Monitors (s.answered answer) := fun answer =>
      ⟨hmonitors.stdin, hmonitors.socket, hmonitors.nonneg⟩
    exact ⟨hmonitors.failuresIsolated hok.nodup, fun answer =>
      (hanswered answer).failuresIsolated hok.nodup⟩
  exact throughout_of_invariant hstep hisolated ⟨ServerOk.init start, Monitors.init start⟩ ws

end LinuxIPC
