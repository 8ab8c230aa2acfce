import LinuxIPC.ServerInvariant

/-!
# The connections as feeds

An iteration moves the feed of every connection by one step of a subscriber's feed; an iteration
that accepts a connection adds the feed that starts with the dump. The rule `feeds_iff` carries a
property of feeds over an iteration.
-/

namespace LinuxIPC

open SlotTable Runs

def callsTo (ws : List Write) (fd : ℤ) : List (SyncMsg × Bool) :=
  (ws.filter fun w => w.dataSocket = fd).map fun w => (w.syncMsg, w.ok)

/-- The feed of a connection: what it is due is the dump and the later broadcasts. -/
def Server.feed (s : Server) (c : Connection) : Feed SyncMsg where
  calls := callsTo s.writes c.dataSocket
  live := decide (c.dataSocket ∈ s.dataSockets)
  due := dumpMessages c.dump ++ s.broadcasts.drop c.since

def Server.dumpCalls (s : Server) (w : Wakeup) : List (SyncMsg × Bool) :=
  ((dumpMessages s.admin.rtm).zipIdx s.writes.length).map fun p => (p.1, w.writeOk p.2)

def Server.newFeed (s : Server) (w : Wakeup) : Feed SyncMsg where
  calls := s.dumpCalls w
  live := decide (-1 ∈ s.monitored.slots) && (s.dumpCalls w).all Prod.snd
  due := dumpMessages s.admin.rtm

theorem callsTo_append (ws ws' : List Write) (fd : ℤ) :
    callsTo (ws ++ ws') fd = callsTo ws fd ++ callsTo ws' fd := by
  simp [callsTo]

theorem callsTo_eq_nil {ws : List Write} {fd : ℤ} (h : ∀ w ∈ ws, w.dataSocket ≠ fd) :
    callsTo ws fd = [] := by
  rw [callsTo, List.map_eq_nil_iff, List.filter_eq_nil_iff]
  intro w hw
  simpa using h w hw

theorem failedIn_eq (ws : List Write) (fd : ℤ) : failedIn ws fd = !(callsTo ws fd).all Prod.snd := by
  rw [Bool.eq_iff_iff]
  simp only [failedIn, callsTo, List.any_eq_true, Bool.and_eq_true, decide_eq_true_eq,
    Bool.not_eq_true', List.all_eq_false, List.mem_map, List.mem_filter]
  constructor
  · rintro ⟨w, hw, hfd, hok⟩
    exact ⟨_, ⟨w, ⟨hw, hfd⟩, rfl⟩, by simp [hok]⟩
  · rintro ⟨_, ⟨w, ⟨hw, hfd⟩, rfl⟩, hok⟩
    exact ⟨w, hw, hfd, by simpa using hok⟩

theorem callsTo_dump (writeOk : ℕ → Bool) (n : ℕ) (fd : ℤ) (msgs : List SyncMsg) :
    callsTo (numbered writeOk n (msgs.map fun m => (fd, m))) fd =
      (msgs.zipIdx n).map fun p => (p.1, writeOk p.2) := by
  induction msgs generalizing n with
  | nil => rfl
  | cons m msgs ih =>
      rw [List.map_cons, numbered_cons, List.zipIdx_cons, List.map_cons, ← ih]
      simp [callsTo]

theorem callsTo_broadcast (writeOk : ℕ → Bool) (n : ℕ) (m : SyncMsg) {fds : List ℤ} {fd : ℤ}
    (hnodup : fds.Nodup) (hfd : fd ∈ fds) :
    ∃ k, callsTo (numbered writeOk n (fds.map fun fd => (fd, m))) fd = [(m, writeOk k)] := by
  induction fds generalizing n with
  | nil => simp at hfd
  | cons fd' fds ih =>
      obtain ⟨hnot, hnodup'⟩ := List.nodup_cons.mp hnodup
      rw [List.map_cons, numbered_cons]
      by_cases heq : fd' = fd
      · subst heq
        have hrest : callsTo (numbered writeOk (n + 1) (fds.map fun fd => (fd, m))) fd' = [] := by
          refine callsTo_eq_nil fun w hw hwfd => hnot ?_
          obtain ⟨fd, hmem, hpair⟩ := List.mem_map.mp (mem_numbered hw)
          rwa [← hwfd, ← (Prod.mk.inj hpair).1]
        refine ⟨n, ?_⟩
        rw [← List.singleton_append, callsTo_append, hrest]
        simp [callsTo]
      · obtain ⟨k, hk⟩ := ih (n + 1) hnodup' ((List.mem_cons.mp hfd).resolve_left (Ne.symm heq))
        refine ⟨k, ?_⟩
        rw [← hk, ← List.singleton_append, callsTo_append]
        simp [callsTo, heq]

theorem ServerOk.feed_accepted {s : Server} (h : ServerOk s) {w : Wakeup}
    (hnonneg : 0 ≤ w.dataSocket) (hunused : w.dataSocket ∉ s.openFds) {c : Connection}
    (hc : c ∈ s.connections) :
    ((s.accepted w).afterWrites (s.dumpWrites w)).feed c = s.feed c := by
  have hne : w.dataSocket ≠ c.dataSocket := fun heq => hunused (heq ▸ (h.connection c hc).2)
  have hcalls : callsTo (s.dumpWrites w) c.dataSocket = [] :=
    callsTo_eq_nil fun v hv heq => hne ((Server.mem_dumpWrites hv).1.symm.trans heq)
  have hlive : c.dataSocket ∈ ((s.accepted w).afterWrites (s.dumpWrites w)).dataSockets ↔
      c.dataSocket ∈ s.dataSockets := by
    rw [Server.mem_dataSockets_afterWrites, h.mem_dataSockets_accepted hnonneg hunused, failedIn_eq,
      hcalls]
    simp [Ne.symm hne]
  simp only [Server.feed, hlive, Feed.mk.injEq, true_and]
  refine ⟨?_, rfl⟩
  simp only [Server.afterWrites, Server.accepted, callsTo_append, hcalls, List.append_nil]

theorem ServerOk.feed_answered {s : Server} (h : ServerOk s) (w : Wakeup) (answer : Answer)
    {c : Connection} (hc : c ∈ s.connections) :
    (s.feed c).Step (((s.answered answer).afterWrites (s.lineWrites w answer.broadcast)).feed c) := by
  have hlive : c.dataSocket ∈
      ((s.answered answer).afterWrites (s.lineWrites w answer.broadcast)).dataSockets ↔
      c.dataSocket ∈ s.dataSockets ∧
        (callsTo (s.lineWrites w answer.broadcast) c.dataSocket).all Prod.snd = true := by
    rw [Server.mem_dataSockets_afterWrites, failedIn_eq, Bool.not_eq_false']
    rfl
  have hdue : (s.broadcasts ++ answer.broadcast.toList).drop c.since =
      s.broadcasts.drop c.since ++ answer.broadcast.toList :=
    List.drop_append_of_le_length (h.since_le c hc)
  simp only [Server.feed, hlive]
  simp only [Server.afterWrites, Server.answered, callsTo_append, hdue]
  cases hbroadcast : answer.broadcast with
  | none =>
      have hnone : s.lineWrites w none = [] := rfl
      simpa [hnone, callsTo] using Feed.Step.quiet
  | some m =>
      have hwrites : s.lineWrites w (some m) =
          numbered w.writeOk s.writes.length (s.dataSockets.map fun fd => (fd, m)) := by
        simp [Server.lineWrites]
      by_cases hmem : c.dataSocket ∈ s.dataSockets
      · obtain ⟨k, hk⟩ := callsTo_broadcast w.writeOk s.writes.length m (Server.nodup_dataSockets h.nodup) hmem
        rw [hwrites, hk]
        have hserved := Feed.Step.served (f := s.feed c) m (w.writeOk k) (decide_eq_true hmem)
        simpa [Server.feed, hmem, List.append_assoc] using hserved
      · have hcalls : callsTo (s.lineWrites w (some m)) c.dataSocket = [] :=
          callsTo_eq_nil fun v hv heq => hmem (heq ▸ (Server.mem_lineWrites hv).1)
        rw [hcalls]
        have hmissed := Feed.Step.missed (f := s.feed c) m (decide_eq_false hmem)
        simpa [Server.feed, hmem, List.append_assoc] using hmissed

theorem ServerOk.feed_new {s : Server} (h : ServerOk s) {w : Wakeup} (hnonneg : 0 ≤ w.dataSocket)
    (hunused : w.dataSocket ∉ s.openFds) :
    ((s.accepted w).afterWrites (s.dumpWrites w)).feed
      ⟨w.dataSocket, s.admin.rtm, s.broadcasts.length⟩ = s.newFeed w := by
  have hbefore : callsTo s.writes w.dataSocket = [] := by
    refine callsTo_eq_nil fun v hv heq => hunused ?_
    obtain ⟨c, hc, hcfd⟩ := h.written v hv
    exact heq ▸ hcfd ▸ (h.connection c hc).2
  have hdump : callsTo (s.dumpWrites w) w.dataSocket = s.dumpCalls w := callsTo_dump _ _ _ _
  have hold : w.dataSocket ∉ s.dataSockets := fun hmem =>
    hunused (h.members_open _ (Server.mem_dataSockets.mp hmem).1)
  have hlive : w.dataSocket ∈ ((s.accepted w).afterWrites (s.dumpWrites w)).dataSockets ↔
      -1 ∈ s.monitored.slots ∧ (s.dumpCalls w).all Prod.snd = true := by
    rw [Server.mem_dataSockets_afterWrites, h.mem_dataSockets_accepted hnonneg hunused, failedIn_eq,
      hdump, Bool.not_eq_false']
    simp only [hold, false_or, true_and]
  simp only [Server.feed, Server.newFeed, hlive, Feed.mk.injEq, Bool.decide_and,
    Bool.decide_eq_true, true_and]
  refine ⟨?_, ?_⟩
  · simp only [Server.afterWrites, Server.accepted, callsTo_append, hbefore, hdump, List.nil_append]
  · simp only [Server.afterWrites, Server.accepted, List.drop_length, List.append_nil]

theorem Server.newFeed_ok (s : Server) (w : Wakeup) : (s.newFeed w).Ok := by
  have hcalls : (s.dumpCalls w).map Prod.fst = dumpMessages s.admin.rtm := by
    rw [Server.dumpCalls, List.map_map]
    exact List.zipIdx_map_fst _ _
  refine ⟨by simp [newFeed, hcalls], fun hlive => ⟨hcalls, ?_⟩⟩
  simp only [newFeed, Bool.and_eq_true, List.all_eq_true] at hlive
  exact hlive.2

/-- A property that steps of feeds keep holds of all connections after an iteration exactly when the
condition holds, if it decides the property for a new connection. -/
theorem feeds_iff {Q : Feed SyncMsg → Prop} {C : Server → Wakeup → Prop}
    (hQ : ∀ f f', Feed.Step f f' → f.Ok → Q f → Q f')
    (hnew : ∀ s w, s.Accepts w → (Q (s.newFeed w) ↔ C s w))
    (hother : ∀ s w, ¬ s.Accepts w → C s w) {s s' : Server} {w : Wakeup} (h : ServerOk s)
    (hok : ∀ c ∈ s.connections, (s.feed c).Ok) (hs : ∀ c ∈ s.connections, Q (s.feed c))
    (hstep : serverStep s w = some s') : (∀ c ∈ s'.connections, Q (s'.feed c)) ↔ C s w := by
  cases serverStep_effect h hstep with
  | quiet haccepts hreads => exact iff_of_true hs (hother s w haccepts)
  | line answer hreads hanswer =>
      refine iff_of_true (fun c hc => ?_) (hother s w hreads.1)
      exact hQ _ _ (h.feed_answered w answer hc) (hok c hc) (hs c hc)
  | accepted haccepts hnonneg hunused =>
      rw [← hnew s w haccepts, ← h.feed_new hnonneg hunused]
      constructor
      · exact fun hall => hall _ (List.mem_append_right _ (List.mem_singleton_self _))
      · intro hlast c hc
        rcases List.mem_append.mp hc with hc | hc
        · rw [h.feed_accepted hnonneg hunused hc]
          exact hs c hc
        · rw [List.mem_singleton.mp hc]
          exact hlast

structure FeedsOk (s : Server) : Prop where
  server : ServerOk s
  feeds : ∀ c ∈ s.connections, (s.feed c).Ok

theorem FeedsOk.init (start : Startup) : FeedsOk (Server.init start) :=
  ⟨ServerOk.init start, by simp [Server.init]⟩

theorem serverStep_feedsOk {s s' : Server} {w : Wakeup} (h : FeedsOk s)
    (hstep : serverStep s w = some s') : FeedsOk s' := by
  refine ⟨serverStep_serverOk h.server hstep, ?_⟩
  have hiff := feeds_iff (Q := Feed.Ok) (C := fun _ _ => True) (fun f f' hf hok _ => hf.ok hok)
    (fun s w _ => iff_of_true (s.newFeed_ok w) trivial) (fun _ _ _ => trivial) h.server h.feeds
    h.feeds hstep
  exact hiff.mpr trivial

end LinuxIPC
