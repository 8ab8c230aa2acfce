import LinuxIPC.ServerFeeds

/-!
# What the clients are sent

Two laws of delivery, and when they hold. A client to which no write failed is monitored and is sent
everything it is due, unless it came when the table of descriptors was full. What arrives at a
client has no gap, unless a write succeeded in a dump after one that failed.
-/

namespace LinuxIPC

open SlotTable Runs

/-- A client to which no write failed is monitored, and was sent the dump and all later messages. -/
def NoneLeftOut (s : Server) : Prop :=
  ∀ c ∈ s.connections, (∀ w ∈ s.writes, w.dataSocket = c.dataSocket → w.ok = true) →
    c.dataSocket ∈ s.monitored.slots ∧
      (s.writes.filter fun w => w.dataSocket = c.dataSocket).map Write.syncMsg =
        dumpMessages c.dump ++ s.broadcasts.drop c.since

/-- A connection is accepted when a slot is free, or a write of its dump fails. -/
def SlotFree (s : Server) (w : Wakeup) : Prop :=
  s.Accepts w → -1 ∈ s.monitored.slots ∨
    ∃ k, s.writes.length ≤ k ∧ k < s.writes.length + s.admin.rtm.length ∧ w.writeOk k = false

theorem callsTo_map_fst (ws : List Write) (fd : ℤ) :
    (callsTo ws fd).map Prod.fst = (ws.filter fun w => w.dataSocket = fd).map Write.syncMsg := by
  rw [callsTo, List.map_map]
  rfl

theorem forall_callsTo_iff {ws : List Write} {fd : ℤ} :
    (∀ p ∈ callsTo ws fd, p.2 = true) ↔ ∀ w ∈ ws, w.dataSocket = fd → w.ok = true := by
  rw [callsTo, List.forall_mem_map]
  simp only [List.mem_filter, decide_eq_true_eq, and_imp]

theorem dumpCalls_map_snd (s : Server) (w : Wakeup) :
    (s.dumpCalls w).map Prod.snd =
      (List.range' s.writes.length s.admin.rtm.length).map w.writeOk := by
  have hlength : (dumpMessages s.admin.rtm).length = s.admin.rtm.length := List.length_map _
  rw [Server.dumpCalls, List.map_map, ← hlength, ← List.zipIdx_map_snd, List.map_map]
  rfl

theorem FeedsOk.noneLeftOut_iff {s : Server} (h : FeedsOk s) :
    NoneLeftOut s ↔ ∀ c ∈ s.connections, (s.feed c).Served := by
  apply forall₂_congr
  intro c hc
  have hmem : c.dataSocket ∈ s.dataSockets ↔ c.dataSocket ∈ s.monitored.slots := by
    rw [Server.dataSockets, List.mem_filter]
    exact and_iff_left (h.server.connection c hc).1
  rw [Feed.Served, ← callsTo_map_fst]
  change _ ↔ ((∀ p ∈ callsTo s.writes c.dataSocket, p.2 = true) →
    decide (c.dataSocket ∈ s.dataSockets) = true)
  rw [forall_callsTo_iff, decide_eq_true_eq, hmem]
  refine imp_congr_right fun _ => ⟨fun hboth => hboth.1, fun hslots => ⟨hslots, ?_⟩⟩
  exact ((h.feeds c hc).live (decide_eq_true (hmem.mpr hslots))).1

theorem newFeed_served_iff (s : Server) (w : Wakeup) :
    (s.newFeed w).Served ↔ -1 ∈ s.monitored.slots ∨
      ∃ k, s.writes.length ≤ k ∧ k < s.writes.length + s.admin.rtm.length ∧
        w.writeOk k = false := by
  have hall : (∀ p ∈ s.dumpCalls w, p.2 = true) ↔
      ∀ k, s.writes.length ≤ k → k < s.writes.length + s.admin.rtm.length → w.writeOk k = true := by
    rw [← List.forall_mem_map (f := Prod.snd) (P := fun b => b = true), dumpCalls_map_snd,
      List.forall_mem_map]
    simp only [List.mem_range'_1, and_imp]
  simp only [Feed.Served, Server.newFeed, Bool.and_eq_true, decide_eq_true_eq, List.all_eq_true,
    hall]
  by_cases hfail : ∀ k, s.writes.length ≤ k → k < s.writes.length + s.admin.rtm.length →
      w.writeOk k = true
  · have hnone : ¬ ∃ k, s.writes.length ≤ k ∧ k < s.writes.length + s.admin.rtm.length ∧
        w.writeOk k = false := by
      rintro ⟨k, hlo, hhi, hok⟩
      simp [hfail k hlo hhi] at hok
    constructor
    · exact fun hserved => Or.inl (hserved hfail).1
    · exact fun hor _ => ⟨hor.resolve_right hnone, hfail⟩
  · refine iff_of_true (fun hall' => absurd hall' hfail) (Or.inr ?_)
    simpa using hfail

/-- No client is left out, in any state reached, exactly when every client comes to a table of
descriptors with a free slot or has a write of its dump fail. -/
theorem none_left_out (start : Startup) (ws : List Wakeup) :
    Throughout serverStep NoneLeftOut (Server.init start) ws ↔
      Along serverStep SlotFree (Server.init start) ws := by
  refine throughout_iff_along FeedsOk (fun s w s' => serverStep_feedsOk) ?_ (FeedsOk.init start)
    (by simp [NoneLeftOut, Server.init]) ws
  intro s w s' h hserved hstep
  rw [(serverStep_feedsOk h hstep).noneLeftOut_iff]
  refine feeds_iff (C := SlotFree) (fun f f' hf _ hQ => hf.served_iff hQ) (fun s w haccepts => ?_)
    (fun s w hnot haccepts => absurd haccepts hnot) h.server h.feeds (h.noneLeftOut_iff.mp hserved)
    hstep
  rw [newFeed_served_iff]
  exact ⟨fun hor _ => hor, fun hfree => hfree haccepts⟩

/-- The 31st client is left out of the table of 32 descriptors, and of the first message. -/
theorem none_left_out_full_table :
    ¬ Throughout serverStep NoneLeftOut (Server.init standardStartup)
      ((List.range 31).map (fun k => connecting (fun _ => true) (4 + k)) ++
        ["c", "1.2.3.4/8", "10.0.0.1", "eth0"].map (entering fun _ => true)) := by
  intro h
  rw [throughout_iff_forall_run] at h
  have hfull : ((run serverStep (Server.init standardStartup)
      ((List.range 31).map (fun k => connecting (fun _ => true) (4 + k)) ++
        ["c", "1.2.3.4/8", "10.0.0.1", "eth0"].map (entering fun _ => true))).map fun s =>
          (decide (⟨34, [], 0⟩ ∈ s.connections), s.writes.all Write.ok,
            decide (34 ∈ s.monitored.slots))) = some (true, true, false) := by
    decide +kernel
  obtain ⟨s, hrun, hstate⟩ := Option.map_eq_some_iff.mp hfull
  simp only [Prod.mk.injEq, decide_eq_true_eq, List.all_eq_true, decide_eq_false_iff_not] at hstate
  exact hstate.2.2 (h _ List.prefix_rfl s hrun _ hstate.1 fun w hw _ => hstate.2.1 w hw).1

/-- What reaches a client is a prefix of what it is due, and nothing is sent to it successfully
after a failure. -/
def NoGaps (s : Server) : Prop :=
  ∀ c ∈ s.connections,
    ((s.writes.filter fun w => w.dataSocket = c.dataSocket).filter Write.ok).map Write.syncMsg <+:
        dumpMessages c.dump ++ s.broadcasts.drop c.since ∧
      (s.writes.filter fun w => w.dataSocket = c.dataSocket).Pairwise
        fun w w' => w'.ok = true → w.ok = true

def DumpStops (s : Server) (w : Wakeup) : Prop :=
  s.Accepts w → ∀ j k, s.writes.length ≤ j → j < k → k < s.writes.length + s.admin.rtm.length →
    w.writeOk k = true → w.writeOk j = true

theorem FeedsOk.noGaps_iff {s : Server} (h : FeedsOk s) :
    NoGaps s ↔ ∀ c ∈ s.connections, (s.feed c).Gapless := by
  apply forall₂_congr
  intro c hc
  have hpairwise : (s.feed c).Gapless ↔
      (s.writes.filter fun w => w.dataSocket = c.dataSocket).Pairwise
        fun w w' => w'.ok = true → w.ok = true := by
    rw [Feed.Gapless, Server.feed, callsTo, List.pairwise_map]
  have hdelivered : (s.feed c).delivered =
      ((s.writes.filter fun w => w.dataSocket = c.dataSocket).filter Write.ok).map
        Write.syncMsg := by
    simp only [Feed.delivered, Server.feed, callsTo, List.filter_map, List.map_map]
    rfl
  rw [← hpairwise, ← hdelivered]
  exact and_iff_right_of_imp fun hgapless => Feed.delivered_isPrefix (h.feeds c hc) hgapless

theorem newFeed_gapless_iff (s : Server) (w : Wakeup) :
    (s.newFeed w).Gapless ↔ ∀ j k, s.writes.length ≤ j → j < k →
      k < s.writes.length + s.admin.rtm.length → w.writeOk k = true → w.writeOk j = true := by
  have hmap : (s.newFeed w).Gapless ↔
      ((s.dumpCalls w).map Prod.snd).Pairwise fun b b' => b' = true → b = true := by
    rw [List.pairwise_map]
    rfl
  rw [hmap, dumpCalls_map_snd, List.pairwise_map, List.pairwise_iff_getElem]
  simp only [List.length_range', List.getElem_range', one_mul]
  constructor
  · intro h j k hlo hjk hhi
    have hjk' := h (j - s.writes.length) (k - s.writes.length) (by omega) (by omega) (by omega)
    rwa [Nat.add_sub_cancel' hlo, Nat.add_sub_cancel' (hlo.trans hjk.le)] at hjk'
  · intro h j k _ hk hjk
    exact h _ _ (by omega) (by omega) (by omega)

/-- No client gets a message after a failed write, in any state reached, exactly when no write of a
dump succeeds after one that failed. -/
theorem no_gaps (start : Startup) (ws : List Wakeup) :
    Throughout serverStep NoGaps (Server.init start) ws ↔
      Along serverStep DumpStops (Server.init start) ws := by
  refine throughout_iff_along FeedsOk (fun s w s' => serverStep_feedsOk) ?_ (FeedsOk.init start)
    (by simp [NoGaps, Server.init]) ws
  intro s w s' h hgaps hstep
  rw [(serverStep_feedsOk h hstep).noGaps_iff]
  refine feeds_iff (C := DumpStops) (fun f f' hf hok hQ => hf.gapless hok hQ)
    (fun s w haccepts => ?_) (fun s w hnot haccepts => absurd haccepts hnot) h.server h.feeds
    (h.noGaps_iff.mp hgaps) hstep
  rw [newFeed_gapless_iff]
  exact ⟨fun hall _ => hall, fun hstops => hstops haccepts⟩

/-- The first write of a dump of two records fails, and the second record arrives alone. -/
theorem no_gaps_failing_dump :
    ¬ Throughout serverStep NoGaps (Server.init standardStartup)
      (["c", "1.2.3.4/8", "10.0.0.1", "eth0", "c", "5.6.7.8/8", "10.0.0.1", "eth1"].map
        (entering fun _ => true) ++ [connecting (fun k => k ≠ 0) 4]) := by
  intro h
  rw [throughout_iff_forall_run] at h
  have hgap : ((run serverStep (Server.init standardStartup)
      (["c", "1.2.3.4/8", "10.0.0.1", "eth0", "c", "5.6.7.8/8", "10.0.0.1", "eth1"].map
        (entering fun _ => true) ++ [connecting (fun k => k ≠ 0) 4])).map fun s =>
          ((s.writes.filter fun w => w.dataSocket = 4).map Write.ok,
            s.connections.any fun c => c.dataSocket = 4)) = some ([false, true], true) := by
    decide +kernel
  obtain ⟨s, hrun, hstate⟩ := Option.map_eq_some_iff.mp hgap
  obtain ⟨hok, hany⟩ := Prod.mk.inj hstate
  obtain ⟨c, hc, hfd⟩ := List.any_eq_true.mp hany
  have hpairwise := (h _ List.prefix_rfl s hrun c hc).2
  rw [of_decide_eq_true hfd] at hpairwise
  have hoks : ((s.writes.filter fun w => w.dataSocket = 4).map Write.ok).Pairwise
      fun b b' => b' = true → b = true := List.pairwise_map.mpr hpairwise
  rw [hok] at hoks
  simp at hoks

end LinuxIPC
