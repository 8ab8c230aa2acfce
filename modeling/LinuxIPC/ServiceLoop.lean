import LinuxIPC.SocketReads

/-!
# The descriptors that the service loop touches (`multiplexing/server.c`)

The loop of `handle_service_request` goes over all slots of the table, and `FD_ISSET` is called on
whatever they hold; its behaviour on the -1 of a free slot is undefined. It is called on monitored
descriptors only, if the loop comes to no free slot; where clients are read from and answered, it is
always on descriptors that were found ready.
-/

namespace LinuxIPC

open SlotTable Runs

namespace Multiplexing

inductive FdFunction where
  | fdIsset
  | read
  | write
  | close
  deriving DecidableEq, Repr

structure FdCall where
  function : FdFunction
  fd : ℤ
  deriving DecidableEq, Repr

/-- The calls of one iteration of the loop of `handle_service_request`, as `serveSlot` goes on. -/
def serveSlotCalls (w : Wakeup) (readfds : List ℤ) (s : Server) (i : Fin maxClients) :
    List FdCall :=
  let commSocketFd := s.monitored.slot i
  ⟨.fdIsset, commSocketFd⟩ ::
    if commSocketFd ∈ readfds then
      ⟨.read, commSocketFd⟩ ::
        match w.data commSocketFd with
        | none => []
        | some chunk =>
          if memcpyInt (received chunk) = 0 then
            [⟨.write, commSocketFd⟩, ⟨.close, commSocketFd⟩]
          else []
    else []

structure Server.Live (s : Server) (fd : ℤ) : Prop where
  monitored : fd ∈ s.monitored.members
  nonneg : 0 ≤ fd
  lt_setSize : fd < fdSetSize

/-- Every call is on a live descriptor, and but for `FD_ISSET` on one of a client that is ready. -/
def LiveCalls (w : Wakeup) (readfds : List ℤ) (s : Server) (i : Fin maxClients) : Prop :=
  ∀ call ∈ serveSlotCalls w readfds s i, s.Live call.fd ∧
    (call.function ≠ .fdIsset → call.fd ∈ readfds ∧ ∃ c ∈ s.connections, c.Owns call.fd)

def Server.Serving (s : Server) (w : Wakeup) : Prop :=
  s.connectionSocket ∉ s.monitored.selected w.ready ∧ 0 ∉ s.monitored.selected w.ready

def ServesLive (s : Server) (w : Wakeup) : Prop :=
  s.Serving w → Attempted (serveSlot w (s.monitored.selected w.ready))
    (LiveCalls w (s.monitored.selected w.ready)) s (List.finRange maxClients)

/-- The slots that the loop comes to hold descriptors below `FD_SETSIZE`. It comes to all the slots,
unless `read` fails for one of them. -/
def SlotsTaken (s : Server) (w : Wakeup) : Prop :=
  s.Serving w → ∀ i : Fin maxClients,
    (∀ j < i, s.monitored.slot j ∈ s.monitored.selected w.ready →
      w.data (s.monitored.slot j) ≠ none) →
    s.monitored.slot i ≠ -1 ∧ s.monitored.slot i < fdSetSize

theorem Server.Serving.clientsOnly {s : Server} {w : Wakeup} (h : s.Serving w) :
    ClientsOnly s.connectionSocket (s.monitored.selected w.ready) where
  free := fun hmem => (mem_occupied.mp (FdSet.mem_selected.mp hmem).1).2 rfl
  stdin := h.2
  socket := h.1

theorem ServerOk.nonneg {s : Server} (h : ServerOk s) {fd : ℤ} (hfd : fd ∈ s.monitored.members) :
    0 ≤ fd := by
  by_cases hzero : fd = 0
  · exact hzero.ge
  by_cases hsocket : fd = s.connectionSocket
  · exact hsocket ▸ h.socket_pos.le
  obtain ⟨c, hc, hopen, rfl⟩ := h.owner fd ⟨hfd, hzero, hsocket⟩
  exact (h.dataSocket c hc hopen).1.le

theorem of_mem_serveSlotCalls {w : Wakeup} {readfds : List ℤ} {s : Server} {i : Fin maxClients}
    {call : FdCall} (hcall : call ∈ serveSlotCalls w readfds s i) :
    call.fd = s.monitored.slot i ∧ (call.function ≠ .fdIsset → s.monitored.slot i ∈ readfds) := by
  rcases List.mem_cons.mp hcall with rfl | hcall
  · exact ⟨rfl, fun hne => absurd rfl hne⟩
  by_cases hready : s.monitored.slot i ∈ readfds
  · refine ⟨?_, fun _ => hready⟩
    rw [if_pos hready] at hcall
    rcases List.mem_cons.mp hcall with rfl | hcall
    · rfl
    cases hdata : w.data (s.monitored.slot i) with
    | none => simp [hdata] at hcall
    | some chunk =>
        simp only [hdata] at hcall
        split_ifs at hcall
        · rcases List.mem_pair.mp hcall with rfl | rfl <;> rfl
        · simp at hcall
  · rw [if_neg hready] at hcall
    simp at hcall

theorem ServerOk.liveCalls_iff {w : Wakeup} {readfds : List ℤ} {s : Server} (h : ServerOk s)
    (hclients : ClientsOnly s.connectionSocket readfds) (i : Fin maxClients) :
    LiveCalls w readfds s i ↔ s.monitored.slot i ≠ -1 ∧ s.monitored.slot i < fdSetSize := by
  constructor
  · intro hlive
    obtain ⟨hslot, -⟩ := hlive _ List.mem_cons_self
    exact ⟨(mem_occupied.mp hslot.monitored).2, hslot.lt_setSize⟩
  · rintro ⟨hne, hlt⟩ call hcall
    obtain ⟨hfd, hready⟩ := of_mem_serveSlotCalls hcall
    have hmem := FdSet.slot_mem_members hne
    rw [hfd]
    refine ⟨⟨hmem, h.nonneg hmem, hlt⟩, fun hfunction => ⟨hready hfunction, ?_⟩⟩
    exact h.owner _ (hclients.clientSlot (hready hfunction))

theorem exists_serveSlot_iff {w : Wakeup} {readfds : List ℤ} {s : Server} {i : Fin maxClients} :
    (∃ s', serveSlot w readfds s i = some s') ↔
      (s.monitored.slot i ∈ readfds → w.data (s.monitored.slot i) ≠ none) := by
  unfold serveSlot
  by_cases hready : s.monitored.slot i ∈ readfds
  · cases hdata : w.data (s.monitored.slot i) with
    | none => simp [hready, hdata]
    | some chunk =>
        simp only [if_pos hready, hdata]
        split_ifs <;> simp
  · simp [hready]

/-- Serving a slot leaves the others as they are. -/
theorem ServerOk.slot_of_ne {w : Wakeup} {readfds : List ℤ} {s s' : Server} {i j : Fin maxClients}
    (h : ServerOk s) (hclients : ClientsOnly s.connectionSocket readfds)
    (heffect : SlotEffect w readfds s i s') (hij : i ≠ j) :
    s'.monitored.slot j = s.monitored.slot j := by
  cases heffect with
  | skipped _ => rfl
  | added _ _ _ _ => rfl
  | finished chunk hready _ _ =>
      have hslot := hclients.clientSlot hready
      rw [Server.slot_finished h hslot, if_neg]
      exact fun heq => hij (h.eq_of_slot hslot heq.symm)

theorem ServerOk.attempted_liveCalls_iff {w : Wakeup} {readfds : List ℤ} {s : Server}
    {slots : List (Fin maxClients)} (h : ServerOk s)
    (hclients : ClientsOnly s.connectionSocket readfds) (hsorted : slots.Pairwise (· < ·)) :
    Attempted (serveSlot w readfds) (LiveCalls w readfds) s slots ↔
      ∀ i ∈ slots, (∀ j ∈ slots, j < i → s.monitored.slot j ∈ readfds →
          w.data (s.monitored.slot j) ≠ none) →
        s.monitored.slot i ≠ -1 ∧ s.monitored.slot i < fdSetSize := by
  induction slots generalizing s with
  | nil => simp [Attempted]
  | cons k slots ih =>
      obtain ⟨hfirst, hsorted⟩ := List.pairwise_cons.mp hsorted
      have hrest : ∀ s', serveSlot w readfds s k = some s' →
          (Attempted (serveSlot w readfds) (LiveCalls w readfds) s' slots ↔
            ∀ i ∈ slots, (∀ j ∈ slots, j < i → s.monitored.slot j ∈ readfds →
                w.data (s.monitored.slot j) ≠ none) →
              s.monitored.slot i ≠ -1 ∧ s.monitored.slot i < fdSetSize) := by
        intro s' hserve
        have heffect := serveSlot_effect hserve
        have hsame : ∀ j ∈ slots, s'.monitored.slot j = s.monitored.slot j :=
          fun j hj => h.slot_of_ne hclients heffect (hfirst j hj).ne
        rw [ih (h.slot hclients heffect) (heffect.connectionSocket ▸ hclients) hsorted]
        refine forall₂_congr fun i hi => ?_
        rw [hsame i hi]
        refine imp_congr (forall₂_congr fun j hj => ?_) Iff.rfl
        rw [hsame j hj]
      rw [Attempted, h.liveCalls_iff hclients, List.forall_mem_cons]
      refine and_congr ?_ ?_
      · refine ⟨fun hslot _ => hslot, fun hslot => hslot fun j hj hlt => ?_⟩
        rcases List.mem_cons.mp hj with rfl | hj
        · exact absurd hlt (lt_irrefl _)
        · exact absurd hlt (hfirst j hj).asymm
      · constructor
        · intro hattempted i hi hearlier
          have hk := hearlier k List.mem_cons_self (hfirst i hi)
          obtain ⟨s', hserve⟩ := exists_serveSlot_iff.mpr hk
          refine (hrest s' hserve).mp (hattempted s' hserve) i hi fun j hj => ?_
          exact hearlier j (List.mem_cons_of_mem _ hj)
        · intro hslots s' hserve
          refine (hrest s' hserve).mpr fun i hi hearlier => hslots i hi fun j hj hlt => ?_
          rcases List.mem_cons.mp hj with rfl | hj
          · exact exists_serveSlot_iff.mp ⟨s', hserve⟩
          · exact hearlier j hj hlt

theorem ServerOk.servesLive_iff {s : Server} (h : ServerOk s) (w : Wakeup) :
    ServesLive s w ↔ SlotsTaken s w := by
  refine forall_congr' fun hserving => ?_
  rw [h.attempted_liveCalls_iff hserving.clientsOnly (List.pairwise_lt_finRange maxClients)]
  simp only [List.mem_finRange, true_implies]

/-- Whatever the runs before, the service loop touches live descriptors only in the iterations in
which it comes to no free slot and to no descriptor beyond `FD_SETSIZE`. -/
theorem service_loop_touches_live (launch : Launch) (ws : List Wakeup) :
    Attempted serverStep ServesLive (Server.init launch) ws ↔
      Attempted serverStep SlotsTaken (Server.init launch) ws :=
  attempted_congr_of_invariant serverStep_serverOk (fun _ w h => h.servesLive_iff w)
    (ServerOk.init launch) ws

/-- A single client sends an int: the fourth slot is free. -/
theorem service_loop_touches_free_slot :
    ¬ Attempted serverStep ServesLive (Server.init standardLaunch)
      [⟨[3], 4, fun _ => none⟩, delivering 4 ⟨intBytes 1, by decide⟩] := by
  rw [attempted_congr_of_invariant serverStep_serverOk (fun _ w h => h.servesLive_iff w)
    (ServerOk.init standardLaunch)]
  have hserving : ((Server.init standardLaunch).accepted 4).Serving
      (delivering 4 ⟨intBytes 1, by decide⟩) :=
    ⟨fun hmem => absurd (FdSet.mem_selected.mp hmem).2 (by decide),
      fun hmem => absurd (FdSet.mem_selected.mp hmem).2 (by decide)⟩
  rintro ⟨-, hrest⟩
  have htaken := (hrest _ serverStep_first_client).1 hserving 3 fun _ _ _ => Option.some_ne_none _
  exact htaken.1 (by decide)

end Multiplexing

end LinuxIPC
