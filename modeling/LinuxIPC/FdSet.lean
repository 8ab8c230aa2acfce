import LinuxIPC.SlotTable

/-!
# The monitored descriptors (`fd_set_mgmt.c`)

The servers monitor the descriptors in a table of `maxClients` slots, in which -1 marks a free one.
An `fd_set` has a bit for each descriptor below `FD_SETSIZE`. `FD_SET` does not check that, and
neither does `refresh_fd_set`: from `FD_SETSIZE` on the behaviour is undefined.
-/

namespace LinuxIPC

open SlotTable

abbrev maxClients : ℕ := 32

/-- `monitored_fd_set`. -/
@[ext] structure FdSet where
  slots : List ℤ
  size_eq : slots.length = maxClients

def initializeMonitorFdSet : FdSet := ⟨List.replicate maxClients (-1), List.length_replicate⟩

def addToMonitoredFdSet (s : FdSet) (socketFd : ℤ) : FdSet where
  slots := s.slots.replace (-1) socketFd
  size_eq := by rw [List.length_replace, s.size_eq]

def removeFromMonitoredFdSet (s : FdSet) (socketFd : ℤ) : FdSet where
  slots := s.slots.replace socketFd (-1)
  size_eq := by rw [List.length_replace, s.size_eq]

abbrev fdSetSize : ℕ := 1024

/-- An `fd_set`: its members, each with a bit of its own. -/
@[ext] structure ReadFds where
  members : List ℤ
  bounded : ∀ fd ∈ members, 0 ≤ fd ∧ fd < fdSetSize

def fdZero : ReadFds := ⟨[], by simp⟩

/-- `FD_SET`; `none` when it writes outside the `fd_set`. -/
def fdSet (fd : ℤ) (readfds : ReadFds) : Option ReadFds :=
  if h : 0 ≤ fd ∧ fd < fdSetSize then
    some ⟨readfds.members ++ [fd], by
      intro fd' hfd'
      rcases List.mem_append.mp hfd' with hfd' | hfd'
      · exact readfds.bounded fd' hfd'
      · exact List.mem_singleton.mp hfd' ▸ h⟩
  else none

def refreshFdSet (s : FdSet) : Option ReadFds :=
  s.slots.foldlM (fun readfds fd => if fd = -1 then some readfds else fdSet fd readfds) fdZero

def getMaxFd (s : FdSet) : ℤ := s.slots.foldl (fun max fd => if fd > max then fd else max) (-1)

/-- What `select(nfds, &readfds, NULL, NULL, NULL)` leaves in `readfds`, when the descriptors in
`readable` have something to read. -/
def select (nfds : ℤ) (readfds readable : List ℤ) : List ℤ :=
  readfds.filter fun fd => fd < nfds ∧ fd ∈ readable

abbrev FdSet.members (s : FdSet) : List ℤ := occupied (-1) s.slots

/-- The descriptors that an iteration of a main loop finds set. This is what the code does while all
that it monitors is below `FD_SETSIZE`; the servers are modelled as if `FD_SET` had room for more. -/
def FdSet.selected (s : FdSet) (readable : List ℤ) : List ℤ :=
  select (getMaxFd s + 1) (((refreshFdSet s).map ReadFds.members).getD s.members) readable

def FdSet.slot (s : FdSet) (i : ℕ) : ℤ := s.slots.getD i (-1)

def FdSet.release (s : FdSet) (p : ℤ → Bool) : FdSet where
  slots := SlotTable.release (-1) p s.slots
  size_eq := by rw [SlotTable.release, List.length_map, s.size_eq]

/-- A server before `initialize_server`: the descriptors it starts with, among them the standard
input, and the lowest unused one, which `socket` returns. -/
structure Launch where
  openFds : List ℤ
  connectionSocket : ℤ
  stdin_mem : 0 ∈ openFds
  nonneg : 0 ≤ connectionSocket
  unused : connectionSocket ∉ openFds
  lowest : ∀ fd, 0 ≤ fd → fd < connectionSocket → fd ∈ openFds

def Launch.initialFdSet (launch : Launch) : FdSet :=
  addToMonitoredFdSet (addToMonitoredFdSet initializeMonitorFdSet 0) launch.connectionSocket

def accept (openFds : List ℤ) (dataSocket : ℤ) : Option ℤ :=
  if 0 ≤ dataSocket ∧ dataSocket ∉ openFds then some dataSocket else none

def standardLaunch : Launch where
  openFds := [0, 1, 2]
  connectionSocket := 3
  stdin_mem := by decide
  nonneg := by decide
  unused := by decide
  lowest := by
    intro fd hlo hhi
    have hcases : fd = 0 ∨ fd = 1 ∨ fd = 2 := by omega
    simpa using hcases

theorem le_foldl_max (fds : List ℤ) (start : ℤ) :
    start ≤ fds.foldl (fun max fd => if fd > max then fd else max) start ∧
      ∀ fd ∈ fds, fd ≤ fds.foldl (fun max fd => if fd > max then fd else max) start := by
  induction fds generalizing start with
  | nil => simp
  | cons v fds ih =>
      obtain ⟨hstart, hrest⟩ := ih (if v > start then v else start)
      have hv : v ≤ (if v > start then v else start) := by split_ifs <;> omega
      have hs : start ≤ (if v > start then v else start) := by split_ifs <;> omega
      refine ⟨hs.trans hstart, fun fd hfd => ?_⟩
      rcases List.mem_cons.mp hfd with rfl | hfd
      · exact hv.trans hstart
      · exact hrest fd hfd

theorem foldlM_fdSet {slots : List ℤ} {readfds readfds' : ReadFds} :
    slots.foldlM (fun readfds fd => if fd = -1 then some readfds else fdSet fd readfds) readfds =
        some readfds' ↔
      readfds'.members = readfds.members ++ occupied (-1) slots := by
  induction slots generalizing readfds with
  | nil => simp [occupied, ReadFds.ext_iff, eq_comm]
  | cons fd slots ih =>
      rw [List.foldlM_cons]
      by_cases hfree : fd = -1
      · simp [hfree, ih, occupied]
      have hcons : occupied (-1) (fd :: slots) = fd :: occupied (-1) slots :=
        List.filter_cons_of_pos (by simpa using hfree)
      rw [if_neg hfree, hcons, fdSet]
      split_ifs with hfd
      · simp [ih]
      · -- the members of an `fd_set` are in its range
        refine iff_of_false (by simp) fun hmembers => hfd (readfds'.bounded fd ?_)
        simp [hmembers]

/-- `refresh_fd_set` gives the monitored descriptors, when they all fit into an `fd_set`. -/
theorem refreshFdSet_eq_some {s : FdSet} {readfds : ReadFds} :
    refreshFdSet s = some readfds ↔ readfds.members = s.members :=
  foldlM_fdSet

theorem exists_refreshFdSet {s : FdSet} :
    (∃ readfds, refreshFdSet s = some readfds) ↔ ∀ fd ∈ s.members, 0 ≤ fd ∧ fd < fdSetSize := by
  simp only [refreshFdSet_eq_some]
  constructor
  · rintro ⟨readfds, hmembers⟩ fd hfd
    exact readfds.bounded fd (hmembers ▸ hfd)
  · exact fun hbounded => ⟨⟨s.members, hbounded⟩, rfl⟩

theorem FdSet.selected_eq (s : FdSet) (readable : List ℤ) :
    s.selected readable = select (getMaxFd s + 1) s.members readable := by
  rw [selected]
  cases hrefresh : refreshFdSet s with
  | none => rfl
  | some readfds => rw [Option.map_some, Option.getD_some, refreshFdSet_eq_some.mp hrefresh]

/-- The bound given to `select` leaves no monitored descriptor out. -/
theorem FdSet.mem_selected {s : FdSet} {readable : List ℤ} {fd : ℤ} :
    fd ∈ s.selected readable ↔ fd ∈ s.members ∧ fd ∈ readable := by
  have hmax : fd ∈ s.slots → fd < getMaxFd s + 1 := by
    intro hfd
    have hle : fd ≤ getMaxFd s := (le_foldl_max s.slots (-1)).2 fd hfd
    omega
  simp only [selected_eq, select, List.mem_filter, mem_occupied, decide_eq_true_eq]
  constructor
  · rintro ⟨⟨hslots, hne⟩, -, hready⟩
    exact ⟨⟨hslots, hne⟩, hready⟩
  · rintro ⟨⟨hslots, hne⟩, hready⟩
    exact ⟨⟨hslots, hne⟩, hmax hslots, hready⟩

theorem FdSet.remove_eq_release {s : FdSet} {socketFd : ℤ} (hnodup : s.members.Nodup)
    (hne : socketFd ≠ -1) :
    removeFromMonitoredFdSet s socketFd = s.release fun fd => decide (fd = socketFd) :=
  FdSet.ext (replace_eq_release hnodup hne)

theorem FdSet.release_release (s : FdSet) (p q : ℤ → Bool) :
    (s.release p).release q = s.release fun fd => p fd || q fd :=
  FdSet.ext (SlotTable.release_release p q s.slots)

theorem FdSet.release_false (s : FdSet) : (s.release fun _ => false) = s :=
  FdSet.ext (release_eq_self fun _ _ => rfl)

theorem FdSet.members_release (s : FdSet) (p : ℤ → Bool) :
    (s.release p).members = s.members.filter fun fd => !p fd :=
  occupied_release p s.slots

theorem FdSet.nodup_release {s : FdSet} (h : s.members.Nodup) (p : ℤ → Bool) :
    (s.release p).members.Nodup := by
  rw [FdSet.members_release]
  exact h.filter _

theorem FdSet.mem_members_add {s : FdSet} {socketFd fd : ℤ} (hne : socketFd ≠ -1) :
    fd ∈ (addToMonitoredFdSet s socketFd).members ↔
      fd ∈ s.members ∨ fd = socketFd ∧ -1 ∈ s.slots :=
  mem_occupied_enter hne

theorem FdSet.nodup_add {s : FdSet} {socketFd : ℤ} (h : s.members.Nodup) (hne : socketFd ≠ -1)
    (hnew : socketFd ∉ s.members) : (addToMonitoredFdSet s socketFd).members.Nodup :=
  nodup_occupied_enter hne h fun hmem => hnew (mem_occupied.mpr ⟨hmem, hne⟩)

theorem FdSet.members_remove {s : FdSet} {socketFd : ℤ} (hnodup : s.members.Nodup)
    (hne : socketFd ≠ -1) :
    (removeFromMonitoredFdSet s socketFd).members = s.members.filter (· ≠ socketFd) := by
  rw [remove_eq_release hnodup hne, members_release]
  simp

theorem FdSet.slot_injective {s : FdSet} (hnodup : s.members.Nodup) {i j : ℕ}
    (hne : s.slot i ≠ -1) (heq : s.slot i = s.slot j) : i = j :=
  eq_of_getD_eq hnodup hne heq

theorem FdSet.slot_mem_members {s : FdSet} {i : ℕ} (hne : s.slot i ≠ -1) :
    s.slot i ∈ s.members := by
  apply mem_occupied.mpr
  by_cases hi : i < s.slots.length
  · rw [slot, List.getD_eq_getElem _ _ hi] at hne ⊢
    exact ⟨List.getElem_mem hi, hne⟩
  · exact absurd (List.getD_eq_default _ _ (not_lt.mp hi)) hne

theorem FdSet.exists_slot {s : FdSet} {fd : ℤ} (h : fd ∈ s.members) :
    ∃ i : Fin maxClients, s.slot i = fd := by
  obtain ⟨i, hi, hget⟩ := List.getElem_of_mem (mem_occupied.mp h).1
  refine ⟨⟨i, s.size_eq ▸ hi⟩, ?_⟩
  rw [slot, List.getD_eq_getElem _ _ hi, hget]

theorem FdSet.slot_remove {s : FdSet} {socketFd : ℤ} (hnodup : s.members.Nodup)
    (hne : socketFd ≠ -1) (i : ℕ) :
    (removeFromMonitoredFdSet s socketFd).slot i =
      if s.slot i = socketFd then -1 else s.slot i := by
  have hslot : (s.release fun fd => decide (fd = socketFd)).slot i =
      if decide (s.slot i = socketFd) then -1 else s.slot i := getD_release _ s.slots i
  rw [remove_eq_release hnodup hne, hslot]
  simp

theorem FdSet.slot_add (s : FdSet) (socketFd : ℤ) (i : ℕ) :
    (addToMonitoredFdSet s socketFd).slot i = s.slot i ∨
      s.slot i = -1 ∧ (addToMonitoredFdSet s socketFd).slot i = socketFd :=
  getD_enter s.slots socketFd i

theorem accept_eq_some {openFds : List ℤ} {dataSocket fd : ℤ} :
    accept openFds dataSocket = some fd ↔
      fd = dataSocket ∧ 0 ≤ dataSocket ∧ dataSocket ∉ openFds := by
  unfold accept
  split_ifs with h
  · simp [h, eq_comm]
  · simp [h]

theorem Launch.connectionSocket_pos (launch : Launch) : 0 < launch.connectionSocket := by
  have hne : launch.connectionSocket ≠ 0 := fun heq => launch.unused (heq ▸ launch.stdin_mem)
  have hnonneg := launch.nonneg
  omega

theorem Launch.slots_initialFdSet (launch : Launch) :
    launch.initialFdSet.slots = 0 :: launch.connectionSocket :: List.replicate 30 (-1) := rfl

theorem Launch.members_initialFdSet (launch : Launch) :
    launch.initialFdSet.members = [0, launch.connectionSocket] := by
  have hpos := launch.connectionSocket_pos
  have hne : launch.connectionSocket ≠ -1 := by omega
  rw [FdSet.members, slots_initialFdSet, occupied, List.filter_cons_of_pos (by decide),
    List.filter_cons_of_pos (by simpa using hne)]
  exact congrArg _ (congrArg _ (occupied_replicate 30))

theorem Launch.nodup_initialFdSet (launch : Launch) : launch.initialFdSet.members.Nodup := by
  rw [members_initialFdSet, List.nodup_cons, List.mem_singleton]
  exact ⟨launch.connectionSocket_pos.ne, List.nodup_singleton _⟩

end LinuxIPC
