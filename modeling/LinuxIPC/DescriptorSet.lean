import LinuxIPC.FdSet
import LinuxIPC.Runs

/-!
# The monitored descriptors as a set (`fd_set_mgmt.c`)

Beside the table stands the set of the descriptors that were added and not removed. As long as a
descriptor is added only when it is not held and there is room for it, the table holds this set: each
descriptor in a slot of its own, which it keeps until it is removed. `refresh_fd_set` gives the set as
long as only descriptors below `FD_SETSIZE` are added.
-/

namespace LinuxIPC

open SlotTable Runs

inductive FdOp where
  | add (fd : ℤ)
  | remove (fd : ℤ)
  deriving DecidableEq, Repr

def FdOp.fd : FdOp → ℤ
  | add fd => fd
  | remove fd => fd

structure Monitoring where
  table : FdSet
  held : Finset ℤ

def Monitoring.init : Monitoring := ⟨initializeMonitorFdSet, ∅⟩

/-- An operation; `none` when it is called with a descriptor that it is not meant for. -/
def Monitoring.step (m : Monitoring) : FdOp → Option Monitoring
  | .add fd =>
    if 0 ≤ fd ∧ fd ∉ m.held ∧ m.held.card < maxClients then
      some ⟨addToMonitoredFdSet m.table fd, insert fd m.held⟩
    else none
  | .remove fd =>
    if 0 ≤ fd then some ⟨removeFromMonitoredFdSet m.table fd, m.held.erase fd⟩ else none

structure HoldsTable (m : Monitoring) : Prop where
  held : ∀ fd ∈ m.held, ∃! i : Fin maxClients, m.table.slot i = fd
  free : ∀ i : Fin maxClients, m.table.slot i ∉ m.held → m.table.slot i = -1
  greatest : m.held.Nonempty → IsGreatest m.held (getMaxFd m.table)
  empty : m.held = ∅ → getMaxFd m.table = -1
  below : ∀ fd ∈ m.held, fd < getMaxFd m.table + 1

structure HoldsSet (m : Monitoring) : Prop extends HoldsTable m where
  refreshed : ∃ readfds, refreshFdSet m.table = some readfds ∧
    ∀ fd, fd ∈ readfds.members ↔ fd ∈ m.held

/-- A descriptor that is added has a bit in an `fd_set`. -/
def AddsBelowSetSize (_ : Monitoring) (op : FdOp) : Prop := ∀ fd, op = .add fd → fd < fdSetSize

/-- The operation leaves the other descriptors in their slots, and it does nothing when it removes a
descriptor that is not there. -/
def KeepsSlots (m : Monitoring) (op : FdOp) : Prop :=
  ∀ m', m.step op = some m' →
    (∀ fd ∈ m.held, fd ≠ op.fd → ∀ i, m'.table.slot i = fd ↔ m.table.slot i = fd) ∧
      ((∃ fd, op = .remove fd ∧ fd ∉ m.held) → m' = m)

structure MonitoringOk (m : Monitoring) : Prop where
  holds : Holds (-1) m.table.slots m.held
  nonneg : ∀ fd ∈ m.held, 0 ≤ fd

theorem monitoringOk_init : MonitoringOk .init where
  holds := Holds.replicate maxClients
  nonneg := by simp [Monitoring.init]

theorem Monitoring.step_add {m m' : Monitoring} {fd : ℤ} (h : m.step (.add fd) = some m') :
    0 ≤ fd ∧ fd ∉ m.held ∧ m.held.card < maxClients ∧
      m' = ⟨addToMonitoredFdSet m.table fd, insert fd m.held⟩ := by
  simp only [Monitoring.step, Option.ite_none_right_eq_some, Option.some.injEq] at h
  obtain ⟨⟨hnonneg, hnew, hroom⟩, rfl⟩ := h
  exact ⟨hnonneg, hnew, hroom, rfl⟩

theorem Monitoring.step_remove {m m' : Monitoring} {fd : ℤ} (h : m.step (.remove fd) = some m') :
    0 ≤ fd ∧ m' = ⟨removeFromMonitoredFdSet m.table fd, m.held.erase fd⟩ := by
  simp only [Monitoring.step, Option.ite_none_right_eq_some, Option.some.injEq] at h
  exact ⟨h.1, h.2.symm⟩

theorem MonitoringOk.step {m m' : Monitoring} (h : MonitoringOk m) {op : FdOp}
    (hstep : m.step op = some m') : MonitoringOk m' := by
  cases op with
  | add fd =>
      obtain ⟨hnonneg, hnew, hroom, rfl⟩ := Monitoring.step_add hstep
      have hfree : -1 ∈ m.table.slots := h.holds.free_mem (m.table.size_eq ▸ hroom)
      refine ⟨h.holds.enter (by omega) hnew hfree, fun fd' hfd' => ?_⟩
      rcases Finset.mem_insert.mp hfd' with rfl | hfd'
      · exact hnonneg
      · exact h.nonneg fd' hfd'
  | remove fd =>
      obtain ⟨hnonneg, rfl⟩ := Monitoring.step_remove hstep
      refine ⟨h.holds.leave (by omega), fun fd' hfd' => ?_⟩
      exact h.nonneg fd' (Finset.mem_of_mem_erase hfd')

theorem getMaxFd_mem (s : FdSet) : getMaxFd s = -1 ∨ getMaxFd s ∈ s.members := by
  have hfold : ∀ (fds : List ℤ) (start : ℤ),
      fds.foldl (fun max fd => if fd > max then fd else max) start = start ∨
        fds.foldl (fun max fd => if fd > max then fd else max) start ∈ fds := by
    intro fds
    induction fds with
    | nil => exact fun start => Or.inl rfl
    | cons fd fds ih =>
        intro start
        rw [List.foldl_cons, List.mem_cons]
        split_ifs
        · exact Or.inr (ih fd)
        · exact (ih start).imp_right Or.inr
  by_cases hne : getMaxFd s = -1
  · exact Or.inl hne
  · exact Or.inr (mem_occupied.mpr ⟨(hfold s.slots (-1)).resolve_left hne, hne⟩)

theorem MonitoringOk.le_getMaxFd {m : Monitoring} (h : MonitoringOk m) {fd : ℤ}
    (hfd : fd ∈ m.held) : fd ≤ getMaxFd m.table :=
  (le_foldl_max m.table.slots (-1)).2 fd (mem_occupied.mp ((h.holds.mem_iff fd).mpr hfd)).1

theorem MonitoringOk.holdsTable {m : Monitoring} (h : MonitoringOk m) : HoldsTable m where
  held := by
    intro fd hfd
    obtain ⟨i, hi⟩ := FdSet.exists_slot ((h.holds.mem_iff fd).mpr hfd)
    refine ⟨i, hi, fun j hj => ?_⟩
    have hne : m.table.slot j ≠ -1 := hj ▸ h.holds.ne_free hfd
    exact Fin.ext (FdSet.slot_injective h.holds.nodup hne (hj.trans hi.symm))
  free := by
    intro i hnot
    by_contra hne
    exact hnot ((h.holds.mem_iff _).mp (FdSet.slot_mem_members hne))
  greatest := by
    rintro ⟨fd, hfd⟩
    have hmem : getMaxFd m.table ∈ m.table.members := by
      refine (getMaxFd_mem m.table).resolve_left fun hmax => ?_
      have hle := h.le_getMaxFd hfd
      have hnonneg := h.nonneg fd hfd
      omega
    exact ⟨(h.holds.mem_iff _).mp hmem, fun fd' hfd' => h.le_getMaxFd hfd'⟩
  empty := by
    intro hempty
    refine (getMaxFd_mem m.table).resolve_right fun hmem => ?_
    have hheld := (h.holds.mem_iff _).mp hmem
    rw [hempty] at hheld
    exact absurd hheld (Finset.notMem_empty _)
  below := fun fd hfd => Int.lt_add_one_of_le (h.le_getMaxFd hfd)

theorem MonitoringOk.holdsSet_iff {m : Monitoring} (h : MonitoringOk m) :
    HoldsSet m ↔ ∀ fd ∈ m.held, fd < fdSetSize := by
  have hrefresh : (∃ readfds, refreshFdSet m.table = some readfds) ↔
      ∀ fd ∈ m.held, fd < fdSetSize := by
    rw [exists_refreshFdSet]
    constructor
    · exact fun hbounded fd hfd => (hbounded fd ((h.holds.mem_iff fd).mpr hfd)).2
    · intro hbounded fd hfd
      have hheld := (h.holds.mem_iff fd).mp hfd
      exact ⟨h.nonneg fd hheld, hbounded fd hheld⟩
  constructor
  · rintro ⟨-, readfds, hsome, -⟩
    exact hrefresh.mp ⟨readfds, hsome⟩
  · intro hbounded
    obtain ⟨readfds, hsome⟩ := hrefresh.mpr hbounded
    refine ⟨h.holdsTable, readfds, hsome, fun fd => ?_⟩
    rw [refreshFdSet_eq_some.mp hsome]
    exact h.holds.mem_iff fd

/-- From a state in which `refresh_fd_set` gives the set, an operation leads to another one exactly
when it adds no descriptor from `FD_SETSIZE` on. -/
theorem MonitoringOk.holdsSet_step {m m' : Monitoring} (h : MonitoringOk m) (hset : HoldsSet m)
    {op : FdOp} (hstep : m.step op = some m') : HoldsSet m' ↔ AddsBelowSetSize m op := by
  have hbelow := h.holdsSet_iff.mp hset
  rw [(h.step hstep).holdsSet_iff]
  cases op with
  | add fd =>
      obtain ⟨-, -, -, rfl⟩ := Monitoring.step_add hstep
      constructor
      · intro hall fd' hop
        obtain rfl := FdOp.add.inj hop
        exact hall fd (Finset.mem_insert_self fd m.held)
      · intro hadd fd' hfd'
        rcases Finset.mem_insert.mp hfd' with rfl | hfd'
        · exact hadd fd' rfl
        · exact hbelow fd' hfd'
  | remove fd =>
      obtain ⟨-, rfl⟩ := Monitoring.step_remove hstep
      refine iff_of_true (fun fd' hfd' => hbelow fd' (Finset.mem_of_mem_erase hfd')) ?_
      exact fun fd' hop => absurd hop (by simp)

theorem MonitoringOk.keepsSlots {m : Monitoring} (h : MonitoringOk m) (op : FdOp) :
    KeepsSlots m op := by
  intro m' hstep
  cases op with
  | add fd =>
      obtain ⟨-, -, -, rfl⟩ := Monitoring.step_add hstep
      refine ⟨fun fd' hfd' hne i => ?_, fun hremove => ?_⟩
      · have hfree := h.holds.ne_free hfd'
        rcases FdSet.slot_add m.table fd i with hsame | ⟨hslot, hnew⟩
        · exact iff_of_eq (congrArg (· = fd') hsame)
        · exact iff_of_false (fun heq => hne (heq.symm.trans hnew))
            fun heq => hfree (heq.symm.trans hslot)
      · obtain ⟨_, hop, -⟩ := hremove
        exact absurd hop (by simp)
  | remove fd =>
      obtain ⟨hnonneg, rfl⟩ := Monitoring.step_remove hstep
      refine ⟨fun fd' hfd' hne i => ?_, fun hremove => ?_⟩
      · have hfree := h.holds.ne_free hfd'
        have hslot := FdSet.slot_remove h.holds.nodup (show fd ≠ -1 by omega) i
        rw [hslot]
        split_ifs with heq
        · exact iff_of_false (Ne.symm hfree) fun heq' => hne (heq'.symm.trans heq)
        · exact Iff.rfl
      · obtain ⟨fd', hop, habsent⟩ := hremove
        obtain rfl := FdOp.remove.inj hop
        have hslots : fd ∉ m.table.slots := by
          intro hmem
          exact habsent ((h.holds.mem_iff fd).mp (mem_occupied.mpr ⟨hmem, by omega⟩))
        have htable : removeFromMonitoredFdSet m.table fd = m.table :=
          FdSet.ext (List.replace_of_not_mem hslots)
        rw [htable, Finset.erase_eq_of_notMem habsent]

/-- The array of monitored descriptors holds those added and not removed, and no operation moves
another one. `refresh_fd_set` gives this set in every state reached exactly when every descriptor that
is added is below `FD_SETSIZE`. -/
theorem monitored_fd_set_is_set (ops : List FdOp) :
    (Throughout Monitoring.step HoldsSet .init ops ∧ Along Monitoring.step KeepsSlots .init ops ↔
        Along Monitoring.step AddsBelowSetSize .init ops) ∧
      Throughout Monitoring.step HoldsTable .init ops ∧
      Along Monitoring.step KeepsSlots .init ops := by
  have hstep : ∀ m op m', MonitoringOk m → Monitoring.step m op = some m' → MonitoringOk m' :=
    fun m op m' h hst => h.step hst
  have hkeeps : Along Monitoring.step KeepsSlots .init ops := by
    refine (along_congr_of_invariant hstep ?_ monitoringOk_init ops).mpr (along_true _ ops)
    exact fun m op m' h _ => iff_of_true (h.keepsSlots op) trivial
  have hset : Throughout Monitoring.step HoldsSet .init ops ↔
      Along Monitoring.step AddsBelowSetSize .init ops := by
    refine throughout_iff_along MonitoringOk hstep ?_ monitoringOk_init ?_ ops
    · exact fun m op m' h hset hst => h.holdsSet_step hset hst
    · exact monitoringOk_init.holdsSet_iff.mpr (by simp [Monitoring.init])
  refine ⟨⟨fun h => hset.mp h.1, fun h => ⟨hset.mpr h, hkeeps⟩⟩, ?_, hkeeps⟩
  exact throughout_of_invariant hstep (fun m h => h.holdsTable) monitoringOk_init ops

/-- `FD_SET(1024, ...)` writes outside the `fd_set`. -/
theorem monitored_fd_set_past_set_size :
    ¬ (Throughout Monitoring.step HoldsSet .init [.add 1024] ∧
      Along Monitoring.step KeepsSlots .init [.add 1024]) := by
  rintro ⟨hset, -⟩
  have hadd : Monitoring.step .init (.add 1024) =
      some ⟨addToMonitoredFdSet initializeMonitorFdSet 1024, insert 1024 ∅⟩ := by
    simp [Monitoring.step, Monitoring.init]
  obtain ⟨readfds, hrefresh, -⟩ := (hset.2 _ hadd).refreshed
  have hnone : (refreshFdSet (addToMonitoredFdSet initializeMonitorFdSet 1024)).isNone := by
    decide +kernel
  rw [hrefresh] at hnone
  exact absurd hnone (by simp)

end LinuxIPC
