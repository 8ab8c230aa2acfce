import LinuxIPC.Heap
import LinuxIPC.Runs
import LinuxIPC.Table

/-!
# The routing table in memory (`rtm.c`)

The list of the routing table holds pointers to records, each in a block of its own from `malloc`. An
access to a record that is not allocated, or freeing it again, is undefined behaviour: the functions
are then `none`. The first allocation that fails frees the table and ends the process.
-/

namespace LinuxIPC

open CString Runs

structure TableMemory where
  heap : Heap MsgBody
  data : List ℕ

inductive InsertEnd where
  | returned (m : TableMemory) (ok : Bool)
  | exited (heap : Heap MsgBody)

namespace TableMemory

def create : TableMemory := ⟨Heap.empty, []⟩

/-- `insert_end`, which fails where `linked` is false. -/
def insertEnd (linked : Bool) (m : TableMemory) (data : ℕ) : TableMemory × Bool :=
  if linked then ({ m with data := m.data ++ [data] }, true) else (m, false)

/-- `remove_at`: the list without the node at `index`, and the data of that node, the null pointer
where there is none. -/
def removeAt (m : TableMemory) (index : ℤ) : TableMemory × ℕ :=
  if 0 ≤ index ∧ index < m.data.length then
    ({ m with data := m.data.eraseIdx index.toNat }, m.data.getD index.toNat 0)
  else (m, 0)

def routingTableFree (m : TableMemory) : Option (Heap MsgBody) :=
  m.data.foldlM Heap.free m.heap

def routingTableInsert (malloc : Malloc MsgBody) (linked : Bool) (m : TableMemory)
    (record : MsgBody) : Option InsertEnd :=
  let (actualRecord, heap) := m.heap.malloc malloc
  if actualRecord = 0 then ({ m with heap := heap }.routingTableFree).map .exited
  else do
    let heap ← heap.modify actualRecord fun r =>
      { r with destination := strncpy ipAddrLen record.destination.bytes }
    let heap ← heap.modify actualRecord fun r => { r with mask := record.mask }
    let heap ← heap.modify actualRecord fun r =>
      { r with gatewayIp := strncpy ipAddrLen record.gatewayIp.bytes }
    let heap ← heap.modify actualRecord fun r =>
      { r with oif := strncpy oifLen record.oif.bytes }
    let (m, ok) := { m with heap := heap }.insertEnd linked actualRecord
    some (.returned m ok)

def containsScan (heap : Heap MsgBody) (destination : List UInt8) (mask : UInt16) :
    List ℕ → Option Bool
  | [] => some false
  | data :: rest => do
    let record ← heap.load data
    if strcmp destination record.fromDestination = 0 && mask = record.mask then some true
    else containsScan heap destination mask rest

def routingTableContainsDstSubnet (m : TableMemory) (destination : List UInt8) (mask : UInt16) :
    Option Bool :=
  containsScan m.heap destination mask m.data

/-- The loop of `routing_table_update`; its value is `none` when it ends without a match. -/
def updateScan (heap : Heap MsgBody) (record : MsgBody) : List ℕ → Option (Option (Heap MsgBody))
  | [] => some none
  | data :: rest => do
    let current ← heap.load data
    if recordMatches current record then
      let heap ← heap.modify data fun r =>
        { r with gatewayIp := strncpy ipAddrLen record.gatewayIp.bytes }
      let heap ← heap.modify data fun r => { r with oif := strncpy oifLen record.oif.bytes }
      some (some heap)
    else updateScan heap record rest

def routingTableUpdate (m : TableMemory) (record : MsgBody) : Option (TableMemory × Bool) := do
  let contained ← m.routingTableContainsDstSubnet record.fromDestination record.mask
  if !contained then some (m, false)
  else
    match ← updateScan m.heap record m.data with
    | some heap => some ({ m with heap := heap }, true)
    | none => some (m, false)

def deleteScan (heap : Heap MsgBody) (record : MsgBody) : List ℕ → ℤ → ℕ → Option (ℤ × ℕ)
  | [], index, current => some (index, current)
  | data :: rest, index, _ => do
    let node ← heap.load data
    if recordMatches node record then some (index + 1, data)
    else deleteScan heap record rest (index + 1) data

def routingTableDelete (m : TableMemory) (record : MsgBody) : Option (TableMemory × Bool) := do
  let (index, current) ← deleteScan m.heap record m.data (-1) 0
  if index = -1 then some (m, false)
  else
    match m.removeAt index with
    | (m, 0) => some (m, false)
    | (m, _) => do
      let heap ← m.heap.free current
      some ({ m with heap := heap }, true)

def dumpMessages (m : TableMemory) : Option (List SyncMsg) :=
  m.data.mapM fun data => (m.heap.load data).map (prepareSynchronizationMessage .create)

end TableMemory

inductive MemoryCall where
  | insert (record : MsgBody) (malloc : Malloc MsgBody) (linked : Bool)
  | update (record : MsgBody)
  | delete (record : MsgBody)
  | contains (destination : List UInt8) (mask : UInt16)
  | dump

inductive MemoryResult where
  | status (ok : Bool)
  | found (contained : Bool)
  | messages (msgs : List SyncMsg)
  deriving DecidableEq, Repr

/-- A process between two calls, with the results of the calls made; or its blocks at its exit. -/
inductive TableProcess where
  | running (m : TableMemory) (results : List MemoryResult)
  | exited (heap : Heap MsgBody)

/-- A call, `none` when its behaviour is undefined. -/
def TableMemory.call (m : TableMemory) (results : List MemoryResult) :
    MemoryCall → Option TableProcess
  | .insert record malloc linked =>
    (m.routingTableInsert malloc linked record).map fun
      | .returned m ok => .running m (results ++ [.status ok])
      | .exited heap => .exited heap
  | .update record =>
    (m.routingTableUpdate record).map fun (m, ok) => .running m (results ++ [.status ok])
  | .delete record =>
    (m.routingTableDelete record).map fun (m, ok) => .running m (results ++ [.status ok])
  | .contains destination mask =>
    (m.routingTableContainsDstSubnet destination mask).map fun contained =>
      .running m (results ++ [.found contained])
  | .dump => m.dumpMessages.map fun msgs => .running m (results ++ [.messages msgs])

def processStep : TableProcess → MemoryCall → Option TableProcess
  | .running m results, call => m.call results call
  | .exited heap, _ => some (.exited heap)

def listCall (rt : RoutingTable) : MemoryCall → RoutingTable × MemoryResult
  | .insert record malloc linked =>
    if linked then
      let (rt, ok) := routingTableInsert { Ambient.zero with heap := malloc.contents } rt record
      (rt, .status ok)
    else (rt, .status false)
  | .update record => let (rt, ok) := routingTableUpdate rt record; (rt, .status ok)
  | .delete record => let r := routingTableDelete rt record; (r.table, .status r.ok)
  | .contains destination mask => (rt, .found (routingTableContainsDstSubnet rt destination mask))
  | .dump => (rt, .messages (dumpMessages rt))

structure TableHistory where
  rt : RoutingTable
  results : List MemoryResult
  lost : ℕ

def TableHistory.after (t : TableHistory) (call : MemoryCall) : TableHistory where
  rt := (listCall t.rt call).1
  results := t.results ++ [(listCall t.rt call).2]
  lost := t.lost + match call with | .insert _ _ false => 1 | _ => 0

def tableHistory (calls : List MemoryCall) : TableHistory := calls.foldl .after ⟨[], [], 0⟩

theorem tableHistory_append (calls : List MemoryCall) (call : MemoryCall) :
    tableHistory (calls ++ [call]) = (tableHistory calls).after call := by
  rw [tableHistory, List.foldl_append]
  rfl

/-- The records of the table are in the blocks `l`, in the order of the nodes, and the blocks `rest`
are allocated beside them. -/
structure TableMemory.Holds (m : TableMemory) (l rest : List (ℕ × MsgBody)) : Prop where
  data : m.data = l.map Prod.fst
  owns : m.heap.Owns (l ++ rest)

/-- The call is an insertion for which `malloc` returns the null pointer; the table is then freed. -/
def TableProcess.OutOfMemory (s : TableProcess) (call : MemoryCall) (heap : Heap MsgBody) : Prop :=
  ∃ m results record malloc linked, s = .running m results ∧ call = .insert record malloc linked ∧
    malloc.address m.heap = 0 ∧ m.routingTableFree = some heap

/-- What is true of a process after some calls. While it runs, the records it reads are the list of
records, its results are those of the list, and to free the table leaves nothing allocated but the
records that were not linked. It has exited only if there was no memory left for an insertion, and
then the same is left. -/
def TableProcess.Accounts (calls : List MemoryCall) : TableProcess → Prop
  | .running m results =>
    m.data.map m.heap.load = (tableHistory calls).rt.map some ∧
      results = (tableHistory calls).results ∧
        ∃ heap, m.routingTableFree = some heap ∧ heap.size = (tableHistory calls).lost
  | .exited heap => ∃ made call s, made ++ [call] <+: calls ∧
      run processStep (.running .create []) made = some s ∧ s.OutOfMemory call heap ∧
        heap.size = (tableHistory made).lost

namespace TableMemory

variable {heap : Heap MsgBody} {record : MsgBody} {l rest : List (ℕ × MsgBody)} {m : TableMemory}

theorem containsScan_eq (hload : ∀ b ∈ l, heap.load b.1 = some b.2) (destination : List UInt8)
    (mask : UInt16) :
    containsScan heap destination mask (l.map Prod.fst) =
      some (LinuxIPC.routingTableContainsDstSubnet (l.map Prod.snd) destination mask) := by
  induction l with
  | nil => rfl
  | cons b l ih =>
      have hrest := ih fun b' hb' => hload b' (List.mem_cons_of_mem _ hb')
      simp only [List.map_cons, containsScan, hload b List.mem_cons_self, Option.bind_eq_bind,
        Option.bind_some, hrest, LinuxIPC.routingTableContainsDstSubnet, List.any_cons]
      split_ifs with hmatch
      · rw [hmatch, Bool.true_or]
      · rw [Bool.eq_false_of_not_eq_true hmatch, Bool.false_or]

theorem updateScan_of_front (hload : ∀ b ∈ l, heap.load b.1 = some b.2)
    (hfront : ∀ b ∈ l, recordMatches b.2 record = false) (data : List ℕ) :
    updateScan heap record (l.map Prod.fst ++ data) = updateScan heap record data := by
  induction l with
  | nil => rfl
  | cons b l ih =>
      have hrest := ih (fun b' hb' => hload b' (List.mem_cons_of_mem _ hb'))
        fun b' hb' => hfront b' (List.mem_cons_of_mem _ hb')
      simp only [List.map_cons, List.cons_append, updateScan, hload b List.mem_cons_self,
        hfront b List.mem_cons_self, Option.bind_eq_bind, Option.bind_some, Bool.false_eq_true,
        if_false, hrest]

/-- The loop of `routing_table_delete` stops at the same node as over the list of records. -/
theorem deleteScan_stops (record : MsgBody) (hne : l ≠ [])
    (hload : ∀ b ∈ l, heap.load b.1 = some b.2) (index : ℤ) (current : ℕ) (last : Option MsgBody) :
    ∃ front b back, l = front ++ b :: back ∧
      deleteScan heap record (l.map Prod.fst) index current =
        some (index + 1 + front.length, b.1) ∧
      LinuxIPC.deleteScan record (l.map Prod.snd) index last =
        (index + 1 + front.length, some b.2) := by
  induction l generalizing index current last with
  | nil => exact absurd rfl hne
  | cons b l ih =>
      have hb := hload b List.mem_cons_self
      by_cases hstop : recordMatches b.2 record = true ∨ l = []
      · refine ⟨[], b, l, rfl, ?_⟩
        rcases hstop with hmatch | rfl
        · simp [deleteScan, LinuxIPC.deleteScan, hb, hmatch]
        · simp [deleteScan, LinuxIPC.deleteScan, hb]
      · obtain ⟨hmatch, hl⟩ := not_or.mp hstop
        obtain ⟨front, b', back, hsplit, hmemory, hlist⟩ := ih hl
          (fun b' hb' => hload b' (List.mem_cons_of_mem _ hb')) (index + 1) b.1 (some b.2)
        have hlength : index + 1 + 1 + (front.length : ℤ) =
            index + 1 + ((b :: front).length : ℤ) := by
          push_cast [List.length_cons]
          ring
        refine ⟨b :: front, b', back, by rw [hsplit, List.cons_append], ?_, ?_⟩
        · rw [← hlength, ← hmemory]
          simp [deleteScan, hb, hmatch]
        · rw [← hlength, ← hlist]
          simp [LinuxIPC.deleteScan, hmatch]

theorem Holds.load (h : m.Holds l rest) : ∀ b ∈ l, m.heap.load b.1 = some b.2 :=
  fun b hb => h.owns.load b (List.mem_append_left _ hb)

theorem Holds.free (h : m.Holds l rest) :
    ∃ heap, m.routingTableFree = some heap ∧ heap.Owns rest := by
  rw [routingTableFree, h.data]
  exact h.owns.freeAll

theorem Holds.contains (h : m.Holds l rest) (destination : List UInt8) (mask : UInt16) :
    m.routingTableContainsDstSubnet destination mask =
      some (LinuxIPC.routingTableContainsDstSubnet (l.map Prod.snd) destination mask) := by
  rw [routingTableContainsDstSubnet, h.data]
  exact containsScan_eq h.load destination mask

theorem Holds.dump (h : m.Holds l rest) :
    m.dumpMessages = some (LinuxIPC.dumpMessages (l.map Prod.snd)) := by
  have hload := h.load
  rw [dumpMessages, h.data, LinuxIPC.dumpMessages]
  clear h
  induction l with
  | nil => rfl
  | cons b l ih =>
      have hrest := ih fun b' hb' => hload b' (List.mem_cons_of_mem _ hb')
      simp [hload b List.mem_cons_self, hrest]

/-- A record inserted is in a new block, which nothing refers to if the list could not take it. -/
theorem Holds.insert (h : m.Holds l rest) (malloc : Malloc MsgBody) (linked : Bool)
    (record : MsgBody) (hne : malloc.address m.heap ≠ 0) :
    ∃ m', m.routingTableInsert malloc linked record = some (.returned m' linked) ∧
      if linked then m'.Holds (l ++ [(malloc.address m.heap, record.copy)]) rest
      else m'.Holds l ((malloc.address m.heap, record.copy) :: rest) := by
  have ho₀ := h.owns.malloc malloc hne
  have haddress : (m.heap.malloc malloc).1 = malloc.address m.heap := rfl
  obtain ⟨h₁, hdestination, ho₁⟩ := ho₀.modify_head fun r =>
    { r with destination := strncpy ipAddrLen record.destination.bytes }
  obtain ⟨h₂, hmask, ho₂⟩ := ho₁.modify_head fun r =>
    { r with mask := record.mask }
  obtain ⟨h₃, hgateway, ho₃⟩ := ho₂.modify_head fun r =>
    { r with gatewayIp := strncpy ipAddrLen record.gatewayIp.bytes }
  obtain ⟨h₄, hoif, ho₄⟩ := ho₃.modify_head fun r =>
    { r with oif := strncpy oifLen record.oif.bytes }
  have howns : h₄.Owns ((malloc.address m.heap, record.copy) :: (l ++ rest)) := ho₄
  refine ⟨({ m with heap := h₄ }.insertEnd linked (malloc.address m.heap)).1, ?_, ?_⟩
  · simp only [routingTableInsert, haddress, if_neg hne, hdestination, hmask, hgateway, hoif,
      Option.bind_eq_bind, Option.bind_some]
    cases linked <;> rfl
  · cases linked with
    | true =>
        refine ⟨?_, howns.perm ?_⟩
        · simp [insertEnd, h.data]
        · rw [List.append_assoc]
          exact List.perm_middle.symm
    | false => exact ⟨h.data, howns.perm List.perm_middle.symm⟩

theorem Holds.insert_null (h : m.Holds l rest) (malloc : Malloc MsgBody) (linked : Bool)
    (record : MsgBody) (hnull : malloc.address m.heap = 0) :
    ∃ heap, m.routingTableInsert malloc linked record = some (.exited heap) ∧
      m.routingTableFree = some heap ∧ heap.Owns rest := by
  obtain ⟨heap, hfree, ho⟩ := h.free
  refine ⟨heap, ?_, hfree, ho⟩
  have hmalloc : m.heap.malloc malloc = (0, m.heap) := by
    rw [Heap.malloc, hnull, Heap.put_null]
  simp only [routingTableInsert, hmalloc, if_true, hfree, Option.map_some]

theorem Holds.update (h : m.Holds l rest) (record : MsgBody) :
    ∃ m' l', m.routingTableUpdate record =
        some (m', (LinuxIPC.routingTableUpdate (l.map Prod.snd) record).2) ∧
      l'.map Prod.snd = (LinuxIPC.routingTableUpdate (l.map Prod.snd) record).1 ∧
        m'.Holds l' rest := by
  have hcontains := h.contains record.fromDestination record.mask
  rw [routingTableContainsDstSubnet_eq] at hcontains
  cases hfind : l.find? fun b => recordMatches b.2 record with
  | none =>
      rw [List.find?_eq_none] at hfind
      have hany : (l.map Prod.snd).any (recordMatches · record) = false := by
        rw [List.any_eq_false]
        intro r hr
        obtain ⟨b, hb, rfl⟩ := List.mem_map.mp hr
        exact hfind b hb
      refine ⟨m, l, ?_, ?_, h⟩
      · simp only [routingTableUpdate, LinuxIPC.routingTableUpdate,
          routingTableContainsDstSubnet_eq, hcontains, hany]
        rfl
      · simp only [LinuxIPC.routingTableUpdate, routingTableContainsDstSubnet_eq, hany]
        rfl
  | some b =>
      obtain ⟨hmatch, front, back, rfl, hfront⟩ := List.find?_eq_some_iff_append.mp hfind
      have hbefore : ∀ b' ∈ front, recordMatches b'.2 record = false := by simpa using hfront
      have hrecords : ∀ r ∈ front.map Prod.snd, recordMatches r record = false := by
        simpa using fun r p hr => hbefore (p, r) hr
      have hlist := routingTableUpdate_split hrecords hmatch (back.map Prod.snd)
      rw [← List.map_cons, ← List.map_append] at hlist
      have howns : m.heap.Owns (front ++ b :: (back ++ rest)) := by simpa using h.owns
      obtain ⟨h₁, hgateway, ho₁⟩ := howns.modify fun r =>
        { r with gatewayIp := strncpy ipAddrLen record.gatewayIp.bytes }
      obtain ⟨h₂, hoif, ho₂⟩ := ho₁.modify fun r =>
        { r with oif := strncpy oifLen record.oif.bytes }
      have hscan : updateScan m.heap record ((front ++ b :: back).map Prod.fst) =
          some (some h₂) := by
        rw [List.map_append, updateScan_of_front (fun b' hb' => h.load b' (by simp [hb'])) hbefore]
        simp only [List.map_cons, updateScan, howns.load_middle, hmatch, hgateway, hoif,
          Option.bind_eq_bind, Option.bind_some, if_true]
      have hany : ((front ++ b :: back).map Prod.snd).any (recordMatches · record) = true := by
        simp [hmatch]
      rw [hlist]
      refine ⟨{ m with heap := h₂ }, front ++ (b.1, b.2.withRoute record) :: back, ?_, by simp, ?_⟩
      · simp only [routingTableUpdate, hcontains, hany, h.data, hscan, Option.bind_eq_bind,
          Option.bind_some]
        rfl
      · refine ⟨by simp [h.data], ?_⟩
        rw [List.append_assoc, List.cons_append]
        exact ho₂

theorem removeAt_middle {front back : List ℕ} {p : ℕ} (hdata : m.data = front ++ p :: back) :
    m.removeAt front.length = ({ m with data := front ++ back }, p) := by
  have hlt : (front.length : ℤ) < m.data.length := by
    rw [hdata]
    simp
  rw [removeAt, if_pos ⟨Int.natCast_nonneg _, hlt⟩, hdata, Int.toNat_natCast]
  simp [List.eraseIdx_append_of_length_le]

/-- The block freed is that of the node removed. -/
theorem Holds.delete (h : m.Holds l rest) (record : MsgBody) :
    ∃ m' l', m.routingTableDelete record =
        some (m', (LinuxIPC.routingTableDelete (l.map Prod.snd) record).ok) ∧
      l'.map Prod.snd = (LinuxIPC.routingTableDelete (l.map Prod.snd) record).table ∧
        m'.Holds l' rest := by
  by_cases hne : l = []
  · subst hne
    refine ⟨m, [], ?_, rfl, h⟩
    rw [routingTableDelete, h.data]
    rfl
  · obtain ⟨front, b, back, rfl, hmemory, hlist⟩ :=
      deleteScan_stops record hne h.load (-1) 0 none
    have hindex : (-1 : ℤ) + 1 + front.length = front.length := by ring
    rw [hindex] at hmemory hlist
    have hpos : (front.length : ℤ) ≠ -1 := by omega
    have howns : m.heap.Owns (front ++ b :: (back ++ rest)) := by simpa using h.owns
    obtain ⟨heap, hfree, ho⟩ := howns.free
    have hdata : m.data = front.map Prod.fst ++ b.1 :: back.map Prod.fst := by simp [h.data]
    have hremove := removeAt_middle hdata
    rw [List.length_map] at hremove
    have hlistRemove : LinuxIPC.removeAt ((front ++ b :: back).map Prod.snd) front.length =
        ((front ++ back).map Prod.snd, some b.2) := by
      have hlt : (front.length : ℤ) < ((front ++ b :: back).map Prod.snd).length := by
        simp
      rw [LinuxIPC.removeAt, if_pos ⟨Int.natCast_nonneg _, hlt⟩, Int.toNat_natCast]
      simp [List.eraseIdx_append_of_length_le]
    have hresult : LinuxIPC.routingTableDelete ((front ++ b :: back).map Prod.snd) record =
        ⟨(front ++ back).map Prod.snd, true, some b.2⟩ := by
      simp only [LinuxIPC.routingTableDelete, hlist, if_neg hpos, hlistRemove]
    rw [hresult]
    refine ⟨⟨heap, front.map Prod.fst ++ back.map Prod.fst⟩, front ++ back, ?_, rfl, ?_⟩
    · simp only [routingTableDelete, h.data, hmemory, Option.bind_eq_bind, Option.bind_some,
        if_neg hpos, hremove]
      split
      · rename_i hzero
        exact absurd (Prod.mk.inj hzero).2 howns.ne_null
      · rename_i heq
        obtain ⟨rfl, -⟩ := Prod.mk.inj heq
        simp [hfree]
    · refine ⟨by simp, ?_⟩
      rw [List.append_assoc]
      exact ho

end TableMemory

def TableProcess.Holds (t : TableHistory) : TableProcess → Prop
  | .running m results => ∃ l rest, m.Holds l rest ∧ l.map Prod.snd = t.rt ∧ results = t.results ∧
      rest.length = t.lost
  | .exited _ => False

/-- A call returns as it does over the list of records, or `malloc` fails and the process exits with
nothing allocated but the records lost. -/
theorem TableProcess.Holds.step {t : TableHistory} {s : TableProcess} (h : s.Holds t)
    (call : MemoryCall) :
    ∃ s', processStep s call = some s' ∧
      (s'.Holds (t.after call) ∨
        ∃ heap, s' = .exited heap ∧ s.OutOfMemory call heap ∧ heap.size = t.lost) := by
  cases s with
  | exited heap => exact h.elim
  | running m results =>
      obtain ⟨l, rest, hm, hrt, rfl, hlost⟩ := h
      cases call with
      | insert record malloc linked =>
          by_cases hnull : malloc.address m.heap = 0
          · obtain ⟨heap, hinsert, hfree, ho⟩ := hm.insert_null malloc linked record hnull
            refine ⟨.exited heap, by simp [processStep, TableMemory.call, hinsert],
              Or.inr ⟨heap, rfl, ⟨m, _, record, malloc, linked, rfl, rfl, hnull, hfree⟩, ?_⟩⟩
            rw [ho.size, hlost]
          · obtain ⟨m', hinsert, hm'⟩ := hm.insert malloc linked record hnull
            refine ⟨.running m' (t.results ++ [.status linked]),
              by simp [processStep, TableMemory.call, hinsert], Or.inl ?_⟩
            cases linked with
            | true => exact ⟨_, _, hm', by simp [TableHistory.after, listCall, hrt,
                routingTableInsert_eq], rfl, hlost⟩
            | false => exact ⟨_, _, hm', hrt, rfl, by simp [TableHistory.after, hlost]⟩
      | update record =>
          obtain ⟨m', l', hupdate, hl', hm'⟩ := hm.update record
          rw [hrt] at hupdate hl'
          refine ⟨_, by rw [processStep, TableMemory.call, hupdate, Option.map_some], Or.inl ?_⟩
          exact ⟨l', rest, hm', hl', rfl, hlost⟩
      | delete record =>
          obtain ⟨m', l', hdelete, hl', hm'⟩ := hm.delete record
          rw [hrt] at hdelete hl'
          refine ⟨_, by rw [processStep, TableMemory.call, hdelete, Option.map_some], Or.inl ?_⟩
          exact ⟨l', rest, hm', hl', rfl, hlost⟩
      | contains destination mask =>
          have hcontains := hm.contains destination mask
          rw [hrt] at hcontains
          refine ⟨_, by rw [processStep, TableMemory.call, hcontains, Option.map_some], Or.inl ?_⟩
          exact ⟨l, rest, hm, hrt, rfl, hlost⟩
      | dump =>
          have hdump := hm.dump
          rw [hrt] at hdump
          refine ⟨_, by rw [processStep, TableMemory.call, hdump, Option.map_some], Or.inl ?_⟩
          exact ⟨l, rest, hm, hrt, rfl, hlost⟩

theorem TableProcess.Holds.accounts {calls : List MemoryCall} {s : TableProcess}
    (h : s.Holds (tableHistory calls)) : s.Accounts calls := by
  cases s with
  | exited heap => exact h.elim
  | running m results =>
      obtain ⟨l, rest, hm, hrt, hresults, hlost⟩ := h
      obtain ⟨heap, hfree, ho⟩ := hm.free
      refine ⟨?_, hresults, heap, hfree, by rw [ho.size, hlost]⟩
      rw [← hrt, hm.data, List.map_map, List.map_map]
      exact List.map_congr_left hm.load

theorem run_exited (heap : Heap MsgBody) (calls : List MemoryCall) :
    run processStep (.exited heap) calls = some (.exited heap) := by
  induction calls with
  | nil => rfl
  | cons call calls ih => exact ih

theorem TableProcess.Holds.run {made : List MemoryCall} {s : TableProcess}
    (h : s.Holds (tableHistory made))
    (hmade : Runs.run processStep (.running .create []) made = some s) (calls : List MemoryCall) :
    ∃ s', Runs.run processStep s calls = some s' ∧ s'.Accounts (made ++ calls) := by
  induction calls generalizing made s with
  | nil => exact ⟨s, rfl, by simpa using h.accounts⟩
  | cons call calls ih =>
      have hcalls : made ++ call :: calls = made ++ [call] ++ calls := by simp
      obtain ⟨s₁, hstep, hs₁ | ⟨heap, rfl, hmemory, hsize⟩⟩ := h.step call
      · rw [← tableHistory_append] at hs₁
        have hmade₁ : Runs.run processStep (.running .create []) (made ++ [call]) = some s₁ := by
          rw [run_append, hmade]
          exact run_cons_eq_some.mpr ⟨s₁, hstep, rfl⟩
        obtain ⟨s', hrun, haccounts⟩ := ih hs₁ hmade₁
        exact ⟨s', run_cons_eq_some.mpr ⟨s₁, hstep, hrun⟩, hcalls ▸ haccounts⟩
      · refine ⟨_, run_cons_eq_some.mpr ⟨_, hstep, run_exited heap calls⟩, ?_⟩
        exact ⟨made, call, s, hcalls ▸ List.prefix_append _ _, hmade, hmemory, hsize⟩

/-- No call of the functions of the routing table has undefined behaviour, whatever addresses and
contents `malloc` returns and whenever it fails: the table in memory is the list of records, no
record is lost but those that the list could not take, and the process exits only when `malloc`
fails. -/
theorem table_memory_accounted (calls : List MemoryCall) :
    ∃ s, run processStep (.running .create []) calls = some s ∧ s.Accounts calls := by
  have hcreate : (TableProcess.running .create []).Holds (tableHistory []) :=
    ⟨[], [], ⟨rfl, Heap.owns_empty⟩, rfl, rfl, rfl⟩
  exact hcreate.run rfl calls

end LinuxIPC
