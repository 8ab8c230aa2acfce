import LinuxIPC.Record

/-!
# The routing table (`rtm.c`)

The table is a linked list of records. `insertEnd` and `removeAt` are the two list operations of
the library that the table uses; `malloc` succeeds, and the record it returns holds whatever the
block held before.
-/

namespace LinuxIPC

open CString

abbrev RoutingTable := List MsgBody

def insertEnd (rt : RoutingTable) (record : MsgBody) : RoutingTable × Bool :=
  (rt ++ [record], true)

/-- The list without the item at `index`, and the item, `none` where there is no such item. -/
def removeAt (rt : RoutingTable) (index : ℤ) : RoutingTable × Option MsgBody :=
  if 0 ≤ index ∧ index < rt.length then (rt.eraseIdx index.toNat, rt[index.toNat]?) else (rt, none)

def routingRecordCreate (amb : Ambient) : MsgBody := amb.heap

/-- The test of the loops of `routing_table_update` and `routing_table_delete`. -/
def recordMatches (current record : MsgBody) : Bool :=
  strcmp current.fromDestination record.fromDestination = 0 && current.mask = record.mask

/-- `routing_table_contains_dst_subnet`, given the bytes at the pointer `destination`. -/
def routingTableContainsDstSubnet (rt : RoutingTable) (destination : List UInt8)
    (mask : UInt16) : Bool :=
  rt.any fun record => strcmp destination record.fromDestination = 0 && mask = record.mask

def routingTableInsert (amb : Ambient) (rt : RoutingTable) (record : MsgBody) :
    RoutingTable × Bool :=
  let actualRecord := routingRecordCreate amb
  let actualRecord :=
    { actualRecord with destination := strncpy ipAddrLen record.destination.bytes }
  let actualRecord := { actualRecord with mask := record.mask }
  let actualRecord := { actualRecord with gatewayIp := strncpy ipAddrLen record.gatewayIp.bytes }
  let actualRecord := { actualRecord with oif := strncpy oifLen record.oif.bytes }
  insertEnd rt actualRecord

/-- The loop of `routing_table_update`, `none` when it ends without a match. -/
def updateScan (record : MsgBody) : RoutingTable → Option RoutingTable
  | [] => none
  | current :: rest =>
    if recordMatches current record then
      let current := { current with gatewayIp := strncpy ipAddrLen record.gatewayIp.bytes }
      let current := { current with oif := strncpy oifLen record.oif.bytes }
      some (current :: rest)
    else (updateScan record rest).map (current :: ·)

def routingTableUpdate (rt : RoutingTable) (record : MsgBody) : RoutingTable × Bool :=
  if !routingTableContainsDstSubnet rt record.fromDestination record.mask then (rt, false)
  else
    match updateScan record rt with
    | some rt' => (rt', true)
    | none => (rt, false)

/-- The loop of `routing_table_delete`: the variables `index` and `current` behind it. -/
def deleteScan (record : MsgBody) : RoutingTable → ℤ → Option MsgBody → ℤ × Option MsgBody
  | [], index, current => (index, current)
  | node :: rest, index, _ =>
    if recordMatches node record then (index + 1, some node)
    else deleteScan record rest (index + 1) (some node)

structure DeleteResult where
  table : RoutingTable
  ok : Bool
  freed : Option MsgBody
  deriving DecidableEq, Repr

def routingTableDelete (rt : RoutingTable) (record : MsgBody) : DeleteResult :=
  let (index, current) := deleteScan record rt (-1) none
  if index = -1 then ⟨rt, false, none⟩
  else
    match removeAt rt index with
    | (rt', none) => ⟨rt', false, none⟩
    | (rt', some _) => ⟨rt', true, current⟩

def prepareSynchronizationMessage (opCode : OpCode) (record : MsgBody) : SyncMsg :=
  ⟨opCode, record⟩

def dumpMessages (rt : RoutingTable) : List SyncMsg :=
  rt.map (prepareSynchronizationMessage .create)

def MsgBody.copy (record : MsgBody) : MsgBody where
  destination := strncpy ipAddrLen record.destination.bytes
  mask := record.mask
  gatewayIp := strncpy ipAddrLen record.gatewayIp.bytes
  oif := strncpy oifLen record.oif.bytes

def MsgBody.withRoute (current record : MsgBody) : MsgBody :=
  { current with
    gatewayIp := strncpy ipAddrLen record.gatewayIp.bytes
    oif := strncpy oifLen record.oif.bytes }

theorem MsgBody.Padded.copy_eq {record : MsgBody} (h : record.Padded) : record.copy = record := by
  cases record
  simpa only [MsgBody.copy, MsgBody.mk.injEq, true_and] using ⟨h.destination, h.gatewayIp, h.oif⟩

theorem MsgBody.Padded.withRoute {current : MsgBody} (h : current.Padded) (record : MsgBody) :
    (current.withRoute record).Padded :=
  ⟨h.destination, padded_strncpy _ _, padded_strncpy _ _⟩

theorem MsgBody.Padded.withRoute_eq {current record : MsgBody} (h : record.Padded)
    (hd : current.destination = record.destination) (hm : current.mask = record.mask) :
    current.withRoute record = record := by
  obtain ⟨destination, mask, gatewayIp, oif⟩ := record
  simp only [MsgBody.withRoute, MsgBody.mk.injEq]
  exact ⟨hd, hm, h.gatewayIp, h.oif⟩

theorem MsgBody.Terminated.copy {r : MsgBody} (h : r.Terminated) : r.copy.Terminated where
  destination := (terminated_strncpy_bytes r.destination).mpr h.destination
  gatewayIp := (terminated_strncpy_bytes r.gatewayIp).mpr h.gatewayIp
  oif := (terminated_strncpy_bytes r.oif).mpr h.oif

theorem MsgBody.Terminated.withRoute {current record : MsgBody} (h : current.Terminated)
    (h' : record.Terminated) : (current.withRoute record).Terminated where
  destination := h.destination
  gatewayIp := h'.copy.gatewayIp
  oif := h'.copy.oif

/-- Nothing of the `malloc` block survives in the inserted record. -/
theorem routingTableInsert_eq (amb : Ambient) (rt : RoutingTable) (record : MsgBody) :
    routingTableInsert amb rt record = (rt ++ [record.copy], true) := rfl

theorem recordMatches_comm (r r' : MsgBody) : recordMatches r r' = recordMatches r' r := by
  rw [Bool.eq_iff_iff]
  simp only [recordMatches, Bool.and_eq_true, decide_eq_true_eq, strcmp_eq_zero_iff]
  exact and_congr eq_comm eq_comm

theorem recordMatches_iff {r r' : MsgBody} (h : r.ValidKey) (h' : r'.ValidKey) :
    recordMatches r r' = true ↔ r.destination = r'.destination ∧ r.mask = r'.mask := by
  simp only [recordMatches, Bool.and_eq_true, decide_eq_true_eq]
  exact and_congr_left (h.strcmp_eq_zero_iff h')

theorem routingTableContainsDstSubnet_eq (rt : RoutingTable) (record : MsgBody) :
    routingTableContainsDstSubnet rt record.fromDestination record.mask =
      rt.any (recordMatches · record) := by
  simp only [recordMatches_comm _ record]
  rfl

theorem updateScan_eq (record : MsgBody) (rt : RoutingTable) :
    updateScan record rt = if rt.any (recordMatches · record) then
      some (rt.lookmap fun current =>
        if recordMatches current record then some (current.withRoute record) else none)
      else none := by
  induction rt with
  | nil => rfl
  | cons current rest ih =>
      by_cases hm : recordMatches current record
      · rw [List.lookmap_cons_some _ _ (by rw [if_pos hm])]
        simp [updateScan, hm, MsgBody.withRoute]
      · rw [List.lookmap_cons_none _ _ (by rw [if_neg hm])]
        have hf : recordMatches current record = false := by simpa using hm
        simp only [updateScan, hf, ih, List.any_cons, Bool.false_or, Bool.false_eq_true, if_false]
        split_ifs <;> rfl

theorem routingTableUpdate_eq (rt : RoutingTable) (record : MsgBody) :
    routingTableUpdate rt record =
      (rt.lookmap fun current =>
          if recordMatches current record then some (current.withRoute record) else none,
        rt.any (recordMatches · record)) := by
  simp only [routingTableUpdate, routingTableContainsDstSubnet_eq, updateScan_eq]
  by_cases h : rt.any (recordMatches · record)
  · simp [h]
  · have hnone : ∀ current ∈ rt, (if recordMatches current record then
        some (current.withRoute record) else none) = none := by
      intro current hc
      rw [if_neg]
      exact fun hm => h (List.any_eq_true.mpr ⟨current, hc, hm⟩)
    simp [h, List.lookmap_of_forall_not _ hnone]

theorem mem_routingTableUpdate {rt : RoutingTable} {record r : MsgBody}
    (h : r ∈ (routingTableUpdate rt record).1) :
    r ∈ rt ∨ ∃ current ∈ rt, r = current.withRoute record := by
  rw [routingTableUpdate_eq] at h
  induction rt with
  | nil => simp at h
  | cons current rest ih =>
      by_cases hm : recordMatches current record
      · rw [List.lookmap_cons_some _ _ (by rw [if_pos hm])] at h
        rcases List.mem_cons.mp h with rfl | h
        · exact Or.inr ⟨current, List.mem_cons_self, rfl⟩
        · exact Or.inl (List.mem_cons_of_mem _ h)
      · rw [List.lookmap_cons_none _ _ (by rw [if_neg hm])] at h
        rcases List.mem_cons.mp h with rfl | h
        · exact Or.inl List.mem_cons_self
        · rcases ih h with h | ⟨c, hc, rfl⟩
          · exact Or.inl (List.mem_cons_of_mem _ h)
          · exact Or.inr ⟨c, List.mem_cons_of_mem _ hc, rfl⟩

theorem deleteScan_of_any (record : MsgBody) (rt : RoutingTable) (index : ℤ)
    (last : Option MsgBody) (h : rt.any (recordMatches · record)) :
    deleteScan record rt index last =
      (index + 1 + rt.findIdx (recordMatches · record), rt.find? (recordMatches · record)) := by
  induction rt generalizing index last with
  | nil => simp at h
  | cons node rest ih =>
      by_cases hm : recordMatches node record
      · simp [deleteScan, hm, List.findIdx_cons]
      · have hrest : rest.any (recordMatches · record) := by simpa [hm] using h
        simp only [deleteScan, hm, Bool.false_eq_true, if_false, ih _ _ hrest, List.findIdx_cons,
          List.find?_cons, cond_false]
        congr 1
        push_cast
        ring

theorem routingTableDelete_of_any (rt : RoutingTable) (record : MsgBody)
    (h : rt.any (recordMatches · record)) :
    routingTableDelete rt record =
      ⟨rt.eraseP (recordMatches · record), true, rt.find? (recordMatches · record)⟩ := by
  have hex : ∃ r ∈ rt, recordMatches r record := List.any_eq_true.mp h
  have hlt := List.findIdx_lt_length_of_exists hex
  have hidx := List.findIdx?_eq_some_iff_findIdx_eq.mpr ⟨hlt, rfl⟩
  have hsum : (-1 : ℤ) + 1 + (rt.findIdx (recordMatches · record) : ℕ) =
      (rt.findIdx (recordMatches · record) : ℕ) := by omega
  have hbound : (0 : ℤ) ≤ (rt.findIdx (recordMatches · record) : ℕ) ∧
      ((rt.findIdx (recordMatches · record) : ℕ) : ℤ) < rt.length :=
    ⟨Int.natCast_nonneg _, by exact_mod_cast hlt⟩
  have hne : ((rt.findIdx (recordMatches · record) : ℕ) : ℤ) ≠ -1 := by omega
  simp only [routingTableDelete, deleteScan_of_any record rt _ _ h, hsum, if_neg hne, removeAt,
    if_pos hbound, Int.toNat_natCast, List.getElem?_eq_getElem hlt]
  rw [List.eraseP_eq_eraseIdx, hidx]

theorem lookmap_split {α : Type*} {f : α → Option α} {before after : List α} {x y : α}
    (hbefore : ∀ q ∈ before, f q = none) (hx : f x = some y) :
    (before ++ x :: after).lookmap f = before ++ y :: after := by
  induction before with
  | nil => rw [List.nil_append, List.lookmap_cons_some _ _ hx, List.nil_append]
  | cons q before ih =>
      have hq : f q = none := hbefore q List.mem_cons_self
      rw [List.cons_append, List.lookmap_cons_none _ _ hq,
        ih fun q' hq' => hbefore q' (List.mem_cons_of_mem _ hq'), List.cons_append]

theorem split_of_nodup {α β : Type*} {f : α → β} {l : List α} (hnodup : (l.map f).Nodup) {x : α}
    (hx : x ∈ l) :
    ∃ before after, l = before ++ x :: after ∧ ∀ y ∈ before ++ after, y ∈ l ∧ f y ≠ f x := by
  obtain ⟨before, after, rfl⟩ := List.append_of_mem hx
  rw [List.map_append, List.map_cons] at hnodup
  have hfresh := (List.nodup_middle.mp hnodup).notMem
  rw [← List.map_append] at hfresh
  refine ⟨before, after, rfl, fun y hy => ⟨?_, fun heq => hfresh (heq ▸ List.mem_map_of_mem hy)⟩⟩
  rw [List.mem_append, List.mem_cons]
  exact (List.mem_append.mp hy).imp_right Or.inr

variable {record current : MsgBody} {front : RoutingTable}

theorem routingTableUpdate_split (hfront : ∀ r ∈ front, recordMatches r record = false)
    (hcurrent : recordMatches current record = true) (back : RoutingTable) :
    routingTableUpdate (front ++ current :: back) record =
      (front ++ current.withRoute record :: back, true) := by
  have hany : (front ++ current :: back).any (recordMatches · record) = true := by
    simp [hcurrent]
  rw [routingTableUpdate_eq, hany, lookmap_split _ (by rw [if_pos hcurrent])]
  intro r hr
  rw [hfront r hr]
  exact if_neg Bool.false_ne_true

theorem routingTableDelete_split (hfront : ∀ r ∈ front, recordMatches r record = false)
    (hcurrent : recordMatches current record = true) (back : RoutingTable) :
    routingTableDelete (front ++ current :: back) record = ⟨front ++ back, true, some current⟩ := by
  have hany : (front ++ current :: back).any (recordMatches · record) = true := by
    simp [hcurrent]
  have hnone : front.find? (recordMatches · record) = none := by
    rw [List.find?_eq_none]
    intro r hr
    simp [hfront r hr]
  have hbefore : ∀ r ∈ front, ¬ recordMatches r record = true := by
    intro r hr
    simp [hfront r hr]
  have herase : (current :: back).eraseP (recordMatches · record) = back :=
    List.eraseP_cons_of_pos hcurrent
  have hfind : (current :: back).find? (recordMatches · record) = some current :=
    List.find?_cons_of_pos hcurrent
  rw [routingTableDelete_of_any _ _ hany, List.eraseP_append_right _ hbefore, herase,
    List.find?_append, hnone, hfind, Option.none_or]

end LinuxIPC
