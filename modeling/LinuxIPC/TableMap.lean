import LinuxIPC.OrderedMap
import LinuxIPC.Table

/-!
# The routing table as an ordered map

On records whose text fields end inside their arrays, the routing table is a map from subnets to
routes in the order of insertion. Deletion is exact on all records, but only where there is
something to delete.
-/

namespace LinuxIPC

open CString OrderedMap

abbrev TextRecord := {record : MsgBody // record.Terminated}

namespace MsgBody

def subnet (r : MsgBody) : List UInt8 × UInt16 := (r.destination.text, r.mask)

def route (r : MsgBody) : List UInt8 × List UInt8 := (r.gatewayIp.text, r.oif.text)

end MsgBody

inductive TableCall where
  | insert (amb : Ambient) (record : TextRecord)
  | update (record : TextRecord)
  | containsDstSubnet (destination : List UInt8) (mask : UInt16)

def TableCall.apply (rt : RoutingTable) : TableCall → RoutingTable
  | insert amb record => (routingTableInsert amb rt record.1).1
  | update record => (routingTableUpdate rt record.1).1
  | containsDstSubnet _ _ => rt

def tableAfter (calls : List TableCall) : RoutingTable := calls.foldl TableCall.apply []

def TableCall.change : TableCall → Option (Change (List UInt8 × UInt16) (List UInt8 × List UInt8))
  | insert _ record => some (.insert record.1.subnet record.1.route)
  | update record => some (.update record.1.subnet record.1.route)
  | containsDstSubnet _ _ => none

def changes (calls : List TableCall) : List (Change (List UInt8 × UInt16) (List UInt8 × List UInt8)) :=
  calls.filterMap TableCall.change

/-- What the calls return on the table after `calls`, what an update does to it, and what it
holds. -/
structure IsOrderedMap (calls : List TableCall) (rt : RoutingTable) : Prop where
  contains : ∀ destination mask, routingTableContainsDstSubnet rt destination mask = true ↔
    (cstr destination, mask) ∈ inserted (changes calls)
  insert : ∀ amb record, (routingTableInsert amb rt record).2 = true
  present : ∀ record : TextRecord, record.1.subnet ∈ inserted (changes calls) →
    ∃ front current back, rt = front ++ current :: back ∧ current.subnet = record.1.subnet ∧
      (current.withRoute record.1).route = record.1.route ∧
        routingTableUpdate rt record.1 = (front ++ current.withRoute record.1 :: back, true)
  absent : ∀ record : TextRecord, record.1.subnet ∉ inserted (changes calls) →
    routingTableUpdate rt record.1 = (rt, false)
  entries : rt.map (fun r => (r.subnet, some r.route)) =
    (inserted (changes calls)).map fun subnet => (subnet, latest (changes calls) subnet)

/-- The first record that matches is removed and freed, or there is none and nothing happens. -/
structure DeletesExactly (rt : RoutingTable) (record : MsgBody) : Prop where
  present : ∀ front current back, rt = front ++ current :: back →
    (∀ r ∈ front, recordMatches r record = false) → recordMatches current record = true →
      routingTableDelete rt record = ⟨front ++ back, true, some current⟩
  absent : (∀ r ∈ rt, recordMatches r record = false) →
    routingTableDelete rt record = ⟨rt, false, none⟩

theorem MsgBody.Terminated.recordMatches_iff {r r' : MsgBody} (h : r.Terminated)
    (h' : r'.Terminated) : recordMatches r r' = true ↔ r.subnet = r'.subnet := by
  simp only [recordMatches, Bool.and_eq_true, decide_eq_true_eq, strcmp_eq_zero_iff,
    h.cstr_fromDestination, h'.cstr_fromDestination, MsgBody.subnet, Prod.mk.injEq]

theorem text_strncpy_bytes {n : ℕ} (a : CharArray n) : (strncpy n a.bytes).text = a.text := by
  have hlen : (cstr a.bytes).length ≤ n := (length_cstr_le a.bytes).trans_eq a.size_eq
  rw [text_strncpy, List.take_of_length_le hlen]
  rfl

@[simp] theorem MsgBody.subnet_copy (r : MsgBody) : r.copy.subnet = r.subnet := by
  simp only [subnet, copy, text_strncpy_bytes]

@[simp] theorem MsgBody.route_copy (r : MsgBody) : r.copy.route = r.route := by
  simp only [route, copy, text_strncpy_bytes]

@[simp] theorem MsgBody.subnet_withRoute (current record : MsgBody) :
    (current.withRoute record).subnet = current.subnet := rfl

@[simp] theorem MsgBody.route_withRoute (current record : MsgBody) :
    (current.withRoute record).route = record.route := by
  simp only [route, withRoute, text_strncpy_bytes]

structure Refines (rt : RoutingTable)
    (m : OrderedMap (List UInt8 × UInt16) (List UInt8 × List UInt8)) : Prop where
  entries : rt.map (fun r => (r.subnet, r.route)) = m.entries
  terminated : ∀ r ∈ rt, r.Terminated

variable {rt : RoutingTable} {m : OrderedMap (List UInt8 × UInt16) (List UInt8 × List UInt8)}

theorem Refines.keys (h : Refines rt m) : rt.map MsgBody.subnet = m.keys := by
  rw [OrderedMap.keys, ← h.entries, List.map_map]
  rfl

theorem Refines.contains (h : Refines rt m) (destination : List UInt8) (mask : UInt16) :
    routingTableContainsDstSubnet rt destination mask = true ↔
      (cstr destination, mask) ∈ m.keys := by
  rw [← h.keys, routingTableContainsDstSubnet, List.any_eq_true, List.mem_map]
  apply exists_congr
  intro r
  apply and_congr_right
  intro hr
  rw [Bool.and_eq_true, decide_eq_true_eq, decide_eq_true_eq, strcmp_eq_zero_iff,
    (h.terminated r hr).cstr_fromDestination, MsgBody.subnet, Prod.mk.injEq]
  exact and_congr eq_comm eq_comm

theorem Refines.insert (h : Refines rt m) (amb : Ambient) (record : TextRecord)
    (hnew : record.1.subnet ∉ m.keys) :
    Refines (routingTableInsert amb rt record.1).1 (m.insert record.1.subnet record.1.route) where
  entries := by
    rw [routingTableInsert_eq, entries_insert hnew, List.map_append, h.entries, List.map_singleton,
      MsgBody.subnet_copy, MsgBody.route_copy]
  terminated := by
    intro r hr
    rw [routingTableInsert_eq] at hr
    rcases List.mem_append.mp hr with hr | hr
    · exact h.terminated r hr
    · rw [List.mem_singleton.mp hr]
      exact record.2.copy

/-- The only record with the subnet, and the table an update makes of it. -/
theorem Refines.update_present (h : Refines rt m) (record : TextRecord)
    (hmem : record.1.subnet ∈ m.keys) :
    ∃ front current back, rt = front ++ current :: back ∧ current.subnet = record.1.subnet ∧
      (∀ r ∈ front ++ back, r ∈ rt ∧ r.subnet ≠ record.1.subnet) ∧
        routingTableUpdate rt record.1 = (front ++ current.withRoute record.1 :: back, true) := by
  rw [← h.keys, List.mem_map] at hmem
  obtain ⟨current, hcurrent, hsubnet⟩ := hmem
  have hnodup : (rt.map MsgBody.subnet).Nodup := h.keys ▸ m.nodup
  obtain ⟨front, back, hsplit, hothers⟩ := split_of_nodup hnodup hcurrent
  refine ⟨front, current, back, hsplit, hsubnet, hsubnet ▸ hothers, ?_⟩
  have hfront : ∀ r ∈ front, recordMatches r record.1 = false := by
    intro r hr
    obtain ⟨hrt, hne⟩ := hothers r (List.mem_append_left _ hr)
    rw [← Bool.not_eq_true, (h.terminated r hrt).recordMatches_iff record.2, ← hsubnet]
    exact hne
  have hmatch : recordMatches current record.1 = true :=
    ((h.terminated current hcurrent).recordMatches_iff record.2).mpr hsubnet
  rw [hsplit, routingTableUpdate_split hfront hmatch]

theorem Refines.update_absent (h : Refines rt m) (record : TextRecord)
    (hnot : record.1.subnet ∉ m.keys) : routingTableUpdate rt record.1 = (rt, false) := by
  have hcontains : routingTableContainsDstSubnet rt record.1.fromDestination record.1.mask = false := by
    rw [← Bool.not_eq_true, h.contains, record.2.cstr_fromDestination]
    exact hnot
  simp [routingTableUpdate, hcontains]

theorem Refines.update (h : Refines rt m) (record : TextRecord) :
    Refines (routingTableUpdate rt record.1).1 (m.update record.1.subnet record.1.route) := by
  have hentries : (m.update record.1.subnet record.1.route).entries = rt.map fun r =>
      (r.subnet, if r.subnet = record.1.subnet then record.1.route else r.route) := by
    rw [entries_update, ← h.entries, List.map_map]
    rfl
  by_cases hmem : record.1.subnet ∈ m.keys
  · obtain ⟨front, current, back, hsplit, hsubnet, hothers, hupdate⟩ := h.update_present record hmem
    have hsame : ∀ r ∈ front ++ back, (r.subnet, r.route) =
        (r.subnet, if r.subnet = record.1.subnet then record.1.route else r.route) := by
      intro r hr
      rw [if_neg (hothers r hr).2]
    rw [hupdate]
    constructor
    · rw [hentries, hsplit, List.map_append, List.map_append, List.map_cons, List.map_cons,
        List.map_congr_left fun r hr => hsame r (List.mem_append_left _ hr),
        List.map_congr_left fun r hr => hsame r (List.mem_append_right _ hr), if_pos hsubnet,
        MsgBody.subnet_withRoute, MsgBody.route_withRoute]
    · intro r hr
      rcases List.mem_append.mp hr with hr | hr
      · exact h.terminated r (hothers r (List.mem_append_left _ hr)).1
      · rcases List.mem_cons.mp hr with rfl | hr
        · exact (h.terminated current (by simp [hsplit])).withRoute record.2
        · exact h.terminated r (hothers r (List.mem_append_right _ hr)).1
  · rw [h.update_absent record hmem]
    refine ⟨?_, h.terminated⟩
    rw [hentries]
    apply List.map_congr_left
    intro r hr
    have hne : r.subnet ≠ record.1.subnet := fun heq =>
      hmem (h.keys ▸ heq ▸ List.mem_map_of_mem hr)
    rw [if_neg hne]

theorem tableAfter_snoc (calls : List TableCall) (call : TableCall) :
    tableAfter (calls ++ [call]) = call.apply (tableAfter calls) :=
  List.foldl_concat _ _ call calls

theorem changes_snoc (calls : List TableCall) (call : TableCall) :
    changes (calls ++ [call]) = changes calls ++ call.change.toList := by
  unfold changes
  rw [List.filterMap_append]
  cases hchange : call.change <;> simp [hchange]

theorem tableAfter_refines {calls : List TableCall} (hfresh : (inserted (changes calls)).Nodup) :
    Refines (tableAfter calls) (after (changes calls)) := by
  induction calls using List.reverseRecOn with
  | nil => exact ⟨rfl, by simp [tableAfter]⟩
  | append_singleton calls call ih =>
      rw [changes_snoc] at hfresh ⊢
      rw [tableAfter_snoc]
      cases call with
      | insert amb record =>
          simp only [TableCall.change, Option.toList_some, inserted_snoc_insert] at hfresh ⊢
          have hold := List.Nodup.of_append_left hfresh
          have hnew : record.1.subnet ∉ (after (changes calls)).keys := by
            rw [keys_after hold]
            exact fun hmem => List.disjoint_of_nodup_append hfresh hmem List.mem_cons_self
          rw [after_snoc]
          exact (ih hold).insert amb record hnew
      | update record =>
          simp only [TableCall.change, Option.toList_some, inserted_snoc_update] at hfresh ⊢
          rw [after_snoc]
          exact (ih hfresh).update record
      | containsDstSubnet destination mask =>
          simp only [TableCall.change, Option.toList_none, List.append_nil] at hfresh ⊢
          exact ih hfresh

/-- After any calls that insert no subnet twice, the table is the ordered map of their history. -/
theorem table_is_ordered_map (calls : List TableCall)
    (hfresh : (inserted (changes calls)).Nodup) : IsOrderedMap calls (tableAfter calls) := by
  have h := tableAfter_refines hfresh
  have hkeys := keys_after hfresh
  refine ⟨fun destination mask => ?_, fun amb record => rfl, fun record hmem => ?_,
    fun record hnot => ?_, ?_⟩
  · rw [← hkeys]
    exact h.contains destination mask
  · obtain ⟨front, current, back, hsplit, hsubnet, -, hupdate⟩ :=
      h.update_present record (hkeys ▸ hmem)
    exact ⟨front, current, back, hsplit, hsubnet, MsgBody.route_withRoute _ _, hupdate⟩
  · exact h.update_absent record (hkeys ▸ hnot)
  · rw [← entries_after hfresh, ← h.entries, List.map_map]
    rfl

def textRecord? (destination : String) (mask : UInt16) (gatewayIp oif : String) :
    Option TextRecord :=
  let record : MsgBody := ⟨strncpy ipAddrLen (ascii destination), mask,
    strncpy ipAddrLen (ascii gatewayIp), strncpy oifLen (ascii oif)⟩
  if h : record.destination.Terminated ∧ record.gatewayIp.Terminated ∧ record.oif.Terminated then
    some ⟨record, h.1, h.2.1, h.2.2⟩
  else none

def sampleCalls : List TableCall :=
  ((textRecord? "1.2.3.4" 8 "10.0.0.1" "eth0").map (.insert Ambient.zero)).toList ++
    ((textRecord? "5.6.7.8" 16 "10.0.0.2" "eth1").map .update).toList ++
    ((textRecord? "1.2.3.4" 8 "10.0.0.3" "eth2").map .update).toList ++
    ((textRecord? "5.6.7.8" 16 "10.0.0.4" "eth3").map (.insert Ambient.zero)).toList

theorem table_is_ordered_map_sample :
    sampleCalls.length = 4 ∧ IsOrderedMap sampleCalls (tableAfter sampleCalls) :=
  ⟨by decide +kernel, table_is_ordered_map sampleCalls (by decide +kernel)⟩

/-- Without a match the loop of `routing_table_delete` leaves the last position in `index`. -/
theorem deleteScan_of_absent {record : MsgBody} {rt : RoutingTable}
    (habsent : ∀ r ∈ rt, recordMatches r record = false) (index : ℤ) (last : Option MsgBody) :
    deleteScan record rt index last = (index + rt.length, rt.getLast?.or last) := by
  induction rt generalizing index last with
  | nil => simp [deleteScan]
  | cons node rest ih =>
      have hnode := habsent node List.mem_cons_self
      rw [deleteScan, hnode, if_neg Bool.false_ne_true,
        ih fun r hr => habsent r (List.mem_cons_of_mem _ hr)]
      apply Prod.ext
      · simp only [List.length_cons]
        push_cast
        ring
      · cases rest <;> simp [List.getLast?_cons]

/-- Without a match the last record is deleted. -/
theorem routingTableDelete_of_absent {record : MsgBody} {rt : RoutingTable}
    (habsent : ∀ r ∈ rt, recordMatches r record = false) (hne : rt ≠ []) :
    routingTableDelete rt record = ⟨rt.dropLast, true, rt.getLast?⟩ := by
  have hpos : 0 < rt.length := List.length_pos_iff.mpr hne
  have hindex : (-1 : ℤ) + rt.length = ((rt.length - 1 : ℕ) : ℤ) := by omega
  have hbound : (0 : ℤ) ≤ ((rt.length - 1 : ℕ) : ℤ) ∧ ((rt.length - 1 : ℕ) : ℤ) < rt.length := by
    omega
  have hneg : ((rt.length - 1 : ℕ) : ℤ) ≠ -1 := by omega
  have hget : rt[rt.length - 1]? = some (rt.getLast hne) := by
    rw [← List.getLast?_eq_getElem?, List.getLast?_eq_some_getLast hne]
  simp only [routingTableDelete, deleteScan_of_absent habsent, hindex, if_neg hneg, removeAt,
    if_pos hbound, Int.toNat_natCast, hget, Option.or_none]
  rw [List.eraseIdx_eq_dropLast]
  omega

/-- Deletion is exact when the table is empty or contains the record, and only then. -/
theorem delete_exact (rt : RoutingTable) (record : MsgBody) :
    DeletesExactly rt record ↔ rt = [] ∨
      routingTableContainsDstSubnet rt record.fromDestination record.mask = true := by
  rw [routingTableContainsDstSubnet_eq]
  constructor
  · intro h
    by_contra hcontra
    obtain ⟨hne, hany⟩ := not_or.mp hcontra
    have habsent : ∀ r ∈ rt, recordMatches r record = false := by
      simpa only [List.any_eq_true, not_exists, not_and, Bool.not_eq_true] using hany
    have hdelete := routingTableDelete_of_absent habsent hne
    rw [h.absent habsent] at hdelete
    simp at hdelete
  · intro h
    constructor
    · rintro front current back rfl hfront hcurrent
      exact routingTableDelete_split hfront hcurrent back
    · intro habsent
      rcases h with rfl | hany
      · rfl
      · obtain ⟨r, hr, hmatch⟩ := List.any_eq_true.mp hany
        rw [habsent r hr] at hmatch
        exact absurd hmatch Bool.false_ne_true

/-- A record is deleted for one that the table does not contain. -/
theorem delete_exact_absent :
    ¬ ∀ (rt : RoutingTable) (record : MsgBody), DeletesExactly rt record := by
  intro h
  have hdelete := (h [⟨strncpy ipAddrLen (ascii "1.2.3.4"), 8, strncpy ipAddrLen (ascii "10.0.0.1"),
    strncpy oifLen (ascii "eth0")⟩] ⟨strncpy ipAddrLen (ascii "5.6.7.8"), 8,
      strncpy ipAddrLen (ascii "10.0.0.1"), strncpy oifLen (ascii "eth0")⟩).absent (by decide +kernel)
  have hok := congrArg DeleteResult.ok hdelete
  revert hok
  decide +kernel

end LinuxIPC
