import LinuxIPC.ServiceLoop
import LinuxIPC.StreamCuts
import LinuxIPC.Strtol

/-!
# Sums out of the range of `int` (`unix_domain_sockets`)

A client's ints arrive one in each read, and both servers add each of them to an `int`. An addition
whose exact value is no `int` wraps around, and what is sent to the client is no longer the sum of its
ints. The first ints, however many, must have a sum in the range.
-/

namespace LinuxIPC

open CString Runs NoMultiplexing

def AdditionFits (sum data : BitVec 32) : Prop :=
  intMin ≤ sum.toInt + data.toInt ∧ sum.toInt + data.toInt ≤ intMax

def intChunk (value : BitVec 32) : Chunk := ⟨intBytes value, by rw [length_intBytes]; decide⟩

def intChunks (ints : List NonzeroInt) : List Chunk := ints.map fun value => intChunk value.1

def wholeInts (ints : List NonzeroInt) : List Chunk := intChunks ints ++ [intChunk 0]

def exactTotal (ints : List NonzeroInt) : ℤ := (ints.map fun value => value.1.toInt).sum

def exactMessage (sum : ℤ) : CharArray bufferSize :=
  strncpy bufferSize (ascii ("Result = " ++ toString sum))

def PartialSumsFit (ints : List NonzeroInt) : Prop :=
  ∀ front, front <+: ints → intMin ≤ exactTotal front ∧ exactTotal front ≤ intMax

/-- The operands of the additions `*sum += data` in `handle_service_request`. -/
def NoMultiplexing.additions : List Chunk → BitVec 32 → List (BitVec 32 × BitVec 32)
  | [], _ => []
  | chunk :: chunks, sum =>
    let data := memcpyInt (received chunk)
    if data = 0 then [] else (sum, data) :: additions chunks (sum + data)

structure SingleServerExact (ints : List NonzeroInt) : Prop where
  adds : ∀ p ∈ additions (wholeInts ints) 0, AdditionFits p.1 p.2
  sends : serve (wholeInts ints) = some (exactMessage (exactTotal ints), [])

namespace Multiplexing

/-- If this iteration of the loop over the slots adds an int for the connection `n`, by
`client_result[i] += data`, it does so without overflow. -/
def SlotAdds (n : ℕ) (w : Wakeup) (readfds : List ℤ) (s : Server) (i : Fin maxClients) : Prop :=
  ∀ c chunk, s.connections[n]? = some c → c.Owns (s.monitored.slot i) →
    s.monitored.slot i ∈ readfds → w.data (s.monitored.slot i) = some chunk →
    memcpyInt (received chunk) ≠ 0 →
    AdditionFits (s.clientResult.get i) (memcpyInt (received chunk))

def AddsExactly (n : ℕ) (s : Server) (w : Wakeup) : Prop :=
  s.Serving w → Attempted (serveSlot w (s.monitored.selected w.ready))
    (SlotAdds n w (s.monitored.selected w.ready)) s (List.finRange maxClients)

end Multiplexing

/-- The multiplexed server, whatever it did before, adds without overflow in every run in which the
socket of a new client that is monitored delivers the ints or the first of them, and sends the exact
sum once it delivered all of them with the 0; and there are such runs. -/
structure MultiplexedServerExact (ints : List NonzeroInt) : Prop where
  adds : ∀ (launch : Launch) (us : List Multiplexing.Wakeup) (s : Multiplexing.Server),
    run Multiplexing.serverStep (Multiplexing.Server.init launch) us = some s →
    ∀ (n : ℕ) (fd : ℤ), s.connections[n]? = some ⟨fd, true, [], []⟩ → fd ∈ s.monitored.members →
      ∀ ws, ws.filterMap (Multiplexing.Wakeup.readFrom s.connectionSocket fd) <+: wholeInts ints →
        Attempted Multiplexing.serverStep (Multiplexing.AddsExactly n) s ws
  sends : ∀ (launch : Launch) (us : List Multiplexing.Wakeup) (s : Multiplexing.Server),
    run Multiplexing.serverStep (Multiplexing.Server.init launch) us = some s →
    ∀ (n : ℕ) (fd : ℤ), s.connections[n]? = some ⟨fd, true, [], []⟩ → fd ∈ s.monitored.members →
      (∃ s', run Multiplexing.serverStep s
        ((wholeInts ints).map (Multiplexing.delivering fd)) = some s') ∧
      ∀ ws s', ws.filterMap (Multiplexing.Wakeup.readFrom s.connectionSocket fd) = wholeInts ints →
        run Multiplexing.serverStep s ws = some s' →
        s'.connections[n]? =
          some ⟨fd, false, wholeInts ints, [exactMessage (exactTotal ints)]⟩

theorem AdditionFits.toInt_add {sum data : BitVec 32} (h : AdditionFits sum data) :
    (sum + data).toInt = sum.toInt + data.toInt := by
  obtain ⟨hlo, hhi⟩ := h
  simp only [intMin, intMax] at hlo hhi
  rw [BitVec.toInt_add]
  apply Int.bmod_eq_of_le
  · norm_num
    omega
  · norm_num
    omega

theorem total_append_singleton (front : List NonzeroInt) (value : NonzeroInt) :
    total (front ++ [value]) = total front + value.1 := by
  simp [total]

theorem exactTotal_append_singleton (front : List NonzeroInt) (value : NonzeroInt) :
    exactTotal (front ++ [value]) = exactTotal front + value.1.toInt := by
  simp [exactTotal]

theorem PartialSumsFit.front {front ints : List NonzeroInt} (h : PartialSumsFit ints)
    (hfront : front <+: ints) : PartialSumsFit front :=
  fun first hfirst => h first (hfirst.trans hfront)

/-- While the sums of the first ints are in the range, the sum kept is exact. -/
theorem PartialSumsFit.toInt_total {ints : List NonzeroInt} (h : PartialSumsFit ints) :
    (total ints).toInt = exactTotal ints := by
  induction ints using List.reverseRecOn with
  | nil => rfl
  | append_singleton front value ih =>
      have hfront := ih (h.front (List.prefix_append front [value]))
      have hrange := h _ List.prefix_rfl
      rw [exactTotal_append_singleton, ← hfront] at hrange
      rw [total_append_singleton, AdditionFits.toInt_add hrange, hfront,
        exactTotal_append_singleton]

theorem partialSumsFit_iff {ints : List NonzeroInt} :
    PartialSumsFit ints ↔
      ∀ front value, front ++ [value] <+: ints → AdditionFits (total front) value.1 := by
  constructor
  · intro h front value hinit
    have hfront := h.front ((List.prefix_append front [value]).trans hinit)
    rw [AdditionFits, hfront.toInt_total, ← exactTotal_append_singleton]
    exact h _ hinit
  · intro h
    induction ints using List.reverseRecOn with
    | nil =>
        intro front hfront
        rw [List.prefix_nil.mp hfront]
        decide
    | append_singleton ints value ih =>
        have hints : PartialSumsFit ints := ih fun front value' hinit =>
          h front value' (hinit.trans (List.prefix_append ints [value]))
        intro front hfront
        rcases List.prefix_concat_iff.mp hfront with rfl | hfront
        · have hlast := h ints value List.prefix_rfl
          rwa [AdditionFits, hints.toInt_total, ← exactTotal_append_singleton] at hlast
        · exact hints front hfront

theorem memcpyInt_intChunk (value : BitVec 32) : memcpyInt (received (intChunk value)) = value :=
  memcpyInt_of_append (List.append_nil _).symm

theorem running_intChunks (ints : List NonzeroInt) : Running (intChunks ints) (total ints) := by
  induction ints using List.reverseRecOn with
  | nil => exact Running.nil
  | append_singleton front value ih =>
      have hdata := memcpyInt_intChunk value.1
      have hnext := ih.add (hdata.trans_ne value.2)
      rw [hdata] at hnext
      rw [intChunks, List.map_append, total_append_singleton]
      exact hnext

theorem NoMultiplexing.Running.eq {reads : List Chunk} {sum sum' : BitVec 32}
    (h : Running reads sum) (h' : Running reads sum') : sum = sum' := by
  have hboth := (h [intChunk 0]).symm.trans (h' [intChunk 0])
  simp only [handleServiceRequest, memcpyInt_intChunk, if_true] at hboth
  exact congrArg Prod.fst (Option.some.inj hboth)

theorem serve_wholeInts (ints : List NonzeroInt) :
    serve (wholeInts ints) = some (resultMessage (total ints), []) := by
  have hserve := (running_intChunks ints).finish (memcpyInt_intChunk 0) []
  rwa [List.append_nil] at hserve

theorem mem_additions_wholeInts {ints : List NonzeroInt} {sum : BitVec 32}
    {p : BitVec 32 × BitVec 32} :
    p ∈ additions (wholeInts ints) sum ↔
      ∃ front value, front ++ [value] <+: ints ∧ p = (sum + total front, value.1) := by
  induction ints generalizing sum with
  | nil => simp [wholeInts, intChunks, additions, memcpyInt_intChunk]
  | cons first ints ih =>
      have hadditions : additions (wholeInts (first :: ints)) sum =
          (sum, first.1) :: additions (wholeInts ints) (sum + first.1) := by
        change additions (intChunk first.1 :: wholeInts ints) sum = _
        simp only [additions, memcpyInt_intChunk, if_neg first.2]
      have htotal : ∀ front, sum + first.1 + total front = sum + total (first :: front) := by
        intro front
        rw [total, total, List.map_cons, List.sum_cons, add_assoc]
      rw [hadditions, List.mem_cons, ih]
      constructor
      · rintro (rfl | ⟨front, value, hinit, rfl⟩)
        · exact ⟨[], first, by simp, by simp [total]⟩
        · exact ⟨first :: front, value, List.cons_prefix_cons.mpr ⟨rfl, hinit⟩,
            by rw [htotal]⟩
      · rintro ⟨front, value, hinit, rfl⟩
        cases front with
        | nil =>
            obtain ⟨rfl, -⟩ := List.cons_prefix_cons.mp hinit
            exact Or.inl (by simp [total])
        | cons first' front =>
            obtain ⟨rfl, hrest⟩ := List.cons_prefix_cons.mp hinit
            exact Or.inr ⟨front, value, hrest, by rw [htotal]⟩

theorem additions_fit_iff (ints : List NonzeroInt) :
    (∀ p ∈ additions (wholeInts ints) 0, AdditionFits p.1 p.2) ↔ PartialSumsFit ints := by
  rw [partialSumsFit_iff]
  constructor
  · intro h front value hinit
    have hfits := h _ (mem_additions_wholeInts.mpr ⟨front, value, hinit, rfl⟩)
    rwa [zero_add] at hfits
  · intro h p hp
    obtain ⟨front, value, hinit, rfl⟩ := mem_additions_wholeInts.mp hp
    rw [zero_add]
    exact h front value hinit

theorem PartialSumsFit.resultMessage_total {ints : List NonzeroInt} (h : PartialSumsFit ints) :
    resultMessage (total ints) = exactMessage (exactTotal ints) := by
  rw [← h.toInt_total]
  rfl

theorem singleServerExact_iff (ints : List NonzeroInt) :
    SingleServerExact ints ↔ PartialSumsFit ints := by
  constructor
  · exact fun h => (additions_fit_iff ints).mp h.adds
  · intro h
    refine ⟨(additions_fit_iff ints).mpr h, ?_⟩
    rw [serve_wholeInts, h.resultMessage_total]

namespace Multiplexing

theorem attempted_slotAdds_of_closed {w : Wakeup} {readfds : List ℤ} {s : Server} {n : ℕ}
    {c : Connection} (hget : s.connections[n]? = some c) (hclosed : c.isOpen = false)
    (slots : List (Fin maxClients)) :
    Attempted (serveSlot w readfds) (SlotAdds n w readfds) s slots := by
  refine attempted_of_invariant (fun t => t.connections[n]? = some c) ?_ ?_ hget slots
  · exact fun t i t' ht hserve =>
      (serveSlot_effect hserve).getElem? ht (not_owns_of_closed hclosed _)
  · intro t i ht d chunk hd howns
    obtain rfl := Option.some.inj (ht.symm.trans hd)
    exact absurd howns (not_owns_of_closed hclosed _)

theorem attempted_addsExactly_of_closed {s : Server} {n : ℕ} {c : Connection}
    (hget : s.connections[n]? = some c) (hclosed : c.isOpen = false) (ws : List Wakeup) :
    Attempted serverStep (AddsExactly n) s ws := by
  refine attempted_of_invariant (fun t => t.connections[n]? = some c) ?_ ?_ hget ws
  · exact fun t w t' ht hstep => step_of_closed hstep ht hclosed
  · exact fun t w ht _ => attempted_slotAdds_of_closed ht hclosed _

/-- The only addition for an open connection is made at its slot, to the sum of what was read. -/
theorem ServerOk.attempted_slotAdds {w : Wakeup} {readfds : List ℤ} {s : Server}
    {slots : List (Fin maxClients)} (h : ServerOk s)
    (hclients : ClientsOnly s.connectionSocket readfds) (hnodup : slots.Nodup) {n : ℕ}
    {c : Connection} {i : Fin maxClients} (hget : s.connections[n]? = some c)
    (howns : c.Owns (s.monitored.slot i))
    (hfits : i ∈ slots → c.dataSocket ∈ readfds → ∀ chunk, w.data c.dataSocket = some chunk →
      memcpyInt (received chunk) ≠ 0 →
      ∀ sum, Running c.reads sum → AdditionFits sum (memcpyInt (received chunk))) :
    Attempted (serveSlot w readfds) (SlotAdds n w readfds) s slots := by
  induction slots generalizing s c with
  | nil => trivial
  | cons j slots ih =>
      obtain ⟨hj, hnodup⟩ := List.nodup_cons.mp hnodup
      by_cases hji : j = i
      · subst hji
        refine ⟨fun d chunk hd hdowns hready hread hdata => ?_, fun t hserve => ?_⟩
        · obtain rfl := Option.some.inj (hget.symm.trans hd)
          rw [← howns.2] at hready hread
          have hrunning := (h.running c (List.mem_of_getElem? hget) howns.1).2 j howns
          exact hfits List.mem_cons_self hready chunk hread hdata _ hrunning
        · have heffect := serveSlot_effect hserve
          obtain ⟨d, hd, -, -, hslot⟩ := heffect.own_slot hget howns
          cases hopen : d.isOpen with
          | true =>
              exact ih (h.slot hclients heffect) (heffect.connectionSocket ▸ hclients) hnodup hd
                (hslot hopen) fun hmem => absurd hmem hj
          | false => exact attempted_slotAdds_of_closed hd hopen slots
      · refine ⟨fun d chunk hd hdowns hready hread hdata => ?_, fun t hserve => ?_⟩
        · obtain rfl := Option.some.inj (hget.symm.trans hd)
          exact absurd (h.eq_of_slot (hclients.clientSlot hready) (hdowns.eq howns)) hji
        · have heffect := serveSlot_effect hserve
          obtain ⟨hget', howns'⟩ := h.other_slot hclients heffect hji hget howns
          exact ih (h.slot hclients heffect) (heffect.connectionSocket ▸ hclients) hnodup hget'
            howns' fun hmem => hfits (List.mem_cons_of_mem _ hmem)

/-- If no `read` fails, the addition is made. -/
theorem ServerOk.fits_of_attempted {w : Wakeup} {readfds : List ℤ} {s : Server}
    {slots : List (Fin maxClients)} (h : ServerOk s)
    (hclients : ClientsOnly s.connectionSocket readfds)
    (hreads : ∀ fd, (w.data fd).isSome = true) {n : ℕ} {c : Connection} {i : Fin maxClients}
    (hget : s.connections[n]? = some c) (howns : c.Owns (s.monitored.slot i)) (hi : i ∈ slots)
    (hready : c.dataSocket ∈ readfds) {chunk : Chunk} (hread : w.data c.dataSocket = some chunk)
    (hdata : memcpyInt (received chunk) ≠ 0)
    (hattempted : Attempted (serveSlot w readfds) (SlotAdds n w readfds) s slots) :
    ∃ sum, Running c.reads sum ∧ AdditionFits sum (memcpyInt (received chunk)) := by
  induction slots generalizing s with
  | nil => simp at hi
  | cons j slots ih =>
      obtain ⟨hadds, hrest⟩ := hattempted
      by_cases hji : j = i
      · subst hji
        have hrunning := (h.running c (List.mem_of_getElem? hget) howns.1).2 j howns
        rw [howns.2] at hready hread
        exact ⟨_, hrunning, hadds c chunk hget howns hready hread hdata⟩
      · obtain ⟨t, hserve⟩ := Option.isSome_iff_exists.mp (serveSlot_isSome hreads readfds s j)
        have heffect := serveSlot_effect hserve
        obtain ⟨hget', howns'⟩ := h.other_slot hclients heffect hji hget howns
        exact ih (h.slot hclients heffect) (heffect.connectionSocket ▸ hclients) hget' howns'
          ((List.mem_cons.mp hi).resolve_left (Ne.symm hji)) (hrest t hserve)

/-- What was read with a further int is the beginning of the client's ints. -/
theorem exists_front_of_wholeInts {ints : List NonzeroInt} {reads : List Chunk} {chunk : Chunk}
    (h : reads ++ [chunk] <+: wholeInts ints) (hdata : memcpyInt (received chunk) ≠ 0) :
    ∃ front value, front ++ [value] <+: ints ∧ reads = intChunks front ∧
      chunk = intChunk value.1 := by
  rcases List.prefix_concat_iff.mp h with heq | hinit
  · obtain rfl := List.singleton_inj.mp (List.append_inj_right' heq rfl)
    exact absurd (memcpyInt_intChunk 0) hdata
  · obtain ⟨read, hread, hmap⟩ := List.prefix_map_iff.mp hinit
    obtain ⟨front, last, rfl, hfront, hlast⟩ := List.map_eq_append_iff.mp hmap.symm
    obtain ⟨value, rfl, hvalue⟩ := List.map_eq_singleton_iff.mp hlast
    exact ⟨front, value, hread, hfront.symm, hvalue.symm⟩

theorem ServerOk.attempted_addsExactly {s : Server} (h : ServerOk s) {n : ℕ} {c : Connection}
    (hget : s.connections[n]? = some c) (hopen : c.isOpen = true)
    (hmem : c.dataSocket ∈ s.monitored.members) {ints : List NonzeroInt}
    (hfit : PartialSumsFit ints) {ws : List Wakeup}
    (hinit : c.reads ++ ws.filterMap (Wakeup.readFrom s.connectionSocket c.dataSocket) <+:
      wholeInts ints) :
    Attempted serverStep (AddsExactly n) s ws := by
  induction ws generalizing s c with
  | nil => trivial
  | cons w ws ih =>
      refine ⟨fun hserving => ?_, fun t hstep => ?_⟩
      · obtain ⟨i, hi⟩ := FdSet.exists_slot hmem
        refine h.attempted_slotAdds hserving.clientsOnly (List.nodup_finRange _) hget
          ⟨hopen, hi.symm⟩ ?_
        intro _ hready chunk hread hdata sum hrunning
        have hfrom : w.readFrom s.connectionSocket c.dataSocket = some chunk := by
          rw [h.readFrom_of_clientsOnly hserving.clientsOnly hmem, if_pos hready, hread]
        rw [List.filterMap_cons_some hfrom] at hinit
        have hfirst : c.reads ++ [chunk] <+: wholeInts ints := by
          refine List.IsPrefix.trans ?_ hinit
          exact (List.prefix_append_right_inj _).mpr (List.prefix_append [chunk] _)
        obtain ⟨front, value, hfront, hreads, rfl⟩ := exists_front_of_wholeInts hfirst hdata
        rw [hreads] at hrunning
        rw [hrunning.eq (running_intChunks front), memcpyInt_intChunk]
        exact partialSumsFit_iff.mp hfit front value hfront
      · have ht := serverStep_serverOk s w t h hstep
        obtain ⟨c', hc'⟩ := h.step_reads hstep hget hopen hmem
        cases hopen' : c'.isOpen with
        | true =>
            refine ih ht hc'.get hopen' (hc'.dataSocket ▸ hc'.monitored hopen') ?_
            rw [hc'.append_filterMap hstep ws]
            exact hinit
        | false => exact attempted_addsExactly_of_closed hc'.get hopen' ws

/-- A new client sends the ints of `front` and then `value`. -/
theorem ServerOk.additionFits {s : Server} (h : ServerOk s) {n : ℕ} {fd : ℤ}
    (hget : s.connections[n]? = some ⟨fd, true, [], []⟩) (hmem : fd ∈ s.monitored.members)
    {front : List NonzeroInt} {value : NonzeroInt}
    (hadds : Attempted serverStep (AddsExactly n) s
      ((intChunks (front ++ [value])).map (delivering fd))) :
    AdditionFits (total front) value.1 := by
  obtain ⟨hpos, hsocket, -⟩ := h.dataSocket _ (List.mem_of_getElem? hget) rfl
  obtain ⟨t, hrun⟩ := run_delivering hsocket (intChunks front)
  have ht := run_invariant serverStep_serverOk h hrun
  have hreads := filterMap_delivering hsocket hpos.ne' (intChunks front)
  obtain ⟨hget', hmem'⟩ := h.run_open hget rfl hmem (running_intChunks front).serve_eq_none
    hreads hrun
  rw [intChunks, List.map_append, List.map_append, attempted_append] at hadds
  obtain ⟨hlast, -⟩ := hadds.2 t hrun
  obtain ⟨-, hsocket', -⟩ := ht.dataSocket _ (List.mem_of_getElem? hget') rfl
  have hserving : t.Serving (delivering fd (intChunk value.1)) := by
    constructor
    · exact fun hsel => hsocket' (List.mem_singleton.mp (FdSet.mem_selected.mp hsel).2).symm
    · exact fun hsel => hpos.ne (List.mem_singleton.mp (FdSet.mem_selected.mp hsel).2)
  obtain ⟨i, hi⟩ := FdSet.exists_slot hmem'
  have hready := FdSet.mem_selected.mpr ⟨hmem', List.mem_singleton.mpr rfl⟩
  obtain ⟨sum, hrunning, hfits⟩ := ht.fits_of_attempted hserving.clientsOnly (fun _ => rfl) hget'
    ⟨rfl, hi.symm⟩ (List.mem_finRange i) hready rfl
    ((memcpyInt_intChunk value.1).trans_ne value.2) (hlast hserving)
  rwa [memcpyInt_intChunk, hrunning.eq (running_intChunks front)] at hfits

end Multiplexing

theorem multiplexedServerExact_iff (ints : List NonzeroInt) :
    MultiplexedServerExact ints ↔ PartialSumsFit ints := by
  constructor
  · intro h
    rw [partialSumsFit_iff]
    intro front value hinit
    have hconnect := run_cons_eq_some.mpr ⟨_, Multiplexing.serverStep_first_client, run_nil _⟩
    have hok := run_invariant Multiplexing.serverStep_serverOk
      (Multiplexing.ServerOk.init standardLaunch) hconnect
    have hget : ((Multiplexing.Server.init standardLaunch).accepted 4).connections[0]? =
        some ⟨4, true, [], []⟩ := rfl
    refine hok.additionFits hget (by decide) ?_
    refine h.adds standardLaunch _ _ hconnect 0 4 hget (by decide) _ ?_
    rw [Multiplexing.filterMap_delivering (by decide) (by decide)]
    exact (hinit.map _).trans (List.prefix_append _ _)
  · intro h
    constructor
    · intro launch us s hreach n fd hget hmem ws hws
      have hok := run_invariant Multiplexing.serverStep_serverOk
        (Multiplexing.ServerOk.init launch) hreach
      exact hok.attempted_addsExactly hget rfl hmem h hws
    · have hsums : SingleServerSums (wholeInts ints) (total ints) := serve_wholeInts ints
      rw [← h.resultMessage_total]
      exact hsums.multiplexed

/-- Either server sums the ints of a client exactly if and only if the sums of its first ints, however
many, are in the range of `int`. -/
theorem sums_exact (ints : List NonzeroInt) :
    (SingleServerExact ints ↔ PartialSumsFit ints) ∧
      (MultiplexedServerExact ints ↔ PartialSumsFit ints) :=
  ⟨singleServerExact_iff ints, multiplexedServerExact_iff ints⟩

theorem sums_exact_overflow :
    ¬ SingleServerExact [⟨2147483647, by decide⟩, NonzeroInt.one] ∧
      ¬ MultiplexedServerExact [⟨2147483647, by decide⟩, NonzeroInt.one] := by
  have hoverflow : ¬ PartialSumsFit [⟨2147483647, by decide⟩, NonzeroInt.one] := fun h =>
    absurd (h _ List.prefix_rfl).2 (by decide)
  exact ⟨fun h => hoverflow ((singleServerExact_iff _).mp h),
    fun h => hoverflow ((multiplexedServerExact_iff _).mp h)⟩

end LinuxIPC
