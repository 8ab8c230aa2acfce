import LinuxIPC.SocketReads

/-!
# Cuts of a client's stream

A client writes its ints and a 0, four bytes each. The stream socket may deliver these bytes in
pieces of any sizes, while both servers take every piece for one int: they look at its first four
bytes alone. So a server that is to sum whatever ints the client has must be delivered them one by
one. Only the last int may arrive together with a part of the 0, because the rest of the 0 still
counts as a 0.
-/

namespace LinuxIPC

open CString Runs NoMultiplexing

abbrev NonzeroInt := {value : BitVec 32 // value ≠ 0}

def NonzeroInt.one : NonzeroInt := ⟨1, by decide⟩

def stream : List NonzeroInt → List UInt8
  | [] => intBytes 0
  | value :: ints => intBytes value.1 ++ stream ints

def total (ints : List NonzeroInt) : BitVec 32 := (ints.map Subtype.val).sum

abbrev ReadSize := {size : ℕ // 0 < size ∧ size ≤ bufferSize}

def deliver : List ReadSize → List UInt8 → List Chunk
  | [], _ => []
  | size :: sizes, bytes =>
    ⟨bytes.take size.1, (List.length_take_le _ _).trans size.2.2⟩ ::
      deliver sizes (bytes.drop size.1)

/-- The sizes of the pieces in which the bytes of `n` ints and a 0 are delivered. -/
structure Cut (n : ℕ) where
  sizes : List ReadSize
  sum_eq : (sizes.map Subtype.val).sum = 4 * (n + 1)

def SingleServerSums (chunks : List Chunk) (sum : BitVec 32) : Prop :=
  serve chunks = some (resultMessage sum, [])

/-- The multiplexed server reads everything and sends the sum, in every run in which the socket of a
new client that is monitored delivers the chunks, and there are such runs. -/
def MultiplexedServerSums (chunks : List Chunk) (sum : BitVec 32) : Prop :=
  ∀ (launch : Launch) (us : List Multiplexing.Wakeup) (s : Multiplexing.Server),
    run Multiplexing.serverStep (Multiplexing.Server.init launch) us = some s →
    ∀ (n : ℕ) (fd : ℤ), s.connections[n]? = some ⟨fd, true, [], []⟩ →
      fd ∈ s.monitored.members →
      (∃ s', run Multiplexing.serverStep s (chunks.map (Multiplexing.delivering fd)) = some s') ∧
      ∀ ws s', ws.filterMap (Multiplexing.Wakeup.readFrom s.connectionSocket fd) = chunks →
        run Multiplexing.serverStep s ws = some s' →
        s'.connections[n]? = some ⟨fd, false, chunks, [resultMessage sum]⟩

/-- The reads deliver one int each. The last int may come with a part of the 0. -/
inductive OneIntEach : ℕ → List ℕ → Prop where
  | zero : OneIntEach 0 [4]
  | ahead (k : ℕ) (hlo : 4 < k) (hhi : k < 8) : OneIntEach 1 [k, 8 - k]
  | int {n : ℕ} {sizes : List ℕ} (h : OneIntEach n sizes) : OneIntEach (n + 1) (4 :: sizes)

theorem oneIntEach_zero_iff {sizes : List ℕ} : OneIntEach 0 sizes ↔ sizes = [4] := by
  constructor
  · intro h
    cases h with
    | zero => rfl
  · rintro rfl
    exact OneIntEach.zero

theorem oneIntEach_succ_iff {n k : ℕ} {sizes : List ℕ} :
    OneIntEach (n + 1) (k :: sizes) ↔
      k = 4 ∧ OneIntEach n sizes ∨ n = 0 ∧ 4 < k ∧ k < 8 ∧ sizes = [8 - k] := by
  constructor
  · intro h
    cases h with
    | ahead _ hlo hhi => exact Or.inr ⟨rfl, hlo, hhi, rfl⟩
    | int h => exact Or.inl ⟨rfl, h⟩
  · rintro (⟨rfl, h⟩ | ⟨rfl, hlo, hhi, rfl⟩)
    · exact OneIntEach.int h
    · exact OneIntEach.ahead k hlo hhi

theorem handleServiceRequest_add (chunks : List Chunk) (value sum : BitVec 32) :
    handleServiceRequest chunks (value + sum) =
      (handleServiceRequest chunks sum).map fun p => (value + p.1, p.2) := by
  induction chunks generalizing sum with
  | nil => rfl
  | cons chunk chunks ih =>
      simp only [handleServiceRequest]
      split_ifs
      · rfl
      · rw [add_assoc, ih]

theorem singleServerSums_iff {chunks : List Chunk} {sum : BitVec 32} :
    SingleServerSums chunks sum ↔ handleServiceRequest chunks 0 = some (sum, []) := by
  rw [SingleServerSums, serve]
  cases handleServiceRequest chunks 0 with
  | none => simp
  | some p =>
      obtain ⟨sum', rest⟩ := p
      simp [resultMessage_injective.eq_iff]

theorem deliver_eq_nil {sizes : List ReadSize} {bytes : List UInt8} :
    deliver sizes bytes = [] ↔ sizes = [] := by
  cases sizes with
  | nil => simp [deliver]
  | cons size sizes => simp [deliver]

/-- A piece that begins with an int adds this int to the sum. -/
theorem handleServiceRequest_int {size : ReadSize} (hsize : 4 ≤ size.1) (sizes : List ReadSize)
    {value : BitVec 32} (hvalue : value ≠ 0) (bytes : List UInt8) (sum : BitVec 32) :
    handleServiceRequest (deliver (size :: sizes) (intBytes value ++ bytes)) sum =
      handleServiceRequest (deliver sizes (bytes.drop (size.1 - 4))) (sum + value) := by
  have hlength := length_intBytes value
  have htake : (intBytes value ++ bytes).take size.1 = intBytes value ++ bytes.take (size.1 - 4) := by
    rw [List.take_append, hlength, List.take_of_length_le (hlength.trans_le hsize)]
  have hdrop : (intBytes value ++ bytes).drop size.1 = bytes.drop (size.1 - 4) := by
    rw [List.drop_append, hlength, List.drop_of_length_le (hlength.trans_le hsize), List.nil_append]
  rw [deliver, handleServiceRequest, memcpyInt_of_append htake, if_neg hvalue, hdrop]

/-- A piece that begins with zeros ends the sum. -/
theorem handleServiceRequest_zero {size : ReadSize} (sizes : List ReadSize) {bytes : List UInt8}
    {k : ℕ} (hzero : (bytes.take size.1).take 4 = List.replicate k 0) (sum sum' : BitVec 32) :
    handleServiceRequest (deliver (size :: sizes) bytes) sum = some (sum', []) ↔
      sum = sum' ∧ sizes = [] := by
  rw [deliver, handleServiceRequest, memcpyInt_received, hzero, LittleEndian.value_replicate_zero]
  simp [deliver_eq_nil]

theorem intBytes_zero : intBytes 0 = List.replicate 4 0 := LittleEndian.encode_zero 4

def SumsAll (n : ℕ) (sizes : List ReadSize) : Prop :=
  ∀ ints, ints.length = n →
    handleServiceRequest (deliver sizes (stream ints)) 0 = some (total ints, [])

theorem sumsAll_zero_iff {sizes : List ReadSize} (hsum : (sizes.map Subtype.val).sum = 4) :
    SumsAll 0 sizes ↔ sizes.map Subtype.val = [4] := by
  cases sizes with
  | nil => simp at hsum
  | cons size sizes =>
      have hzero : ((intBytes 0).take size.1).take 4 = List.replicate (min 4 (min size.1 4)) 0 := by
        rw [intBytes_zero, List.take_replicate, List.take_replicate]
      have hempty := handleServiceRequest_zero sizes hzero 0 0
      rw [List.map_cons, List.sum_cons] at hsum
      constructor
      · intro h
        obtain ⟨-, rfl⟩ := hempty.mp (h [] rfl)
        simpa using hsum
      · intro h ints hints
        obtain ⟨-, hsizes⟩ := List.cons.inj h
        rw [List.length_eq_zero_iff.mp hints]
        exact hempty.mpr ⟨rfl, List.map_eq_nil_iff.mp hsizes⟩

theorem sumsAll_succ_iff {n : ℕ} {size : ReadSize} (hsize : size.1 = 4) (sizes : List ReadSize) :
    SumsAll (n + 1) (size :: sizes) ↔ SumsAll n sizes := by
  have hint : ∀ (value : NonzeroInt) (ints : List NonzeroInt),
      handleServiceRequest (deliver (size :: sizes) (stream (value :: ints))) 0 =
          some (total (value :: ints), []) ↔
        handleServiceRequest (deliver sizes (stream ints)) 0 = some (total ints, []) := by
    intro value ints
    rw [stream, handleServiceRequest_int hsize.ge sizes value.2, hsize, Nat.sub_self, List.drop_zero,
      add_comm, handleServiceRequest_add]
    cases handleServiceRequest (deliver sizes (stream ints)) 0 with
    | none => simp
    | some p =>
        obtain ⟨sum, rest⟩ := p
        simp [total]
  constructor
  · intro h ints hints
    exact (hint NonzeroInt.one ints).mp (h _ (by rw [List.length_cons, hints]))
  · intro h ints hints
    obtain ⟨value, ints, rfl⟩ := List.exists_cons_of_length_eq_add_one hints
    exact (hint value ints).mpr (h ints (by simpa using hints))

/-- An int whose low bytes are zeros, cut before its last byte, counts as the 0 at the end. -/
theorem not_sumsAll_of_lt {n : ℕ} {size : ReadSize} (hsize : size.1 < 4) {sizes : List ReadSize}
    (hsum : ((size :: sizes).map Subtype.val).sum = 4 * (n + 2)) :
    ¬ SumsAll (n + 1) (size :: sizes) := by
  intro h
  have hbytes : intBytes (2 ^ 24) = [0, 0, 0, 1] := by decide
  have hints := h (⟨2 ^ 24, by decide⟩ :: List.replicate n NonzeroInt.one) (by simp)
  have hzero : (List.take size.1 (stream (⟨2 ^ 24, by decide⟩ ::
      List.replicate n NonzeroInt.one))).take 4 = List.replicate size.1 0 := by
    have hpos := size.2.1
    have hcases : size.1 = 1 ∨ size.1 = 2 ∨ size.1 = 3 := by omega
    rcases hcases with hk | hk | hk
    · rw [hk, stream, hbytes]
      rfl
    · rw [hk, stream, hbytes]
      rfl
    · rw [hk, stream, hbytes]
      rfl
  obtain ⟨-, rfl⟩ := (handleServiceRequest_zero sizes hzero _ _).mp hints
  simp only [List.map_cons, List.map_nil, List.sum_cons, List.sum_nil] at hsum
  omega

/-- The first byte of an int that arrives behind another int is never looked at. -/
theorem not_sumsAll_of_gt {n : ℕ} {size : ReadSize} (hsize : 4 < size.1) (sizes : List ReadSize) :
    ¬ SumsAll (n + 2) (size :: sizes) := by
  intro h
  have hbytes : intBytes (2 ^ 24) = 0 :: [0, 0, 1] := by decide
  have hbytes' : intBytes (2 ^ 24 + 1) = 1 :: [0, 0, 1] := by decide
  have hfirst := h (NonzeroInt.one :: ⟨2 ^ 24, by decide⟩ :: List.replicate n NonzeroInt.one)
    (by simp)
  have hsecond := h (NonzeroInt.one :: ⟨2 ^ 24 + 1, by decide⟩ :: List.replicate n NonzeroInt.one)
    (by simp)
  obtain ⟨k, hk⟩ : ∃ k, size.1 - 4 = k + 1 := ⟨size.1 - 5, by omega⟩
  rw [stream, handleServiceRequest_int hsize.le sizes (by decide), hk, stream, hbytes,
    List.cons_append, List.drop_succ_cons] at hfirst
  rw [stream, handleServiceRequest_int hsize.le sizes (by decide), hk, stream, hbytes',
    List.cons_append, List.drop_succ_cons, hfirst] at hsecond
  have htotal := congrArg Prod.fst (Option.some.inj hsecond)
  simp only [total, List.map_cons, List.sum_cons] at htotal
  have hvalues : (2 ^ 24 : BitVec 32) = 2 ^ 24 + 1 := by
    exact add_right_cancel (add_left_cancel htotal)
  exact absurd hvalues (by decide)

/-- Behind the last int may stand a part of the 0. -/
theorem sumsAll_one_iff {size : ReadSize} (hsize : 4 < size.1) {sizes : List ReadSize}
    (hsum : size.1 + (sizes.map Subtype.val).sum = 8) :
    SumsAll 1 (size :: sizes) ↔ size.1 < 8 ∧ sizes.map Subtype.val = [8 - size.1] := by
  have hint : ∀ value : NonzeroInt,
      handleServiceRequest (deliver (size :: sizes) (stream [value])) 0 =
        handleServiceRequest (deliver sizes (List.replicate (8 - size.1) 0)) value.1 := by
    intro value
    have hdrop : 4 - (size.1 - 4) = 8 - size.1 := by omega
    rw [stream, handleServiceRequest_int hsize.le sizes value.2, zero_add, stream, intBytes_zero,
      List.drop_replicate, hdrop]
  cases sizes with
  | nil =>
      constructor
      · intro h
        have hnone := h [NonzeroInt.one] rfl
        rw [hint] at hnone
        exact absurd hnone (by simp [deliver, handleServiceRequest])
      · intro h
        exact absurd h.2 (by simp)
  | cons second rest =>
      have hpos := second.2.1
      rw [List.map_cons, List.sum_cons] at hsum
      have hzero : ((List.replicate (8 - size.1) (0 : UInt8)).take second.1).take 4 =
          List.replicate (min 4 (min second.1 (8 - size.1))) 0 := by
        rw [List.take_replicate, List.take_replicate]
      constructor
      · intro h
        have hlast := h [NonzeroInt.one] rfl
        rw [hint] at hlast
        obtain ⟨-, rfl⟩ := (handleServiceRequest_zero rest hzero _ _).mp hlast
        simp only [List.map_nil, List.sum_nil] at hsum
        refine ⟨by omega, ?_⟩
        rw [List.map_cons, List.map_nil]
        exact congrArg (· :: []) (by omega)
      · rintro ⟨-, hrest⟩ ints hints
        obtain ⟨value, rfl⟩ := List.length_eq_one_iff.mp hints
        obtain ⟨-, hrest⟩ := List.cons.inj hrest
        rw [hint]
        refine (handleServiceRequest_zero rest hzero _ _).mpr ⟨?_, List.map_eq_nil_iff.mp hrest⟩
        simp [total]

theorem sumsAll_iff {n : ℕ} {sizes : List ReadSize}
    (hsum : (sizes.map Subtype.val).sum = 4 * (n + 1)) :
    SumsAll n sizes ↔ OneIntEach n (sizes.map Subtype.val) := by
  induction n generalizing sizes with
  | zero => rw [sumsAll_zero_iff hsum, oneIntEach_zero_iff]
  | succ n ih =>
      cases sizes with
      | nil => simp at hsum
      | cons size sizes =>
          have hsum' := hsum
          rw [List.map_cons, List.sum_cons] at hsum'
          rw [List.map_cons, oneIntEach_succ_iff]
          rcases lt_trichotomy size.1 4 with hlt | heq | hgt
          · exact iff_of_false (not_sumsAll_of_lt hlt hsum) (by omega)
          · rw [sumsAll_succ_iff heq, ih (by omega)]
            simp [heq]
          · cases n with
            | zero =>
                rw [sumsAll_one_iff hgt (by omega)]
                simp [hgt, hgt.ne']
            | succ n => exact iff_of_false (not_sumsAll_of_gt hgt sizes) (by omega)

theorem SingleServerSums.multiplexed {chunks : List Chunk} {sum : BitVec 32}
    (h : SingleServerSums chunks sum) : MultiplexedServerSums chunks sum := by
  intro launch us s hreach n fd hget hmem
  have hok : Multiplexing.ServerOk s :=
    run_invariant Multiplexing.serverStep_serverOk (Multiplexing.ServerOk.init launch) hreach
  have hsocket := (hok.dataSocket _ (List.mem_of_getElem? hget) rfl).2.1
  refine ⟨Multiplexing.run_delivering hsocket chunks, fun ws s' hchunks hrun => ?_⟩
  exact hok.run_reads hget rfl hmem h hchunks hrun

theorem MultiplexedServerSums.single {chunks : List Chunk} {sum : BitVec 32}
    (h : MultiplexedServerSums chunks sum) : SingleServerSums chunks sum := by
  have hconnect : run Multiplexing.serverStep (Multiplexing.Server.init standardLaunch)
      [⟨[3], 4, fun _ => none⟩] =
        some ((Multiplexing.Server.init standardLaunch).accepted 4) :=
    run_cons_eq_some.mpr ⟨_, Multiplexing.serverStep_first_client, rfl⟩
  obtain ⟨⟨s', hrun⟩, hreads⟩ := h standardLaunch _ _ hconnect 0 4 rfl (by decide)
  have hget := hreads _ s' (Multiplexing.filterMap_delivering (by decide) (by decide) chunks) hrun
  have hok : Multiplexing.ServerOk s' := by
    refine run_invariant Multiplexing.serverStep_serverOk ?_ hrun
    exact run_invariant Multiplexing.serverStep_serverOk (Multiplexing.ServerOk.init _) hconnect
  obtain ⟨result, hwritten, hserve⟩ := hok.answered _ (List.mem_of_getElem? hget) rfl
  have hall := hserve []
  rw [List.append_nil, ← List.singleton_inj.mp hwritten] at hall
  exact hall

/-- Either server sums all sequences of `n` ints that arrive in a cut exactly if the cut gives each
int a read of its own, except that the last may come with a part of the 0. -/
theorem streams_summed (n : ℕ) (cut : Cut n) :
    ((∀ ints : List NonzeroInt, ints.length = n →
        SingleServerSums (deliver cut.sizes (stream ints)) (total ints)) ↔
      OneIntEach n (cut.sizes.map Subtype.val)) ∧
    ((∀ ints : List NonzeroInt, ints.length = n →
        MultiplexedServerSums (deliver cut.sizes (stream ints)) (total ints)) ↔
      OneIntEach n (cut.sizes.map Subtype.val)) := by
  have hsingle : (∀ ints : List NonzeroInt, ints.length = n →
      SingleServerSums (deliver cut.sizes (stream ints)) (total ints)) ↔
        OneIntEach n (cut.sizes.map Subtype.val) := by
    rw [← sumsAll_iff cut.sum_eq]
    exact forall₂_congr fun ints _ => singleServerSums_iff
  refine ⟨hsingle, Iff.trans (forall₂_congr fun ints _ => ?_) hsingle⟩
  exact ⟨MultiplexedServerSums.single, SingleServerSums.multiplexed⟩

/-- The ints 1 and 2 that arrive in one read are summed to 1, by either server. -/
theorem streams_summed_coalesced :
    ¬ (∀ (n : ℕ) (cut : Cut n) (ints : List NonzeroInt), ints.length = n →
        SingleServerSums (deliver cut.sizes (stream ints)) (total ints)) ∧
      ¬ ∀ (n : ℕ) (cut : Cut n) (ints : List NonzeroInt), ints.length = n →
        MultiplexedServerSums (deliver cut.sizes (stream ints)) (total ints) := by
  have hcoalesced : ¬ SingleServerSums (deliver [⟨8, by decide⟩, ⟨4, by decide⟩]
      (stream [NonzeroInt.one, ⟨2, by decide⟩])) (total [NonzeroInt.one, ⟨2, by decide⟩]) := by
    rw [singleServerSums_iff]
    decide +kernel
  constructor
  · exact fun h => hcoalesced (h 2 ⟨_, rfl⟩ _ rfl)
  · exact fun h => hcoalesced (h 2 ⟨_, rfl⟩ _ rfl).single

end LinuxIPC
