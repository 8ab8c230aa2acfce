import LinuxIPC.SummationSystem

/-!
# What the clients of a summation server show

The server takes one int of each read for what the client sent. So a client is shown the sum of the
first ints of the groups in which its ints were read, and its ints up to the 0 are what was typed. A
client whose 0 was read behind another int waits for ever.
-/

namespace LinuxIPC

open CString Runs NoMultiplexing SummationClient

theorem ints_append (values values' : List (BitVec 32)) :
    ints (values ++ values') = ints values ++ ints values' :=
  List.flatMap_append

theorem length_ints (values : List (BitVec 32)) : (ints values).length = 4 * values.length := by
  induction values with
  | nil => rfl
  | cons value values ih =>
      have hcons : ints (value :: values) = intBytes value ++ ints values := rfl
      rw [hcons, List.length_append, length_intBytes, ih, List.length_cons]
      omega

theorem take_ints (k : ℕ) (values : List (BitVec 32)) :
    (ints values).take (4 * k) = ints (values.take k) ∧
      (ints values).drop (4 * k) = ints (values.drop k) := by
  have hlength : min (4 * k) (4 * values.length) = 4 * (values.take k).length := by
    rw [List.length_take]
    omega
  have hsplit : ints values = ints (values.take k) ++ ints (values.drop k) := by
    rw [← ints_append, List.take_append_drop]
  by_cases hk : k ≤ values.length
  · have hfirst : (ints (values.take k)).length = 4 * k := by
      rw [length_ints, List.length_take, min_eq_left hk]
    rw [hsplit]
    exact ⟨List.take_left' hfirst, List.drop_left' hfirst⟩
  · have hall : (ints values).length ≤ 4 * k := by
      rw [length_ints]
      omega
    rw [List.take_of_length_le hall, List.drop_of_length_le hall,
      List.take_of_length_le (by omega), List.drop_of_length_le (by omega)]
    exact ⟨rfl, rfl⟩

abbrev intsPerRead : ℕ := bufferSize / 4

theorem Peer.chunk_of_ints {p : Peer} {rest : List (BitVec 32)} (h : p.unread = ints rest) :
    p.chunk.bytes = ints (rest.take intsPerRead) ∧
      p.unread.drop p.chunk.bytes.length = ints (rest.drop intsPerRead) := by
  have hsize : bufferSize = 4 * intsPerRead := rfl
  obtain ⟨htake, hdrop⟩ := take_ints intsPerRead rest
  have hchunk : p.chunk.bytes = ints (rest.take intsPerRead) := by
    have hbytes : p.chunk.bytes = p.unread.take bufferSize := rfl
    rw [hbytes, h, hsize, htake]
  refine ⟨hchunk, ?_⟩
  rw [hchunk, h, ← List.take_append_drop intsPerRead rest, ints_append, List.take_append_drop]
  exact List.drop_left

/-- The ints that a client wrote were read in groups, and the others wait in its socket. They are the
first ints typed, with no 0 but at the end; the loop goes on with what is typed behind them. An end of
file is read only from a client that ended without a result. -/
structure PeerOk (p : Peer) (c : Option Multiplexing.Connection) : Prop where
  streamed : ∃ (groups : List (List (BitVec 32))) (rest : List (BitVec 32)),
    (c.elim [] Multiplexing.Connection.reads).map Chunk.bytes = groups.map ints ∧
      p.unread = ints rest ∧ p.written = groups.flatten ++ rest
  typed : ∃ later, typedInts p.typed = p.written ++ later
  ends : 0 ∉ p.written.dropLast
  sending : p.client.phase = .sending →
    typedInts p.typed = p.written ++ typedInts p.client.stdin ∧ 0 ∉ p.written ∧ p.client.value ≠ 0
  eof : (∃ chunk ∈ c.elim [] Multiplexing.Connection.reads, chunk.bytes = []) →
    p.client.phase = .closed ∧ p.shown = none
  result : ∀ text, p.shown = some text → p.client.phase = .closed ∧
    ∃ d result, c = some d ∧ d.isOpen = false ∧ d.written = [result] ∧
      text = shownText (resultChunk result)

theorem PeerOk.init (stdin : List UInt8) : PeerOk (Peer.init stdin) none where
  streamed := ⟨[], [], rfl, rfl, rfl⟩
  typed := ⟨_, rfl⟩
  ends := List.not_mem_nil
  sending := fun _ => ⟨rfl, List.not_mem_nil, by simp [Peer.init, Client.init]⟩
  eof := by simp
  result := by simp [Peer.init]

theorem loopTest_eq_sending {value : BitVec 32} :
    SummationClient.loopTest value = .sending ↔ value ≠ 0 := by
  unfold SummationClient.loopTest
  split_ifs with hzero
  · exact iff_of_false (by simp) (not_not.mpr hzero)
  · exact iff_of_true rfl hzero

variable {p : Peer} {c : Option Multiplexing.Connection}

/-- Nothing is written. -/
theorem PeerOk.of_client (h : PeerOk p c) {q : Peer} (htyped : q.typed = p.typed)
    (hwritten : q.written = p.written) (hunread : q.unread = p.unread)
    (hsending : q.client.phase = .sending → typedInts p.typed = p.written ++
      typedInts q.client.stdin ∧ 0 ∉ p.written ∧ q.client.value ≠ 0)
    (heof : p.client.phase = .closed → p.shown = none →
      q.client.phase = .closed ∧ q.shown = none)
    (hresult : ∀ text, q.shown = some text → q.client.phase = .closed ∧
      ∃ d result, c = some d ∧ d.isOpen = false ∧ d.written = [result] ∧
        text = shownText (resultChunk result)) : PeerOk q c where
  streamed := by
    rw [hunread, hwritten]
    exact h.streamed
  typed := by
    rw [htyped, hwritten]
    exact h.typed
  ends := hwritten ▸ h.ends
  sending := by
    rw [htyped, hwritten]
    exact hsending
  eof := fun hchunk => heof (h.eof hchunk).1 (h.eof hchunk).2
  result := hresult

theorem PeerOk.shown_eq_none (h : PeerOk p c) (hphase : p.client.phase ≠ .closed) :
    p.shown = none := by
  cases hshown : p.shown with
  | none => rfl
  | some text => exact absurd (h.result text hshown).1 hphase

theorem PeerOk.enter (h : PeerOk p c) (hphase : p.client.phase = .sending) (errno : ℤ)
    (buffer : CharArray intLen) (stack : List UInt8) (result : WriteResult) :
    PeerOk (p.enter errno buffer stack result) c := by
  have hclosed : p.client.phase ≠ .closed := by simp [hphase]
  have hshown := h.shown_eq_none hclosed
  obtain ⟨htyped, hzero, hvalue⟩ := h.sending hphase
  have heffect := p.client.enter_effect errno buffer stack result
  unfold Peer.enter
  generalize p.client.enter errno buffer stack result = after at heffect
  cases heffect with
  | ended phase hor =>
      refine h.of_client rfl (List.append_nil _) (List.append_nil _) ?_ ?_ ?_
      · rcases hor with rfl | rfl <;> simp
      · exact fun hc => absurd hc hclosed
      · simp [hshown]
  | failed phase stdin value hor hnext =>
      refine h.of_client rfl (List.append_nil _) (List.append_nil _) ?_ ?_ ?_
      · rcases hor with rfl | rfl <;> simp
      · exact fun hc => absurd hc hclosed
      · simp [hshown]
  | skipped stdin hnext =>
      refine h.of_client rfl (List.append_nil _) (List.append_nil _) ?_ ?_ ?_
      · exact fun _ => ⟨htyped.trans (congrArg _ hnext), hzero, hvalue⟩
      · exact fun hc => absurd hc hclosed
      · simp [hshown]
  | sent stdin value hnext =>
      have htyped' : typedInts p.typed = (p.written ++ [value]) ++ typedInts stdin := by
        rw [htyped, hnext, List.append_assoc, List.singleton_append]
      obtain ⟨groups, rest, hreads, hunread, hwritten⟩ := h.streamed
      refine
        { streamed := ⟨groups, rest ++ [value], hreads, ?_, ?_⟩
          typed := ⟨_, htyped'⟩
          ends := ?_
          sending := fun hphase' => ⟨htyped', ?_, loopTest_eq_sending.mp hphase'⟩
          eof := fun hchunk => absurd (h.eof hchunk).1 hclosed
          result := by simp [hshown] }
      · rw [ints_append, ← hunread]
        rfl
      · rw [← List.append_assoc, ← hwritten]
        rfl
      · simpa using hzero
      · intro hmem
        rcases List.mem_append.mp hmem with hmem | hmem
        · exact hzero hmem
        · exact loopTest_eq_sending.mp hphase' (List.mem_singleton.mp hmem).symm

theorem PeerOk.interrupt (h : PeerOk p c) : PeerOk p.interrupt c := by
  refine h.of_client rfl rfl rfl (by simp [Peer.interrupt]) (fun _ hshown => ⟨rfl, hshown⟩) ?_
  exact fun text hshown => ⟨rfl, (h.result text hshown).2⟩

theorem PeerOk.receive {d : Multiplexing.Connection} (h : PeerOk p (some d))
    (hphase : p.client.phase = .receiving) (hclosed : d.isOpen = false)
    {result : CharArray bufferSize} (hwritten : d.written = [result]) :
    PeerOk (p.receive (resultChunk result)) (some d) := by
  refine h.of_client rfl rfl rfl (by simp [Peer.receive]) (fun hc => by simp [hphase] at hc) ?_
  intro text htext
  exact ⟨rfl, d, result, rfl, hclosed, hwritten, (Option.some.inj htext).symm⟩

/-- The server accepts the client. -/
theorem PeerOk.accepted (h : PeerOk p none) (fd : ℤ) : PeerOk p (some ⟨fd, true, [], []⟩) where
  streamed := h.streamed
  typed := h.typed
  ends := h.ends
  sending := h.sending
  eof := h.eof
  result := by
    intro text htext
    obtain ⟨-, d, _, hnone, -⟩ := h.result text htext
    exact absurd hnone.symm (Option.some_ne_none d)

/-- The server reads what it finds in the client's socket. -/
theorem PeerOk.read {d d' : Multiplexing.Connection} (h : PeerOk p (some d))
    (hopen : d.isOpen = true) (hreadable : p.readable = true)
    (hreads : d'.reads = d.reads ++ [p.chunk]) :
    PeerOk { p with unread := p.unread.drop p.chunk.bytes.length } (some d') := by
  obtain ⟨groups, rest, hgroups, hunread, hwritten⟩ := h.streamed
  obtain ⟨hchunk, hrest⟩ := Peer.chunk_of_ints hunread
  have hshown : p.shown = none := by
    cases hshown : p.shown with
    | none => rfl
    | some text =>
        obtain ⟨-, e, _, hsome, hclosed, -⟩ := h.result text hshown
        rw [← Option.some.inj hsome, hopen] at hclosed
        exact absurd hclosed.symm Bool.false_ne_true
  refine
    { streamed := ⟨groups ++ [rest.take intsPerRead], rest.drop intsPerRead, ?_, hrest, ?_⟩
      typed := h.typed
      ends := h.ends
      sending := h.sending
      eof := ?_
      result := fun text htext => absurd (hshown.symm.trans htext) (Option.some_ne_none text).symm }
  · simp only [Option.elim_some] at hgroups ⊢
    rw [hreads, List.map_append, hgroups, List.map_append, List.map_singleton, hchunk,
      List.map_singleton]
  · rw [List.flatten_append, List.flatten_singleton, List.append_assoc, List.take_append_drop]
    exact hwritten
  · rintro ⟨chunk, hmem, hempty⟩
    rw [Option.elim_some, hreads] at hmem
    rcases List.mem_append.mp hmem with hmem | hmem
    · exact h.eof ⟨chunk, hmem, hempty⟩
    · rw [List.mem_singleton.mp hmem, Peer.chunk, List.take_eq_nil_iff] at hempty
      have hnil : p.unread = [] := hempty.resolve_left (by decide)
      simp only [Peer.readable, hnil, ne_eq, not_true_eq_false, decide_false, Bool.false_or,
        decide_eq_true_eq] at hreadable
      exact ⟨hreadable, hshown⟩

theorem peerOf_of_open {connections : List Multiplexing.Connection} {peers : List Peer}
    (hdistinct : connections.Pairwise fun c d =>
      c.isOpen = true → d.isOpen = true → c.dataSocket ≠ d.dataSocket) {n : ℕ}
    {c : Multiplexing.Connection} {p : Peer} (hc : connections[n]? = some c)
    (hp : peers[n]? = some p) (hopen : c.isOpen = true) :
    peerOf connections peers c.dataSocket = some p := by
  unfold peerOf
  induction connections generalizing peers n with
  | nil => simp at hc
  | cons d connections ih =>
      obtain ⟨hfirst, hrest⟩ := List.pairwise_cons.mp hdistinct
      cases peers with
      | nil => simp at hp
      | cons q peers =>
          rw [List.zip_cons_cons]
          cases n with
          | zero =>
              obtain rfl : d = c := Option.some.inj hc
              obtain rfl := Option.some.inj hp
              have howns : d.Owns d.dataSocket := ⟨hopen, rfl⟩
              rw [List.find?_cons_of_pos (by simpa using howns), Option.map_some]
          | succ n =>
              have hother : ¬ d.Owns c.dataSocket := fun howns =>
                hfirst c (List.mem_of_getElem? hc) howns.1 hopen howns.2
              rw [List.find?_cons_of_neg (by simpa using hother)]
              exact ih hrest hc hp

namespace SummationServer

variable {S : SummationServer} {Inv : S.State → Prop}

inductive PeerEffect (e : Event) (n : ℕ) (p : Peer) :
    Option Multiplexing.Connection → Peer → Option Multiplexing.Connection → Prop
  | same {c : Option Multiplexing.Connection} : PeerEffect e n p c p c
  | entered {c : Option Multiplexing.Connection} (errno : ℤ) (buffer : CharArray intLen)
      (stack : List UInt8) (result : WriteResult) (he : e = .enter n errno buffer stack result)
      (hphase : p.client.phase = .sending) :
      PeerEffect e n p c (p.enter errno buffer stack result) c
  | received {d : Multiplexing.Connection} (result : CharArray bufferSize)
      (hphase : p.client.phase = .receiving) (hclosed : d.isOpen = false)
      (hwritten : d.written = [result]) :
      PeerEffect e n p (some d) (p.receive (resultChunk result)) (some d)
  | interrupted {c : Option Multiplexing.Connection} : PeerEffect e n p c p.interrupt c
  | accepted (fd : ℤ) : PeerEffect e n p none p (some ⟨fd, true, [], []⟩)
  | read {d d' : Multiplexing.Connection} (hopen : d.isOpen = true) (hreadable : p.readable = true)
      (hreads : d'.reads = d.reads ++ [p.chunk]) :
      PeerEffect e n p (some d) { p with unread := p.unread.drop p.chunk.bytes.length } (some d')

theorem System.length_peers_le {s s' : S.System} {e : Event} (hstep : s.step e = some s') :
    s.peers.length ≤ s'.peers.length := by
  cases e with
  | connect stdin =>
      rw [← Option.some.inj hstep, List.length_append]
      exact Nat.le_add_right _ _
  | enter n errno buffer stack result =>
      obtain ⟨p, -, hstep⟩ := Option.bind_eq_some_iff.mp hstep
      obtain ⟨-, hstep⟩ := Option.ite_none_right_eq_some.mp hstep
      rw [← Option.some.inj hstep, List.length_set]
  | receive n =>
      obtain ⟨p, -, hstep⟩ := Option.bind_eq_some_iff.mp hstep
      obtain ⟨-, hstep⟩ := Option.ite_none_right_eq_some.mp hstep
      obtain ⟨_, -, rfl⟩ := Option.map_eq_some_iff.mp hstep
      exact List.length_set.ge
  | interrupt n =>
      obtain ⟨_, -, rfl⟩ := Option.map_eq_some_iff.mp hstep
      exact List.length_set.ge
  | serve ready dataSocket console =>
      obtain ⟨_, -, rfl⟩ := Option.map_eq_some_iff.mp hstep
      exact List.length_mapIdx.ge

structure System.Ok (Inv : S.State → Prop) (s : S.System) : Prop where
  server : Inv s.server
  length : s.connections.length ≤ s.peers.length

def System.Changes (s : S.System) (e : Event) (s' : S.System) : Prop :=
  ∀ (n : ℕ) (p' : Peer), s'.peers[n]? = some p' →
    (∃ p, s.peers[n]? = some p ∧ PeerEffect e n p s.connections[n]? p' s'.connections[n]?) ∨
      (s.peers[n]? = none ∧ s'.connections[n]? = none ∧ ∃ stdin, p' = Peer.init stdin)

theorem System.changes_set (s : S.System) {e : Event} {n : ℕ} {p p' : Peer}
    (hp : s.peers[n]? = some p)
    (heffect : PeerEffect e n p s.connections[n]? p' s.connections[n]?) :
    s.Changes e { s with peers := s.peers.set n p' } := by
  intro m q hq
  left
  by_cases hmn : n = m
  · subst hmn
    rw [List.getElem?_set_self', hp] at hq
    exact ⟨p, hp, Option.some.inj hq ▸ heffect⟩
  · rw [List.getElem?_set_ne hmn] at hq
    exact ⟨q, hq, PeerEffect.same⟩

theorem System.Ok.changes_connect {s : S.System} (h : s.Ok Inv) (e : Event) (stdin : List UInt8) :
    s.Changes e { s with peers := s.peers ++ [Peer.init stdin] } := by
  intro n p hp
  rcases lt_or_ge n s.peers.length with hlt | hle
  · rw [List.getElem?_append_left hlt] at hp
    exact Or.inl ⟨p, hp, PeerEffect.same⟩
  · rw [List.getElem?_append_right hle] at hp
    obtain rfl := List.mem_singleton.mp (List.mem_of_getElem? hp)
    exact Or.inr ⟨List.getElem?_eq_none hle, List.getElem?_eq_none (h.length.trans hle), stdin, rfl⟩

/-- The server reads from a connection what its client has in the socket. -/
theorem System.Ok.reads {s : S.System} (h : s.Ok Inv) (hsums : Sums S Inv) {ready : List ℤ}
    {dataSocket : ℤ} {console : Option Chunk} {c c' : Multiplexing.Connection}
    (hread : ReadsChunk (s.wakeup ready dataSocket console) c c') {n : ℕ} {p : Peer}
    (hc : s.connections[n]? = some c) (hp : s.peers[n]? = some p) :
    p.readable = true ∧ c'.reads = c.reads ++ [p.chunk] := by
  obtain ⟨hopen, hready, chunk, hdata, hreads⟩ := hread
  obtain ⟨hzero, hsocket⟩ := hsums.dataSocket _ h.server c (List.mem_of_getElem? hc) hopen
  have hof : s.peerOf c.dataSocket = some p :=
    peerOf_of_open (hsums.distinct _ h.server) hc hp hopen
  have hreadable := (List.mem_filter.mp hready).2
  rw [System.readable, if_neg hsocket, hof] at hreadable
  have hchunk : p.chunk = chunk := by
    simpa [System.wakeup, hzero, hof] using hdata
  exact ⟨by simpa [hzero] using hreadable, hchunk ▸ hreads⟩

theorem System.Ok.effect_served {s : S.System} (h : s.Ok Inv) (hsums : Sums S Inv) (e : Event)
    {ready : List ℤ} {dataSocket : ℤ} {console : Option Chunk}
    {connections : List Multiplexing.Connection}
    (hlength : connections.length = s.connections.length)
    (hreads : ∀ (n : ℕ) (c : Multiplexing.Connection), s.connections[n]? = some c →
      ∃ c', connections[n]? = some c' ∧
        (c' = c ∨ ReadsChunk (s.wakeup ready dataSocket console) c c'))
    {n : ℕ} {p : Peer} (hp : s.peers[n]? = some p) :
    PeerEffect e n p s.connections[n]? (takeReads s.connections connections n p)
      connections[n]? := by
  cases hc : s.connections[n]? with
  | none =>
      have hnone : connections[n]? = none :=
        List.getElem?_eq_none (hlength.trans_le (List.getElem?_eq_none_iff.mp hc))
      simpa [takeReads, hc, hnone] using PeerEffect.same (e := e) (n := n) (p := p) (c := none)
  | some c =>
      obtain ⟨c', hc', rfl | hread⟩ := hreads n c hc
      · simpa [takeReads, hc, hc'] using PeerEffect.same (e := e) (n := n) (p := p) (c := some c')
      · obtain ⟨hreadable, hreads'⟩ := h.reads hsums hread hc hp
        have heffect := PeerEffect.read (e := e) (n := n) hread.isOpen hreadable hreads'
        simpa [takeReads, hc, hc', hreads'] using heffect

theorem System.effect_accepted (s : S.System) (e : Event) (fd : ℤ) (n : ℕ) (p : Peer) :
    PeerEffect e n p s.connections[n]?
      (takeReads s.connections (s.connections ++ [⟨fd, true, [], []⟩]) n p)
      (s.connections ++ [⟨fd, true, [], []⟩])[n]? := by
  rcases lt_trichotomy n s.connections.length with hlt | rfl | hgt
  · simp only [takeReads, List.getElem?_append_left hlt, List.drop_length, List.flatMap_nil,
      List.length_nil, List.drop_zero]
    exact PeerEffect.same
  · rw [List.getElem?_eq_none le_rfl]
    simpa [takeReads] using PeerEffect.accepted (e := e) (p := p) fd
  · have hnone : (s.connections ++ [⟨fd, true, [], []⟩])[n]? = none := by
      rw [List.getElem?_eq_none_iff, List.length_append, List.length_singleton]
      exact hgt
    rw [List.getElem?_eq_none hgt.le]
    simpa [takeReads, hnone] using PeerEffect.same (e := e) (n := n) (p := p) (c := none)

theorem System.Ok.serve {s s' : S.System} (h : s.Ok Inv) (hsums : Sums S Inv) {ready : List ℤ}
    {dataSocket : ℤ} {console : Option Chunk}
    (hstep : s.step (.serve ready dataSocket console) = some s') :
    s'.Ok Inv ∧ s.Changes (.serve ready dataSocket console) s' := by
  obtain ⟨server, hserver, rfl⟩ := Option.map_eq_some_iff.mp hstep
  suffices hafter : (S.connections server).length ≤ s.peers.length ∧
      ∀ (n : ℕ) (p : Peer), s.peers[n]? = some p →
        PeerEffect (.serve ready dataSocket console) n p s.connections[n]?
          (takeReads s.connections (S.connections server) n p) (S.connections server)[n]? by
    refine ⟨⟨hsums.inv _ _ _ h.server hserver, ?_⟩, fun n q hq => ?_⟩
    · rw [List.length_mapIdx]
      exact hafter.1
    · rw [List.getElem?_mapIdx] at hq
      obtain ⟨p, hp, rfl⟩ := Option.map_eq_some_iff.mp hq
      exact Or.inl ⟨p, hp, hafter.2 n p hp⟩
  have hstep' := hsums.step _ _ _ h.server hserver
  generalize S.connections server = connections at hstep'
  cases hstep' with
  | accepted hready =>
      have hpending : s.connections.length < s.peers.length := by
        have hmem := (List.mem_filter.mp hready).2
        rw [System.readable, if_pos rfl] at hmem
        simpa using hmem
      refine ⟨?_, fun n p _ => s.effect_accepted _ _ n p⟩
      rw [List.length_append, List.length_singleton]
      exact hpending
  | served hlength hreads =>
      exact ⟨hlength.trans_le h.length, fun n p hp => h.effect_served hsums _ hlength hreads hp⟩

theorem System.Ok.step {s s' : S.System} {e : Event} (h : s.Ok Inv) (hsums : Sums S Inv)
    (hstep : s.step e = some s') : s'.Ok Inv ∧ s.Changes e s' := by
  have hset : ∀ n (p : Peer), System.Ok Inv { s with peers := s.peers.set n p } := fun n p =>
    ⟨h.server, h.length.trans_eq List.length_set.symm⟩
  cases e with
  | connect stdin =>
      obtain rfl := Option.some.inj hstep
      refine ⟨⟨h.server, h.length.trans ?_⟩, h.changes_connect _ stdin⟩
      rw [List.length_append]
      exact Nat.le_add_right _ _
  | enter n errno buffer stack result =>
      obtain ⟨p, hp, hstep⟩ := Option.bind_eq_some_iff.mp hstep
      obtain ⟨hphase, hstep⟩ := Option.ite_none_right_eq_some.mp hstep
      obtain rfl := Option.some.inj hstep
      exact ⟨hset n _, s.changes_set hp (.entered errno buffer stack result rfl hphase)⟩
  | receive n =>
      obtain ⟨p, hp, hstep⟩ := Option.bind_eq_some_iff.mp hstep
      obtain ⟨hphase, hstep⟩ := Option.ite_none_right_eq_some.mp hstep
      obtain ⟨result, hresult, rfl⟩ := Option.map_eq_some_iff.mp hstep
      obtain ⟨c, hc, hhead⟩ := Option.bind_eq_some_iff.mp hresult
      have hmem : c ∈ S.connections s.server := List.mem_of_getElem? hc
      refine ⟨hset n _, s.changes_set hp ?_⟩
      rw [hc]
      cases hopen : c.isOpen with
      | true => simp [hsums.waiting _ h.server c hmem hopen] at hhead
      | false =>
          obtain ⟨result', hwritten, -⟩ := hsums.answered _ h.server c hmem hopen
          rw [hwritten, List.head?_cons, Option.some.injEq] at hhead
          exact PeerEffect.received result hphase hopen (hhead ▸ hwritten)
  | interrupt n =>
      obtain ⟨p, hp, rfl⟩ := Option.map_eq_some_iff.mp hstep
      exact ⟨hset n _, s.changes_set hp (.interrupted)⟩
  | serve ready dataSocket console => exact h.serve hsums hstep

def System.All (Q : Peer → Option Multiplexing.Connection → Prop) (s : S.System) : Prop :=
  ∀ (n : ℕ) (p : Peer), s.peers[n]? = some p → Q p s.connections[n]?

theorem System.Ok.all_step {Q : Peer → Option Multiplexing.Connection → Prop} {s s' : S.System}
    {e : Event} (h : s.Ok Inv) (hsums : Sums S Inv) (hinit : ∀ stdin, Q (Peer.init stdin) none)
    (hQ : ∀ n p c p' c', s.peers[n]? = some p → PeerEffect e n p c p' c' → Q p c → Q p' c')
    (hall : s.All Q) (hstep : s.step e = some s') : s'.All Q := by
  intro n p' hp'
  rcases (h.step hsums hstep).2 n p' hp' with ⟨p, hp, heffect⟩ | ⟨-, hnone, stdin, rfl⟩
  · exact hQ n p _ p' _ hp heffect (hall n p hp)
  · rw [hnone]
    exact hinit stdin

theorem PeerEffect.peerOk {e : Event} {n : ℕ} {p p' : Peer} {c c' : Option Multiplexing.Connection}
    (heffect : PeerEffect e n p c p' c') (h : PeerOk p c) : PeerOk p' c' := by
  cases heffect with
  | same => exact h
  | entered errno buffer stack result he hphase => exact h.enter hphase errno buffer stack result
  | received result hphase hclosed hwritten => exact h.receive hphase hclosed hwritten
  | interrupted => exact h.interrupt
  | accepted fd => exact h.accepted fd
  | read hopen hreadable hreads => exact h.read hopen hreadable hreads

end SummationServer

def firstInt (group : List (BitVec 32)) : BitVec 32 := group.headD 0

theorem memcpyInt_of_ints {chunk : Chunk} {group : List (BitVec 32)}
    (h : chunk.bytes = ints group) : memcpyInt (received chunk) = firstInt group := by
  cases group with
  | nil =>
      have hnil : chunk.bytes = [] := h
      rw [memcpyInt_received, hnil]
      rfl
  | cons value group => exact memcpyInt_of_append h

theorem handleServiceRequest_groups {reads : List Chunk} {groups : List (List (BitVec 32))}
    (hreads : reads.map Chunk.bytes = groups.map ints) {sum sum' : BitVec 32}
    (h : handleServiceRequest reads sum = some (sum', [])) :
    ∃ front last, groups = front ++ [last] ∧ firstInt last = 0 ∧
      sum' = sum + (front.map firstInt).sum := by
  induction reads generalizing groups sum with
  | nil => simp [handleServiceRequest] at h
  | cons chunk reads ih =>
      cases groups with
      | nil => simp at hreads
      | cons group groups =>
          obtain ⟨hchunk, hreads⟩ := List.cons.inj hreads
          simp only [handleServiceRequest, memcpyInt_of_ints hchunk] at h
          by_cases hzero : firstInt group = 0
          · rw [if_pos hzero, Option.some.injEq, Prod.mk.injEq] at h
            obtain ⟨rfl, rfl⟩ := h
            obtain rfl := List.map_eq_nil_iff.mp hreads.symm
            exact ⟨[], group, rfl, hzero, by simp⟩
          · rw [if_neg hzero] at h
            obtain ⟨front, last, rfl, hlast, rfl⟩ := ih hreads h
            refine ⟨group :: front, last, rfl, hlast, ?_⟩
            rw [List.map_cons, List.sum_cons, add_assoc]

theorem eq_nil_of_zero_notMem {front back : List (BitVec 32)}
    (h : (0 : BitVec 32) ∉ (front ++ 0 :: back).dropLast) : back = [] := by
  by_contra hne
  rw [List.dropLast_append_of_ne_nil (List.cons_ne_nil _ _), List.dropLast_cons_of_ne_nil hne] at h
  exact h (List.mem_append_right _ List.mem_cons_self)

/-- The server does not wait for more behind a group that begins with a 0. -/
theorem handleServiceRequest_ne_none {reads : List Chunk} {groups : List (List (BitVec 32))}
    (hreads : reads.map Chunk.bytes = groups.map ints) (hzero : ∃ group ∈ groups, firstInt group = 0)
    (sum : BitVec 32) : handleServiceRequest reads sum ≠ none := by
  induction reads generalizing groups sum with
  | nil =>
      obtain ⟨group, hmem, -⟩ := hzero
      rw [List.map_eq_nil_iff.mp hreads.symm] at hmem
      exact absurd hmem List.not_mem_nil
  | cons chunk reads ih =>
      cases groups with
      | nil => simp at hreads
      | cons group groups =>
          obtain ⟨hchunk, hreads⟩ := List.cons.inj hreads
          simp only [handleServiceRequest, memcpyInt_of_ints hchunk]
          split_ifs with hfirst
          · exact Option.some_ne_none _
          · obtain ⟨zero, hmem, hzero⟩ := hzero
            rcases List.mem_cons.mp hmem with rfl | hmem
            · exact absurd hzero hfirst
            · exact ih hreads ⟨zero, hmem, hzero⟩ _

/-- What was written was read in groups of ints and then the 0 by itself, and the result shown is the
sum of the first ints of the groups. -/
theorem PeerOk.reads_of_shown {d : Multiplexing.Connection} (h : PeerOk p (some d))
    (hanswered : d.isOpen = false → d.Answered) {text : List UInt8} (htext : p.shown = some text) :
    ∃ groups : List (List (BitVec 32)), d.reads.map Chunk.bytes = (groups ++ [[0]]).map ints ∧
      (∀ group ∈ groups, group ≠ []) ∧ p.written = groups.flatten ++ [0] ∧
      text = ascii (resultText (groups.map firstInt).sum) := by
  obtain ⟨-, e, result, hsome, hclosed, hwritten, rfl⟩ := h.result text htext
  obtain rfl := Option.some.inj hsome
  obtain ⟨result', hwritten', hserve⟩ := hanswered hclosed
  obtain rfl : result' = result := by simpa using hwritten'.symm.trans hwritten
  obtain ⟨groups, rest, hreads, -, hints⟩ := h.streamed
  have hsum := hserve []
  rw [List.append_nil, serve] at hsum
  obtain ⟨⟨sum, _⟩, hrequest, heq⟩ := Option.map_eq_some_iff.mp hsum
  obtain ⟨rfl, rfl⟩ := Prod.mk.inj heq
  obtain ⟨front, last, rfl, hlast, rfl⟩ := handleServiceRequest_groups hreads hrequest
  have hread : ∀ group ∈ front ++ [last], group ≠ [] := by
    rintro group hmem rfl
    obtain ⟨chunk, hchunk, hbytes⟩ := List.mem_map.mp (hreads ▸ List.mem_map_of_mem hmem)
    have hnone := (h.eof ⟨chunk, hchunk, hbytes⟩).2
    exact absurd (hnone.symm.trans htext) (Option.some_ne_none _).symm
  obtain ⟨value, tail, rfl⟩ := List.exists_cons_of_ne_nil (hread last (by simp))
  obtain rfl : value = 0 := hlast
  rw [List.flatten_append, List.flatten_singleton, List.append_assoc, List.cons_append] at hints
  -- nothing was written behind a 0
  have hends := h.ends
  rw [hints] at hends
  have hnil := eq_nil_of_zero_notMem hends
  obtain ⟨rfl, -⟩ := List.append_eq_nil_iff.mp hnil
  rw [hnil] at hints
  refine ⟨front, hreads, fun group hmem => hread group (List.mem_append_left _ hmem), hints, ?_⟩
  rw [shownText_resultChunk, zero_add]

theorem PeerOk.exists_groups {d : Multiplexing.Connection} (h : PeerOk p (some d))
    (hanswered : d.isOpen = false → d.Answered) {text : List UInt8} (htext : p.shown = some text) :
    0 ∈ typedInts p.typed ∧ ∃ groups : List (List (BitVec 32)),
      d.reads.map Chunk.bytes = (groups ++ [[0]]).map ints ∧ (∀ group ∈ groups, group ≠ []) ∧
      groups.flatten = (typedInts p.typed).takeWhile (· ≠ 0) ∧
      text = ascii (resultText (groups.map firstInt).sum) := by
  obtain ⟨groups, hreads, hne, hints, hsum⟩ := h.reads_of_shown hanswered htext
  obtain ⟨later, htyped⟩ := h.typed
  rw [hints, List.append_assoc, List.singleton_append] at htyped
  have hfront : 0 ∉ groups.flatten := by
    have hlast := h.ends
    rwa [hints, List.dropLast_concat] at hlast
  refine ⟨?_, groups, hreads, hne, ?_, hsum⟩
  · rw [htyped]
    simp
  · have hnonzero : ∀ value ∈ groups.flatten, decide (value ≠ 0) = true :=
      fun value hmem => decide_eq_true fun heq => hfront (heq ▸ hmem)
    rw [htyped, List.takeWhile_append_of_pos hnonzero, List.takeWhile_cons_of_neg (by simp),
      List.append_nil]

theorem exists_read_of_group {d : Multiplexing.Connection} {groups : List (List (BitVec 32))}
    (hreads : d.reads.map Chunk.bytes = (groups ++ [[0]]).map ints) {group : List (BitVec 32)}
    (hmem : group ∈ groups) : ∃ chunk ∈ d.reads, chunk.bytes = ints group :=
  List.mem_map.mp (hreads ▸ List.mem_map_of_mem (List.mem_append_left _ hmem))

/-- The ints typed before the first 0 came out of the connection in groups, one for each `read`, and
the 0 behind them by itself. The result shown is the sum of the first ints of these groups. -/
def FirstsSummed (p : Peer) (c : Option Multiplexing.Connection) : Prop :=
  ∀ text, p.shown = some text → 0 ∈ typedInts p.typed ∧
    ∃ (d : Multiplexing.Connection) (groups : List (List (BitVec 32))), c = some d ∧
      d.reads.map Chunk.bytes = (groups ++ [[0]]).map ints ∧
      (∀ group ∈ groups, group ≠ [] ∧ group.length ≤ intsPerRead) ∧
      groups.flatten = (typedInts p.typed).takeWhile (· ≠ 0) ∧
      text = ascii (resultText (groups.map firstInt).sum)

theorem PeerOk.firstsSummed (h : PeerOk p c)
    (hanswered : ∀ d, c = some d → d.isOpen = false → d.Answered) : FirstsSummed p c := by
  intro text htext
  obtain ⟨-, d, _, rfl, -⟩ := h.result text htext
  obtain ⟨hzero, groups, hreads, hne, hflatten, hsum⟩ := h.exists_groups (hanswered d rfl) htext
  refine ⟨hzero, d, groups, rfl, hreads, fun group hmem => ⟨hne group hmem, ?_⟩, hflatten, hsum⟩
  obtain ⟨chunk, -, hbytes⟩ := exists_read_of_group hreads hmem
  have hle := chunk.length_le
  have hsize : bufferSize = 4 * intsPerRead := rfl
  rw [hbytes, length_ints] at hle
  omega

structure Paced (p : Peer) (c : Option Multiplexing.Connection) : Prop where
  unread : p.unread.length ≤ 4
  reads : ∀ chunk ∈ c.elim [] Multiplexing.Connection.reads, chunk.bytes.length ≤ 4

/-- All that was typed before the first 0, as `read_line` cuts the lines, is in the result shown. -/
def AllSummed (p : Peer) : Prop :=
  ∀ text, p.shown = some text → 0 ∈ typedInts p.typed ∧
    text = ascii (resultText ((typedInts p.typed).takeWhile (· ≠ 0)).sum)

/-- If all lines typed fit the buffer of `read_line`, the result shown is the sum of the integers of
the lines before the first 0. -/
def LinesSummed (p : Peer) : Prop :=
  ∀ (text : List UInt8) (lines : List (List UInt8)), p.shown = some text →
    p.typed = lines.flatMap (· ++ [newline]) →
    (∀ line ∈ lines, newline ∉ line ∧ 0 ∉ line ∧ line.length < intLen) →
    text = ascii (resultText ((lineInts lines).takeWhile (· ≠ 0)).sum)

theorem AllSummed.linesSummed (h : AllSummed p) : LinesSummed p := by
  intro text lines htext htyped hlines
  have hwhole : lines.map (List.take (intLen - 1)) = lines := by
    rw [← List.map_id lines, List.map_map]
    refine List.map_congr_left fun line hmem => List.take_of_length_le ?_
    exact Nat.le_sub_one_of_lt (hlines line hmem).2.2
  have hints := typedInts_lines fun line hmem => ⟨(hlines line hmem).1, (hlines line hmem).2.1⟩
  rw [hwhole, ← htyped] at hints
  rw [← hints]
  exact (h text htext).2

theorem map_firstInt_of_singletons {groups : List (List (BitVec 32))}
    (h : ∀ group ∈ groups, group ≠ [] ∧ group.length ≤ 1) :
    groups.map firstInt = groups.flatten := by
  induction groups with
  | nil => rfl
  | cons group groups ih =>
      obtain ⟨hne, hle⟩ := h group List.mem_cons_self
      have hone : group.length = 1 := le_antisymm hle (List.length_pos_of_ne_nil hne)
      obtain ⟨value, rfl⟩ := List.length_eq_one_iff.mp hone
      rw [List.map_cons, List.flatten_cons, ih fun g hg => h g (List.mem_cons_of_mem _ hg)]
      rfl

theorem PeerOk.allSummed (h : PeerOk p c)
    (hanswered : ∀ d, c = some d → d.isOpen = false → d.Answered) (hpaced : Paced p c) :
    AllSummed p := by
  intro text htext
  obtain ⟨-, d, _, rfl, -⟩ := h.result text htext
  obtain ⟨hzero, groups, hreads, hne, hflatten, hsum⟩ := h.exists_groups (hanswered d rfl) htext
  have hone : ∀ group ∈ groups, group ≠ [] ∧ group.length ≤ 1 := by
    intro group hmem
    obtain ⟨chunk, hchunk, hbytes⟩ := exists_read_of_group hreads hmem
    have hle := hpaced.reads chunk hchunk
    rw [hbytes, length_ints] at hle
    exact ⟨hne group hmem, by omega⟩
  rw [map_firstInt_of_singletons hone, hflatten] at hsum
  exact ⟨hzero, hsum⟩

/-- While the server waits for more, a 0 that was written is all there is to read. -/
theorem PeerOk.unread_eq {d : Multiplexing.Connection} (h : PeerOk p (some d))
    (hpaced : Paced p (some d)) (hzero : 0 ∈ p.written) (hnone : serve d.reads = none) :
    p.unread = ints [0] := by
  obtain ⟨groups, rest, hreads, hunread, hwritten⟩ := h.streamed
  have hfirst : ∀ group ∈ groups, firstInt group ≠ 0 := by
    intro group hmem hfirst
    have hne := handleServiceRequest_ne_none hreads ⟨group, hmem, hfirst⟩ 0
    rw [serve, Option.map_eq_none_iff] at hnone
    exact hne hnone
  have hrest : 0 ∈ rest := by
    rw [hwritten] at hzero
    refine (List.mem_append.mp hzero).resolve_left fun hmem => ?_
    obtain ⟨group, hgroup, hmem⟩ := List.mem_flatten.mp hmem
    obtain ⟨chunk, hchunk, hbytes⟩ := List.mem_map.mp (hreads ▸ List.mem_map_of_mem hgroup)
    have hle := hpaced.reads chunk hchunk
    rw [hbytes, length_ints] at hle
    have hone : group.length = 1 := by
      have hpos := List.length_pos_of_mem hmem
      omega
    obtain ⟨value, rfl⟩ := List.length_eq_one_iff.mp hone
    exact hfirst _ hgroup (List.mem_singleton.mp hmem).symm
  have hle := hpaced.unread
  rw [hunread, length_ints] at hle
  have hone : rest.length = 1 := by
    have hpos := List.length_pos_of_mem hrest
    omega
  obtain ⟨value, rfl⟩ := List.length_eq_one_iff.mp hone
  rw [hunread, List.mem_singleton.mp hrest]

theorem PeerOk.serve_zero_ne_none {d : Multiplexing.Connection} (h : PeerOk p (some d))
    (hunread : p.unread = ints [0]) : serve (d.reads ++ [p.chunk]) ≠ none := by
  obtain ⟨groups, rest, hreads, -, -⟩ := h.streamed
  have hchunk : [p.chunk].map Chunk.bytes = [[0]].map ints := by
    rw [List.map_singleton, (Peer.chunk_of_ints hunread).1]
    rfl
  have hboth : (d.reads ++ [p.chunk]).map Chunk.bytes = (groups ++ [[0]]).map ints := by
    rw [List.map_append, List.map_append, hchunk]
    exact congrArg (· ++ _) hreads
  rw [serve, ne_eq, Option.map_eq_none_iff]
  exact handleServiceRequest_ne_none hboth ⟨[0], by simp, rfl⟩ 0

namespace SummationServer

/-- A client enters the next line when the server has read what it wrote. -/
def Paces {S : SummationServer} (s : S.System) : Event → Prop
  | .enter n _ _ _ _ => ∀ p ∈ s.peers[n]?, p.unread = []
  | _ => True

instance {S : SummationServer} (s : S.System) : ∀ e, Decidable (Paces s e)
  | .connect _ => isTrue trivial
  | .enter n _ _ _ _ => inferInstanceAs (Decidable (∀ p ∈ s.peers[n]?, p.unread = []))
  | .receive _ => isTrue trivial
  | .interrupt _ => isTrue trivial
  | .serve _ _ _ => isTrue trivial

theorem PeerEffect.paced {S : SummationServer} {s : S.System} {e : Event} (hpaces : Paces s e)
    {n : ℕ} {p p' : Peer} {c c' : Option Multiplexing.Connection} (hp : s.peers[n]? = some p)
    (heffect : PeerEffect e n p c p' c') (h : Paced p c) : Paced p' c' := by
  cases heffect with
  | same => exact h
  | entered errno buffer stack result he hphase =>
      subst he
      have hunread := hpaces p hp
      refine ⟨?_, h.reads⟩
      simp only [Peer.enter, hunread, List.nil_append, length_ints]
      have hone := Option.length_toList_le (o := (p.client.enter errno buffer stack result).2)
      omega
  | received result hphase hclosed hwritten => exact ⟨h.unread, h.reads⟩
  | interrupted => exact ⟨h.unread, h.reads⟩
  | accepted fd => exact ⟨h.unread, by simp⟩
  | read hopen hreadable hreads =>
      have hchunk : p.chunk.bytes.length ≤ p.unread.length := List.length_take_le' _ _
      refine ⟨(List.drop_sublist _ _).length_le.trans h.unread, fun chunk hmem => ?_⟩
      rw [Option.elim_some, hreads] at hmem
      rcases List.mem_append.mp hmem with hmem | hmem
      · exact h.reads chunk hmem
      · rw [List.mem_singleton.mp hmem]
        exact hchunk.trans h.unread

structure Starved (p : Peer) (c : Option Multiplexing.Connection) : Prop where
  shown : p.shown = none
  phase : p.client.phase ≠ .sending
  waiting : p.client.phase = .receiving → p.unread = [] ∧ ∃ d, c = some d ∧ d.isOpen = true

theorem PeerEffect.starved {e : Event} {n : ℕ} {p p' : Peer}
    {c c' : Option Multiplexing.Connection} (heffect : PeerEffect e n p c p' c')
    (h : Starved p c) : Starved p' c' := by
  cases heffect with
  | same => exact h
  | entered errno buffer stack result he hphase => exact absurd hphase h.phase
  | received result hphase hclosed hwritten =>
      obtain ⟨-, d, hd, hopen⟩ := h.waiting hphase
      rw [← Option.some.inj hd, hclosed] at hopen
      exact absurd hopen Bool.false_ne_true
  | interrupted => exact ⟨h.shown, by simp [Peer.interrupt], by simp [Peer.interrupt]⟩
  | accepted fd =>
      refine ⟨h.shown, h.phase, fun hphase => ?_⟩
      obtain ⟨-, d, hnone, -⟩ := h.waiting hphase
      exact absurd hnone.symm (Option.some_ne_none d)
  | read hopen hreadable hreads =>
      refine ⟨h.shown, h.phase, fun hphase => ?_⟩
      have hphase' : p.client.phase = .receiving := hphase
      simp [Peer.readable, (h.waiting hphase').1, hphase'] at hreadable

section Runs

variable {S : SummationServer} {Inv : S.State → Prop}

/-- Every client is as described, and what it shows comes from a server that answers. -/
theorem System.Ok.answered {s : S.System} (h : s.Ok Inv) (hsums : Sums S Inv) {n : ℕ}
    (d : Multiplexing.Connection) (hd : s.connections[n]? = some d) (hclosed : d.isOpen = false) :
    d.Answered :=
  hsums.answered _ h.server d (List.mem_of_getElem? hd) hclosed

/-- A client that waits for the result of a closed connection shows all it typed. -/
theorem System.Ok.receives {s : S.System}
    (hok : s.Ok Inv) (hsums : Sums S Inv) (hall : s.All PeerOk) (hpaced : s.All Paced) {n : ℕ}
    {p : Peer} {c : Multiplexing.Connection} (hp : s.peers[n]? = some p)
    (hc : s.connections[n]? = some c) (hphase : p.client.phase = .receiving)
    (hclosed : c.isOpen = false) :
    ∃ s' q, s.step (.receive n) = some s' ∧ s'.peers[n]? = some q ∧
      q.shown = some (ascii (resultText ((typedInts p.typed).takeWhile (· ≠ 0)).sum)) := by
  have hpeer := hall n p hp
  have hpace := hpaced n p hp
  rw [hc] at hpeer hpace
  obtain ⟨result, hwritten, hserve⟩ := hok.answered hsums c hc hclosed
  have hstep : s.step (.receive n) =
      some { s with peers := s.peers.set n (p.receive (resultChunk result)) } := by
    simp [System.step, hp, hphase, hc, hwritten]
  have hsummed := (hpeer.receive hphase hclosed hwritten).allSummed
    (fun d hd _ => Option.some.inj hd ▸ ⟨result, hwritten, hserve⟩) ⟨hpace.unread, hpace.reads⟩
  refine ⟨_, _, hstep, List.getElem?_set_self (List.getElem?_eq_some_iff.mp hp).1, ?_⟩
  exact congrArg some (hsummed _ rfl).2

theorem System.Ok.init {server : S.State} (hinv : Inv server) (hnone : S.connections server = []) :
    System.Ok Inv ⟨server, []⟩ :=
  ⟨hinv, by simp [System.connections, hnone]⟩

/-- What holds in every state in order holds throughout a run. -/
theorem throughout_of_ok (hsums : Sums S Inv) {P : S.System → Prop} (hP : ∀ s, s.Ok Inv → P s)
    {server : S.State} (hinv : Inv server) (hnone : S.connections server = [])
    (events : List Event) : Throughout System.step P ⟨server, []⟩ events := by
  have hstep : ∀ (s : S.System) (e : Event) (s' : S.System), s.Ok Inv → s.step e = some s' →
      s'.Ok Inv := fun s e s' h hstep => (h.step hsums hstep).1
  exact throughout_of_invariant hstep hP (System.Ok.init hinv hnone) events

theorem System.all_init (Q : Peer → Option Multiplexing.Connection → Prop) (server : S.State) :
    System.All Q (⟨server, []⟩ : S.System) :=
  fun n p hp => absurd hp (by simp)

theorem System.Ok.step_peerOk {s s' : S.System} {e : Event} (h : s.Ok Inv) (hsums : Sums S Inv)
    (hall : s.All PeerOk) (hstep : s.step e = some s') : s'.Ok Inv ∧ s'.All PeerOk :=
  ⟨(h.step hsums hstep).1, h.all_step hsums PeerOk.init
    (fun _ _ _ _ _ _ heffect hp => heffect.peerOk hp) hall hstep⟩

theorem System.Ok.step_paced {s s' : S.System} {e : Event} (h : s.Ok Inv) (hsums : Sums S Inv)
    (hpaced : s.All Paced) (hpaces : Paces s e) (hstep : s.step e = some s') : s'.All Paced :=
  h.all_step hsums (fun stdin => ⟨by simp [Peer.init], by simp⟩)
    (fun _ _ _ _ _ hp heffect hq => heffect.paced hpaces hp hq) hpaced hstep

theorem throughout_firstsSummed (hsums : Sums S Inv) {server : S.State} (hinv : Inv server)
    (hnone : S.connections server = []) (events : List Event) :
    Throughout System.step (System.All FirstsSummed) (⟨server, []⟩ : S.System) events := by
  have hstep : ∀ (s : S.System) (e : Event) (s' : S.System), s.Ok Inv ∧ s.All PeerOk →
      s.step e = some s' → s'.Ok Inv ∧ s'.All PeerOk := fun s e s' h => h.1.step_peerOk hsums h.2
  refine throughout_of_invariant hstep ?_ ⟨System.Ok.init hinv hnone, System.all_init _ _⟩ events
  exact fun s ⟨hok, hall⟩ n p hp => (hall n p hp).firstsSummed fun d hd => hok.answered hsums d hd

theorem throughout_allSummed (hsums : Sums S Inv) {server : S.State} (hinv : Inv server)
    (hnone : S.connections server = []) {events : List Event}
    (hpaces : Along System.step Paces (⟨server, []⟩ : S.System) events) :
    Throughout System.step (fun s : S.System => ∀ p ∈ s.peers, AllSummed p ∧ LinesSummed p)
      ⟨server, []⟩ events := by
  refine throughout_of_along (fun s : S.System => s.Ok Inv ∧ s.All PeerOk ∧ s.All Paced) ?_ ?_
    ⟨System.Ok.init hinv hnone, System.all_init _ _, System.all_init _ _⟩ hpaces
  · rintro s e s' ⟨hok, hall, hpaced⟩ hpace hstep
    obtain ⟨hok', hall'⟩ := hok.step_peerOk hsums hall hstep
    exact ⟨hok', hall', hok.step_paced hsums hpaced hpace hstep⟩
  · rintro s ⟨hok, hall, hpaced⟩ p hp
    obtain ⟨n, hn⟩ := List.getElem?_of_mem hp
    have hsummed := (hall n p hn).allSummed (fun d hd => hok.answered hsums d hd) (hpaced n p hn)
    exact ⟨hsummed, hsummed.linesSummed⟩

theorem System.Ok.throughout_starved {s : S.System} (h : s.Ok Inv) (hsums : Sums S Inv) {n : ℕ}
    {p : Peer} (hp : s.peers[n]? = some p) (hstarved : Starved p s.connections[n]?)
    (events : List Event) :
    Throughout System.step (fun s : S.System => ∀ p, s.peers[n]? = some p → p.shown = none) s
      events := by
  have hlength : n < s.peers.length := (List.getElem?_eq_some_iff.mp hp).1
  have hall : ∀ q, s.peers[n]? = some q → Starved q s.connections[n]? := by
    intro q hq
    exact Option.some.inj (hp.symm.trans hq) ▸ hstarved
  have hstep : ∀ (s : S.System) (e : Event) (s' : S.System), (s.Ok Inv ∧ n < s.peers.length ∧
      ∀ q, s.peers[n]? = some q → Starved q s.connections[n]?) → s.step e = some s' →
        s'.Ok Inv ∧ n < s'.peers.length ∧
          ∀ q, s'.peers[n]? = some q → Starved q s'.connections[n]? := by
    rintro s e s' ⟨hok, hlength, hall⟩ hstep
    obtain ⟨hok', hchanges⟩ := hok.step hsums hstep
    refine ⟨hok', hlength.trans_le (System.length_peers_le hstep), fun q hq => ?_⟩
    rcases hchanges n q hq with ⟨p, hp, heffect⟩ | ⟨hnone, -⟩
    · exact heffect.starved (hall p hp)
    · exact absurd (List.getElem?_eq_none_iff.mp hnone) (not_le.mpr hlength)
  exact throughout_of_invariant hstep (fun s hs q hq => (hs.2.2 q hq).shown) ⟨h, hlength, hall⟩
    events

/-- Once the server has read all that a waiting client wrote and keeps the connection open, the client
is never shown a result. -/
def WaitsForEver (n : ℕ) (s : S.System) : Prop :=
  ∀ p c, s.peers[n]? = some p → s.connections[n]? = some c → p.client.phase = .receiving →
    c.isOpen = true → p.unread = [] → ∀ later : List Event,
      Throughout System.step (fun t : S.System => ∀ q, t.peers[n]? = some q → q.shown = none) s later

theorem throughout_waitsForEver (hsums : Sums S Inv) {server : S.State} (hinv : Inv server)
    (hnone : S.connections server = []) (events : List Event) :
    Throughout System.step (fun s : S.System => ∀ n, WaitsForEver n s) ⟨server, []⟩ events := by
  have hstep : ∀ (s : S.System) (e : Event) (s' : S.System), s.Ok Inv ∧ s.All PeerOk →
      s.step e = some s' → s'.Ok Inv ∧ s'.All PeerOk := fun s e s' h => h.1.step_peerOk hsums h.2
  refine throughout_of_invariant hstep ?_ ⟨System.Ok.init hinv hnone, System.all_init _ _⟩ events
  rintro s ⟨hok, hall⟩ n p c hp hc hphase hopen hunread later
  have hshown := (hall n p hp).shown_eq_none (by simp [hphase])
  exact hok.throughout_starved hsums hp
    ⟨hshown, by simp [hphase], fun _ => ⟨hunread, c, hc, hopen⟩⟩ later

end Runs

end SummationServer

end LinuxIPC
