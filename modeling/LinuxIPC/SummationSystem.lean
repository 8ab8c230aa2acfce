import LinuxIPC.MultiplexedSums
import LinuxIPC.SummationClient

/-!
# Clients of a summation server (`unix_domain_sockets`)

Any number of clients are connected by stream sockets to a server. The bytes that a client has
written wait in its socket until the server reads them; one `read` delivers all of them, up to
`BUFFER_SIZE`. The server may be any that reads what `select` finds ready and answers a client as the
single-client server would.
-/

namespace LinuxIPC

open CString Runs NoMultiplexing SummationClient

structure SummationServer where
  State : Type
  step : State → Multiplexing.Wakeup → Option State
  connections : State → List Multiplexing.Connection
  connectionSocket : State → ℤ

/-- A client, with what was typed, the ints it wrote, those of their bytes that the server has not
read, and the result it showed. -/
structure Peer where
  client : SummationClient.Client
  typed : List UInt8
  written : List (BitVec 32)
  unread : List UInt8
  shown : Option (List UInt8)

def Peer.init (stdin : List UInt8) : Peer := ⟨SummationClient.Client.init stdin, stdin, [], [], none⟩

def ints (values : List (BitVec 32)) : List UInt8 := values.flatMap intBytes

def Peer.enter (p : Peer) (errno : ℤ) (buffer : CharArray intLen) (stack : List UInt8)
    (result : WriteResult) : Peer :=
  let (client, sent) := p.client.enter errno buffer stack result
  { p with
    client
    written := p.written ++ sent.toList
    unread := p.unread ++ ints sent.toList }

/-- What follows the loop of `main`, given what the `read` delivers. -/
def Peer.receive (p : Peer) (chunk : Chunk) : Peer :=
  { p with client := { p.client with phase := .closed }, shown := some (shownText chunk) }

def Peer.interrupt (p : Peer) : Peer := { p with client := { p.client with phase := .closed } }

def Peer.chunk (p : Peer) : Chunk := ⟨p.unread.take bufferSize, List.length_take_le _ _⟩

def Peer.readable (p : Peer) : Bool := p.unread ≠ [] || p.client.phase = .closed

def peerOf (connections : List Multiplexing.Connection) (peers : List Peer) (fd : ℤ) : Option Peer :=
  ((connections.zip peers).find? fun q => q.1.Owns fd).map Prod.snd

def takeReads (before after : List Multiplexing.Connection) (n : ℕ) (p : Peer) : Peer :=
  let reads := (after[n]?.elim [] Multiplexing.Connection.reads).drop
    (before[n]?.elim [] Multiplexing.Connection.reads).length
  { p with unread := p.unread.drop (reads.flatMap Chunk.bytes).length }

namespace SummationServer

variable (S : SummationServer)

/-- The clients in the order in which they connected, which is that of their acceptance. -/
structure System where
  server : S.State
  peers : List Peer

/-- A client connects, goes through its loop body, reads the result or is interrupted; or the server
finds descriptors ready, of which those with nothing to read are not. -/
inductive Event
  | connect (stdin : List UInt8)
  | enter (n : ℕ) (errno : ℤ) (buffer : CharArray intLen) (stack : List UInt8)
    (result : WriteResult)
  | receive (n : ℕ)
  | interrupt (n : ℕ)
  | serve (ready : List ℤ) (dataSocket : ℤ) (console : Option Chunk)

variable {S}

def System.connections (s : S.System) : List Multiplexing.Connection := S.connections s.server

def System.peerOf (s : S.System) (fd : ℤ) : Option Peer := LinuxIPC.peerOf s.connections s.peers fd

def System.readable (s : S.System) (fd : ℤ) : Bool :=
  if fd = S.connectionSocket s.server then s.connections.length < s.peers.length
  else fd = 0 || (s.peerOf fd).any Peer.readable

def System.wakeup (s : S.System) (ready : List ℤ) (dataSocket : ℤ) (console : Option Chunk) :
    Multiplexing.Wakeup where
  ready := ready.filter s.readable
  dataSocket := dataSocket
  data := fun fd => if fd = 0 then console else (s.peerOf fd).map Peer.chunk

/-- An event that is not possible in a state is no step; nor does the server step on when it exits. -/
def System.step (s : S.System) : Event → Option S.System
  | .connect stdin => some { s with peers := s.peers ++ [Peer.init stdin] }
  | .enter n errno buffer stack result =>
    s.peers[n]?.bind fun p =>
      if p.client.phase = .sending then
        some { s with peers := s.peers.set n (p.enter errno buffer stack result) }
      else none
  | .receive n =>
    s.peers[n]?.bind fun p =>
      if p.client.phase = .receiving then
        (s.connections[n]?.bind fun c => c.written.head?).map fun result =>
          { s with peers := s.peers.set n (p.receive (resultChunk result)) }
      else none
  | .interrupt n =>
    s.peers[n]?.map fun p => { s with peers := s.peers.set n p.interrupt }
  | .serve ready dataSocket console =>
    (S.step s.server (s.wakeup ready dataSocket console)).map fun server =>
      ⟨server, s.peers.mapIdx (takeReads s.connections (S.connections server))⟩

structure ReadsChunk (w : Multiplexing.Wakeup) (c c' : Multiplexing.Connection) : Prop where
  isOpen : c.isOpen = true
  ready : c.dataSocket ∈ w.ready
  reads : ∃ chunk, w.data c.dataSocket = some chunk ∧ c'.reads = c.reads ++ [chunk]

inductive ConnectionsStep (connectionSocket : ℤ) (w : Multiplexing.Wakeup)
    (connections : List Multiplexing.Connection) : List Multiplexing.Connection → Prop
  | accepted (hready : connectionSocket ∈ w.ready) :
      ConnectionsStep connectionSocket w connections (connections ++ [⟨w.dataSocket, true, [], []⟩])
  | served {connections' : List Multiplexing.Connection}
      (hlength : connections'.length = connections.length)
      (hreads : ∀ (n : ℕ) (c : Multiplexing.Connection), connections[n]? = some c →
        ∃ c', connections'[n]? = some c' ∧ (c' = c ∨ ReadsChunk w c c')) :
      ConnectionsStep connectionSocket w connections connections'

/-- In the states with the invariant, the server steps as described, and a connection is open and
nothing is written to it, or it is closed and was answered like by the single-client server. -/
structure Sums (S : SummationServer) (Inv : S.State → Prop) : Prop where
  inv : ∀ s w s', Inv s → S.step s w = some s' → Inv s'
  step : ∀ s w s', Inv s → S.step s w = some s' →
    ConnectionsStep (S.connectionSocket s) w (S.connections s) (S.connections s')
  distinct : ∀ s, Inv s → (S.connections s).Pairwise fun c d =>
    c.isOpen = true → d.isOpen = true → c.dataSocket ≠ d.dataSocket
  dataSocket : ∀ s, Inv s → ∀ c ∈ S.connections s, c.isOpen = true →
    c.dataSocket ≠ 0 ∧ c.dataSocket ≠ S.connectionSocket s
  waiting : ∀ s, Inv s → ∀ c ∈ S.connections s, c.isOpen = true → c.written = []
  answered : ∀ s, Inv s → ∀ c ∈ S.connections s, c.isOpen = false → c.Answered

end SummationServer

end LinuxIPC
