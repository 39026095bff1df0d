import RyuLib.Socket.ServerFrame
import RyuLib.Socket.ReaderRuns

/-!
# The connections of a server, one by one

What one connection sees of a server is a reader (`lane`), and every step of the
server moves it (`follows`).  The invariant behind this is `WellFormed`: at most one
read is pending on a connection, it goes to that connection's receive buffer, and a
connection that has not started has nothing at all.
-/

namespace RyuLib.SocketServer

open Foundations Reading

/-- What an event is for the connection `c`. -/
def lifeEvent (c : ConnectionPtr) : ServerEvent → Option LifeEvent
  | .error _ _ => none
  | .connected d => if d = c then some .connected else none
  | .disconnected d => if d = c then some .disconnected else none
  | .received d packet => if d = c then some (.received packet) else none

/-- The connection `c` as a reader. -/
def lane (c : ConnectionPtr) (s : SocketServer) : Lane Address where
  packet := s.memory (.packet c)
  started := (s.connections c).started
  pending := (s.connections c).socket.reads.head?
  incoming := (s.connections c).socket.incoming
  events := s.events.filterMap (lifeEvent c)

/-- What a turn is for the connection `c`. -/
def action (c : ConnectionPtr) (s : SocketServer) (turn : Turn) : Action :=
  match turn.input with
  | .accept error => if s.accepting = c ∧ error = false then .start else .idle
  | .readSome d _ bytes => if d = c then .readSome bytes else .idle
  | .readDone d _ => if d = c then .readDone else .idle
  | .readFailed d _ => if d = c then .readFailed else .idle
  | .writeFailed d _ => if d = c then .writeFailed else .idle
  | _ => .idle

/-- The sizes `handle_read_header` reports. -/
def rejects (size : ℕ) : Bool := decide (packetLimit < size)

/-! ## Well-formed servers -/

structure WellFormed (s : SocketServer) : Prop where
  fresh : ∀ c, (s.connections c).started = false →
    s.connections c = {} ∧ s.events.filterMap (lifeEvent c) = []
  waiting : ∀ c, s.accepting ≤ c → (s.connections c).started = false
  created : s.created = s.accepting + 1
  listed : ListedStarted s
  oneRead : ∀ c, (s.connections c).socket.reads.length ≤ 1
  address : ∀ c, ∀ op ∈ (s.connections c).socket.reads, op.address = .packet c
  isOpen : ∀ c, (s.connections c).socket.isOpen = true

theorem SendsOnly.lane {s s' : SocketServer} (h : SendsOnly s s') (c : ConnectionPtr) :
    s'.lane c = s.lane c := by
  simp only [SocketServer.lane, h.packet, h.started, h.reads, h.incoming, h.events]

theorem SendsOnly.wellFormed {s s' : SocketServer} (h : SendsOnly s s') (hs : WellFormed s) :
    WellFormed s' where
  fresh c hc := by
    rw [h.started] at hc
    rw [h.untouched c hc, h.events]
    exact hs.fresh c hc
  waiting c hc := by
    rw [h.accepting] at hc
    rw [h.started]
    exact hs.waiting c hc
  created := by rw [h.created, h.accepting, hs.created]
  listed := h.listedStarted hs.listed
  oneRead c := by
    rw [h.reads]
    exact hs.oneRead c
  address c := by
    rw [h.reads]
    exact hs.address c
  isOpen c := by
    rw [h.isOpen]
    exact hs.isOpen c

/-- A pending read is the only one. -/
theorem WellFormed.reads_eq {s : SocketServer} (hs : WellFormed s) {c : ConnectionPtr} {i : ℕ}
    {op : ReadOp ReadHandler Address} (hop : (s.connections c).socket.reads[i]? = some op) :
    (s.connections c).socket.reads = [op] ∧ i = 0 :=
  StreamSocket.eq_singleton_of_getElem? (hs.oneRead c) hop

/-- A connection with a pending operation has started. -/
theorem WellFormed.started {s : SocketServer} (hs : WellFormed s) {c : ConnectionPtr}
    (h : (s.connections c).socket.reads ≠ [] ∨ (s.connections c).socket.writes ≠ []) :
    (s.connections c).started = true := by
  by_contra hnot
  have hfresh := (hs.fresh c (by simpa using hnot)).1
  rw [hfresh] at h
  simp at h

/-! ## Steps on one connection -/

/-- `s'` is `s` but for the connection `c`, which has started. -/
structure Touches (c : ConnectionPtr) (s s' : SocketServer) : Prop where
  accepting : s'.accepting = s.accepting
  created : s'.created = s.created
  started : (s'.connections c).started = (s.connections c).started
  listed : ∀ d ≠ c, (d ∈ s'.connectionList ↔ d ∈ s.connectionList)
  connections : ∀ d ≠ c, s'.connections d = s.connections d
  packet : ∀ d ≠ c, s'.memory (.packet d) = s.memory (.packet d)
  events : ∀ d ≠ c, s'.events.filterMap (lifeEvent d) = s.events.filterMap (lifeEvent d)

namespace Touches

variable {c : ConnectionPtr}

theorem trans {s t u : SocketServer} (hst : Touches c s t) (htu : Touches c t u) :
    Touches c s u where
  accepting := htu.accepting.trans hst.accepting
  created := htu.created.trans hst.created
  started := htu.started.trans hst.started
  listed d hd := (htu.listed d hd).trans (hst.listed d hd)
  connections d hd := (htu.connections d hd).trans (hst.connections d hd)
  packet d hd := (htu.packet d hd).trans (hst.packet d hd)
  events d hd := (htu.events d hd).trans (hst.events d hd)

theorem lane {s s' : SocketServer} (h : Touches c s s') {d : ConnectionPtr} (hd : d ≠ c) :
    s'.lane d = s.lane d := by
  simp only [SocketServer.lane, h.packet d hd, h.connections d hd, h.events d hd]

theorem wellFormed {s s' : SocketServer} (h : Touches c s s') (hs : WellFormed s)
    (hc : (s.connections c).started = true) (hone : (s'.connections c).socket.reads.length ≤ 1)
    (haddress : ∀ op ∈ (s'.connections c).socket.reads, op.address = .packet c)
    (hopen : (s'.connections c).socket.isOpen = true) : WellFormed s' := by
  have hstarted : ∀ d, (s'.connections d).started = (s.connections d).started := by
    intro d
    by_cases hd : d = c
    · rw [hd, h.started]
    · rw [h.connections d hd]
  refine ⟨?_, ?_, by rw [h.created, h.accepting, hs.created], ?_, ?_, ?_, ?_⟩
  · intro d hunstarted
    rw [hstarted] at hunstarted
    have hd : d ≠ c := by
      rintro rfl
      rw [hc] at hunstarted
      cases hunstarted
    rw [h.connections d hd, h.events d hd]
    exact hs.fresh d hunstarted
  · intro d hle
    rw [hstarted]
    exact hs.waiting d (h.accepting ▸ hle)
  · intro d hmem
    rw [hstarted]
    by_cases hd : d = c
    · rw [hd, hc]
    · exact hs.listed d ((h.listed d hd).mp hmem)
  · intro d
    by_cases hd : d = c
    · rw [hd]
      exact hone
    · rw [h.connections d hd]
      exact hs.oneRead d
  · intro d
    by_cases hd : d = c
    · rw [hd]
      exact haddress
    · rw [h.connections d hd]
      exact hs.address d
  · intro d
    by_cases hd : d = c
    · rw [hd]
      exact hopen
    · rw [h.connections d hd]
      exact hs.isOpen d

end Touches

theorem touches_modify (s : SocketServer) (c : ConnectionPtr) {f : Connection → Connection}
    (hf : (f (s.connections c)).started = (s.connections c).started) :
    Touches c s (s.modify c f) :=
  ⟨rfl, rfl, by simp [modify, hf], fun _ _ => Iff.rfl, fun _ hd => Function.update_of_ne hd _ _,
    fun _ _ => rfl, fun _ _ => rfl⟩

theorem touches_memory (s : SocketServer) {c : ConnectionPtr} {memory : Heap Address UInt8}
    (hmemory : ∀ d ≠ c, memory (.packet d) = s.memory (.packet d)) :
    Touches c s { s with memory := memory } :=
  ⟨rfl, rfl, rfl, fun _ _ => Iff.rfl, fun _ _ => rfl, hmemory, fun _ _ => rfl⟩

theorem touches_setSocket (s : SocketServer) (c : ConnectionPtr)
    (socket : StreamSocket ReadHandler Address UInt8) : Touches c s (s.setSocket c socket) :=
  touches_modify s c rfl

theorem touches_log (s : SocketServer) {c : ConnectionPtr} {event : ServerEvent}
    (hevent : ∀ d ≠ c, lifeEvent d event = none) : Touches c s (s.log event) :=
  ⟨rfl, rfl, rfl, fun _ _ => Iff.rfl, fun _ _ => rfl, fun _ _ => rfl,
    fun d hd => by simp [log, List.filterMap_append, hevent d hd]⟩

theorem touches_disconnected (s : SocketServer) (c : ConnectionPtr) :
    Touches c s (s.fireDisconnectedEvent quiet c) :=
  ⟨rfl, rfl, by simp [fireDisconnectedEvent, log, modify, Connection.doDisconnected],
    fun d hd => by simp [fireDisconnectedEvent, log, modify, hd],
    fun d hd => by simp [fireDisconnectedEvent, log, modify, hd], fun _ _ => rfl,
    fun d hd => by
      simp [fireDisconnectedEvent, log, modify, List.filterMap_append, lifeEvent, Ne.symm hd]⟩

/-! ## Lanes of the handlers -/

@[simp] theorem lane_setSocket (s : SocketServer) (c : ConnectionPtr)
    (socket : StreamSocket ReadHandler Address UInt8) :
    (s.setSocket c socket).lane c =
      { s.lane c with pending := socket.reads.head?, incoming := socket.incoming } := by
  simp [lane, setSocket, modify]

theorem lane_log (s : SocketServer) (c : ConnectionPtr) (event : ServerEvent) :
    (s.log event).lane c =
      { s.lane c with events := (s.lane c).events ++ (lifeEvent c event).toList } := by
  simp [lane, log, List.filterMap_append, List.filterMap_cons]
  cases lifeEvent c event <;> rfl

theorem lane_fireDisconnectedEvent (s : SocketServer) (c : ConnectionPtr) :
    (s.fireDisconnectedEvent quiet c).lane c =
      { s.lane c with events := (s.lane c).events ++ [.disconnected] } := by
  simp [lane, fireDisconnectedEvent, log, modify, Connection.doDisconnected,
    List.filterMap_append, lifeEvent]

theorem socket_fireDisconnectedEvent (s : SocketServer) (c : ConnectionPtr) :
    ((s.fireDisconnectedEvent quiet c).connections c).socket = (s.connections c).socket := by
  simp [fireDisconnectedEvent, log, modify, Connection.doDisconnected]

theorem lane_asyncRead (s : SocketServer) (c : ConnectionPtr) (handler : ReadHandler)
    (offset length : ℕ) (hreads : (s.connections c).socket.reads = []) :
    (s.asyncRead c handler offset length).lane c =
      { s.lane c with pending := some ⟨handler, length, .packet c, offset, length⟩ } := by
  rw [asyncRead, lane_setSocket]
  simp [StreamSocket.asyncRead, hreads, lane]

theorem reads_asyncRead (s : SocketServer) (c : ConnectionPtr) (handler : ReadHandler)
    (offset length : ℕ) (hreads : (s.connections c).socket.reads = []) :
    ((s.asyncRead c handler offset length).connections c).socket.reads =
      [⟨handler, length, .packet c, offset, length⟩] := by
  simp [asyncRead, setSocket, modify, StreamSocket.asyncRead, hreads]

/-- What a handler did on the connection `c`: nothing elsewhere, and `l` is what the
connection looks like now. -/
structure Handles (c : ConnectionPtr) (s s' : SocketServer) (l : Lane Address) : Prop where
  touches : Touches c s s'
  lane : s'.lane c = l
  reads : (s'.connections c).socket.reads = l.pending.toList
  isOpen : (s'.connections c).socket.isOpen = (s.connections c).socket.isOpen

theorem handles_asyncRead {s s' : SocketServer} {c : ConnectionPtr} {l : Lane Address}
    (h : Handles c s s' l) (hpending : l.pending = none) (handler : ReadHandler)
    (offset length : ℕ) :
    Handles c s (s'.asyncRead c handler offset length)
      { l with pending := some ⟨handler, length, .packet c, offset, length⟩ } := by
  have hreads : (s'.connections c).socket.reads = [] := by rw [h.reads, hpending]; rfl
  refine ⟨h.touches.trans (touches_setSocket s' c _), ?_, ?_, ?_⟩
  · rw [lane_asyncRead s' c handler offset length hreads, h.lane]
  · exact reads_asyncRead s' c handler offset length hreads
  · rw [← h.isOpen]
    simp [asyncRead, setSocket, modify, StreamSocket.asyncRead]

theorem handles_disconnected {s s' : SocketServer} {c : ConnectionPtr} {l : Lane Address}
    (h : Handles c s s' l) :
    Handles c s (s'.fireDisconnectedEvent quiet c)
      { l with events := l.events ++ [.disconnected] } := by
  refine ⟨h.touches.trans (touches_disconnected s' c), ?_, ?_, ?_⟩
  · rw [lane_fireDisconnectedEvent, h.lane]
  · rw [socket_fireDisconnectedEvent]
    exact h.reads
  · rw [socket_fireDisconnectedEvent]
    exact h.isOpen

theorem handles_log {s s' : SocketServer} {c : ConnectionPtr} {l : Lane Address}
    (h : Handles c s s' l) (event : ServerEvent) (hevent : ∀ d ≠ c, lifeEvent d event = none) :
    Handles c s (s'.log event) { l with events := l.events ++ (lifeEvent c event).toList } := by
  refine ⟨h.touches.trans (touches_log s' hevent), ?_, h.reads, h.isOpen⟩
  rw [lane_log, h.lane]

theorem handles_readHeader {s s' : SocketServer} {c : ConnectionPtr} {l : Lane Address}
    (h : Handles c s s' l) (hpending : l.pending = none) :
    Handles c s (s'.handleReadHeader quiet c false)
      { l with
        pending := some (bodyRead (.packet c) l.packet)
        events := l.events ++ headerEvents rejects (Packet.packetSize l.packet) } := by
  have hpacket : s'.memory (.packet c) = l.packet := congrArg Lane.packet h.lane
  simp only [handleReadHeader, if_true]
  split
  · rename_i hover
    have hevents : headerEvents rejects (Packet.packetSize l.packet) = [.disconnected] := by
      rw [hpacket] at hover
      simp [headerEvents, rejects, hover]
    have hlogged := handles_disconnected
      (handles_log h (.error (-1) "packet_->packet_size > PACKET_LIMIT") fun _ _ => rfl)
    have hpacket' := congrArg Lane.packet hlogged.lane
    have hread := handles_asyncRead hlogged hpending .body 3 (sizeT (Packet.getDataSize l.packet))
    simp only [lane] at hpacket'
    rw [hevents, fireErrorEvent, fire_quiet, hpacket']
    simpa [lifeEvent, bodyRead] using hread
  · rename_i hle
    have hevents : headerEvents rejects (Packet.packetSize l.packet) = [] := by
      rw [hpacket] at hle
      simp [headerEvents, rejects, hle]
    rw [hevents, List.append_nil, hpacket]
    exact handles_asyncRead h hpending .body 3 _

theorem handles_readBody {s s' : SocketServer} {c : ConnectionPtr} {l : Lane Address}
    (h : Handles c s s' l) (hpending : l.pending = none) :
    Handles c s (s'.handleReadBody quiet c false)
      { l with
        pending := some (headerRead (.packet c))
        events := l.events ++ [.received l.packet] } := by
  have hpacket : s'.memory (.packet c) = l.packet := congrArg Lane.packet h.lane
  simp only [handleReadBody, if_true, fireReceivedEvent, fire_quiet, hpacket]
  have hlogged := handles_log h (.received c l.packet)
    (by intro d hd; simp [lifeEvent, Ne.symm hd])
  simpa [lifeEvent, headerRead] using handles_asyncRead hlogged hpending .header 0 headerSize

/-! ## Steps -/

/-- A step that concerns the connection `c` only. -/
theorem Handles.moves {s s' : SocketServer} {c : ConnectionPtr} {l : Lane Address}
    {turn : Turn} {a : Action} (h : Handles c s s' l) (hs : WellFormed s)
    (hstarted : (s.connections c).started = true) (hmove : Moves rejects (.packet c) (s.lane c) a l)
    (haddress : ∀ op, l.pending = some op → op.address = .packet c)
    (haction : ∀ d, action d s turn = if c = d then a else .idle) :
    WellFormed s' ∧
      ∀ d, Moves rejects (.packet d) (s.lane d) (action d s turn) (s'.lane d) := by
  constructor
  · refine h.touches.wellFormed hs hstarted ?_ ?_ (h.isOpen.trans (hs.isOpen c))
    · rw [h.reads]
      cases l.pending <;> simp
    · intro op hop
      rw [h.reads, Option.mem_toList] at hop
      exact haddress op hop
  · intro d
    rw [haction]
    by_cases hd : c = d
    · subst hd
      rw [if_pos rfl, h.lane]
      exact hmove
    · rw [if_neg hd, h.touches.lane (Ne.symm hd)]
      exact Moves.idle _

/-- Taking the pending read away. -/
theorem WellFormed.handles_erase {s : SocketServer} (hs : WellFormed s) {c : ConnectionPtr} {i : ℕ}
    {op : ReadOp ReadHandler Address} (hop : (s.connections c).socket.reads[i]? = some op) :
    Handles c s
      (s.setSocket c
        { (s.connections c).socket with reads := (s.connections c).socket.reads.eraseIdx i })
      { s.lane c with pending := none } := by
  obtain ⟨hreads, rfl⟩ := hs.reads_eq hop
  refine ⟨touches_setSocket s c _, ?_, ?_, ?_⟩
  · rw [lane_setSocket, hreads]
    rfl
  · simp [setSocket, modify, hreads]
  · simp [setSocket, modify]

theorem WellFormed.pending_eq {s : SocketServer} (hs : WellFormed s) {c : ConnectionPtr} {i : ℕ}
    {op : ReadOp ReadHandler Address} (hop : (s.connections c).socket.reads[i]? = some op) :
    (s.lane c).pending = some op := by
  simp [lane, (hs.reads_eq hop).1]

theorem WellFormed.readSome {s s' : SocketServer} {callbacks : Callbacks} {c : ConnectionPtr}
    {i : ℕ} {bytes : List UInt8} (hs : WellFormed s)
    (hstep : step s ⟨.readSome c i bytes, callbacks⟩ = some s') :
    WellFormed s' ∧ ∀ d, Moves rejects (.packet d) (s.lane d)
      (action d s ⟨.readSome c i bytes, callbacks⟩) (s'.lane d) := by
  obtain ⟨⟨memory, socket⟩, hread, rfl⟩ := Option.map_eq_some_iff.mp hstep
  obtain ⟨op, hop, _, _, hle, rfl, rfl⟩ := StreamSocket.readSome_cases hread
  obtain ⟨hreads, rfl⟩ := hs.reads_eq hop
  have haddress : op.address = .packet c :=
    hs.address c op (by rw [hreads]; exact List.mem_cons_self)
  have hpending := hs.pending_eq hop
  have hstarted := hs.started (Or.inl (by simp [hreads] : (s.connections c).socket.reads ≠ []))
  -- other connections have receive buffers of their own
  have hmemory : ∀ d ≠ c, s.memory.store op.address op.offset bytes (.packet d) =
      s.memory (.packet d) := by
    intro d hd
    simp [Heap.store, haddress, hd]
  have htouches := (touches_memory s hmemory).trans (touches_setSocket _ c
    { (s.connections c).socket with
      incoming := (s.connections c).socket.incoming ++ bytes
      reads := (s.connections c).socket.reads.set 0
        { op with
          offset := op.offset + bytes.length
          remaining := op.remaining - bytes.length } })
  refine Handles.moves (a := .readSome bytes) ⟨htouches, rfl, ?_, ?_⟩ hs hstarted ?_ ?_ ?_
  · simp [setSocket, modify, lane, hreads]
  · simp [setSocket, modify]
  · have hmove : Moves rejects (Address.packet c) _ _ _ := Moves.readSome hpending hle
    simpa [setSocket, modify, lane, hreads, Heap.store, haddress] using hmove
  · simp [setSocket, modify, lane, hreads, haddress]
  · intro d
    simp [action]

theorem WellFormed.readDone {s s' : SocketServer} {c : ConnectionPtr} {i : ℕ} (hs : WellFormed s)
    (hstep : step s ⟨.readDone c i, quiet⟩ = some s') :
    WellFormed s' ∧ ∀ d, Moves rejects (.packet d) (s.lane d)
      (action d s ⟨.readDone c i, quiet⟩) (s'.lane d) := by
  obtain ⟨⟨handler, socket⟩, hread, rfl⟩ := Option.map_eq_some_iff.mp hstep
  obtain ⟨op, hop, hdone, rfl, rfl⟩ := StreamSocket.readDone_cases hread
  have hpending := hs.pending_eq hop
  have herase := hs.handles_erase hop
  have hstarted := hs.started (Or.inl (by rw [(hs.reads_eq hop).1]; simp))
  have haction : ∀ d, action d s ⟨.readDone c i, quiet⟩ = if c = d then .readDone else .idle :=
    fun _ => rfl
  simp only
  cases hhandler : op.handler with
  | header =>
      refine (handles_readHeader herase rfl).moves hs hstarted
        (Moves.headerDone hpending hhandler hdone) ?_ haction
      intro op' hop'
      obtain rfl := Option.some.inj hop'
      rfl
  | body =>
      refine (handles_readBody herase rfl).moves hs hstarted
        (Moves.bodyDone hpending hhandler hdone) ?_ haction
      intro op' hop'
      obtain rfl := Option.some.inj hop'
      rfl

theorem WellFormed.readFailed {s s' : SocketServer} {c : ConnectionPtr} {i : ℕ} (hs : WellFormed s)
    (hstep : step s ⟨.readFailed c i, quiet⟩ = some s') :
    WellFormed s' ∧ ∀ d, Moves rejects (.packet d) (s.lane d)
      (action d s ⟨.readFailed c i, quiet⟩) (s'.lane d) := by
  obtain ⟨⟨handler, socket⟩, hread, rfl⟩ := Option.map_eq_some_iff.mp hstep
  obtain ⟨op, hop, rfl, rfl⟩ := StreamSocket.readFailed_cases hread
  have hdisconnected := handles_disconnected (hs.handles_erase hop)
  have hstarted := hs.started (Or.inl (by rw [(hs.reads_eq hop).1]; simp))
  -- both handlers do the same with an error
  have hhandlers : ∀ u : SocketServer, u.handleRead quiet c true op.handler =
      u.fireDisconnectedEvent quiet c := by
    intro u
    cases op.handler <;> rfl
  simp only [hhandlers]
  exact hdisconnected.moves hs hstarted (Moves.readFailed (hs.pending_eq hop)) (by simp)
    fun _ => rfl

/-- The writes of a connection are not seen by its reader. -/
theorem handles_setWrites {s : SocketServer} (hs : WellFormed s) (c : ConnectionPtr)
    (socket : StreamSocket ReadHandler Address UInt8)
    (hreads : socket.reads = (s.connections c).socket.reads)
    (hincoming : socket.incoming = (s.connections c).socket.incoming)
    (hopen : socket.isOpen = (s.connections c).socket.isOpen) :
    Handles c s (s.setSocket c socket) (s.lane c) := by
  refine ⟨touches_setSocket s c socket, ?_, ?_, by simpa [setSocket, modify] using hopen⟩
  · rw [lane_setSocket, hreads, hincoming]
    rfl
  · simp only [setSocket, modify, Function.update_self, hreads, lane]
    exact (StreamSocket.toList_head?_of_length_le (hs.oneRead c)).symm

theorem WellFormed.pending_address {s : SocketServer} (hs : WellFormed s) {c : ConnectionPtr} :
    ∀ op, (s.lane c).pending = some op → op.address = .packet c := fun op hop =>
  hs.address c op (List.mem_of_mem_head? hop)

/-- A step on the writes of a connection. -/
theorem moves_setWrites {s : SocketServer} (hs : WellFormed s) {c : ConnectionPtr}
    (hwrites : (s.connections c).socket.writes ≠ [])
    {socket : StreamSocket ReadHandler Address UInt8}
    (hreads : socket.reads = (s.connections c).socket.reads)
    (hincoming : socket.incoming = (s.connections c).socket.incoming)
    (hopen : socket.isOpen = (s.connections c).socket.isOpen) {turn : Turn}
    (haction : ∀ d, action d s turn = .idle) :
    WellFormed (s.setSocket c socket) ∧
      ∀ d, Moves rejects (.packet d) (s.lane d) (action d s turn) ((s.setSocket c socket).lane d) :=
  (handles_setWrites hs c socket hreads hincoming hopen).moves hs (hs.started (Or.inr hwrites))
    (Moves.idle _) hs.pending_address fun d => by rw [haction, ite_self]

theorem WellFormed.writeSome {s s' : SocketServer} {callbacks : Callbacks} {c : ConnectionPtr}
    {i n : ℕ} (hs : WellFormed s) (hstep : step s ⟨.writeSome c i n, callbacks⟩ = some s') :
    WellFormed s' ∧ ∀ d, Moves rejects (.packet d) (s.lane d)
      (action d s ⟨.writeSome c i n, callbacks⟩) (s'.lane d) := by
  obtain ⟨socket, hwrite, rfl⟩ := Option.map_eq_some_iff.mp hstep
  obtain ⟨op, hop, _, _, _, hsocket⟩ := StreamSocket.writeSome_cases hwrite
  exact moves_setWrites hs (List.ne_nil_of_mem (List.mem_of_getElem? hop)) (by rw [hsocket])
    (by rw [hsocket]) (by rw [hsocket]) fun _ => rfl

theorem WellFormed.writeDone {s s' : SocketServer} {callbacks : Callbacks} {c : ConnectionPtr}
    {i : ℕ} (hs : WellFormed s) (hstep : step s ⟨.writeDone c i, callbacks⟩ = some s') :
    WellFormed s' ∧ ∀ d, Moves rejects (.packet d) (s.lane d)
      (action d s ⟨.writeDone c i, callbacks⟩) (s'.lane d) := by
  obtain ⟨socket, hwrite, rfl⟩ := Option.map_eq_some_iff.mp hstep
  obtain ⟨op, hop, _, hsocket⟩ := StreamSocket.writeDone_cases hwrite
  simp only [handleWrite, Bool.false_eq_true, if_false]
  exact moves_setWrites hs (List.ne_nil_of_mem (List.mem_of_getElem? hop)) (by rw [hsocket])
    (by rw [hsocket]) (by rw [hsocket]) fun _ => rfl

theorem WellFormed.writeFailed {s s' : SocketServer} {c : ConnectionPtr} {i : ℕ}
    (hs : WellFormed s) (hstep : step s ⟨.writeFailed c i, quiet⟩ = some s') :
    WellFormed s' ∧ ∀ d, Moves rejects (.packet d) (s.lane d)
      (action d s ⟨.writeFailed c i, quiet⟩) (s'.lane d) := by
  obtain ⟨socket, hwrite, rfl⟩ := Option.map_eq_some_iff.mp hstep
  obtain ⟨op, hop, rfl⟩ := StreamSocket.writeError_cases hwrite
  have hstarted := hs.started (Or.inr (List.ne_nil_of_mem (List.mem_of_getElem? hop)))
  exact Handles.moves (handles_disconnected (handles_setWrites hs c _ rfl rfl rfl)) hs hstarted
    (Moves.writeFailed hstarted) hs.pending_address fun _ => rfl

theorem WellFormed.setUserID {s s' : SocketServer} {callbacks : Callbacks} {c : ConnectionPtr}
    {userId : String} (hs : WellFormed s)
    (hstep : step s ⟨.setUserID c userId, callbacks⟩ = some s') :
    WellFormed s' ∧ ∀ d, Moves rejects (.packet d) (s.lane d)
      (action d s ⟨.setUserID c userId, callbacks⟩) (s'.lane d) := by
  obtain rfl := Option.some.inj hstep
  split
  · rename_i hstarted
    have hhandles := handles_setWrites hs c (s.connections c).socket rfl rfl rfl
    refine Handles.moves (c := c) (l := s.lane c) ⟨touches_modify s c rfl, ?_, ?_, ?_⟩ hs hstarted
      (Moves.idle _) hs.pending_address fun d => by simp [action]
    · simp [lane, modify]
    · simpa [setSocket, modify] using hhandles.reads
    · simp [modify]
  · exact ⟨hs, fun d => Moves.idle _⟩

/-! ## Accepting a connection -/

theorem WellFormed.connections_created {s : SocketServer} (hs : WellFormed s) :
    s.connections s.created = {} := by
  refine (hs.fresh s.created (hs.waiting s.created ?_)).1
  rw [hs.created]
  exact Nat.le_succ s.accepting

/-- `start_accept` makes a connection of which nothing is known yet. -/
theorem startAccept_eq {s : SocketServer} (hfresh : s.connections s.created = {}) :
    s.startAccept = { s with accepting := s.created, created := s.created + 1 } := by
  rw [startAccept, ← hfresh, Function.update_eq_self]

/-- `start()` of a fresh connection. -/
theorem lane_start {s : SocketServer} {c : ConnectionPtr} (hfresh : s.connections c = {})
    (hevents : s.events.filterMap (lifeEvent c) = []) :
    (s.start quiet c).lane c =
        { packet := s.memory (.packet c)
          started := true
          pending := some (headerRead (.packet c))
          events := [.connected] } ∧
      ((s.start quiet c).connections c).socket.reads = [headerRead (.packet c)] := by
  have hreads : (((s.modify c fun k => { k with started := true }).fireConnectedEvent quiet
      c).connections c).socket.reads = [] := by
    simp [fireConnectedEvent, log, modify, Connection.doConnected, hfresh]
  refine ⟨?_, reads_asyncRead _ c .header 0 headerSize hreads⟩
  rw [start, lane_asyncRead _ c .header 0 headerSize hreads]
  simp [lane, fireConnectedEvent, log, modify, Connection.doConnected, hfresh, hevents, lifeEvent,
    headerRead]

theorem lane_start_of_ne (s : SocketServer) {c d : ConnectionPtr} (hd : d ≠ c) :
    (s.start quiet c).lane d = s.lane d := by
  simp [lane, start, asyncRead, setSocket, fireConnectedEvent, log, modify, lifeEvent, hd,
    Ne.symm hd]

theorem connections_start_of_ne (s : SocketServer) {c d : ConnectionPtr} (hd : d ≠ c) :
    (s.start quiet c).connections d = s.connections d := by
  simp [start, asyncRead, setSocket, fireConnectedEvent, log, modify, hd]

theorem events_start_of_ne (s : SocketServer) {c d : ConnectionPtr} (hd : d ≠ c) :
    (s.start quiet c).events.filterMap (lifeEvent d) = s.events.filterMap (lifeEvent d) := by
  simp [start, asyncRead, setSocket, fireConnectedEvent, log, modify, lifeEvent, Ne.symm hd]

theorem WellFormed.startAccept {s : SocketServer} (hs : WellFormed s) :
    WellFormed s.startAccept := by
  rw [startAccept_eq hs.connections_created]
  refine ⟨hs.fresh, fun c hc => hs.waiting c ?_, rfl, hs.listed, hs.oneRead, hs.address, hs.isOpen⟩
  have hle : s.accepting + 1 ≤ c := hs.created ▸ hc
  exact Nat.le_of_succ_le hle

theorem WellFormed.created_ne {s : SocketServer} (hs : WellFormed s) : s.created ≠ s.accepting := by
  rw [hs.created]
  exact Nat.succ_ne_self _

/-- The state after an accept, without the application. -/
theorem WellFormed.handleAccept_eq {s : SocketServer} (hs : WellFormed s) (error : Bool) :
    s.handleAccept quiet s.accepting error =
      { (if error = false then s.start quiet s.accepting else s) with
        accepting := s.created
        created := s.created + 1 } := by
  cases error with
  | true => exact startAccept_eq hs.connections_created
  | false =>
      apply startAccept_eq (s := s.start quiet s.accepting)
      show (s.start quiet s.accepting).connections s.created = {}
      rw [connections_start_of_ne s hs.created_ne, hs.connections_created]

/-- Accepting a connection keeps the server well formed. -/
theorem WellFormed.start {s : SocketServer} (hs : WellFormed s) :
    WellFormed
      { s.start quiet s.accepting with accepting := s.created, created := s.created + 1 } := by
  obtain ⟨hnew, hsilent⟩ := hs.fresh _ (hs.waiting s.accepting le_rfl)
  obtain ⟨hlane, hreads⟩ := lane_start hnew hsilent
  have hstarted : ((s.start quiet s.accepting).connections s.accepting).started = true :=
    congrArg Lane.started hlane
  refine ⟨?_, ?_, rfl, ?_, ?_, ?_, ?_⟩
  · intro d hd
    have hda : d ≠ s.accepting := by
      rintro rfl
      rw [hstarted] at hd
      cases hd
    rw [connections_start_of_ne s hda] at hd ⊢
    rw [events_start_of_ne s hda]
    exact hs.fresh d hd
  · intro d hle
    have hlt : s.accepting + 1 ≤ d := hs.created ▸ hle
    rw [connections_start_of_ne s (Nat.ne_of_gt hlt)]
    exact hs.waiting d (Nat.le_of_succ_le hlt)
  -- the connection just started, and the others, which are as before
  · intro d hmem
    rcases eq_or_ne d s.accepting with rfl | hda
    · exact hstarted
    · rw [connections_start_of_ne s hda]
      apply hs.listed d
      simpa [SocketServer.start, asyncRead, setSocket, modify, fireConnectedEvent, log, hda]
        using hmem
  · intro d
    rcases eq_or_ne d s.accepting with rfl | hda
    · rw [hreads, List.length_singleton]
    · rw [connections_start_of_ne s hda]
      exact hs.oneRead d
  · intro d
    rcases eq_or_ne d s.accepting with rfl | hda
    · simp only [hreads, List.mem_singleton, forall_eq]
      rfl
    · rw [connections_start_of_ne s hda]
      exact hs.address d
  · intro d
    rcases eq_or_ne d s.accepting with rfl | hda
    · simp [SocketServer.start, asyncRead, setSocket, StreamSocket.asyncRead, fireConnectedEvent,
        log, modify, Connection.doConnected, hnew]
    · rw [connections_start_of_ne s hda]
      exact hs.isOpen d

theorem WellFormed.accept {s s' : SocketServer} {error : Bool} (hs : WellFormed s)
    (hstep : step s ⟨.accept error, quiet⟩ = some s') :
    WellFormed s' ∧ ∀ d, Moves rejects (.packet d) (s.lane d)
      (action d s ⟨.accept error, quiet⟩) (s'.lane d) := by
  obtain rfl := Option.some.inj hstep
  cases error with
  | true =>
      refine ⟨hs.startAccept, ?_⟩
      intro d
      have hidle : action d s ⟨.accept true, quiet⟩ = .idle := by simp [action]
      rw [hidle]
      simp only [hs.handleAccept_eq, Bool.true_eq_false, if_false]
      exact Moves.idle _
  | false =>
      obtain ⟨hnew, hsilent⟩ := hs.fresh _ (hs.waiting s.accepting le_rfl)
      obtain ⟨hlane, _⟩ := lane_start hnew hsilent
      simp only [hs.handleAccept_eq, if_true]
      refine ⟨hs.start, ?_⟩
      intro d
      rcases eq_or_ne d s.accepting with rfl | hda
      · have hbefore : s.lane s.accepting = { packet := s.memory (.packet s.accepting) } := by
          simp only [lane, hnew, hsilent]
          rfl
        have haction : action s.accepting s ⟨.accept false, quiet⟩ = .start := by simp [action]
        rw [hbefore, haction]
        exact hlane ▸ Moves.start _
      · have haction : action d s ⟨.accept false, quiet⟩ = .idle := by
          simp [action, Ne.symm hda]
        rw [haction]
        exact lane_start_of_ne s hda ▸ Moves.idle _

/-! ## All steps -/

/-- Every step keeps the server well formed and moves each of its connections. -/
theorem step_moves {s s' : SocketServer} {turn : Turn} (hs : WellFormed s)
    (hstep : step s turn = some s') :
    WellFormed s' ∧
      ∀ c, Moves rejects (.packet c) (s.lane c) (action c s turn) (s'.lane c) := by
  obtain ⟨t, hquiet, hsends⟩ := step_quiet hs.listed hstep
  suffices h : WellFormed t ∧
      ∀ c, Moves rejects (.packet c) (s.lane c) (action c s turn.quiet) (t.lane c) by
    exact ⟨hsends.wellFormed h.1, fun c => hsends.lane c ▸ h.2 c⟩
  obtain ⟨input, callbacks⟩ := turn
  cases input with
  | accept error => exact hs.accept hquiet
  | readSome c i bytes => exact hs.readSome hquiet
  | readDone c i => exact hs.readDone hquiet
  | readFailed c i => exact hs.readFailed hquiet
  | writeSome c i n => exact hs.writeSome hquiet
  | writeDone c i => exact hs.writeDone hquiet
  | writeFailed c i => exact hs.writeFailed hquiet
  | call call =>
      obtain rfl := Option.some.inj hquiet
      have hcall := sendsOnly_call hs.listed call
      exact ⟨hcall.wellFormed hs, fun c => hcall.lane c ▸ Moves.idle _⟩
  | setUserID c userId => exact hs.setUserID hquiet
  | rewrite block contents =>
      obtain rfl := Option.some.inj hquiet
      have hrewrite := sendsOnly_rewrite s block contents
      exact ⟨hrewrite.wellFormed hs, fun c => hrewrite.lane c ▸ Moves.idle _⟩

theorem connections_init (memory : Heap Address UInt8) (c : ConnectionPtr) :
    (machine memory).init.connections c = {} := by
  simp [machine, startAccept]

theorem wellFormed_init (memory : Heap Address UInt8) : WellFormed (machine memory).init where
  fresh c _ := ⟨connections_init memory c, rfl⟩
  waiting c _ := by rw [connections_init]
  created := rfl
  listed _ hc := nomatch hc
  oneRead c := by simp [connections_init]
  address c := by simp [connections_init]
  isOpen c := by simp [connections_init]

theorem wellFormed_run {memory : Heap Address UInt8} {turns : List Turn} {s : SocketServer}
    (hrun : (machine memory).run turns = some s) : WellFormed s :=
  Machine.invariant (wellFormed_init memory) (fun _ _ _ hs hstep => (step_moves hs hstep).1) hrun

/-- Every connection of a server is a reader. -/
theorem follows (memory : Heap Address UInt8) (c : ConnectionPtr) :
    Follows (machine memory) rejects (.packet c) (lane c) (action c) where
  init := by
    refine ⟨memory (.packet c), ?_⟩
    simp only [lane, connections_init]
    rfl
  moves := fun hs hstep => (step_moves (wellFormed_run hs) hstep).2 c

/-! ## Streams that arrive -/

theorem getElem?_of_pending {s : SocketServer} {c : ConnectionPtr}
    {op : ReadOp ReadHandler Address} (hop : (s.lane c).pending = some op) :
    (s.connections c).socket.reads[0]? = some op := by
  rw [← List.head?_eq_getElem?]
  exact hop

/-- Nothing closes the socket of a connection. -/
theorem serves (memory : Heap Address UInt8) (c : ConnectionPtr) :
    Serves (machine memory) (lane c) (action c) fun _ => True where
  readSome {turns s op bytes} hrun _ hop hpos hle := by
    obtain ⟨result, hresult⟩ := StreamSocket.exists_readSome s.memory
      (getElem?_of_pending hop) ((wellFormed_run hrun).isOpen c) hpos hle
    exact ⟨⟨.readSome c 0 bytes, quiet⟩, _, Option.map_eq_some_iff.mpr ⟨result, hresult, rfl⟩,
      by simp [action], trivial⟩
  readDone {turns s op} hrun _ hop hdone := by
    obtain ⟨result, hresult⟩ := StreamSocket.exists_readDone (getElem?_of_pending hop) hdone
    exact ⟨⟨.readDone c 0, quiet⟩, _, Option.map_eq_some_iff.mpr ⟨result, hresult, rfl⟩,
      by simp [action], trivial⟩

/-- Any stream can arrive at a connection of a server. -/
theorem exists_incoming (memory : Heap Address UInt8) (stream : List UInt8) :
    ∃ turns s c, (machine memory).run turns = some s ∧ (s.lane c).incoming = stream ∧
      Awaiting (s.lane c) := by
  obtain ⟨turns, s, hrun, _, hincoming, hawaiting⟩ :=
    (follows memory 0).exists_incoming (serves memory 0)
      (show (machine memory).run [⟨.accept false, quiet⟩] = _ from rfl) trivial rfl ⟨_, rfl⟩ stream
  exact ⟨turns, s, 0, hrun, hincoming, hawaiting⟩

end RyuLib.SocketServer
