import RyuLib.Socket.SocketClient
import RyuLib.Socket.ReaderRuns

/-!
# The connection of a client

What a session of the client looks like from its connected event on is a reader
(`lane`), and every step of the client moves it (`follows`); a call of `connect` starts
it anew.  Sends, those of callbacks included, do not touch it (`SendsOnly`).
-/

namespace RyuLib.SocketClient

open Foundations Reading

/-! ## What sends leave alone -/

/-- `s'` is `s` after some sends. -/
structure SendsOnly (s s' : SocketClient) : Prop where
  link : s'.link = s.link
  running : s'.running = s.running
  events : s'.events = s.events
  packet : s'.memory .receiveBuffer = s.memory .receiveBuffer
  socket : s'.socket.map (fun k => { k with writes := [], queued := [] }) =
    s.socket.map fun k => { k with writes := [], queued := [] }

namespace SendsOnly

theorem refl (s : SocketClient) : SendsOnly s s := ⟨rfl, rfl, rfl, rfl, rfl⟩

theorem trans {s t u : SocketClient} (hst : SendsOnly s t) (htu : SendsOnly t u) :
    SendsOnly s u where
  link := htu.link.trans hst.link
  running := htu.running.trans hst.running
  events := htu.events.trans hst.events
  packet := htu.packet.trans hst.packet
  socket := htu.socket.trans hst.socket

end SendsOnly

theorem sendsOnly_send (s : SocketClient) (packet : ClientAddress) : SendsOnly s (s.send packet) :=
  ⟨rfl, rfl, rfl, rfl, by
    simp only [send, doSend, modify, Option.map_map]
    rfl⟩

theorem sendsOnly_rewrite (s : SocketClient) (block : ℕ) (contents : Block UInt8) :
    SendsOnly s (s.rewrite (.heap block) contents) :=
  ⟨rfl, rfl, rfl, by simp [rewrite], rfl⟩

theorem sendsOnly_sendData (s : SocketClient) (block : ℕ) (packetType : ℤ) (data : Block UInt8)
    (size : ℤ) : SendsOnly s (s.sendData block packetType data size) := by
  unfold sendData
  split
  · exact SendsOnly.refl s
  · exact (sendsOnly_rewrite s block _).trans (sendsOnly_send _ _)

theorem sendsOnly_call (s : SocketClient) (call : ClientCall) : SendsOnly s (s.call call) := by
  cases call with
  | send packet => exact sendsOnly_send s packet
  | sendData block packetType data size => exact sendsOnly_sendData s block packetType data size
  | sendText block packetType text => exact sendsOnly_sendData s block _ _ _

theorem sendsOnly_calls (s : SocketClient) (calls : List ClientCall) :
    SendsOnly s (s.calls calls) :=
  foldl_relation SendsOnly.refl SendsOnly.trans (P := fun _ _ => True) (fun _ h => h)
    (fun _ => sendsOnly_call _ _) fun _ _ => trivial

/-! ## The reader -/

def lifeEvent : ClientEvent → Option LifeEvent
  | .error _ _ => none
  | .connected => some .connected
  | .disconnected => some .disconnected
  | .received packet => some (.received packet)

/-- The connected event and what comes after it. -/
def session (events : List ClientEvent) : List LifeEvent :=
  (events.filterMap lifeEvent).dropWhile fun
    | .connected => false
    | _ => true

def reads (s : SocketClient) : List (ReadOp ReadHandler ClientAddress) :=
  s.socket.elim [] StreamSocket.reads

/-- The session of the client as a reader. -/
def lane (s : SocketClient) : Lane ClientAddress where
  packet := s.memory .receiveBuffer
  started := !(session s.events).isEmpty
  pending := s.reads.head?
  incoming := s.socket.elim [] StreamSocket.incoming
  events := session s.events

/-- What a turn is for the reader; before the connected event failing writes are no
concern of it. -/
def action (s : SocketClient) (turn : Turn) : Action :=
  match turn.input with
  | .connect _ => .reset
  | .connectDone none => .start
  | .readSome _ bytes => .readSome bytes
  | .readDone _ => .readDone
  | .readFailed _ _ => .readFailed
  | .writeFailed _ _ => if s.lane.started = true then .writeFailed else .idle
  | _ => .idle

/-- A client rejects no size. -/
def rejects (_ : ℕ) : Bool := false

structure WellFormed (s : SocketClient) : Prop where
  fresh : s.link ≠ .established → s.reads = [] ∧ s.lane.incoming = [] ∧ session s.events = []
  begun : s.link = .established → session s.events ≠ []
  oneRead : s.reads.length ≤ 1
  address : ∀ op ∈ s.reads, op.address = .receiveBuffer

theorem session_concat (events : List ClientEvent) (event : ClientEvent) :
    session (events ++ [event]) =
      if session events = [] then session [event]
      else session events ++ (lifeEvent event).toList := by
  unfold session
  simp only [List.filterMap_append, List.dropWhile_append, List.isEmpty_iff]
  cases event <;> rfl

/-- `s` looks like `l` to its reader. -/
structure Shows (s : SocketClient) (l : Lane ClientAddress) : Prop where
  lane : s.lane = l
  reads : s.reads = l.pending.toList
  socket : ∃ k, s.socket = some k

theorem SendsOnly.reads {s s' : SocketClient} (h : SendsOnly s s') : s'.reads = s.reads := by
  have hsocket := congrArg (fun o => Option.elim o [] StreamSocket.reads) h.socket
  simpa [SocketClient.reads, Option.elim_map, Function.comp_def] using hsocket

theorem SendsOnly.lane {s s' : SocketClient} (h : SendsOnly s s') : s'.lane = s.lane := by
  have hincoming := congrArg (fun o => Option.elim o [] StreamSocket.incoming) h.socket
  simp only [Option.elim_map, Function.comp_def] at hincoming
  simp only [SocketClient.lane, h.packet, h.events, h.reads]
  congr 1

theorem SendsOnly.shows {s s' : SocketClient} {l : Lane ClientAddress} (h : SendsOnly s s')
    (hs : Shows s l) : Shows s' l := by
  refine ⟨h.lane.trans hs.lane, h.reads.trans hs.reads, ?_⟩
  obtain ⟨k, hk⟩ := hs.socket
  have hsocket := h.socket
  rw [hk] at hsocket
  obtain ⟨k', hk', _⟩ := Option.map_eq_some_iff.mp hsocket
  exact ⟨k', hk'⟩

theorem SendsOnly.wellFormed {s s' : SocketClient} (h : SendsOnly s s') (hs : WellFormed s) :
    WellFormed s' where
  fresh hlink := by
    rw [h.reads, h.lane, h.events]
    exact hs.fresh (h.link ▸ hlink)
  begun hlink := by
    rw [h.events]
    exact hs.begun (h.link ▸ hlink)
  oneRead := by
    rw [h.reads]
    exact hs.oneRead
  address := by
    rw [h.reads]
    exact hs.address

/-! ## The operations of the handlers -/

theorem shows_log {s : SocketClient} {l : Lane ClientAddress} (hs : Shows s l)
    (hstarted : l.started = true) (event : ClientEvent) :
    Shows (s.log event) { l with events := l.events ++ (lifeEvent event).toList } := by
  obtain ⟨rfl, hreads, hsocket⟩ := hs
  have hne : session s.events ≠ [] := by simpa [lane] using hstarted
  refine ⟨?_, hreads, hsocket⟩
  have hsession : session (s.log event).events = session s.events ++ (lifeEvent event).toList := by
    rw [log, session_concat, if_neg hne]
  have hbefore : (session s.events).isEmpty = false := by simpa using hne
  have hafter : (session s.events ++ (lifeEvent event).toList).isEmpty = false := by simp [hne]
  simp only [lane, hsession, hbefore, hafter]
  rfl

theorem shows_fire {s : SocketClient} {l : Lane ClientAddress} (hs : Shows s l)
    (hstarted : l.started = true) (callbacks : ClientCallbacks) (event : ClientEvent) :
    Shows (s.fire callbacks event) { l with events := l.events ++ (lifeEvent event).toList } :=
  (sendsOnly_calls _ _).shows (shows_log hs hstarted event)

theorem shows_close {s : SocketClient} {l : Lane ClientAddress} (hs : Shows s l) :
    Shows (s.modify StreamSocket.close) l := by
  obtain ⟨rfl, hreads, k, hk⟩ := hs
  refine ⟨?_, ?_, k.close, by simp [modify, hk]⟩
  · simp [lane, reads, modify, hk, StreamSocket.close]
  · rw [← hreads]
    simp [reads, modify, hk, StreamSocket.close]

theorem shows_doDisconnect {s : SocketClient} {l : Lane ClientAddress} (hs : Shows s l)
    (hstarted : l.started = true) (callbacks : ClientCallbacks) :
    Shows (s.doDisconnect callbacks) { l with events := l.events ++ [.disconnected] } :=
  shows_fire (shows_close hs) hstarted callbacks .disconnected

theorem shows_asyncRead {s : SocketClient} {l : Lane ClientAddress} (hs : Shows s l)
    (hpending : l.pending = none) (handler : ReadHandler) (offset length : ℕ) :
    Shows (s.asyncRead handler offset length)
      { l with pending := some ⟨handler, length, .receiveBuffer, offset, length⟩ } := by
  obtain ⟨rfl, hreads, k, hk⟩ := hs
  have hnil : k.reads = [] := by
    rw [hpending] at hreads
    simpa [reads, hk] using hreads
  refine ⟨?_, ?_, k.asyncRead handler .receiveBuffer offset length, by simp [asyncRead, modify, hk]⟩
  · simp [lane, reads, asyncRead, modify, hk, StreamSocket.asyncRead, hnil]
  · simp [reads, asyncRead, modify, hk, StreamSocket.asyncRead, hnil]

theorem shows_failed {s : SocketClient} {l : Lane ClientAddress} (hs : Shows s l)
    (hstarted : l.started = true) (callbacks : ClientCallbacks) (code : ℤ) (msg : String) :
    Shows ((s.fire callbacks (.error code msg)).doDisconnect callbacks)
      { l with events := l.events ++ [.disconnected] } := by
  have hfired := shows_fire hs hstarted callbacks (.error code msg)
  have hdisconnected := shows_doDisconnect hfired hstarted callbacks
  simpa [lifeEvent] using hdisconnected

theorem shows_readHeader {s : SocketClient} {l : Lane ClientAddress} (hs : Shows s l)
    (hpending : l.pending = none) (callbacks : ClientCallbacks) :
    Shows (s.handleReadHeader callbacks none)
      { l with
        pending := some (bodyRead .receiveBuffer l.packet)
        events := l.events ++ headerEvents rejects (Packet.packetSize l.packet) } := by
  have hpacket : s.memory .receiveBuffer = l.packet := congrArg Lane.packet hs.lane
  simp only [handleReadHeader, headerEvents, rejects, hpacket]
  simpa [bodyRead] using shows_asyncRead hs hpending .body 3 (sizeT (Packet.getDataSize l.packet))

theorem shows_readBody {s : SocketClient} {l : Lane ClientAddress} (hs : Shows s l)
    (hstarted : l.started = true) (hpending : l.pending = none) (callbacks : ClientCallbacks) :
    Shows (s.handleReadBody callbacks none)
      { l with
        pending := some (headerRead .receiveBuffer)
        events := l.events ++ [.received l.packet] } := by
  have hpacket : s.memory .receiveBuffer = l.packet := congrArg Lane.packet hs.lane
  simp only [handleReadBody, hpacket]
  exact shows_asyncRead (shows_fire hs hstarted callbacks (.received l.packet)) hpending .header 0
    headerSize

/-- Handlers do not change how far the connection has come. -/
theorem link_fire (s : SocketClient) (callbacks : ClientCallbacks) (event : ClientEvent) :
    (s.fire callbacks event).link = s.link :=
  (sendsOnly_calls (s.log event) _).link

theorem link_handleRead (s : SocketClient) (callbacks : ClientCallbacks) (error : Option String)
    (handler : ReadHandler) : (s.handleRead callbacks error handler).link = s.link := by
  cases error with
  | none =>
      cases handler with
      | header => rfl
      | body => exact link_fire s callbacks _
  | some msg =>
      cases handler <;> exact (link_fire _ callbacks .disconnected).trans (link_fire s callbacks _)

theorem link_handleWrite (s : SocketClient) (callbacks : ClientCallbacks) (error : Option String) :
    (s.handleWrite callbacks error).link = s.link := by
  cases error with
  | none => rfl
  | some msg => exact (link_fire _ callbacks .disconnected).trans (link_fire s callbacks _)

/-! ## Steps -/

/-- A state that shows a started reader is well formed. -/
theorem Shows.wellFormed {s : SocketClient} {l : Lane ClientAddress} (h : Shows s l)
    (hlink : s.link = .established) (hstarted : l.started = true)
    (haddress : ∀ op, l.pending = some op → op.address = .receiveBuffer) : WellFormed s where
  fresh hnot := absurd hlink hnot
  begun _ := by
    rw [← h.lane] at hstarted
    simpa [SocketClient.lane] using hstarted
  oneRead := by
    rw [h.reads]
    cases l.pending <;> simp
  address := by
    intro op hop
    rw [h.reads, Option.mem_toList] at hop
    exact haddress op hop

/-- A pending read is the only one, and its session has begun. -/
theorem WellFormed.pending {s : SocketClient} (hs : WellFormed s)
    {k : StreamSocket ReadHandler ClientAddress UInt8} (hk : s.socket = some k) {i : ℕ}
    {op : ReadOp ReadHandler ClientAddress} (hop : k.reads[i]? = some op) :
    k.reads = [op] ∧ i = 0 ∧ s.lane.pending = some op ∧ s.lane.started = true ∧
      s.link = .established ∧ op.address = .receiveBuffer := by
  have hreads : s.reads = k.reads := by simp [reads, hk]
  obtain ⟨hsingle, hzero⟩ := StreamSocket.eq_singleton_of_getElem? (hreads ▸ hs.oneRead) hop
  have hlink : s.link = .established := by
    by_contra hnot
    have hnil := (hs.fresh hnot).1
    rw [hreads, hsingle] at hnil
    exact List.cons_ne_nil _ _ hnil
  refine ⟨hsingle, hzero, ?_, ?_, hlink, ?_⟩
  · simp [lane, hreads, hsingle]
  · simpa [lane] using hs.begun hlink
  · exact hs.address op (by rw [hreads, hsingle]; exact List.mem_cons_self)

/-- The socket without the pending read. -/
theorem WellFormed.shows_erase {s : SocketClient} (hs : WellFormed s)
    {k : StreamSocket ReadHandler ClientAddress UInt8} (hk : s.socket = some k) {i : ℕ}
    {op : ReadOp ReadHandler ClientAddress} (hop : k.reads[i]? = some op) :
    Shows { s with socket := some { k with reads := k.reads.eraseIdx i } }
      { s.lane with pending := none } := by
  obtain ⟨hreads, rfl, _⟩ := hs.pending hk hop
  refine ⟨?_, ?_, _, rfl⟩
  · simp [lane, reads, hreads, hk]
  · simp [reads, hreads]

/-- A change of the writes only. -/
theorem WellFormed.shows_setWrites {s : SocketClient} (hs : WellFormed s)
    {k : StreamSocket ReadHandler ClientAddress UInt8} (hk : s.socket = some k)
    (k' : StreamSocket ReadHandler ClientAddress UInt8) (hreads : k'.reads = k.reads)
    (hincoming : k'.incoming = k.incoming) :
    Shows { s with socket := some k' } s.lane := by
  refine ⟨?_, ?_, k', rfl⟩
  · simp [lane, reads, hk, hreads, hincoming]
  · have hall := StreamSocket.toList_head?_of_length_le hs.oneRead
    simp only [reads, lane, hk, Option.elim_some, hreads] at hall ⊢
    exact hall.symm

theorem WellFormed.readSome {s s' : SocketClient} {callbacks : ClientCallbacks} {i : ℕ}
    {bytes : List UInt8} (hs : WellFormed s)
    (hstep : step s ⟨.readSome i bytes, callbacks⟩ = some s') :
    WellFormed s' ∧ Moves rejects .receiveBuffer s.lane
      (action s ⟨.readSome i bytes, callbacks⟩) s'.lane := by
  obtain ⟨k, memory, k', hk, hread, rfl⟩ := step_readSome hstep
  obtain ⟨op, hop, _, _, hle, rfl, rfl⟩ := StreamSocket.readSome_cases hread
  obtain ⟨hreads, rfl, hpending, hstarted, hlink, haddress⟩ := hs.pending hk hop
  have hmove : Moves rejects ClientAddress.receiveBuffer _ _ _ := Moves.readSome hpending hle
  refine ⟨Shows.wellFormed (l := _) ⟨rfl, ?_, _, rfl⟩ hlink hstarted ?_, ?_⟩
  · simp [reads, lane, hreads]
  · simp [reads, lane, hreads, haddress]
  · simpa [action, lane, reads, hk, hreads, Heap.store, haddress] using hmove

theorem WellFormed.readDone {s s' : SocketClient} {callbacks : ClientCallbacks} {i : ℕ}
    (hs : WellFormed s) (hstep : step s ⟨.readDone i, callbacks⟩ = some s') :
    WellFormed s' ∧ Moves rejects .receiveBuffer s.lane
      (action s ⟨.readDone i, callbacks⟩) s'.lane := by
  obtain ⟨k, handler, k', hk, hread, rfl⟩ := step_readDone hstep
  obtain ⟨op, hop, hdone, rfl, rfl⟩ := StreamSocket.readDone_cases hread
  obtain ⟨_, _, hpending, hstarted, hlink, _⟩ := hs.pending hk hop
  have herase := hs.shows_erase hk hop
  have hlink' := (link_handleRead { s with
    socket := some { k with reads := k.reads.eraseIdx i } } callbacks none op.handler).trans hlink
  cases hhandler : op.handler with
  | header =>
      rw [hhandler] at hlink'
      have hshows := shows_readHeader herase rfl callbacks
      refine ⟨hshows.wellFormed hlink' hstarted ?_, ?_⟩
      · simp [bodyRead]
      · exact hshows.lane ▸ Moves.headerDone hpending hhandler hdone
  | body =>
      rw [hhandler] at hlink'
      have hshows := shows_readBody herase hstarted rfl callbacks
      refine ⟨hshows.wellFormed hlink' hstarted ?_, ?_⟩
      · simp [headerRead]
      · exact hshows.lane ▸ Moves.bodyDone hpending hhandler hdone

theorem WellFormed.readFailed {s s' : SocketClient} {callbacks : ClientCallbacks} {i : ℕ}
    {msg : String} (hs : WellFormed s) (hstep : step s ⟨.readFailed i msg, callbacks⟩ = some s') :
    WellFormed s' ∧ Moves rejects .receiveBuffer s.lane
      (action s ⟨.readFailed i msg, callbacks⟩) s'.lane := by
  obtain ⟨k, handler, k', hk, hread, rfl⟩ := step_readFailed hstep
  obtain ⟨op, hop, rfl, rfl⟩ := StreamSocket.readFailed_cases hread
  obtain ⟨_, _, hpending, hstarted, hlink, _⟩ := hs.pending hk hop
  have hlink' := (link_handleRead { s with
    socket := some { k with reads := k.reads.eraseIdx i } } callbacks (some msg)
      op.handler).trans hlink
  have hshows := shows_failed (hs.shows_erase hk hop) hstarted callbacks errorRead msg
  -- both handlers do the same with an error
  have hhandler : ∀ u : SocketClient, u.handleRead callbacks (some msg) op.handler =
      (u.fire callbacks (.error errorRead msg)).doDisconnect callbacks := by
    intro u
    cases op.handler <;> rfl
  rw [hhandler] at hlink'
  simp only [hhandler]
  exact ⟨hshows.wellFormed hlink' hstarted (by simp),
    hshows.lane ▸ Moves.readFailed hpending⟩

/-! ## Writes -/

theorem WellFormed.congr {s s' : SocketClient} (hs : WellFormed s) (hlink : s'.link = s.link)
    (hlane : s'.lane = s.lane) (hreads : s'.reads = s.reads) : WellFormed s' := by
  have hevents : session s'.events = session s.events := congrArg Lane.events hlane
  refine ⟨?_, ?_, hreads ▸ hs.oneRead, hreads ▸ hs.address⟩
  · intro hnot
    rw [hreads, hlane, hevents]
    exact hs.fresh (hlink ▸ hnot)
  · intro hestablished
    rw [hevents]
    exact hs.begun (hlink ▸ hestablished)

/-- Before the connected event other events do not show. -/
theorem shows_fire_early {s : SocketClient} {l : Lane ClientAddress} (hs : Shows s l)
    (hevents : l.events = []) (callbacks : ClientCallbacks) (event : ClientEvent)
    (hevent : session [event] = []) : Shows (s.fire callbacks event) l := by
  apply (sendsOnly_calls _ _).shows
  obtain ⟨rfl, hreads, hsocket⟩ := hs
  have hsession : session (s.log event).events = session s.events := by
    have hnil : session s.events = [] := hevents
    rw [log, session_concat, if_pos hnil, hevent, hnil]
  exact ⟨by simp only [lane, hsession]; rfl, hreads, hsocket⟩

theorem shows_failed_early {s : SocketClient} {l : Lane ClientAddress} (hs : Shows s l)
    (hevents : l.events = []) (callbacks : ClientCallbacks) (code : ℤ) (msg : String) :
    Shows ((s.fire callbacks (.error code msg)).doDisconnect callbacks) l :=
  have hfired := shows_fire_early hs hevents callbacks (.error code msg) rfl
  shows_fire_early (shows_close hfired) hevents callbacks .disconnected rfl

theorem WellFormed.writeSome {s s' : SocketClient} {callbacks : ClientCallbacks} {i n : ℕ}
    (hs : WellFormed s) (hstep : step s ⟨.writeSome i n, callbacks⟩ = some s') :
    WellFormed s' ∧ Moves rejects .receiveBuffer s.lane
      (action s ⟨.writeSome i n, callbacks⟩) s'.lane := by
  obtain ⟨k, k', hk, hwrite, rfl⟩ := step_writeSome hstep
  obtain ⟨op, _, _, _, _, hk'⟩ := StreamSocket.writeSome_cases hwrite
  have hshows := hs.shows_setWrites hk k' (by rw [hk']) (by rw [hk'])
  refine ⟨hs.congr rfl hshows.lane ?_, hshows.lane ▸ Moves.idle _⟩
  simp [reads, hk, hk']

theorem WellFormed.writeDone {s s' : SocketClient} {callbacks : ClientCallbacks} {i : ℕ}
    (hs : WellFormed s) (hstep : step s ⟨.writeDone i, callbacks⟩ = some s') :
    WellFormed s' ∧ Moves rejects .receiveBuffer s.lane
      (action s ⟨.writeDone i, callbacks⟩) s'.lane := by
  obtain ⟨k, k', hk, hwrite, rfl⟩ := step_writeDone hstep
  obtain ⟨op, _, _, hk'⟩ := StreamSocket.writeDone_cases hwrite
  have hshows := hs.shows_setWrites hk k' (by rw [hk']) (by rw [hk'])
  refine ⟨hs.congr rfl hshows.lane ?_, hshows.lane ▸ Moves.idle _⟩
  simp [reads, hk, hk']

theorem WellFormed.writeFailed {s s' : SocketClient} {callbacks : ClientCallbacks} {i : ℕ}
    {msg : String} (hs : WellFormed s) (hstep : step s ⟨.writeFailed i msg, callbacks⟩ = some s') :
    WellFormed s' ∧ Moves rejects .receiveBuffer s.lane
      (action s ⟨.writeFailed i msg, callbacks⟩) s'.lane := by
  obtain ⟨k, k', hk, hwrite, rfl⟩ := step_writeFailed hstep
  obtain ⟨op, _, hk'⟩ := StreamSocket.writeError_cases hwrite
  have hshows := hs.shows_setWrites hk k' (by rw [hk']) (by rw [hk'])
  have hlink := link_handleWrite { s with socket := some k' } callbacks (some msg)
  -- a write can fail before the connected event, and then no session shows it
  cases hstarted : s.lane.started with
  | true =>
      have hfailed := shows_failed hshows hstarted callbacks errorWrite msg
      have hestablished : s.link = .established := by
        by_contra hnot
        have hnil := (hs.fresh hnot).2.2
        simp [lane, hnil] at hstarted
      refine ⟨hfailed.wellFormed (hlink.trans hestablished) hstarted ?_, ?_⟩
      · exact fun op' hop' => hs.address op' (List.mem_of_mem_head? hop')
      · simp only [action, hstarted, if_true]
        exact hfailed.lane ▸ Moves.writeFailed hstarted
  | false =>
      have hevents : s.lane.events = [] := by simpa [lane] using hstarted
      have hfailed := shows_failed_early hshows hevents callbacks errorWrite msg
      refine ⟨hs.congr hlink hfailed.lane (hfailed.reads.trans ?_), ?_⟩
      · rw [← hshows.reads]
        simp [reads, hk, hk']
      · simp only [action, hstarted, Bool.false_eq_true, if_false]
        exact hfailed.lane ▸ Moves.idle _

/-! ## Connecting -/

/-- No bytes and no connected event yet. -/
theorem Shows.wellFormed_early {s : SocketClient} {packet : Packet}
    (h : Shows s { packet := packet }) (hlink : s.link ≠ .established) : WellFormed s := by
  have hreads : s.reads = [] := h.reads
  refine ⟨fun _ => ⟨hreads, ?_, ?_⟩, fun hestablished => absurd hestablished hlink, ?_, ?_⟩
  · rw [h.lane]
  · exact congrArg Lane.events h.lane
  · simp [hreads]
  · simp [hreads]

theorem WellFormed.connect {s : SocketClient} (isAddress : Bool) :
    WellFormed (s.connect isAddress) ∧
      (s.connect isAddress).lane = { packet := s.lane.packet } := by
  cases isAddress with
  | true =>
      have hshows : Shows (s.connect true) { packet := s.lane.packet } := ⟨rfl, rfl, _, rfl⟩
      exact ⟨hshows.wellFormed_early (by simp [SocketClient.connect]), hshows.lane⟩
  | false =>
      have hshows : Shows (s.connect false) { packet := s.lane.packet } := ⟨rfl, rfl, _, rfl⟩
      exact ⟨hshows.wellFormed_early (by simp [SocketClient.connect]), hshows.lane⟩

theorem lane_disconnect (s : SocketClient) : s.disconnect.lane = s.lane ∧
    s.disconnect.reads = s.reads := by
  cases hk : s.socket <;>
    simp [lane, reads, SocketClient.disconnect, modify, hk, StreamSocket.close]

theorem WellFormed.connectDone {s s' : SocketClient} {callbacks : ClientCallbacks}
    {error : Option String} (hs : WellFormed s)
    (hstep : step s ⟨.connectDone error, callbacks⟩ = some s') :
    WellFormed s' ∧ Moves rejects .receiveBuffer s.lane
      (action s ⟨.connectDone error, callbacks⟩) s'.lane := by
  obtain ⟨k, hk, hconnecting, rfl⟩ := step_connectDone hstep
  obtain ⟨hreads, hincoming, hsession⟩ := hs.fresh (by rw [hconnecting]; decide)
  have hlane : s.lane = { packet := s.lane.packet } := by
    have hincoming' : s.socket.elim [] StreamSocket.incoming = [] := hincoming
    simp only [lane, hreads, hsession, hincoming']
    rfl
  cases error with
  | some msg =>
      have hshows : Shows { s with link := .unconnected } { packet := s.lane.packet } :=
        ⟨hlane, hreads, k, hk⟩
      have hfired := shows_fire_early hshows rfl callbacks (.error errorConnect msg) rfl
      have hlink : (s.connectHandler callbacks (some msg)).link = .unconnected :=
        link_fire { s with link := .unconnected } callbacks (.error errorConnect msg)
      refine ⟨hfired.wellFormed_early (fun h => nomatch hlink.symm.trans h), ?_⟩
      rw [hlane]
      exact hfired.lane ▸ Moves.idle _
  | none =>
      have hlogged : Shows ({ s with link := .established }.log .connected)
          { packet := s.lane.packet, started := true, events := [.connected] } := by
        refine ⟨?_, hreads, k, hk⟩
        have hsession' : session (s.events ++ [.connected]) = [.connected] := by
          rw [session_concat, if_pos hsession]
          rfl
        have hpending : ({ s with link := .established }.log .connected).reads = [] := hreads
        have hincoming' : s.socket.elim [] StreamSocket.incoming = [] := hincoming
        simp only [lane, hpending]
        simp only [log, hsession', hincoming']
        rfl
      have hfired := (sendsOnly_calls _ (callbacks .connected)).shows hlogged
      have hread := shows_asyncRead hfired rfl .header 0 headerSize
      have hlink : (s.connectHandler callbacks none).link = .established :=
        link_fire { s with link := .established } callbacks .connected
      refine ⟨hread.wellFormed hlink rfl (by simp), ?_⟩
      rw [hlane]
      exact hread.lane ▸ Moves.start _

/-! ## All steps -/

/-- Every step keeps the client well formed and moves its reader. -/
theorem step_moves {s s' : SocketClient} {turn : Turn} (hs : WellFormed s)
    (hstep : step s turn = some s') :
    WellFormed s' ∧ Moves rejects .receiveBuffer s.lane (action s turn) s'.lane := by
  obtain ⟨input, callbacks⟩ := turn
  cases input with
  | connect isAddress =>
      obtain rfl : s.connect isAddress = s' := by simpa [step] using hstep
      obtain ⟨hwell, hlane⟩ := WellFormed.connect (s := s) isAddress
      exact ⟨hwell, hlane ▸ Moves.reset _⟩
  | disconnect =>
      obtain rfl : s.disconnect = s' := by simpa [step] using hstep
      obtain ⟨hlane, hreads⟩ := lane_disconnect s
      exact ⟨hs.congr rfl hlane hreads, hlane ▸ Moves.idle _⟩
  | call call =>
      rw [step_call hstep]
      have hcall := sendsOnly_call s call
      exact ⟨hcall.wellFormed hs, hcall.lane ▸ Moves.idle _⟩
  | connectDone error => exact hs.connectDone hstep
  | readSome i bytes => exact hs.readSome hstep
  | readDone i => exact hs.readDone hstep
  | readFailed i msg => exact hs.readFailed hstep
  | writeSome i n => exact hs.writeSome hstep
  | writeDone i => exact hs.writeDone hstep
  | writeFailed i msg => exact hs.writeFailed hstep
  | runReturns =>
      rw [step_runReturns hstep]
      exact ⟨hs.congr rfl rfl rfl, Moves.idle _⟩
  | rewrite block contents =>
      obtain rfl : s.rewrite (.heap block) contents = s' := by simpa [step] using hstep
      have hrewrite := sendsOnly_rewrite s block contents
      exact ⟨hrewrite.wellFormed hs, hrewrite.lane ▸ Moves.idle _⟩

theorem wellFormed_run {memory : Heap ClientAddress UInt8} {turns : List Turn} {s : SocketClient}
    (hrun : (machine memory).run turns = some s) : WellFormed s := by
  refine Machine.invariant (I := WellFormed) ?_ (fun _ _ _ hs hstep => (step_moves hs hstep).1) hrun
  exact ⟨fun _ => ⟨rfl, rfl, rfl⟩, nofun, Nat.zero_le 1, nofun⟩

/-- The client is a reader. -/
theorem follows (memory : Heap ClientAddress UInt8) :
    Follows (machine memory) rejects .receiveBuffer lane action where
  init := ⟨memory .receiveBuffer, rfl⟩
  moves := fun hs hstep => (step_moves (wellFormed_run hs) hstep).2

/-! ## Streams that arrive -/

/-- A client whose handlers run and whose socket is open. -/
def Online (s : SocketClient) : Prop :=
  s.running = true ∧ ∃ k, s.socket = some k ∧ k.isOpen = true

theorem getElem?_of_pending {s : SocketClient} {k : StreamSocket ReadHandler ClientAddress UInt8}
    (hk : s.socket = some k) {op : ReadOp ReadHandler ClientAddress}
    (hop : s.lane.pending = some op) : k.reads[0]? = some op := by
  rw [← List.head?_eq_getElem?]
  simpa [lane, reads, hk] using hop

theorem serves (memory : Heap ClientAddress UInt8) :
    Serves (machine memory) lane action Online where
  readSome {turns s op bytes} _ honline hop hpos hle := by
    obtain ⟨hrunning, k, hk, hopen⟩ := honline
    obtain ⟨⟨memory', k'⟩, hresult⟩ := StreamSocket.exists_readSome s.memory
      (getElem?_of_pending hk hop) hopen hpos hle
    obtain ⟨_, _, _, _, _, _, hk'⟩ := StreamSocket.readSome_cases hresult
    refine ⟨⟨.readSome 0 bytes, fun _ => []⟩, { s with memory := memory', socket := some k' }, ?_,
      rfl, hrunning, k', rfl, by rw [hk']; exact hopen⟩
    simp only [machine, step, hk]
    exact Option.map_eq_some_iff.mpr ⟨_, hresult, rfl⟩
  readDone {turns s op} _ honline hop hdone := by
    obtain ⟨hrunning, k, hk, hopen⟩ := honline
    obtain ⟨⟨handler, k'⟩, hresult⟩ :=
      StreamSocket.exists_readDone (getElem?_of_pending hk hop) hdone
    obtain ⟨_, _, _, _, hk'⟩ := StreamSocket.readDone_cases hresult
    have hopen' : k'.isOpen = true := by rw [hk']; exact hopen
    refine ⟨⟨.readDone 0, fun _ => []⟩,
      { s with socket := some k' }.handleRead (fun _ => []) none handler, ?_, rfl, ?_⟩
    · simp only [machine, step, hk, hrunning, if_true]
      exact Option.map_eq_some_iff.mpr ⟨_, hresult, rfl⟩
    · cases handler with
      | header => exact ⟨hrunning, _, rfl, hopen'⟩
      | body => exact ⟨hrunning, _, rfl, hopen'⟩

/-- Any stream can arrive at a client. -/
theorem exists_incoming (memory : Heap ClientAddress UInt8) (stream : List UInt8) :
    ∃ turns s, (machine memory).run turns = some s ∧ s.lane.incoming = stream ∧
      Awaiting s.lane := by
  obtain ⟨turns, s, hrun, _, hincoming, hawaiting⟩ :=
    (follows memory).exists_incoming (serves memory)
      (show (machine memory).run [⟨.connect true, fun _ => []⟩, ⟨.connectDone none, fun _ => []⟩] =
        some (((machine memory).init.connect true).connectHandler (fun _ => []) none) from rfl)
      ⟨rfl, _, rfl, rfl⟩ rfl ⟨_, rfl⟩ stream
  exact ⟨turns, s, hrun, hincoming, hawaiting⟩

end RyuLib.SocketClient
