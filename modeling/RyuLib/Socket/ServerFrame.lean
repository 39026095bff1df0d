import RyuLib.Socket.SocketServer

/-!
# What the application's sends leave alone

Callbacks run in the middle of a handler, and all they do is send.  `SendsOnly` is
what sends keep: everything but the pending writes of started connections and the
blocks that hold packets to send.  It is reflexive, transitive, and kept by every
operation of the handlers, so a step differs from the same step without callbacks by
sends only (`step_quiet`).  Invariants that sends keep are checked on quiet steps.
-/

namespace RyuLib

open Foundations

/-- A connection without its writes. -/
def Connection.still (k : Connection) : Connection :=
  { k with socket := { k.socket with writes := [], queued := [] } }

namespace SocketServer

/-- `s'` is `s` after some sends. -/
structure SendsOnly (s s' : SocketServer) : Prop where
  id : s'.id = s.id
  connectionList : s'.connectionList = s.connectionList
  accepting : s'.accepting = s.accepting
  created : s'.created = s.created
  events : s'.events = s.events
  packet : ∀ c, s'.memory (.packet c) = s.memory (.packet c)
  still : ∀ c, (s'.connections c).still = (s.connections c).still
  untouched : ∀ c, (s.connections c).started = false → s'.connections c = s.connections c

/-- Every listed pointer is that of a started connection. -/
def ListedStarted (s : SocketServer) : Prop :=
  ∀ c ∈ s.connectionList, (s.connections c).started = true

namespace SendsOnly

theorem refl (s : SocketServer) : SendsOnly s s :=
  ⟨rfl, rfl, rfl, rfl, rfl, fun _ => rfl, fun _ => rfl, fun _ _ => rfl⟩

theorem started {s s' : SocketServer} (h : SendsOnly s s') (c : ConnectionPtr) :
    (s'.connections c).started = (s.connections c).started := by
  have hstill := congrArg Connection.started (h.still c)
  exact hstill

theorem isConnected {s s' : SocketServer} (h : SendsOnly s s') (c : ConnectionPtr) :
    (s'.connections c).isConnected = (s.connections c).isConnected := by
  have hstill := congrArg Connection.isConnected (h.still c)
  exact hstill

theorem connectionId {s s' : SocketServer} (h : SendsOnly s s') (c : ConnectionPtr) :
    (s'.connections c).id = (s.connections c).id := by
  have hstill := congrArg Connection.id (h.still c)
  exact hstill

theorem reads {s s' : SocketServer} (h : SendsOnly s s') (c : ConnectionPtr) :
    (s'.connections c).socket.reads = (s.connections c).socket.reads := by
  have hstill := congrArg (fun k : Connection => k.socket.reads) (h.still c)
  exact hstill

theorem incoming {s s' : SocketServer} (h : SendsOnly s s') (c : ConnectionPtr) :
    (s'.connections c).socket.incoming = (s.connections c).socket.incoming := by
  have hstill := congrArg (fun k : Connection => k.socket.incoming) (h.still c)
  exact hstill

theorem isOpen {s s' : SocketServer} (h : SendsOnly s s') (c : ConnectionPtr) :
    (s'.connections c).socket.isOpen = (s.connections c).socket.isOpen := by
  have hstill := congrArg (fun k : Connection => k.socket.isOpen) (h.still c)
  exact hstill

theorem trans {s t u : SocketServer} (hst : SendsOnly s t) (htu : SendsOnly t u) :
    SendsOnly s u where
  id := htu.id.trans hst.id
  connectionList := htu.connectionList.trans hst.connectionList
  accepting := htu.accepting.trans hst.accepting
  created := htu.created.trans hst.created
  events := htu.events.trans hst.events
  packet c := (htu.packet c).trans (hst.packet c)
  still c := (htu.still c).trans (hst.still c)
  untouched c hc := (htu.untouched c ((hst.started c).trans hc)).trans (hst.untouched c hc)

theorem listedStarted {s s' : SocketServer} (h : SendsOnly s s') (hs : ListedStarted s) :
    ListedStarted s' := by
  intro c hc
  rw [h.connectionList] at hc
  rw [h.started]
  exact hs c hc

end SendsOnly

/-! ## Sends -/

theorem sendsOnly_rewrite (s : SocketServer) (block : ℕ) (contents : Block UInt8) :
    SendsOnly s (s.rewrite (.heap block) contents) :=
  ⟨rfl, rfl, rfl, rfl, rfl, fun c => by simp [rewrite], fun _ => rfl, fun _ _ => rfl⟩

theorem sendsOnly_doSend {s : SocketServer} {c : ConnectionPtr}
    (hc : (s.connections c).started = true) (data : Address) (size : ℕ) :
    SendsOnly s (s.doSend c data size) := by
  refine ⟨rfl, rfl, rfl, rfl, rfl, fun _ => rfl, ?_, ?_⟩
  · intro d
    by_cases hdc : d = c
    · subst hdc
      simp [doSend, setSocket, modify, Connection.still, StreamSocket.asyncWrite]
    · simp [doSend, setSocket, modify, hdc]
  · intro d hd
    have hdc : d ≠ c := by
      rintro rfl
      rw [hc] at hd
      cases hd
    simp [doSend, setSocket, modify, hdc]

theorem sendsOnly_send {s : SocketServer} {c : ConnectionPtr}
    (hc : (s.connections c).started = true) (packet : Address) : SendsOnly s (s.send c packet) :=
  sendsOnly_doSend hc packet _

theorem sendsOnly_sendData {s : SocketServer} {c : ConnectionPtr}
    (hc : (s.connections c).started = true) (block : ℕ) (packetType : ℤ) (data : Block UInt8)
    (size : ℤ) : SendsOnly s (s.sendData c block packetType data size) := by
  unfold sendData
  split
  · exact SendsOnly.refl s
  · rename_i packet _
    have hrewrite := sendsOnly_rewrite s block packet
    exact hrewrite.trans (sendsOnly_send ((hrewrite.started c).trans hc) _)

theorem sendsOnly_sendToAll {s : SocketServer} (hs : ListedStarted s) (packet : Address) :
    SendsOnly s (s.sendToAll packet) :=
  foldl_relation SendsOnly.refl SendsOnly.trans (P := fun s c => (s.connections c).started = true)
    (fun h hc => (h.started _).trans hc) (fun hc => sendsOnly_send hc packet) hs

theorem sendsOnly_sendToOther {s : SocketServer} (hs : ListedStarted s) (connection : ConnectionPtr)
    (packet : Address) : SendsOnly s (s.sendToOther connection packet) := by
  refine foldl_relation SendsOnly.refl SendsOnly.trans
    (P := fun s c => (s.connections c).started = true)
    (fun h hc => (h.started _).trans hc) ?_ hs
  intro s c hc
  split
  · exact sendsOnly_send hc packet
  · exact SendsOnly.refl s

theorem sendsOnly_call {s : SocketServer} (hs : ListedStarted s) (call : SendCall) :
    SendsOnly s (s.call call) := by
  cases call with
  | send c packet =>
      simp only [SocketServer.call]
      split
      · rename_i hc
        exact sendsOnly_send hc packet
      · exact SendsOnly.refl s
  | sendData c block packetType data size =>
      simp only [SocketServer.call]
      split
      · rename_i hc
        exact sendsOnly_sendData hc block packetType data size
      · exact SendsOnly.refl s
  | sendText c block packetType text =>
      simp only [SocketServer.call]
      split
      · rename_i hc
        exact sendsOnly_sendData hc block _ _ _
      · exact SendsOnly.refl s
  | sendToAll packet => exact sendsOnly_sendToAll hs packet
  | sendToOther c packet => exact sendsOnly_sendToOther hs c packet
  | sendToUserID userId packet =>
      simp only [SocketServer.call, sendToUserID]
      split
      · rename_i c hfind
        exact sendsOnly_send (hs c (List.mem_of_find?_eq_some hfind)) packet
      · exact SendsOnly.refl s

theorem sendsOnly_calls {s : SocketServer} (hs : ListedStarted s) (calls : List SendCall) :
    SendsOnly s (s.calls calls) :=
  foldl_relation SendsOnly.refl SendsOnly.trans (P := fun s _ => ListedStarted s)
    (fun h hs => h.listedStarted hs) (fun hs => sendsOnly_call hs _) fun _ _ => hs

/-! ## The operations of the handlers -/

/-- Handlers without the application. -/
def quiet : Callbacks := fun _ => []

@[simp] theorem fire_quiet (s : SocketServer) (event : ServerEvent) :
    s.fire quiet event = s.log event := rfl

namespace SendsOnly

theorem log {s s' : SocketServer} (h : SendsOnly s s') (event : ServerEvent) :
    SendsOnly (s.log event) (s'.log event) :=
  ⟨h.id, h.connectionList, h.accepting, h.created,
    by simp only [SocketServer.log]; rw [h.events], h.packet, h.still, h.untouched⟩

/-- A change of one connection that neither reads its writes nor takes back its start. -/
theorem modify {s s' : SocketServer} (h : SendsOnly s s') (c : ConnectionPtr)
    {f : Connection → Connection} (hstill : ∀ k, (f k).still = f k.still)
    (hstarted : ∀ k, (f k).started = false → k.started = false) :
    SendsOnly (s.modify c f) (s'.modify c f) := by
  refine ⟨h.id, h.connectionList, h.accepting, h.created, h.events, h.packet, ?_, ?_⟩
  · intro d
    by_cases hdc : d = c
    · subst hdc
      simp only [SocketServer.modify, Function.update_self]
      rw [hstill, hstill, h.still]
    · simpa [SocketServer.modify, hdc] using h.still d
  · intro d hd
    by_cases hdc : d = c
    · subst hdc
      simp only [SocketServer.modify, Function.update_self] at hd ⊢
      rw [h.untouched d (hstarted _ hd)]
    · simp only [SocketServer.modify, Function.update_of_ne hdc] at hd ⊢
      exact h.untouched d hd

theorem asyncRead {s s' : SocketServer} (h : SendsOnly s s') (c : ConnectionPtr)
    (handler : ReadHandler) (offset length : ℕ) :
    SendsOnly (s.asyncRead c handler offset length) (s'.asyncRead c handler offset length) :=
  h.modify c (f := fun k =>
    { k with socket := k.socket.asyncRead handler (.packet c) offset length })
    (fun _ => rfl) (fun _ hk => hk)

theorem fire {s s' : SocketServer} (h : SendsOnly s s') (hs : ListedStarted s)
    (callbacks : Callbacks) (event : ServerEvent) :
    SendsOnly (s.fire quiet event) (s'.fire callbacks event) :=
  (h.log event).trans (sendsOnly_calls ((h.log event).listedStarted hs) (callbacks event))

theorem startAccept {s s' : SocketServer} (h : SendsOnly s s') :
    SendsOnly s.startAccept s'.startAccept := by
  refine ⟨h.id, h.connectionList, h.created, congrArg (· + 1) h.created, h.events, h.packet,
    ?_, ?_⟩
  · intro c
    simp only [SocketServer.startAccept, h.created]
    by_cases hcreated : c = s.created
    · simp [hcreated]
    · simpa [hcreated] using h.still c
  · intro c hc
    simp only [SocketServer.startAccept, h.created] at hc ⊢
    by_cases hcreated : c = s.created
    · simp [hcreated]
    · simp only [Function.update_of_ne hcreated] at hc ⊢
      exact h.untouched c hc

theorem fireDisconnectedEvent {s s' : SocketServer} (h : SendsOnly s s') (hs : ListedStarted s)
    (callbacks : Callbacks) (c : ConnectionPtr) :
    SendsOnly (s.fireDisconnectedEvent quiet c) (s'.fireDisconnectedEvent callbacks c) := by
  have hmodify := h.modify c (f := Connection.doDisconnected) (fun _ => rfl) (fun _ hk => hk)
  refine SendsOnly.fire (s := { s.modify c Connection.doDisconnected with
    connectionList := s.connectionList.filter fun d => d ≠ c }) ?_ ?_ callbacks (.disconnected c)
  · exact ⟨hmodify.id, congrArg (List.filter fun d => d ≠ c) h.connectionList, hmodify.accepting,
      hmodify.created, hmodify.events, hmodify.packet, hmodify.still, hmodify.untouched⟩
  · intro d hd
    obtain ⟨hd, hdc⟩ := List.mem_filter.mp hd
    have hne : d ≠ c := by simpa using hdc
    simpa [SocketServer.modify, hne] using hs d hd

theorem fireConnectedEvent {s s' : SocketServer} (h : SendsOnly s s') (hs : ListedStarted s)
    (callbacks : Callbacks) {c : ConnectionPtr} (hc : (s.connections c).started = true) :
    SendsOnly (s.fireConnectedEvent quiet c) (s'.fireConnectedEvent callbacks c) := by
  have hmodify := h.modify c (f := fun k => k.doConnected s.id) (fun _ => rfl) (fun _ hk => hk)
  refine SendsOnly.fire (s := { s.modify c (fun k => k.doConnected s.id) with
    id := s.id + 1, connectionList := s.connectionList ++ [c] }) ?_ ?_ callbacks (.connected c)
  · simp only [h.id]
    exact ⟨congrArg (· + 1) h.id, congrArg (· ++ [c]) h.connectionList, hmodify.accepting,
      hmodify.created, hmodify.events, hmodify.packet, hmodify.still, hmodify.untouched⟩
  · intro d hd
    by_cases hdc : d = c
    · subst hdc
      simpa [SocketServer.modify, Connection.doConnected] using hc
    · have hmem : d ∈ s.connectionList := by simpa [hdc] using hd
      simpa [SocketServer.modify, hdc] using hs d hmem

end SendsOnly

/-! ## Handlers and steps -/

@[simp] theorem listedStarted_setSocket {s : SocketServer} {c : ConnectionPtr}
    {socket : StreamSocket ReadHandler Address UInt8} :
    ListedStarted (s.setSocket c socket) ↔ ListedStarted s := by
  apply forall₂_congr
  intro d _
  by_cases hdc : d = c
  · subst hdc
    simp [setSocket, modify]
  · simp [setSocket, modify, hdc]

theorem sendsOnly_handleReadHeader {s : SocketServer} (hs : ListedStarted s) (callbacks : Callbacks)
    (c : ConnectionPtr) (error : Bool) :
    SendsOnly (s.handleReadHeader quiet c error) (s.handleReadHeader callbacks c error) := by
  have hrejected := ((SendsOnly.refl s).fire hs callbacks
    (.error (-1) "packet_->packet_size > PACKET_LIMIT")).fireDisconnectedEvent hs callbacks c
  cases error with
  | true => exact (SendsOnly.refl s).fireDisconnectedEvent hs callbacks c
  | false =>
      simp only [handleReadHeader, if_true]
      split
      · -- the body length is read after the callbacks, which have not touched it
        have hpacket := hrejected.packet c
        simp only [fireErrorEvent]
        rw [hpacket]
        exact hrejected.asyncRead c .body 3 _
      · exact SendsOnly.refl _

theorem sendsOnly_handleReadBody {s : SocketServer} (hs : ListedStarted s) (callbacks : Callbacks)
    (c : ConnectionPtr) (error : Bool) :
    SendsOnly (s.handleReadBody quiet c error) (s.handleReadBody callbacks c error) := by
  cases error with
  | true => exact (SendsOnly.refl s).fireDisconnectedEvent hs callbacks c
  | false =>
      exact ((SendsOnly.refl s).fire hs callbacks (.received c (s.memory (.packet c)))).asyncRead c
        .header 0 headerSize

theorem sendsOnly_handleRead {s : SocketServer} (hs : ListedStarted s) (callbacks : Callbacks)
    (c : ConnectionPtr) (error : Bool) (handler : ReadHandler) :
    SendsOnly (s.handleRead quiet c error handler) (s.handleRead callbacks c error handler) := by
  cases handler with
  | header => exact sendsOnly_handleReadHeader hs callbacks c error
  | body => exact sendsOnly_handleReadBody hs callbacks c error

theorem sendsOnly_handleWrite {s : SocketServer} (hs : ListedStarted s) (callbacks : Callbacks)
    (c : ConnectionPtr) (error : Bool) :
    SendsOnly (s.handleWrite quiet c error) (s.handleWrite callbacks c error) := by
  cases error with
  | true => exact (SendsOnly.refl s).fireDisconnectedEvent hs callbacks c
  | false => exact SendsOnly.refl s

theorem sendsOnly_start {s : SocketServer} (hs : ListedStarted s) (callbacks : Callbacks)
    (c : ConnectionPtr) : SendsOnly (s.start quiet c) (s.start callbacks c) := by
  have hs' : ListedStarted (s.modify c fun k => { k with started := true }) := by
    intro d hd
    by_cases hdc : d = c
    · subst hdc
      simp [modify]
    · simpa [modify, hdc] using hs d hd
  exact ((SendsOnly.refl _).fireConnectedEvent hs' callbacks (by simp [modify])).asyncRead c
    .header 0 headerSize

theorem sendsOnly_handleAccept {s : SocketServer} (hs : ListedStarted s) (callbacks : Callbacks)
    (c : ConnectionPtr) (error : Bool) :
    SendsOnly (s.handleAccept quiet c error) (s.handleAccept callbacks c error) := by
  cases error with
  | true => exact SendsOnly.refl _
  | false => exact (sendsOnly_start hs callbacks c).startAccept

/-- A turn in which the application's handlers send nothing. -/
def Turn.quiet (turn : Turn) : Turn := { turn with callbacks := SocketServer.quiet }

/-- What the application's handlers do in a step is to send. -/
theorem step_quiet {s s' : SocketServer} {turn : Turn} (hs : ListedStarted s)
    (hstep : step s turn = some s') : ∃ t, step s turn.quiet = some t ∧ SendsOnly t s' := by
  obtain ⟨input, callbacks⟩ := turn
  cases input with
  | accept error =>
      obtain rfl := Option.some.inj hstep
      exact ⟨_, rfl, sendsOnly_handleAccept hs callbacks _ error⟩
  | readDone c i =>
      obtain ⟨result, hresult, rfl⟩ := Option.map_eq_some_iff.mp hstep
      refine ⟨_, Option.map_eq_some_iff.mpr ⟨result, hresult, rfl⟩, ?_⟩
      exact sendsOnly_handleRead (listedStarted_setSocket.mpr hs) callbacks c false result.1
  | readFailed c i =>
      obtain ⟨result, hresult, rfl⟩ := Option.map_eq_some_iff.mp hstep
      refine ⟨_, Option.map_eq_some_iff.mpr ⟨result, hresult, rfl⟩, ?_⟩
      exact sendsOnly_handleRead (listedStarted_setSocket.mpr hs) callbacks c true result.1
  | writeFailed c i =>
      obtain ⟨socket, hsocket, rfl⟩ := Option.map_eq_some_iff.mp hstep
      refine ⟨_, Option.map_eq_some_iff.mpr ⟨socket, hsocket, rfl⟩, ?_⟩
      exact sendsOnly_handleWrite (listedStarted_setSocket.mpr hs) callbacks c true
  | readSome c i bytes => exact ⟨s', hstep, SendsOnly.refl s'⟩
  | writeSome c i n => exact ⟨s', hstep, SendsOnly.refl s'⟩
  | writeDone c i => exact ⟨s', hstep, SendsOnly.refl s'⟩
  | call call => exact ⟨s', hstep, SendsOnly.refl s'⟩
  | setUserID c userId => exact ⟨s', hstep, SendsOnly.refl s'⟩
  | rewrite block contents => exact ⟨s', hstep, SendsOnly.refl s'⟩

end SocketServer

end RyuLib
