import RyuLib.Socket.SocketClient

/-!
# What a client puts on the wire

The same as for a connection of a server: in runs of orderly turns the socket sends
what it was given, in order (`inOrder_run`).  A call of `connect` starts with a new
socket and nothing sent.
-/

namespace RyuLib.SocketClient

open Foundations

/-! ## Orderly turns -/

/-- Replacing the block at `address` changes no byte the socket has yet to send. -/
def Spares (s : SocketClient) (address : ClientAddress) (block : Block UInt8) : Prop :=
  ∀ k, s.socket = some k → k.Spares s.memory address block

/-- So does creating a packet in a block. -/
def CreateSpares (s : SocketClient) (block : ℕ) (packetType : ℤ) (data : Block UInt8) (size : ℤ) :
    Prop :=
  ∀ packet, createPacket (fun _ => some (s.memory (.heap block))) (UInt8.ofInt packetType) data
    size = some packet → s.Spares (.heap block) packet

/-- The packets created by a send. -/
def CallSpares (s : SocketClient) : ClientCall → Prop
  | .send _ => True
  | .sendData block packetType data size => s.CreateSpares block packetType data size
  | .sendText block packetType text =>
      s.CreateSpares block packetType.toNat (Block.ofList 0 text) (toInt text.length)

def CallsSpare : SocketClient → List ClientCall → Prop
  | _, [] => True
  | s, call :: calls => s.CallSpares call ∧ CallsSpare (s.call call) calls

/-- The packets created when an event is fired. -/
def FireSpares (s : SocketClient) (callbacks : ClientCallbacks) (event : ClientEvent) : Prop :=
  CallsSpare (s.log event) (callbacks event)

/-- The packets created when an error is reported and the socket closed. -/
def FailureSpares (s : SocketClient) (callbacks : ClientCallbacks) (code : ℤ) (msg : String) :
    Prop :=
  s.FireSpares callbacks (.error code msg) ∧
    ((s.fire callbacks (.error code msg)).modify StreamSocket.close).FireSpares callbacks
      .disconnected

/-- The turn takes write steps in their turn, and changes no byte that a pending write
has yet to send. -/
def Orderly (s : SocketClient) (turn : Turn) : Prop :=
  match turn.input with
  | .connect _ => True
  | .disconnect => True
  | .call call => s.CallSpares call
  | .connectDone (some msg) =>
      { s with link := .unconnected }.FireSpares turn.callbacks (.error errorConnect msg)
  | .connectDone none => { s with link := .established }.FireSpares turn.callbacks .connected
  | .readSome i bytes =>
      ∀ k, s.socket = some k → ∀ op, k.reads[i]? = some op →
        s.Spares op.address ((s.memory op.address).store op.offset bytes)
  | .readDone i =>
      ∀ k, s.socket = some k → ∀ result, k.readDone i = some result → result.1 = .body →
        { s with socket := some result.2 }.FireSpares turn.callbacks
          (.received (s.memory .receiveBuffer))
  | .readFailed i msg =>
      ∀ k, s.socket = some k → ∀ result, k.readFailed i = some result →
        { s with socket := some result.2 }.FailureSpares turn.callbacks errorRead msg
  | .writeSome i _ => ∀ k, s.socket = some k → k.InTurn i
  | .writeDone _ => True
  | .writeFailed i msg =>
      ∀ k, s.socket = some k → ∀ k', k.writeError i = some k' →
        { s with socket := some k' }.FailureSpares turn.callbacks errorWrite msg
  | .runReturns => True
  | .rewrite block contents => s.Spares (.heap block) contents

/-! ## Keeping the order -/

/-- The wire of the socket, if there is one, is in order. -/
def InOrder (s : SocketClient) : Prop :=
  ∀ k, s.socket = some k → StreamSocket.InOrder s.memory k

namespace InOrder

variable {s : SocketClient}

theorem congr {s' : SocketClient} (hs : InOrder s) (hmemory : s'.memory = s.memory)
    (hsocket : s'.socket = s.socket) : InOrder s' := by
  intro k hk
  rw [hmemory]
  exact hs k (hsocket ▸ hk)

theorem rewrite (hs : InOrder s) {address : ClientAddress} {block : Block UInt8}
    (hspares : s.Spares address block) : InOrder (s.rewrite address block) :=
  fun k hk => (hs k hk).update (hspares k hk)

theorem modify (hs : InOrder s)
    {f : StreamSocket ReadHandler ClientAddress UInt8 →
      StreamSocket ReadHandler ClientAddress UInt8}
    (hf : ∀ {k}, StreamSocket.InOrder s.memory k → StreamSocket.InOrder s.memory (f k)) :
    InOrder (s.modify f) := by
  intro k hk
  obtain ⟨k₀, hk₀, rfl⟩ := Option.map_eq_some_iff.mp hk
  exact hf (hs k₀ hk₀)

theorem of_socket {s' : SocketClient} {k : StreamSocket ReadHandler ClientAddress UInt8}
    (hsocket : s'.socket = some k) (hk : StreamSocket.InOrder s'.memory k) : InOrder s' := by
  intro k' hk'
  rw [hsocket, Option.some.injEq] at hk'
  exact hk' ▸ hk

theorem close (hs : InOrder s) : InOrder (s.modify StreamSocket.close) :=
  hs.modify fun hk => hk.congr rfl rfl rfl rfl

theorem asyncRead (hs : InOrder s) (handler : ReadHandler) (offset length : ℕ) :
    InOrder (s.asyncRead handler offset length) :=
  hs.modify fun hk => hk.congr rfl rfl rfl rfl

theorem send (hs : InOrder s) (packet : ClientAddress) : InOrder (s.send packet) :=
  hs.modify fun hk => hk.asyncWrite packet _

theorem sendData (hs : InOrder s) {block : ℕ} {packetType : ℤ} {data : Block UInt8} {size : ℤ}
    (hspares : s.CreateSpares block packetType data size) :
    InOrder (s.sendData block packetType data size) := by
  unfold SocketClient.sendData
  split
  · exact hs
  · rename_i packet hpacket
    exact (hs.rewrite (hspares packet hpacket)).send _

theorem call (hs : InOrder s) {call : ClientCall} (hspares : s.CallSpares call) :
    InOrder (s.call call) := by
  cases call with
  | send packet => exact hs.send packet
  | sendData block packetType data size => exact hs.sendData hspares
  | sendText block packetType text => exact hs.sendData hspares

theorem calls (hs : InOrder s) {calls : List ClientCall} (hspares : CallsSpare s calls) :
    InOrder (s.calls calls) := by
  induction calls generalizing s with
  | nil => exact hs
  | cons call calls ih => exact ih (hs.call hspares.1) hspares.2

theorem fire (hs : InOrder s) {callbacks : ClientCallbacks} {event : ClientEvent}
    (hspares : s.FireSpares callbacks event) : InOrder (s.fire callbacks event) :=
  InOrder.calls (s := s.log event) (hs.congr rfl rfl) hspares

theorem failure (hs : InOrder s) {callbacks : ClientCallbacks} {code : ℤ} {msg : String}
    (hspares : s.FailureSpares callbacks code msg) :
    InOrder ((s.fire callbacks (.error code msg)).doDisconnect callbacks) :=
  (hs.fire hspares.1).close.fire hspares.2

theorem handleRead (hs : InOrder s) {callbacks : ClientCallbacks} {handler : ReadHandler}
    (hspares : handler = .body → s.FireSpares callbacks (.received (s.memory .receiveBuffer))) :
    InOrder (s.handleRead callbacks none handler) := by
  cases handler with
  | header => exact hs.asyncRead .body 3 _
  | body => exact (hs.fire (hspares rfl)).asyncRead .header 0 headerSize

/-- An orderly turn keeps the order. -/
theorem step (hs : InOrder s) {s' : SocketClient} {turn : Turn} (horderly : Orderly s turn)
    (hstep : step s turn = some s') : InOrder s' := by
  obtain ⟨input, callbacks⟩ := turn
  cases input with
  | connect isAddress =>
      obtain rfl : s.connect isAddress = s' := by simpa [SocketClient.step] using hstep
      cases isAddress with
      | true => exact of_socket rfl (StreamSocket.inOrder_of_complete rfl)
      | false => exact of_socket rfl (StreamSocket.inOrder_of_complete rfl)
  | disconnect =>
      obtain rfl : s.disconnect = s' := by simpa [SocketClient.step] using hstep
      exact hs.close.congr rfl rfl
  | rewrite block contents =>
      obtain rfl : s.rewrite (.heap block) contents = s' := by
        simpa [SocketClient.step] using hstep
      exact hs.rewrite horderly
  | call call =>
      rw [step_call hstep]
      exact hs.call horderly
  | connectDone error =>
      obtain ⟨k, _, _, rfl⟩ := step_connectDone hstep
      cases error with
      | some msg =>
          exact InOrder.fire (s := { s with link := .unconnected }) (hs.congr rfl rfl) horderly
      | none =>
          exact (InOrder.fire (s := { s with link := .established }) (hs.congr rfl rfl)
            horderly).asyncRead .header 0 headerSize
  | readSome i bytes =>
      obtain ⟨k, memory, k', hk, hread, rfl⟩ := step_readSome hstep
      obtain ⟨op, hop, _, _, _, rfl, hk'⟩ := StreamSocket.readSome_cases hread
      have hstored := (hs k hk).update (horderly k hk op hop k hk)
      refine of_socket rfl (hstored.congr ?_ ?_ ?_ ?_) <;> rw [hk']
  | readDone i =>
      obtain ⟨k, handler, k', hk, hread, rfl⟩ := step_readDone hstep
      obtain ⟨op, _, _, _, hk'⟩ := StreamSocket.readDone_cases hread
      have herased : InOrder { s with socket := some k' } := by
        refine of_socket rfl ((hs k hk).congr ?_ ?_ ?_ ?_) <;> rw [hk']
      exact herased.handleRead (horderly k hk _ hread)
  | readFailed i msg =>
      obtain ⟨k, handler, k', hk, hread, rfl⟩ := step_readFailed hstep
      obtain ⟨op, _, _, hk'⟩ := StreamSocket.readFailed_cases hread
      have herased : InOrder { s with socket := some k' } := by
        refine of_socket rfl ((hs k hk).congr ?_ ?_ ?_ ?_) <;> rw [hk']
      cases handler <;> exact herased.failure (horderly k hk _ hread)
  | writeSome i n =>
      obtain ⟨k, k', hk, hwrite, rfl⟩ := step_writeSome hstep
      exact of_socket rfl ((hs k hk).writeSome (horderly k hk) hwrite)
  | writeDone i =>
      obtain ⟨k, k', hk, hwrite, rfl⟩ := step_writeDone hstep
      exact of_socket rfl ((hs k hk).writeDone hwrite)
  | writeFailed i msg =>
      obtain ⟨k, k', hk, hwrite, rfl⟩ := step_writeFailed hstep
      have herased : InOrder { s with socket := some k' } :=
        of_socket rfl ((hs k hk).writeError hwrite)
      exact herased.failure (horderly k hk k' hwrite)
  | runReturns =>
      rw [step_runReturns hstep]
      exact hs.congr rfl rfl

end InOrder

/-- In a run of orderly turns the wire is in order. -/
theorem inOrder_run (memory : Heap ClientAddress UInt8) :
    ∀ turns s, (machine memory).run turns = some s → (machine memory).Always Orderly turns →
      InOrder s := by
  refine Machine.run_induction ?_ ?_
  · intro _ k hk
    cases hk
  · intro turns s turn s' hs ih hstep halways
    obtain ⟨hfront, hlast⟩ := (Machine.always_concat _ _).mp halways
    exact (ih hfront).step (hlast s hs) hstep

end RyuLib.SocketClient
