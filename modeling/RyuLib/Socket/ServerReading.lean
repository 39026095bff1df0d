import RyuLib.Socket.ServerLanes

/-!
# What a server fires for a connection

Three handlers report a disconnect and none of them looks at `is_connected_`, and a
header of more than `PACKET_LIMIT` bytes is reported and then read on.

* `lifecycle_iff`: a connection's events are connected, received…, and at most one
  disconnected exactly when nothing completes after the first report that would
  report or deliver again.
* `validates_iff`: the sizes a connection declares are kept to what the receive buffer
  holds and `PACKET_LIMIT` allows exactly when no header declares less than itself
  and no read completes after an oversized header.
-/

namespace RyuLib.SocketServer

open Foundations Reading

theorem action_ne_reset (c : ConnectionPtr) (s : SocketServer) (turn : Turn) :
    action c s turn ≠ .reset := by
  unfold action
  split <;> (try split) <;> simp

/-! ## Lifecycle -/

/-- The turn reports a disconnect of `c`: a read or a write of it fails, or a header of
more than `packetLimit` bytes is complete. -/
def Reports (c : ConnectionPtr) (s : SocketServer) (turn : Turn) : Prop :=
  Reading.Reports rejects (s.lane c) (action c s turn)

/-- The turn completes a body of `c`. -/
def Delivers (c : ConnectionPtr) (s : SocketServer) (turn : Turn) : Prop :=
  Reading.Delivers (s.lane c) (action c s turn)

/-- The events of a connection have their shape exactly when, after a turn that reports
a disconnect of it, none does so again or delivers a packet of it. -/
theorem connection_lifecycle_iff {memory : Heap Address UInt8} {turns : List Turn}
    {s : SocketServer} (hrun : (machine memory).run turns = some s) (c : ConnectionPtr) :
    Lifecycle (s.lane c).events ↔
      (machine memory).NoneAfter (Reports c) (fun s turn => Reports c s turn ∨ Delivers c s turn)
        turns :=
  (follows memory c).lifecycle_iff (action_ne_reset c) hrun

/-- Memory that holds zeros. -/
def zeroMemory : Heap Address UInt8 := fun _ _ => 0

/-- A client connects and goes away while a packet is being sent to it. -/
def lostConnection : List Turn :=
  [⟨.accept false, quiet⟩, ⟨.call (.sendText 0 0 1 [104, 105]), quiet⟩, ⟨.readFailed 0 0, quiet⟩,
    ⟨.writeFailed 0 0, quiet⟩]

theorem lifecycle_iff_lostConnection :
    ∃ s, (machine zeroMemory).run lostConnection = some s ∧
      (Lifecycle (s.lane 0).events ↔
        (machine zeroMemory).NoneAfter (Reports 0)
          (fun s turn => Reports 0 s turn ∨ Delivers 0 s turn) lostConnection) :=
  ⟨_, rfl, connection_lifecycle_iff rfl 0⟩

/-- The disconnect is then fired twice. -/
theorem not_lifecycle_lostConnection :
    ¬ ∀ memory turns s c, (machine memory).run turns = some s → Lifecycle (s.lane c).events := by
  intro h
  have hlife := h zeroMemory lostConnection _ 0 rfl
  have hevents : Lifecycle [.connected, .disconnected, .disconnected] := hlife
  simp [Lifecycle, Service] at hevents

/-! ## Validation -/

/-- Sizes are validated exactly when no header of the connection declares less than
itself, and no read of it completes after a header of more than `packetLimit` bytes. -/
theorem connection_validates_iff {memory : Heap Address UInt8} {turns : List Turn}
    {s : SocketServer} (hrun : (machine memory).run turns = some s) (c : ConnectionPtr) :
    Validates (machine memory) (lane c) (action c) turns s ↔
      (machine memory).Always
          (fun s turn => ¬ HeaderOf (· < headerSize) (s.lane c) (action c s turn)) turns ∧
        (machine memory).NoneAfter
          (fun s turn => HeaderOf (packetLimit < ·) (s.lane c) (action c s turn))
          (fun s turn => action c s turn = .readDone) turns :=
  (follows memory c).validates_iff (action_ne_reset c) hrun

/-- A client connects and sends a header of `0x8001` bytes. -/
def oversizedHeader : List Turn :=
  [⟨.accept false, quiet⟩, ⟨.readSome 0 0 [0x01, 0x80, 0x00], quiet⟩, ⟨.readDone 0 0, quiet⟩]

theorem validates_iff_oversizedHeader :
    ∃ s, (machine zeroMemory).run oversizedHeader = some s ∧
      (Validates (machine zeroMemory) (lane 0) (action 0) oversizedHeader s ↔
        (machine zeroMemory).Always
            (fun s turn => ¬ HeaderOf (· < headerSize) (s.lane 0) (action 0 s turn))
            oversizedHeader ∧
          (machine zeroMemory).NoneAfter
            (fun s turn => HeaderOf (packetLimit < ·) (s.lane 0) (action 0 s turn))
            (fun s turn => action 0 s turn = .readDone) oversizedHeader) :=
  ⟨_, rfl, connection_validates_iff rfl 0⟩

/-- The state after the oversized header. -/
private theorem oversizedHeader_run :
    ∃ s, (machine zeroMemory).run oversizedHeader = some s ∧
      Packet.packetSize (s.lane 0).packet = 32769 ∧
      (s.lane 0).pending = some ⟨.body, 32766, .packet 0, 3, 32766⟩ :=
  ⟨_, rfl, rfl, rfl⟩

/-- When its body follows, the packet is delivered. -/
theorem not_validates_oversized :
    ¬ ∀ memory turns s c, (machine memory).run turns = some s →
      Validates (machine memory) (lane c) (action c) turns s := by
  intro h
  have F := follows zeroMemory 0
  have S := serves zeroMemory 0
  obtain ⟨s, hrun, hsize, hop⟩ := oversizedHeader_run
  obtain ⟨body, hbody⟩ : ∃ body : List UInt8, body.length = 32766 :=
    ⟨List.replicate 32766 0, List.length_replicate⟩
  obtain ⟨i, s₁, hstep₁, haction₁, _⟩ := S.readSome hrun trivial hop
    (show 0 < body.length by rw [hbody]; exact Nat.succ_pos _) hbody.le
  have hmove₁ := F.moves hrun hstep₁
  have hrun₁ := Machine.run_concat_eq_some.mpr ⟨s, hrun, hstep₁⟩
  rw [haction₁] at hmove₁
  obtain ⟨_, hpacket₁, hop₁⟩ := hmove₁.of_readSome hop
  obtain ⟨j, s₂, hstep₂, haction₂, _⟩ := S.readDone hrun₁ trivial hop₁
    (by simp only [hbody, Nat.sub_self])
  have hrun₂ := Machine.run_concat_eq_some.mpr ⟨s₁, hrun₁, hstep₂⟩
  have hdelivers : Reading.Delivers (s₁.lane 0) (action 0 s₁ j) := ⟨_, haction₂, hop₁, rfl⟩
  have hadmitted := (h zeroMemory _ s₂ 0 hrun₂).admitted
  rcases (F.moves hrun₁ hstep₂).received_eq (action_ne_reset 0 s₁ j) with ⟨_, hreceived⟩ | ⟨hnot, _⟩
  · have hle := (hadmitted (s₁.lane 0).packet (by rw [hreceived]; simp)).2
    have hsize₁ : Packet.packetSize (s₁.lane 0).packet = 32769 := by
      rw [hpacket₁, ← hsize]
      exact Packet.packetSize_congr (n := headerSize) (by decide)
        (Block.load_store_before _ _ le_rfl)
    rw [hsize₁] at hle
    exact absurd hle (by decide)
  · exact hnot hdelivers

end RyuLib.SocketServer
