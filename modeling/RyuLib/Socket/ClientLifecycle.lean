import RyuLib.Foundations.History
import RyuLib.Socket.ClientLane

/-!
# The disconnects of a client

From its connected event to the next call of `connect` a client has one session.  Every
failing completion of it, of a read or of a write, reports a disconnect and closes the
socket, which makes all other pending operations fail as well.

* `SocketClient.disconnects_once_iff`: disconnects are reported once exactly when the
  failing completion of a session is the last one of it that fires anything.
-/

namespace RyuLib.SocketClient

open Foundations History Reading

/-- Nothing is received and no disconnect fired behind a disconnect. -/
def Quiet (past : List LifeEvent) : LifeEvent → Prop
  | .connected => True
  | _ => .disconnected ∉ past

/-- The session reports at most one disconnect, and delivers nothing behind it. -/
def ReportsOnce (s : SocketClient) : Prop := AtEach Quiet s.lane.events

def Connects (turn : Turn) : Prop := ∃ isAddress, turn.input = .connect isAddress

/-- A read or a write of the session completes with an error. -/
def Fails (s : SocketClient) (turn : Turn) : Prop :=
  s.lane.started = true ∧
    ((∃ i msg, turn.input = .readFailed i msg) ∨ ∃ i msg, turn.input = .writeFailed i msg)

/-- The pending read is one of a body and completes. -/
def Receives (s : SocketClient) (turn : Turn) : Prop :=
  (∃ i, turn.input = .readDone i) ∧ ∃ op, s.lane.pending = some op ∧ op.handler = .body

theorem reports_iff {s : SocketClient} {turn : Turn} {l : Lane ClientAddress}
    (hbegun : s.lane.Begun) (hmove : Moves rejects .receiveBuffer s.lane (action s turn) l) :
    Reports rejects s.lane (action s turn) ↔ Fails s turn := by
  obtain ⟨input, callbacks⟩ := turn
  cases input with
  | readFailed i msg =>
      have hstarted : s.lane.started = true := by
        generalize s.lane = m at hmove hbegun ⊢
        cases hmove with
        | readFailed hop => exact hbegun.started_of_pending hop
      simp [Reports, Fails, action, hstarted]
  | writeFailed i msg =>
      cases hstarted : s.lane.started <;>
        simp [Reports, Fails, action, hstarted, HeaderOf, rejects]
  | connectDone error => cases error <;> simp [Reports, Fails, action, HeaderOf, rejects]
  | _ => simp [Reports, Fails, action, HeaderOf, rejects]

theorem delivers_iff {s : SocketClient} {turn : Turn} :
    Reading.Delivers s.lane (action s turn) ↔ Receives s turn := by
  obtain ⟨input, callbacks⟩ := turn
  cases input with
  | writeFailed i msg =>
      cases hstarted : s.lane.started <;> simp [Reading.Delivers, Receives, action, hstarted]
  | connectDone error => cases error <;> simp [Reading.Delivers, Receives, action]
  | _ => simp [Reading.Delivers, Receives, action]

theorem action_eq_reset {s : SocketClient} {turn : Turn} :
    action s turn = .reset ↔ Connects turn := by
  obtain ⟨input, callbacks⟩ := turn
  cases input with
  | writeFailed i msg => cases hstarted : s.lane.started <;> simp [Connects, action, hstarted]
  | connectDone error => cases error <;> simp [Connects, action]
  | _ => simp [Connects, action]

/-- What a step other than a call of `connect` does to a session. -/
theorem reportsOnce_of_step {s s' : SocketClient} {turn : Turn} (hbegun : s.lane.Begun)
    (hmove : Moves rejects .receiveBuffer s.lane (action s turn) s'.lane)
    (hconnect : ¬ Connects turn) :
    (ReportsOnce s' ↔
        ReportsOnce s ∧ (Fails s turn ∨ Receives s turn → .disconnected ∉ s.lane.events)) ∧
      (.disconnected ∈ s'.lane.events ↔ .disconnected ∈ s.lane.events ∨ Fails s turn) := by
  have hcases := hmove.events_cases fun hreset => hconnect (action_eq_reset.mp hreset)
  rw [reports_iff hbegun hmove, delivers_iff] at hcases
  unfold ReportsOnce
  rcases hcases with ⟨hfails, hreceives, hevents⟩ | ⟨hreceives, hfails, hevents⟩ |
    ⟨hfails, hreceives, hevents⟩
  · rcases hevents with hevents | ⟨hnil, hevents⟩
    · rw [hevents]
      simp [hfails, hreceives]
    · rw [hevents, hnil, ← List.nil_append [LifeEvent.connected], atEach_concat]
      simp [hfails, hreceives, atEach_nil, Quiet]
  · rw [hevents, atEach_concat]
    simp [hfails, hreceives, Quiet]
  · rw [hevents, atEach_concat]
    simp [hfails, hreceives, Quiet]

/-- In every session of a run disconnects are reported at most once, and nothing is
received behind the report, exactly when after the first failing completion of a session
no other operation of it fails and no body is received, until `connect` is called. -/
theorem disconnects_once_iff {memory : Heap ClientAddress UInt8} {turns : List Turn}
    {s : SocketClient} (hrun : (machine memory).run turns = some s) :
    (machine memory).Throughout ReportsOnce turns ↔
      (machine memory).NoneAfterUntil Connects Fails (fun s turn => Fails s turn ∨ Receives s turn)
        turns := by
  -- carried along: the session has reported a disconnect exactly when a step of it failed
  suffices h : ((machine memory).Throughout ReportsOnce turns ↔
      (machine memory).NoneAfterUntil Connects Fails
        (fun s turn => Fails s turn ∨ Receives s turn) turns) ∧
      (.disconnected ∈ s.lane.events ↔ (machine memory).HappenedSince Connects Fails turns) from h.1
  refine Machine.run_induction (P := fun turns s =>
    ((machine memory).Throughout ReportsOnce turns ↔
      (machine memory).NoneAfterUntil Connects Fails
        (fun s turn => Fails s turn ∨ Receives s turn) turns) ∧
      (.disconnected ∈ s.lane.events ↔ (machine memory).HappenedSince Connects Fails turns)) ?_ ?_
    turns s hrun
  · refine ⟨iff_of_true (Machine.throughout_nil.mpr (atEach_nil _))
      (Machine.noneAfterUntil_nil _ _ _), ?_⟩
    exact iff_of_false (by simp [machine, lane, session]) (Machine.not_happenedSince_nil _ _)
  · rintro turns s turn s' hs ⟨hshape, hdisconnected⟩ hstep
    have hs' := Machine.run_concat_eq_some.mpr ⟨s, hs, hstep⟩
    have hmove := (follows memory).moves hs hstep
    have hbegun := (follows memory).begun hs
    rw [Machine.throughout_concat, Machine.noneAfterUntil_concat, Machine.happenedSince_concat]
    simp only [hs, hs', Option.some.injEq, forall_eq', exists_eq_left']
    by_cases hconnect : Connects turn
    · -- a new session
      have hevents : s'.lane.events = [] := by
        rw [action_eq_reset.mpr hconnect] at hmove
        generalize s.lane = l at hmove
        generalize s'.lane = l' at hmove ⊢
        cases hmove
        rfl
      have hnot : ¬ Fails s turn ∧ ¬ Receives s turn := by
        obtain ⟨isAddress, hinput⟩ := hconnect
        simp [Fails, Receives, hinput]
      simp [ReportsOnce, hevents, atEach_nil, hshape, hconnect, hnot]
    · obtain ⟨hreports, hmem⟩ := reportsOnce_of_step hbegun hmove hconnect
      rw [hreports, hmem, hdisconnected, hshape]
      constructor
      · constructor
        · rintro ⟨hfront, _, hlast⟩
          exact ⟨hfront, hlast⟩
        · rintro ⟨hfront, hlast⟩
          exact ⟨hfront, (hshape.mpr hfront).last hs, hlast⟩
      · simp [hconnect]

/-- The server goes away while a text is being sent to it. -/
def lostServer : List Turn :=
  [⟨.connect true, fun _ => []⟩, ⟨.connectDone none, fun _ => []⟩,
    ⟨.call (.sendText 0 1 [104, 105]), fun _ => []⟩, ⟨.writeFailed 0 "broken pipe", fun _ => []⟩,
    ⟨.readFailed 0 "operation canceled", fun _ => []⟩]

theorem disconnects_once_iff_lostServer :
    (machine fun _ _ => 0).Throughout ReportsOnce lostServer ↔
      (machine fun _ _ => 0).NoneAfterUntil Connects Fails
        (fun s turn => Fails s turn ∨ Receives s turn) lostServer :=
  disconnects_once_iff (show (machine fun _ _ => 0).run lostServer = some _ from rfl)

/-- The disconnect is then fired twice. -/
theorem not_reportsOnce_lostServer :
    ¬ ∀ memory, (machine memory).Throughout ReportsOnce lostServer := by
  intro h
  have honce := (h fun _ _ => 0).last
    (show (machine fun _ _ => 0).run lostServer = some _ from rfl)
  have hquiet : AtEach Quiet [.connected, .disconnected, .disconnected] := honce
  have hlast := hquiet [.connected, .disconnected] .disconnected [] rfl
  simp [Quiet] at hlast

end RyuLib.SocketClient
