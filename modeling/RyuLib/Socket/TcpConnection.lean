import RyuLib.Foundations.History
import RyuLib.Socket.TcpClient

/-!
# When a TcpClient is connected

`isConnected()` tests `socket_` only.  A connection is undisturbed since it came about if
nothing but sends that took something and receives without an end or an error has happened
on it (`Harmless`).

* `TcpClient.accurate_iff`: the client is connected only while its connection is
  undisturbed, exactly when no `socket`, no awaited connection and no `recv` of the run
  fails.
-/

namespace RyuLib

open Foundations History

namespace TcpClient

section

variable {s s' : TcpClient} {replies : Replies}

/-- What leaves a connection as it is. -/
def Harmless : Occurrence → Prop
  | .took (.sendData _) | .took (.sendText _) => True
  | .sent _ => True
  | .recv (.received _) | .recv .wouldBlock => True
  | _ => False

/-- The socket is a descriptor whose connection came about, and since then no send failed,
no `recv` reported an end or an error, and no disconnect was processed. -/
def Established (s : TcpClient) : Prop :=
  0 ≤ s.socket ∧ HeldSince (· = .connected s.socket) Harmless s.log

def Accurate (s : TcpClient) : Prop := s.isConnected = true → Established s

/-- The step opens a descriptor, believes in a connection only if there is one, and receives
on it until `recv` would block. -/
def Sound (s : TcpClient) : Input → Prop
  | .call _ => True
  | .task replies => ∀ host port rest, s.tasks.queue = .connect host port :: rest →
      (host.toList.head?.any Char.isDigit = true ∨ replies.found = true) →
      0 ≤ replies.socket ∧
        (replies.socket ≠ 0 → replies.connect.connected = true → replies.connect.established = true)
  | .poll results => s.socket ≠ 0 → results.getLast? = some .wouldBlock

theorem accurate_of_socket (hsocket : s.socket = 0) : Accurate s := by
  intro hconnected
  simp [isConnected, hsocket] at hconnected

/-- Accuracy is about the socket and the log. -/
theorem accurate_congr (hsocket : s'.socket = s.socket) (hlog : s'.log = s.log) :
    Accurate s' ↔ Accurate s := by
  simp only [Accurate, Established, isConnected, hsocket, hlog]

theorem Accurate.record {what : Occurrence} (h : Accurate s) (hwhat : Harmless what) :
    Accurate (s.record what) := by
  intro hconnected
  obtain ⟨hvalid, hheld⟩ := h hconnected
  exact ⟨hvalid, heldSince_concat.mpr (Or.inr ⟨hwhat, hheld⟩)⟩

theorem accurate_doSendData {data : List UInt8} (h : Accurate s)
    (hsend : s.doSendData replies data = some s') : Accurate s' := by
  rcases doSendData_cases hsend with ⟨_, rfl⟩ | ⟨_, hsocket, _⟩ | ⟨_, n, _, _, _, rfl⟩
  · exact h
  · exact accurate_of_socket hsocket
  · exact h.record trivial

theorem accurate_openSocket (host : String) (port : ℤ) :
    Accurate (s.openSocket replies host port) ↔
      0 ≤ replies.socket ∧
        (replies.socket ≠ 0 → replies.connect.connected = true →
          replies.connect.established = true) := by
  unfold openSocket
  split
  · rename_i hnegative
    have hnot : ¬ 0 ≤ replies.socket := by omega
    simp [Accurate, isConnected, Established, hnot]
    omega
  · rename_i hvalid
    rw [not_lt] at hvalid
    split
    · rename_i hconnected
      -- the last occurrence of the log decides
      have hheld : HeldSince (· = .connected replies.socket) Harmless
          ({ s with socket := replies.socket }.request replies host port).log ↔
            replies.connect.established = true := by
        rw [request, record_log, heldSince_concat, record_log, heldSince_concat]
        cases replies.connect.established <;> simp [Harmless]
      have hsocket : ({ s with socket := replies.socket }.request replies host port).socket =
          replies.socket := rfl
      simp [Accurate, isConnected, Established, hsocket, hheld, hconnected, hvalid]
    · rename_i hconnected
      exact iff_of_true (accurate_of_socket (by simp)) ⟨hvalid, fun _ h => absurd h hconnected⟩

theorem accurate_drain {results : List RecvResult} (h : Accurate s) (hsocket : s.socket ≠ 0)
    (hdrain : s.drain results = some s') :
    Accurate s' ↔ results.getLast? = some .wouldBlock := by
  obtain ⟨hsame, _, _, hlog, chunks, last, rfl, hlast⟩ := drain_eq_some hdrain
  have hconnected : s.isConnected = true := by simpa [isConnected] using hsocket
  have hconnected' : s'.isConnected = true := by simpa [isConnected, hsame] using hsocket
  obtain ⟨hvalid, hheld⟩ := h hconnected
  have hnone : ∀ event ∈ (chunks.map RecvResult.received ++ [last]).map Occurrence.recv,
      ¬ event = .connected s.socket := by
    intro event hevent
    obtain ⟨result, _, rfl⟩ := List.mem_map.mp hevent
    simp
  rw [Accurate, Established, hsame, hlog, heldSince_append hnone]
  cases last with
  | received bytes => exact absurd rfl (hlast bytes)
  | wouldBlock =>
      have hharmless : ∀ event ∈ (chunks.map RecvResult.received ++ [RecvResult.wouldBlock]).map
          Occurrence.recv, Harmless event := by
        rw [List.map_append, List.map_map]
        intro event hevent
        rcases List.mem_append.mp hevent with hchunk | hlast
        · obtain ⟨bytes, _, rfl⟩ := List.mem_map.mp hchunk
          trivial
        · obtain rfl := List.mem_singleton.mp hlast
          exact trivial
      exact iff_of_true (fun _ => ⟨hvalid, hharmless, hheld⟩) (by simp)
  | _ => simp [hconnected', Harmless]

/-- From an accurate state a step leads to an accurate one exactly if it is sound. -/
theorem accurate_step {i : Input} (h : Accurate s) (hstep : s.step i = some s') :
    Accurate s' ↔ Sound s i := by
  cases i with
  | call call =>
      obtain rfl := Option.some.inj hstep
      obtain ⟨hsocket, hlog, _⟩ := enter_stays (s := s) call
      exact iff_of_true ((accurate_congr hsocket hlog).mpr h) trivial
  | poll results =>
      obtain ⟨s₁, hsocket, _, _, hlog, hcases⟩ := repeats_cases hstep
      rw [accurate_congr hsocket hlog]
      rcases hcases with ⟨hzero, rfl⟩ | ⟨hopen, hdrain⟩
      · exact iff_of_true h fun hopen => absurd hzero hopen
      · rw [accurate_drain h hopen hdrain]
        simp [Sound, hopen]
  | task replies =>
      obtain ⟨task, rest, hqueue, hhandle⟩ := step_task hstep
      cases task with
      | connect host port =>
          have hcases := doConnect_cases hhandle
          have hsound : Sound s (.task replies) ↔
              ((host.toList.head?.any Char.isDigit = true ∨ replies.found = true) →
                0 ≤ replies.socket ∧ (replies.socket ≠ 0 → replies.connect.connected = true →
                  replies.connect.established = true)) := by
            simp [Sound, hqueue]
          rw [hsound]
          split at hcases
          · rename_i hopens
            rw [hcases, accurate_openSocket]
            simp only [hopens, true_imp_iff]
          · rename_i hopens
            rw [hcases]
            exact iff_of_true (accurate_of_socket (by simp)) fun h => absurd h hopens
      | disconnect =>
          obtain rfl := Option.some.inj hhandle
          exact iff_of_true (accurate_of_socket doDisconnect_socket) (by simp [Sound, hqueue])
      | sendData data =>
          have htook : Accurate ({ s with tasks := ⟨rest⟩ }.record (.took (.sendData data))) :=
            Accurate.record h trivial
          exact iff_of_true (accurate_doSendData htook hhandle) (by simp [Sound, hqueue])
      | sendText text =>
          have htook : Accurate ({ s with tasks := ⟨rest⟩ }.record (.took (.sendText text))) :=
            Accurate.record h trivial
          exact iff_of_true (accurate_doSendData htook hhandle) (by simp [Sound, hqueue])

/-- In every state of a run the client regards itself as connected only if its socket is a
descriptor with an undisturbed connection, exactly when every step of the run is sound:
no `socket` fails, no connection that `select` reports ready has failed, and no `recv` of an
open socket returns 0 or a hard error. -/
theorem accurate_iff {inputs : List Input} (hrun : machine.run inputs = some s) :
    machine.Throughout Accurate inputs ↔ machine.Always Sound inputs := by
  refine Machine.throughout_iff_always (accurate_of_socket rfl) ?_ hrun
  intro inputs s i s' hs hbefore _ hstep
  exact accurate_step (hbefore.last hs) hstep

/-- The server accepts and closes the connection again. -/
def closedByPeer : List Input :=
  [.call (.connect "localhost" 80), .task {}, .poll [.endOfStream]]

theorem accurate_iff_closedByPeer :
    machine.Throughout Accurate closedByPeer ↔ machine.Always Sound closedByPeer :=
  accurate_iff (show machine.run closedByPeer = some _ from rfl)

/-- The client still regards itself as connected then. -/
theorem not_accurate_closedByPeer : ¬ machine.Throughout Accurate closedByPeer := by
  intro h
  have hlast := h.last (show machine.run closedByPeer = some _ from rfl)
  obtain ⟨_, hheld⟩ := hlast rfl
  have hsplit : HeldSince (· = Occurrence.connected 3) Harmless
      ([.took (.connect "localhost" 80), .connecting, .requested 3 "localhost" 80, .connected 3] ++
        [.recv .endOfStream]) := hheld
  rw [heldSince_concat] at hsplit
  simp [Harmless] at hsplit

end

end TcpClient

end RyuLib
