import Mathlib.Data.List.Basic
import Mathlib.Tactic

/-!
# The epoll server

`process_event` goes through the events that `epoll_wait` has reported.  A socket with an error,
or one that is not ready, is closed; the listening socket accepts what waits there; any other
socket is read until `read` has nothing more to give.  Notification is edge-triggered, so that a
socket which is left open is reported again only when something new arrives on it.
-/

namespace RyuLib.Epoll

abbrev eagain : ℕ := 11

abbrev packetSize : ℕ := 4096

/-- What one `read` into `buf` brings. -/
abbrev Chunk := {bytes : List UInt8 // 0 < bytes.length ∧ bytes.length ≤ packetSize}

/-- `count > 0`, `count == 0` and `count == -1`. -/
inductive ReadResult
  | data (chunk : Chunk)
  | endOfFile
  | error (errno : ℕ)
  deriving DecidableEq

/-- A new socket, with the success of `set_socket_options` and `epoll_ctl` on it, or `-1`. -/
inductive AcceptResult
  | socket (infd : ℤ) (optionsSet added : Bool)
  | error

/-- An entry of `events`, with the answers of the system calls that it leads to. -/
structure Event where
  fd : ℤ
  err : Bool := false
  hup : Bool := false
  inp : Bool := true
  reads : List ReadResult := []
  accepts : List AcceptResult := []

inductive Output
  | received (fd : ℤ) (chunk : Chunk)
  | disconnected (fd : ℤ)
  | closed (fd : ℤ)
  | connected (fd : ℤ)
  | perror
  deriving DecidableEq

namespace Output

/-- What is put out about the connection of a socket. -/
def About (fd : ℤ) : Output → Bool
  | received fd' _ | disconnected fd' | closed fd' => fd' = fd
  | connected _ | perror => false

def chunk? : Output → Option Chunk
  | received _ chunk => some chunk
  | _ => none

end Output

/-- The listening socket and which events have a handler. -/
structure Server where
  sfd : ℤ
  onConnected : Bool := true
  onDisconnected : Bool := true
  onReceived : Bool := true

namespace Server

/-- Handlers are called where they are not null. -/
def call (handler : Bool) (output : Output) : List Output := if handler then [output] else []

def closeConnection (s : Server) (socket : ℤ) : List Output :=
  call s.onDisconnected (.disconnected socket) ++ [.closed socket]

/-- The variable `done` and what the loop has put out. -/
structure Drain where
  done : Bool := false
  log : List Output := []

/-- The loop of `received`; it has no end before `read` has given one. -/
def drain (s : Server) (fd : ℤ) (d : Drain) : List ReadResult → Option Drain
  | [] => none
  | .error errno :: _ =>
      let d := if errno ≠ eagain then { log := d.log ++ [.perror], done := true } else d
      -- the assignment stands behind the `if`
      some { d with done := false }
  | .endOfFile :: _ => some { d with done := true }
  | .data chunk :: results =>
      drain s fd { d with log := d.log ++ call s.onReceived (.received fd chunk) } results

def received (s : Server) (fd : ℤ) (reads : List ReadResult) : Option (List Output) :=
  (s.drain fd {} reads).map fun d => if d.done then d.log ++ s.closeConnection fd else d.log

/-- `abort()` where a new socket cannot be set up. -/
def haveNewConnection (s : Server) : List AcceptResult → Option (List Output)
  | [] => none
  | .error :: _ => some []
  | .socket infd optionsSet added :: accepts =>
      if optionsSet && added then
        (s.haveNewConnection accepts).map (call s.onConnected (.connected infd) ++ ·)
      else none

def isError (e : Event) : Bool := e.err || e.hup || !e.inp

/-- The body of the loop of `process_event`. -/
def serve (s : Server) (e : Event) : Option (List Output) :=
  if isError e then some (s.closeConnection e.fd)
  else if s.sfd = e.fd then s.haveNewConnection e.accepts
  else s.received e.fd e.reads

def processEvent (s : Server) : List Event → Option (List Output)
  | [] => some []
  | e :: events => do
      let log ← s.serve e
      let rest ← s.processEvent events
      return log ++ rest

/-! ## What the reads bring -/

/-- The chunks before the first result that is none. -/
def chunks : List ReadResult → List Chunk
  | .data chunk :: results => chunk :: chunks results
  | _ => []

/-- The first result that is no chunk. -/
def ending : List ReadResult → Option ReadResult
  | .data _ :: results => ending results
  | result :: _ => some result
  | [] => none

/-- An error other than `EAGAIN`. -/
def EndsInError (reads : List ReadResult) : Prop :=
  ∃ errno, errno ≠ eagain ∧ ending reads = some (.error errno)

def EndsDead (reads : List ReadResult) : Prop :=
  ending reads = some .endOfFile ∨ EndsInError reads

variable {s : Server} {e : Event} {events : List Event} {fd : ℤ} {reads : List ReadResult}
variable {log : List Output}

/-- The calls of `on_received_` for the chunks. -/
def deliveries (s : Server) (fd : ℤ) (reads : List ReadResult) : List Output :=
  (chunks reads).flatMap fun chunk => call s.onReceived (.received fd chunk)

/-- What the last result puts out; only the end of file closes the connection. -/
def lastOutput (s : Server) (fd : ℤ) : ReadResult → List Output
  | .endOfFile => s.closeConnection fd
  | .error errno => if errno = eagain then [] else [.perror]
  | .data _ => []

theorem drain_eq (s : Server) (fd : ℤ) (d : Drain) (reads : List ReadResult) :
    ((s.drain fd d reads).map fun d => if d.done then d.log ++ s.closeConnection fd else d.log) =
      (ending reads).map fun last =>
        d.log ++ s.deliveries fd reads ++ s.lastOutput fd last := by
  induction reads generalizing d with
  | nil => rfl
  | cons result reads ih =>
      cases result with
      | data chunk =>
          rw [drain, ih, deliveries, deliveries, chunks, List.flatMap_cons, ending]
          simp only [List.append_assoc]
      | endOfFile => simp [drain, ending, deliveries, chunks, lastOutput]
      | error errno =>
          by_cases heq : errno = eagain
          · simp [drain, ending, deliveries, chunks, lastOutput, heq]
          · simp [drain, ending, deliveries, chunks, lastOutput, heq]

/-- What `received` puts out once the reads have come to an end. -/
theorem received_eq (s : Server) (fd : ℤ) (reads : List ReadResult) :
    s.received fd reads =
      (ending reads).map fun last => s.deliveries fd reads ++ s.lastOutput fd last :=
  drain_eq s fd {} reads

/-! ## One socket among the events -/

theorem eq_of_mem_call {handler : Bool} {output output' : Output}
    (h : output' ∈ call handler output) : output' = output := by
  cases handler with
  | false => cases h
  | true => exact List.mem_singleton.mp h

theorem exists_of_mem_deliveries {output : Output} (h : output ∈ s.deliveries fd reads) :
    ∃ chunk, output = .received fd chunk := by
  obtain ⟨chunk, _, hcall⟩ := List.mem_flatMap.mp h
  exact ⟨chunk, eq_of_mem_call hcall⟩

theorem filter_call {handler : Bool} {output : Output} {p : Output → Bool} (h : p output) :
    (call handler output).filter p = call handler output :=
  List.filter_eq_self.mpr fun _ hmem => eq_of_mem_call hmem ▸ h

theorem filter_call_of_not {handler : Bool} {output : Output} {p : Output → Bool}
    (h : ¬ p output) : (call handler output).filter p = [] :=
  List.filter_eq_nil_iff.mpr fun _ hmem => eq_of_mem_call hmem ▸ h

theorem filter_closeConnection (s : Server) (fd : ℤ) :
    (s.closeConnection fd).filter (Output.About fd) = s.closeConnection fd := by
  rw [closeConnection, List.filter_append, filter_call (by simp [Output.About])]
  simp [Output.About]

theorem filter_closeConnection_of_ne {fd' : ℤ} (hne : fd' ≠ fd) :
    (s.closeConnection fd').filter (Output.About fd) = [] := by
  rw [closeConnection, List.filter_append, filter_call_of_not (by simp [Output.About, hne])]
  simp [Output.About, hne]

theorem filter_deliveries (s : Server) (fd : ℤ) (reads : List ReadResult) :
    (s.deliveries fd reads).filter (Output.About fd) = s.deliveries fd reads := by
  apply List.filter_eq_self.mpr
  intro output houtput
  obtain ⟨chunk, rfl⟩ := exists_of_mem_deliveries houtput
  simp [Output.About]

theorem filter_deliveries_of_ne {fd' : ℤ} (hne : fd' ≠ fd) :
    (s.deliveries fd' reads).filter (Output.About fd) = [] := by
  apply List.filter_eq_nil_iff.mpr
  intro output houtput
  obtain ⟨chunk, rfl⟩ := exists_of_mem_deliveries houtput
  simp [Output.About, hne]

/-- New sockets are none of the connections that are reported. -/
theorem filter_haveNewConnection {accepts : List AcceptResult}
    (h : s.haveNewConnection accepts = some log) : log.filter (Output.About fd) = [] := by
  induction accepts generalizing log with
  | nil => cases h
  | cons accept accepts ih =>
      cases accept with
      | error =>
          obtain rfl := Option.some.inj h
          rfl
      | socket infd optionsSet added =>
          rw [haveNewConnection] at h
          split_ifs at h
          obtain ⟨rest, hrest, rfl⟩ := Option.map_eq_some_iff.mp h
          rw [List.filter_append, ih hrest, filter_call_of_not (by simp [Output.About])]
          rfl

/-- What the server does about a connection when its socket is reported. -/
def clientOutput (s : Server) (e : Event) : List Output :=
  if isError e then s.closeConnection e.fd
  else s.deliveries e.fd e.reads ++
    if ending e.reads = some .endOfFile then s.closeConnection e.fd else []

theorem serve_client (hclient : s.sfd ≠ e.fd) (h : s.serve e = some log) :
    log.filter (Output.About e.fd) = s.clientOutput e := by
  by_cases herror : isError e = true
  · rw [serve, if_pos herror, Option.some.injEq] at h
    rw [clientOutput, if_pos herror, ← h]
    exact filter_closeConnection s e.fd
  · rw [serve, if_neg herror, if_neg hclient, received_eq] at h
    obtain ⟨last, hlast, rfl⟩ := Option.map_eq_some_iff.mp h
    rw [clientOutput, if_neg herror, List.filter_append, filter_deliveries, hlast]
    congr 1
    cases last with
    | data chunk => rfl
    | endOfFile => exact filter_closeConnection s e.fd
    | error errno =>
        have hopen : some (ReadResult.error errno) ≠ some .endOfFile := by simp
        rw [lastOutput, if_neg hopen]
        split_ifs <;> simp [Output.About]

/-- Serving one socket puts out nothing about another connection. -/
theorem serve_of_ne {fd : ℤ} (hne : e.fd ≠ fd) (h : s.serve e = some log) :
    log.filter (Output.About fd) = [] := by
  rw [serve] at h
  split_ifs at h with herror hlisten
  · obtain rfl := Option.some.inj h
    exact filter_closeConnection_of_ne hne
  · exact filter_haveNewConnection h
  · rw [received_eq] at h
    obtain ⟨last, _, rfl⟩ := Option.map_eq_some_iff.mp h
    rw [List.filter_append, filter_deliveries_of_ne hne, List.nil_append]
    cases last with
    | data chunk => rfl
    | endOfFile => exact filter_closeConnection_of_ne hne
    | error errno =>
        rw [lastOutput]
        split_ifs <;> simp [Output.About]

theorem processEvent_cons (h : s.processEvent (e :: events) = some log) :
    ∃ front back, s.serve e = some front ∧ s.processEvent events = some back ∧
      log = front ++ back := by
  simp only [processEvent, Option.bind_eq_bind, Option.bind_eq_some_iff] at h
  obtain ⟨front, hfront, back, hback, h⟩ := h
  exact ⟨front, back, hfront, hback, (Option.some.inj h).symm⟩

theorem processEvent_of_not_mem (hfd : fd ∉ events.map Event.fd)
    (h : s.processEvent events = some log) : log.filter (Output.About fd) = [] := by
  induction events generalizing log with
  | nil =>
      obtain rfl := Option.some.inj h
      rfl
  | cons e events ih =>
      obtain ⟨front, back, hfront, hback, rfl⟩ := processEvent_cons h
      rw [List.map_cons, List.mem_cons, not_or] at hfd
      rw [List.filter_append, serve_of_ne (Ne.symm hfd.1) hfront, ih hfd.2 hback]
      rfl

/-- Every event has its turn. -/
theorem exists_serve (hmem : e ∈ events) (h : s.processEvent events = some log) :
    ∃ output, s.serve e = some output := by
  induction events generalizing log with
  | nil => cases hmem
  | cons first events ih =>
      obtain ⟨front, back, hfront, hback, -⟩ := processEvent_cons h
      rcases List.mem_cons.mp hmem with rfl | hmem
      · exact ⟨front, hfront⟩
      · exact ih hmem hback

/-- Among events on different sockets, what is put out about a connection is what its own
event leads to. -/
theorem processEvent_client (hnodup : (events.map Event.fd).Nodup) (hmem : e ∈ events)
    (hclient : s.sfd ≠ e.fd) (h : s.processEvent events = some log) :
    log.filter (Output.About e.fd) = s.clientOutput e := by
  induction events generalizing log with
  | nil => cases hmem
  | cons first events ih =>
      obtain ⟨front, back, hfront, hback, rfl⟩ := processEvent_cons h
      rw [List.map_cons, List.nodup_cons] at hnodup
      rw [List.filter_append]
      rcases List.mem_cons.mp hmem with rfl | hmem
      · rw [serve_client hclient hfront, processEvent_of_not_mem hnodup.1 hback, List.append_nil]
      · have hne : first.fd ≠ e.fd := fun heq =>
          hnodup.1 (heq ▸ List.mem_map_of_mem hmem)
        rw [serve_of_ne hne hfront, List.nil_append]
        exact ih hnodup.2 hmem hback

/-! ## Dead connections -/

/-- What is put out about a connection: every chunk in order, and the end of the connection,
once, exactly when it is dead. -/
structure Served (s : Server) (e : Event) (output : List Output) : Prop where
  received : output.filterMap Output.chunk? =
    if s.onReceived && !isError e then chunks e.reads else []
  closed : .closed e.fd ∈ output ↔ isError e ∨ EndsDead e.reads
  closedOnce : output.count (.closed e.fd) ≤ 1
  disconnected : output.count (.disconnected e.fd) =
    if s.onDisconnected then output.count (.closed e.fd) else 0

theorem filterMap_deliveries (s : Server) (fd : ℤ) (reads : List ReadResult) :
    (s.deliveries fd reads).filterMap Output.chunk? =
      if s.onReceived then chunks reads else [] := by
  rw [deliveries]
  induction chunks reads with
  | nil => split_ifs <;> rfl
  | cons chunk rest ih =>
      rw [List.flatMap_cons, List.filterMap_append, ih]
      cases hhandler : s.onReceived with
      | false => rfl
      | true => rfl

theorem filterMap_closeConnection (s : Server) (fd : ℤ) :
    (s.closeConnection fd).filterMap Output.chunk? = [] := by
  cases hhandler : s.onDisconnected <;> simp [closeConnection, call, hhandler, Output.chunk?]

theorem count_deliveries (s : Server) (fd : ℤ) (reads : List ReadResult) {output : Output}
    (h : output.chunk? = none) : (s.deliveries fd reads).count output = 0 := by
  apply List.count_eq_zero_of_not_mem
  intro hmem
  obtain ⟨chunk, rfl⟩ := exists_of_mem_deliveries hmem
  cases h

theorem count_closed (s : Server) (fd : ℤ) : (s.closeConnection fd).count (.closed fd) = 1 := by
  cases hhandler : s.onDisconnected <;> simp [closeConnection, call, hhandler]

theorem count_disconnected (s : Server) (fd : ℤ) :
    (s.closeConnection fd).count (.disconnected fd) = if s.onDisconnected then 1 else 0 := by
  cases hhandler : s.onDisconnected <;> simp [closeConnection, call, hhandler]

theorem received_clientOutput (s : Server) (e : Event) :
    (s.clientOutput e).filterMap Output.chunk? =
      if s.onReceived && !isError e then chunks e.reads else [] := by
  rw [clientOutput]
  cases herror : isError e with
  | true =>
      rw [if_pos rfl, filterMap_closeConnection, Bool.not_true, Bool.and_false, if_neg (by simp)]
  | false =>
      rw [if_neg (by simp), List.filterMap_append, filterMap_deliveries, Bool.not_false,
        Bool.and_true]
      split_ifs <;> simp [filterMap_closeConnection]

/-- The connection is closed at an error event and at the end of file. -/
theorem count_closed_clientOutput (s : Server) (e : Event) :
    (s.clientOutput e).count (.closed e.fd) =
      if isError e ∨ ending e.reads = some .endOfFile then 1 else 0 := by
  rw [clientOutput]
  by_cases herror : isError e = true
  · rw [if_pos herror, if_pos (Or.inl herror), count_closed]
  · rw [if_neg herror, List.count_append, count_deliveries s e.fd e.reads rfl, Nat.zero_add]
    by_cases heof : ending e.reads = some .endOfFile
    · rw [if_pos heof, if_pos (Or.inr heof), count_closed]
    · rw [if_neg heof, if_neg (not_or.mpr ⟨herror, heof⟩), List.count_nil]

/-- Every close comes with its call of `on_disconnected_`. -/
theorem count_disconnected_clientOutput (s : Server) (e : Event) :
    (s.clientOutput e).count (.disconnected e.fd) =
      if s.onDisconnected then (s.clientOutput e).count (.closed e.fd) else 0 := by
  rw [clientOutput]
  by_cases herror : isError e = true
  · rw [if_pos herror, count_disconnected, count_closed]
  · rw [if_neg herror, List.count_append, List.count_append,
      count_deliveries s e.fd e.reads rfl, count_deliveries s e.fd e.reads rfl]
    by_cases heof : ending e.reads = some .endOfFile
    · rw [if_pos heof, count_disconnected, count_closed]
      split_ifs <;> rfl
    · rw [if_neg heof, List.count_nil, List.count_nil]
      split_ifs <;> rfl

/-- What the server does serves an event unless an error is all that ends the reads. -/
theorem served_clientOutput_iff (s : Server) (e : Event) :
    Served s e (s.clientOutput e) ↔ isError e ∨ ¬ EndsInError e.reads := by
  have hclosed : .closed e.fd ∈ s.clientOutput e ↔
      isError e ∨ ending e.reads = some .endOfFile := by
    rw [← List.count_pos_iff, count_closed_clientOutput]
    split_ifs with hcloses <;> simp [hcloses]
  have hsplit : ending e.reads = some .endOfFile → ¬ EndsInError e.reads := by
    intro heof ⟨errno, _, herror⟩
    rw [heof] at herror
    cases herror
  constructor
  · intro h
    by_contra hnot
    obtain ⟨hready, herror⟩ := not_or.mp hnot
    have herror := not_not.mp herror
    rcases hclosed.mp (h.closed.mpr (Or.inr (Or.inr herror))) with herr | heof
    · exact hready herr
    · exact hsplit heof herror
  · intro hcond
    refine ⟨received_clientOutput s e, ?_, ?_, count_disconnected_clientOutput s e⟩
    · rw [hclosed, EndsDead]
      by_cases herror : isError e = true
      · exact iff_of_true (Or.inl herror) (Or.inl herror)
      · have hnone := hcond.resolve_left herror
        rw [or_iff_left hnone]
    · rw [count_closed_clientOutput]
      split_ifs <;> omega

/-- Each client socket that is reported is served as it should be exactly if its event is an
error, or its reads do not end in an error other than `EAGAIN`.  Where no socket is reported
twice, nothing else is put out about its connection. -/
theorem served_iff (s : Server) (events : List Event) (log : List Output)
    (hrun : s.processEvent events = some log) (e : Event) (hmem : e ∈ events)
    (hclient : s.sfd ≠ e.fd) :
    ∃ output, s.serve e = some output ∧
      (Served s e (output.filter (Output.About e.fd)) ↔ isError e ∨ ¬ EndsInError e.reads) ∧
      ((events.map Event.fd).Nodup →
        log.filter (Output.About e.fd) = output.filter (Output.About e.fd)) := by
  obtain ⟨output, houtput⟩ := exists_serve hmem hrun
  refine ⟨output, houtput, ?_, ?_⟩
  · rw [serve_client hclient houtput]
    exact served_clientOutput_iff s e
  · intro hnodup
    rw [processEvent_client hnodup hmem hclient hrun, serve_client hclient houtput]

theorem served_hangup :
    let e : Event := { fd := 5, reads := [.data ⟨[65], by decide⟩, .endOfFile] }
    ∃ output, serve { sfd := 3 } e = some output ∧
      Served { sfd := 3 } e (output.filter (Output.About 5)) := by
  intro e
  obtain ⟨output, houtput, hserved, -⟩ :=
    served_iff { sfd := 3 } [e] _ rfl e List.mem_cons_self (by decide)
  exact ⟨output, houtput, hserved.mpr (Or.inr fun ⟨_, _, herror⟩ => by cases herror)⟩

/-- `ECONNRESET`. -/
theorem not_served_reset :
    let e : Event := { fd := 5, reads := [.error 104] }
    ∃ output, serve { sfd := 3 } e = some output ∧
      ¬ Served { sfd := 3 } e (output.filter (Output.About 5)) := by
  intro e
  refine ⟨[.perror], rfl, fun h => ?_⟩
  have hdead : EndsDead e.reads := Or.inr ⟨104, by decide, rfl⟩
  exact absurd (h.closed.mpr (Or.inr hdead)) (by decide)

end Server

end RyuLib.Epoll
