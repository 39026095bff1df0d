import RyuLib.Foundations.Machine
import RyuLib.Socket.EpollServer

/-!
# Runs of the epoll server

The thread of the server, its callers and the peers take steps in any order.  The thread takes a
task from the queue or, while the server is started and the queue is empty, waits for events and
goes through them: it reads a socket and accepts on the listening one until there is nothing more
to be had.  `start` and `stop` only put a task into the queue.

Notification is edge-triggered: a descriptor comes onto the ready list of the epoll set when
something new happens to it, and leaves it when `epoll_wait` has reported it.  The descriptor of
a socket that was closed is free for the next one.
-/

namespace RyuLib.Epoll

open Foundations

abbrev maxEvents : ℕ := 32768

/-- `TASK_START` and `TASK_STOP`. -/
inductive Task
  | start (port : ℤ)
  | stop

/-! ## Sockets -/

/-- The kernel's side of a connection.  Once it has failed, its error is reported to one call;
further reads find the end. -/
structure Connection where
  arrived : List UInt8 := []
  unread : List UInt8 := []
  ended : Bool := false
  error : Option ℕ := none
  hup : Bool := false
  ready : Bool := false

namespace Connection

/-- Whether `epoll_wait` finds something to report. -/
def Polls (c : Connection) : Prop := c.unread ≠ [] ∨ c.ended = true ∨ c.hup = true

instance (c : Connection) : Decidable c.Polls := by unfold Polls; infer_instance

def arrive (c : Connection) (bytes : List UInt8) : Option Connection :=
  if bytes ≠ [] ∧ c.ended = false ∧ c.hup = false then
    some { c with arrived := c.arrived ++ bytes, unread := c.unread ++ bytes, ready := true }
  else none

/-- The peer sends nothing more. -/
def finish (c : Connection) : Option Connection :=
  if c.ended = false ∧ c.hup = false then some { c with ended := true, ready := true } else none

/-- `ECONNRESET` or another error by which a connection ends. -/
def fail (c : Connection) (errno : ℕ) : Option Connection :=
  if errno ≠ eagain ∧ c.hup = false then
    some { c with error := some errno, hup := true, ready := true }
  else none

/-- What a `read` of at most `n` bytes brings; the kernel gives what it has first. -/
def read (c : Connection) (n : ℕ) : Option (ReadResult × Connection) :=
  if hn : 0 < (c.unread.take n).length ∧ (c.unread.take n).length ≤ packetSize then
    some (.data ⟨c.unread.take n, hn⟩, { c with unread := c.unread.drop n })
  else if c.unread ≠ [] then none
  else match c.error with
    | some errno => some (.error errno, { c with error := none })
    | none =>
        if c.ended = true ∨ c.hup = true then some (.endOfFile, c) else some (.error eagain, c)

def event (c : Connection) (fd : ℤ) : Event where
  fd := fd
  err := c.error.isSome
  hup := c.hup
  inp := true

end Connection

/-- The kernel's side of the listening socket: how many connections wait to be accepted. -/
structure Listener where
  backlog : ℕ := 0
  ready : Bool := false

/-- What `socket` and `bind` say about an address that `getaddrinfo` has found. -/
structure Address where
  sfd : ℤ
  bound : Bool

/-- A socket that cannot be bound is closed before the next address is tried. -/
def createAndBind : List Address → Option ℤ
  | [] => none
  | address :: addresses =>
      if address.sfd = -1 then createAndBind addresses
      else if address.bound then some address.sfd
      else createAndBind addresses

/-- The answers of the system calls of `do_task_start`; there are no addresses where
`getaddrinfo` fails. -/
structure Listening where
  addresses : Option (List Address)
  optionsSet : Bool := true
  listening : Bool := true
  added : Bool := true

/-- What `accept` brings: a socket, or `-1` with `EAGAIN` where no connection waits, and with
`EMFILE` and other errors where they are left waiting. -/
inductive Accepted
  | socket (infd : ℤ) (optionsSet added : Bool)
  | refused

/-! ## The server and its environment -/

/-- Where the thread stands: at the head of its loop, before the next one of the events that were
reported, or in the loop of `received` or `have_new_connection`.  The answers so far are kept in
the event. -/
inductive Point
  | top
  | events (rest : List Event)
  | received (e : Event) (rest : List Event)
  | haveNewConnection (e : Event) (rest : List Event)

/-- The events that are not done with. -/
def Point.pending : Point → List Event
  | top => []
  | events rest => rest
  | received e rest | haveNewConnection e rest => e :: rest

structure State where
  isStarted : Bool := false
  server : Server
  tasks : List Task := []
  point : Point := .top
  listener : Option Listener := none
  connections : ℤ → Option Connection := fun _ => none
  log : List Output := []
  /-- The connections that were closed. -/
  past : List (ℤ × Connection) := []
  /-- The events that were served. -/
  served : List (Server × Event) := []

inductive Input
  | start (port : ℤ)
  | stop
  | arrive (fd : ℤ) (bytes : List UInt8)
  | finish (fd : ℤ)
  | fail (fd : ℤ) (errno : ℕ)
  | connect
  | pop (listening : Listening)
  | wait (fds : List ℤ)
  | next
  | read (n : ℕ)
  | accept (accepted : Accepted)

namespace State

def setConnection (s : State) (fd : ℤ) (c : Connection) : State :=
  { s with connections := Function.update s.connections fd (some c) }

/-- Something happens to a connection. -/
def happen (s : State) (fd : ℤ) (f : Connection → Option Connection) : Option State :=
  (s.connections fd).bind fun c => (f c).map fun c' => s.setConnection fd c'

def doTaskStart (s : State) (l : Listening) : Option State :=
  if s.isStarted then some s
  else (l.addresses.bind createAndBind).bind fun sfd =>
    -- a new descriptor is none that is open
    if l.optionsSet && l.listening && l.added && (s.connections sfd).isNone then
      some { s with
        isStarted := true
        server := { s.server with sfd := sfd }
        listener := some {} }
    else none

/-- `close(sfd)`; the connections stay. -/
def doTaskStop (s : State) : State :=
  if s.isStarted then { s with isStarted := false, listener := none } else s

def closeConnection (s : State) (fd : ℤ) : State :=
  { s with
    log := s.log ++ s.server.closeConnection fd
    past := s.past ++ (s.connections fd).toList.map (fd, ·)
    connections := Function.update s.connections fd none }

/-- What `epoll_wait` says about a descriptor on the ready list. -/
def report (s : State) (fd : ℤ) : Option Event :=
  match s.listener with
  | some l =>
      if fd = s.server.sfd then
        if l.ready = true ∧ 0 < l.backlog then some { fd := fd } else none
      else (s.connections fd).bind fun c =>
        if c.ready = true ∧ c.Polls then some (c.event fd) else none
  | none => none

def reported (s : State) (fds : List ℤ) (events : List Event) : State :=
  { s with
    point := .events events
    listener := s.listener.map fun l => { l with ready := l.ready && s.server.sfd ∉ fds }
    connections := fun fd =>
      (s.connections fd).map fun c => { c with ready := c.ready && fd ∉ fds } }

/-- The event has been dealt with. -/
def finishEvent (s : State) (e : Event) (rest : List Event) : State :=
  { s with
    point := if rest = [] then .top else .events rest
    served := s.served ++ [(s.server, e)] }

/-- The body of the loop of `process_event` up to the first system call. -/
def serveNext (s : State) (e : Event) (rest : List Event) : State :=
  if Server.isError e then (s.closeConnection e.fd).finishEvent e rest
  else if s.server.sfd = e.fd then { s with point := .haveNewConnection e rest }
  else { s with point := .received e rest }

/-- The loop of `received` once. -/
def readOnce (s : State) (e : Event) (rest : List Event) : ReadResult → State
  | .data chunk =>
      { s with
        log := s.log ++ Server.call s.server.onReceived (.received e.fd chunk)
        point := .received { e with reads := e.reads ++ [.data chunk] } rest }
  | .endOfFile =>
      (s.closeConnection e.fd).finishEvent { e with reads := e.reads ++ [.endOfFile] } rest
  | .error errno =>
      -- `done` is reset, so that nothing is closed
      finishEvent { s with log := s.log ++ if errno ≠ eagain then [.perror] else [] }
        { e with reads := e.reads ++ [.error errno] } rest

/-- The loop of `have_new_connection` once. -/
def acceptOnce (s : State) (e : Event) (rest : List Event) (l : Listener) :
    Accepted → Option State
  | .refused => some (s.finishEvent { e with accepts := e.accepts ++ [.error] } rest)
  | .socket infd optionsSet added =>
      if l.backlog = 0 then none
      else if (s.connections infd).isSome || infd = s.server.sfd then none
      else if optionsSet && added then
        some { s with
          listener := some { l with backlog := l.backlog - 1 }
          connections := Function.update s.connections infd (some {})
          log := s.log ++ Server.call s.server.onConnected (.connected infd)
          point := .haveNewConnection
            { e with accepts := e.accepts ++ [.socket infd optionsSet added] } rest }
      else none

def step (s : State) : Input → Option State
  | .start port => some { s with tasks := s.tasks ++ [.start port] }
  | .stop => some { s with tasks := s.tasks ++ [.stop] }
  | .arrive fd bytes => s.happen fd fun c => c.arrive bytes
  | .finish fd => s.happen fd Connection.finish
  | .fail fd errno => s.happen fd fun c => c.fail errno
  | .connect =>
      s.listener.map fun l =>
        { s with listener := some { backlog := l.backlog + 1, ready := true } }
  | .pop listening =>
      match s.point, s.tasks with
      | .top, .start _ :: tasks => { s with tasks := tasks }.doTaskStart listening
      | .top, .stop :: tasks => some { s with tasks := tasks }.doTaskStop
      | _, _ => none
  | .wait fds =>
      match s.point, s.tasks with
      | .top, [] =>
          if s.isStarted ∧ fds ≠ [] ∧ fds.Nodup ∧ fds.length ≤ maxEvents then
            (fds.mapM s.report).map (s.reported fds)
          else none
      | _, _ => none
  | .next =>
      match s.point with
      | .events (e :: rest) => some (s.serveNext e rest)
      | _ => none
  | .read n =>
      match s.point with
      | .received e rest =>
          (s.connections e.fd).bind fun c => (c.read n).map fun (result, c') =>
            (s.setConnection e.fd c').readOnce e rest result
      | _ => none
  | .accept accepted =>
      match s.point, s.listener with
      | .haveNewConnection e rest, some l => s.acceptOnce e rest l accepted
      | _, _ => none

end State

/-- A server with its handlers; nothing listens yet. -/
def runs (server : Server) : Machine State Input := ⟨{ server := server }, State.step⟩

variable {server : Server} {s s' : State} {i : Input} {inputs : List Input} {fd : ℤ}
variable {c c' : Connection} {e : Event} {rest : List Event}

/-! ## What a step does -/

namespace Connection

/-- What the peer can do to a connection. -/
structure Happens (c c' : Connection) : Prop where
  ready : c'.ready = true
  stream : ∃ bytes, c'.arrived = c.arrived ++ bytes ∧ c'.unread = c.unread ++ bytes
  hup : c.hup = true → c'.hup = true
  failed : (c.error.isSome → c.hup = true) → c'.error.isSome → c'.hup = true

theorem happens_arrive {bytes : List UInt8} (h : c.arrive bytes = some c') : Happens c c' := by
  rw [arrive] at h
  split_ifs at h
  obtain rfl := Option.some.inj h
  exact ⟨rfl, ⟨bytes, rfl, rfl⟩, id, id⟩

theorem happens_finish (h : c.finish = some c') : Happens c c' := by
  rw [finish] at h
  split_ifs at h
  obtain rfl := Option.some.inj h
  exact ⟨rfl, ⟨[], by simp, by simp⟩, id, id⟩

theorem happens_fail {errno : ℕ} (h : c.fail errno = some c') : Happens c c' := by
  rw [fail] at h
  split_ifs at h
  obtain rfl := Option.some.inj h
  exact ⟨rfl, ⟨[], by simp, by simp⟩, fun _ => rfl, fun _ _ => rfl⟩

/-- What a `read` can bring. -/
inductive Reads (c : Connection) : ReadResult → Connection → Prop
  | data (chunk : Chunk) (unread : List UInt8) (hsplit : c.unread = chunk.1 ++ unread) :
      Reads c (.data chunk) { c with unread := unread }
  | error (errno : ℕ) (hempty : c.unread = []) (herror : c.error = some errno) :
      Reads c (.error errno) { c with error := none }
  | endOfFile (hempty : c.unread = []) : Reads c .endOfFile c
  | again (hnone : ¬ c.Polls) : Reads c (.error eagain) c

theorem reads_of_read {n : ℕ} {result : ReadResult} (h : c.read n = some (result, c')) :
    Reads c result c' := by
  rw [read] at h
  by_cases hn : 0 < (c.unread.take n).length ∧ (c.unread.take n).length ≤ packetSize
  · rw [dif_pos hn] at h
    obtain ⟨rfl, rfl⟩ := Prod.mk.inj (Option.some.inj h)
    exact Reads.data _ _ (List.take_append_drop n c.unread).symm
  · by_cases hempty : c.unread = []
    · rw [dif_neg hn, if_neg (not_not.mpr hempty)] at h
      cases herror : c.error with
      | some errno =>
          rw [herror] at h
          obtain ⟨rfl, rfl⟩ := Prod.mk.inj (Option.some.inj h)
          exact Reads.error errno hempty herror
      | none =>
          rw [herror] at h
          simp only at h
          split_ifs at h with hend
          · obtain ⟨rfl, rfl⟩ := Prod.mk.inj (Option.some.inj h)
            exact Reads.endOfFile hempty
          · obtain ⟨rfl, rfl⟩ := Prod.mk.inj (Option.some.inj h)
            exact Reads.again (not_or.mpr ⟨not_not.mpr hempty, hend⟩)
    · rw [dif_neg hn, if_pos hempty] at h
      cases h

end Connection

namespace State

@[simp] theorem setConnection_self (s : State) (fd : ℤ) (c : Connection) :
    (s.setConnection fd c).connections fd = some c :=
  Function.update_self ..

theorem setConnection_of_ne (s : State) {fd fd' : ℤ} (c : Connection) (hfd : fd' ≠ fd) :
    (s.setConnection fd c).connections fd' = s.connections fd' :=
  Function.update_of_ne hfd _ _

@[simp] theorem closeConnection_self (s : State) (fd : ℤ) :
    (s.closeConnection fd).connections fd = none :=
  Function.update_self ..

theorem closeConnection_of_ne (s : State) {fd fd' : ℤ} (hfd : fd' ≠ fd) :
    (s.closeConnection fd).connections fd' = s.connections fd' :=
  Function.update_of_ne hfd _ _

/-- What a step can do. -/
inductive Step (s : State) (i : Input) : State → Prop
  | tasks (tasks : List Task) : Step s i { s with tasks := tasks }
  | happen (fd : ℤ) (c c' : Connection) (hc : s.connections fd = some c)
      (hhappens : c.Happens c') : Step s i (s.setConnection fd c')
  | connect (l : Listener) (hl : s.listener = some l) :
      Step s i { s with listener := some { backlog := l.backlog + 1, ready := true } }
  | start (tasks : List Task) (sfd : ℤ) (htop : s.point = .top) (hstopped : s.isStarted = false)
      (hfresh : s.connections sfd = none) :
      Step s i { s with
        tasks := tasks
        isStarted := true
        server := { s.server with sfd := sfd }
        listener := some {} }
  | stop (tasks : List Task) (htop : s.point = .top) :
      Step s i { s with tasks := tasks, isStarted := false, listener := none }
  | wait (fds : List ℤ) (events : List Event) (htop : s.point = .top)
      (hstarted : s.isStarted = true) (hne : fds ≠ []) (hnodup : fds.Nodup)
      (hevents : fds.mapM s.report = some events) : Step s i (s.reported fds events)
  | error (e : Event) (rest : List Event) (hpoint : s.point = .events (e :: rest))
      (herror : Server.isError e = true) : Step s i ((s.closeConnection e.fd).finishEvent e rest)
  | haveNewConnection (e : Event) (rest : List Event) (hpoint : s.point = .events (e :: rest))
      (hready : Server.isError e = false) (hsfd : s.server.sfd = e.fd) :
      Step s i { s with point := .haveNewConnection e rest }
  | received (e : Event) (rest : List Event) (hpoint : s.point = .events (e :: rest))
      (hready : Server.isError e = false) (hsfd : s.server.sfd ≠ e.fd) :
      Step s i { s with point := .received e rest }
  | read (e : Event) (rest : List Event) (c c' : Connection) (result : ReadResult)
      (hpoint : s.point = .received e rest) (hc : s.connections e.fd = some c)
      (hread : c.Reads result c') : Step s i ((s.setConnection e.fd c').readOnce e rest result)
  | accept (e : Event) (rest : List Event) (l : Listener) (infd : ℤ)
      (hpoint : s.point = .haveNewConnection e rest) (hl : s.listener = some l)
      (hwaiting : 0 < l.backlog) (hfresh : s.connections infd = none)
      (hne : infd ≠ s.server.sfd) :
      Step s i { s with
        listener := some { l with backlog := l.backlog - 1 }
        connections := Function.update s.connections infd (some {})
        log := s.log ++ Server.call s.server.onConnected (.connected infd)
        point := .haveNewConnection
          { e with accepts := e.accepts ++ [.socket infd true true] } rest }
  | refuse (e : Event) (rest : List Event) (hinput : i = .accept .refused)
      (hpoint : s.point = .haveNewConnection e rest) :
      Step s i (s.finishEvent { e with accepts := e.accepts ++ [.error] } rest)

theorem step_happen {f : Connection → Option Connection} (h : s.happen fd f = some s')
    (hf : ∀ {c c'}, f c = some c' → c.Happens c') : Step s i s' := by
  obtain ⟨c, hc, h⟩ := Option.bind_eq_some_iff.mp h
  obtain ⟨c', hc', rfl⟩ := Option.map_eq_some_iff.mp h
  exact Step.happen fd c c' hc (hf hc')

theorem step_doTaskStart {l : Listening} {tasks : List Task} (htop : s.point = .top)
    (h : doTaskStart { s with tasks := tasks } l = some s') : Step s i s' := by
  rw [doTaskStart] at h
  split_ifs at h with hstarted
  · obtain rfl := Option.some.inj h
    exact Step.tasks tasks
  · obtain ⟨sfd, -, h⟩ := Option.bind_eq_some_iff.mp h
    split_ifs at h with hok
    obtain rfl := Option.some.inj h
    simp only [Bool.and_eq_true, Option.isNone_iff_eq_none] at hok
    exact Step.start tasks sfd htop (Bool.eq_false_iff.mpr hstarted) hok.2

theorem step_doTaskStop (tasks : List Task) (htop : s.point = .top) :
    Step s i (doTaskStop { s with tasks := tasks }) := by
  rw [doTaskStop]
  split_ifs with hstarted
  · exact Step.stop tasks htop
  · exact Step.tasks tasks

theorem step_serveNext (hpoint : s.point = .events (e :: rest)) :
    Step s i (s.serveNext e rest) := by
  rw [serveNext]
  split_ifs with herror hsfd
  · exact Step.error e rest hpoint herror
  · exact Step.haveNewConnection e rest hpoint (Bool.eq_false_iff.mpr herror) hsfd
  · exact Step.received e rest hpoint (Bool.eq_false_iff.mpr herror) hsfd

theorem step_acceptOnce {l : Listener} {accepted : Accepted} (hinput : i = .accept accepted)
    (hpoint : s.point = .haveNewConnection e rest) (hl : s.listener = some l)
    (h : s.acceptOnce e rest l accepted = some s') : Step s i s' := by
  cases accepted with
  | refused =>
      obtain rfl := Option.some.inj h
      exact Step.refuse e rest hinput hpoint
  | socket infd optionsSet added =>
      rw [acceptOnce] at h
      split_ifs at h with hnone hfresh hok
      obtain rfl := Option.some.inj h
      simp only [Bool.or_eq_true, decide_eq_true_eq, not_or, Option.not_isSome_iff_eq_none]
        at hfresh
      rw [Bool.and_eq_true] at hok
      obtain ⟨rfl, rfl⟩ := hok
      exact Step.accept e rest l infd hpoint hl (Nat.pos_of_ne_zero hnone) hfresh.1 hfresh.2

theorem step_cases (h : s.step i = some s') : Step s i s' := by
  cases i with
  | start port =>
      obtain rfl := Option.some.inj h
      exact Step.tasks _
  | stop =>
      obtain rfl := Option.some.inj h
      exact Step.tasks _
  | arrive fd bytes => exact step_happen h Connection.happens_arrive
  | finish fd => exact step_happen h Connection.happens_finish
  | fail fd errno => exact step_happen h Connection.happens_fail
  | connect =>
      obtain ⟨l, hl, rfl⟩ := Option.map_eq_some_iff.mp h
      exact Step.connect l hl
  | pop listening =>
      rw [step] at h
      split at h
      · next htop _ => exact step_doTaskStart htop h
      · next htop _ =>
          obtain rfl := Option.some.inj h
          exact step_doTaskStop _ htop
      · cases h
  | wait fds =>
      rw [step] at h
      split at h
      · next htop _ =>
          split_ifs at h with hwait
          obtain ⟨events, hevents, rfl⟩ := Option.map_eq_some_iff.mp h
          exact Step.wait fds events htop hwait.1 hwait.2.1 hwait.2.2.1 hevents
      · cases h
  | next =>
      rw [step] at h
      split at h
      · next hpoint =>
          obtain rfl := Option.some.inj h
          exact step_serveNext hpoint
      · cases h
  | read n =>
      rw [step] at h
      split at h
      · next hpoint =>
          obtain ⟨c, hc, h⟩ := Option.bind_eq_some_iff.mp h
          obtain ⟨⟨result, c'⟩, hread, rfl⟩ := Option.map_eq_some_iff.mp h
          exact Step.read _ _ c c' result hpoint hc (Connection.reads_of_read hread)
      · cases h
  | accept accepted =>
      rw [step] at h
      split at h
      · next hpoint hl => exact step_acceptOnce rfl hpoint hl h
      · cases h

/-! ## No event is lost -/

/-- An event that is still to be dealt with: its socket is open, and was reported in error just
when it had failed; what happened since has put it onto the ready list again. -/
structure Pending (sfd : ℤ) (connections : ℤ → Option Connection) (e : Event) : Prop where
  isOpen : e.fd = sfd ∨ (connections e.fd).isSome
  quiet : e.fd = sfd → Server.isError e = false
  heard : ∀ {c}, connections e.fd = some c → Server.isError e = true → c.hup = true
  unheard : ∀ {c}, connections e.fd = some c → Server.isError e = false → c.hup = true →
    c.ready = true

/-- The thread is where its event belongs. -/
def InPlace (sfd : ℤ) : Point → Prop
  | .received e _ => e.fd ≠ sfd ∧ Server.isError e = false
  | .haveNewConnection e _ => e.fd = sfd
  | .top | .events _ => True

structure Orderly (s : State) : Prop where
  listening : s.listener.isSome = s.isStarted
  fresh : s.isStarted = true → s.connections s.server.sfd = none
  running : s.point.pending ≠ [] → s.isStarted = true
  nodup : (s.point.pending.map Event.fd).Nodup
  pending : ∀ e ∈ s.point.pending, Pending s.server.sfd s.connections e
  inPlace : InPlace s.server.sfd s.point
  failed : ∀ {fd c}, s.connections fd = some c → c.error.isSome → c.hup = true
  announced : ∀ {fd c}, s.connections fd = some c → c.Polls →
    c.ready = true ∨ fd ∈ s.point.pending.map Event.fd

theorem pending_finishEvent (s : State) (e : Event) (rest : List Event) :
    (s.finishEvent e rest).point.pending = rest := by
  simp only [finishEvent]
  split_ifs with hrest
  · exact hrest.symm
  · rfl

theorem Pending.congr {sfd : ℤ} {connections connections' : ℤ → Option Connection}
    (h : Pending sfd connections e) (hsame : connections' e.fd = connections e.fd) :
    Pending sfd connections' e where
  isOpen := hsame.symm ▸ h.isOpen
  quiet := h.quiet
  heard hc := h.heard (hsame ▸ hc)
  unheard hc := h.unheard (hsame ▸ hc)

/-- The first event is done with, and its connection has nothing left that was not announced. -/
theorem Orderly.leave (h : Orderly s) (hpending : s.point.pending = e :: rest)
    (hothers : ∀ fd, fd ≠ e.fd → s'.connections fd = s.connections fd)
    (hself : ∀ c, s'.connections e.fd = some c →
      (c.error.isSome → c.hup = true) ∧ (c.Polls → c.ready = true))
    (hsfd : s.connections s.server.sfd = none → s'.connections s.server.sfd = none)
    (hserver : s'.server = s.server) (hlistener : s'.listener = s.listener)
    (hstarted : s'.isStarted = s.isStarted)
    (hpoint : s'.point = if rest = [] then .top else .events rest) : Orderly s' := by
  have hrest : s'.point.pending = rest := by
    rw [hpoint]
    split_ifs with hnil
    · exact hnil.symm
    · rfl
  have hnodup := h.nodup
  rw [hpending, List.map_cons, List.nodup_cons] at hnodup
  have hrunning := h.running (by simp [hpending])
  refine ⟨?_, ?_, ?_, ?_, ?_, ?_, ?_, ?_⟩
  · rw [hlistener, hstarted, h.listening]
  · intro _
    rw [hserver]
    exact hsfd (h.fresh hrunning)
  · intro _
    rw [hstarted, hrunning]
  · rw [hrest]
    exact hnodup.2
  · intro e' he'
    rw [hrest] at he'
    have hne : e'.fd ≠ e.fd := fun heq => hnodup.1 (heq ▸ List.mem_map_of_mem he')
    rw [hserver]
    exact (h.pending e' (by simp [hpending, he'])).congr (hothers e'.fd hne)
  · rw [hpoint]
    split_ifs <;> trivial
  · intro fd c hc
    by_cases hfd : fd = e.fd
    · subst hfd
      exact (hself c hc).1
    · rw [hothers fd hfd] at hc
      exact h.failed hc
  · intro fd c hc hpolls
    by_cases hfd : fd = e.fd
    · subst hfd
      exact Or.inl ((hself c hc).2 hpolls)
    · rw [hothers fd hfd] at hc
      have hann := h.announced hc hpolls
      rw [hpending, List.map_cons, List.mem_cons, or_iff_right hfd] at hann
      rw [hrest]
      exact hann

/-- One connection changes, and the events stay as they are. -/
theorem Orderly.change (h : Orderly s) (fd : ℤ) (c' : Connection)
    (hfd : s.connections fd = none → s.isStarted = true ∧ fd ≠ s.server.sfd)
    (hconnections : s'.connections = Function.update s.connections fd (some c'))
    (hfailed : c'.error.isSome → c'.hup = true)
    (hann : c'.Polls → c'.ready = true ∨ fd ∈ s.point.pending.map Event.fd)
    (hpending : ∀ e ∈ s.point.pending, e.fd = fd →
      ∀ c, s.connections fd = some c → (c.hup = true → c'.hup = true) ∧
        (c'.hup = true → (c.hup = true → c.ready = true) → c'.ready = true))
    (hserver : s'.server = s.server) (hlistener : s'.listener.isSome = s.listener.isSome)
    (hstarted : s'.isStarted = s.isStarted) (hpoint : s'.point.pending = s.point.pending)
    (hplace : InPlace s.server.sfd s'.point) : Orderly s' := by
  have hself : s'.connections fd = some c' := by rw [hconnections, Function.update_self]
  have hothers {fd' : ℤ} (hne : fd' ≠ fd) : s'.connections fd' = s.connections fd' := by
    rw [hconnections, Function.update_of_ne hne]
  refine ⟨?_, ?_, ?_, ?_, ?_, ?_, ?_, ?_⟩
  · rw [hlistener, hstarted, h.listening]
  · rw [hstarted, hserver]
    intro hrunning
    have hfresh := h.fresh hrunning
    have hne : s.server.sfd ≠ fd := by
      rintro rfl
      exact (hfd hfresh).2 rfl
    rw [hothers hne, hfresh]
  · rw [hpoint, hstarted]
    exact h.running
  · rw [hpoint]
    exact h.nodup
  · intro e he
    rw [hpoint] at he
    have hold := h.pending e he
    rw [hserver]
    by_cases hefd : e.fd = fd
    · refine ⟨Or.inr (by rw [hefd, hself]; rfl), hold.quiet, ?_, ?_⟩
      · intro c hc herror
        rw [hefd, hself, Option.some.injEq] at hc
        obtain rfl := hc
        cases hold' : s.connections fd with
        | none =>
            have hlistens := hold.isOpen.resolve_right (by rw [hefd, hold']; decide)
            exact absurd (hefd ▸ hlistens) (hfd hold').2
        | some c =>
            exact (hpending e he hefd c hold').1 (hold.heard (hefd ▸ hold') herror)
      · intro c hc herror hhup
        rw [hefd, hself, Option.some.injEq] at hc
        obtain rfl := hc
        cases hold' : s.connections fd with
        | none =>
            have hlistens := hold.isOpen.resolve_right (by rw [hefd, hold']; decide)
            exact absurd (hefd ▸ hlistens) (hfd hold').2
        | some c =>
            exact (hpending e he hefd c hold').2 hhup (hold.unheard (hefd ▸ hold') herror)
    · exact hold.congr (hothers hefd)
  · rw [hserver]
    exact hplace
  · intro fd' c hc
    by_cases hne : fd' = fd
    · rw [hne, hself, Option.some.injEq] at hc
      exact hc ▸ hfailed
    · rw [hothers hne] at hc
      exact h.failed hc
  · intro fd' c hc hpolls
    rw [hpoint]
    by_cases hne : fd' = fd
    · rw [hne, hself, Option.some.injEq] at hc
      obtain rfl := hc
      exact hne ▸ hann hpolls
    · rw [hothers hne] at hc
      exact h.announced hc hpolls

theorem report_cases (h : s.report fd = some e) : e.fd = fd ∧
    (fd = s.server.sfd ∧ Server.isError e = false ∨
      fd ≠ s.server.sfd ∧ ∃ c, s.connections fd = some c ∧ e = c.event fd) := by
  rw [report] at h
  split at h
  · split_ifs at h with hsfd hready
    · obtain rfl := Option.some.inj h
      exact ⟨rfl, Or.inl ⟨hsfd, rfl⟩⟩
    · obtain ⟨c, hc, h⟩ := Option.bind_eq_some_iff.mp h
      split_ifs at h
      obtain rfl := Option.some.inj h
      exact ⟨rfl, Or.inr ⟨hsfd, c, hc, rfl⟩⟩
  · cases h

theorem report_of_mapM {fds : List ℤ} {events : List Event}
    (h : fds.mapM s.report = some events) :
    events.map Event.fd = fds ∧ ∀ e ∈ events, s.report e.fd = some e := by
  induction fds generalizing events with
  | nil =>
      obtain rfl := Option.some.inj h
      exact ⟨rfl, by simp⟩
  | cons fd fds ih =>
      simp only [List.mapM_cons, Option.pure_def, Option.bind_eq_bind, Option.bind_eq_some_iff,
        Option.some.injEq] at h
      obtain ⟨e, he, events, hevents, rfl⟩ := h
      obtain ⟨hfds, hreports⟩ := ih hevents
      have hfd := (report_cases he).1
      refine ⟨by rw [List.map_cons, hfd, hfds], ?_⟩
      intro e' he'
      rcases List.mem_cons.mp he' with rfl | he'
      · rw [hfd, he]
      · exact hreports e' he'

theorem isError_event (fd : ℤ) (hfailed : c.error.isSome → c.hup = true) :
    Server.isError (c.event fd) = c.hup := by
  cases herr : c.error.isSome with
  | false => simp [Server.isError, Connection.event, herr]
  | true => simp [Server.isError, Connection.event, hfailed herr]

theorem reported_connections {fds : List ℤ} {events : List Event}
    (hc : (s.reported fds events).connections fd = some c') :
    ∃ c, s.connections fd = some c ∧ c' = { c with ready := c.ready && fd ∉ fds } := by
  obtain ⟨c, hc₀, rfl⟩ := Option.map_eq_some_iff.mp hc
  exact ⟨c, hc₀, rfl⟩

theorem Orderly.wait (h : Orderly s) {fds : List ℤ} {events : List Event}
    (hstarted : s.isStarted = true) (hnodup : fds.Nodup)
    (htop : s.point = .top) (hevents : fds.mapM s.report = some events) :
    Orderly (s.reported fds events) := by
  obtain ⟨hfds, hreports⟩ := report_of_mapM hevents
  have hfresh : (s.reported fds events).connections s.server.sfd = none := by
    simp only [reported, h.fresh hstarted, Option.map_none]
  refine ⟨?_, fun _ => hfresh, fun _ => hstarted, hfds ▸ hnodup, ?_, trivial, ?_, ?_⟩
  · rw [reported, Option.isSome_map, h.listening]
  · intro e he
    obtain ⟨-, hcases⟩ := report_cases (hreports e he)
    rcases hcases with ⟨hsfd, hready⟩ | ⟨hsfd, c, hc, heq⟩
    · refine ⟨Or.inl hsfd, fun _ => hready, fun hc => ?_, fun hc => ?_⟩ <;>
        · rw [hsfd, hfresh] at hc
          cases hc
    · have hhup : Server.isError e = c.hup :=
        heq ▸ isError_event e.fd (h.failed hc)
      refine ⟨Or.inr ?_, fun hlistens => absurd hlistens hsfd, fun hc' herror => ?_,
        fun hc' hready hhup' => ?_⟩
      · simp only [reported, hc, Option.map_some, Option.isSome_some]
      · obtain ⟨c'', hc'', rfl⟩ := reported_connections hc'
        obtain rfl := Option.some.inj (hc.symm.trans hc'')
        exact hhup ▸ herror
      · obtain ⟨c'', hc'', rfl⟩ := reported_connections hc'
        obtain rfl := Option.some.inj (hc.symm.trans hc'')
        rw [hhup] at hready
        rw [hready] at hhup'
        cases hhup'
  · intro fd c' hc'
    obtain ⟨c, hc₀, rfl⟩ := reported_connections hc'
    have hfailed := h.failed hc₀
    exact hfailed
  · intro fd c' hc' hpolls
    obtain ⟨c, hc₀, rfl⟩ := reported_connections hc'
    have hpending : (s.reported fds events).point.pending.map Event.fd = fds := hfds
    rw [hpending]
    by_cases hfd : fd ∈ fds
    · exact Or.inr hfd
    · have hann := h.announced hc₀ hpolls
      rw [htop] at hann
      simpa [hfd, Point.pending] using hann

theorem Orderly.happen (h : Orderly s) (hc : s.connections fd = some c)
    (hhappens : c.Happens c') : Orderly (s.setConnection fd c') := by
  refine h.change fd c' (fun hnone => ?_) rfl (hhappens.failed (h.failed hc))
    (fun _ => Or.inl hhappens.ready) ?_ rfl rfl rfl rfl h.inPlace
  · rw [hc] at hnone
    cases hnone
  · rintro e _ - c₀ hc₀
    obtain rfl := Option.some.inj (hc.symm.trans hc₀)
    exact ⟨hhappens.hup, fun _ _ => hhappens.ready⟩

theorem Orderly.start (h : Orderly s) (tasks : List Task) {sfd : ℤ} (htop : s.point = .top)
    (hfresh : s.connections sfd = none) :
    Orderly { s with
      tasks := tasks
      isStarted := true
      server := { s.server with sfd := sfd }
      listener := some {} } := by
  refine ⟨rfl, fun _ => hfresh, fun _ => rfl, h.nodup, ?_, ?_, h.failed, h.announced⟩
  · simp [htop, Point.pending]
  · simp [htop, InPlace]

theorem Orderly.stop (h : Orderly s) (tasks : List Task) (htop : s.point = .top) :
    Orderly { s with tasks := tasks, isStarted := false, listener := none } := by
  refine ⟨rfl, (fun hno => nomatch hno), ?_, h.nodup, h.pending, h.inPlace, h.failed, h.announced⟩
  simp [htop, Point.pending]

/-- The connection of the first event is closed. -/
theorem Orderly.close (h : Orderly s) (hpending : s.point.pending = e :: rest) (e' : Event) :
    Orderly ((s.closeConnection e.fd).finishEvent e' rest) := by
  refine h.leave hpending (fun _ => s.closeConnection_of_ne) (fun c hc => ?_)
    (fun hnone => ?_) rfl rfl rfl rfl
  · exact absurd ((s.closeConnection_self e.fd).symm.trans hc) (by simp)
  · simp only [finishEvent, closeConnection, Function.update_apply, hnone, ite_self]

/-- Answers are noted in the event. -/
theorem Pending.note {sfd : ℤ} {connections : ℤ → Option Connection}
    (h : Pending sfd connections e) (reads : List ReadResult) (accepts : List AcceptResult) :
    Pending sfd connections { e with reads := reads, accepts := accepts } :=
  ⟨h.isOpen, h.quiet, h.heard, h.unheard⟩

theorem Orderly.note (h : Orderly s) (hpending : s.point.pending = e :: rest)
    (reads : List ReadResult) (accepts : List AcceptResult) (point : Point)
    (hpoint : point.pending = { e with reads := reads, accepts := accepts } :: rest)
    (hplace : InPlace s.server.sfd point) (log : List Output) :
    Orderly { s with log := log, point := point } := by
  have hfds : point.pending.map Event.fd = s.point.pending.map Event.fd := by
    rw [hpoint, hpending]
    rfl
  refine ⟨h.listening, h.fresh, ?_, ?_, ?_, hplace, h.failed, ?_⟩
  · intro _
    exact h.running (by simp [hpending])
  · rw [hfds]
    exact h.nodup
  · intro e' he'
    rw [hpoint] at he'
    rcases List.mem_cons.mp he' with rfl | he'
    · exact (h.pending e (by simp [hpending])).note reads accepts
    · exact h.pending e' (by simp [hpending, he'])
  · rw [hfds]
    exact h.announced

theorem Orderly.read (h : Orderly s) {result : ReadResult} (hpoint : s.point = .received e rest)
    (hc : s.connections e.fd = some c) (hread : c.Reads result c') :
    Orderly ((s.setConnection e.fd c').readOnce e rest result) := by
  have hpending : s.point.pending = e :: rest := by rw [hpoint]; rfl
  have hplace := h.inPlace
  rw [hpoint] at hplace
  have hevent := h.pending e (by simp [hpending])
  -- a connection that has failed since it was reported is on the ready list again
  have hready : c.hup = true → c.ready = true := hevent.unheard hc hplace.2
  cases hread with
  | data chunk unread hsplit =>
      have hchange : Orderly (s.setConnection e.fd { c with unread := unread }) := by
        have hfailed := h.failed hc
        refine h.change e.fd _ (fun hnone => ?_) rfl hfailed (fun _ => Or.inr ?_) ?_
          rfl rfl rfl rfl h.inPlace
        · rw [hc] at hnone
          cases hnone
        · simp [hpending]
        · rintro _ _ - c₀ hc₀
          obtain rfl := Option.some.inj (hc.symm.trans hc₀)
          exact ⟨id, fun hhup hready => hready hhup⟩
      exact hchange.note hpending (e.reads ++ [.data chunk]) e.accepts
        (.received { e with reads := e.reads ++ [.data chunk] } rest) rfl hplace _
  | error errno hempty herror =>
      refine h.leave hpending (fun _ => s.setConnection_of_ne _) (fun c₀ hc₀ => ?_)
        (s.setConnection_of_ne _ hplace.1.symm).trans rfl rfl rfl rfl
      obtain rfl := Option.some.inj ((s.setConnection_self e.fd _).symm.trans hc₀)
      exact ⟨fun hno => (nomatch hno), fun _ => hready (h.failed hc (by rw [herror]; rfl))⟩
  | endOfFile hempty =>
      have hothers {fd : ℤ} (hfd : fd ≠ e.fd) :
          ((s.setConnection e.fd c).closeConnection e.fd).connections fd = s.connections fd :=
        (closeConnection_of_ne _ hfd).trans (s.setConnection_of_ne c hfd)
      refine h.leave hpending (fun _ => hothers) (fun c₀ hc₀ => ?_)
        (hothers hplace.1.symm).trans rfl rfl rfl rfl
      exact absurd ((closeConnection_self _ e.fd).symm.trans hc₀) (by simp)
  | again hnone =>
      refine h.leave hpending (fun _ => s.setConnection_of_ne _) (fun c₀ hc₀ => ?_)
        (s.setConnection_of_ne _ hplace.1.symm).trans rfl rfl rfl rfl
      obtain rfl := Option.some.inj ((s.setConnection_self e.fd _).symm.trans hc₀)
      exact ⟨h.failed hc, fun hpolls => absurd hpolls hnone⟩

theorem Orderly.accept (h : Orderly s) {l : Listener} {infd : ℤ}
    (hpoint : s.point = .haveNewConnection e rest) (hl : s.listener = some l)
    (hfresh : s.connections infd = none) (hne : infd ≠ s.server.sfd) :
    Orderly { s with
      listener := some { l with backlog := l.backlog - 1 }
      connections := Function.update s.connections infd (some {})
      log := s.log ++ Server.call s.server.onConnected (.connected infd)
      point := .haveNewConnection
        { e with accepts := e.accepts ++ [.socket infd true true] } rest } := by
  have hpending : s.point.pending = e :: rest := by rw [hpoint]; rfl
  have hstarted := h.running (by simp [hpending])
  have hplace := h.inPlace
  have hchange : Orderly { s with
      listener := some { l with backlog := l.backlog - 1 }
      connections := Function.update s.connections infd (some {}) } := by
    refine h.change infd {} (fun _ => ⟨hstarted, hne⟩) rfl (fun hno => nomatch hno)
      (fun hno => ?_) ?_ rfl (by rw [hl]; rfl) rfl rfl hplace
    · simp [Connection.Polls] at hno
    · rintro _ _ - c hc
      rw [hfresh] at hc
      cases hc
  rw [hpoint] at hplace
  exact hchange.note hpending e.reads (e.accepts ++ [.socket infd true true])
    (.haveNewConnection { e with accepts := e.accepts ++ [.socket infd true true] } rest)
    rfl hplace _

/-- Every step keeps the events in order. -/
theorem Orderly.step (h : Orderly s) (hstep : Step s i s') : Orderly s' := by
  cases hstep with
  | tasks tasks =>
      exact ⟨h.listening, h.fresh, h.running, h.nodup, h.pending, h.inPlace, h.failed, h.announced⟩
  | happen fd c c' hc hhappens => exact h.happen hc hhappens
  | connect l hl =>
      refine ⟨?_, h.fresh, h.running, h.nodup, h.pending, h.inPlace, h.failed, h.announced⟩
      rw [← h.listening, hl]
      rfl
  | start tasks sfd htop hstopped hfresh => exact h.start tasks htop hfresh
  | stop tasks htop => exact h.stop tasks htop
  | wait fds events htop hstarted hne hnodup hevents => exact h.wait hstarted hnodup htop hevents
  | error e rest hpoint herror => exact h.close (by rw [hpoint]; rfl) e
  | haveNewConnection e rest hpoint hready hsfd =>
      have hpending : s.point.pending = e :: rest := by rw [hpoint]; rfl
      exact h.note hpending e.reads e.accepts (.haveNewConnection e rest) rfl hsfd.symm _
  | received e rest hpoint hready hsfd =>
      have hpending : s.point.pending = e :: rest := by rw [hpoint]; rfl
      exact h.note hpending e.reads e.accepts (.received e rest) rfl ⟨hsfd.symm, hready⟩ _
  | read e rest c c' result hpoint hc hread => exact h.read hpoint hc hread
  | accept e rest l infd hpoint hl hwaiting hfresh hne =>
      exact h.accept hpoint hl hfresh hne
  | refuse e rest hinput hpoint =>
      have hpending : s.point.pending = e :: rest := by rw [hpoint]; rfl
      have hplace := h.inPlace
      rw [hpoint] at hplace
      have hnone := h.fresh (h.running (by simp [hpending]))
      refine h.leave hpending (fun _ _ => rfl) (fun c hc => ?_) id rfl rfl rfl rfl
      rw [show e.fd = s.server.sfd from hplace] at hc
      exact absurd hc (by simp [finishEvent, hnone])

end State

open State

theorem orderly_of_run (hrun : (runs server).run inputs = some s) : Orderly s := by
  refine Machine.invariant (M := runs server) (I := Orderly) ?_ ?_ hrun
  · refine ⟨rfl, (fun hno => nomatch hno), (fun hno => absurd rfl hno), List.nodup_nil, ?_,
      trivial, ?_, ?_⟩
    · intro e he
      cases he
    · intro fd c hc
      cases hc
    · intro fd c hc
      cases hc
  · intro s i s' h hstep
    exact h.step (step_cases hstep)

/-- A connection with something to be read, an end or a failure is on the ready list or among
the events that the thread is about to deal with, so that an idle server can be told of it. -/
theorem announced_of_run (server : Server) (inputs : List Input) (s : State)
    (hrun : (runs server).run inputs = some s) (fd : ℤ) (c : Connection)
    (hc : s.connections fd = some c) (hpolls : c.Polls) :
    (c.ready = true ∨ fd ∈ s.point.pending.map Event.fd) ∧
      (s.point = .top → s.isStarted = true → s.tasks = [] →
        s.step (.wait [fd]) = some (s.reported [fd] [c.event fd])) := by
  have h := orderly_of_run hrun
  have hann := h.announced hc hpolls
  refine ⟨hann, fun htop hstarted htasks => ?_⟩
  have hready : c.ready = true := by
    rw [htop] at hann
    simpa [Point.pending] using hann
  have hsfd : fd ≠ s.server.sfd := by
    rintro rfl
    rw [h.fresh hstarted] at hc
    cases hc
  obtain ⟨l, hl⟩ := Option.isSome_iff_exists.mp (h.listening.trans hstarted)
  have hreport : s.report fd = some (c.event fd) := by
    simp [report, hl, hsfd, hc, hready, hpolls]
  simp [step, htop, htasks, hstarted, hreport]

/-- A connection fails after it was reported, and while the thread reads. -/
theorem announced_reset :
    let inputs : List Input :=
      [.start 80, .pop { addresses := some [⟨3, true⟩] }, .connect, .wait [3], .next,
        .accept (.socket 5 true true), .accept .refused, .arrive 5 [65], .wait [5], .next, .read 1,
        .fail 5 104, .read 1]
    let c : Connection := { arrived := [65], hup := true, ready := true }
    ∃ s, (runs { sfd := -1 }).run inputs = some s ∧
      (c.ready = true ∨ 5 ∈ s.point.pending.map Event.fd) ∧
      (s.point = .top → s.isStarted = true → s.tasks = [] →
        s.step (.wait [5]) = some (s.reported [5] [c.event 5])) := by
  intro inputs c
  obtain ⟨s, hs⟩ : ∃ s, (runs { sfd := -1 }).run inputs = some s :=
    Option.isSome_iff_exists.mp rfl
  have hc : ((runs { sfd := -1 }).run inputs).bind (fun s => s.connections 5) = some c := rfl
  rw [hs] at hc
  exact ⟨s, hs, announced_of_run { sfd := -1 } inputs s hs 5 c hc (by decide)⟩

end RyuLib.Epoll
