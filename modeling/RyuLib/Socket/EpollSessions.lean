import RyuLib.Foundations.Tenancy
import RyuLib.Socket.EpollRuns

/-!
# What the handlers of the epoll server hear

The handlers are told a descriptor, which is used again for another connection once it was
closed.  `sessions_of_run` says that they can tell the connections apart nevertheless, and that
they hear all that has arrived on a connection before they hear of its end.
-/

namespace RyuLib.Epoll

open Foundations

variable {server : Server} {s s' : State} {i : Input} {inputs : List Input} {fd : ℤ}
variable {c c' : Connection} {e : Event} {rest : List Event}

namespace State

/-- What the handlers hear about a descriptor. -/
def tenancy? : Output → Option (Tenancy ℤ Chunk)
  | .connected fd => some (.opened fd)
  | .received fd chunk => some (.used fd chunk)
  | .disconnected fd => some (.closed fd)
  | .closed _ | .perror => none

def trace (log : List Output) : List (Tenancy ℤ Chunk) := log.filterMap tenancy?

/-- The connections of a descriptor that were closed. -/
def closedOf (past : List (ℤ × Connection)) (fd : ℤ) : List Connection :=
  (past.filter fun p => p.1 = fd).map Prod.snd

/-- What was received, and what is still to be read, is what has arrived. -/
def Delivered (chunks : List Chunk) (c : Connection) : Prop :=
  chunks.flatMap Subtype.val ++ c.unread = c.arrived

/-- Only a connection that has failed is closed before everything was read. -/
def Finished (chunks : List Chunk) (c : Connection) : Prop :=
  Delivered chunks c ∧ (c.unread = [] ∨ c.hup = true)

structure Heard (s : State) : Prop where
  handlers : s.server.onConnected = true ∧ s.server.onDisconnected = true ∧
    s.server.onReceived = true
  sessions : ∃ t, (Tenancy.table ℤ Chunk).run (trace s.log) = some t ∧
    ∀ fd, fd ∈ t ↔ (s.connections fd).isSome
  open_ : ∀ {fd c}, s.connections fd = some c →
    ∃ chunks, (Tenancy.tenancies fd (trace s.log)).now = some chunks ∧ Delivered chunks c
  past : ∀ fd, List.Forall₂ Finished (Tenancy.tenancies fd (trace s.log)).past (closedOf s.past fd)

theorem trace_append (first second : List Output) :
    trace (first ++ second) = trace first ++ trace second :=
  List.filterMap_append

/-- Nothing is heard, and what arrives is still to be read. -/
theorem Heard.frame (h : Heard s)
    (hhandlers : s'.server.onConnected = s.server.onConnected ∧
      s'.server.onDisconnected = s.server.onDisconnected ∧
      s'.server.onReceived = s.server.onReceived)
    (htrace : trace s'.log = trace s.log) (hpast : s'.past = s.past)
    (hsome : ∀ fd, (s'.connections fd).isSome = (s.connections fd).isSome)
    (hstream : ∀ fd c c', s.connections fd = some c → s'.connections fd = some c' →
      ∃ bytes, c'.arrived = c.arrived ++ bytes ∧ c'.unread = c.unread ++ bytes) : Heard s' := by
  refine ⟨?_, ?_, ?_, ?_⟩
  · rw [hhandlers.1, hhandlers.2.1, hhandlers.2.2]
    exact h.handlers
  · obtain ⟨t, ht, hmem⟩ := h.sessions
    exact ⟨t, htrace ▸ ht, fun fd => by rw [hsome, hmem]⟩
  · intro fd c' hc'
    have hopen : (s.connections fd).isSome := by rw [← hsome, hc']; rfl
    obtain ⟨c, hc⟩ := Option.isSome_iff_exists.mp hopen
    obtain ⟨chunks, hnow, hdelivered⟩ := h.open_ hc
    obtain ⟨bytes, harrived, hunread⟩ := hstream fd c c' hc hc'
    refine ⟨chunks, htrace ▸ hnow, ?_⟩
    rw [Delivered, harrived, hunread, ← List.append_assoc, hdelivered]
  · rw [htrace, hpast]
    exact h.past

/-- The connections are as they were. -/
theorem Heard.same (h : Heard s)
    (hhandlers : s'.server.onConnected = s.server.onConnected ∧
      s'.server.onDisconnected = s.server.onDisconnected ∧
      s'.server.onReceived = s.server.onReceived)
    (htrace : trace s'.log = trace s.log) (hpast : s'.past = s.past)
    (hconnections : s'.connections = s.connections) : Heard s' := by
  refine h.frame hhandlers htrace hpast (fun fd => by rw [hconnections]) (fun fd c c' hc hc' => ?_)
  rw [hconnections, hc, Option.some.injEq] at hc'
  exact ⟨[], by simp [hc'], by simp [hc']⟩

/-- A connection changes in a way that leaves nothing unread out. -/
theorem Heard.setConnection (h : Heard s) (hc : s.connections fd = some c)
    (hstream : ∃ bytes, c'.arrived = c.arrived ++ bytes ∧ c'.unread = c.unread ++ bytes) :
    Heard (s.setConnection fd c') := by
  refine h.frame ⟨rfl, rfl, rfl⟩ rfl rfl (fun fd' => ?_) (fun fd' c₀ c₁ hc₀ hc₁ => ?_)
  · by_cases hfd : fd' = fd
    · subst hfd
      rw [hc, setConnection_self]
      rfl
    · rw [setConnection_of_ne s c' hfd]
  · by_cases hfd : fd' = fd
    · subst hfd
      rw [setConnection_self, Option.some.injEq] at hc₁
      rw [hc, Option.some.injEq] at hc₀
      exact hc₁ ▸ hc₀ ▸ hstream
    · rw [setConnection_of_ne s c' hfd, hc₀, Option.some.injEq] at hc₁
      exact ⟨[], by simp [hc₁], by simp [hc₁]⟩

theorem tenancies_self (log : List Output) {output : Output} {event : Tenancy ℤ Chunk}
    (h : tenancy? output = some event) (hfd : event.key = fd) :
    Tenancy.tenancies fd (trace (log ++ [output])) =
      Tenancy.note (Tenancy.tenancies fd (trace log)) event := by
  have hone : trace [output] = [event] := by simp [trace, h]
  subst hfd
  rw [trace_append, hone, Tenancy.tenancies_concat_self]

theorem tenancies_of_ne (log : List Output) {output : Output} {event : Tenancy ℤ Chunk}
    (h : tenancy? output = some event) (hfd : event.key ≠ fd) :
    Tenancy.tenancies fd (trace (log ++ [output])) = Tenancy.tenancies fd (trace log) := by
  have hone : trace [output] = [event] := by simp [trace, h]
  rw [trace_append, hone, Tenancy.tenancies_concat_of_ne hfd]

theorem run_concat {log : List Output} {output : Output} {event : Tenancy ℤ Chunk}
    (h : tenancy? output = some event) {t t' : Finset ℤ}
    (ht : (Tenancy.table ℤ Chunk).run (trace log) = some t)
    (hafter : Tenancy.after t event = some t') :
    (Tenancy.table ℤ Chunk).run (trace (log ++ [output])) = some t' := by
  have hone : trace [output] = [event] := by simp [trace, h]
  rw [trace_append, hone]
  exact Machine.run_concat_eq_some.mpr ⟨t, ht, hafter⟩

theorem closedOf_self (past : List (ℤ × Connection)) (fd : ℤ) (c : Connection) :
    closedOf (past ++ [(fd, c)]) fd = closedOf past fd ++ [c] := by
  simp [closedOf]

theorem closedOf_of_ne (past : List (ℤ × Connection)) (c : Connection) {fd fd' : ℤ}
    (hfd : fd ≠ fd') : closedOf (past ++ [(fd, c)]) fd' = closedOf past fd' := by
  simp [closedOf, hfd]

/-- A chunk is handed over. -/
theorem Heard.receive (h : Heard s) (hc : s.connections fd = some c) {chunk : Chunk}
    {unread : List UInt8} (hsplit : c.unread = chunk.1 ++ unread) (point : Point) :
    Heard { s.setConnection fd { c with unread := unread } with
      log := s.log ++ Server.call s.server.onReceived (.received fd chunk)
      point := point } := by
  rw [h.handlers.2.2, Server.call, if_pos rfl]
  have hheard : tenancy? (.received fd chunk) = some (.used fd chunk) := rfl
  obtain ⟨chunks, hnow, hdelivered⟩ := h.open_ hc
  refine ⟨h.handlers, ?_, ?_, ?_⟩
  · obtain ⟨t, ht, hmem⟩ := h.sessions
    have hfd : fd ∈ t := (hmem fd).mpr (by rw [hc]; rfl)
    refine ⟨t, run_concat hheard ht (if_pos hfd), fun fd' => ?_⟩
    by_cases hne : fd' = fd
    · subst hne
      exact iff_of_true hfd (by simp)
    · rw [hmem fd', ← s.setConnection_of_ne _ hne]
  · intro fd' c' hc'
    by_cases hne : fd' = fd
    · subst hne
      obtain rfl := Option.some.inj ((s.setConnection_self fd' _).symm.trans hc')
      have hkey : (Tenancy.used fd' chunk).key = fd' := rfl
      refine ⟨chunks ++ [chunk], ?_, ?_⟩
      · rw [tenancies_self _ hheard hkey, Tenancy.note, hnow]
        rfl
      · rw [Delivered, hsplit] at hdelivered
        simpa [Delivered, List.flatMap_append] using hdelivered
    · rw [tenancies_of_ne _ hheard (Ne.symm hne)]
      exact h.open_ ((s.setConnection_of_ne _ hne).symm.trans hc')
  · intro fd'
    by_cases hne : fd' = fd
    · rw [tenancies_self _ hheard hne.symm]
      exact h.past fd'
    · rw [tenancies_of_ne _ hheard (Ne.symm hne)]
      exact h.past fd'

/-- A connection is closed. -/
theorem Heard.close (h : Heard s) (hc : s.connections fd = some c)
    (hlast : c.unread = [] ∨ c.hup = true) (e : Event) (rest : List Event) :
    Heard ((s.closeConnection fd).finishEvent e rest) := by
  have hheard : tenancy? (.disconnected fd) = some (.closed fd) := rfl
  obtain ⟨chunks, hnow, hdelivered⟩ := h.open_ hc
  have hlog : trace ((s.closeConnection fd).finishEvent e rest).log =
      trace (s.log ++ [.disconnected fd]) := by
    simp [finishEvent, closeConnection, Server.closeConnection, Server.call, h.handlers.2.1,
      trace, tenancy?]
  have hpast : ((s.closeConnection fd).finishEvent e rest).past = s.past ++ [(fd, c)] := by
    simp [finishEvent, closeConnection, hc]
  refine ⟨h.handlers, ?_, ?_, ?_⟩
  · obtain ⟨t, ht, hmem⟩ := h.sessions
    have hfd : fd ∈ t := (hmem fd).mpr (by rw [hc]; rfl)
    refine ⟨t.erase fd, hlog ▸ run_concat hheard ht (if_pos hfd), fun fd' => ?_⟩
    by_cases hne : fd' = fd
    · subst hne
      exact iff_of_false (Finset.notMem_erase fd' t) (by simp [finishEvent])
    · rw [Finset.mem_erase, hmem fd', ← s.closeConnection_of_ne hne]
      exact and_iff_right hne
  · intro fd' c' hc'
    rw [hlog]
    by_cases hne : fd' = fd
    · subst hne
      exact absurd ((s.closeConnection_self fd').symm.trans hc') (by simp)
    · rw [tenancies_of_ne _ hheard (Ne.symm hne)]
      exact h.open_ ((s.closeConnection_of_ne hne).symm.trans hc')
  · intro fd'
    rw [hlog, hpast]
    by_cases hne : fd' = fd
    · subst hne
      have hkey : (Tenancy.closed fd' : Tenancy ℤ Chunk).key = fd' := rfl
      have hlast' : List.Forall₂ Finished [chunks] [c] :=
        List.Forall₂.cons ⟨hdelivered, hlast⟩ List.Forall₂.nil
      rw [tenancies_self _ hheard hkey, Tenancy.note, hnow, closedOf_self]
      exact List.rel_append (h.past fd') hlast'
    · rw [tenancies_of_ne _ hheard (Ne.symm hne), closedOf_of_ne _ _ (Ne.symm hne)]
      exact h.past fd'

/-- A connection is accepted. -/
theorem Heard.accept (h : Heard s) (hfresh : s.connections fd = none) (listener : Option Listener)
    (point : Point) :
    Heard { s.setConnection fd {} with
      listener := listener
      log := s.log ++ Server.call s.server.onConnected (.connected fd)
      point := point } := by
  rw [h.handlers.1, Server.call, if_pos rfl]
  have hheard : tenancy? (.connected fd) = some (.opened fd) := rfl
  refine ⟨h.handlers, ?_, ?_, ?_⟩
  · obtain ⟨t, ht, hmem⟩ := h.sessions
    have hfd : fd ∉ t := fun hno => by simpa [hfresh] using (hmem fd).mp hno
    refine ⟨insert fd t, run_concat hheard ht (if_neg hfd), fun fd' => ?_⟩
    by_cases hne : fd' = fd
    · subst hne
      exact iff_of_true (Finset.mem_insert_self fd' t) (by simp)
    · rw [Finset.mem_insert, or_iff_right hne, hmem fd', ← s.setConnection_of_ne _ hne]
  · intro fd' c' hc'
    by_cases hne : fd' = fd
    · subst hne
      obtain rfl := Option.some.inj ((s.setConnection_self fd' _).symm.trans hc')
      have hkey : (Tenancy.opened fd' : Tenancy ℤ Chunk).key = fd' := rfl
      exact ⟨[], by rw [tenancies_self _ hheard hkey, Tenancy.note], rfl⟩
    · rw [tenancies_of_ne _ hheard (Ne.symm hne)]
      exact h.open_ ((s.setConnection_of_ne _ hne).symm.trans hc')
  · intro fd'
    by_cases hne : fd' = fd
    · rw [tenancies_self _ hheard hne.symm]
      exact h.past fd'
    · rw [tenancies_of_ne _ hheard (Ne.symm hne)]
      exact h.past fd'

/-- A message on the error output is not heard. -/
theorem trace_error (log : List Output) (errno : ℕ) :
    trace (log ++ if errno ≠ eagain then [.perror] else []) = trace log := by
  rw [trace_append]
  split_ifs <;> exact List.append_nil _

/-- Every step keeps what is heard true to the connections. -/
theorem Heard.step (h : Heard s) (ho : Orderly s) (hstep : Step s i s') : Heard s' := by
  cases hstep with
  | tasks tasks => exact h.same ⟨rfl, rfl, rfl⟩ rfl rfl rfl
  | happen fd c c' hc hhappens => exact h.setConnection hc hhappens.stream
  | connect l hl => exact h.same ⟨rfl, rfl, rfl⟩ rfl rfl rfl
  | start tasks sfd htop hstopped hfresh => exact h.same ⟨rfl, rfl, rfl⟩ rfl rfl rfl
  | stop tasks htop => exact h.same ⟨rfl, rfl, rfl⟩ rfl rfl rfl
  | wait fds events htop hstarted hne hnodup hevents =>
      refine h.frame ⟨rfl, rfl, rfl⟩ rfl rfl (fun fd => Option.isSome_map ..)
        (fun fd c c' hc hc' => ?_)
      obtain ⟨c₀, hc₀, rfl⟩ := reported_connections hc'
      obtain rfl := Option.some.inj (hc.symm.trans hc₀)
      exact ⟨[], by simp, by simp⟩
  | error e rest hpoint herror =>
      have hevent := ho.pending e (by simp [hpoint, Point.pending])
      have hopen := hevent.isOpen.resolve_left fun hsfd => by
        rw [hevent.quiet hsfd] at herror
        cases herror
      obtain ⟨c, hc⟩ := Option.isSome_iff_exists.mp hopen
      exact h.close hc (Or.inr (hevent.heard hc herror)) e rest
  | haveNewConnection e rest hpoint hready hsfd => exact h.same ⟨rfl, rfl, rfl⟩ rfl rfl rfl
  | received e rest hpoint hready hsfd => exact h.same ⟨rfl, rfl, rfl⟩ rfl rfl rfl
  | read e rest c c' result hpoint hc hread =>
      cases hread with
      | data chunk unread hsplit =>
          exact h.receive hc hsplit (.received { e with reads := e.reads ++ [.data chunk] } rest)
      | error errno hempty herror =>
          have hset : Heard (s.setConnection e.fd { c with error := none }) :=
            h.setConnection hc ⟨[], by simp, by simp⟩
          exact hset.same ⟨rfl, rfl, rfl⟩ (trace_error s.log errno) rfl rfl
      | endOfFile hempty =>
          have hset : Heard (s.setConnection e.fd c) := h.setConnection hc ⟨[], by simp, by simp⟩
          exact hset.close (s.setConnection_self e.fd c) (Or.inl hempty) _ rest
      | again hnone =>
          have hset : Heard (s.setConnection e.fd c) := h.setConnection hc ⟨[], by simp, by simp⟩
          exact hset.same ⟨rfl, rfl, rfl⟩ (trace_error s.log eagain) rfl rfl
  | accept e rest l infd hpoint hl hwaiting hfresh hne =>
      exact h.accept hfresh (some { l with backlog := l.backlog - 1 })
        (.haveNewConnection { e with accepts := e.accepts ++ [.socket infd true true] } rest)
  | refuse e rest hinput hpoint => exact h.same ⟨rfl, rfl, rfl⟩ rfl rfl rfl

end State

open State

theorem heard_run (hhandlers : server.onConnected = true ∧ server.onDisconnected = true ∧
    server.onReceived = true) (hrun : (runs server).run inputs = some s) : Heard s := by
  refine Machine.run_induction (M := runs server) (P := fun _ s => Heard s) ?_ ?_ inputs s hrun
  · refine ⟨hhandlers, ⟨∅, rfl, fun fd => ?_⟩, (fun hc => nomatch hc), fun fd => ?_⟩
    · exact iff_of_false (Finset.notMem_empty fd) (by simp [runs])
    · exact List.Forall₂.nil
  · intro inputs s i s' hs h hstep
    exact h.step (orderly_of_run hs) (step_cases hstep)

/-- Whatever callers, peers and the thread do, the handlers hear of every descriptor one
connection after the other: that it is there, its chunks, and that it has ended; the last one
goes on exactly if the socket is open.  The chunks of a connection and what is still to be read
are what has arrived, and only a connection that has failed is closed with anything unread. -/
theorem sessions_of_run (server : Server) (inputs : List Input) (s : State)
    (hhandlers : server.onConnected = true ∧ server.onDisconnected = true ∧
      server.onReceived = true)
    (hrun : (runs server).run inputs = some s) (fd : ℤ) :
    Tenancy.Spelled (trace s.log) fd (s.connections fd).isSome ∧
      List.Forall₂ Finished (Tenancy.tenancies fd (trace s.log)).past (closedOf s.past fd) ∧
      ∀ c, s.connections fd = some c →
        ∃ chunks, (Tenancy.tenancies fd (trace s.log)).now = some chunks ∧ Delivered chunks c := by
  have h := heard_run hhandlers hrun
  obtain ⟨t, ht, hmem⟩ := h.sessions
  obtain ⟨hspell, hnow⟩ := Tenancy.run_eq_some_iff.mp ht fd
  exact ⟨⟨hspell, hnow.trans (hmem fd)⟩, h.past fd, fun c hc => h.open_ hc⟩

/-- The descriptor of a connection that has ended is given to the next one. -/
theorem sessions_reused :
    let inputs : List Input :=
      [.start 80, .pop { addresses := some [⟨3, true⟩] }, .connect, .wait [3], .next,
        .accept (.socket 5 true true), .accept .refused, .arrive 5 [65], .finish 5, .wait [5],
        .next, .read 1, .read 1, .connect, .wait [3], .next, .accept (.socket 5 true true)]
    ∃ s, (runs { sfd := -1 }).run inputs = some s ∧
      Tenancy.Spelled (trace s.log) 5 (s.connections 5).isSome ∧
      List.Forall₂ Finished (Tenancy.tenancies 5 (trace s.log)).past (closedOf s.past 5) := by
  intro inputs
  obtain ⟨s, hs⟩ : ∃ s, (runs { sfd := -1 }).run inputs = some s :=
    Option.isSome_iff_exists.mp rfl
  obtain ⟨hspelled, hpast, -⟩ := sessions_of_run { sfd := -1 } inputs s ⟨rfl, rfl, rfl⟩ hs 5
  exact ⟨s, hs, hspelled, hpast⟩

end RyuLib.Epoll
