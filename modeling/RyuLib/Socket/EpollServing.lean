import RyuLib.Socket.EpollRuns

/-!
# Serving the events

The thread of the epoll server makes one system call after the other, and anything can happen
elsewhere in between.  `serves_of_run` says that it puts out what `serve` says about the events
one by one, and `attended_iff_never_abandons` when a connection is left waiting.
-/

namespace RyuLib.Epoll

open Foundations

variable {server : Server} {s s' : State} {i : Input} {inputs : List Input} {fd : ℤ}
variable {c c' : Connection} {e : Event} {rest : List Event}

namespace State

/-! ## Events one after the other -/

/-- What the present event has put out so far. -/
def present (s : State) : List Output :=
  match s.point with
  | .received e _ => s.server.deliveries e.fd e.reads
  | .haveNewConnection e _ => e.accepts.flatMap fun
      | .socket infd _ _ => Server.call s.server.onConnected (.connected infd)
      | .error => []
  | .top | .events _ => []

/-- The event is still as it was reported. -/
def Blank (e : Event) : Prop := e.reads = [] ∧ e.accepts = []

/-- The answers that keep the loop of the present event going. -/
def InLoop (server : Server) : Point → Prop
  | .received e rest => Server.isError e = false ∧ server.sfd ≠ e.fd ∧ e.accepts = [] ∧
      (∃ chunks : List Chunk, e.reads = chunks.map .data) ∧ ∀ e' ∈ rest, Blank e'
  | .haveNewConnection e rest => Server.isError e = false ∧ server.sfd = e.fd ∧
      (∀ a ∈ e.accepts, ∃ infd, a = .socket infd true true) ∧ ∀ e' ∈ rest, Blank e'
  | .events rest => ∀ e' ∈ rest, Blank e'
  | .top => True

/-- What the events that were served have put out, one after the other. -/
def outputs (served : List (Server × Event)) : Option (List (List Output)) :=
  served.mapM fun p => p.1.serve p.2

/-- The log is that of the events one by one, and of what the present one has put out. -/
structure Serves (s : State) : Prop where
  log : ∃ logs, outputs s.served = some logs ∧ s.log = logs.flatten ++ s.present
  inLoop : InLoop s.server s.point

theorem outputs_concat {served : List (Server × Event)} {logs : List (List Output)}
    (h : outputs served = some logs) {output : List Output} {server : Server}
    (hserve : server.serve e = some output) :
    outputs (served ++ [(server, e)]) = some (logs ++ [output]) := by
  rw [outputs] at h ⊢
  simp [List.mapM_append, h, hserve]

theorem ending_concat (chunks : List Chunk) {result : ReadResult}
    (hresult : ∀ chunk, result ≠ .data chunk) :
    Server.ending (chunks.map ReadResult.data ++ [result]) = some result ∧
      Server.chunks (chunks.map ReadResult.data ++ [result]) = chunks := by
  induction chunks with
  | nil =>
      cases result with
      | data chunk => exact absurd rfl (hresult chunk)
      | endOfFile => exact ⟨rfl, rfl⟩
      | error errno => exact ⟨rfl, rfl⟩
  | cons chunk chunks ih => exact ⟨ih.1, congrArg (chunk :: ·) ih.2⟩

theorem chunks_map (chunks : List Chunk) : Server.chunks (chunks.map ReadResult.data) = chunks := by
  induction chunks with
  | nil => rfl
  | cons chunk chunks ih => exact congrArg (chunk :: ·) ih

theorem deliveries_concat (server : Server) (fd : ℤ) (chunks : List Chunk) (chunk : Chunk) :
    server.deliveries fd (chunks.map .data) ++ Server.call server.onReceived (.received fd chunk) =
      server.deliveries fd (chunks.map .data ++ [.data chunk]) := by
  have hmap : chunks.map ReadResult.data ++ [.data chunk] = (chunks ++ [chunk]).map .data := by
    simp
  rw [hmap, Server.deliveries, Server.deliveries, chunks_map, chunks_map]
  simp

theorem report_blank (h : s.report fd = some e) : Blank e := by
  rw [report] at h
  split at h
  · split_ifs at h with hsfd hready
    · obtain rfl := Option.some.inj h
      exact ⟨rfl, rfl⟩
    · obtain ⟨c, hc, h⟩ := Option.bind_eq_some_iff.mp h
      split_ifs at h
      obtain rfl := Option.some.inj h
      exact ⟨rfl, rfl⟩
  · cases h

/-- The loop of `received` has come to its end. -/
theorem serve_received (server : Server) (hready : Server.isError e = false)
    (hsfd : server.sfd ≠ e.fd) {chunks : List Chunk}
    (hreads : e.reads = chunks.map ReadResult.data) {result : ReadResult}
    (hresult : ∀ chunk, result ≠ .data chunk) :
    server.serve { e with reads := e.reads ++ [result] } =
      some (server.deliveries e.fd e.reads ++ server.lastOutput e.fd result) := by
  have herror : ¬ Server.isError { e with reads := e.reads ++ [result] } = true :=
    Bool.eq_false_iff.mp hready
  obtain ⟨hending, hchunks⟩ := ending_concat chunks hresult
  rw [Server.serve, if_neg herror, if_neg hsfd, Server.received_eq, hreads, hending,
    Option.map_some, Server.deliveries, hchunks, Server.deliveries, chunks_map]

/-- The loop of `have_new_connection` has come to its end. -/
theorem serve_haveNewConnection (server : Server) (hready : Server.isError e = false)
    (hsfd : server.sfd = e.fd) (haccepts : ∀ a ∈ e.accepts, ∃ infd, a = .socket infd true true) :
    server.serve { e with accepts := e.accepts ++ [.error] } =
      some (e.accepts.flatMap fun
        | .socket infd _ _ => Server.call server.onConnected (.connected infd)
        | .error => []) := by
  have herror : ¬ Server.isError { e with accepts := e.accepts ++ [.error] } = true :=
    Bool.eq_false_iff.mp hready
  rw [Server.serve, if_neg herror, if_pos hsfd]
  generalize e.accepts = accepts at haccepts ⊢
  induction accepts with
  | nil => rfl
  | cons a accepts ih =>
      obtain ⟨infd, rfl⟩ := haccepts a List.mem_cons_self
      have hrest := ih fun a ha => haccepts a (List.mem_cons_of_mem _ ha)
      simp only [List.cons_append, Server.haveNewConnection, Bool.and_self, if_true, hrest,
        Option.map_some, List.flatMap_cons]

theorem inLoop_finishEvent (s : State) (e : Event) (rest : List Event)
    (hrest : ∀ e' ∈ rest, Blank e') :
    InLoop s.server (s.finishEvent e rest).point := by
  simp only [finishEvent]
  split_ifs
  · trivial
  · exact hrest

theorem present_finishEvent (s : State) (e : Event) (rest : List Event) :
    (s.finishEvent e rest).present = [] := by
  simp only [finishEvent, present]
  split_ifs <;> rfl

/-- An event is finished, with what `serve` says about it. -/
theorem Serves.finish (h : Serves s) (more : List Output)
    (hserve : s.server.serve e = some (s.present ++ more)) (hrest : ∀ e' ∈ rest, Blank e')
    (hserver : s'.server = s.server) (hserved : s'.served = s.served)
    (hlog : s'.log = s.log ++ more) : Serves (s'.finishEvent e rest) := by
  obtain ⟨logs, hlogs, hall⟩ := h.log
  refine ⟨⟨logs ++ [s.present ++ more], ?_, ?_⟩, inLoop_finishEvent s' e rest hrest⟩
  · simp only [finishEvent]
    rw [hserved, hserver]
    exact outputs_concat hlogs hserve
  · rw [present_finishEvent]
    simp [finishEvent, hlog, hall]

/-- Nothing is put out. -/
theorem Serves.quiet (h : Serves s) (hpresent : s'.present = s.present)
    (hinLoop : InLoop s'.server s'.point) (hserved : s'.served = s.served)
    (hlog : s'.log = s.log) : Serves s' := by
  obtain ⟨logs, hlogs, hall⟩ := h.log
  exact ⟨⟨logs, by rw [hserved, hlogs], by rw [hlog, hall, hpresent]⟩, hinLoop⟩

theorem Serves.step (h : Serves s) (hstep : Step s i s') : Serves s' := by
  have hinLoop := h.inLoop
  cases hstep with
  | tasks tasks => exact h.quiet rfl hinLoop rfl rfl
  | happen fd c c' hc hhappens => exact h.quiet rfl hinLoop rfl rfl
  | connect l hl => exact h.quiet rfl hinLoop rfl rfl
  | start tasks sfd htop hstopped hfresh =>
      refine h.quiet ?_ ?_ rfl rfl
      · simp [present, htop]
      · simp [InLoop, htop]
  | stop tasks htop => exact h.quiet rfl hinLoop rfl rfl
  | wait fds events htop hstarted hne hnodup hevents =>
      refine h.quiet ?_ ?_ rfl rfl
      · simp [present, htop, reported]
      · obtain ⟨-, hreports⟩ := report_of_mapM hevents
        intro e he
        exact report_blank (hreports e he)
  | error e rest hpoint herror =>
      rw [hpoint] at hinLoop
      refine h.finish (s.server.closeConnection e.fd) ?_
        (fun e' he' => hinLoop e' (List.mem_cons_of_mem _ he')) rfl rfl rfl
      rw [present, hpoint, Server.serve, if_pos herror]
      rfl
  | haveNewConnection e rest hpoint hready hsfd =>
      rw [hpoint] at hinLoop
      obtain ⟨-, haccepts⟩ := hinLoop e List.mem_cons_self
      refine h.quiet ?_ ⟨hready, hsfd, ?_, fun e' he' => hinLoop e' (List.mem_cons_of_mem _ he')⟩
        rfl rfl
      · simp [present, hpoint, haccepts]
      · simp [haccepts]
  | received e rest hpoint hready hsfd =>
      rw [hpoint] at hinLoop
      obtain ⟨hreads, haccepts⟩ := hinLoop e List.mem_cons_self
      refine h.quiet ?_ ⟨hready, hsfd, haccepts, ⟨[], hreads⟩,
        fun e' he' => hinLoop e' (List.mem_cons_of_mem _ he')⟩ rfl rfl
      simp [present, hpoint, hreads, Server.deliveries, Server.chunks]
  | read e rest c c' result hpoint hc hread =>
      rw [hpoint] at hinLoop
      obtain ⟨hready, hsfd, haccepts, ⟨chunks, hreads⟩, hrest⟩ := hinLoop
      have hpresent : s.present = s.server.deliveries e.fd e.reads := by rw [present, hpoint]
      have hserve {result : ReadResult} (hresult : ∀ chunk, result ≠ .data chunk) :
          s.server.serve { e with reads := e.reads ++ [result] } =
            some (s.present ++ s.server.lastOutput e.fd result) :=
        hpresent ▸ serve_received s.server hready hsfd hreads hresult
      cases result with
      | data chunk =>
          obtain ⟨logs, hlogs, hall⟩ := h.log
          refine ⟨⟨logs, hlogs, ?_⟩, hready, hsfd, haccepts, ⟨chunks ++ [chunk], ?_⟩, hrest⟩
          · have hnext : s.present ++ Server.call s.server.onReceived (.received e.fd chunk) =
                s.server.deliveries e.fd (e.reads ++ [.data chunk]) := by
              rw [hpresent, hreads, deliveries_concat]
            rw [readOnce, setConnection]
            simp only [hall, List.append_assoc, hnext]
            rfl
          · simp [hreads]
      | endOfFile => exact h.finish _ (hserve (by simp)) hrest rfl rfl rfl
      | error errno =>
          refine h.finish _ (hserve (by simp)) hrest rfl rfl ?_
          by_cases heagain : errno = eagain
          · simp [setConnection, Server.lastOutput, heagain]
          · simp [setConnection, Server.lastOutput, heagain]
  | accept e rest l infd hpoint hl hwaiting hfresh hne =>
      rw [hpoint] at hinLoop
      obtain ⟨hready, hsfd, haccepts, hrest⟩ := hinLoop
      obtain ⟨logs, hlogs, hall⟩ := h.log
      refine ⟨⟨logs, hlogs, ?_⟩, hready, hsfd, ?_, hrest⟩
      · simp [hall, present, hpoint]
      · intro a ha
        rcases List.mem_append.mp ha with ha | ha
        · exact haccepts a ha
        · exact ⟨infd, List.mem_singleton.mp ha⟩
  | refuse e rest hinput hpoint =>
      rw [hpoint] at hinLoop
      obtain ⟨hready, hsfd, haccepts, hrest⟩ := hinLoop
      refine h.finish [] ?_ hrest rfl rfl (List.append_nil _).symm
      rw [serve_haveNewConnection s.server hready hsfd haccepts, present, hpoint, List.append_nil]

end State

open State

/-- The thread, in single steps between which anything can happen elsewhere, puts out what
`process_event` does event by event. -/
theorem serves_of_run (server : Server) (inputs : List Input) (s : State)
    (hrun : (runs server).run inputs = some s) :
    ∃ logs, outputs s.served = some logs ∧ s.log = logs.flatten ++ s.present := by
  have h : Serves s := by
    refine Machine.invariant (M := runs server) (I := Serves) ?_ ?_ hrun
    · exact ⟨⟨[], rfl, rfl⟩, trivial⟩
    · intro s i s' h hstep
      exact h.step (step_cases hstep)
  exact h.log

theorem serves_accept :
    let inputs : List Input :=
      [.start 80, .pop { addresses := some [⟨3, true⟩] }, .connect, .wait [3], .next,
        .accept (.socket 5 true true), .connect, .accept (.socket 6 true true), .accept .refused]
    ∃ s, (runs { sfd := -1 }).run inputs = some s ∧
      ∃ logs, outputs s.served = some logs ∧ s.log = logs.flatten ++ s.present := by
  intro inputs
  obtain ⟨s, hs⟩ : ∃ s, (runs { sfd := -1 }).run inputs = some s :=
    Option.isSome_iff_exists.mp rfl
  exact ⟨s, hs, serves_of_run { sfd := -1 } inputs s hs⟩

/-! ## Connections that wait to be accepted -/

/-- The next `connect` or the present event brings those that wait to be accepted. -/
def Attended (s : State) : Prop :=
  ∀ l, s.listener = some l → 0 < l.backlog →
    l.ready = true ∨ s.server.sfd ∈ s.point.pending.map Event.fd

/-- `accept` fails while connections wait of which nothing is to be reported. -/
def Abandons (s : State) : Input → Prop
  | .accept .refused => (∃ e rest, s.point = .haveNewConnection e rest) ∧
      ∃ l, s.listener = some l ∧ 0 < l.backlog ∧ l.ready = false
  | _ => False

/-- Connections wait that the thread has heard of and is still to accept. -/
def State.keepsWaiting (s : State) : Bool :=
  match s.point, s.listener with
  | .haveNewConnection _ _, some l => decide (0 < l.backlog) && !l.ready
  | _, _ => false

instance decidableAbandons (s : State) : ∀ i, Decidable (Abandons s i)
  | .accept .refused => decidable_of_iff (s.keepsWaiting = true) (by
      unfold State.keepsWaiting Abandons
      cases s.point <;> cases s.listener <;> simp)
  | .accept (.socket _ _ _) => isFalse id
  | .start _ | .stop | .arrive _ _ | .finish _ | .fail _ _ | .connect | .pop _ | .wait _ | .next
  | .read _ => isFalse id

theorem Attended.congr (h : Attended s) (hserver : s'.server = s.server)
    (hlistener : s'.listener = s.listener)
    (hpending : s'.point.pending.map Event.fd = s.point.pending.map Event.fd) : Attended s' := by
  intro l hl hwaiting
  rw [hserver, hpending]
  exact h l (hlistener ▸ hl) hwaiting

/-- An event of another socket is done with. -/
theorem Attended.leave (h : Attended s) (hpending : s.point.pending = e :: rest)
    (hsfd : e.fd ≠ s.server.sfd) (hserver : s'.server = s.server)
    (hlistener : s'.listener = s.listener) (hrest : s'.point.pending = rest) : Attended s' := by
  intro l hl hwaiting
  have hold := h l (hlistener ▸ hl) hwaiting
  rw [hpending, List.map_cons, List.mem_cons, or_iff_right hsfd.symm] at hold
  rwa [hserver, hrest]

theorem Attended.step (h : Attended s) (ho : Orderly s) (hstep : Step s i s')
    (hrefuse : i ≠ .accept .refused) : Attended s' := by
  have hplace := ho.inPlace
  cases hstep with
  | tasks tasks => exact h.congr rfl rfl rfl
  | happen fd c c' hc hhappens => exact h.congr rfl rfl rfl
  | connect l hl =>
      intro l' hl' _
      obtain rfl := Option.some.inj hl'
      exact Or.inl rfl
  | start tasks sfd htop hstopped hfresh =>
      intro l hl hwaiting
      obtain rfl := Option.some.inj hl
      exact absurd hwaiting (Nat.lt_irrefl 0)
  | stop tasks htop =>
      intro l hl
      cases hl
  | wait fds events htop hstarted hne hnodup hevents =>
      intro l' hl' hwaiting
      obtain ⟨l, hl, rfl⟩ := Option.map_eq_some_iff.mp hl'
      have hpending : (s.reported fds events).point.pending.map Event.fd = fds :=
        (report_of_mapM hevents).1
      rw [hpending]
      by_cases hmem : s.server.sfd ∈ fds
      · exact Or.inr hmem
      · have hold := h l hl hwaiting
        rw [htop] at hold
        refine Or.inl ?_
        simpa [hmem, Point.pending] using hold
  | error e rest hpoint herror =>
      have hpending : s.point.pending = e :: rest := by rw [hpoint]; rfl
      have hquiet := (ho.pending e (by simp [hpending])).quiet
      refine h.leave hpending (fun hsfd => ?_) rfl rfl (pending_finishEvent _ e rest)
      rw [hquiet hsfd] at herror
      cases herror
  | haveNewConnection e rest hpoint hready hsfd => exact h.congr rfl rfl (by rw [hpoint]; rfl)
  | received e rest hpoint hready hsfd => exact h.congr rfl rfl (by rw [hpoint]; rfl)
  | read e rest c c' result hpoint hc hread =>
      have hpending : s.point.pending = e :: rest := by rw [hpoint]; rfl
      rw [hpoint] at hplace
      cases result with
      | data chunk => exact h.congr rfl rfl (by rw [hpending]; rfl)
      | endOfFile => exact h.leave hpending hplace.1 rfl rfl (pending_finishEvent _ _ rest)
      | error errno => exact h.leave hpending hplace.1 rfl rfl (pending_finishEvent _ _ rest)
  | accept e rest l infd hpoint hl hwaiting hfresh hne =>
      rw [hpoint] at hplace
      intro _ _ _
      exact Or.inr (List.mem_cons.mpr (Or.inl hplace.symm))
  | refuse e rest hinput hpoint => exact absurd hinput hrefuse

theorem attended_iff (ho : Orderly s) (h : Attended s) (hstep : s.step i = some s') :
    Attended s' ↔ ¬ Abandons s i := by
  by_cases hinput : i = .accept .refused
  · subst hinput
    rw [State.step] at hstep
    split at hstep
    · next e rest l hpoint hl =>
        obtain rfl := Option.some.inj hstep
        have hpending : s.point.pending = e :: rest := by rw [hpoint]; rfl
        have hnodup := ho.nodup
        rw [hpending, List.map_cons, List.nodup_cons] at hnodup
        have hplace := ho.inPlace
        rw [hpoint] at hplace
        rw [show e.fd = s.server.sfd from hplace] at hnodup
        have hattended : Attended (s.finishEvent { e with accepts := e.accepts ++ [.error] } rest) ↔
            (0 < l.backlog → l.ready = true) := by
          simp only [Attended, pending_finishEvent]
          simp only [finishEvent, hl, Option.some.injEq, forall_eq', or_iff_left hnodup.1]
        rw [hattended]
        simp [Abandons, hpoint, hl]
    · cases hstep
  · refine iff_of_true (h.step ho (step_cases hstep) hinput) ?_
    intro habandons
    unfold Abandons at habandons
    split at habandons
    · exact hinput rfl
    · exact habandons

/-- A connection that waits to be accepted is always attended to, exactly if `accept` never
fails while others wait of which nothing more is to be reported. -/
theorem attended_iff_never_abandons (server : Server) (inputs : List Input) (s : State)
    (hrun : (runs server).run inputs = some s) :
    (runs server).Throughout Attended inputs ↔
      (runs server).Always (fun s i => ¬ Abandons s i) inputs := by
  refine Machine.throughout_iff_always (M := runs server) ?_ ?_ hrun
  · intro l hl
    cases hl
  · intro inputs s i s' hs hbefore _ hstep
    exact attended_iff (orderly_of_run hs) (hbefore.last hs) hstep

/-- A connection that comes while another one is accepted. -/
def accepting : List Input :=
  [.start 80, .pop { addresses := some [⟨3, true⟩] }, .connect, .wait [3], .next, .connect,
    .accept (.socket 5 true true), .accept (.socket 6 true true), .accept .refused]

/-- `EMFILE`. -/
def refusing : List Input :=
  [.start 80, .pop { addresses := some [⟨3, true⟩] }, .connect, .wait [3], .next, .accept .refused]

theorem attended_refusing :
    ((runs { sfd := -1 }).Throughout Attended accepting ↔
        (runs { sfd := -1 }).Always (fun s i => ¬ Abandons s i) accepting) ∧
      (runs { sfd := -1 }).Always (fun s i => ¬ Abandons s i) accepting ∧
      ((runs { sfd := -1 }).Throughout Attended refusing ↔
        (runs { sfd := -1 }).Always (fun s i => ¬ Abandons s i) refusing) ∧
      ¬ (runs { sfd := -1 }).Always (fun s i => ¬ Abandons s i) refusing := by
  obtain ⟨s, hs⟩ : ∃ s, (runs { sfd := -1 }).run accepting = some s :=
    Option.isSome_iff_exists.mp rfl
  obtain ⟨s', hs'⟩ : ∃ s, (runs { sfd := -1 }).run refusing = some s :=
    Option.isSome_iff_exists.mp rfl
  exact ⟨attended_iff_never_abandons { sfd := -1 } accepting s hs, by decide +kernel,
    attended_iff_never_abandons { sfd := -1 } refusing s' hs', by decide +kernel⟩

end RyuLib.Epoll
