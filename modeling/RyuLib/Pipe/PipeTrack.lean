import RyuLib.Pipe.PipeSender

/-!
# A track of a recording

One client opens a pipe for a recording, another sends it pieces, and the first closes the pipe
when the second has stopped.  `send` drops what comes before the pipe is connected, and the
worker learns of a piece later than it is sent.

* `PipeSender.Take.written`: what has been written to the pipe are the first of the pieces that
  were not dropped.
* `PipeSender.Take.isConnected`: once the pipe is connected, it stays so until it is closed.
-/

namespace RyuLib

open Foundations

namespace PipeSender

/-! ## The flag -/

/-- What a task does to `is_connected_`. -/
def connect (connected : Bool) : PipeTask × Bool → Bool
  | (.taskOpen _ _, true) => true
  | (.taskClose, _) => false
  | _ => connected

/-- `is_connected_` after the tasks. -/
def connectedAfter (tasks : List (PipeTask × Bool)) : Bool := tasks.foldl connect false

theorem connectedAfter_concat (tasks : List (PipeTask × Bool)) (task : PipeTask × Bool) :
    connectedAfter (tasks ++ [task]) = connect (connectedAfter tasks) task := by
  rw [connectedAfter, List.foldl_concat]
  rfl

theorem connectedAfter_append (first second : List (PipeTask × Bool)) :
    connectedAfter (first ++ second) = second.foldl connect (connectedAfter first) :=
  List.foldl_append

theorem foldl_connect_of_sends {tasks : List (PipeTask × Bool)} (connected : Bool)
    (h : ∀ task ∈ tasks, task.1.isSend = true) : tasks.foldl connect connected = connected := by
  induction tasks with
  | nil => rfl
  | cons task tasks ih =>
      have htask := h task List.mem_cons_self
      obtain ⟨task, succeeded⟩ := task
      cases task with
      | taskSend => exact ih fun task' htask' => h task' (List.mem_cons_of_mem _ htask')
      | taskOpen | taskClose => cases htask

/-- A close has cleared the flag and is not through yet. -/
def Point.flushes : Point → Bool
  | .flushing => true
  | _ => false

section

variable {κ : Type*} [DecidableEq κ]
variable {t : Worker.Party κ} {g g' : PipeSender κ} {p p' : Point} {a : Action} {call : Call}
  {points : Worker.Party κ → Point}

/-- The flag is that of the tasks, but for a close that is under way. -/
def Linked (g : PipeSender κ) (p : Point) : Prop :=
  g.isConnected = (connectedAfter g.processed && !p.flushes)

theorem Linked.worker (h : Linked g p) (hmove : Moves t g p a g' p')
    (hworker : p.isWorker = true) : Linked g' p' := by
  unfold Linked at h ⊢
  cases hmove with
  | check | stop | setPipe | notified => exact h
  | handle overload task => cases task <;> exact h
  | pop hb hmove => exact h
  | connect handle pipe succeeds => cases succeeds <;> exact h
  | clearConnected => exact (Bool.and_false _).symm
  | refuse | drop | write =>
      rw [finish, connectedAfter_concat]
      exact h
  | setConnected =>
      rw [finish, connectedAfter_concat]
      split <;> rfl
  | notOpen | close =>
      rw [finish, connectedAfter_concat]
      exact h.trans (Bool.and_false _)
  | _ => cases hworker

omit [DecidableEq κ] in
/-- A call itself changes neither the flag nor what the worker has done. -/
theorem enter_keeps (henter : g.enter call = some (g', p')) :
    g'.isConnected = g.isConnected ∧ g'.processed = g.processed := by
  unfold enter at henter
  split at henter
  · obtain ⟨rfl, rfl⟩ := Prod.mk.inj (Option.some.inj henter)
    exact ⟨rfl, rfl⟩
  · split at henter
    · obtain ⟨rfl, rfl⟩ := Prod.mk.inj (Option.some.inj henter)
      exact ⟨rfl, rfl⟩
    · cases henter
  · obtain ⟨rfl, rfl⟩ := Prod.mk.inj (Option.some.inj henter)
    exact ⟨rfl, rfl⟩
  · split at henter
    all_goals
      obtain ⟨rfl, rfl⟩ := Prod.mk.inj (Option.some.inj henter)
      exact ⟨rfl, rfl⟩
  · obtain ⟨rfl, rfl⟩ := Prod.mk.inj (Option.some.inj henter)
    exact ⟨rfl, rfl⟩

theorem Moves.client_isConnected (hmove : Moves t g p a g' p') (hclient : p.isClient = true) :
    g'.isConnected = g.isConnected := by
  cases hmove with
  | call henter => exact (enter_keeps henter).1
  | leave | push => rfl
  | _ => cases hclient

variable {inputs : List (Worker.Party κ × Action)}
  {s : Threads (Worker.Party κ) (PipeSender κ) Point}

theorem linked_run (hrun : (program κ).machine.run inputs = some s) :
    Linked s.shared (s.points .worker) := by
  have hinit : (program κ).machine.run [] = some (program κ).machine.init := rfl
  have h : Queued s.shared s.points ∧ Linked s.shared (s.points .worker) := by
    refine Program.invariant (I := fun g points => Queued g points ∧ Linked g (points .worker))
      ⟨(inv_run hinit).1, rfl⟩ ?_ hrun
    rintro g points t a g' p ⟨hqueued, h⟩ hact
    have hmove := act_moves hact
    cases t with
    | worker =>
        refine ⟨queued_worker hqueued rfl hmove, ?_⟩
        rw [Function.update_self]
        exact h.worker hmove hqueued.worker
    | client k =>
        refine ⟨queued_client hqueued rfl hmove, ?_⟩
        have hprocessed := (hmove.client_cases (hqueued.clients k)).2.1
        rw [Worker.Party.update_client_worker, Linked,
          hmove.client_isConnected (hqueued.clients k), hprocessed]
        exact h
    | closer =>
        refine ⟨queued_closer hqueued rfl hmove, ?_⟩
        rw [Worker.Party.update_closer_worker]
        obtain ⟨-, thread, rfl⟩ := hmove.closer_cases hqueued.closer
        exact h
  exact h.2

/-! ## Inside and outside of a call -/

/-- A client calls when it is between two calls. -/
theorem act_call (hact : act t g p (.call call) = some (g', p')) :
    p = .client none .idle ∧ g.enter call = some (g', p') := by
  cases p with
  | client sends q =>
      cases sends with
      | none =>
          cases q with
          | idle => exact ⟨rfl, hact⟩
          | _ => cases hact
      | some serial => cases q <;> cases hact
  | popping q =>
      cases q with
      | popped overload result => cases result <;> cases hact
      | _ => cases hact
  | _ => cases hact

/-- In a call a client queues what it holds, if anything. -/
theorem Moves.inside (hmove : Moves t g p a g' p') (hclient : p.isClient = true)
    (hinside : ∀ call, a ≠ .call call) :
    g'.queue.pushed ++ p'.holds = g.queue.pushed ++ p.holds ∧ p'.holds ⊆ p.holds := by
  cases hmove with
  | @call call _ _ henter => exact absurd rfl (hinside call)
  | leave => exact ⟨rfl, List.Subset.refl _⟩
  | push hb hmove =>
      cases hmove with
      | call _ call => exact absurd rfl (hb call)
      | enqueue task => exact ⟨List.append_nil _, List.nil_subset _⟩
      | lockPush | unlock | notify => exact ⟨rfl, List.Subset.refl _⟩
      | _ => cases hclient
  | _ => cases hclient

/-- The worker goes through the tasks. -/
theorem Moves.processed_mono (hmove : Moves t g p a g' p') : g.processed <+: g'.processed := by
  cases hmove with
  | call henter => exact (enter_keeps henter).2 ▸ List.prefix_rfl
  | refuse | setConnected | notOpen | close | drop | write => exact List.prefix_append _ _
  | _ => exact List.prefix_refl _

end

/-! ## Takes -/

inductive Client
  | controller
  | capture
  deriving DecidableEq

/-- What the clients are about to queue. -/
def held (points : Worker.Party Client → Point) : List PipeTask :=
  (points (.client .controller)).holds ++ (points (.client .capture)).holds

/-- The tasks of a recording for which `opened` was opened, `sent` was sent and `close` called
`closes` times. -/
def tasksOf (opened : Option (ℤ × ℕ)) (sent : List Message) (closes : ℕ) : List PipeTask :=
  opened.toList.map (fun pipe => .taskOpen pipe.1 pipe.2) ++ sent.map .taskSend ++
    List.replicate closes .taskClose

/-- The worker has connected the pipe of a recording; `done` are the tasks from before it. -/
def Connects (done : List (PipeTask × Bool)) (opened : Option (ℤ × ℕ)) (g : PipeSender Client) :
    Prop :=
  ∃ handle pipe, opened = some (handle, pipe) ∧
    done ++ [(.taskOpen handle pipe, true)] <+: g.processed

/-- Of the tasks, `done` are those from before the recording. -/
structure Take (done : List (PipeTask × Bool)) (opened : Option (ℤ × ℕ)) (sent : List Message)
    (closes : ℕ) (g : PipeSender Client) (points : Worker.Party Client → Point) : Prop where
  past : done <+: g.processed
  disconnected : connectedAfter done = false
  tasks : g.queue.pushed ++ held points = done.map Prod.fst ++ tasksOf opened sent closes
  controller : ∀ message, .taskSend message ∉ (points (.client .controller)).holds
  calm : (points (.client .controller)).holds = [] ∨ (points (.client .capture)).holds = []
  connected : sent ≠ [] → Connects done opened g

section

variable {t : Worker.Party Client} {g g' : PipeSender Client} {p p' : Point} {a : Action}
  {points : Worker.Party Client → Point} {done : List (PipeTask × Bool)}
  {opened : Option (ℤ × ℕ)} {sent : List Message} {closes : ℕ}

theorem Connects.mono (h : Connects done opened g) (hprocessed : g.processed <+: g'.processed) :
    Connects done opened g' := by
  obtain ⟨handle, pipe, hopened, hdone⟩ := h
  exact ⟨handle, pipe, hopened, hdone.trans hprocessed⟩

/-- A step that is not a call. -/
theorem Take.inside (h : Take done opened sent closes g points) (hqueued : Queued g points)
    (hmove : Moves t g (points t) a g' p') (hinside : ∀ call, a ≠ .call call) :
    Take done opened sent closes g' (Function.update points t p') := by
  have hpast := h.past.trans hmove.processed_mono
  have hconnected : sent ≠ [] → Connects done opened g' := fun hsent =>
    (h.connected hsent).mono hmove.processed_mono
  cases t with
  | worker =>
      have hpushed := (hmove.worker_cases hqueued.worker).2.2.2.1
      refine ⟨hpast, h.disconnected, ?_, ?_, ?_, hconnected⟩
      · rw [hpushed, held, Worker.Party.update_worker_client, Worker.Party.update_worker_client]
        exact h.tasks
      · rw [Worker.Party.update_worker_client]
        exact h.controller
      · rw [Worker.Party.update_worker_client, Worker.Party.update_worker_client]
        exact h.calm
  | closer =>
      obtain ⟨-, thread, rfl⟩ := hmove.closer_cases hqueued.closer
      refine ⟨hpast, h.disconnected, ?_, ?_, ?_, hconnected⟩
      · rw [held, Worker.Party.update_closer_client, Worker.Party.update_closer_client]
        exact h.tasks
      · rw [Worker.Party.update_closer_client]
        exact h.controller
      · rw [Worker.Party.update_closer_client, Worker.Party.update_closer_client]
        exact h.calm
  | client k =>
      obtain ⟨hline, hholds⟩ := hmove.inside (hqueued.clients k) hinside
      cases k with
      | controller =>
          have hcapture : Function.update points (.client .controller) p' (.client .capture) =
              points (.client .capture) := Function.update_of_ne (by decide) _ _
          refine ⟨hpast, h.disconnected, ?_, ?_, ?_, hconnected⟩
          · rw [held, Function.update_self, hcapture, ← List.append_assoc, hline,
              List.append_assoc]
            exact h.tasks
          · rw [Function.update_self]
            exact fun message hm => h.controller message (hholds hm)
          · rw [Function.update_self, hcapture]
            refine h.calm.imp_left fun hnil => ?_
            rw [hnil] at hholds
            exact List.subset_nil.mp hholds
      | capture =>
          have hcontroller : Function.update points (.client .capture) p' (.client .controller) =
              points (.client .controller) := Function.update_of_ne (by decide) _ _
          refine ⟨hpast, h.disconnected, ?_, ?_, ?_, hconnected⟩
          · rw [held, Function.update_self, hcontroller, ← h.tasks, held]
            rcases h.calm with hnil | hnil
            · rw [hnil, List.nil_append, List.nil_append]
              exact hline
            · have hnil' : p'.holds = [] := List.subset_nil.mp (hnil ▸ hholds)
              rw [hnil, hnil', List.append_nil, List.append_nil] at hline
              rw [hnil, hnil', hline]
          · rw [hcontroller]
            exact h.controller
          · rw [Function.update_self, hcontroller]
            refine h.calm.imp_right fun hnil => ?_
            rw [hnil] at hholds
            exact List.subset_nil.mp hholds

/-- What the worker has done for the recording, and is doing. -/
theorem Take.rest (h : Take done opened sent closes g points) (hqueued : Queued g points) :
    ∃ rest, g.processed = done ++ rest ∧
      rest.map Prod.fst ++ (points .worker).hand <+: tasksOf opened sent closes := by
  obtain ⟨rest, hrest⟩ := h.past
  refine ⟨rest, hrest.symm, ?_⟩
  have hline : g.processed.map Prod.fst ++ (points .worker).hand <+:
      done.map Prod.fst ++ tasksOf opened sent closes := by
    rw [← h.tasks, hqueued.fifo, List.append_assoc _ g.queue.queue]
    exact List.prefix_append _ _
  rw [← hrest, List.map_append, List.append_assoc, List.prefix_append_right_inj] at hline
  exact hline

/-- A pipe is connected by the first thing that the worker did for the recording. -/
theorem Take.rest_of_connects (h : Take done opened sent closes g points)
    (hqueued : Queued g points) (hconnects : Connects done opened g) :
    ∃ handle pipe back, opened = some (handle, pipe) ∧
      g.processed = done ++ (.taskOpen handle pipe, true) :: back ∧
      back.map Prod.fst ++ (points .worker).hand <+:
        sent.map .taskSend ++ List.replicate closes .taskClose := by
  obtain ⟨handle, pipe, rfl, hconnected⟩ := hconnects
  obtain ⟨rest, hprocessed, hrest⟩ := h.rest hqueued
  rw [hprocessed, List.prefix_append_right_inj] at hconnected
  obtain ⟨back, rfl⟩ := hconnected
  exact ⟨handle, pipe, back, rfl, hprocessed, (List.cons_prefix_cons.mp hrest).2⟩

theorem isSend_of_mem_map {task : PipeTask} (htask : task ∈ sent.map PipeTask.taskSend) :
    task.isSend = true := by
  obtain ⟨message, -, rfl⟩ := List.mem_map.mp htask
  rfl

/-- Until it is closed, a pipe that has been connected is so. -/
theorem Take.isConnected (h : Take done opened sent 0 g points) (hqueued : Queued g points)
    (hlinked : Linked g (points .worker)) (hconnects : Connects done opened g) :
    g.isConnected = true := by
  obtain ⟨handle, pipe, back, -, hprocessed, hback⟩ := h.rest_of_connects hqueued hconnects
  rw [List.replicate_zero, List.append_nil] at hback
  have hsends : ∀ task ∈ back, task.1.isSend = true := fun task htask =>
    isSend_of_mem_map (hback.subset (List.mem_append_left _ (List.mem_map_of_mem htask)))
  have hflushes : (points .worker).flushes = false := by
    cases hpoint : points .worker with
    | flushing =>
        have hclose : PipeTask.taskClose ∈ sent.map PipeTask.taskSend :=
          hback.subset (List.mem_append_right _ (by rw [hpoint]; exact List.mem_singleton_self _))
        exact absurd (isSend_of_mem_map hclose) Bool.false_ne_true
    | _ => rfl
  rw [hlinked, hflushes, hprocessed, connectedAfter_append, List.foldl_cons,
    foldl_connect_of_sends _ hsends]
  rfl

/-- While the pipe is connected, it is the one that was opened for the recording. -/
theorem Take.connects (h : Take done opened sent 0 g points) (hqueued : Queued g points)
    (hlinked : Linked g (points .worker)) (hconnected : g.isConnected = true) :
    Connects done opened g := by
  by_cases hsent : sent = []
  · subst hsent
    obtain ⟨rest, hprocessed, hrest⟩ := h.rest hqueued
    have hafter : connectedAfter (done ++ rest) = true := by
      rw [hlinked, Bool.and_eq_true, hprocessed] at hconnected
      exact hconnected.1
    rw [connectedAfter_append, h.disconnected] at hafter
    match rest, hafter with
    | (task, succeeded) :: back, hafter =>
        match opened, hrest with
        | some (handle, pipe), hrest =>
            obtain ⟨rfl, hback⟩ := List.cons_prefix_cons.mp hrest
            have hnil : back = [] := by
              have hback := List.prefix_nil.mp hback
              exact List.map_eq_nil_iff.mp (List.append_eq_nil_iff.mp hback).1
            subst hnil
            cases succeeded with
            | true => exact ⟨handle, pipe, rfl, hprocessed ▸ List.prefix_rfl⟩
            | false => cases hafter
        | none, hrest => cases List.prefix_nil.mp hrest
  · exact h.connected hsent

/-! ## Calls -/

/-- What a `send` makes of the bytes. -/
def message (g : PipeSender κ) (bytes : List UInt8) : Option Message :=
  if g.isConnected = true then some ⟨bytes, g.calls, g.returned⟩ else none

theorem tasksOf_send (message : Message) :
    tasksOf opened (sent ++ [message]) 0 = tasksOf opened sent 0 ++ [.taskSend message] := by
  simp [tasksOf]

theorem tasksOf_close :
    tasksOf opened sent (closes + 1) = tasksOf opened sent closes ++ [.taskClose] := by
  rw [tasksOf, List.replicate_succ', ← List.append_assoc]
  rfl

/-- A recording begins when the worker is through with all tasks and the pipe is closed. -/
theorem take_begin (hqueued : Queued g points) (hlinked : Linked g (points .worker))
    (hqueue : g.queue.queue = []) (hhand : (points .worker).hand = [])
    (hconnected : g.isConnected = false)
    (hcontroller : (points (.client .controller)).holds = [])
    (hcapture : (points (.client .capture)).holds = []) :
    Take g.processed none [] 0 g points where
  past := List.prefix_rfl
  disconnected := by
    have hflushes : (points .worker).flushes = false := by
      cases hpoint : points .worker with
      | flushing =>
          rw [hpoint] at hhand
          cases hhand
      | _ => rfl
    rw [Linked, hflushes, Bool.not_false, Bool.and_true] at hlinked
    exact hlinked.symm.trans hconnected
  tasks := by
    rw [held, hcontroller, hcapture, hqueued.fifo, hhand, hqueue]
    simp [tasksOf]
  controller := by
    rw [hcontroller]
    exact fun _ hm => nomatch hm
  calm := Or.inl hcontroller
  connected hne := absurd rfl hne

theorem Take.openPipe (h : Take done none sent 0 g points) (hqueued : Queued g points)
    {name : String} {created : Option ℤ}
    (hact : act (.client .controller) g (points (.client .controller))
      (.call (.openPipe name created)) = some (g', p')) :
    Take done (created.map fun handle => (handle, g.calls)) sent 0 g'
      (Function.update points (.client .controller) p') := by
  obtain ⟨hpoint, henter⟩ := act_call hact
  cases created with
  | none =>
      obtain ⟨rfl, rfl⟩ := Prod.mk.inj (Option.some.inj henter)
      rw [← hpoint, Function.update_eq_self]
      exact h
  | some handle =>
      obtain ⟨-, hopened⟩ := Option.ite_none_right_eq_some.mp henter
      obtain ⟨rfl, rfl⟩ := Prod.mk.inj (Option.some.inj hopened)
      have hsent : sent = [] := by
        by_contra hne
        obtain ⟨_, _, hopened, -⟩ := h.connected hne
        cases hopened
      subst hsent
      obtain ⟨rest, hprocessed, hrest⟩ := h.rest hqueued
      have hnil := List.prefix_nil.mp hrest
      have hpushed : done.map Prod.fst <+: g.queue.pushed := by
        rw [hqueued.fifo, hprocessed, List.map_append, List.append_assoc, List.append_assoc]
        exact List.prefix_append _ _
      obtain ⟨more, hmore⟩ := hpushed
      have htasks := h.tasks
      rw [← hmore, List.append_assoc, List.append_cancel_left_eq] at htasks
      obtain ⟨rfl, hheld⟩ := List.append_eq_nil_iff.mp htasks
      obtain ⟨-, hcapture⟩ := List.append_eq_nil_iff.mp hheld
      have hother : Function.update points (.client .controller)
          (.client none (.push (.taskOpen handle g.calls))) (.client .capture) =
            points (.client .capture) := Function.update_of_ne (by decide) _ _
      refine ⟨h.past, h.disconnected, ?_, ?_, ?_, fun hne => absurd rfl hne⟩
      · rw [held, Function.update_self, hother, hcapture, ← hmore, List.append_nil]
        rfl
      · rw [Function.update_self]
        intro message hm
        cases List.mem_singleton.mp hm
      · rw [hother]
        exact Or.inr hcapture

theorem Take.close (h : Take done opened sent closes g points)
    (hcapture : (points (.client .capture)).holds = [])
    (hact : act (.client .controller) g (points (.client .controller)) (.call .close) =
      some (g', p')) :
    Take done opened sent (closes + 1) g' (Function.update points (.client .controller) p') := by
  obtain ⟨hpoint, henter⟩ := act_call hact
  obtain ⟨rfl, rfl⟩ := Prod.mk.inj (Option.some.inj henter)
  have hother : Function.update points (.client .controller) (.client none (.push .taskClose))
      (.client .capture) = points (.client .capture) := Function.update_of_ne (by decide) _ _
  have hidle : (points (.client .controller)).holds = [] := by
    rw [hpoint]
    rfl
  have htasks := h.tasks
  rw [held, hidle, hcapture, List.append_nil, List.append_nil] at htasks
  refine ⟨h.past, h.disconnected, ?_, ?_, ?_, h.connected⟩
  · rw [held, Function.update_self, hother, hcapture, htasks, tasksOf_close, List.append_assoc]
    rfl
  · rw [Function.update_self]
    intro message hm
    cases List.mem_singleton.mp hm
  · rw [hother]
    exact Or.inr hcapture

/-- The controller is through with the call that opened the pipe. -/
theorem Take.controller_nil {handle : ℤ} {pipe : ℕ} (hqueued : Queued g points)
    (h : Take done (some (handle, pipe)) sent 0 g points)
    (hconnected : done ++ [(.taskOpen handle pipe, true)] <+: g.processed) :
    (points (.client .controller)).holds = [] := by
  obtain ⟨back, hback⟩ := hconnected
  have htasks := h.tasks
  rw [hqueued.fifo, ← hback] at htasks
  have hsends : back.map Prod.fst ++ ((points .worker).hand ++ (g.queue.queue ++ held points)) =
      sent.map .taskSend := by
    simpa [tasksOf] using htasks
  refine List.eq_nil_iff_forall_not_mem.mpr fun task htask => ?_
  have hmem : task ∈ sent.map PipeTask.taskSend := by
    have hheld : task ∈ held points := List.mem_append_left _ htask
    rw [← hsends]
    exact List.mem_append_right _ (List.mem_append_right _ (List.mem_append_right _ hheld))
  obtain ⟨message, -, rfl⟩ := List.mem_map.mp hmem
  exact h.controller message htask

theorem Take.send (h : Take done opened sent 0 g points) (hqueued : Queued g points)
    (hlinked : Linked g (points .worker)) {bytes : List UInt8}
    (hact : act (.client .capture) g (points (.client .capture)) (.call (.send bytes)) =
      some (g', p')) :
    Take done opened (sent ++ (message g bytes).toList) 0 g'
      (Function.update points (.client .capture) p') := by
  obtain ⟨hpoint, henter⟩ := act_call hact
  unfold message
  rw [enter] at henter
  split at henter
  · rename_i hconnected
    obtain ⟨rfl, rfl⟩ := Prod.mk.inj (Option.some.inj henter)
    obtain ⟨handle, pipe, rfl, hprocessed⟩ := h.connects hqueued hlinked hconnected
    have hcontroller := h.controller_nil hqueued hprocessed
    have hother : Function.update points (.client .capture) (.client (some g.calls)
        (.push (.taskSend ⟨bytes, g.calls, g.returned⟩))) (.client .controller) =
          points (.client .controller) := Function.update_of_ne (by decide) _ _
    have hidle : (points (.client .capture)).holds = [] := by
      rw [hpoint]
      rfl
    have htasks := h.tasks
    rw [held, hidle, hcontroller, List.append_nil, List.append_nil] at htasks
    rw [if_pos hconnected, Option.toList_some]
    refine ⟨h.past, h.disconnected, ?_, ?_, ?_, fun _ => ⟨handle, pipe, rfl, hprocessed⟩⟩
    · rw [held, Function.update_self, hother, hcontroller, htasks, tasksOf_send, List.append_assoc]
      rfl
    · rw [hother]
      exact h.controller
    · rw [hother]
      exact Or.inl hcontroller
  · rename_i hconnected
    obtain ⟨rfl, rfl⟩ := Prod.mk.inj (Option.some.inj henter)
    rw [if_neg hconnected, Option.toList_none, List.append_nil, ← hpoint, Function.update_eq_self]
    exact h

/-! ## What is written -/

theorem deliveredFrom_eq_nil {tasks : List (PipeTask × Bool)} (session : Option ℕ)
    (h : messages (tasks.map Prod.fst) = []) :
    SessionTask.deliveredFrom session (tasks.map toSession) = [] := by
  have hmessages : SessionTask.messages (tasks.map toSession) = messages (tasks.map Prod.fst) :=
    messages_sessionTasks ({ processed := tasks } : PipeSender Client)
  have hsublist := SessionTask.deliveredFrom_sublist session (tasks.map toSession)
  rw [hmessages, h, List.sublist_nil, List.map_eq_nil_iff] at hsublist
  exact hsublist

theorem messages_closes {tasks : List (PipeTask × Bool)}
    (h : tasks.map Prod.fst <+: List.replicate closes .taskClose) :
    messages (tasks.map Prod.fst) = [] := by
  refine List.filterMap_eq_nil_iff.mpr fun task htask => ?_
  rw [List.eq_of_mem_replicate (h.subset htask)]

/-- A connected pipe is written to in the order in which the messages were sent. -/
theorem deliveredFrom_sends (pipe : ℕ) {tasks : List (PipeTask × Bool)}
    (h : tasks.map Prod.fst <+: sent.map .taskSend ++ List.replicate closes .taskClose) :
    ∃ first, first <+: sent ∧
      SessionTask.deliveredFrom (some pipe) (tasks.map toSession) =
        first.map fun message => (pipe, message) := by
  induction tasks generalizing sent with
  | nil => exact ⟨[], List.nil_prefix, rfl⟩
  | cons task tasks ih =>
      cases sent with
      | nil => exact ⟨[], List.nil_prefix, deliveredFrom_eq_nil _ (messages_closes h)⟩
      | cons message sent =>
          obtain ⟨task, succeeded⟩ := task
          obtain ⟨rfl, htasks⟩ := List.cons_prefix_cons.mp h
          obtain ⟨first, hfirst, hdelivered⟩ := ih htasks
          refine ⟨message :: first, List.cons_prefix_cons.mpr ⟨rfl, hfirst⟩, ?_⟩
          rw [List.map_cons, List.map_cons, ← hdelivered]
          cases succeeded <;> rfl

theorem messages_tasksOf : messages (tasksOf opened sent closes) = sent := by
  have hopened : messages (opened.toList.map fun pipe => .taskOpen pipe.1 pipe.2) = [] := by
    cases opened <;> rfl
  have hcloses : messages (List.replicate closes .taskClose) = [] :=
    List.filterMap_eq_nil_iff.mpr fun task htask => by rw [List.eq_of_mem_replicate htask]
  have hsent : messages (sent.map .taskSend) = sent := by
    rw [messages, List.filterMap_map]
    exact List.filterMap_some
  rw [tasksOf, messages_append, messages_append, hopened, hcloses, hsent, List.nil_append,
    List.append_nil]

theorem serials_holds_nodup (p : Point) : (serials p.holds).Nodup := by
  unfold Point.holds
  split
  · exact serials_singleton_nodup _
  · exact serials_singleton_nodup _
  · exact List.nodup_nil

/-- No two of the tasks have the same number. -/
theorem Take.nodup (h : Take done opened sent closes g points) (hqueued : Queued g points) :
    (serials (done.map Prod.fst ++ tasksOf opened sent closes)).Nodup := by
  rw [← h.tasks, serials_append, List.nodup_append']
  refine ⟨hqueued.nodup, ?_, ?_⟩
  · rw [held]
    rcases h.calm with hnil | hnil
    · rw [hnil, List.nil_append]
      exact serials_holds_nodup _
    · rw [hnil, List.append_nil]
      exact serials_holds_nodup _
  · intro n hpushed hheld
    rw [held, serials_append, List.mem_append] at hheld
    rcases hheld with hheld | hheld
    · exact (hqueued.held .controller n hheld).2 hpushed
    · exact (hqueued.held .capture n hheld).2 hpushed

theorem Take.sent_nodup (h : Take done opened sent closes g points) (hqueued : Queued g points) :
    sent.Nodup := by
  have hserials := (h.nodup hqueued).sublist (map_serial_messages_sublist _)
  rw [messages_append, messages_tasksOf, List.map_append, List.nodup_append'] at hserials
  exact hserials.2.1.of_map

/-- No pipe from before the recording has the number of its pipe. -/
theorem Take.pipe_new {handle : ℤ} {pipe : ℕ} (hqueued : Queued g points)
    (h : Take done (some (handle, pipe)) sent closes g points) :
    pipe ∉ serials (done.map Prod.fst) := by
  have hnodup := h.nodup hqueued
  rw [serials_append, List.nodup_append'] at hnodup
  intro hold
  refine hnodup.2.2 hold (List.mem_filterMap.mpr ⟨.taskOpen handle pipe, ?_, rfl⟩)
  exact List.mem_append_left _ (List.mem_append_left _ (List.mem_singleton_self _))

/-- What has been written to the pipe of a recording is the first of what was sent to it. -/
theorem Take.written {handle : ℤ} {pipe : ℕ} (hqueued : Queued g points)
    (hcarried : Carried g points)
    (h : Take done (some (handle, pipe)) sent closes g points) :
    (g.writes.filter (·.1 = pipe)).map Prod.snd <+: sent := by
  obtain ⟨rest, hprocessed, hrest⟩ := h.rest hqueued
  have hold : (SessionTask.delivered (done.map toSession)).filter (·.1 = pipe) = [] := by
    refine List.filter_eq_nil_iff.mpr ?_
    rintro ⟨pipe', message⟩ hwrite hpipe
    obtain rfl : pipe' = pipe := of_decide_eq_true hpipe
    obtain ⟨⟨task, succeeded⟩, htask, henter⟩ :=
      List.mem_map.mp (SessionTask.enter_mem_of_mem_delivered hwrite)
    refine h.pipe_new hqueued (List.mem_filterMap.mpr ⟨task, List.mem_map_of_mem htask, ?_⟩)
    cases task with
    | taskOpen => cases succeeded <;> cases henter; rfl
    | taskClose | taskSend => cases henter
  rw [hcarried.writes, sessionTasks, hprocessed, List.map_append, SessionTask.delivered_append,
    List.filter_append, hold, List.nil_append]
  by_cases hsent : sent = []
  · subst hsent
    have hnone : messages (rest.map Prod.fst) = [] := by
      have hnil : messages (tasksOf (some (handle, pipe)) [] closes) = [] := messages_tasksOf
      have hsublist : (messages (rest.map Prod.fst)).Sublist
          (messages (tasksOf (some (handle, pipe)) [] closes)) :=
        ((List.prefix_append _ _).trans hrest).sublist.filterMap _
      exact List.sublist_nil.mp (hnil ▸ hsublist)
    rw [deliveredFrom_eq_nil _ hnone]
    exact List.nil_prefix
  · obtain ⟨handle', pipe', back, hopened, hprocessed', hback⟩ :=
      h.rest_of_connects hqueued (h.connected hsent)
    obtain ⟨rfl, rfl⟩ := Prod.mk.inj (Option.some.inj hopened)
    obtain rfl := List.append_cancel_left (hprocessed.symm.trans hprocessed')
    obtain ⟨first, hfirst, hdelivered⟩ :=
      deliveredFrom_sends pipe ((List.prefix_append _ _).trans hback)
    have hwrites : SessionTask.deliveredFrom (SessionTask.current (done.map toSession))
        (((PipeTask.taskOpen handle pipe, true) :: back).map toSession) =
          first.map fun message => (pipe, message) := hdelivered
    rw [hwrites, List.filter_eq_self.mpr (by simp), List.map_map]
    exact (List.map_id first).symm ▸ hfirst

end

end PipeSender

end RyuLib
