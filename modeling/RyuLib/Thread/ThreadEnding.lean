import RyuLib.Thread.SimpleThread

/-!
# Ending a SimpleThread

The owner of a `SimpleThread` calls its functions, at most one of the three that end it among
them, and destroys it at last; the body runs by its side and ends when it likes, or is
cancelled.  `thread_` can be joined or detached once: by `terminateAndWait`, by `terminate`, or
by the destructor.  `on_terminated_` is fired by the body behind `on_execute_`, and by
`terminateNow`.
-/

namespace RyuLib

open Foundations

namespace SimpleThread

/-- Within `terminate` or `terminateAndWait`. -/
def Point.handing : Point → Bool
  | .setFlag _ | .detach | .join => true
  | .lockWake waits | .notify waits | .unlockWake waits => waits
  | _ => false

/-- At `detach()` or `join()`. -/
def Point.consumes : Point → Bool
  | .detach | .join => true
  | _ => false

/-- A call of `terminate` or `terminateAndWait`. -/
def Action.hands : Action → Bool
  | .call .terminate | .call .terminateAndWait => true
  | _ => false

section

variable {τ : Type*} [DecidableEq τ] {t : τ} {g g' : SimpleThread τ} {p p' : Point} {a : Action}

/-- A step gives the handle away, or leaves it as it is and stays within the function that is
to give it away. -/
theorem Moves.handing_cases (hmove : Moves t g p a g' p') :
    (p.consumes = true ∧ g'.joinable = false ∧ p' = .idle ∧ a = .next) ∨
      (p.consumes = false ∧ g'.joinable = g.joinable ∧ p'.handing = (p.handing || a.hands)) := by
  cases hmove with
  | detach | join => exact Or.inl ⟨rfl, rfl, rfl, rfl⟩
  | turnBack | wait | leave => exact Or.inr ⟨rfl, recordIf_joinable .., rfl⟩
  | unlockWake join | setFlag join => cases join <;> exact Or.inr ⟨rfl, rfl, rfl⟩
  | lockWake _ join | notify join => cases join <;> exact Or.inr ⟨rfl, rfl, rfl⟩
  | _ => exact Or.inr ⟨rfl, rfl, rfl⟩

theorem Moves.ne_ended (hmove : Moves t g p a g' p') : p ≠ .ended := by
  cases hmove <;> exact nofun

end

end SimpleThread

namespace ThreadEnding

inductive Party (κ : Type*)
  | owner
  | body
  | other (k : κ)
  deriving DecidableEq

inductive Ending
  | terminate
  | terminateAndWait
  | terminateNow
  deriving DecidableEq

end ThreadEnding

open ThreadEnding in
/-- A `SimpleThread` from its construction to what is left of it.  `onTerminated` says whether
the event has a handler, `ending` which function was called to end the thread.  `threw` is
history, that `join` or `detach` was called on a handle which is not joinable, and so are the
counts of the times that `terminateNow` and the body have fired. -/
structure ThreadEnding (κ : Type*) where
  thread : SimpleThread (Party κ) := {}
  onTerminated : Bool
  ending : Option Ending := none
  cancelled : Bool := false
  destroyed : Bool := false
  threw : Bool := false
  firedNow : ℕ := 0
  firedBody : ℕ := 0

namespace ThreadEnding

open SimpleThread (Point Action Moves)

variable {κ : Type*}

/-- Where a thread is: in a function that the model of `SimpleThread` has, in `terminateNow`,
between the return of `on_execute_` and the end of the thread, or past its end. -/
inductive Stage
  | inside (p : Point)
  | setFlagNow
  | cancel
  | fireNow
  | fireBody
  | killed
  | gone
  deriving DecidableEq

inductive Act
  | inner (a : Action)
  | isTerminated
  | terminateNow
  | destroy
  | returns
  | next
  -- `unwinds` says that the mutex is unlocked on the way
  | cancelled (unwinds : Bool)
  deriving DecidableEq

def fires (g : ThreadEnding κ) : ℕ := if g.onTerminated then 1 else 0

/-- Only the owner ends the thread, and only once; the end of the body is `Act.returns`. -/
def permits (t : Party κ) (g : ThreadEnding κ) : Action → Bool
  | .call .terminate | .call .terminateAndWait =>
      match t with
      | .owner => g.ending.isNone
      | _ => false
  | .finish => false
  | _ => true

def endingOf : Action → Option Ending
  | .call .terminate => some .terminate
  | .call .terminateAndWait => some .terminateAndWait
  | _ => none

/-- The part of the thread that `pthread_cancel` and `TerminateThread` can reach. -/
def Stage.running : Stage → Bool
  | .inside p => p ≠ .ended
  | .fireBody => true
  | _ => false

variable [DecidableEq κ]

/-- The body's thread is no more; it may leave the mutex locked. -/
def kill (g : ThreadEnding κ) (unwinds : Bool) : ThreadEnding κ :=
  { g with thread := { g.thread with
      finished := true
      mutex := if unwinds && g.thread.mutex.owner = some .body then g.thread.mutex.unlock
        else g.thread.mutex } }

/-- One step of thread `t`. -/
def act (t : Party κ) (g : ThreadEnding κ) : Stage → Act → Option (ThreadEnding κ × Stage)
  | .inside p, .inner a =>
      if permits t g a then
        (SimpleThread.act t g.thread p a).map fun (thread, p') =>
          ({ g with
              thread := thread
              ending := (endingOf a).or g.ending
              threw := g.threw || (p.consumes && !g.thread.joinable) }, .inside p')
      else none
  | .inside .idle, .isTerminated => some (g, .inside .idle)
  -- terminateNow
  | .inside .idle, .terminateNow =>
      if t = .owner ∧ g.ending = none then
        some ({ g with ending := some .terminateNow }, .setFlagNow)
      else none
  | .setFlagNow, .next =>
      some ({ g with thread := { g.thread with isTerminated := true }.record .terminated }, .cancel)
  | .cancel, .next => some ({ g with cancelled := true }, .fireNow)
  | .fireNow, .next => some ({ g with firedNow := g.firedNow + g.fires }, .inside .idle)
  -- the destructor
  | .inside .idle, .destroy =>
      if t = .owner then
        some ({ g with
          thread := { g.thread with joinable := false }
          threw := g.threw || !g.thread.joinable
          destroyed := true }, .gone)
      else none
  -- the body behind `on_execute_`
  | .inside .idle, .returns => if t = .body then some (g, .fireBody) else none
  | .fireBody, .next =>
      some ({ g with
        firedBody := g.firedBody + g.fires
        thread := { g.thread with finished := true } }, .inside .ended)
  | stage, .cancelled unwinds =>
      if t = .body ∧ g.cancelled = true ∧ stage.running = true then some (g.kill unwinds, .killed)
      else none
  | _, _ => none

def program (κ : Type*) [DecidableEq κ] (onTerminated : Bool) :
    Program (Party κ) (ThreadEnding κ) Stage Act where
  shared := { onTerminated := onTerminated }
  points := fun _ => .inside .idle
  act := act

/-- What a step does, one rule for each kind of step. -/
inductive Steps (t : Party κ) (g : ThreadEnding κ) : Stage → Act → ThreadEnding κ → Stage → Prop
  | inner {thread : SimpleThread (Party κ)} {p p' : Point} {a : Action}
      (hpermits : permits t g a = true) (hmove : Moves t g.thread p a thread p') :
      Steps t g (.inside p) (.inner a)
        { g with
          thread := thread
          ending := (endingOf a).or g.ending
          threw := g.threw || (p.consumes && !g.thread.joinable) } (.inside p')
  | isTerminated : Steps t g (.inside .idle) .isTerminated g (.inside .idle)
  | terminateNow (howner : t = .owner) (hfirst : g.ending = none) :
      Steps t g (.inside .idle) .terminateNow { g with ending := some .terminateNow } .setFlagNow
  | setFlagNow :
      Steps t g .setFlagNow .next
        { g with thread := { g.thread with isTerminated := true }.record .terminated } .cancel
  | cancel : Steps t g .cancel .next { g with cancelled := true } .fireNow
  | fireNow :
      Steps t g .fireNow .next { g with firedNow := g.firedNow + g.fires } (.inside .idle)
  | destroy (howner : t = .owner) :
      Steps t g (.inside .idle) .destroy
        { g with
          thread := { g.thread with joinable := false }
          threw := g.threw || !g.thread.joinable
          destroyed := true } .gone
  | returns (hbody : t = .body) : Steps t g (.inside .idle) .returns g .fireBody
  | fireBody :
      Steps t g .fireBody .next
        { g with
          firedBody := g.firedBody + g.fires
          thread := { g.thread with finished := true } } (.inside .ended)
  | cancelled {stage : Stage} (hbody : t = .body) (hrunning : stage.running = true)
      (unwinds : Bool) : Steps t g stage (.cancelled unwinds) (g.kill unwinds) .killed

theorem act_steps {t : Party κ} {g g' : ThreadEnding κ} {stage stage' : Stage} {a : Act}
    (hact : act t g stage a = some (g', stage')) : Steps t g stage a g' stage' := by
  unfold act at hact
  split at hact
  all_goals try simp only [Option.some.injEq, Prod.mk.injEq, Option.ite_none_right_eq_some,
    Option.map_eq_some_iff, Prod.exists, reduceCtorEq] at hact
  · obtain ⟨hpermits, thread, p', hmove, rfl, rfl⟩ := hact
    exact Steps.inner hpermits (SimpleThread.act_moves hmove)
  · obtain ⟨rfl, rfl⟩ := hact
    exact Steps.isTerminated
  · obtain ⟨⟨howner, hfirst⟩, rfl, rfl⟩ := hact
    exact Steps.terminateNow howner hfirst
  · obtain ⟨rfl, rfl⟩ := hact
    exact Steps.setFlagNow
  · obtain ⟨rfl, rfl⟩ := hact
    exact Steps.cancel
  · obtain ⟨rfl, rfl⟩ := hact
    exact Steps.fireNow
  · obtain ⟨howner, rfl, rfl⟩ := hact
    exact Steps.destroy howner
  · obtain ⟨hbody, rfl, rfl⟩ := hact
    exact Steps.returns hbody
  · obtain ⟨rfl, rfl⟩ := hact
    exact Steps.fireBody
  · obtain ⟨⟨hbody, _, hrunning⟩, rfl, rfl⟩ := hact
    exact Steps.cancelled hbody hrunning _

/-! ## The owner -/

def Detaches (g : ThreadEnding κ) : Prop :=
  g.ending = some .terminate ∨ g.ending = some .terminateAndWait

namespace Stage

/-- Within `terminate` or `terminateAndWait`. -/
def handing : Stage → Bool
  | .inside p => p.handing
  | _ => false

/-- Within `terminateNow`. -/
def now : Stage → Bool
  | .setFlagNow | .cancel | .fireNow => true
  | _ => false

end Stage

/-- What holds when the owner is at a stage: the handle is given away by the call that ends the
thread or by the destructor, whichever comes first. -/
structure OwnerAt (g : ThreadEnding κ) (stage : Stage) : Prop where
  joinable : g.thread.joinable = true ↔
    g.destroyed = false ∧ (g.Detaches → stage.handing = true)
  handing : stage.handing = true → g.Detaches
  gone : g.destroyed = true → stage = .gone
  threw : g.threw = true ↔ g.destroyed = true ∧ g.Detaches
  now : stage.now = true → g.ending = some .terminateNow ∧ g.firedNow = 0
  firedOnce : g.firedNow ≤ 1
  notFired : g.ending ≠ some .terminateNow → g.firedNow = 0

variable {t : Party κ} {g g' : ThreadEnding κ} {stage stage' : Stage} {a : Act}

omit [DecidableEq κ] in
/-- Only what the owner looks at matters. -/
theorem OwnerAt.congr (h : OwnerAt g stage) (hjoinable : g'.thread.joinable = g.thread.joinable)
    (hending : g'.ending = g.ending) (hdestroyed : g'.destroyed = g.destroyed)
    (hthrew : g'.threw = g.threw) (hfired : g'.firedNow = g.firedNow)
    (hhanding : stage'.handing = stage.handing) (hgone : stage = .gone → stage' = .gone)
    (hnow : stage'.now = true → stage.now = true) : OwnerAt g' stage' := by
  have hdetaches : g'.Detaches ↔ g.Detaches := by rw [Detaches, Detaches, hending]
  refine ⟨?_, ?_, ?_, ?_, ?_, ?_, ?_⟩
  · rw [hjoinable, hdestroyed, hdetaches, hhanding]
    exact h.joinable
  · rw [hhanding, hdetaches]
    exact h.handing
  · rw [hdestroyed]
    exact fun hd => hgone (h.gone hd)
  · rw [hthrew, hdestroyed, hdetaches]
    exact h.threw
  · rw [hending, hfired]
    exact fun hn => h.now (hnow hn)
  · rw [hfired]
    exact h.firedOnce
  · rw [hending, hfired]
    exact h.notFired

omit [DecidableEq κ] in
theorem OwnerAt.not_destroyed (h : OwnerAt g stage) (hstage : stage ≠ .gone) :
    g.destroyed = false := by
  rw [← Bool.not_eq_true]
  exact fun hd => hstage (h.gone hd)

omit [DecidableEq κ] in
theorem endingOf_eq_none {a : Action} (h : a.hands = false) : endingOf a = none := by
  cases a with
  | call c => cases c <;> first | rfl | cases h
  | _ => rfl

omit [DecidableEq κ] in
theorem permits_hands {a : Action} (hpermits : permits t g a = true) (h : a.hands = true) :
    t = .owner ∧ g.ending = none ∧
      (endingOf a = some .terminate ∨ endingOf a = some .terminateAndWait) := by
  cases a with
  | call c =>
      cases c with
      | terminate | terminateAndWait =>
          cases t with
          | owner => exact ⟨rfl, Option.isNone_iff_eq_none.mp hpermits, by simp [endingOf]⟩
          | body | other => cases hpermits
      | _ => cases h
  | _ => cases h

omit [DecidableEq κ] in
theorem hands_eq_false {a : Action} (hpermits : permits t g a = true) (ht : t ≠ .owner) :
    a.hands = false :=
  Bool.eq_false_iff.mpr fun hhands => ht (permits_hands hpermits hhands).1

theorem handing_of_consumes {p : Point} (h : p.consumes = true) : p.handing = true := by
  cases p with
  | detach | join => rfl
  | _ => cases h

/-- A step of a function of `SimpleThread`. -/
theorem OwnerAt.inner {thread : SimpleThread (Party κ)} {p p' : Point} {a : Action}
    (h : OwnerAt g (.inside p)) (hpermits : permits t g a = true)
    (hmove : Moves t g.thread p a thread p') :
    OwnerAt { g with
      thread := thread
      ending := (endingOf a).or g.ending
      threw := g.threw || (p.consumes && !g.thread.joinable) } (.inside p') := by
  have hdestroyed : g.destroyed = false := h.not_destroyed nofun
  rcases hmove.handing_cases with ⟨hconsumes, hgiven, rfl, rfl⟩ | ⟨hconsumes, hkept, hhanding⟩
  · -- the handle was joinable, and is given away
    have hbefore := handing_of_consumes hconsumes
    have hjoinable : g.thread.joinable = true := h.joinable.mpr ⟨hdestroyed, fun _ => hbefore⟩
    have hdetaches : g.Detaches := h.handing hbefore
    refine ⟨?_, nofun, ?_, ?_, nofun, h.firedOnce, h.notFired⟩
    · exact iff_of_false (by rw [hgiven]; simp) fun hboth => by
        have := hboth.2 hdetaches
        cases this
    · exact fun hd => absurd (hdestroyed.symm.trans hd) (by simp)
    · rw [hjoinable, Bool.not_true, Bool.and_false, Bool.or_false]
      exact h.threw
  · by_cases hhands : a.hands = true
    · -- the function that is to give the handle away is entered
      obtain ⟨-, hnone, hending⟩ := permits_hands hpermits hhands
      have hentered : p'.handing = true := by rw [hhanding, hhands, Bool.or_true]
      have hdetaches : (endingOf a).or g.ending = some .terminate ∨
          (endingOf a).or g.ending = some .terminateAndWait := by
        rcases hending with he | he <;> simp [he]
      have hjoinable : g.thread.joinable = true :=
        h.joinable.mpr ⟨hdestroyed, fun hd => by simp [Detaches, hnone] at hd⟩
      refine ⟨?_, fun _ => hdetaches, ?_, ?_, nofun, h.firedOnce, ?_⟩
      · exact iff_of_true (hkept.trans hjoinable) ⟨hdestroyed, fun _ => hentered⟩
      · exact fun hd => absurd (hdestroyed.symm.trans hd) (by simp)
      · rw [hconsumes, Bool.false_and, Bool.or_false, h.threw, hdestroyed]
        simp
      · exact fun _ => h.notFired (by rw [hnone]; simp)
    · have hhands : a.hands = false := Bool.eq_false_iff.mpr hhands
      have hnone := endingOf_eq_none hhands
      have hending : (endingOf a).or g.ending = g.ending := by rw [hnone, Option.none_or]
      have hthrew : (g.threw || (p.consumes && !g.thread.joinable)) = g.threw := by
        rw [hconsumes, Bool.false_and, Bool.or_false]
      rw [hhands, Bool.or_false] at hhanding
      exact h.congr hkept hending rfl hthrew rfl hhanding nofun id

omit [DecidableEq κ] in
theorem fires_le (g : ThreadEnding κ) : g.fires ≤ 1 := by
  unfold fires
  split_ifs <;> omega

/-- What the owner does. -/
theorem OwnerAt.owner (h : OwnerAt g stage) (hfire : stage ≠ .fireBody)
    (hstep : Steps .owner g stage a g' stage') : OwnerAt g' stage' := by
  cases hstep with
  | inner hpermits hmove => exact h.inner hpermits hmove
  | isTerminated => exact h
  | terminateNow _ hfirst =>
      have hdestroyed := h.not_destroyed nofun
      have hjoinable : g.thread.joinable = true :=
        h.joinable.mpr ⟨hdestroyed, fun hd => by simp [Detaches, hfirst] at hd⟩
      refine ⟨?_, nofun, ?_, ?_, fun _ => ⟨rfl, h.notFired (by rw [hfirst]; simp)⟩, h.firedOnce,
        fun hne => absurd rfl hne⟩
      · exact iff_of_true hjoinable ⟨hdestroyed, fun hd => by simp [Detaches] at hd⟩
      · exact fun hd => absurd (hdestroyed.symm.trans hd) (by simp)
      · rw [h.threw, hdestroyed]
        simp
  | setFlagNow => exact h.congr rfl rfl rfl rfl rfl rfl nofun fun _ => rfl
  | cancel => exact h.congr rfl rfl rfl rfl rfl rfl nofun fun _ => rfl
  | fireNow =>
      obtain ⟨hnow, hzero⟩ := h.now rfl
      have hdestroyed := h.not_destroyed nofun
      have hfires := g.fires_le
      refine ⟨h.joinable, nofun, ?_, h.threw, nofun, ?_, fun hne => absurd hnow hne⟩
      · exact fun hd => absurd (hdestroyed.symm.trans hd) (by simp)
      · show g.firedNow + g.fires ≤ 1
        omega
  | destroy =>
      have hdestroyed := h.not_destroyed nofun
      have hjoinable : g.thread.joinable = true ↔ ¬ g.Detaches := by
        rw [h.joinable, hdestroyed]
        simp [Stage.handing, SimpleThread.Point.handing]
      have hthrew : g.threw = false := by
        rw [← Bool.not_eq_true, h.threw, hdestroyed]
        simp
      refine ⟨?_, nofun, fun _ => rfl, ?_, nofun, h.firedOnce, h.notFired⟩
      · exact iff_of_false nofun fun hboth => nomatch hboth.1
      · show (g.threw || !g.thread.joinable) = true ↔ true = true ∧ g.Detaches
        rw [hthrew, Bool.false_or, Bool.not_eq_true', ← Bool.not_eq_true, hjoinable]
        simp
  | returns hbody => cases hbody
  | fireBody => exact absurd rfl hfire
  | cancelled hbody => cases hbody

/-- What the others do changes nothing for the owner. -/
theorem OwnerAt.of_ne {place : Stage} (h : OwnerAt g place) (ht : t ≠ .owner)
    (hhanding : stage.handing = false) (hnow : stage.now = false)
    (hstep : Steps t g stage a g' stage') : OwnerAt g' place := by
  cases hstep with
  | @inner thread p p' a hpermits hmove =>
      have hhands := hands_eq_false hpermits ht
      rcases hmove.handing_cases with ⟨hconsumes, -⟩ | ⟨hconsumes, hkept, -⟩
      · exact absurd (handing_of_consumes hconsumes) (Bool.eq_false_iff.mp hhanding)
      · have hending : (endingOf a).or g.ending = g.ending := by
          rw [endingOf_eq_none hhands, Option.none_or]
        have hthrew : (g.threw || (p.consumes && !g.thread.joinable)) = g.threw := by
          rw [hconsumes, Bool.false_and, Bool.or_false]
        exact h.congr hkept hending rfl hthrew rfl rfl id id
  | isTerminated => exact h
  | terminateNow howner => exact absurd howner ht
  | setFlagNow => cases hnow
  | cancel => cases hnow
  | fireNow => cases hnow
  | destroy howner => exact absurd howner ht
  | returns => exact h
  | fireBody => exact h.congr rfl rfl rfl rfl rfl rfl id id
  | cancelled => exact h.congr rfl rfl rfl rfl rfl rfl id id

/-! ## The body -/

/-- The body fires when it comes to its end, and is at an end then. -/
structure BodyAt (g : ThreadEnding κ) (stage : Stage) : Prop where
  firedOnce : g.firedBody ≤ 1
  notFired : stage.running = true → g.firedBody = 0

theorem BodyAt.body (h : BodyAt g stage) (hnow : stage.now = false)
    (hstep : Steps .body g stage a g' stage') : BodyAt g' stage' := by
  cases hstep with
  | inner hpermits hmove =>
      have hzero := h.notFired (decide_eq_true hmove.ne_ended)
      exact ⟨h.firedOnce, fun _ => hzero⟩
  | isTerminated => exact h
  | terminateNow howner | destroy howner => cases howner
  | setFlagNow | cancel | fireNow => cases hnow
  | returns => exact ⟨h.firedOnce, fun _ => h.notFired rfl⟩
  | fireBody =>
      have hzero := h.notFired rfl
      have hfires := g.fires_le
      refine ⟨?_, nofun⟩
      show g.firedBody + g.fires ≤ 1
      omega
  | cancelled => exact ⟨h.firedOnce, nofun⟩

theorem BodyAt.of_ne {place : Stage} (h : BodyAt g place) (hfire : stage ≠ .fireBody)
    (hstep : Steps t g stage a g' stage') : BodyAt g' place := by
  cases hstep with
  | fireBody => exact absurd rfl hfire
  | _ => exact ⟨h.firedOnce, h.notFired⟩

/-! ## Runs -/

/-- What holds of the thread and all stages. -/
structure Inv (g : ThreadEnding κ) (points : Party κ → Stage) : Prop where
  owner : OwnerAt g (points .owner)
  body : BodyAt g (points .body)
  handing : ∀ t, t ≠ .owner → (points t).handing = false
  now : ∀ t, t ≠ .owner → (points t).now = false
  fireBody : ∀ t, t ≠ .body → points t ≠ .fireBody

/-- Who is not the owner does not come to end the thread. -/
theorem Steps.keeps (hstep : Steps t g stage a g' stage') (ht : t ≠ .owner)
    (hhanding : stage.handing = false) (hnow : stage.now = false) :
    stage'.handing = false ∧ stage'.now = false := by
  cases hstep with
  | @inner thread p p' a hpermits hmove =>
      have hhands := hands_eq_false hpermits ht
      refine ⟨?_, rfl⟩
      show p'.handing = false
      rcases hmove.handing_cases with ⟨-, -, rfl, -⟩ | ⟨-, -, hkept⟩
      · rfl
      · rw [hkept, hhands, Bool.or_false]
        exact hhanding
  | terminateNow howner => exact absurd howner ht
  | setFlagNow | cancel => cases hnow
  | _ => exact ⟨rfl, rfl⟩

theorem Steps.eq_body (hstep : Steps t g stage a g' stage') (h : stage' = .fireBody) :
    t = .body := by
  cases hstep with
  | returns hbody => exact hbody
  | _ => cases h

omit [DecidableEq κ] in
theorem inv_start (onTerminated : Bool) :
    Inv ({ onTerminated := onTerminated } : ThreadEnding κ) fun _ => .inside .idle where
  owner := by
    refine ⟨?_, nofun, nofun, ?_, nofun, Nat.zero_le 1, fun _ => rfl⟩
    · exact iff_of_true rfl ⟨rfl, fun hd => by simp [Detaches] at hd⟩
    · simp
  body := ⟨Nat.zero_le 1, fun _ => rfl⟩
  handing _ _ := rfl
  now _ _ := rfl
  fireBody _ _ := nofun

theorem Inv.steps {points : Party κ → Stage} (h : Inv g points)
    (hstep : Steps t g (points t) a g' stage') : Inv g' (Function.update points t stage') where
  owner := by
    apply at_update (P := OwnerAt g')
    · rintro rfl
      exact h.owner.owner (h.fireBody .owner nofun) hstep
    · intro hne
      exact h.owner.of_ne hne.symm (h.handing t hne.symm) (h.now t hne.symm) hstep
  body := by
    apply at_update (P := BodyAt g')
    · rintro rfl
      exact h.body.body (h.now .body nofun) hstep
    · exact fun hne => h.body.of_ne (h.fireBody t hne.symm) hstep
  handing u hu := by
    apply at_update (P := (Stage.handing · = false))
    · rintro rfl
      exact (hstep.keeps hu (h.handing u hu) (h.now u hu)).1
    · exact fun _ => h.handing u hu
  now u hu := by
    apply at_update (P := (Stage.now · = false))
    · rintro rfl
      exact (hstep.keeps hu (h.handing u hu) (h.now u hu)).2
    · exact fun _ => h.now u hu
  fireBody u hu := by
    apply at_update (P := (· ≠ Stage.fireBody))
    · rintro rfl
      exact fun hfire => hu (hstep.eq_body hfire)
    · exact fun _ => h.fireBody u hu

variable {onTerminated : Bool} {inputs : List (Party κ × Act)}
  {s s' : Threads (Party κ) (ThreadEnding κ) Stage}

theorem inv_run (hrun : (program κ onTerminated).machine.run inputs = some s) :
    Inv s.shared s.points :=
  Program.invariant (inv_start onTerminated)
    (fun _ _ _ _ _ _ h hact => h.steps (act_steps hact)) hrun

/-! ## What has happened -/

/-- A call of `terminate` or `terminateAndWait`. -/
def Hands (_ : ThreadEnding κ) (_ : Stage) (a : Act) : Prop :=
  ∃ a', a = .inner a' ∧ a'.hands = true

def Destroys (_ : ThreadEnding κ) (_ : Stage) (a : Act) : Prop := a = .destroy

/-- The last step of `terminateNow`. -/
def EndsNow (_ : ThreadEnding κ) (stage : Stage) (a : Act) : Prop := stage = .fireNow ∧ a = .next

/-- The last step of the body, which has not been cancelled before. -/
def EndsBody (_ : ThreadEnding κ) (stage : Stage) (a : Act) : Prop :=
  stage = .fireBody ∧ a = .next

/-- Some step of the run satisfied `Q`. -/
def Happens (onTerminated : Bool) (Q : ThreadEnding κ → Stage → Act → Prop)
    (inputs : List (Party κ × Act)) : Prop :=
  (program κ onTerminated).machine.Happened (fun s i => Q s.shared (s.points i.1) i.2) inputs

theorem happens_iff {Q : ThreadEnding κ → Stage → Act → Prop} (F : ThreadEnding κ → Prop)
    (hinit : ¬ F { onTerminated := onTerminated })
    (hstep : ∀ {t : Party κ} {g g' : ThreadEnding κ} {stage stage' : Stage} {a : Act},
      Steps t g stage a g' stage' → (F g' ↔ F g ∨ Q g stage a))
    (hrun : (program κ onTerminated).machine.run inputs = some s) :
    Happens onTerminated Q inputs ↔ F s.shared := by
  apply Machine.happened_iff (fun s => F s.shared) hinit _ hrun
  intro s ⟨t, a⟩ s' hstep'
  obtain ⟨g', stage', hact, rfl⟩ := Program.step_eq_some.mp hstep'
  exact hstep (act_steps hact)

theorem Steps.onTerminated_eq (hstep : Steps t g stage a g' stage') :
    g'.onTerminated = g.onTerminated := by
  cases hstep <;> rfl

theorem onTerminated_run (hrun : (program κ onTerminated).machine.run inputs = some s) :
    s.shared.onTerminated = onTerminated :=
  Program.invariant (I := fun g _ => g.onTerminated = onTerminated) rfl
    (fun _ _ _ _ _ _ h hact => (act_steps hact).onTerminated_eq.trans h) hrun

/-- Whether there is a handler is settled before the run. -/
theorem happens_handled_iff {Q : ThreadEnding κ → Stage → Act → Prop} :
    Happens onTerminated (fun g stage a => Q g stage a ∧ g.onTerminated = true) inputs ↔
      onTerminated = true ∧ Happens onTerminated Q inputs := by
  constructor
  · rintro ⟨first, i, second, hsplit, s, hs, hQ, hhandler⟩
    exact ⟨(onTerminated_run hs).symm.trans hhandler, first, i, second, hsplit, s, hs, hQ⟩
  · rintro ⟨hhandler, first, i, second, hsplit, s, hs, hQ⟩
    exact ⟨first, i, second, hsplit, s, hs, hQ, (onTerminated_run hs).trans hhandler⟩

theorem Steps.detaches_iff (hstep : Steps t g stage a g' stage') :
    g'.Detaches ↔ g.Detaches ∨ Hands g stage a := by
  cases hstep with
  | @inner thread p p' a hpermits hmove =>
      by_cases hhands : a.hands = true
      · obtain ⟨-, -, hending⟩ := permits_hands hpermits hhands
        refine iff_of_true ?_ (Or.inr ⟨a, rfl, hhands⟩)
        rcases hending with he | he <;> simp [Detaches, he]
      · have hnone := endingOf_eq_none (Bool.eq_false_iff.mpr hhands)
        have hother : ¬ Hands g (.inside p) (.inner a) := by
          intro ⟨a', heq, hhands'⟩
          cases heq
          exact hhands hhands'
        rw [or_iff_left hother, Detaches, Detaches, hnone, Option.none_or]
  | terminateNow _ hfirst =>
      refine iff_of_false (by simp [Detaches]) (not_or.mpr ⟨by simp [Detaches, hfirst], ?_⟩)
      exact fun ⟨_, heq, _⟩ => by cases heq
  | _ => exact (or_iff_left fun ⟨_, heq, _⟩ => by cases heq).symm

theorem Steps.destroyed_iff (hstep : Steps t g stage a g' stage') :
    g'.destroyed = true ↔ g.destroyed = true ∨ Destroys g stage a := by
  cases hstep with
  | destroy => exact iff_of_true rfl (Or.inr rfl)
  | _ => exact (or_iff_left nofun).symm

omit [DecidableEq κ] in
/-- A count goes up exactly where there is a handler. -/
theorem fires_pos_iff (g : ThreadEnding κ) (count : ℕ) :
    0 < count + g.fires ↔ 0 < count ∨ g.onTerminated = true := by
  unfold fires
  split_ifs with hhandler
  · exact iff_of_true (by omega) (Or.inr hhandler)
  · rw [Nat.add_zero, or_iff_left hhandler]

theorem Steps.firedNow_iff (hstep : Steps t g stage a g' stage') :
    0 < g'.firedNow ↔ 0 < g.firedNow ∨ EndsNow g stage a ∧ g.onTerminated = true := by
  cases hstep with
  | fireNow => simpa [EndsNow] using fires_pos_iff g g.firedNow
  | _ => simp [EndsNow, kill]

theorem Steps.firedBody_iff (hstep : Steps t g stage a g' stage') :
    0 < g'.firedBody ↔ 0 < g.firedBody ∨ EndsBody g stage a ∧ g.onTerminated = true := by
  cases hstep with
  | fireBody => simpa [EndsBody] using fires_pos_iff g g.firedBody
  | _ => simp [EndsBody, kill]

/-- No `join` or `detach` was called on a handle that is not joinable, and the event was fired
once at most. -/
def EndedOnce (g : ThreadEnding κ) : Prop := g.threw = false ∧ g.firedNow + g.firedBody ≤ 1

/-- A thread is ended and destroyed as it should be exactly in the runs without a destruction
of a thread that `terminate` or `terminateAndWait` has ended, in which, where there is a handler,
`terminateNow` and the body do not both come to their ends. -/
theorem ended_once_iff (onTerminated : Bool) (inputs : List (Party κ × Act))
    (s : Threads (Party κ) (ThreadEnding κ) Stage)
    (hrun : (program κ onTerminated).machine.run inputs = some s) :
    EndedOnce s.shared ↔
      ¬ (Happens onTerminated Hands inputs ∧ Happens onTerminated Destroys inputs) ∧
      ¬ (onTerminated = true ∧ Happens onTerminated EndsNow inputs ∧
        Happens onTerminated EndsBody inputs) := by
  have hinv := inv_run hrun
  have hhands : Happens onTerminated Hands inputs ↔ s.shared.Detaches :=
    happens_iff Detaches (by simp [Detaches]) Steps.detaches_iff hrun
  have hdestroys : Happens onTerminated Destroys inputs ↔ s.shared.destroyed = true :=
    happens_iff (fun g => g.destroyed = true) nofun Steps.destroyed_iff hrun
  have hnow : onTerminated = true ∧ Happens onTerminated EndsNow inputs ↔
      0 < s.shared.firedNow :=
    happens_handled_iff.symm.trans
      (happens_iff (fun g => 0 < g.firedNow) (lt_irrefl 0) Steps.firedNow_iff hrun)
  have hbody : onTerminated = true ∧ Happens onTerminated EndsBody inputs ↔
      0 < s.shared.firedBody :=
    happens_handled_iff.symm.trans
      (happens_iff (fun g => 0 < g.firedBody) (lt_irrefl 0) Steps.firedBody_iff hrun)
  have hthrew : s.shared.threw = false ↔ ¬ (s.shared.Detaches ∧ s.shared.destroyed = true) := by
    rw [← Bool.not_eq_true, hinv.owner.threw, and_comm]
  have honce := hinv.owner.firedOnce
  have honce' := hinv.body.firedOnce
  rw [EndedOnce, hhands, hdestroys, and_and_left, hnow, hbody, hthrew]
  apply and_congr_right'
  constructor
  · intro hsum
    omega
  · intro hnotBoth
    omega

/-- The body is cancelled, and the object destroyed. -/
def cancelledRun : List (Party ℕ × Act) :=
  [(.owner, .terminateNow), (.owner, .next), (.owner, .next), (.owner, .next),
    (.body, .cancelled true), (.owner, .destroy)]

theorem ended_once_cancelled :
    ∃ s, (program ℕ true).machine.run cancelledRun = some s ∧
      (EndedOnce s.shared ↔
        ¬ (Happens true Hands cancelledRun ∧ Happens true Destroys cancelledRun) ∧
        ¬ (Happens true EndsNow cancelledRun ∧ Happens true EndsBody cancelledRun)) := by
  obtain ⟨s, hrun⟩ : ∃ s, (program ℕ true).machine.run cancelledRun = some s := ⟨_, rfl⟩
  exact ⟨s, hrun, by simpa only [true_and] using ended_once_iff true cancelledRun s hrun⟩

/-- `terminate()` and the destructor: `thread_.detach()` is called twice. -/
def terminatedRun : List (Party ℕ × Act) :=
  [(.owner, .inner (.call .terminate)), (.owner, .inner .next), (.owner, .inner .next),
    (.owner, .destroy)]

/-- The body ends before `terminateNow()`, and both fire. -/
def lateRun : List (Party ℕ × Act) :=
  [(.body, .returns), (.body, .next), (.owner, .terminateNow), (.owner, .next), (.owner, .next),
    (.owner, .next), (.owner, .destroy)]

theorem not_ended_once :
    (∃ s, (program ℕ true).machine.run terminatedRun = some s ∧ ¬ EndedOnce s.shared) ∧
      ∃ s, (program ℕ true).machine.run lateRun = some s ∧ ¬ EndedOnce s.shared :=
  ⟨⟨_, rfl, fun h => nomatch h.1⟩, ⟨_, rfl, fun h => absurd h.2 (by decide)⟩⟩

end ThreadEnding

end RyuLib
