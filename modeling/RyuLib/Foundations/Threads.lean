import Mathlib.Data.Finset.Insert
import RyuLib.Foundations.Machine

/-!
# Threads over shared data

A program that any number of threads run: what a thread does next depends on the
shared data and on the point it is at, and changes nothing but these two.  A run of
the machine is an interleaving: at every step some thread moves.

* `Program.step_eq_some`: what a step is.
* `Mutex`, `Guards`: the points between locking and unlocking, where at most one
  thread is at a time.
* `Condition`, `Sleeps`: a condition variable as the set of the threads that wait on
  it.  A thread that is no longer in the set has been woken.
-/

namespace Foundations

/-- The shared data, and the point each thread is at. -/
structure Threads (τ σ π : Type*) where
  shared : σ
  points : τ → π

/-- What every thread starts with, and what it can do: `act t g p a` is a step of thread
`t` at the point `p`, where `a` is what the thread chooses. -/
structure Program (τ σ π α : Type*) where
  shared : σ
  points : τ → π
  act : τ → σ → π → α → Option (σ × π)

/-- What holds of a thread's point after a step: it has moved there, or has stayed. -/
theorem at_update {τ π : Type*} [DecidableEq τ] {P : π → Prop} {points : τ → π} {t u : τ} {p : π}
    (hmoved : u = t → P p) (hstayed : u ≠ t → P (points u)) : P (Function.update points t p u) := by
  rcases eq_or_ne u t with rfl | hne
  · rw [Function.update_self]
    exact hmoved rfl
  · rw [Function.update_of_ne hne]
    exact hstayed hne

namespace Program

variable {τ σ π α : Type*} [DecidableEq τ] (P : Program τ σ π α)

/-- The interleavings of the threads. -/
def machine : Machine (Threads τ σ π) (τ × α) where
  init := ⟨P.shared, P.points⟩
  step s i := (P.act i.1 s.shared (s.points i.1) i.2).map fun next =>
    ⟨next.1, Function.update s.points i.1 next.2⟩

variable {P}

theorem step_eq_some {s s' : Threads τ σ π} {t : τ} {a : α} :
    P.machine.step s (t, a) = some s' ↔
      ∃ g p, P.act t s.shared (s.points t) a = some (g, p) ∧
        s' = ⟨g, Function.update s.points t p⟩ := by
  simp only [machine, Option.map_eq_some_iff, Prod.exists]
  constructor
  · rintro ⟨g, p, hact, rfl⟩
    exact ⟨g, p, hact, rfl⟩
  · rintro ⟨g, p, hact, rfl⟩
    exact ⟨g, p, hact, rfl⟩

/-- An invariant of the shared data and all points, kept by what any thread does. -/
theorem invariant {I : σ → (τ → π) → Prop} (hinit : I P.shared P.points)
    (hact : ∀ g points t a g' p, I g points → P.act t g (points t) a = some (g', p) →
      I g' (Function.update points t p)) {inputs : List (τ × α)} {s : Threads τ σ π}
    (hrun : P.machine.run inputs = some s) : I s.shared s.points := by
  refine Machine.invariant (I := fun s => I s.shared s.points) hinit ?_ hrun
  rintro s ⟨t, a⟩ s' hs hstep
  obtain ⟨g, p, hstep', rfl⟩ := step_eq_some.mp hstep
  exact hact s.shared s.points t a g p hs hstep'

end Program

/-! ## Mutexes -/

/-- A mutex, with the thread that has locked it. -/
structure Mutex (τ : Type*) where
  owner : Option τ := none

namespace Mutex

variable {τ : Type*}

/-- Locking waits until nobody owns the mutex. -/
def lock (m : Mutex τ) (t : τ) : Option (Mutex τ) :=
  if m.owner.isNone = true then some ⟨some t⟩ else none

def unlock (_ : Mutex τ) : Mutex τ := ⟨none⟩

theorem lock_eq_some {m m' : Mutex τ} {t : τ} :
    m.lock t = some m' ↔ m.owner = none ∧ m' = ⟨some t⟩ := by
  simp only [lock, Option.isNone_iff_eq_none, Option.ite_none_right_eq_some, Option.some.injEq]
  exact and_congr_right' eq_comm

end Mutex

/-- The owner of the mutex is the thread at a locked point, and no other thread is at one. -/
def Guards {τ π : Type*} (m : Mutex τ) (locked : π → Bool) (points : τ → π) : Prop :=
  ∀ t, locked (points t) = true ↔ m.owner = some t

namespace Guards

variable {τ π : Type*} {m : Mutex τ} {locked : π → Bool} {points : τ → π}

theorem eq_of_locked (h : Guards m locked points) {t u : τ} (ht : locked (points t) = true)
    (hu : locked (points u) = true) : t = u := by
  have howner := (h t).mp ht
  rw [(h u).mp hu, Option.some.injEq] at howner
  exact howner.symm

variable [DecidableEq τ]

theorem lock (h : Guards m locked points) {m' : Mutex τ} {t : τ} {p : π}
    (hlock : m.lock t = some m') (hp : locked p = true) :
    Guards m' locked (Function.update points t p) := by
  obtain ⟨howner, rfl⟩ := Mutex.lock_eq_some.mp hlock
  intro u
  rcases eq_or_ne u t with rfl | hne
  · simp [hp]
  · simp [hne, h u, howner, hne.symm]

theorem unlock (h : Guards m locked points) {t : τ} {p p' : π} (hp : points t = p)
    (hlocked : locked p = true) (hp' : locked p' = false) :
    Guards m.unlock locked (Function.update points t p') := by
  intro u
  rcases eq_or_ne u t with rfl | hne
  · simp [hp', Mutex.unlock]
  · have hu : locked (points u) ≠ true := fun hu => hne (h.eq_of_locked hu (hp ▸ hlocked))
    simp [hne, hu, Mutex.unlock]

/-- A step that neither locks nor unlocks. -/
theorem stay (h : Guards m locked points) {t : τ} {p p' : π} (hp : points t = p)
    (hp' : locked p' = locked p) : Guards m locked (Function.update points t p') := by
  intro u
  apply at_update (P := fun q => locked q = true ↔ m.owner = some u)
  · rintro rfl
    rw [hp', ← hp]
    exact h u
  · exact fun _ => h u

end Guards

/-! ## Condition variables -/

/-- A condition variable, with the threads asleep on it. -/
structure Condition (τ : Type*) where
  waiters : Finset τ := ∅

namespace Condition

variable {τ : Type*}

def notifyAll (_ : Condition τ) : Condition τ := ⟨∅⟩

variable [DecidableEq τ]

def wait (c : Condition τ) (t : τ) : Condition τ := ⟨insert t c.waiters⟩

/-- A wake-up of one thread that nobody asked for. -/
def wake (c : Condition τ) (t : τ) : Condition τ := ⟨c.waiters.erase t⟩

end Condition

/-- The threads asleep on the condition variable are at points where they sleep. -/
def Sleeps {τ π : Type*} (c : Condition τ) (asleep : π → Bool) (points : τ → π) : Prop :=
  ∀ t ∈ c.waiters, asleep (points t) = true

namespace Sleeps

variable {τ π : Type*} {c : Condition τ} {asleep : π → Bool} {points : τ → π}

theorem notifyAll (c : Condition τ) (asleep : π → Bool) (points : τ → π) :
    Sleeps c.notifyAll asleep points := by
  intro t ht
  simp [Condition.notifyAll] at ht

/-- A thread that is awake moves. -/
theorem stay [DecidableEq τ] (h : Sleeps c asleep points) {t : τ} {p p' : π}
    (hp : points t = p) (hawake : asleep p = false ∨ t ∉ c.waiters) :
    Sleeps c asleep (Function.update points t p') := by
  intro u hu
  have hne : u ≠ t := by
    rintro rfl
    rcases hawake with hawake | hawake
    · rw [← hp, h u hu] at hawake
      cases hawake
    · exact hawake hu
  rw [Function.update_of_ne hne]
  exact h u hu

theorem wait [DecidableEq τ] (h : Sleeps c asleep points) {t : τ} {p : π}
    (hp : asleep p = true) : Sleeps (c.wait t) asleep (Function.update points t p) := by
  intro u hu
  apply at_update (P := (asleep · = true))
  · exact fun _ => hp
  · exact fun hne => h u (Finset.mem_of_mem_insert_of_ne hu hne)

theorem wake [DecidableEq τ] (h : Sleeps c asleep points) {t : τ} {p : π} :
    Sleeps (c.wake t) asleep (Function.update points t p) := by
  intro u hu
  obtain ⟨hne, hu⟩ := Finset.mem_erase.mp hu
  rw [Function.update_of_ne hne]
  exact h u hu

end Sleeps

end Foundations
