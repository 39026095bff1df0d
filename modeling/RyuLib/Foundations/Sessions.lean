import RyuLib.Foundations.History

/-!
# Messages in sessions

A list of tasks that enter a session, leave the present one, or hand over a message to it.
`current` is the session after the tasks, and `delivered` are the messages with the session
that each went to; a message outside of all sessions goes nowhere.

* `current_eq_some_iff`: the session is the one that was entered last, if none was left since.
* `mem_delivered_iff`: a message goes to the session before it and to no other.
-/

namespace Foundations

open History

inductive SessionTask (ι μ : Type*)
  | enter (session : ι)
  | leave
  | message (m : μ)

namespace SessionTask

variable {ι μ : Type*}

def isMessage : SessionTask ι μ → Bool
  | .message _ => true
  | _ => false

/-- The messages among the tasks. -/
def messages (tasks : List (SessionTask ι μ)) : List μ :=
  tasks.filterMap fun
    | .message m => some m
    | _ => none

/-- The session after a task. -/
def after (session : Option ι) : SessionTask ι μ → Option ι
  | .enter session' => some session'
  | .leave => none
  | .message _ => session

def current (tasks : List (SessionTask ι μ)) : Option ι := tasks.foldl after none

/-- What a task delivers in a session. -/
def deliver (session : Option ι) : SessionTask ι μ → List (ι × μ)
  | .message m => session.toList.map fun session => (session, m)
  | _ => []

def deliveredFrom (session : Option ι) : List (SessionTask ι μ) → List (ι × μ)
  | [] => []
  | task :: tasks => deliver session task ++ deliveredFrom (after session task) tasks

def delivered (tasks : List (SessionTask ι μ)) : List (ι × μ) := deliveredFrom none tasks

theorem current_concat (tasks : List (SessionTask ι μ)) (task : SessionTask ι μ) :
    current (tasks ++ [task]) = after (current tasks) task := by
  simp [current]

theorem messages_append (first second : List (SessionTask ι μ)) :
    messages (first ++ second) = messages first ++ messages second :=
  List.filterMap_append

theorem deliveredFrom_append (session : Option ι) (first second : List (SessionTask ι μ)) :
    deliveredFrom session (first ++ second) =
      deliveredFrom session first ++ deliveredFrom (first.foldl after session) second := by
  induction first generalizing session with
  | nil => rfl
  | cons task first ih => simp [deliveredFrom, ih]

theorem delivered_append (first second : List (SessionTask ι μ)) :
    delivered (first ++ second) = delivered first ++ deliveredFrom (current first) second :=
  deliveredFrom_append none first second

theorem delivered_concat (tasks : List (SessionTask ι μ)) (task : SessionTask ι μ) :
    delivered (tasks ++ [task]) = delivered tasks ++ deliver (current tasks) task := by
  rw [delivered_append]
  simp [deliveredFrom]

/-- Nothing is delivered twice or out of turn. -/
theorem deliveredFrom_sublist (session : Option ι) (tasks : List (SessionTask ι μ)) :
    ((deliveredFrom session tasks).map Prod.snd).Sublist (messages tasks) := by
  induction tasks generalizing session with
  | nil => exact List.Sublist.refl _
  | cons task tasks ih =>
      cases task with
      | enter session' => exact ih (some session')
      | leave => exact ih none
      | message m =>
          cases session with
          | none => exact (ih none).cons m
          | some session => exact (ih (some session)).cons_cons m

theorem delivered_sublist (tasks : List (SessionTask ι μ)) :
    ((delivered tasks).map Prod.snd).Sublist (messages tasks) :=
  deliveredFrom_sublist none tasks

theorem mem_messages_of_mem_deliveredFrom {session : Option ι} {tasks : List (SessionTask ι μ)}
    {d : ι × μ} (hd : d ∈ deliveredFrom session tasks) : d.2 ∈ messages tasks :=
  (deliveredFrom_sublist session tasks).mem (List.mem_map_of_mem hd)

/-- The session is the one that was entered last, if it has not been left since. -/
theorem current_eq_some_iff {tasks : List (SessionTask ι μ)} {session : ι} :
    current tasks = some session ↔
      HeldSince (fun task => task = .enter session) (fun task => task.isMessage = true) tasks := by
  induction tasks using List.reverseRecOn with
  | nil =>
      refine iff_of_false nofun ?_
      rintro ⟨past, event, future, hsplit, -⟩
      simp at hsplit
  | append_singleton tasks task ih =>
      rw [current_concat, heldSince_concat, ← ih]
      cases task with
      | enter session' => simp [after, isMessage]
      | leave => simp [after, isMessage]
      | message m => simp [after, isMessage]

/-- What is delivered in a session is delivered after it was entered. -/
theorem enter_mem_of_mem_delivered {tasks : List (SessionTask ι μ)} {session : ι} {m : μ}
    (hd : (session, m) ∈ delivered tasks) : .enter session ∈ tasks := by
  induction tasks using List.reverseRecOn with
  | nil => cases hd
  | append_singleton tasks task ih =>
      rw [delivered_concat, List.mem_append] at hd
      rcases hd with hd | hd
      · exact List.mem_append_left _ (ih hd)
      · cases task with
        | enter | leave => cases hd
        | message m' =>
            obtain ⟨session', hcurrent, hpair⟩ := List.mem_map.mp hd
            obtain ⟨rfl, -⟩ := Prod.mk.inj hpair
            obtain ⟨past, event, future, rfl, rfl, -⟩ :=
              current_eq_some_iff.mp (Option.mem_toList.mp hcurrent)
            simp

/-- Where the messages differ, each goes to the session before it and to no other. -/
theorem mem_delivered_iff {front back : List (SessionTask ι μ)} {m : μ} {session : ι}
    (hnodup : (messages (front ++ .message m :: back)).Nodup) :
    (session, m) ∈ delivered (front ++ .message m :: back) ↔ current front = some session := by
  have hsplit : messages (front ++ .message m :: back) = messages front ++ m :: messages back :=
    messages_append front (.message m :: back)
  rw [hsplit, List.nodup_append', List.nodup_cons] at hnodup
  obtain ⟨-, ⟨hback, -⟩, hdisjoint⟩ := hnodup
  have hfront : m ∉ messages front := fun hm => hdisjoint hm (List.mem_cons_self ..)
  rw [delivered_append, deliveredFrom, List.mem_append, List.mem_append]
  constructor
  · rintro (hm | hm | hm)
    · exact absurd (mem_messages_of_mem_deliveredFrom hm) hfront
    · simpa [deliver] using hm
    · exact absurd (mem_messages_of_mem_deliveredFrom hm) hback
  · intro hcurrent
    exact Or.inr (Or.inl (by simp [deliver, hcurrent]))

end SessionTask

end Foundations
