import Mathlib.Data.List.Infix
import Mathlib.Data.Set.Basic

/-!
# One log for a group

A sender gives values to members that come and go.  Between two moments it treats a group alike
(`Agree`) when there is one log of which every member of the group has been given a front, and
all of it if it is still there.  Agreement adds up over time (`Agree.trans`): whoever has left is
given nothing more, and what the others are given goes behind the log.
-/

namespace Foundations

/-- What every member has been given so far, and who is there. -/
structure Multicast (ι α : Type*) where
  given : ι → List α
  present : ι → Prop

namespace Multicast

variable {ι α : Type*}

/-- The member has come by a front of the log from `m` to `n`, and by all of it unless it has
left; it does not come back. -/
structure Follows (log : List α) (m n : Multicast ι α) (i : ι) : Prop where
  given : ∃ since, n.given i = m.given i ++ since ∧ since <+: log ∧ (n.present i → since = log) ∧
    (¬ m.present i → since = [])
  stays : n.present i → m.present i

/-- All members of the group follow one log. -/
def Agree (group : Set ι) (m n : Multicast ι α) : Prop :=
  ∃ log, ∀ i ∈ group, Follows log m n i

namespace Agree

variable {group : Set ι} {l m n : Multicast ι α}

/-- Members may leave at any time. -/
theorem leave (hgiven : ∀ i ∈ group, n.given i = m.given i)
    (hstays : ∀ i ∈ group, n.present i → m.present i) : Agree group m n := by
  refine ⟨[], fun i hi => ⟨⟨[], ?_, List.nil_prefix, fun _ => rfl, fun _ => rfl⟩, hstays i hi⟩⟩
  rw [hgiven i hi, List.append_nil]

theorem refl (group : Set ι) (m : Multicast ι α) : Agree group m m :=
  leave (fun _ _ => rfl) fun _ _ h => h

theorem trans (hlm : Agree group l m) (hmn : Agree group m n) : Agree group l n := by
  obtain ⟨first, hfirst⟩ := hlm
  obtain ⟨second, hsecond⟩ := hmn
  refine ⟨first ++ second, fun i hi => ?_⟩
  obtain ⟨⟨before, hbefore, hbeforeFront, hbeforeAll, hbeforeNone⟩, hstays⟩ := hfirst i hi
  obtain ⟨⟨after, hafter, hafterFront, hafterAll, hafterNone⟩, hstays'⟩ := hsecond i hi
  refine ⟨⟨before ++ after, ?_, ?_, ?_, ?_⟩, fun hn => hstays (hstays' hn)⟩
  · rw [hafter, hbefore, List.append_assoc]
  · by_cases hm : m.present i
    · rw [hbeforeAll hm]
      exact (List.prefix_append_right_inj first).mpr hafterFront
    · rw [hafterNone hm, List.append_nil]
      exact hbeforeFront.trans (List.prefix_append first second)
  · intro hn
    rw [hbeforeAll (hstays' hn), hafterAll hn]
  · intro hl
    rw [hbeforeNone hl, hafterNone fun hm => hl (hstays hm)]
    rfl

end Agree

end Multicast

end Foundations
