import RyuLib.Foundations.Machine
import RyuLib.Foundations.Ownership

/-!
# SystemAudio

`open` obtains four COM interfaces and the wave format of the device in eight steps, and cleans
up when one of them fails; `close` does nothing unless a capture is running.  The clean-up
releases the interfaces and sets their pointers to null, and frees the format.  A call that
fails writes null to the pointer it was to fill.
-/

namespace RyuLib

open Foundations

namespace SystemAudio

/-- The calls of `open`, in the order in which they are made. -/
inductive Step
  | coCreateInstance
  | getDefaultAudioEndpoint
  | activate
  | getMixFormat
  -- `IAudioClient::Initialize`
  | initializeClient
  | getBufferSize
  | getService
  | start
  deriving DecidableEq

/-- The members that point at COM interfaces. -/
inductive Interface
  | pEnumerator
  | pDevice
  | pAudioClient
  | pCaptureClient
  deriving DecidableEq

/-- `sizeof(WAVEFORMATEX)`. -/
abbrev sizeofFormat : ℕ := 18

end SystemAudio

/-- `formats` are the blocks of `GetMixFormat`, `references` the references to COM interfaces;
`misused` is history: the clean-up ran or a getter was used with a dangling `pwfx`. -/
structure SystemAudio where
  formats : Allocations := {}
  pwfx : Option ℕ := none
  references : Allocations := {}
  interface : SystemAudio.Interface → Option ℕ := fun _ => none
  worker : Bool := false
  misused : Bool := false

namespace SystemAudio

/-- `pwfx` is looked at. -/
def useFormat (s : SystemAudio) : SystemAudio :=
  match s.pwfx with
  | none => s
  | some p => { s with misused := s.misused || (s.formats.live p).isNone }

/-- A call fills the pointer with a new reference. -/
def obtain (s : SystemAudio) (i : Interface) : SystemAudio :=
  let (references, p) := s.references.malloc 1
  { s with references := references, interface := Function.update s.interface i (some p) }

def refuse (s : SystemAudio) (i : Interface) : SystemAudio :=
  { s with interface := Function.update s.interface i none }

/-- `SAFE_RELEASE`. -/
def safeRelease (s : SystemAudio) (i : Interface) : SystemAudio :=
  { s with
    references := s.references.release (s.interface i)
    interface := Function.update s.interface i none }

/-- `pwfx` keeps its value. -/
def finValues (s : SystemAudio) : SystemAudio :=
  let s := s.useFormat
  let s := { s with formats := s.formats.release s.pwfx }
  let s := s.safeRelease .pEnumerator
  let s := s.safeRelease .pDevice
  let s := s.safeRelease .pAudioClient
  s.safeRelease .pCaptureClient

/-- What a call of `open` does when it succeeds. -/
def succeed (s : SystemAudio) : Step → SystemAudio
  | .coCreateInstance => s.obtain .pEnumerator
  | .getDefaultAudioEndpoint => s.obtain .pDevice
  | .activate => s.obtain .pAudioClient
  | .getMixFormat =>
      let (formats, p) := s.formats.malloc sizeofFormat
      { s with formats := formats, pwfx := some p }
  | .getService => s.obtain .pCaptureClient
  | .initializeClient | .getBufferSize | .start => s

def fail (s : SystemAudio) : Step → SystemAudio
  | .coCreateInstance => s.refuse .pEnumerator
  | .getDefaultAudioEndpoint => s.refuse .pDevice
  | .activate => s.refuse .pAudioClient
  | .getMixFormat => { s with pwfx := none }
  | .getService => s.refuse .pCaptureClient
  | .initializeClient | .getBufferSize | .start => s

/-- The calls of `open` from some step on, of which `failure` fails. -/
def openFrom (s : SystemAudio) (failure : Option Step) : List Step → SystemAudio
  -- the traces read the format, and the worker is started
  | [] => { s.useFormat with worker := true }
  | step :: steps =>
      if failure = some step then (s.fail step).finValues
      else (s.succeed step).openFrom failure steps

def steps : List Step :=
  [.coCreateInstance, .getDefaultAudioEndpoint, .activate, .getMixFormat, .initializeClient,
    .getBufferSize, .getService, .start]

/-- `open` with the step that fails, if one does. -/
def «open» (s : SystemAudio) (failure : Option Step) : SystemAudio := s.openFrom failure steps

def close (s : SystemAudio) : SystemAudio :=
  if s.worker = false then s else { s with worker := false }.finValues

inductive Call
  | «open» (failure : Option Step)
  | close
  -- `getChannels`, `getSamples` and `getBitsPerSample`
  | getFormat

def call (s : SystemAudio) : Call → SystemAudio
  | .open failure => s.open failure
  | .close => s.close
  | .getFormat => s.useFormat

/-- Any call can be made at any time. -/
def machine : Machine SystemAudio Call := ⟨{}, fun s c => some (s.call c)⟩

variable {s : SystemAudio}

/-! ## The interfaces -/

/-- The four pointers own their references, and none was released twice. -/
def Owned (s : SystemAudio) : Prop :=
  Owns s.references s.interface ∧ s.references.freedDead = false

theorem owned_useFormat (h : s.Owned) : s.useFormat.Owned := by
  unfold useFormat
  split <;> exact h

theorem Owned.obtain (h : s.Owned) (i : Interface) : (s.obtain i).Owned := ⟨h.1.malloc i 1, h.2⟩

theorem Owned.refuse (h : s.Owned) (i : Interface) : (s.refuse i).Owned := ⟨h.1.forget i, h.2⟩

theorem Owned.safeRelease (h : s.Owned) (i : Interface) : (s.safeRelease i).Owned :=
  ⟨(h.1.release i).1, (h.1.release i).2.trans h.2⟩

theorem Owned.finValues (h : s.Owned) : s.finValues.Owned := by
  have hformat : ({ s.useFormat with
      formats := s.useFormat.formats.release s.useFormat.pwfx } : SystemAudio).Owned :=
    owned_useFormat h
  exact (((hformat.safeRelease .pEnumerator).safeRelease .pDevice).safeRelease
    .pAudioClient).safeRelease .pCaptureClient

theorem Owned.succeed (h : s.Owned) (step : Step) : (s.succeed step).Owned := by
  cases step with
  | coCreateInstance | getDefaultAudioEndpoint | activate | getService => exact h.obtain _
  | getMixFormat | initializeClient | getBufferSize | start => exact h

theorem Owned.fail (h : s.Owned) (step : Step) : (s.fail step).Owned := by
  cases step with
  | coCreateInstance | getDefaultAudioEndpoint | activate | getService => exact h.refuse _
  | getMixFormat | initializeClient | getBufferSize | start => exact h

theorem Owned.openFrom (h : s.Owned) (failure : Option Step) (steps : List Step) :
    (s.openFrom failure steps).Owned := by
  induction steps generalizing s with
  | nil => exact owned_useFormat h
  | cons step steps ih =>
      rw [SystemAudio.openFrom]
      split_ifs
      · exact (h.fail step).finValues
      · exact ih (h.succeed step)

theorem Owned.call (h : s.Owned) (c : Call) : (s.call c).Owned := by
  cases c with
  | «open» failure => exact h.openFrom failure steps
  | close =>
      show s.close.Owned
      unfold SystemAudio.close
      split_ifs
      · exact h
      · have hstopped : ({ s with worker := false } : SystemAudio).Owned := h
        exact hstopped.finValues
  | getFormat => exact owned_useFormat h

/-! ## The format -/

/-- What `pwfx` is: null, the address of a block, or of one that has been freed. -/
inductive Format
  | absent
  | held
  | freed
  deriving DecidableEq

def Format.Of (s : SystemAudio) : Format → Prop
  | .absent => s.pwfx = none
  | .held => ∃ p, s.pwfx = some p ∧ s.formats.live p ≠ none
  | .freed => ∃ p, s.pwfx = some p ∧ s.formats.live p = none

/-- The clean-up frees a block that is held, and `pwfx` dangles from then on. -/
def Format.cleaned : Format → Format
  | .absent => .absent
  | .held | .freed => .freed

/-- No block was freed twice, and no dangling `pwfx` was used. -/
def FormatsSafe (s : SystemAudio) : Prop := s.formats.freedDead = false ∧ s.misused = false

variable {f : Format}

theorem useFormat_spec (h : f.Of s) :
    f.Of s.useFormat ∧ s.useFormat.worker = s.worker ∧ s.useFormat.formats = s.formats ∧
      s.useFormat.misused = (s.misused || f = .freed) := by
  cases f with
  | absent =>
      have hpwfx : s.pwfx = none := h
      have huse : s.useFormat = s := by rw [useFormat, hpwfx]
      rw [huse]
      exact ⟨h, rfl, rfl, by simp⟩
  | held =>
      obtain ⟨p, hpwfx, hlive⟩ := h
      have hsome := Option.isNone_eq_false_iff.mpr (Option.isSome_iff_ne_none.mpr hlive)
      have huse : s.useFormat = s := by
        simp only [useFormat, hpwfx, hsome, Bool.or_false]
        rw [← hpwfx]
      rw [huse]
      exact ⟨⟨p, hpwfx, hlive⟩, rfl, rfl, by simp⟩
  | freed =>
      obtain ⟨p, hpwfx, hdead⟩ := h
      have huse : s.useFormat = { s with misused := true } := by
        simp only [useFormat, hpwfx, hdead, Option.isNone_none, Bool.or_true]
      rw [huse]
      exact ⟨⟨p, hpwfx, hdead⟩, rfl, rfl, by simp⟩

theorem safe_useFormat_iff (h : f.Of s) :
    s.useFormat.FormatsSafe ↔ s.FormatsSafe ∧ f ≠ .freed := by
  obtain ⟨-, -, hformats, hmisused⟩ := useFormat_spec h
  rw [FormatsSafe, FormatsSafe, hformats, hmisused, Bool.or_eq_false_iff, decide_eq_false_iff_not,
    and_assoc]

/-- Only a block that is held is freed by the clean-up without harm. -/
theorem finValues_spec (h : f.Of s) :
    f.cleaned.Of s.finValues ∧ s.finValues.worker = s.worker ∧
      (s.finValues.FormatsSafe ↔ s.FormatsSafe ∧ f ≠ .freed) := by
  obtain ⟨huse, hworker, hkept, hmisused⟩ := useFormat_spec h
  have hformats : s.finValues.formats = s.useFormat.formats.release s.useFormat.pwfx := rfl
  refine ⟨?_, hworker, ?_⟩
  · cases f with
    | absent => exact huse
    | held | freed =>
        obtain ⟨p, hp, _⟩ := huse
        refine ⟨p, hp, ?_⟩
        rw [hformats, hp]
        exact Allocations.free_live_self _ p
  · rw [← safe_useFormat_iff h]
    by_cases hfreed : f = .freed
    · have hmisused : s.useFormat.misused = true := by rw [hmisused, hfreed]; simp
      exact iff_of_false (fun hsafe => Bool.noConfusion (hmisused.symm.trans hsafe.2))
        fun hsafe => Bool.noConfusion (hmisused.symm.trans hsafe.2)
    · have hvalid : s.useFormat.formats.Valid s.useFormat.pwfx := by
        intro p hp
        cases f with
        | absent => exact absurd (huse.symm.trans hp) nofun
        | held =>
            obtain ⟨q, hq, hlive⟩ := huse
            obtain rfl := Option.some.inj (hq.symm.trans hp)
            exact hlive
        | freed => exact absurd rfl hfreed
      rw [FormatsSafe, FormatsSafe, hformats, Allocations.release_freedDead hvalid]
      rfl

/-! ## What a call does to the format -/

namespace Format

def succeeded (f : Format) (step : Step) : Format := if step = .getMixFormat then .held else f

def failed (f : Format) (step : Step) : Format := if step = .getMixFormat then .absent else f

/-- The format after the calls of `open` from some step on. -/
def opened (f : Format) (failure : Option Step) : List Step → Format
  | [] => f
  | step :: steps =>
      if failure = some step then (f.failed step).cleaned
      else (f.succeeded step).opened failure steps

/-- The format is looked at in the end, and is freed then. -/
def Spoils (f : Format) (failure : Option Step) : List Step → Prop
  | [] => f = .freed
  | step :: steps =>
      if failure = some step then f.failed step = .freed
      else (f.succeeded step).Spoils failure steps

end Format

theorem succeed_spec (h : f.Of s) (step : Step) :
    (f.succeeded step).Of (s.succeed step) ∧ (s.succeed step).worker = s.worker ∧
      ((s.succeed step).FormatsSafe ↔ s.FormatsSafe) := by
  cases step with
  | getMixFormat =>
      refine ⟨⟨s.formats.next, rfl, ?_⟩, rfl, Iff.rfl⟩
      show (s.formats.malloc sizeofFormat).1.live s.formats.next ≠ none
      rw [Allocations.malloc_live_self]
      exact Option.some_ne_none _
  | coCreateInstance | getDefaultAudioEndpoint | activate | initializeClient | getBufferSize
  | getService | start => exact ⟨h, rfl, Iff.rfl⟩

theorem fail_spec (h : f.Of s) (step : Step) :
    (f.failed step).Of (s.fail step) ∧ (s.fail step).worker = s.worker ∧
      ((s.fail step).FormatsSafe ↔ s.FormatsSafe) := by
  cases step with
  | getMixFormat => exact ⟨rfl, rfl, Iff.rfl⟩
  | coCreateInstance | getDefaultAudioEndpoint | activate | initializeClient | getBufferSize
  | getService | start => exact ⟨h, rfl, Iff.rfl⟩

theorem openFrom_spec (h : f.Of s) (failure : Option Step) (steps : List Step) :
    (f.opened failure steps).Of (s.openFrom failure steps) ∧
      ((s.openFrom failure steps).FormatsSafe ↔ s.FormatsSafe ∧ ¬ f.Spoils failure steps) ∧
      ((s.openFrom failure steps).worker = true ↔
        s.worker = true ∨ ∀ step ∈ steps, failure ≠ some step) := by
  induction steps generalizing s f with
  | nil =>
      refine ⟨(useFormat_spec h).1, safe_useFormat_iff h, ?_⟩
      exact iff_of_true rfl (Or.inr fun step hstep => nomatch hstep)
  | cons step steps ih =>
      rw [openFrom, Format.opened, Format.Spoils]
      by_cases hfails : failure = some step
      · obtain ⟨hformat, hworker, hsafe⟩ := fail_spec h step
        obtain ⟨hcleaned, hworker', hsafe'⟩ := finValues_spec hformat
        rw [if_pos hfails, if_pos hfails, if_pos hfails, hsafe', hsafe, hworker', hworker]
        refine ⟨hcleaned, Iff.rfl, ?_⟩
        exact (or_iff_left fun hnone => hnone step List.mem_cons_self hfails).symm
      · obtain ⟨hformat, hworker, hsafe⟩ := succeed_spec h step
        obtain ⟨hopened, hsafe', hworker'⟩ := ih hformat
        rw [if_neg hfails, if_neg hfails, if_neg hfails, hsafe', hsafe, hworker', hworker,
          List.forall_mem_cons]
        exact ⟨hopened, Iff.rfl, by rw [and_iff_right hfails]⟩

/-- The calls before the one that writes `pwfx`. -/
def Step.early : Step → Bool
  | .coCreateInstance | .getDefaultAudioEndpoint | .activate => true
  | _ => false

/-- What has become of the format after the calls so far, and whether a capture is running. -/
structure Phase where
  format : Format := .absent
  capturing : Bool := false

namespace Phase

def next (p : Phase) : Call → Phase
  | .open none => ⟨.held, true⟩
  | .open (some .getMixFormat) => { p with format := .absent }
  | .open (some step) => { p with format := if step.early then p.format.cleaned else .freed }
  | .close => if p.capturing then ⟨p.format.cleaned, false⟩ else p
  | .getFormat => p

/-- Once the block is freed, no call looks at `pwfx` before it is written again. -/
def Careful (p : Phase) : Call → Prop
  | .open none => True
  | .open (some step) => step.early → p.format ≠ .freed
  | .close => p.capturing → p.format ≠ .freed
  | .getFormat => p.format ≠ .freed

def Of (p : Phase) (s : SystemAudio) : Prop := p.format.Of s ∧ s.worker = p.capturing

end Phase

def history : Machine Phase Call := ⟨{}, fun p c => some (p.next c)⟩

theorem opened_steps (p : Phase) (failure : Option Step) :
    p.format.opened failure steps = (p.next (.open failure)).format := by
  obtain ⟨f, capturing⟩ := p
  rcases failure with _ | step
  · cases f <;> rfl
  · cases f <;> cases step <;> rfl

theorem spoils_steps (p : Phase) (failure : Option Step) :
    ¬ p.format.Spoils failure steps ↔ p.Careful (.open failure) := by
  obtain ⟨f, capturing⟩ := p
  rcases failure with _ | step
  · cases f <;> simp [Format.Spoils, steps, Phase.Careful, Format.succeeded]
  · cases f <;> cases step <;>
      simp [Format.Spoils, steps, Phase.Careful, Format.succeeded, Format.failed, Step.early]

theorem capturing_next (p : Phase) (failure : Option Step) :
    (p.next (.open failure)).capturing = true ↔
      p.capturing = true ∨ ∀ step ∈ steps, failure ≠ some step := by
  rcases failure with _ | step
  · exact iff_of_true rfl (Or.inr fun step _ => nofun)
  · have hstep : step ∈ steps := by cases step <;> decide
    have hcapturing : (p.next (.open (some step))).capturing = p.capturing := by cases step <;> rfl
    rw [hcapturing]
    exact (or_iff_left fun hnone => hnone step hstep rfl).symm

/-- What one call does to the format, and when it does no harm. -/
theorem call_spec {p : Phase} (h : p.Of s) (c : Call) :
    (p.next c).Of (s.call c) ∧ ((s.call c).FormatsSafe ↔ s.FormatsSafe ∧ p.Careful c) := by
  obtain ⟨hformat, hworker⟩ := h
  cases c with
  | «open» failure =>
      obtain ⟨hopened, hsafe, hcapture⟩ := openFrom_spec hformat failure steps
      rw [opened_steps] at hopened
      rw [spoils_steps] at hsafe
      refine ⟨⟨hopened, ?_⟩, hsafe⟩
      rw [Bool.eq_iff_iff, capturing_next, ← hworker]
      exact hcapture
  | close =>
      show (p.next .close).Of s.close ∧ (s.close.FormatsSafe ↔ _)
      cases hcapturing : p.capturing with
      | false =>
          have hclose : s.close = s := if_pos (hworker.trans hcapturing)
          have hnext : p.next .close = p := if_neg (by rw [hcapturing]; simp)
          rw [hclose, hnext]
          exact ⟨⟨hformat, hworker⟩, by simp [Phase.Careful, hcapturing]⟩
      | true =>
          have hclose : s.close = ({ s with worker := false } : SystemAudio).finValues :=
            if_neg (by rw [hworker, hcapturing]; simp)
          have hnext : p.next .close = ⟨p.format.cleaned, false⟩ := if_pos hcapturing
          have hstopped : p.format.Of { s with worker := false } := by
            cases hp : p.format <;> rw [hp] at hformat <;> exact hformat
          obtain ⟨hcleaned, hworker', hsafe⟩ := finValues_spec hstopped
          rw [hclose, hnext, hsafe]
          exact ⟨⟨hcleaned, hworker'⟩, by simp [Phase.Careful, hcapturing, FormatsSafe]⟩
  | getFormat =>
      obtain ⟨huse, hworker', -⟩ := useFormat_spec hformat
      exact ⟨⟨huse, hworker'.trans hworker⟩, safe_useFormat_iff hformat⟩

/-- No block is freed twice, `pwfx` is null or live where the clean-up runs and the getters are
used, and no interface is released twice. -/
structure Released (s : SystemAudio) : Prop where
  formatsOnce : s.formats.freedDead = false
  formatLive : s.misused = false
  interfacesOnce : s.references.freedDead = false

/-- The interfaces are always released once; the format is freed once, and never used after it,
exactly in the runs whose calls are careful. -/
theorem released_iff (calls : List Call) :
    ∃ s, machine.run calls = some s ∧ (Released s ↔ history.Always Phase.Careful calls) := by
  suffices hrun : ∃ s p, machine.run calls = some s ∧ history.run calls = some p ∧ p.Of s ∧
      s.Owned ∧ (s.FormatsSafe ↔ history.Always Phase.Careful calls) by
    obtain ⟨s, p, hs, -, -, howned, hsafe⟩ := hrun
    refine ⟨s, hs, ?_⟩
    rw [← hsafe]
    exact ⟨fun h => ⟨h.formatsOnce, h.formatLive⟩, fun h => ⟨h.1, h.2, howned.2⟩⟩
  induction calls using List.reverseRecOn with
  | nil =>
      refine ⟨{}, {}, rfl, rfl, ⟨rfl, rfl⟩, ⟨⟨?_, ?_, ?_⟩, rfl⟩, ?_⟩
      · exact fun i => Allocations.valid_none _
      · exact fun hp => nomatch hp
      · exact fun hp => nomatch hp
      · exact iff_of_true ⟨rfl, rfl⟩ (Machine.always_nil _)
  | append_singleton calls c ih =>
      obtain ⟨s, p, hs, hp, hof, howned, hsafe⟩ := ih
      obtain ⟨hof', hsafe'⟩ := call_spec hof c
      refine ⟨s.call c, p.next c, Machine.run_concat_eq_some.mpr ⟨s, hs, rfl⟩,
        Machine.run_concat_eq_some.mpr ⟨p, hp, rfl⟩, hof', howned.call c, ?_⟩
      rw [hsafe', hsafe, Machine.always_concat, hp]
      simp only [Option.some.injEq, forall_eq']

/-- A capture, and then an `open` that finds no device enumerator. -/
theorem not_released_reopen :
    ¬ ∀ s, machine.run [.open none, .close, .open (some .coCreateInstance)] = some s →
      Released s := by
  intro h
  exact absurd (h _ rfl).formatsOnce (by decide)

end SystemAudio

end RyuLib
