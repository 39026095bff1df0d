import RyuLib.Capture.DesktopCapture
import RyuLib.Foundations.Machine

/-!
# FFmpegController

`open` frees the frame buffer and makes a new one before it touches the capture, whose
handler copies bitmaps into the buffer on the thread of the scheduler; `close` stops the
capture and keeps the buffer, and the destructor closes and frees.  A point is a place in
one of the three between things that the handler or a later call can see.

* `FFmpegController.valid_iff`: the buffer is valid in every state of a run exactly when it
  is freed only while nobody can use it, and not at all by a failing open.

The audio capture and the pipes are left out but for whether `AudioCapture::start` succeeds.
-/

namespace RyuLib

open Foundations

namespace FFmpegController

/-- Of the options that `open` reads those for the capture, and the rectangle of the window. -/
structure ParsedOptions where
  windowHandle : ℤ := -1
  rect : Rect := ⟨0, 0, 0, 0⟩
  left : ℤ := 0
  top : ℤ := 0
  width : ℤ := 0
  height : ℤ := 0
  withCursor : Bool := false

/-- Where the caller of the controller is: in none of its functions; in `open`, before
`free(video_buffer)`, `malloc`, `audioCapture.start`, and the three statements of
`desktopCapture.start`; in the destructor, before its `free` and before those of the members;
or behind it. -/
inductive Point
  | idle
  | release
  | allocate
  | startAudio
  | setOption
  | replaceBitmap
  | startScheduler
  | destroy
  | destroyMembers
  | gone
  deriving DecidableEq

end FFmpegController

/-- `returned` is what the last `open` returned. -/
structure FFmpegController where
  heap : Allocations := {}
  videoBuffer : Option ℕ := none
  optionDesktop : DesktopCaptureOption := {}
  capture : DesktopCapture := {}
  point : FFmpegController.Point := .idle
  returned : Bool := false

namespace FFmpegController

/-- A call, with what `parseJson` makes of the text; a step further in a call, where `result`
is that of the function called there; or a step of the scheduler's thread. -/
inductive Input
  | openCall (parsed : Option ParsedOptions)
  | closeCall
  | destruct
  | next (result : Bool)
  | beginRepeat
  | endRepeat

def readOptions (o : DesktopCaptureOption) (p : ParsedOptions) : DesktopCaptureOption :=
  let o := o.setTargetHandle p.windowHandle p.rect
  let o := { o with fps := 20 }
  let o := (((o.setLeft p.left).setTop p.top).setWidth p.width).setHeight p.height
  { o with withCursor := p.withCursor }

/-- `malloc` and `memset`.  A negative size is more than `malloc` has, and `memset` writes
through what it returned. -/
def allocate (s : FFmpegController) (allocated : Bool) : Option FFmpegController :=
  if allocated = true then
    if 0 ≤ s.optionDesktop.bitmapSize then
      let (heap, buffer) := s.heap.malloc s.optionDesktop.bitmapSize.toNat
      some { s with heap := heap, videoBuffer := some buffer, point := .startAudio }
    else none
  else if s.optionDesktop.bitmapSize = 0 then
    some { s with videoBuffer := none, point := .startAudio }
  else none

/-- A step further in `open` or in the destructor. -/
def next (s : FFmpegController) (result : Bool) : Option FFmpegController :=
  match s.point with
  | .release => some { s with heap := s.heap.release s.videoBuffer, point := .allocate }
  | .allocate => s.allocate result
  | .startAudio =>
      if result = false then
        some { s with heap := s.heap.release s.videoBuffer, point := .idle, returned := false }
      else some { s with point := .setOption }
  | .setOption =>
      some { s with capture := s.capture.setOption s.optionDesktop, point := .replaceBitmap }
  | .replaceBitmap =>
      let (heap, capture) := s.capture.replaceBitmap s.heap result
      some { s with heap := heap, capture := capture, point := .startScheduler }
  | .startScheduler =>
      some { s with capture := s.capture.startScheduler, point := .idle, returned := true }
  | .destroy => some { s with heap := s.heap.release s.videoBuffer, point := .destroyMembers }
  | .destroyMembers => some { s with heap := s.heap.release s.capture.bitmap, point := .gone }
  | .idle | .gone => none

def step (s : FFmpegController) : Input → Option FFmpegController
  | .openCall parsed =>
      if s.point = .idle then
        match parsed with
        | none => some { s with returned := false }
        | some options =>
            some { s with
              optionDesktop := readOptions s.optionDesktop options
              point := .release }
      else none
  | .closeCall => if s.point = .idle then some { s with capture := s.capture.stop } else none
  | .destruct =>
      if s.point = .idle then some { s with capture := s.capture.stop, point := .destroy } else none
  | .next result => s.next result
  | .beginRepeat => s.capture.beginRepeat.map fun capture => { s with capture := capture }
  | .endRepeat => s.capture.endRepeat.map fun capture => { s with capture := capture }

def machine : Machine FFmpegController Input := ⟨{}, step⟩

/-- The controller has just freed the buffer and is about to set it anew, or its lifetime is
over. -/
def Point.between : Point → Bool
  | .allocate | .destroyMembers | .gone => true
  | _ => false

/-- The buffer is null or a live allocation, nothing was freed twice, and what the handler
copies fits. -/
structure Valid (s : FFmpegController) : Prop where
  buffer : s.point.between = false → s.heap.Valid s.videoBuffer
  freedOnce : s.heap.freedDead = false
  fits : s.capture.CanRun → s.capture.option.bitmapSize ≤ s.heap.bytes s.videoBuffer

/-- The handler cannot run, or copies nothing. -/
def Quiet (s : FFmpegController) : Prop := s.capture.CanRun → s.capture.option.bitmapSize ≤ 0

/-- An `open` and the destructor come to their `free` when the handler is quiet, and
`audioCapture.start` succeeds, unless there is no buffer. -/
def Careful (s : FFmpegController) : Input → Prop
  | .next result =>
      match s.point with
      | .release | .destroy => s.Quiet
      | .startAudio => result = true ∨ s.videoBuffer = none
      | _ => True
  | _ => True

/-! ## What holds in every run -/

/-- The points of `open` behind `malloc`, up to the copy of the option. -/
def Point.sized : Point → Bool
  | .startAudio | .setOption => true
  | _ => false

/-- The points behind the copy. -/
def Point.copied : Point → Bool
  | .replaceBitmap | .startScheduler => true
  | _ => false

/-- The buffer and the bitmap of the capture are two allocations, the bitmap is live, and an
`open` that has made a buffer has made it as large as its option says. -/
structure Owned (s : FFmpegController) : Prop where
  bufferOld : ∀ p, s.videoBuffer = some p → p < s.heap.next
  bitmapOld : ∀ p, s.capture.bitmap = some p → p < s.heap.next
  apart : ∀ p, s.videoBuffer = some p → s.capture.bitmap ≠ some p
  bitmap : s.point ≠ .gone → s.heap.Valid s.capture.bitmap
  sized : s.point.sized = true → s.optionDesktop.bitmapSize = s.heap.bytes s.videoBuffer
  copied : s.point.copied = true → s.capture.option.bitmapSize = s.heap.bytes s.videoBuffer
  released : s.point = .allocate → s.heap.bytes s.videoBuffer = 0

section

variable {s s' : FFmpegController} {inputs : List Input} {result : Bool}

/-- How `open` and the destructor proceed from each of their points. -/
inductive Proceeds (s : FFmpegController) (result : Bool) : FFmpegController → Prop
  | release (hpoint : s.point = .release) :
      Proceeds s result { s with heap := s.heap.release s.videoBuffer, point := .allocate }
  | allocate {s' : FFmpegController} (hpoint : s.point = .allocate)
      (hstep : s.allocate result = some s') : Proceeds s result s'
  | startFailed (hpoint : s.point = .startAudio) (hresult : result = false) :
      Proceeds s result
        { s with heap := s.heap.release s.videoBuffer, point := .idle, returned := false }
  | started (hpoint : s.point = .startAudio) (hresult : result = true) :
      Proceeds s result { s with point := .setOption }
  | setOption (hpoint : s.point = .setOption) :
      Proceeds s result
        { s with capture := s.capture.setOption s.optionDesktop, point := .replaceBitmap }
  | replaceBitmap {heap : Allocations} {capture : DesktopCapture}
      (hpoint : s.point = .replaceBitmap)
      (hreplace : s.capture.replaceBitmap s.heap result = (heap, capture)) :
      Proceeds s result { s with heap := heap, capture := capture, point := .startScheduler }
  | startScheduler (hpoint : s.point = .startScheduler) :
      Proceeds s result
        { s with capture := s.capture.startScheduler, point := .idle, returned := true }
  | destroy (hpoint : s.point = .destroy) :
      Proceeds s result { s with heap := s.heap.release s.videoBuffer, point := .destroyMembers }
  | destroyMembers (hpoint : s.point = .destroyMembers) :
      Proceeds s result { s with heap := s.heap.release s.capture.bitmap, point := .gone }

theorem next_proceeds (hstep : s.next result = some s') : s.Proceeds result s' := by
  unfold FFmpegController.next at hstep
  split at hstep
  · rename_i hpoint
    obtain rfl := Option.some.inj hstep
    exact .release hpoint
  · rename_i hpoint
    exact .allocate hpoint hstep
  · rename_i hpoint
    split at hstep
    · rename_i hfailed
      obtain rfl := Option.some.inj hstep
      exact .startFailed hpoint hfailed
    · rename_i hstarted
      obtain rfl := Option.some.inj hstep
      exact .started hpoint (Bool.of_not_eq_false hstarted)
  · rename_i hpoint
    obtain rfl := Option.some.inj hstep
    exact .setOption hpoint
  · rename_i hpoint
    obtain rfl := Option.some.inj hstep
    exact .replaceBitmap hpoint rfl
  · rename_i hpoint
    obtain rfl := Option.some.inj hstep
    exact .startScheduler hpoint
  · rename_i hpoint
    obtain rfl := Option.some.inj hstep
    exact .destroy hpoint
  · rename_i hpoint
    obtain rfl := Option.some.inj hstep
    exact .destroyMembers hpoint
  · cases hstep
  · cases hstep

/-- A step that changes neither the heap nor a pointer, and comes to no point of `open` behind
`malloc`. -/
theorem Owned.stay (h : s.Owned) (hheap : s'.heap = s.heap)
    (hbuffer : s'.videoBuffer = s.videoBuffer) (hbitmap : s'.capture.bitmap = s.capture.bitmap)
    (hgone : s'.point ≠ .gone → s.point ≠ .gone)
    (hsized : s'.point.sized = true → s'.optionDesktop.bitmapSize = s.heap.bytes s.videoBuffer)
    (hcopied : s'.point.copied = true →
      s'.capture.option.bitmapSize = s.heap.bytes s.videoBuffer)
    (hreleased : s'.point = .allocate → s.point = .allocate) : s'.Owned where
  bufferOld := by
    rw [hheap, hbuffer]
    exact h.bufferOld
  bitmapOld := by
    rw [hheap, hbitmap]
    exact h.bitmapOld
  apart := by
    rw [hbuffer, hbitmap]
    exact h.apart
  bitmap := by
    rw [hheap, hbitmap]
    exact fun hne => h.bitmap (hgone hne)
  sized := by
    rw [hheap, hbuffer]
    exact hsized
  copied := by
    rw [hheap, hbuffer]
    exact hcopied
  released := by
    rw [hheap, hbuffer]
    exact fun hpoint => h.released (hreleased hpoint)

/-- The buffer is freed, at a point of `open` in front of `malloc` or outside of it. -/
theorem Owned.release (h : s.Owned) {point : Point} {returned : Bool} (hgone : s.point ≠ .gone)
    (hsized : point.sized = false) (hcopied : point.copied = false) :
    { s with
      heap := s.heap.release s.videoBuffer, point := point, returned := returned }.Owned where
  bufferOld := by
    rw [Allocations.release_next]
    exact h.bufferOld
  bitmapOld := by
    rw [Allocations.release_next]
    exact h.bitmapOld
  apart := h.apart
  bitmap _ := (h.bitmap hgone).congr fun p hp => Allocations.release_live_of_ne fun hbuffer =>
    h.apart p hbuffer hp
  sized hpoint := absurd (hsized.symm.trans hpoint) Bool.false_ne_true
  copied hpoint := absurd (hcopied.symm.trans hpoint) Bool.false_ne_true
  released _ := Allocations.bytes_release _ _

theorem Owned.allocate (h : s.Owned) (hgone : s.point ≠ .gone)
    (hstep : s.allocate result = some s') : s'.Owned := by
  unfold FFmpegController.allocate at hstep
  split at hstep
  · split at hstep
    · rename_i hsize
      obtain rfl := Option.some.inj hstep
      refine ⟨?_, ?_, ?_, ?_, ?_, fun hpoint => (nomatch hpoint), fun hpoint => (nomatch hpoint)⟩
      · intro p hp
        obtain rfl := Option.some.inj hp
        exact Nat.lt_succ_self _
      · intro p hp
        exact Nat.lt_succ_of_lt (h.bitmapOld p hp)
      · intro p hp hbitmap
        obtain rfl := Option.some.inj hp
        exact absurd (h.bitmapOld _ hbitmap) (lt_irrefl _)
      · intro _
        exact (h.bitmap hgone).congr fun p hp => Allocations.malloc_live_of_lt (h.bitmapOld p hp)
      · intro _
        show _ = ((((s.heap.malloc _).1.live s.heap.next).getD 0 : ℕ) : ℤ)
        rw [Allocations.malloc_live_self, Option.getD_some, Int.toNat_of_nonneg hsize]
    · cases hstep
  · obtain ⟨hzero, hsame⟩ := Option.ite_none_right_eq_some.mp hstep
    obtain rfl := Option.some.inj hsame
    exact ⟨fun p hp => (nomatch hp), h.bitmapOld, fun p hp => (nomatch hp),
      fun _ => h.bitmap hgone, fun _ => hzero, fun hpoint => (nomatch hpoint),
      fun hpoint => (nomatch hpoint)⟩

/-- The new bitmap is an allocation of its own. -/
theorem Owned.replaceBitmap (h : s.Owned) (hpoint : s.point = .replaceBitmap) {heap : Allocations}
    {capture : DesktopCapture}
    (hreplace : s.capture.replaceBitmap s.heap result = (heap, capture)) :
    { s with heap := heap, capture := capture, point := .startScheduler }.Owned ∧
      heap.bytes s.videoBuffer = s.heap.bytes s.videoBuffer := by
  obtain ⟨hnext, hvalid, hbitmap⟩ := DesktopCapture.replaceBitmap_bitmap hreplace
  have hbytes : heap.bytes s.videoBuffer = s.heap.bytes s.videoBuffer :=
    Allocations.bytes_congr fun p hp =>
      DesktopCapture.replaceBitmap_live hreplace (h.bufferOld p hp) (h.apart p hp)
  refine ⟨⟨?_, fun b hb => (hbitmap b hb).2, ?_, fun _ => hvalid, fun hne => (nomatch hne), ?_,
    fun hne => (nomatch hne)⟩, hbytes⟩
  · intro p hp
    exact (h.bufferOld p hp).trans_le hnext
  · intro p hp hb
    exact absurd (h.bufferOld p hp) (hbitmap p hb).1.not_gt
  · intro _
    show capture.option.bitmapSize = (heap.bytes s.videoBuffer : ℤ)
    rw [hbytes, (DesktopCapture.replaceBitmap_keeps hreplace).1]
    exact h.copied (by rw [hpoint]; rfl)

theorem Owned.next (h : s.Owned) (hstep : s.next result = some s') : s'.Owned := by
  cases next_proceeds hstep with
  | release hpoint => exact h.release (by rw [hpoint]; decide) rfl rfl
  | allocate hpoint hstep => exact h.allocate (by rw [hpoint]; decide) hstep
  | startFailed hpoint => exact h.release (by rw [hpoint]; decide) rfl rfl
  | started hpoint =>
      exact h.stay rfl rfl rfl (fun _ => by rw [hpoint]; decide)
        (fun _ => h.sized (by rw [hpoint]; rfl)) (fun hne => (nomatch hne))
        fun hne => (nomatch hne)
  | setOption hpoint =>
      exact h.stay rfl rfl rfl (fun _ => by rw [hpoint]; decide) (fun hne => (nomatch hne))
        (fun _ => h.sized (by rw [hpoint]; rfl)) fun hne => (nomatch hne)
  | replaceBitmap hpoint hreplace => exact (h.replaceBitmap hpoint hreplace).1
  | startScheduler hpoint =>
      exact h.stay rfl rfl rfl (fun _ => by rw [hpoint]; decide) (fun hne => (nomatch hne))
        (fun hne => (nomatch hne)) fun hne => (nomatch hne)
  | destroy hpoint => exact h.release (by rw [hpoint]; decide) rfl rfl
  | destroyMembers hpoint =>
      refine ⟨?_, ?_, h.apart, fun hne => absurd rfl hne, fun hne => (nomatch hne),
        fun hne => (nomatch hne), fun hne => (nomatch hne)⟩
      · rw [Allocations.release_next]
        exact h.bufferOld
      · rw [Allocations.release_next]
        exact h.bitmapOld

/-- What the calls and the thread change beside `next`: nothing of the heap and the pointers. -/
theorem step_cases {input : Input} (hstep : s.step input = some s') :
    (∃ result, input = .next result ∧ s.next result = some s') ∨
      (∀ result, input ≠ .next result) ∧ s'.heap = s.heap ∧ s'.videoBuffer = s.videoBuffer ∧
        s'.capture.bitmap = s.capture.bitmap ∧ s'.capture.option = s.capture.option ∧
        (s'.capture.CanRun → s.capture.CanRun) ∧
        (s'.point = s.point ∧ s'.optionDesktop = s.optionDesktop ∨
          s.point = .idle ∧ (s'.point = .release ∨ s'.point = .destroy)) := by
  cases input with
  | next result => exact Or.inl ⟨result, rfl, hstep⟩
  | openCall parsed =>
      obtain ⟨hidle, hrest⟩ := Option.ite_none_right_eq_some.mp hstep
      refine Or.inr ⟨fun _ hne => (nomatch hne), ?_⟩
      cases parsed with
      | none =>
          obtain rfl := Option.some.inj hrest
          exact ⟨rfl, rfl, rfl, rfl, id, Or.inl ⟨rfl, rfl⟩⟩
      | some options =>
          obtain rfl := Option.some.inj hrest
          exact ⟨rfl, rfl, rfl, rfl, id, Or.inr ⟨hidle, Or.inl rfl⟩⟩
  | closeCall =>
      obtain ⟨-, hrest⟩ := Option.ite_none_right_eq_some.mp hstep
      obtain rfl := Option.some.inj hrest
      exact Or.inr ⟨fun _ hne => (nomatch hne), rfl, rfl, rfl, rfl,
        fun hrun => Or.inr (hrun.resolve_left Bool.false_ne_true), Or.inl ⟨rfl, rfl⟩⟩
  | destruct =>
      obtain ⟨hidle, hrest⟩ := Option.ite_none_right_eq_some.mp hstep
      obtain rfl := Option.some.inj hrest
      exact Or.inr ⟨fun _ hne => (nomatch hne), rfl, rfl, rfl, rfl,
        fun hrun => Or.inr (hrun.resolve_left Bool.false_ne_true), Or.inr ⟨hidle, Or.inr rfl⟩⟩
  | beginRepeat =>
      obtain ⟨capture, hbegin, rfl⟩ := Option.map_eq_some_iff.mp hstep
      obtain ⟨⟨hstarted, -⟩, hsame⟩ := Option.ite_none_right_eq_some.mp hbegin
      obtain rfl := Option.some.inj hsame
      exact Or.inr ⟨fun _ hne => (nomatch hne), rfl, rfl, rfl, rfl, fun _ => Or.inl hstarted,
        Or.inl ⟨rfl, rfl⟩⟩
  | endRepeat =>
      obtain ⟨capture, hend, rfl⟩ := Option.map_eq_some_iff.mp hstep
      obtain ⟨-, hsame⟩ := Option.ite_none_right_eq_some.mp hend
      obtain rfl := Option.some.inj hsame
      exact Or.inr ⟨fun _ hne => (nomatch hne), rfl, rfl, rfl, rfl,
        fun hrun => Or.inl (hrun.resolve_right Bool.false_ne_true), Or.inl ⟨rfl, rfl⟩⟩

theorem Owned.step (h : s.Owned) {input : Input} (hstep : s.step input = some s') : s'.Owned := by
  rcases step_cases hstep with ⟨result, -, hnext⟩ | ⟨-, hheap, hbuffer, hbitmap, hoption, -, hpoint⟩
  · exact h.next hnext
  · rcases hpoint with ⟨hsame, hdesktop⟩ | ⟨hidle, hpoint⟩
    · apply h.stay hheap hbuffer hbitmap
      · exact fun hgone => hsame ▸ hgone
      · rw [hsame, hdesktop]
        exact h.sized
      · rw [hsame, hoption]
        exact h.copied
      · exact fun hallocate => hsame ▸ hallocate
    · apply h.stay hheap hbuffer hbitmap
      · intro _
        rw [hidle]
        decide
      all_goals
        rcases hpoint with hpoint | hpoint <;> rw [hpoint] <;> intro hne <;> cases hne

theorem owned_run (hrun : machine.run inputs = some s) : s.Owned := by
  refine Machine.invariant (M := machine) ?_ (fun s i s' h hstep => h.step hstep) hrun
  exact ⟨fun p hp => (nomatch hp), fun p hp => (nomatch hp), fun p hp => (nomatch hp),
    fun _ => Allocations.valid_none _, fun hne => (nomatch hne), fun hne => (nomatch hne),
    fun hne => (nomatch hne)⟩

/-! ## Validity -/

/-- A step that changes neither the heap nor the buffer, and lets the handler run only with the
bytes there are. -/
theorem Valid.stay (h : s.Valid) (hheap : s'.heap = s.heap)
    (hbuffer : s'.videoBuffer = s.videoBuffer)
    (hpoint : s'.point.between = false → s.point.between = false)
    (hfits : s'.capture.CanRun →
      s'.capture.option.bitmapSize ≤ s.heap.bytes s.videoBuffer) : s'.Valid where
  buffer := by
    rw [hheap, hbuffer]
    exact fun hbetween => h.buffer (hpoint hbetween)
  freedOnce := by
    rw [hheap]
    exact h.freedOnce
  fits := by
    rw [hheap, hbuffer]
    exact hfits

/-- The buffer is freed. -/
theorem Valid.release (h : s.Valid) (hbetween : s.point.between = false) {point : Point}
    (hpoint : point.between = true) :
    { s with heap := s.heap.release s.videoBuffer, point := point }.Valid ↔ s.Quiet := by
  constructor
  · intro hafter hrun
    have hfits := hafter.fits hrun
    rwa [Allocations.bytes_release] at hfits
  · intro hquiet
    refine ⟨fun hne => absurd (hpoint.symm.trans hne) Bool.true_eq_false.mp, ?_, ?_⟩
    · exact (Allocations.release_freedDead (h.buffer hbetween)).trans h.freedOnce
    · intro hrun
      show _ ≤ (((s.heap.release s.videoBuffer).bytes s.videoBuffer : ℕ) : ℤ)
      rw [Allocations.bytes_release]
      exact hquiet hrun

/-- An `open` that fails frees the buffer and keeps the pointer. -/
theorem Valid.fail (h : s.Valid) (hbetween : s.point.between = false) :
    { s with
      heap := s.heap.release s.videoBuffer, point := .idle, returned := false }.Valid ↔
        s.videoBuffer = none := by
  constructor
  · intro hafter
    cases hbuffer : s.videoBuffer with
    | none => rfl
    | some p =>
        have hlive := hafter.buffer rfl p hbuffer
        rw [hbuffer] at hlive
        exact absurd (Allocations.free_live_self s.heap p) hlive
  · intro hnone
    refine h.stay ?_ rfl (fun _ => hbetween) h.fits
    rw [hnone]
    rfl

theorem Valid.allocate (h : s.Valid) (howned : s.Owned) (hpoint : s.point = .allocate)
    (hstep : s.allocate result = some s') : s'.Valid := by
  have hfits := h.fits
  rw [howned.released hpoint] at hfits
  unfold FFmpegController.allocate at hstep
  split at hstep
  · split at hstep
    · obtain rfl := Option.some.inj hstep
      refine ⟨?_, h.freedOnce, fun hrun => (hfits hrun).trans (Nat.cast_nonneg _)⟩
      intro _ p hp
      obtain rfl := Option.some.inj hp
      show (s.heap.malloc _).1.live s.heap.next ≠ none
      rw [Allocations.malloc_live_self]
      exact Option.some_ne_none _
    · cases hstep
  · obtain ⟨-, hsame⟩ := Option.ite_none_right_eq_some.mp hstep
    obtain rfl := Option.some.inj hsame
    exact ⟨fun _ => Allocations.valid_none _, h.freedOnce, hfits⟩

theorem Valid.next (h : s.Valid) (howned : s.Owned) (hstep : s.next result = some s') :
    s'.Valid ↔ s.Careful (.next result) := by
  cases next_proceeds hstep with
  | release hpoint =>
      rw [Careful, hpoint]
      exact h.release (by rw [hpoint]; rfl) rfl
  | allocate hpoint hstep =>
      rw [Careful, hpoint]
      exact iff_of_true (h.allocate howned hpoint hstep) trivial
  | startFailed hpoint hresult =>
      rw [Careful, hpoint, h.fail (by rw [hpoint]; rfl), hresult]
      simp
  | started hpoint hresult =>
      rw [Careful, hpoint]
      exact iff_of_true (h.stay rfl rfl (fun _ => by rw [hpoint]; rfl) h.fits) (Or.inl hresult)
  | setOption hpoint =>
      rw [Careful, hpoint]
      refine iff_of_true (h.stay rfl rfl (fun _ => by rw [hpoint]; rfl) fun _ => ?_) trivial
      exact (howned.sized (by rw [hpoint]; rfl)).le
  | replaceBitmap hpoint hreplace =>
      rw [Careful, hpoint]
      refine iff_of_true ⟨fun _ => ?_, ?_, ?_⟩ trivial
      · exact (h.buffer (by rw [hpoint]; rfl)).congr fun p hp =>
          DesktopCapture.replaceBitmap_live hreplace (howned.bufferOld p hp) (howned.apart p hp)
      · rw [← h.freedOnce]
        exact DesktopCapture.replaceBitmap_freedDead hreplace
          (howned.bitmap (by rw [hpoint]; decide))
      · intro hrun
        obtain ⟨hoption, hstarted, hrepeating⟩ := DesktopCapture.replaceBitmap_keeps hreplace
        have hbytes := (howned.replaceBitmap hpoint hreplace).2
        dsimp only at hrun ⊢
        rw [hbytes, hoption]
        unfold DesktopCapture.CanRun at hrun
        rw [hstarted, hrepeating] at hrun
        exact h.fits hrun
  | startScheduler hpoint =>
      rw [Careful, hpoint]
      refine iff_of_true (h.stay rfl rfl (fun _ => by rw [hpoint]; rfl) fun _ => ?_) trivial
      exact (howned.copied (by rw [hpoint]; rfl)).le
  | destroy hpoint =>
      rw [Careful, hpoint]
      exact h.release (by rw [hpoint]; rfl) rfl
  | destroyMembers hpoint =>
      rw [Careful, hpoint]
      refine iff_of_true ⟨fun hne => (nomatch hne), ?_, ?_⟩ trivial
      · rw [← h.freedOnce]
        exact Allocations.release_freedDead (howned.bitmap (by rw [hpoint]; decide))
      · intro hrun
        have hbytes : (s.heap.release s.capture.bitmap).bytes s.videoBuffer =
            s.heap.bytes s.videoBuffer := Allocations.bytes_congr fun p hp =>
              Allocations.release_live_of_ne (howned.apart p hp)
        show _ ≤ (((s.heap.release s.capture.bitmap).bytes s.videoBuffer : ℕ) : ℤ)
        rw [hbytes]
        exact h.fits hrun

theorem Valid.step (h : s.Valid) (howned : s.Owned) {input : Input}
    (hstep : s.step input = some s') : s'.Valid ↔ s.Careful input := by
  rcases step_cases hstep with ⟨result, rfl, hnext⟩ |
    ⟨hother, hheap, hbuffer, -, hoption, hrun, hpoint⟩
  · exact h.next howned hnext
  · have hcareful : s.Careful input := by
      cases input with
      | next result => exact absurd rfl (hother result)
      | _ => trivial
    refine iff_of_true (h.stay hheap hbuffer ?_ ?_) hcareful
    · rcases hpoint with ⟨hsame, -⟩ | ⟨hidle, -⟩
      · rw [hsame]
        exact id
      · intro _
        rw [hidle]
        rfl
    · rw [hoption]
      exact fun hcan => h.fits (hrun hcan)

end

/-- In every run of calls and of the scheduler's thread, the buffer is valid throughout if and
only if each `open` that has options and the destructor free it when the handler is quiet, and
no `audioCapture.start` fails. -/
theorem valid_iff {inputs : List Input} {s : FFmpegController}
    (hrun : machine.run inputs = some s) :
    machine.Throughout Valid inputs ↔ machine.Always Careful inputs := by
  refine Machine.throughout_iff_always (M := machine) ?_ ?_ hrun
  · exact ⟨fun _ => Allocations.valid_none _, rfl, fun hrun => hrun.elim (nomatch ·) (nomatch ·)⟩
  · intro inputs s i s' hrun hthroughout _ hstep
    exact (hthroughout.last hrun).step (owned_run hrun) hstep

/-- A capture of 16 by 2 pixels, and a second `open` while it runs. -/
theorem valid_iff_twice :
    machine.Throughout Valid [.openCall (some { width := 16, height := 2 }), .next true,
        .next true, .next true, .next true, .next true, .next true, .beginRepeat,
        .openCall (some { width := 8, height := 2 }), .next true] ↔
      machine.Always Careful [.openCall (some { width := 16, height := 2 }), .next true,
        .next true, .next true, .next true, .next true, .next true, .beginRepeat,
        .openCall (some { width := 8, height := 2 }), .next true] :=
  valid_iff rfl

/-- After a failing `open` the buffer points to what is freed. -/
theorem not_valid_failed :
    ¬ ∀ (inputs : List Input) (s : FFmpegController), machine.run inputs = some s → s.Valid := by
  intro h
  have hvalid := h [.openCall (some { width := 16, height := 2 }), .next true, .next true,
    .next false] _ rfl
  exact hvalid.buffer rfl 0 rfl rfl

end FFmpegController

end RyuLib
