import RyuLib.Foundations.Allocations
import RyuLib.Socket.Packet

/-!
# DesktopCapture

`start` copies the option it is given and makes a bitmap of its size; the scheduler's thread
then captures into the bitmap and hands it to the `OnData` handler with the size that the
copy says, until `stop`.  The call that is under way goes on.
-/

namespace RyuLib

open Foundations

abbrev bitmapPixelSize : ℤ := 4

abbrev bitmapCellWidth : ℤ := 8

abbrev bitmapCellHeight : ℤ := 2

/-- `tagRECT`. -/
structure Rect where
  left : ℤ
  top : ℤ
  right : ℤ
  bottom : ℤ

structure DesktopCaptureOption where
  targetHandle : ℤ := -1
  left : ℤ := 0
  top : ℤ := 0
  width : ℤ := 0
  height : ℤ := 0
  bitmapWidth : ℤ := 0
  bitmapHeight : ℤ := 0
  bitmapSize : ℤ := 0
  fps : ℤ := 24
  withCursor : Bool := true
  deriving DecidableEq

namespace DesktopCaptureOption

/-- `value` made up to whole cells. -/
def toCells (cell value : ℤ) : ℤ :=
  if value.tmod cell ≠ 0 then toInt (value + (cell - value.tmod cell)) else value

def sizeOf (bitmapWidth bitmapHeight : ℤ) : ℤ :=
  toInt (toInt (bitmapWidth * bitmapHeight) * bitmapPixelSize)

def setLeft (o : DesktopCaptureOption) (value : ℤ) : DesktopCaptureOption :=
  { o with left := value }

def setTop (o : DesktopCaptureOption) (value : ℤ) : DesktopCaptureOption := { o with top := value }

def setWidth (o : DesktopCaptureOption) (value : ℤ) : DesktopCaptureOption :=
  { o with
    width := value
    bitmapWidth := toCells bitmapCellWidth value
    bitmapSize := sizeOf (toCells bitmapCellWidth value) o.bitmapHeight }

def setHeight (o : DesktopCaptureOption) (value : ℤ) : DesktopCaptureOption :=
  { o with
    height := value
    bitmapHeight := toCells bitmapCellHeight value
    bitmapSize := sizeOf o.bitmapWidth (toCells bitmapCellHeight value) }

/-- `rect` is what `GetWindowRect` says about the window. -/
def setTargetHandle (o : DesktopCaptureOption) (value : ℤ) (rect : Rect) : DesktopCaptureOption :=
  let o := { o with targetHandle := value }
  if value = -1 then o
  else (((o.setLeft rect.left).setTop rect.top).setWidth (toInt (rect.right - rect.left))).setHeight
    (toInt (rect.bottom - rect.top))

end DesktopCaptureOption

/-- `started` is the flag of the scheduler, and `repeating` says that its thread has called
`on_repeat` and is not past the handler yet. -/
structure DesktopCapture where
  option : DesktopCaptureOption := {}
  bitmap : Option ℕ := none
  started : Bool := false
  repeating : Bool := false

namespace DesktopCapture

def setOption (c : DesktopCapture) (option : DesktopCaptureOption) : DesktopCapture :=
  { c with option := option }

/-- The bitmap is freed and made anew; `allocated` says that `malloc` does not return NULL,
which it does for a negative size. -/
def replaceBitmap (c : DesktopCapture) (heap : Allocations) (allocated : Bool) :
    Allocations × DesktopCapture :=
  let heap := heap.release c.bitmap
  if allocated = true ∧ 0 ≤ c.option.bitmapSize then
    let (heap, bitmap) := heap.malloc c.option.bitmapSize.toNat
    (heap, { c with bitmap := some bitmap })
  else (heap, { c with bitmap := none })

def startScheduler (c : DesktopCapture) : DesktopCapture := { c with started := true }

def stop (c : DesktopCapture) : DesktopCapture := { c with started := false }

/-- The thread calls `on_repeat`, if it finds the flag set. -/
def beginRepeat (c : DesktopCapture) : Option DesktopCapture :=
  if c.started = true ∧ c.repeating = false then some { c with repeating := true } else none

def endRepeat (c : DesktopCapture) : Option DesktopCapture :=
  if c.repeating = true then some { c with repeating := false } else none

/-- The handler can run, now or as soon as the thread comes to it. -/
def CanRun (c : DesktopCapture) : Prop := c.started = true ∨ c.repeating = true

variable {c c' : DesktopCapture} {heap heap' : Allocations} {allocated : Bool} {p : ℕ}

/-- Only the old bitmap is freed. -/
theorem replaceBitmap_live (h : c.replaceBitmap heap allocated = (heap', c'))
    (hp : p < heap.next) (hne : c.bitmap ≠ some p) : heap'.live p = heap.live p := by
  unfold replaceBitmap at h
  dsimp only at h
  split at h
  · obtain ⟨rfl, rfl⟩ := Prod.mk.inj h
    rw [Allocations.malloc_live_of_lt (by rwa [Allocations.release_next])]
    exact Allocations.release_live_of_ne hne
  · obtain ⟨rfl, rfl⟩ := Prod.mk.inj h
    exact Allocations.release_live_of_ne hne

/-- The new bitmap is null, or the latest allocation. -/
theorem replaceBitmap_bitmap (h : c.replaceBitmap heap allocated = (heap', c')) :
    heap.next ≤ heap'.next ∧ heap'.Valid c'.bitmap ∧
      ∀ b, c'.bitmap = some b → heap.next ≤ b ∧ b < heap'.next := by
  unfold replaceBitmap at h
  dsimp only at h
  split at h
  · obtain ⟨rfl, rfl⟩ := Prod.mk.inj h
    simp only [Allocations.malloc_next, Allocations.malloc_snd, Allocations.release_next,
      Option.some.injEq, forall_eq']
    refine ⟨Nat.le_succ _, ?_, le_rfl, Nat.lt_succ_self _⟩
    intro b hb
    obtain rfl := Option.some.inj hb
    rw [← Allocations.release_next heap c.bitmap, Allocations.malloc_live_self]
    exact Option.some_ne_none _
  · obtain ⟨rfl, rfl⟩ := Prod.mk.inj h
    rw [Allocations.release_next]
    exact ⟨le_rfl, Allocations.valid_none _, fun b hb => nomatch hb⟩

theorem replaceBitmap_freedDead (h : c.replaceBitmap heap allocated = (heap', c'))
    (hvalid : heap.Valid c.bitmap) : heap'.freedDead = heap.freedDead := by
  unfold replaceBitmap at h
  dsimp only at h
  split at h
  · obtain ⟨rfl, rfl⟩ := Prod.mk.inj h
    exact Allocations.release_freedDead hvalid
  · obtain ⟨rfl, rfl⟩ := Prod.mk.inj h
    exact Allocations.release_freedDead hvalid

/-- The rest of the capture stays. -/
theorem replaceBitmap_keeps (h : c.replaceBitmap heap allocated = (heap', c')) :
    c'.option = c.option ∧ c'.started = c.started ∧ c'.repeating = c.repeating := by
  unfold replaceBitmap at h
  dsimp only at h
  split at h
  all_goals
    obtain ⟨rfl, rfl⟩ := Prod.mk.inj h
    exact ⟨rfl, rfl, rfl⟩

end DesktopCapture

end RyuLib
