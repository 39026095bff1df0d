import RyuLib.Foundations.Allocations
import RyuLib.Foundations.Machine
import RyuLib.Video.ArgbPicture
import RyuLib.Video.VideoUnZip

/-!
# A VideoUnZip from its construction on

`open`, `refresh`, `close` and `decode` in any order.  `open` and `close` go by `is_opened_`,
and `decode` does not: it hands records to whatever `codec_` holds and draws into whatever
`bitmap_` points to.  `refresh` makes a decoder in `codec_` and asks neither whether there is
one already nor whether the object is open.

* `VideoUnZip.draws_iff`: when the bytes of a picture are all written to live memory.
* `VideoUnZip.givesBack_iff`: `close` leaves nothing behind exactly where no `refresh` has
  taken the decoder of an open object or made one for an object that is not open.
* `VideoUnZip.shows_of_run`: the bitmap shows what a new decoder would make of the records
  since the last one was made.  A picture is drawn also where it does not fit the bitmap:
  whether it does is left to `draws_iff`.
-/

namespace RyuLib

open Foundations YuvTools

/-- The decoder of the codec library.  `vpx_codec_decode` changes the context and refuses the
bytes, or `vpx_codec_get_frame` then returns these pictures one after the other. -/
structure VpxDecoder (κ : Type*) where
  contextSize : ℕ
  decode : κ → List UInt8 → κ × Option (List Source)

/-- The context and the pictures after these records. -/
def VpxDecoder.watch {κ : Type*} (V : VpxDecoder κ) (context : κ) :
    List (List UInt8) → κ × List Source
  | [] => (context, [])
  | record :: records =>
      let next := V.watch (V.decode context record).1 records
      (next.1, (V.decode context record).2.getD [] ++ next.2)

/-- `codec_` with a decoder in it.  `made` is what `vpx_codec_dec_init` made, and `handed` what
`vpx_codec_decode` has been given since. -/
structure CodecContext (κ : Type*) where
  pointer : ℕ
  context : κ
  made : κ
  handed : List (List UInt8) := []

/-- What `bitmap_` points to, with the values that were there at first, and the pictures that
were drawn since. -/
structure UnZipBitmap where
  pointer : ℕ
  pixels : ℤ → UInt8
  blank : ℤ → UInt8
  drawn : List Source := []

def UnZipBitmap.draw (b : UnZipBitmap) (S : Source) : UnZipBitmap :=
  { b with pixels := S.toARGB (S.width * 4) b.pixels, drawn := b.drawn ++ [S] }

/-- `createVideoUnZip` starts with zeros: `codec_` holds no decoder and `bitmap_` is null. -/
structure VideoUnZip (κ : Type*) where
  bitmap : Option UnZipBitmap := none
  width : ℤ := 0
  height : ℤ := 0
  codec : Option (CodecContext κ) := none
  isOpened : Bool := false
  heap : Allocations := {}

namespace VideoUnZip

/-- `width * height * PIXEL_SIZE` as an `int`, and then as a `size_t`. -/
def bitmapBytes (width height : ℤ) : ℕ :=
  (toInt (toInt (width * height) * 4) % 2 ^ 64).toNat

/-- The bytes from the first to the last that a picture is drawn to. -/
def pictureBytes (S : Source) : ℕ :=
  (S.height + 1) / 2 * (8 * ((S.width + 1) / 2) + 4 * S.width)

variable {κ : Type*} (V : VpxDecoder κ)

def codecPointer (z : VideoUnZip κ) : Option ℕ := z.codec.map (·.pointer)

def bitmapPointer (z : VideoUnZip κ) : Option ℕ := z.bitmap.map (·.pointer)

/-- `vpx_codec_dec_init`, which clears `codec_` first. -/
def decInit (z : VideoUnZip κ) : Option κ → VideoUnZip κ
  | some context =>
      { z with
        heap := (z.heap.malloc V.contextSize).1
        codec := some
          { pointer := (z.heap.malloc V.contextSize).2, context := context, made := context } }
  | none => { z with codec := none }

/-- `vpx_codec_destroy` does nothing without a decoder. -/
def close (z : VideoUnZip κ) : VideoUnZip κ :=
  if z.isOpened then
    { z with
      isOpened := false
      heap := (z.heap.release z.codecPointer).release z.bitmapPointer
      codec := none }
  else z

/-- `malloc` in `open`: `memory` is what it finds there, if anything. -/
def mallocBitmap (z : VideoUnZip κ) : Option (ℤ → UInt8) → VideoUnZip κ
  | some memory =>
      { z with
        heap := (z.heap.malloc (bitmapBytes z.width z.height)).1
        bitmap := some
          { pointer := (z.heap.malloc (bitmapBytes z.width z.height)).2
            pixels := memory
            blank := memory }
        isOpened := true }
  | none => { z with bitmap := none, isOpened := true }

/-- `open`; `context` is what `vpx_codec_dec_init` makes, if it succeeds. -/
def openVideoUnZip (z : VideoUnZip κ) (width height : ℤ) (context : Option κ)
    (memory : Option (ℤ → UInt8)) : Bool × VideoUnZip κ :=
  let z := decInit V { z.close with width := width, height := height } context
  if context.isSome then (true, z.mallocBitmap memory) else (false, z)

def refresh (z : VideoUnZip κ) (context : Option κ) : VideoUnZip κ := decInit V z context

/-- `I420ToARGB` returns at once where `bitmap_` is null. -/
def draw (z : VideoUnZip κ) (S : Source) : VideoUnZip κ :=
  { z with bitmap := z.bitmap.map fun b => b.draw S }

/-- A record is handed to the codec and its pictures are drawn; the result says that the codec
has refused it, as it does without a decoder. -/
def hand (z : VideoUnZip κ) (record : List UInt8) : Bool × VideoUnZip κ :=
  match z.codec with
  | none => (true, z)
  | some c =>
      let z' := { z with
        codec := some
          { c with
            context := (V.decode c.context record).1
            handed := c.handed ++ [record] } }
      match (V.decode c.context record).2 with
      | none => (true, z')
      | some pictures => (false, pictures.foldl draw z')

/-- The loop of `decode` and the object it works on. -/
structure Pass (κ : Type*) where
  loop : Decoding := {}
  object : VideoUnZip κ

/-- `decode` on the memory around `data`; the codec takes the length as unsigned. -/
def pass (memory : ℤ → UInt8) (size : ℤ) : Loop (Pass κ) where
  done s := s.loop.result.isSome
  body s :=
    if s.loop.count < size then
      let length := intAt (bytesAt memory s.loop.frame sizeofInt)
      let answer := s.object.hand V
        (bytesAt memory (s.loop.frame + sizeofInt) (length % 2 ^ 32).toNat)
      { loop := readFrame s.loop length answer.1, object := answer.2 }
    else { s with loop := { s.loop with result := some true } }

/-- A call, with what the codec library and `malloc` answer.  `rounds` is how often the loop
of `decode` goes round. -/
inductive Input (κ : Type*)
  | openVideoUnZip (width height : ℤ) (context : Option κ) (memory : Option (ℤ → UInt8))
  | refresh (context : Option κ)
  | close
  | decode (memory : ℤ → UInt8) (size : ℤ) (rounds : ℕ)

/-- A `decode` whose loop does not end is not a step. -/
def step (z : VideoUnZip κ) : Input κ → Option (VideoUnZip κ)
  | .openVideoUnZip width height context memory =>
      some (z.openVideoUnZip V width height context memory).2
  | .refresh context => some (z.refresh V context)
  | .close => some z.close
  | .decode memory size rounds =>
      let s := (pass V memory size).after rounds { object := z }
      if s.loop.result.isSome then some s.object else none

def machine : Machine (VideoUnZip κ) (Input κ) where
  init := {}
  step := step V

/-- A decoder that makes a white picture of two by two pixels of every record. -/
def whitePictures : VpxDecoder Unit where
  contextSize := 1
  decode _ _ := ((), some [whiteSource 2 2])

/-- `open` for two by two pixels. -/
def openTwoByTwo : Input Unit := .openVideoUnZip 2 2 (some ()) (some fun _ => 0)

variable {V} {z z' : VideoUnZip κ}

/-! ## What decode leaves alone -/

/-- The calls that `decode` makes change what the memory holds and what the decoder knows, and
no pointer. -/
structure SamePointers (z z' : VideoUnZip κ) : Prop where
  codec : z'.codecPointer = z.codecPointer
  bitmap : z'.bitmapPointer = z.bitmapPointer
  width : z'.width = z.width
  height : z'.height = z.height
  isOpened : z'.isOpened = z.isOpened
  heap : z'.heap = z.heap

theorem SamePointers.refl (z : VideoUnZip κ) : SamePointers z z := ⟨rfl, rfl, rfl, rfl, rfl, rfl⟩

theorem SamePointers.trans {z'' : VideoUnZip κ} (h : SamePointers z z')
    (h' : SamePointers z' z'') : SamePointers z z'' :=
  ⟨h'.codec.trans h.codec, h'.bitmap.trans h.bitmap, h'.width.trans h.width,
    h'.height.trans h.height, h'.isOpened.trans h.isOpened, h'.heap.trans h.heap⟩

/-- Pictures are drawn into the bitmap one after the other. -/
theorem foldl_draw (pictures : List Source) (z : VideoUnZip κ) :
    pictures.foldl draw z =
      { z with bitmap := z.bitmap.map fun b => pictures.foldl UnZipBitmap.draw b } := by
  induction pictures generalizing z with
  | nil =>
      obtain ⟨bitmap, -⟩ := z
      simp
  | cons S pictures ih =>
      rw [List.foldl_cons, ih, draw, Option.map_map]
      rfl

theorem pointer_foldl_draw (pictures : List Source) (b : UnZipBitmap) :
    (pictures.foldl UnZipBitmap.draw b).pointer = b.pointer := by
  induction pictures generalizing b with
  | nil => rfl
  | cons S pictures ih => exact ih (b.draw S)

/-- With a decoder, the record is handed to it, and the pictures it gives are drawn. -/
theorem hand_of_codec {c : CodecContext κ} (hcodec : z.codec = some c) (record : List UInt8) :
    (z.hand V record).1 = (V.decode c.context record).2.isNone ∧
      (z.hand V record).2 =
        { z with
          codec := some
            { c with
              context := (V.decode c.context record).1
              handed := c.handed ++ [record] }
          bitmap := z.bitmap.map fun b =>
            ((V.decode c.context record).2.getD []).foldl UnZipBitmap.draw b } := by
  unfold hand
  rw [hcodec]
  cases hanswer : (V.decode c.context record).2 with
  | none => cases z.bitmap <;> simp [hanswer]
  | some pictures => simp [hanswer, foldl_draw]

theorem hand_of_none (hcodec : z.codec = none) (record : List UInt8) :
    z.hand V record = (true, z) := by
  unfold hand
  rw [hcodec]

theorem hand_samePointers (z : VideoUnZip κ) (record : List UInt8) :
    SamePointers z (z.hand V record).2 := by
  cases hcodec : z.codec with
  | none =>
      rw [hand_of_none hcodec]
      exact .refl z
  | some c =>
      rw [(hand_of_codec hcodec record).2]
      refine ⟨?_, ?_, rfl, rfl, rfl, rfl⟩
      · simp [codecPointer, hcodec]
      · simp [bitmapPointer, Function.comp_def, pointer_foldl_draw]

/-- What every record that is handed over preserves, the loop of `decode` does. -/
theorem pass_keeps {I : VideoUnZip κ → Prop} (hhand : ∀ z record, I z → I (z.hand V record).2)
    (memory : ℤ → UInt8) (size : ℤ) (hz : I z) (rounds : ℕ) :
    I ((pass V memory size).after rounds { object := z }).object := by
  refine Loop.keeps_of_body (I := fun s : Pass κ => I s.object) ?_ hz rounds
  intro s hs
  simp only [pass]
  split
  · exact hhand s.object _ hs
  · exact hs

theorem pass_samePointers (z : VideoUnZip κ) (memory : ℤ → UInt8) (size : ℤ) (rounds : ℕ) :
    SamePointers z ((pass V memory size).after rounds { object := z }).object :=
  pass_keeps (I := SamePointers z) (fun z' record h => h.trans (hand_samePointers z' record))
    memory size (.refl z) rounds

theorem step_decode {memory : ℤ → UInt8} {size : ℤ} {rounds : ℕ}
    (hstep : step V z (.decode memory size rounds) = some z') :
    z' = ((pass V memory size).after rounds { object := z }).object := by
  simp only [step, Option.ite_none_right_eq_some, Option.some.injEq] at hstep
  exact hstep.2.symm

/-! ## The memory -/

/-- The decoder is in live memory, and so is the bitmap of an open object and of no other;
nothing is freed twice. -/
structure Sound (z : VideoUnZip κ) : Prop where
  codec_live : z.heap.Valid z.codecPointer
  bitmap_live : ∀ p, z.bitmapPointer = some p →
    z.heap.live p = if z.isOpened then some (bitmapBytes z.width z.height) else none
  distinct : ∀ p, z.codecPointer = some p → z.bitmapPointer ≠ some p
  bitmap_lt : ∀ p, z.bitmapPointer = some p → p < z.heap.next
  live_lt : ∀ p, z.heap.live p ≠ none → p < z.heap.next
  freedDead : z.heap.freedDead = false

theorem Sound.samePointers (h : Sound z) (hsame : SamePointers z z') : Sound z' := by
  constructor
  · rw [hsame.codec, hsame.heap]
    exact h.codec_live
  · rw [hsame.bitmap, hsame.heap, hsame.isOpened, hsame.width, hsame.height]
    exact h.bitmap_live
  · rw [hsame.codec, hsame.bitmap]
    exact h.distinct
  · rw [hsame.bitmap, hsame.heap]
    exact h.bitmap_lt
  · rw [hsame.heap]
    exact h.live_lt
  · rw [hsame.heap]
    exact h.freedDead

theorem Sound.init : Sound ({} : VideoUnZip κ) :=
  ⟨Allocations.valid_none _, nofun, nofun, nofun, fun _ hp => absurd rfl hp, rfl⟩

/-- What is live after `close` was live before, and is neither the decoder nor the bitmap of an
open object. -/
theorem close_live_eq_none {p : ℕ} : z.close.heap.live p = none ↔
    z.heap.live p = none ∨ z.isOpened = true ∧
      (z.codecPointer = some p ∨ z.bitmapPointer = some p) := by
  unfold close
  split
  · rename_i hopened
    rw [Allocations.release_live_eq_none, Allocations.release_live_eq_none, or_assoc,
      and_iff_right hopened]
  · rename_i hclosed
    rw [or_iff_left fun h => hclosed h.1]

theorem close_isOpened (z : VideoUnZip κ) : z.close.isOpened = false := by
  unfold close
  split
  · rfl
  · rename_i hclosed
    exact Bool.not_eq_true _ ▸ hclosed

theorem close_bitmapPointer (z : VideoUnZip κ) : z.close.bitmapPointer = z.bitmapPointer := by
  unfold close
  split <;> rfl

theorem close_next (z : VideoUnZip κ) : z.close.heap.next = z.heap.next := by
  unfold close
  split
  · simp
  · rfl

theorem Sound.close (h : Sound z) : Sound z.close := by
  have hlive : ∀ p, z.close.heap.live p ≠ none → z.heap.live p ≠ none := by
    intro p hp hdead
    exact hp (close_live_eq_none.mpr (Or.inl hdead))
  refine ⟨?_, ?_, ?_, ?_, ?_, ?_⟩
  · unfold VideoUnZip.close
    split
    · exact Allocations.valid_none _
    · exact h.codec_live
  · intro p hp
    rw [close_bitmapPointer] at hp
    rw [close_isOpened, if_neg Bool.false_ne_true, close_live_eq_none]
    cases hopened : z.isOpened with
    | true => exact Or.inr ⟨rfl, Or.inr hp⟩
    | false =>
        have hdead := h.bitmap_live p hp
        rw [hopened] at hdead
        exact Or.inl hdead
  · intro p hp
    rw [close_bitmapPointer]
    unfold VideoUnZip.close at hp
    split at hp
    · exact nomatch hp
    · exact h.distinct p hp
  · intro p hp
    rw [close_bitmapPointer] at hp
    rw [close_next]
    exact h.bitmap_lt p hp
  · intro p hp
    rw [close_next]
    exact h.live_lt p (hlive p hp)
  · unfold VideoUnZip.close
    split
    · rename_i hopened
      -- the bitmap is freed behind the decoder, which lies elsewhere
      have hbitmap : (z.heap.release z.codecPointer).Valid z.bitmapPointer := by
        intro p hp hdead
        rcases Allocations.release_live_eq_none.mp hdead with hdead | hcodec
        · rw [h.bitmap_live p hp, if_pos hopened] at hdead
          exact nomatch hdead
        · exact h.distinct p hcodec hp
      rw [Allocations.release_freedDead hbitmap, Allocations.release_freedDead h.codec_live]
      exact h.freedDead
    · exact h.freedDead

theorem Sound.decInit (h : Sound z) (context : Option κ) : Sound (decInit V z context) := by
  cases context with
  | none =>
      exact ⟨Allocations.valid_none _, h.bitmap_live, nofun, h.bitmap_lt, h.live_lt, h.freedDead⟩
  | some context =>
      constructor
      · intro p hp
        exact Allocations.malloc_live_ne_none.mpr (Or.inl (Option.some.inj hp).symm)
      · intro p hp
        exact (Allocations.malloc_live_of_lt (h.bitmap_lt p hp)).trans (h.bitmap_live p hp)
      · intro p hp hbitmap
        have hlt := h.bitmap_lt p hbitmap
        rw [← Option.some.inj hp] at hlt
        exact hlt.false
      · intro p hp
        exact Nat.lt_succ_of_lt (h.bitmap_lt p hp)
      · intro p hp
        rcases Allocations.malloc_live_ne_none.mp hp with rfl | hold
        · exact Nat.lt_succ_self _
        · exact Nat.lt_succ_of_lt (h.live_lt p hold)
      · exact h.freedDead

theorem Sound.mallocBitmap (h : Sound z) (memory : Option (ℤ → UInt8)) :
    Sound (z.mallocBitmap memory) := by
  cases memory with
  | none => exact ⟨h.codec_live, nofun, fun _ _ => nofun, nofun, h.live_lt, h.freedDead⟩
  | some memory =>
      constructor
      · intro p hp
        exact Allocations.malloc_live_ne_none.mpr (Or.inr (h.codec_live p hp))
      · intro p hp
        obtain rfl : z.heap.next = p := Option.some.inj hp
        exact Allocations.malloc_live_self z.heap _
      · intro p hp hbitmap
        have hlt := h.live_lt p (h.codec_live p hp)
        rw [← Option.some.inj hbitmap] at hlt
        exact hlt.false
      · intro p hp
        rw [← Option.some.inj hp]
        exact Nat.lt_succ_self _
      · intro p hp
        rcases Allocations.malloc_live_ne_none.mp hp with rfl | hold
        · exact Nat.lt_succ_self _
        · exact Nat.lt_succ_of_lt (h.live_lt p hold)
      · exact h.freedDead

/-- A closed object with other sizes is as sound. -/
theorem Sound.resize (h : Sound z) (hclosed : z.isOpened = false) (width height : ℤ) :
    Sound { z with width := width, height := height } := by
  refine ⟨h.codec_live, ?_, h.distinct, h.bitmap_lt, h.live_lt, h.freedDead⟩
  intro p hp
  have hdead := h.bitmap_live p hp
  rw [hclosed] at hdead ⊢
  exact hdead

theorem Sound.openVideoUnZip (h : Sound z) (width height : ℤ) (context : Option κ)
    (memory : Option (ℤ → UInt8)) :
    Sound (z.openVideoUnZip V width height context memory).2 := by
  have hsound := (h.close.resize (close_isOpened z) width height).decInit (V := V) context
  unfold VideoUnZip.openVideoUnZip
  dsimp only
  split
  · exact hsound.mallocBitmap memory
  · exact hsound

theorem sound_of_run {inputs : List (Input κ)} (hrun : (machine V).run inputs = some z) :
    Sound z := by
  refine Machine.invariant Sound.init ?_ hrun
  intro z i z' h hstep
  cases i with
  | openVideoUnZip width height context memory =>
      exact Option.some.inj hstep ▸ h.openVideoUnZip width height context memory
  | refresh context => exact Option.some.inj hstep ▸ h.decInit context
  | close => exact Option.some.inj hstep ▸ h.close
  | decode memory size rounds =>
      rw [step_decode hstep]
      exact h.samePointers (pass_samePointers z memory size rounds)

/-- `close` would leave nothing behind. -/
def GivesBack (z : VideoUnZip κ) : Prop := ∀ p, z.close.heap.live p = none

theorem GivesBack.samePointers (h : GivesBack z) (hsame : SamePointers z z') : GivesBack z' := by
  intro p
  rw [close_live_eq_none, hsame.heap, hsame.isOpened, hsame.codec, hsame.bitmap]
  exact close_live_eq_none.mp (h p)

theorem GivesBack.close (h : GivesBack z) : GivesBack z.close :=
  fun p => close_live_eq_none.mpr (Or.inl (h p))

/-- A new decoder and a new bitmap are all that is live, and belong to an open object. -/
theorem GivesBack.openVideoUnZip (h : GivesBack z) (width height : ℤ) (context : Option κ)
    (memory : Option (ℤ → UInt8)) :
    GivesBack (z.openVideoUnZip V width height context memory).2 := by
  intro p
  rw [close_live_eq_none]
  cases context with
  | none => exact Or.inl (h p)
  | some context =>
      by_contra hleft
      rw [not_or] at hleft
      obtain ⟨hlive, hleft⟩ := hleft
      refine hleft ⟨by cases memory <;> rfl, ?_⟩
      cases memory with
      | none =>
          rcases Allocations.malloc_live_ne_none.mp hlive with rfl | hold
          · exact Or.inl rfl
          · exact absurd (h p) hold
      | some memory =>
          rcases Allocations.malloc_live_ne_none.mp hlive with rfl | hcodec
          · exact Or.inr rfl
          · rcases Allocations.malloc_live_ne_none.mp hcodec with rfl | hold
            · exact Or.inl rfl
            · exact absurd (h p) hold

/-- A `refresh` of an object that is not open, and that fails. -/
def Idle (z : VideoUnZip κ) (i : Input κ) : Prop :=
  ∀ context, i = .refresh context → z.isOpened = false ∧ context = none

/-- As long as no `refresh` has taken it, an open object has its decoder. -/
theorem codec_of_isOpened {inputs : List (Input κ)} (hrun : (machine V).run inputs = some z)
    (hidle : (machine V).Always Idle inputs) (hopened : z.isOpened = true) :
    z.codecPointer ≠ none := by
  have hcodec : (machine V).Always Idle inputs → z.isOpened = true → z.codecPointer ≠ none := by
    refine Machine.run_induction
      (P := fun inputs z => (machine V).Always Idle inputs → z.isOpened = true →
        z.codecPointer ≠ none) ?_ ?_ inputs z hrun
    · intro _ hopened
      exact nomatch hopened
    · intro inputs z i z' hz ih hstep halways hopened
      obtain ⟨hbefore, hlast⟩ := (Machine.always_concat inputs i).mp halways
      cases i with
      | openVideoUnZip width height context memory =>
          obtain rfl := Option.some.inj hstep
          cases context with
          | none => exact nomatch hopened.symm.trans (close_isOpened z)
          | some context => cases memory <;> exact Option.some_ne_none _
      | refresh context =>
          obtain rfl := Option.some.inj hstep
          obtain ⟨hclosed, rfl⟩ := hlast z hz context rfl
          exact nomatch hopened.symm.trans hclosed
      | close =>
          obtain rfl := Option.some.inj hstep
          exact nomatch hopened.symm.trans (close_isOpened z)
      | decode memory size rounds =>
          have hsame := pass_samePointers (V := V) z memory size rounds
          rw [← step_decode hstep] at hsame
          rw [hsame.codec]
          exact ih hbefore (hsame.isOpened ▸ hopened)
  exact hcodec hidle hopened

/-- What `refresh` puts into `codec_`, and what was there before, is not given back. -/
theorem givesBack_refresh (hsound : Sound z) (hgives : GivesBack z)
    (hcodec : z.isOpened = true → z.codecPointer ≠ none) (context : Option κ) :
    GivesBack (z.refresh V context) ↔ z.isOpened = false ∧ context = none := by
  constructor
  · intro h
    cases hopened : z.isOpened with
    | true =>
        -- the decoder of the open object is live, and `codec_` does not point to it any more
        obtain ⟨p, hp⟩ := Option.ne_none_iff_exists'.mp (hcodec hopened)
        have hlive := hsound.codec_live p hp
        rcases close_live_eq_none.mp (h p) with hdead | ⟨-, hnew | hbitmap⟩
        · cases context with
          | none => exact absurd hdead hlive
          | some context =>
              exact absurd hdead (Allocations.malloc_live_ne_none.mpr (Or.inr hlive))
        · cases context with
          | none => exact nomatch hnew
          | some context =>
              have hlt := hsound.live_lt p hlive
              rw [← Option.some.inj hnew] at hlt
              exact absurd hlt (lt_irrefl _)
        · cases context <;> exact absurd hbitmap (hsound.distinct p hp)
    | false =>
        refine ⟨rfl, ?_⟩
        cases context with
        | none => rfl
        | some context =>
            have hnew : (z.refresh V (some context)).heap.live z.heap.next ≠ none :=
              Allocations.malloc_live_ne_none.mpr (Or.inl rfl)
            rcases close_live_eq_none.mp (h z.heap.next) with hdead | ⟨hopened', -⟩
            · exact absurd hdead hnew
            · exact nomatch hopened'.symm.trans hopened
  · rintro ⟨hclosed, rfl⟩ p
    rcases close_live_eq_none.mp (hgives p) with hdead | ⟨hopened, -⟩
    · exact close_live_eq_none.mpr (Or.inl hdead)
    · exact nomatch hopened.symm.trans hclosed

/-- Wherever the object is given up, its destructor frees all that was ever allocated for it,
exactly where every `refresh` failed, on an object that was not open; and nothing is ever
freed twice. -/
theorem givesBack_iff {inputs : List (Input κ)} (hrun : (machine V).run inputs = some z) :
    ((machine V).Throughout GivesBack inputs ↔ (machine V).Always Idle inputs) ∧
      z.heap.freedDead = false := by
  refine ⟨Machine.throughout_iff_always ?_ ?_ hrun, (sound_of_run hrun).freedDead⟩
  · intro p
    rfl
  · intro inputs z i z' hz hbefore hidle hstep
    have hgives := hbefore.last hz
    have hother : (∀ context, i ≠ .refresh context) → Idle z i := by
      intro hne context heq
      exact absurd heq (hne context)
    cases i with
    | openVideoUnZip width height context memory =>
        obtain rfl := Option.some.inj hstep
        exact iff_of_true (hgives.openVideoUnZip width height context memory) (hother nofun)
    | refresh context =>
        obtain rfl := Option.some.inj hstep
        rw [givesBack_refresh (sound_of_run hz) hgives (codec_of_isOpened hz hidle) context]
        constructor
        · intro h context' heq
          exact Input.refresh.inj heq ▸ h
        · intro h
          exact h context rfl
    | close =>
        obtain rfl := Option.some.inj hstep
        exact iff_of_true hgives.close (hother nofun)
    | decode memory size rounds =>
        have hsame := pass_samePointers (V := V) z memory size rounds
        rw [← step_decode hstep] at hsame
        exact iff_of_true (hgives.samePointers hsame) (hother nofun)

theorem givesBack_iff_refreshed :
    ((machine whitePictures).Throughout GivesBack [openTwoByTwo, .refresh (some ())] ↔
      (machine whitePictures).Always Idle [openTwoByTwo, .refresh (some ())]) ∧
      ∃ z, (machine whitePictures).run [openTwoByTwo, .refresh (some ())] = some z ∧
        z.heap.freedDead = false := by
  obtain ⟨z, hz⟩ : ∃ z, (machine whitePictures).run [openTwoByTwo, .refresh (some ())] = some z :=
    ⟨_, rfl⟩
  exact ⟨(givesBack_iff hz).1, z, hz, (givesBack_iff hz).2⟩

/-! ## The pictures -/

theorem four_dvd_bitmapBytes (width height : ℤ) : 4 ∣ bitmapBytes width height := by
  unfold bitmapBytes toInt
  generalize (width * height).bmod (2 ^ 32) = pixels
  have hrest : (pixels * 4).bmod (2 ^ 32) % (2 ^ 32 : ℕ) = pixels * 4 % (2 ^ 32 : ℕ) :=
    Int.bmod_emod
  push_cast at hrest
  generalize (pixels * 4).bmod (2 ^ 32) = bytes at hrest
  omega

/-- The last byte a picture is drawn to is the third from its end. -/
theorem writes_iff (S : Source) (frame : ℤ → UInt8) {room : ℕ} (hroom : 4 ∣ room) :
    (∀ a ∈ S.pictureCells (S.width * 4) frame blockWrites, 0 ≤ a ∧ a < room) ↔
      pictureBytes S ≤ room := by
  have hpair : 8 * (((S.width + 1) / 2 : ℕ) : ℤ) + S.width * 4 =
      (8 * ((S.width + 1) / 2) + 4 * S.width : ℕ) := by
    push_cast
    ring
  simp only [S.mem_pictureWrites, hpair]
  unfold pictureBytes
  generalize hline : 8 * ((S.width + 1) / 2) + 4 * S.width = line
  constructor
  · intro h
    rcases Nat.eq_zero_or_pos ((S.height + 1) / 2) with hzero | hpairs
    · rw [hzero, zero_mul]
      exact Nat.zero_le room
    rcases Nat.eq_zero_or_pos ((S.width + 1) / 2) with hzero | hblocks
    · have hnone : line = 0 := by omega
      rw [hnone, mul_zero]
      exact Nat.zero_le room
    obtain ⟨pairs, hlast⟩ : ∃ pairs, (S.height + 1) / 2 = pairs + 1 :=
      Nat.exists_eq_succ_of_ne_zero hpairs.ne'
    obtain ⟨-, hlt⟩ := h _ ⟨pairs, by omega, (S.width + 1) / 2 - 1, by omega, 1, by omega, 2,
      by omega, Or.inr rfl⟩
    have hbytes : (pairs + 1) * line < room + 4 := by
      rw [add_mul, one_mul]
      zify at hline ⊢
      omega
    have hdvd : 4 ∣ (pairs + 1) * line := Dvd.dvd.mul_left (by omega) _
    rw [hlast]
    omega
  · rintro h a ⟨k, hk, j, hj, i, hi, c, hc, hplace⟩
    have hbefore : (k + 1) * line ≤ (S.height + 1) / 2 * line := Nat.mul_le_mul_right line hk
    rw [add_mul, one_mul] at hbefore
    zify at hbefore h hline
    have hpos : (0 : ℤ) ≤ k * line := by positivity
    omega

/-- At any time in any run, also in the middle of a `decode`, a picture is drawn into live
memory that `bitmap_` points to, as far as it is drawn at all, exactly where the object is open
and the picture no larger than the bitmap is. -/
theorem draws_iff {inputs : List (Input κ)} (hrun : (machine V).run inputs = some z)
    (memory : ℤ → UInt8) (size : ℤ) (rounds : ℕ) {b : UnZipBitmap}
    (hbitmap : ((pass V memory size).after rounds { object := z }).object.bitmap = some b)
    (S : Source) :
    (∀ a ∈ S.pictureCells (S.width * 4) b.pixels blockWrites, 0 ≤ a ∧
        a < ((pass V memory size).after rounds { object := z }).object.heap.bytes b.pointer) ↔
      pictureBytes S ≤ if z.isOpened then bitmapBytes z.width z.height else 0 := by
  have hsame := pass_samePointers (V := V) z memory size rounds
  have hpointer : z.bitmapPointer = some b.pointer := by
    rw [← hsame.bitmap, bitmapPointer, hbitmap, Option.map_some]
  have hbytes : z.heap.bytes b.pointer =
      if z.isOpened then bitmapBytes z.width z.height else 0 := by
    show (z.heap.live b.pointer).getD 0 = _
    rw [(sound_of_run hrun).bitmap_live b.pointer hpointer]
    split <;> rfl
  rw [hsame.heap, hbytes]
  refine writes_iff S b.pixels ?_
  split
  · exact four_dvd_bitmapBytes z.width z.height
  · exact dvd_zero 4

/-- An object that was closed and then refreshed has a decoder, and its bitmap is gone. -/
theorem draws_iff_refreshed : ∃ z b,
    (machine whitePictures).run [openTwoByTwo, .close, .refresh (some ())] = some z ∧
      z.bitmap = some b ∧ z.codec ≠ none ∧
      ((∀ a ∈ (whiteSource 2 2).pictureCells 8 b.pixels blockWrites, 0 ≤ a ∧
        a < z.heap.bytes b.pointer) ↔ pictureBytes (whiteSource 2 2) ≤ 0) :=
  ⟨_, _, rfl, rfl, nofun, draws_iff (V := whitePictures)
    (show (machine whitePictures).run [openTwoByTwo, .close, .refresh (some ())] = some _ from rfl)
    (fun _ => 0) 0 0 rfl (whiteSource 2 2)⟩

theorem watch_append (context : κ) (first second : List (List UInt8)) :
    V.watch context (first ++ second) =
      ((V.watch (V.watch context first).1 second).1,
        (V.watch context first).2 ++ (V.watch (V.watch context first).1 second).2) := by
  induction first generalizing context with
  | nil => rfl
  | cons record first ih => simp [VpxDecoder.watch, ih, List.append_assoc]

theorem foldl_draw_drawn (pictures : List Source) (b : UnZipBitmap) :
    (pictures.foldl UnZipBitmap.draw b).drawn = b.drawn ++ pictures ∧
      (pictures.foldl UnZipBitmap.draw b).blank = b.blank := by
  induction pictures generalizing b with
  | nil => simp
  | cons S pictures ih =>
      rw [List.foldl_cons, (ih _).1, (ih _).2]
      simp [UnZipBitmap.draw]

/-- The colours are those of the last picture, and the fourth byte of every pixel is what it was
when the memory was allocated. -/
structure ShowsLast (b : UnZipBitmap) : Prop where
  colours : ∀ {front S}, b.drawn = front ++ [S] → Even S.width → Even S.height →
    ∀ x y : ℤ, 0 ≤ x → x < S.width → 0 ≤ y → y < S.height →
      Shows b.pixels (4 * (y * S.width + x)) (S.pixel x y)
  fourth : ∀ n : ℤ, b.pixels (4 * n + 3) = b.blank (4 * n + 3)

/-- Lines that follow each other. -/
theorem shows_toARGB (S : Source) (frame : ℤ → UInt8) (hwidth : Even S.width)
    (hheight : Even S.height) {x y : ℤ} (hx0 : 0 ≤ x) (hx : x < S.width) (hy0 : 0 ≤ y)
    (hy : y < S.height) :
    Shows (S.toARGB (S.width * 4) frame) (4 * (y * S.width + x)) (S.pixel x y) := by
  have hstride : 4 * (S.width : ℤ) ≤ S.width * 4 := by rw [mul_comm]
  have hshows := S.shows_linePlace hwidth hheight hstride frame hx0 hx hy0 hy
  have hplace : S.linePlace (S.width * 4) y = 4 * (y * S.width) := by
    have hsplit : y / 2 * 2 + y % 2 = y := by omega
    calc
      S.linePlace (S.width * 4) y = (y / 2 * 2 + y % 2) * (4 * S.width) := by
        rw [Source.linePlace]
        ring
      _ = 4 * (y * S.width) := by
        rw [hsplit]
        ring
  rw [hplace, ← mul_add] at hshows
  exact hshows

theorem toARGB_fourth (S : Source) (frame : ℤ → UInt8) (n : ℤ) :
    S.toARGB (S.width * 4) frame (4 * n + 3) = frame (4 * n + 3) := by
  apply S.toARGB_frame
  rw [S.mem_pictureWrites]
  rintro ⟨k, hk, j, hj, i, hi, c, hc, hplace⟩
  have hlines : (k : ℤ) * (8 * ((S.width + 1) / 2 : ℕ) + S.width * 4) =
      4 * (k * (2 * ((S.width + 1) / 2 : ℕ) + S.width)) := by ring
  rw [hlines] at hplace
  omega

theorem ShowsLast.draw {b : UnZipBitmap} (h : ShowsLast b) (S : Source) :
    ShowsLast (b.draw S) := by
  constructor
  · intro front S' hlast hwidth hheight x y hx0 hx hy0 hy
    obtain rfl : S = S' := (List.append_inj' hlast rfl).2 |> List.singleton_inj.mp
    exact shows_toARGB S b.pixels hwidth hheight hx0 hx hy0 hy
  · intro n
    exact (toARGB_fourth S b.pixels n).trans (h.fourth n)

theorem ShowsLast.foldl_draw {b : UnZipBitmap} (h : ShowsLast b) (pictures : List Source) :
    ShowsLast (pictures.foldl UnZipBitmap.draw b) := by
  induction pictures generalizing b with
  | nil => exact h
  | cons S pictures ih => exact ih (h.draw S)

/-- The context and the bitmap are what the records since the decoder was made have made of
them; before that, other decoders may have drawn into the bitmap. -/
structure Watched (V : VpxDecoder κ) (z : VideoUnZip κ) : Prop where
  context : ∀ c, z.codec = some c → c.context = (V.watch c.made c.handed).1
  drawn : ∀ b c, z.bitmap = some b → z.codec = some c →
    (V.watch c.made c.handed).2 <:+ b.drawn
  shown : ∀ b, z.bitmap = some b → ShowsLast b

theorem Watched.hand (h : Watched V z) (record : List UInt8) : Watched V (z.hand V record).2 := by
  cases hcodec : z.codec with
  | none =>
      rw [hand_of_none hcodec]
      exact h
  | some c =>
      have hcontext := h.context c hcodec
      have hnext : V.watch c.made (c.handed ++ [record]) =
          ((V.decode c.context record).1,
            (V.watch c.made c.handed).2 ++ (V.decode c.context record).2.getD []) := by
        rw [watch_append, ← hcontext]
        simp [VpxDecoder.watch]
      rw [(hand_of_codec hcodec record).2]
      constructor
      · intro c' hc'
        rw [← Option.some.inj hc']
        exact (congrArg Prod.fst hnext).symm
      · intro b' c' hb' hc'
        rw [← Option.some.inj hc']
        obtain ⟨b, hb, rfl⟩ := Option.map_eq_some_iff.mp hb'
        obtain ⟨earlier, hearlier⟩ := h.drawn b c hb hcodec
        refine ⟨earlier, ?_⟩
        rw [hnext, (foldl_draw_drawn _ b).1, ← hearlier, List.append_assoc]
      · intro b' hb'
        obtain ⟨b, hb, rfl⟩ := Option.map_eq_some_iff.mp hb'
        exact (h.shown b hb).foldl_draw _

/-- A new decoder has been handed nothing. -/
theorem Watched.decInit (h : Watched V z) (context : Option κ) :
    Watched V (decInit V z context) := by
  cases context with
  | none => exact ⟨nofun, fun _ _ _ => nofun, h.shown⟩
  | some context =>
      constructor
      · intro c hc
        rw [← Option.some.inj hc]
        rfl
      · intro b c _ hc
        rw [← Option.some.inj hc]
        exact List.nil_suffix
      · exact h.shown

theorem Watched.close (h : Watched V z) : Watched V z.close := by
  unfold VideoUnZip.close
  split
  · exact ⟨nofun, fun _ _ _ => nofun, h.shown⟩
  · exact h

theorem Watched.openVideoUnZip (h : Watched V z) (width height : ℤ) (context : Option κ)
    (memory : Option (ℤ → UInt8)) :
    Watched V (z.openVideoUnZip V width height context memory).2 := by
  have hclosed := h.close
  have hresized : Watched V { z.close with width := width, height := height } :=
    ⟨hclosed.context, hclosed.drawn, hclosed.shown⟩
  have hmade := hresized.decInit context
  cases context with
  | none => exact hmade
  | some context =>
      cases memory with
      | none => exact ⟨hmade.context, nofun, nofun⟩
      | some memory =>
          constructor
          · exact hmade.context
          · intro b c _ hc
            rw [← Option.some.inj hc]
            exact List.nil_suffix
          · intro b hb
            rw [← Option.some.inj hb]
            refine ⟨?_, fun _ => rfl⟩
            intro front S hlast
            exact absurd hlast (by simp)

theorem watched_of_run {inputs : List (Input κ)} (hrun : (machine V).run inputs = some z) :
    Watched V z := by
  refine Machine.invariant ⟨nofun, nofun, nofun⟩ ?_ hrun
  intro z i z' h hstep
  cases i with
  | openVideoUnZip width height context memory =>
      exact Option.some.inj hstep ▸ h.openVideoUnZip width height context memory
  | refresh context => exact Option.some.inj hstep ▸ h.decInit context
  | close => exact Option.some.inj hstep ▸ h.close
  | decode memory size rounds =>
      rw [step_decode hstep]
      exact pass_keeps (fun z record h => h.hand record) memory size h rounds

/-- In every run, the bitmap of an open object shows the last of the pictures that a decoder as
it was when `open` or `refresh` made it makes of the records it has been handed since, whatever was
decoded before; the fourth bytes are those that `malloc` found. -/
theorem shows_of_run {inputs : List (Input κ)} (hrun : (machine V).run inputs = some z)
    (hopened : z.isOpened = true) {b : UnZipBitmap} (hbitmap : z.bitmap = some b)
    {c : CodecContext κ} (hcodec : z.codec = some c) {front : List Source} {S : Source}
    (hlast : (V.watch c.made c.handed).2 = front ++ [S]) (hwidth : Even S.width)
    (hheight : Even S.height) :
    z.heap.live b.pointer = some (bitmapBytes z.width z.height) ∧
      (∀ x y : ℤ, 0 ≤ x → x < S.width → 0 ≤ y → y < S.height →
        Shows b.pixels (4 * (y * S.width + x)) (S.pixel x y)) ∧
      ∀ n : ℤ, b.pixels (4 * n + 3) = b.blank (4 * n + 3) := by
  have hwatched := watched_of_run hrun
  have hlive := (sound_of_run hrun).bitmap_live b.pointer (by simp [bitmapPointer, hbitmap])
  rw [if_pos hopened] at hlive
  obtain ⟨earlier, hdrawn⟩ := hwatched.drawn b c hbitmap hcodec
  rw [hlast, ← List.append_assoc] at hdrawn
  have hshown := hwatched.shown b hbitmap
  exact ⟨hlive, hshown.colours hdrawn.symm hwidth hheight, hshown.fourth⟩

/-- One record of one byte. -/
def decodeOne : Input Unit := .decode (fun i => if i = 0 then 1 else 0) 5 2

theorem shows_of_run_white :
    ∃ z b, (machine whitePictures).run [openTwoByTwo, decodeOne] = some z ∧ z.bitmap = some b ∧
      z.heap.live b.pointer = some 16 ∧
      ∀ x y : ℤ, 0 ≤ x → x < 2 → 0 ≤ y → y < 2 →
        Shows b.pixels (4 * (y * 2 + x)) ((whiteSource 2 2).pixel x y) := by
  obtain ⟨z, hz⟩ : ∃ z, (machine whitePictures).run [openTwoByTwo, decodeOne] = some z := ⟨_, rfl⟩
  obtain rfl := Option.some.inj hz
  obtain ⟨hlive, hcolours, -⟩ := shows_of_run hz rfl rfl rfl
    (show _ = [] ++ [whiteSource 2 2] from rfl) (by decide) (by decide)
  exact ⟨_, _, hz, rfl, hlive, hcolours⟩

end VideoUnZip

end RyuLib
