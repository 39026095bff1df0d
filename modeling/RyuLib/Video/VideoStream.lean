import RyuLib.Video.VideoUnZipRuns
import RyuLib.Video.VideoZip

/-!
# Pictures through a VideoZip and a VideoUnZip

The loop of test_VideoUnZip.cpp: every picture is encoded into the buffer of one `VideoZip`,
which is overwritten each time, decoded from there by one `VideoUnZip`, and shown.

* `VideoUnZip.pass_records`: on data that consists of records, `decode` hands them to the codec
  one by one and stops at the first that is refused.
* `VideoStream.shown_of_run`: the window shows what a decoder makes of all the frames so far,
  handed to it without any buffer in between.  That the pictures fit the bitmap is left to
  `VideoUnZip.draws_iff`.
-/

namespace RyuLib

open Foundations YuvTools

namespace VideoUnZip

variable {κ : Type*} (V : VpxDecoder κ)

/-- The records up to the first that is refused, and whether none is. -/
def feed (z : VideoUnZip κ) : List (List UInt8) → Bool × VideoUnZip κ
  | [] => (true, z)
  | record :: records =>
      if (z.hand V record).1 then (false, (z.hand V record).2)
      else (z.hand V record).2.feed records

variable {V} {memory : ℤ → UInt8} {size offset : ℕ} {s : Pass κ}

/-- At a complete record, the loop hands its bytes to the codec. -/
theorem pass_body (h : At offset size s.loop) {l : List UInt8}
    (hl : bytesAt memory offset (size - offset) = l) (hcomplete : recordFraming.Complete l) :
    (pass V memory size).body s =
      { loop := readFrame s.loop (intAt l)
          (s.object.hand V (payload (l.take (recordFraming.size l))).2).1
        object := (s.object.hand V (payload (l.take (recordFraming.size l))).2).2 } := by
  obtain ⟨hheader, hlength, hfits⟩ := recordFraming_complete.mp hcomplete
  have hl' := congrArg List.length hl
  rw [length_bytesAt] at hl'
  have hmore : s.loop.count < size := by
    rw [h.count]
    unfold sizeofInt at hheader
    omega
  have hread : intAt (bytesAt memory s.loop.frame sizeofInt) = intAt l := by
    have hheader' : sizeofInt ≤ size - offset := hl' ▸ hheader
    rw [h.frame, ← take_bytesAt memory offset hheader', hl, intAt_take]
  have hunsigned : (intAt l % 2 ^ 32).toNat = (intAt l).toNat := by
    have hlt : intAt l < 2 ^ 32 := by
      unfold intAt toInt
      exact (Int.bmod_lt (by norm_num)).trans (by norm_num)
    rw [Int.emod_eq_of_lt hlength hlt]
  have hrecord := congrArg Prod.snd (handed_record hl hcomplete)
  simp only [Slice.handed] at hrecord
  simp only [pass, hmore, if_true, hread, hunsigned]
  rw [h.frame, hrecord]

theorem pass_running (h : At offset size s.loop) : (pass V memory size).done s = false := by
  show s.loop.result.isSome = false
  rw [h.running]
  rfl

/-- Where only records remain, the loop ends with the object that `feed` makes. -/
theorem pass_feed (hsize : size < 2 ^ 31) (h : At offset size s.loop) {l : List UInt8}
    (hl : bytesAt memory offset (size - offset) = l) (hrest : recordFraming.rest l = []) :
    ∃ rounds, ((pass V memory size).after rounds s).loop.result =
        some (s.object.feed V ((recordFraming.frames l).map fun p => (payload p).2)).1 ∧
      ((pass V memory size).after rounds s).object =
        (s.object.feed V ((recordFraming.frames l).map fun p => (payload p).2)).2 := by
  induction l using Framing.frames.induct recordFraming generalizing offset s with
  | case1 l hcomplete ih =>
      have hbody := pass_body (V := V) h hl hcomplete
      rw [Framing.rest_of_complete hcomplete] at hrest
      rw [Framing.frames_of_complete hcomplete, List.map_cons, feed]
      generalize hanswer : s.object.hand V (payload (l.take (recordFraming.size l))).2 = answer
        at hbody
      obtain ⟨refused, object⟩ := answer
      have hafter : ∀ rounds, (pass V memory size).after (rounds + 1) s =
          (pass V memory size).after rounds ⟨readFrame s.loop (intAt l) refused, object⟩ := by
        intro rounds
        rw [Loop.after_succ, Loop.step_of_not_done (pass_running h), hbody]
      cases refused with
      | true =>
          refine ⟨1, ?_⟩
          rw [hafter 0, if_pos rfl]
          exact ⟨rfl, rfl⟩
      | false =>
          obtain ⟨hat, hnext⟩ := h.readFrame hsize hl hcomplete
          obtain ⟨rounds, hresult, hobject⟩ :=
            ih (s := ⟨readFrame s.loop (intAt l) false, object⟩) hat hnext hrest
          refine ⟨rounds + 1, ?_⟩
          rw [hafter rounds, if_neg Bool.false_ne_true]
          exact ⟨hresult, hobject⟩
  | case2 l hcomplete =>
      rw [Framing.rest_of_not_complete hcomplete] at hrest
      have hlength := congrArg List.length hl
      rw [length_bytesAt, hrest, List.length_nil] at hlength
      have hle := h.le
      obtain rfl : offset = size := by omega
      have hend : ¬ s.loop.count < offset := by
        rw [h.count]
        exact lt_irrefl _
      refine ⟨1, ?_⟩
      rw [Loop.after_succ, Loop.step_of_not_done (pass_running h),
        Framing.frames_of_not_complete hcomplete]
      simp [pass, hend, feed]

/-- Data that consists of records is decoded record by record, in some number of rounds. -/
theorem pass_records (hsize : size < 2 ^ 31) (z : VideoUnZip κ)
    (hrest : recordFraming.rest (bytesAt memory 0 size) = []) :
    ∃ rounds, ((pass V memory size).after rounds { object := z }).loop.result =
        some (z.feed V ((recordFraming.frames (bytesAt memory 0 size)).map fun p =>
          (payload p).2)).1 ∧
      ((pass V memory size).after rounds { object := z }).object =
        (z.feed V ((recordFraming.frames (bytesAt memory 0 size)).map fun p => (payload p).2)).2 :=
  pass_feed hsize (s := { object := z }) ⟨rfl, rfl, Nat.zero_le size, rfl⟩ rfl hrest

/-- However many rounds a `decode` of records is given, if it ends it ends so. -/
theorem pass_records_eq (hsize : size < 2 ^ 31) (z : VideoUnZip κ)
    (hrest : recordFraming.rest (bytesAt memory 0 size) = []) {rounds : ℕ} {result : Bool}
    (hresult : ((pass V memory size).after rounds { object := z }).loop.result = some result) :
    (result, ((pass V memory size).after rounds { object := z }).object) =
      z.feed V ((recordFraming.frames (bytesAt memory 0 size)).map fun p => (payload p).2) := by
  obtain ⟨rounds', hresult', hobject⟩ := pass_records (V := V) hsize z hrest
  have hunique := Loop.after_unique (L := pass V memory size) (s := { object := z }) (n := rounds)
    (m := rounds') (congrArg Option.isSome hresult) (congrArg Option.isSome hresult')
  rw [hunique] at hresult ⊢
  rw [hresult', Option.some.injEq] at hresult
  rw [hobject, ← hresult]

end VideoUnZip

/-- The decoder refuses none of the records, handed to it in this order. -/
def VpxDecoder.Takes {κ : Type*} (V : VpxDecoder κ) (context : κ) : List (List UInt8) → Prop
  | [] => True
  | record :: records =>
      (V.decode context record).2 ≠ none ∧ V.Takes (V.decode context record).1 records

theorem VpxDecoder.takes_append {κ : Type*} {V : VpxDecoder κ} {context : κ}
    {first second : List (List UInt8)} : V.Takes context (first ++ second) ↔
      V.Takes context first ∧ V.Takes (V.watch context first).1 second := by
  induction first generalizing context with
  | nil => simp [Takes, watch]
  | cons record first ih => simp [Takes, watch, ih, and_assoc]

/-- Records that are not refused are all handed over, and their pictures drawn. -/
theorem VideoUnZip.feed_of_takes {κ : Type*} {V : VpxDecoder κ} {z : VideoUnZip κ}
    {c : CodecContext κ} (hcodec : z.codec = some c) {records : List (List UInt8)}
    (htakes : V.Takes c.context records) :
    z.feed V records =
      (true,
        { z with
          codec := some
            { c with
              context := (V.watch c.context records).1
              handed := c.handed ++ records }
          bitmap := z.bitmap.map fun b =>
            (V.watch c.context records).2.foldl UnZipBitmap.draw b }) := by
  induction records generalizing z c with
  | nil =>
      obtain ⟨bitmap, _, _, _, _, _⟩ := z
      obtain rfl : _ = some c := hcodec
      simp [feed, VpxDecoder.watch]
  | cons record records ih =>
      obtain ⟨hrefused, hobject⟩ := hand_of_codec (V := V) hcodec record
      have hnot : ¬ (z.hand V record).1 = true := by
        rw [hrefused, Option.isNone_iff_eq_none]
        exact htakes.1
      have hnext : (z.hand V record).2.codec = some
          { c with
            context := (V.decode c.context record).1
            handed := c.handed ++ [record] } := congrArg VideoUnZip.codec hobject
      rw [feed, if_neg hnot, ih hnext htakes.2, hobject]
      simp [VpxDecoder.watch, Function.comp_def]

namespace VideoZip

/-- What `encode` has put into the buffer is the records of the frames. -/
theorem frames_encode {z z' : VideoZip} {packets : List CxPacket}
    (hencode : z.encode false packets = (true, z')) (hfit : total packets ≤ bufferSize)
    (front : Block UInt8) :
    z'.getSize = total packets ∧
      recordFraming.rest (bytesAt (z'.getData front) 0 (total packets)) = [] ∧
      (recordFraming.frames (bytesAt (z'.getData front) 0 (total packets))).map
        (fun p => (VideoUnZip.payload p).2) = frames packets := by
  obtain ⟨_, hsize, hload⟩ := foldl_putPacket z.data hfit
  rw [← (Prod.mk.inj hencode).2, bytesAt_getData, hload]
  obtain ⟨hframes, hrest⟩ :=
    Framing.frames_unique (isFrame_of_mem_frames hfit) Framing.not_complete_nil
  rw [List.append_nil] at hframes hrest
  refine ⟨hsize, hrest, ?_⟩
  rw [hframes, List.map_map]
  calc
    (frames packets).map _ = (frames packets).map id := by
      refine List.map_congr_left fun frame _ => ?_
      show (VideoUnZip.payload (record frame)).2 = frame
      rw [payload_record]
    _ = frames packets := List.map_id _

end VideoZip

/-- The objects of the loop, and what `showBitmap32` has been given: what is at `getBitmap()`,
unless that is null. -/
structure VideoStream (κ : Type*) where
  zip : VideoZip
  unzip : VideoUnZip κ
  shown : List (Option (ℤ → UInt8)) := []

namespace VideoStream

open VideoUnZip VideoZip

/-- What `vpx_codec_encode` returns for a picture, the packets that come of it, and how often the
loop of `decode` then goes round. -/
structure Round where
  failed : Bool
  packets : List CxPacket
  rounds : ℕ

variable {κ : Type*} (V : VpxDecoder κ)

/-- A picture is encoded, decoded and shown. -/
def step (front : Block UInt8) (s : VideoStream κ) (r : Round) : Option (VideoStream κ) :=
  match s.zip.encode r.failed r.packets with
  | (false, zip) => some { s with zip := zip }
  | (true, zip) =>
      let t := (pass V (zip.getData front) zip.getSize).after r.rounds { object := s.unzip }
      match t.loop.result with
      | none => none
      | some false => some { s with zip := zip, unzip := t.object }
      | some true =>
          some
            { zip := zip
              unzip := t.object
              shown := s.shown ++ [t.object.bitmap.map (·.pixels)] }

/-- `unzip` is the decoder that was opened, and `front` what lies in front of the buffer. -/
def machine (zip : VideoZip) (unzip : VideoUnZip κ) (front : Block UInt8) :
    Machine (VideoStream κ) Round where
  init := { zip := zip, unzip := unzip }
  step := step V front

/-- The packets of the pictures that were encoded. -/
def sent (inputs : List Round) : List (List CxPacket) :=
  (inputs.filter fun r => !r.failed).map (·.packets)

/-- What is drawn when the decoder is handed the frames of the pictures without any buffer in
between. -/
def screen (context : κ) (memory : ℤ → UInt8) (pictures : List (List CxPacket)) : ℤ → UInt8 :=
  (V.watch context (pictures.flatMap frames)).2.foldl
    (fun pixels S => S.toARGB (S.width * 4) pixels) memory

variable {V} {zip : VideoZip} {unzip : VideoUnZip κ} {front : Block UInt8} {s s' : VideoStream κ}
  {r : Round}

theorem step_failed (hfailed : r.failed = true) : step V front s r = some s := by
  simp [step, encode, hfailed]

/-- The data of a picture is decoded frame by frame. -/
theorem step_encoded (hfailed : r.failed = false) (hfit : total r.packets ≤ bufferSize)
    (hstep : step V front s r = some s') :
    s'.unzip = (s.unzip.feed V (frames r.packets)).2 ∧
      s'.shown = s.shown ++ if (s.unzip.feed V (frames r.packets)).1 then
        [(s.unzip.feed V (frames r.packets)).2.bitmap.map (·.pixels)] else [] := by
  obtain ⟨zip', hencode⟩ : ∃ zip', s.zip.encode false r.packets = (true, zip') := ⟨_, rfl⟩
  obtain ⟨hsize, hrest, hframes⟩ := frames_encode hencode hfit front
  have hlt : total r.packets < 2 ^ 31 := by
    unfold bufferSize at hfit
    omega
  have hpass : ∀ result, ((pass V (zip'.getData front) (total r.packets)).after r.rounds
      { object := s.unzip }).loop.result = some result → _ :=
    fun _ hresult => pass_records_eq hlt s.unzip hrest hresult
  rw [hframes] at hpass
  simp only [step, hfailed, hencode, hsize] at hstep
  generalize hafter : (pass V (zip'.getData front) (total r.packets)).after r.rounds
    { object := s.unzip } = t at hstep hpass
  cases hresult : t.loop.result with
  | none =>
      rw [hresult] at hstep
      exact nomatch hstep
  | some result =>
      have hfeed := hpass result hresult
      rw [hresult] at hstep
      rw [← hfeed]
      cases result with
      | false =>
          obtain rfl := Option.some.inj hstep
          simp
      | true =>
          obtain rfl := Option.some.inj hstep
          simp

theorem sent_concat (inputs : List Round) (r : Round) :
    sent (inputs ++ [r]) = sent inputs ++ if r.failed then [] else [r.packets] := by
  cases hfailed : r.failed <;> simp [sent, hfailed]

/-- A picture can always be encoded and decoded: the loop of `decode` ends. -/
theorem exists_step (s : VideoStream κ) (failed : Bool) {packets : List CxPacket}
    (hfit : total packets ≤ bufferSize) :
    ∃ rounds, (step V front s ⟨failed, packets, rounds⟩).isSome := by
  cases failed with
  | true => exact ⟨0, by rw [step_failed rfl]; rfl⟩
  | false =>
      obtain ⟨zip', hencode⟩ : ∃ zip', s.zip.encode false packets = (true, zip') := ⟨_, rfl⟩
      obtain ⟨hsize, hrest, -⟩ := frames_encode hencode hfit front
      have hlt : total packets < 2 ^ 31 := by
        unfold bufferSize at hfit
        omega
      obtain ⟨rounds, hresult, -⟩ := pass_records (V := V) hlt s.unzip hrest
      refine ⟨rounds, ?_⟩
      simp only [step, hencode, hsize, hresult]
      split <;> simp_all

/-- The decoder and the bitmap after the pictures `sent`. -/
structure ShowsAll (V : VpxDecoder κ) (context : κ) (memory : ℤ → UInt8)
    (pictures : List (List CxPacket)) (s : VideoStream κ) : Prop where
  codec : ∃ c, s.unzip.codec = some c ∧ c.handed = pictures.flatMap frames ∧
    c.context = (V.watch context (pictures.flatMap frames)).1
  bitmap : s.unzip.bitmap.map (·.pixels) = some (screen V context memory pictures)
  shown : s.shown = pictures.inits.tail.map fun front => some (screen V context memory front)

theorem pixels_foldl_draw (pictures : List Source) (b : UnZipBitmap) :
    (pictures.foldl UnZipBitmap.draw b).pixels =
      pictures.foldl (fun pixels S => S.toARGB (S.width * 4) pixels) b.pixels := by
  induction pictures generalizing b with
  | nil => rfl
  | cons S pictures ih => exact ih (b.draw S)

theorem inits_concat_tail {α : Type*} (l : List α) (a : α) :
    (l ++ [a]).inits.tail = l.inits.tail ++ [l ++ [a]] := by
  have hne : l.inits ≠ [] := by cases l <;> simp
  rw [List.inits_append, List.tail_append_of_ne_nil hne]
  simp

/-- Another picture is drawn over the ones before and shown. -/
theorem ShowsAll.encoded {context : κ} {memory : ℤ → UInt8} {pictures : List (List CxPacket)}
    (h : ShowsAll V context memory pictures s) (hfailed : r.failed = false)
    (hfit : total r.packets ≤ bufferSize)
    (htakes : V.Takes context ((pictures ++ [r.packets]).flatMap frames))
    (hstep : step V front s r = some s') :
    ShowsAll V context memory (pictures ++ [r.packets]) s' := by
  obtain ⟨c, hcodec, hhanded, hcontext⟩ := h.codec
  obtain ⟨hunzip, hshown⟩ := step_encoded hfailed hfit hstep
  rw [List.flatMap_append, List.flatMap_singleton, VpxDecoder.takes_append, ← hcontext] at htakes
  rw [feed_of_takes hcodec htakes.2] at hunzip hshown
  have hwatch := watch_append (V := V) context (pictures.flatMap frames) (frames r.packets)
  rw [← hcontext] at hwatch
  have hbitmap : s'.unzip.bitmap.map (·.pixels) =
      some (screen V context memory (pictures ++ [r.packets])) := by
    rw [hunzip, screen, List.flatMap_append, List.flatMap_singleton, hwatch, List.foldl_append,
      ← screen]
    obtain ⟨b, hb, hpixels⟩ := Option.map_eq_some_iff.mp h.bitmap
    rw [← hpixels, ← pixels_foldl_draw, hb]
    rfl
  constructor
  · rw [hunzip]
    refine ⟨_, rfl, ?_, ?_⟩
    · rw [hhanded, List.flatMap_append, List.flatMap_singleton]
    · rw [List.flatMap_append, List.flatMap_singleton, hwatch]
  · exact hbitmap
  · rw [hunzip] at hbitmap
    rw [hshown, if_pos rfl, hbitmap, h.shown, inits_concat_tail, List.map_append]
    rfl

/-- In every run of the loop, if the frames of every picture fit into the buffer and the decoder
takes them in the order they were encoded, the decoder is handed exactly these frames, and the
window shows, picture by picture, what it draws when it is handed them without any buffer in
between; and no picture keeps the loop from going on. -/
theorem shown_of_run {context : κ} {memory : ℤ → UInt8} (z : VideoUnZip κ) (width height : ℤ)
    {inputs : List Round} (hfit : ∀ r ∈ inputs, total r.packets ≤ bufferSize)
    (htakes : V.Takes context ((sent inputs).flatMap frames))
    (hrun : (machine V zip (z.openVideoUnZip V width height (some context) (some memory)).2
      front).run inputs = some s) :
    s.unzip.codec.map (·.handed) = some ((sent inputs).flatMap frames) ∧
      s.shown = (sent inputs).inits.tail.map (fun front => some (screen V context memory front)) ∧
      ∀ failed packets, total packets ≤ bufferSize →
        ∃ rounds, (step V front s ⟨failed, packets, rounds⟩).isSome := by
  have hshows : ShowsAll V context memory (sent inputs) s := by
    refine Machine.run_induction
      (P := fun inputs s => (∀ r ∈ inputs, total r.packets ≤ bufferSize) →
        V.Takes context ((sent inputs).flatMap frames) →
          ShowsAll V context memory (sent inputs) s) ?_ ?_ inputs s hrun hfit htakes
    · intro _ _
      exact ⟨⟨_, rfl, rfl, rfl⟩, rfl, rfl⟩
    · intro inputs s r s' _ ih hstep hfit htakes
      have hbefore : ∀ r ∈ inputs, total r.packets ≤ bufferSize :=
        fun r hr => hfit r (List.mem_append_left _ hr)
      rw [sent_concat] at htakes ⊢
      cases hfailed : r.failed with
      | true =>
          rw [hfailed, if_pos rfl, List.append_nil] at htakes
          rw [if_pos rfl, List.append_nil]
          obtain rfl := Option.some.inj ((step_failed hfailed).symm.trans hstep)
          exact ih hbefore htakes
      | false =>
          rw [hfailed, if_neg Bool.false_ne_true] at htakes
          rw [if_neg Bool.false_ne_true]
          have htakes' := htakes
          rw [List.flatMap_append, VpxDecoder.takes_append] at htakes'
          exact (ih hbefore htakes'.1).encoded hfailed (hfit r (by simp)) htakes hstep
  obtain ⟨c, hcodec, hhanded, -⟩ := hshows.codec
  refine ⟨?_, hshows.shown, fun failed packets => exists_step s failed⟩
  rw [hcodec, Option.map_some, hhanded]

/-- A decoder that refuses a record which does not go on with the byte after the last one. -/
def consecutive : VpxDecoder UInt8 where
  contextSize := 1
  decode next record :=
    (next + UInt8.ofNat record.length,
      if record.head? = some next then some [whiteSource 2 2] else none)

/-- A picture of two frames, one that is not encoded, and a shorter one that goes over the front
of the buffer. -/
def twoPictures : List Round :=
  [⟨false, twoFrames, 3⟩, ⟨true, [], 0⟩, ⟨false, [.frame [4]], 2⟩]

theorem shown_of_run_twoPictures :
    ∃ s, (machine consecutive ⟨fun _ => 0, 0⟩
      (({} : VideoUnZip UInt8).openVideoUnZip consecutive 2 2 (some 1) (some fun _ => 0)).2
      fun _ => 0).run twoPictures = some s ∧
      s.unzip.codec.map (·.handed) = some [[1, 2], [3], [4]] ∧
      s.shown =
        [some (screen consecutive 1 (fun _ => 0) [twoFrames]),
          some (screen consecutive 1 (fun _ => 0) [twoFrames, [.frame [4]]])] := by
  obtain ⟨s, hs⟩ : ∃ s, (machine consecutive ⟨fun _ => 0, 0⟩
      (({} : VideoUnZip UInt8).openVideoUnZip consecutive 2 2 (some 1) (some fun _ => 0)).2
      fun _ => 0).run twoPictures = some s := ⟨_, rfl⟩
  have htakes : consecutive.Takes 1 ((sent twoPictures).flatMap frames) :=
    ⟨Option.some_ne_none _, Option.some_ne_none _, Option.some_ne_none _, trivial⟩
  obtain ⟨hhanded, hshown, -⟩ := shown_of_run {} 2 2 (by decide) htakes hs
  exact ⟨s, hs, hhanded, hshown⟩

end VideoStream

end RyuLib
