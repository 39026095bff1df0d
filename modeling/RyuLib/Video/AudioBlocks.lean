import RyuLib.Video.VideoCreater

/-!
# The blocks of audio

A history of `writeAudioPacket` calls, any of whose blocks may fail.  A call that is broken
off leaves whole blocks in the buffer, and the next call starts with them; so over all
calls the blocks are the slices of everything that was written, and the rest is in the
buffer.

* `VideoCreater.blocks_in_order_iff`: no gap, no repetition, every block is counted, and less
  than a block is left, exactly as long as the buffer has no more bytes than an `int` counts.
-/

namespace RyuLib

open Foundations

namespace VideoCreater

/-- `do_writeAudioPacket` returns true. -/
def AudioResults.succeed (r : AudioResults) : Bool :=
  r.makeWritable && r.convert && r.encode && r.writeFrame

/-- A call of `writeAudioPacket` with what it handed on and returned. -/
structure AudioCall where
  packet : List UInt8
  results : ℕ → AudioResults
  blocks : List (List UInt8)
  returned : Bool

structure AudioHistory where
  creater : VideoCreater
  calls : List AudioCall := []

namespace AudioHistory

/-- The concatenation of all packets. -/
def written (h : AudioHistory) : List UInt8 := (h.calls.map AudioCall.packet).flatten

/-- All blocks ever handed to `do_writeAudioPacket`. -/
def blocks (h : AudioHistory) : List (List UInt8) := (h.calls.map AudioCall.blocks).flatten

def step (h : AudioHistory) (call : List UInt8 × (ℕ → AudioResults)) : Option AudioHistory :=
  (h.creater.writeAudioPacket call.1 call.2).map fun written =>
    { creater := written.2.2
      calls := h.calls ++ [⟨call.1, call.2, written.1, written.2.1⟩] }

def machine (s₀ : VideoCreater) : Machine AudioHistory (List UInt8 × (ℕ → AudioResults)) :=
  ⟨{ creater := s₀ }, step⟩

end AudioHistory

/-- One of the blocks of the call failed. -/
def AudioCall.BlockFailed (c : AudioCall) : Prop :=
  ∃ k < c.blocks.length, (c.results k).succeed = false

/-- Nothing written yet, and blocks of at least one byte; `data_size` is an `int`. -/
structure Fresh (s : VideoCreater) : Prop where
  audioBuffer : MemoryBuffer.Represents s.audioBuffer []
  nextPts : s.audioSt.nextPts = 0
  dataSize : 0 < s.dataSize
  int : s.dataSize < 2 ^ 31

/-- The blocks are the slices of the packets, the bytes behind them are in the buffer, each
block is counted, a call fails with a block, and one that does not leaves less than a
block. -/
structure InOrder (s₀ : VideoCreater) (h : AudioHistory) : Prop where
  blocks : ∀ k (hk : k < h.blocks.length), (k + 1) * s₀.dataSize ≤ h.written.length ∧
    h.blocks[k] = (h.written.drop (k * s₀.dataSize)).take s₀.dataSize
  whole : h.blocks.flatten ++ h.creater.audioBuffer.unread = h.written
  nextPts : h.creater.audioSt.nextPts = s₀.audioSt.nbSamples * h.blocks.length
  returned : ∀ c ∈ h.calls, c.returned = false ↔ c.BlockFailed
  left : ∀ front c, h.calls = front ++ [c] → c.returned = true →
    h.creater.audioBuffer.unread.length < s₀.dataSize

/-- With the packet there are no more bytes in the buffer than an `int` counts. -/
def Fits (h : AudioHistory) (call : List UInt8 × (ℕ → AudioResults)) : Prop :=
  h.creater.audioBuffer.unread.length + call.1.length < 2 ^ 31

section

variable {s s₀ : VideoCreater} {results : ℕ → AudioResults}

theorem doWriteAudioPacket_fst (s : VideoCreater) (r : AudioResults) :
    (s.doWriteAudioPacket r).1 = r.succeed := by
  unfold doWriteAudioPacket AudioResults.succeed
  dsimp only
  split
  · rename_i hwritable
    rw [hwritable]
    rfl
  · rename_i hwritable
    split
    · rename_i hconvert
      rw [hconvert, Bool.and_false]
      rfl
    · rename_i hconvert
      rw [Bool.of_not_eq_false hwritable, Bool.of_not_eq_false hconvert]
      rfl

variable (results s) in
/-- The loop returns false with the first block that fails. -/
theorem writeBlocks_returned (passes k : ℕ) :
    (writeBlocks results passes k s).2.1 = false ↔
      ∃ j < (writeBlocks results passes k s).1.length, (results (k + j)).succeed = false := by
  induction passes generalizing k s with
  | zero => simp [writeBlocks]
  | succ passes ih =>
      cases hread : (s.audioBuffer.read s.dataSize).1 with
      | none => simp [writeBlocks_of_short hread]
      | some data =>
          rw [writeBlocks_of_block hread, doWriteAudioPacket_fst]
          split
          · rename_i hfailed
            exact iff_of_true rfl ⟨0, Nat.zero_lt_one, hfailed⟩
          · rename_i hwritten
            rw [ih _ (k + 1), List.length_cons, Nat.exists_lt_succ_left]
            simp only [Nat.add_zero, hwritten, Nat.add_assoc, Nat.add_comm 1, Bool.true_eq_false,
              false_or]

/-- With blocks of at least one byte a call returns. -/
theorem writeAudioPacket_returns (hpos : 0 < s.dataSize) (packet : List UInt8)
    (results : ℕ → AudioResults) :
    ∃ blocks returned t, s.writeAudioPacket packet results = some (blocks, returned, t) ∧
      (returned = false ↔ ∃ k < blocks.length, (results k).succeed = false) := by
  have hloop := writeBlocks_returned { s with audioBuffer := s.audioBuffer.write packet } results
    (s.audioBuffer.unread.length + packet.length + 1) 0
  simp only [Nat.zero_add] at hloop
  exact ⟨_, _, _, if_neg hpos.ne', hloop⟩

/-- What a history keeps: the buffer holds what is in no block yet, and after a call that
is not broken off counts less than a block. -/
structure Collected (s₀ : VideoCreater) (h : AudioHistory) (rest : List UInt8) : Prop where
  audioBuffer : MemoryBuffer.Represents h.creater.audioBuffer rest
  setup : SameSetup s₀ h.creater
  sliced : Sliced s₀.dataSize h.written h.blocks rest
  nextPts : h.creater.audioSt.nextPts = s₀.audioSt.nbSamples * h.blocks.length
  returned : ∀ c ∈ h.calls, c.returned = false ↔ c.BlockFailed
  counted : ∀ front c, h.calls = front ++ [c] → c.returned = true →
    h.creater.audioBuffer.size < s₀.dataSize

/-- A call `c` of a history with `rest` in the buffer, and what it leaves there. -/
structure Called (h : AudioHistory) (rest : List UInt8) (c : AudioCall) (h' : AudioHistory)
    (rest' : List UInt8) : Prop where
  calls : h'.calls = h.calls ++ [c]
  left : rest'.length ≤ rest.length + c.packet.length
  few : (h.creater.audioBuffer.write c.packet).size < h.creater.dataSize →
    c.returned = true ∧ rest' = rest ++ c.packet

/-- A call cuts further slices off what is left and what it is given. -/
theorem Collected.step {h : AudioHistory} {rest : List UInt8} (hcollected : Collected s₀ h rest)
    (hpos : 0 < s₀.dataSize) (packet : List UInt8) (results : ℕ → AudioResults) :
    ∃ h' c rest', h.step (packet, results) = some h' ∧ Called h rest c h' rest' ∧
      c.packet = packet ∧ c.results = results ∧ Collected s₀ h' rest' := by
  have hsize := hcollected.setup.dataSize
  obtain ⟨blocks, returned, t, hwrite, hreturned⟩ :=
    writeAudioPacket_returns (s := h.creater) (hsize ▸ hpos) packet results
  obtain ⟨-, ⟨hsetup, -, hpts, ⟨rest', hrest', hsliced⟩, hcounted⟩, hfew⟩ :=
    writeAudioPacket_spec hcollected.audioBuffer hwrite
  have hwhole := hsliced.whole
  rw [hsize] at hsliced hcounted
  refine ⟨⟨t, h.calls ++ [⟨packet, results, blocks, returned⟩]⟩, _, rest', ?_,
    ⟨rfl, ?_, ?_⟩, rfl, rfl, hrest', hcollected.setup.trans hsetup, ?_, ?_, ?_, ?_⟩
  · rw [AudioHistory.step, hwrite]
    rfl
  · rw [← List.length_append, ← hwhole, List.length_append]
    exact Nat.le_add_left _ _
  · intro hshort
    obtain rfl := hfew.mpr hshort
    refine ⟨Bool.eq_true_of_not_eq_false fun hfalse => ?_, hwhole⟩
    obtain ⟨k, hk, -⟩ := hreturned.mp hfalse
    exact absurd hk (Nat.not_lt_zero k)
  · have hmore := (hcollected.sliced.write packet).trans hsliced
    simpa [AudioHistory.written, AudioHistory.blocks] using hmore
  · rw [hpts, hcollected.nextPts, hcollected.setup.nbSamples]
    simp only [AudioHistory.blocks, List.map_append, List.flatten_append, List.length_append,
      List.map_cons, List.map_nil, List.flatten_singleton]
    push_cast
    ring
  · intro c hc
    rcases List.mem_append.mp hc with hbefore | hlast
    · exact hcollected.returned c hbefore
    · rw [List.mem_singleton.mp hlast]
      exact hreturned
  · intro front c hsplit htrue
    obtain ⟨-, hlast⟩ := List.append_inj' hsplit rfl
    rw [← List.singleton_inj.mp hlast] at htrue
    exact hcounted htrue

theorem Collected.inOrder_iff {h : AudioHistory} {rest : List UInt8}
    (hcollected : Collected s₀ h rest) :
    InOrder s₀ h ↔ ∀ front c, h.calls = front ++ [c] → c.returned = true →
      rest.length < s₀.dataSize := by
  have hunread := hcollected.audioBuffer.unread
  constructor
  · intro h front c hsplit htrue
    rw [← hunread]
    exact h.left front c hsplit htrue
  · intro hleft
    refine ⟨fun _ hk => hcollected.sliced.getElem_eq hk, ?_, hcollected.nextPts,
      hcollected.returned, ?_⟩
    · rw [hunread]
      exact hcollected.sliced.whole
    · rw [hunread]
      exact hleft

/-- The buffer has at most what it had and the packet.  When they do not fit an `int`, the
counter is negative, so that no block is read and the call succeeds with all of them left. -/
theorem Collected.inOrder_step {h h' : AudioHistory} {rest rest' : List UInt8} {c : AudioCall}
    (hfresh : Fresh s₀) (hcollected : Collected s₀ h rest) (hcollected' : Collected s₀ h' rest')
    (hcalled : Called h rest c h' rest') (hrest : rest.length < 2 ^ 31)
    (hpacket : c.packet.length < 2 ^ 31) :
    InOrder s₀ h' ↔ rest.length + c.packet.length < 2 ^ 31 := by
  rw [hcollected'.inOrder_iff]
  constructor
  · intro hleft
    by_contra hlarge
    have hwrapped := toInt_le_sub (n := (rest ++ c.packet).length) (by
      rw [List.length_append]
      omega)
    obtain ⟨hreturned, rfl⟩ := hcalled.few (by
      rw [(hcollected.audioBuffer.write c.packet).size, List.length_append] at *
      omega)
    have hfew := hleft h.calls c hcalled.calls hreturned
    have hint := hfresh.int
    rw [List.length_append] at hfew
    omega
  · intro hfits front c' hsplit htrue
    have hcounted := hcollected'.counted front c' hsplit htrue
    rw [hcollected'.audioBuffer.size_eq (Nat.lt_of_le_of_lt hcalled.left hfits)] at hcounted
    exact_mod_cast hcounted

theorem Fresh.collected (h : Fresh s₀) : Collected s₀ { creater := s₀ } [] where
  audioBuffer := h.audioBuffer
  setup := SameSetup.refl s₀
  sliced := Sliced.start _ []
  nextPts := h.nextPts
  returned _ hc := absurd hc List.not_mem_nil
  counted _ _ hsplit := by simp at hsplit

theorem Fresh.inOrder (h : Fresh s₀) : InOrder s₀ { creater := s₀ } :=
  h.collected.inOrder_iff.mpr fun _ _ hsplit => by simp at hsplit

/-- Every history of `writeAudioPacket` calls runs through, whichever blocks fail. -/
theorem Fresh.collected_run (h : Fresh s₀) (calls : List (List UInt8 × (ℕ → AudioResults))) :
    ∃ h rest, (AudioHistory.machine s₀).run calls = some h ∧
      h.calls.map (fun c => (c.packet, c.results)) = calls ∧ Collected s₀ h rest ∧
      ((AudioHistory.machine s₀).Always Fits calls → rest.length < 2 ^ 31) := by
  induction calls using List.reverseRecOn with
  | nil => exact ⟨_, [], rfl, rfl, h.collected, fun _ => by norm_num⟩
  | append_singleton calls call ih =>
      obtain ⟨before, rest, hrun, hcalls, hcollected, -⟩ := ih
      obtain ⟨packet, results⟩ := call
      obtain ⟨after, c, rest', hstep, hcalled, rfl, rfl, hcollected'⟩ :=
        hcollected.step h.dataSize packet results
      refine ⟨after, rest', Machine.run_concat_eq_some.mpr ⟨before, hrun, hstep⟩, ?_, hcollected',
        fun hfits => ?_⟩
      · rw [hcalled.calls, List.map_append, hcalls]
        rfl
      · have hlast := ((Machine.always_concat calls _).mp hfits).2 before hrun
        rw [Fits, hcollected.audioBuffer.unread] at hlast
        exact Nat.lt_of_le_of_lt hcalled.left hlast

end

/-- Every history of `writeAudioPacket` calls runs through, whichever blocks fail, and its
blocks are in order throughout if and only if no packet meets more bytes in the buffer than
fit an `int` together with it. -/
theorem blocks_in_order_iff {s₀ : VideoCreater} (hfresh : Fresh s₀)
    {calls : List (List UInt8 × (ℕ → AudioResults))}
    (hsizes : ∀ call ∈ calls, call.1.length < 2 ^ 31) :
    ∃ h, (AudioHistory.machine s₀).run calls = some h ∧
      h.calls.map (fun c => (c.packet, c.results)) = calls ∧
      ((AudioHistory.machine s₀).Throughout (InOrder s₀) calls ↔
        (AudioHistory.machine s₀).Always Fits calls) := by
  obtain ⟨h, rest, hrun, hcalls, -⟩ := hfresh.collected_run calls
  refine ⟨h, hrun, hcalls, ?_⟩
  clear hrun hcalls
  induction calls using List.reverseRecOn with
  | nil => exact iff_of_true (Machine.throughout_nil.mpr hfresh.inOrder) (Machine.always_nil _)
  | append_singleton calls call ih =>
      obtain ⟨before, rest, hrun, -, hcollected, hrest⟩ := hfresh.collected_run calls
      obtain ⟨packet, results⟩ := call
      obtain ⟨after, c, rest', hstep, hcalled, rfl, rfl, hcollected'⟩ :=
        hcollected.step hfresh.dataSize packet results
      have hpacket := hsizes (c.packet, c.results) (List.mem_append_right _ List.mem_cons_self)
      have hrun' := Machine.run_concat_eq_some.mpr ⟨before, hrun, hstep⟩
      rw [Machine.throughout_concat, Machine.always_concat,
        ih fun call hcall => hsizes call (List.mem_append_left _ hcall)]
      refine and_congr_right fun hfits => ?_
      simp only [hrun, hrun', Option.some.injEq, forall_eq']
      rw [hcollected.inOrder_step hfresh hcollected' hcalled (hrest hfits) hpacket, Fits,
        hcollected.audioBuffer.unread]

/-- Blocks of four bytes: the second of the first call fails, and the second call goes on with
the third. -/
theorem blocks_in_order_iff_failed :
    let s₀ := new 1 44100 1 none
    let calls : List (List UInt8 × (ℕ → AudioResults)) :=
      [([1, 2, 3, 4, 5, 6, 7, 8, 9, 10], fun k => { encode := decide (k ≠ 1) }),
        ([11, 12, 13], fun _ => {})]
    ∃ h, (AudioHistory.machine s₀).run calls = some h ∧
      h.calls.map (fun c => (c.packet, c.results)) = calls ∧
      ((AudioHistory.machine s₀).Throughout (InOrder s₀) calls ↔
        (AudioHistory.machine s₀).Always Fits calls) :=
  blocks_in_order_iff ⟨MemoryBuffer.represents_new, rfl, by decide, by decide⟩ (by decide)

/-- Less than a block waits, and the next packet makes it 2^31 bytes or more. -/
theorem Fresh.not_inOrder {s₀ : VideoCreater} (hfresh : Fresh s₀) {first packet : List UInt8}
    (results : ℕ → AudioResults) (hfirst : first.length < s₀.dataSize)
    (hpacket : packet.length < 2 ^ 31) (hlarge : 2 ^ 31 ≤ first.length + packet.length) :
    ∃ h, (AudioHistory.machine s₀).run [(first, results), (packet, results)] = some h ∧
      ¬ InOrder s₀ h := by
  obtain ⟨waiting, c, rest, hstep, hcalled, rfl, rfl, hcollected⟩ :=
    hfresh.collected.step hfresh.dataSize first results
  obtain ⟨full, c', rest', hstep', hcalled', rfl, -, hcollected'⟩ :=
    hcollected.step hfresh.dataSize packet c.results
  obtain ⟨-, rfl⟩ := hcalled.few (by
    rw [(hfresh.audioBuffer.write c.packet).size, List.nil_append]
    exact lt_of_le_of_lt (toInt_le (Nat.cast_nonneg _)) (by exact_mod_cast hfirst))
  have hint := hfresh.int
  rw [List.nil_append] at hcalled' hcollected
  refine ⟨full, ?_, ?_⟩
  · exact Machine.run_concat_eq_some.mpr ⟨waiting, Machine.run_concat_eq_some.mpr
      ⟨_, Machine.run_nil, hstep⟩, hstep'⟩
  · rw [hcollected.inOrder_step hfresh hcollected' hcalled' (hfirst.trans hint) hpacket]
    exact not_lt.mpr hlarge

/-- A byte that waits for the rest of its block, and a packet of 2^31 - 1 bytes. -/
theorem full_buffer_not_inOrder :
    let s₀ := new 1 44100 1 none
    let calls : List (List UInt8 × (ℕ → AudioResults)) :=
      [([1], fun _ => {}), (List.replicate 2147483647 0, fun _ => {})]
    ∃ h, (AudioHistory.machine s₀).run calls = some h ∧ ¬ InOrder s₀ h := by
  have hfresh : Fresh (new 1 44100 1 none) :=
    ⟨MemoryBuffer.represents_new, rfl, by decide, by decide⟩
  refine hfresh.not_inOrder (fun _ => {}) (by decide) ?_ ?_
  · rw [List.length_replicate]
    norm_num
  · rw [List.length_replicate]
    norm_num

end VideoCreater

end RyuLib
