import RyuLib.Buffer.MemoryBuffer
import RyuLib.Foundations.Machine

/-!
# Reads of zero bytes

`MemoryBuffer::read` rejects only what is larger than `size_`, so a size of zero
reaches the copy loop.  There `copied <= 0` stands for a chunk with nothing
left, but a chunk of which nothing was asked copies nothing either: the loop
deletes every queued `Buffer` and leaves `size_` as it was.

`Counted` is what the later reads rely on.  A read of zero bytes keeps it exactly
when nothing is unread, a write exactly when `size_`, an `int`, does not wrap, and
every other call does (`zero_reads_lose_nothing_iff`).
-/

namespace RyuLib.MemoryBuffer

open Foundations

/-- `size_` is the sum of the remaining sizes of the queued `Buffer`s. -/
def Counted (m : MemoryBuffer) : Prop := m.size = (m.queue.map Buffer.size).sum

/-- A `MemoryBuffer` and the calls made on it. -/
def calls : Machine MemoryBuffer (FifoCall UInt8) := ⟨{}, fun m call => some (step m call).2⟩

/-- Whatever a read returns is filled to its end, and a read of zero bytes leaves
the unread bytes as they were. -/
def ReadsWhole (m : MemoryBuffer) : FifoCall UInt8 → Prop
  | .read k =>
      (∀ bytes, (m.read k).1 = some bytes → bytes.length = k) ∧
        (k = 0 → (m.read k).2.unread = m.unread)
  | _ => True

/-- Zero bytes are asked for only when nothing is unread, and a write leaves no more
unread than an `int` counts. -/
def Counts (m : MemoryBuffer) : FifoCall UInt8 → Prop
  | .read k => k = 0 → m.unread = []
  | .write data => m.unread.length + data.length < 2 ^ 31
  | .clear => True

theorem length_unread (m : MemoryBuffer) : m.unread.length = (m.queue.map Buffer.size).sum := by
  rw [unread, List.length_flatten, List.map_map]
  congr 1
  apply List.map_congr_left
  intro buffer _
  exact buffer.length_unread

/-- The counter counts the chunks exactly when it counts their bytes. -/
theorem counted_iff (m : MemoryBuffer) : Counted m ↔ m.size = m.unread.length := by
  rw [Counted, length_unread]

theorem Represents.counted {m : MemoryBuffer} {bytes : List UInt8} (h : Represents m bytes)
    (hfits : bytes.length < 2 ^ 31) : Counted m := by
  rw [counted_iff, h.unread]
  exact h.size_eq hfits

/-- A counter that is right, and an `int`, counts no more than one can. -/
theorem Counted.represents {m : MemoryBuffer} (h : Counted m) (hint : m.size < 2 ^ 31) :
    Represents m m.unread ∧ m.unread.length < 2 ^ 31 := by
  rw [counted_iff] at h
  rw [h] at hint
  refine ⟨⟨rfl, ?_⟩, by exact_mod_cast hint⟩
  rw [h, toInt_of_lt (Nat.cast_nonneg _) hint]

/-! ## One write -/

theorem unread_write (m : MemoryBuffer) (data : List UInt8) :
    (m.write data).unread = m.unread ++ data := by
  simp [unread, write]

/-- A write keeps the counter right exactly when it does not wrap. -/
theorem counted_write {m : MemoryBuffer} (h : Counted m) (data : List UInt8) :
    Counted (m.write data) ↔ m.unread.length + data.length < 2 ^ 31 := by
  rw [counted_iff] at h
  have hlow : 0 ≤ ((m.unread.length + data.length : ℕ) : ℤ) := Nat.cast_nonneg _
  rw [counted_iff, unread_write, size_write, h, List.length_append, ← Nat.cast_add,
    toInt_eq_iff hlow]
  exact_mod_cast Iff.rfl

/-! ## One read -/

/-- When nothing is wanted the loop drops every chunk. -/
theorem copyLoop_zero (queue : List Buffer) : copyLoop queue 0 = ([], []) := by
  induction queue with
  | nil => rw [copyLoop]
  | cons buffer queue ih =>
      have hcopied : (buffer.read 0).1 = 0 := by
        rw [(buffer.read_spec 0).1, Nat.zero_min]
      rw [copyLoop]
      simp only [hcopied, if_true, ih]

theorem read_zero {m : MemoryBuffer} (h : 0 ≤ m.size) :
    m.read 0 = (some [], { size := m.size, queue := [] }) := by
  rw [read, if_neg (by simpa using h), copyLoop_zero]
  simp

theorem Counted.size_nonneg {m : MemoryBuffer} (h : Counted m) : 0 ≤ m.size := by
  rw [h]
  exact Nat.cast_nonneg _

/-- A read of zero bytes keeps the counter right exactly when there is nothing to lose. -/
theorem counted_read_zero {m : MemoryBuffer} (h : Counted m) :
    Counted (m.read 0).2 ↔ m.unread = [] := by
  rw [read_zero h.size_nonneg, ← List.length_eq_zero_iff]
  rw [counted_iff] at h
  unfold Counted
  simp [h]

theorem readsWhole_zero {m : MemoryBuffer} (h : Counted m) (hnil : m.unread = []) :
    ReadsWhole m (.read 0) := by
  rw [ReadsWhole, read_zero h.size_nonneg]
  constructor
  · intro bytes hbytes
    rw [← Option.some.inj hbytes]
    rfl
  · intro _
    exact hnil.symm

/-- A read of at least one byte keeps the counter right and fills what it returns. -/
theorem Counted.read {m : MemoryBuffer} (h : Counted m) (hint : m.size < 2 ^ 31) {k : ℕ}
    (hk : 0 < k) : Counted (m.read k).2 ∧ ReadsWhole m (.read k) := by
  obtain ⟨hrepresents, hfits⟩ := h.represents hint
  by_cases hshort : m.unread.length < k
  · rw [ReadsWhole, hrepresents.read_short hshort]
    refine ⟨h, ?_, fun _ => rfl⟩
    intro bytes hbytes
    cases hbytes
  · have henough : k ≤ m.unread.length := Nat.le_of_not_lt hshort
    obtain ⟨hreturned, hafter⟩ := hrepresents.read_enough hfits hk henough
    have hfewer : (m.unread.drop k).length < 2 ^ 31 := by
      rw [List.length_drop]
      omega
    refine ⟨hafter.counted hfewer, ?_, fun hzero => absurd hzero (Nat.ne_of_gt hk)⟩
    intro bytes hbytes
    rw [hreturned] at hbytes
    rw [← Option.some.inj hbytes, List.length_take, Nat.min_eq_left henough]

/-! ## Whole runs -/

theorem run_calls (inputs : List (FifoCall UInt8)) : ∃ m, calls.run inputs = some m := by
  induction inputs using List.reverseRecOn with
  | nil => exact ⟨{}, Machine.run_nil⟩
  | append_singleton inputs call ih =>
      obtain ⟨m, hm⟩ := ih
      exact ⟨(step m call).2, Machine.run_concat_eq_some.mpr ⟨m, hm, rfl⟩⟩

/-- `size_` is an `int` in every state. -/
theorem size_lt_run {inputs : List (FifoCall UInt8)} {m : MemoryBuffer}
    (hrun : calls.run inputs = some m) : m.size < 2 ^ 31 := by
  refine Machine.invariant (M := calls) (I := fun m => m.size < 2 ^ 31) (by decide) ?_ hrun
  rintro m call m' hm ⟨⟩
  cases call with
  | write data => exact toInt_lt _
  | read k =>
      simp only [step, MemoryBuffer.read]
      split
      · exact hm
      · simp only
        omega
  | clear => exact (by decide : (0 : ℤ) < 2 ^ 31)

/-- One call keeps the counter right, and returns what it should, exactly when it is neither
a read of zero bytes with something unread nor a write that makes the counter wrap. -/
theorem counted_step_iff {m : MemoryBuffer} (h : Counted m) (hint : m.size < 2 ^ 31)
    (call : FifoCall UInt8) :
    Counted (step m call).2 ∧ ReadsWhole m call ↔ Counts m call := by
  cases call with
  | write data => exact (and_iff_left trivial).trans (counted_write h data)
  | clear => exact iff_of_true ⟨(represents_clear m).counted (by norm_num), trivial⟩ trivial
  | read k =>
      rcases Nat.eq_zero_or_pos k with rfl | hk
      · constructor
        · intro hread _
          exact (counted_read_zero h).mp hread.1
        · intro hasks
          have hnil : m.unread = [] := hasks rfl
          exact ⟨(counted_read_zero h).mpr hnil, readsWhole_zero h hnil⟩
      · exact iff_of_true (h.read hint hk) fun hzero => absurd hzero (Nat.ne_of_gt hk)

/-- In every state of a run `size_` is the sum of the remaining sizes, and every
read returns as many bytes as it was asked for and loses none, exactly when no
read of zero bytes is made while bytes are unread, and no write leaves more unread than
an `int` counts. -/
theorem zero_reads_lose_nothing_iff (inputs : List (FifoCall UInt8)) :
    calls.Throughout Counted inputs ∧ calls.Always ReadsWhole inputs ↔
      calls.Always Counts inputs := by
  obtain ⟨m, hm⟩ := run_calls inputs
  refine Machine.throughout_and_always_iff (by rfl) ?_ hm
  intro before m call m' hrun hbefore _ hstep
  cases hstep
  exact counted_step_iff (hbefore.last hrun) (size_lt_run hrun) call

/-- One byte is written and zero bytes are read: the byte is gone, `size_` still
counts it, and the next read of one byte returns a block into which nothing
was copied. -/
theorem zero_read_loses_a_byte :
    let inputs : List (FifoCall UInt8) := [.write [7], .read 0, .read 1]
    ¬ (calls.Throughout Counted inputs ∧ calls.Always ReadsWhole inputs) := by
  intro inputs h
  have hstate : calls.run [.write [7], .read 0] = some { size := 1, queue := [] } :=
    congrArg some (congrArg Prod.snd (read_zero (by decide)))
  obtain ⟨hfilled, -⟩ := h.2 [.write [7], .read 0] (.read 1) [] rfl _ hstate
  have hread : (({ size := 1, queue := [] } : MemoryBuffer).read 1).1 = some [] := by
    simp [MemoryBuffer.read, copyLoop]
  exact absurd (hfilled [] hread) (by decide)

end RyuLib.MemoryBuffer
