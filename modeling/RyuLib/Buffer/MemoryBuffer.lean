import RyuLib.Foundations.Fifo
import RyuLib.Socket.Packet

/-!
# MemoryBuffer

A queue of `Buffer`s, each the copy of one written chunk with the part of it not
yet read, and a counter `size_` of the unread bytes.  A read takes bytes from
the front chunk on and drops a chunk only when a later read finds nothing in it,
so exhausted and empty chunks stand in the queue at any time.

`Represents` links the counter and the chunks to the flat list of unread bytes.
It is kept by every write, every read of at least one byte and `clear`.  The
counter is an `int` and holds the number of unread bytes as far as that fits:
with too many of them a read finds less than there is, or nothing at all, but
what it returns are always the oldest bytes (`Represents.read_cases`).  While
they fit, the buffer is the flat queue over whole runs (`memoryBuffer_refines`).

The size of a single chunk or read is an `int` that is not negative, and is
written as a natural number.
-/

namespace RyuLib

open Foundations

/-- A written chunk: `size_` of its bytes, from `offset_` on, are unread. -/
structure Buffer where
  data : List UInt8
  offset : ℕ
  size : ℕ
  inside : offset + size = data.length

namespace Buffer

def new (data : List UInt8) : Buffer := ⟨data, 0, data.length, Nat.zero_add _⟩

/-- `read(data, size)`: the number of bytes copied, the bytes, the buffer after. -/
def read (b : Buffer) (size : ℕ) : ℕ × List UInt8 × Buffer :=
  if b.size = 0 then (0, [], b)
  else
    let result := if size > b.size then b.size else size
    (result, (b.data.drop b.offset).take result,
      { data := b.data
        offset := b.offset + result
        size := b.size - result
        inside := by
          have hresult : result ≤ b.size := by
            change (if size > b.size then b.size else size) ≤ b.size
            split <;> omega
          have hinside := b.inside
          omega })

/-- The unread bytes of a chunk. -/
def unread (b : Buffer) : List UInt8 := b.data.drop b.offset

@[simp] theorem unread_new (data : List UInt8) : (new data).unread = data := rfl

@[simp] theorem length_unread (b : Buffer) : b.unread.length = b.size := by
  have hinside := b.inside
  rw [unread, List.length_drop]
  omega

/-- A read copies from the front of the unread bytes as far as they reach. -/
theorem read_spec (b : Buffer) (size : ℕ) :
    (b.read size).1 = min size b.size ∧
      (b.read size).2.1 = b.unread.take size ∧
      (b.read size).2.2.unread = b.unread.drop size := by
  have hlength := b.length_unread
  unfold read
  split
  · rename_i hzero
    have hnil : b.unread = [] := List.eq_nil_of_length_eq_zero (by omega)
    simp [hnil, hzero]
  · simp only
    split
    · rename_i hlarge
      refine ⟨by omega, ?_, ?_⟩
      · change b.unread.take b.size = _
        rw [← hlength, List.take_length, List.take_of_length_le (by omega)]
      · change b.data.drop (b.offset + b.size) = _
        rw [← List.drop_drop]
        change b.unread.drop b.size = _
        rw [List.drop_of_length_le (by omega), List.drop_of_length_le (by omega)]
    · rename_i hsmall
      refine ⟨by omega, rfl, ?_⟩
      change b.data.drop (b.offset + size) = _
      rw [← List.drop_drop]
      rfl

end Buffer

structure MemoryBuffer where
  size : ℤ := 0
  queue : List Buffer := []

namespace MemoryBuffer

def clear (_ : MemoryBuffer) : MemoryBuffer := { size := 0, queue := [] }

def write (m : MemoryBuffer) (data : List UInt8) : MemoryBuffer :=
  { queue := m.queue ++ [Buffer.new data], size := toInt (m.size + data.length) }

/-- The copy loop of `read`: the bytes copied while `bytes_to_copy` are wanted,
and the queue after it. -/
def copyLoop (queue : List Buffer) (bytesToCopy : ℕ) : List UInt8 × List Buffer :=
  match queue with
  | [] => ([], [])
  | buffer :: queue =>
      let (copied, bytes, buffer') := buffer.read bytesToCopy
      -- a chunk with nothing left is dropped only now
      if copied = 0 then copyLoop queue bytesToCopy
      else if bytesToCopy - copied = 0 then (bytes, buffer' :: queue)
      else
        let (more, queue') := copyLoop (buffer' :: queue) (bytesToCopy - copied)
        (bytes ++ more, queue')
termination_by (bytesToCopy, queue.length)

/-- `none` is `nullptr`; otherwise the bytes that were copied into the result. -/
def read (m : MemoryBuffer) (size : ℕ) : Option (List UInt8) × MemoryBuffer :=
  if size > m.size then (none, m)
  else
    let (bytes, queue) := copyLoop m.queue size
    -- no more than `size_` is taken from it, so it does not wrap here
    (some bytes, { size := m.size - size, queue := queue })

/-- The unread bytes, oldest first. -/
def unread (m : MemoryBuffer) : List UInt8 := (m.queue.map Buffer.unread).flatten

/-- The counter counts the unread bytes, as far as an `int` does, and they are `bytes`. -/
structure Represents (m : MemoryBuffer) (bytes : List UInt8) : Prop where
  unread : m.unread = bytes
  size : m.size = toInt bytes.length

/-! ## The copy loop -/

/-- While bytes are wanted and there are enough, the loop takes exactly the front
of the unread bytes: exhausted and empty chunks contribute nothing, a chunk that
does not suffice is emptied and then dropped. -/
theorem copyLoop_spec (queue : List Buffer) {n : ℕ} (hpos : 0 < n)
    (hle : n ≤ (queue.map Buffer.unread).flatten.length) :
    (copyLoop queue n).1 = (queue.map Buffer.unread).flatten.take n ∧
      ((copyLoop queue n).2.map Buffer.unread).flatten =
        (queue.map Buffer.unread).flatten.drop n := by
  fun_induction copyLoop queue n with
  | case1 n =>
      simp only [List.map_nil, List.flatten_nil, List.length_nil] at hle
      omega
  | case2 n buffer queue bytes buffer' hread ih =>
      obtain ⟨hcopied, _, _⟩ := buffer.read_spec n
      rw [hread] at hcopied
      have hnil : buffer.unread = [] := by
        apply List.eq_nil_of_length_eq_zero
        rw [buffer.length_unread]
        omega
      rw [List.map_cons, List.flatten_cons, hnil, List.nil_append] at hle ⊢
      exact ih hpos hle
  | case3 n buffer queue copied bytes buffer' hread hcopied hdone =>
      obtain ⟨hlength, hbytes, hunread⟩ := buffer.read_spec n
      rw [hread] at hlength hbytes hunread
      -- all that is wanted comes from this chunk
      have hfits : n ≤ buffer.unread.length := by
        rw [buffer.length_unread]
        omega
      rw [List.map_cons, List.map_cons, List.flatten_cons, List.flatten_cons, hbytes, hunread,
        List.take_append_of_le_length hfits, List.drop_append_of_le_length hfits]
      exact ⟨rfl, rfl⟩
  | case4 n buffer queue copied bytes buffer' hread hcopied hmore more queue' heq ih =>
      obtain ⟨hlength, hbytes, hunread⟩ := buffer.read_spec n
      rw [hread] at hlength hbytes hunread
      -- the chunk is shorter than what is wanted, so it is emptied
      have hshort : buffer.unread.length = copied := by
        rw [buffer.length_unread]
        omega
      have hempty : buffer'.unread = [] := by
        rw [hunread, List.drop_eq_nil_iff]
        omega
      rw [List.map_cons, List.flatten_cons, List.length_append, hshort] at hle
      rw [List.map_cons, List.flatten_cons, hempty, List.nil_append, heq] at ih
      obtain ⟨htake, hdrop⟩ := ih (by omega) (by omega)
      rw [List.map_cons, List.flatten_cons, List.take_append, List.drop_append, hshort,
        List.take_of_length_le (by omega), List.drop_of_length_le (by omega), ← htake, ← hdrop]
      refine ⟨?_, rfl⟩
      change bytes ++ more = buffer.unread ++ more
      have htaken : bytes = buffer.unread.take n := hbytes
      rw [htaken, List.take_of_length_le (by omega)]

/-! ## The calls against the flat list -/

theorem represents_new : Represents {} [] := ⟨rfl, rfl⟩

theorem represents_clear (m : MemoryBuffer) : Represents m.clear [] := ⟨rfl, rfl⟩

theorem Represents.write {m : MemoryBuffer} {bytes : List UInt8} (h : Represents m bytes)
    (data : List UInt8) : Represents (m.write data) (bytes ++ data) := by
  constructor
  · have hunread := h.unread
    rw [MemoryBuffer.unread] at hunread ⊢
    simp [MemoryBuffer.write, hunread]
  · rw [MemoryBuffer.write, h.size, toInt_toInt_add, List.length_append, Nat.cast_add]

/-- Whether a read finds enough is up to the counter alone. -/
theorem isSome_read (m : MemoryBuffer) (size : ℕ) :
    (m.read size).1.isSome = true ↔ size ≤ m.size := by
  unfold read
  split
  · rename_i hshort
    exact iff_of_false (by simp) (by omega)
  · rename_i henough
    exact iff_of_true rfl (by omega)

/-- A read that finds enough in the counter takes the oldest bytes. -/
theorem Represents.read_counted {m : MemoryBuffer} {bytes : List UInt8} (h : Represents m bytes)
    {size : ℕ} (hpos : 0 < size) (hcounted : size ≤ m.size) :
    size ≤ bytes.length ∧ (m.read size).1 = some (bytes.take size) ∧
      Represents (m.read size).2 (bytes.drop size) := by
  have hsize := h.size
  rw [hsize] at hcounted
  have hle : size ≤ bytes.length := by
    have htoInt := toInt_le (n := bytes.length) (Nat.cast_nonneg _)
    omega
  have hunread := h.unread
  rw [MemoryBuffer.unread] at hunread
  obtain ⟨htake, hdrop⟩ := copyLoop_spec m.queue hpos (by rw [hunread]; exact hle)
  rw [hunread] at htake hdrop
  rw [MemoryBuffer.read, if_neg (by omega)]
  refine ⟨hle, congrArg some htake, hdrop, ?_⟩
  show m.size - size = _
  rw [hsize, toInt_sub (Nat.cast_nonneg _) hcounted, List.length_drop, Nat.cast_sub hle]

/-- A read returns `nullptr` and changes nothing, or it takes the oldest bytes. -/
theorem Represents.read_cases {m : MemoryBuffer} {bytes : List UInt8} (h : Represents m bytes)
    {size : ℕ} (hpos : 0 < size) :
    (m.size < size ∧ m.read size = (none, m)) ∨
      (size ≤ m.size ∧ size ≤ bytes.length ∧ (m.read size).1 = some (bytes.take size) ∧
        Represents (m.read size).2 (bytes.drop size)) := by
  by_cases hcounted : (size : ℤ) ≤ m.size
  · exact Or.inr ⟨hcounted, h.read_counted hpos hcounted⟩
  · exact Or.inl ⟨not_le.mp hcounted, by rw [MemoryBuffer.read, if_pos (not_le.mp hcounted)]⟩

/-- `nullptr`, and no change, when fewer bytes are unread than asked for. -/
theorem Represents.read_short {m : MemoryBuffer} {bytes : List UInt8} (h : Represents m bytes)
    {size : ℕ} (hshort : bytes.length < size) : m.read size = (none, m) := by
  rcases h.read_cases (Nat.zero_lt_of_lt hshort) with ⟨-, hnull⟩ | ⟨-, hle, -⟩
  · exact hnull
  · omega

/-- The counter of a buffer whose unread bytes fit an `int`. -/
theorem Represents.size_eq {m : MemoryBuffer} {bytes : List UInt8} (h : Represents m bytes)
    (hfits : bytes.length < 2 ^ 31) : m.size = bytes.length := by
  rw [h.size, toInt_of_lt (Nat.cast_nonneg _) (by exact_mod_cast hfits)]

/-- Otherwise the oldest bytes, as long as the unread ones fit an `int`. -/
theorem Represents.read_enough {m : MemoryBuffer} {bytes : List UInt8} (h : Represents m bytes)
    (hfits : bytes.length < 2 ^ 31) {size : ℕ} (hpos : 0 < size) (hle : size ≤ bytes.length) :
    (m.read size).1 = some (bytes.take size) ∧ Represents (m.read size).2 (bytes.drop size) := by
  have hcounted : (size : ℤ) ≤ m.size := by
    rw [h.size_eq hfits]
    exact_mod_cast hle
  exact (h.read_counted hpos hcounted).2

/-- A chunk that finds nothing unread is read as a whole. -/
theorem Represents.read_chunk {m : MemoryBuffer} (h : Represents m []) {data : List UInt8}
    (hpos : 0 < data.length) (hfits : data.length < 2 ^ 31) :
    ((m.write data).read data.length).1 = some data ∧
      Represents ((m.write data).read data.length).2 [] := by
  obtain ⟨hread, hleft⟩ := (h.write data).read_enough hfits hpos le_rfl
  rw [List.nil_append, List.take_length] at hread
  rw [List.nil_append, List.drop_length] at hleft
  exact ⟨hread, hleft⟩

@[simp] theorem size_write (m : MemoryBuffer) (data : List UInt8) :
    (m.write data).size = toInt (m.size + data.length) := rfl

/-! ## Whole runs -/

/-- The calls on a `MemoryBuffer`. -/
def step (m : MemoryBuffer) : FifoCall UInt8 → Option (List UInt8) × MemoryBuffer
  | .write data => (none, m.write data)
  | .read size => m.read size
  | .clear => (none, m.clear)

def component : Fifo.Component MemoryBuffer UInt8 := ⟨{}, step⟩

/-- A read asks for at least one byte, and a write leaves no more unread than an `int`
counts. -/
def Fits (unread : List UInt8) : FifoCall UInt8 → Prop
  | .write data => unread.length + data.length < 2 ^ 31
  | .read size => 1 ≤ size
  | .clear => True

instance decidableFits (unread : List UInt8) : ∀ call, Decidable (Fits unread call)
  | .write data => inferInstanceAs (Decidable (unread.length + data.length < 2 ^ 31))
  | .read size => inferInstanceAs (Decidable (1 ≤ size))
  | .clear => inferInstanceAs (Decidable True)

/-- `MemoryBuffer` refines the flat list of its unread bytes. -/
theorem memoryBuffer_refines : Fifo.Refines component Fits
    fun m bytes => Represents m bytes ∧ bytes.length < 2 ^ 31 where
  init := ⟨represents_new, by norm_num⟩
  returns := by
    rintro m bytes call hcall ⟨h, hfits⟩
    cases call with
    | write data => rfl
    | read size =>
        by_cases hshort : bytes.length < size
        · simp only [component, step, Fifo.step]
          rw [h.read_short hshort, if_pos hshort]
        · simp only [component, step, Fifo.step]
          rw [(h.read_enough hfits hcall (by omega)).1, if_neg hshort]
    | clear => rfl
  related := by
    rintro m bytes call hcall ⟨h, hfits⟩
    cases call with
    | write data =>
        refine ⟨h.write data, ?_⟩
        simp only [Fifo.step, List.length_append]
        exact hcall
    | read size =>
        by_cases hshort : bytes.length < size
        · simp only [component, step, Fifo.step]
          rw [h.read_short hshort, if_pos hshort]
          exact ⟨h, hfits⟩
        · simp only [component, step, Fifo.step]
          rw [if_neg hshort]
          refine ⟨(h.read_enough hfits hcall (by omega)).2, ?_⟩
          rw [List.length_drop]
          omega
    | clear => exact ⟨represents_clear m, by simp [Fifo.step]⟩

/-- After any calls that leave no more unread than an `int` counts: a read of `k` bytes
returns `nullptr` and changes nothing exactly when fewer than `k` bytes are unread, and
otherwise the `k` oldest of them; the blocks read since the last `clear` followed by the
unread bytes are the bytes written since then. -/
theorem read_is_fifo {calls : List (FifoCall UInt8)} (hcalls : Fifo.Allowed Fits calls)
    {k : ℕ} (hk : 1 ≤ k) :
    let m := (component.run calls).2
    (((m.read k).1 = none ∧ (m.read k).2 = m) ↔ m.unread.length < k) ∧
      (k ≤ m.unread.length →
        (m.read k).1 = some (m.unread.take k) ∧ (m.read k).2.unread = m.unread.drop k) ∧
      Fifo.returned (component.run calls).1 ++ m.unread =
        Fifo.written (component.run calls).1 := by
  intro m
  obtain ⟨htrace, hrepresents, hfits⟩ := memoryBuffer_refines.run hcalls
  have hunread : m.unread = ((Fifo.flat UInt8).run calls).2 := hrepresents.unread
  rw [← hunread] at hrepresents hfits
  refine ⟨⟨?_, ?_⟩, ?_, ?_⟩
  · intro hnull
    by_contra hlong
    rw [(hrepresents.read_enough hfits hk (by omega)).1] at hnull
    cases hnull.1
  · intro hshort
    rw [hrepresents.read_short hshort]
    exact ⟨rfl, rfl⟩
  · intro hle
    obtain ⟨hreturns, hafter⟩ := hrepresents.read_enough hfits hk hle
    exact ⟨hreturns, hafter.unread⟩
  · rw [htrace, hunread]
    exact Fifo.returned_append_unread calls

/-- Two chunks, an empty one between them, and a read across all three. -/
theorem read_is_fifo_straddling :
    let m := (component.run [.write [1, 2], .write [], .write [3, 4]]).2
    (((m.read 3).1 = none ∧ (m.read 3).2 = m) ↔ m.unread.length < 3) ∧
      (3 ≤ m.unread.length →
        (m.read 3).1 = some (m.unread.take 3) ∧ (m.read 3).2.unread = m.unread.drop 3) ∧
      Fifo.returned (component.run [.write [1, 2], .write [], .write [3, 4]]).1 ++ m.unread =
        Fifo.written (component.run [.write [1, 2], .write [], .write [3, 4]]).1 := by
  refine read_is_fifo ?_ (by decide)
  refine (Fifo.allowed_concat [.write [1, 2], .write []] _).mpr ⟨?_, by decide⟩
  refine (Fifo.allowed_concat [.write [1, 2]] _).mpr ⟨?_, by decide⟩
  exact (Fifo.allowed_concat [] _).mpr ⟨Fifo.allowed_nil _, by decide⟩

end MemoryBuffer

end RyuLib
