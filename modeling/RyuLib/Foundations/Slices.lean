import Mathlib.Tactic

/-!
# Slices of a stream

A stage that collects what it is given and hands on blocks of one length cuts the stream
into consecutive slices.  `Sliced` is its invariant: the blocks so far and what is left
are the stream.  From it the blocks are known exactly: they are the first slices of the
stream (`Sliced.eq_take`), and all of them when less than a block is left
(`Sliced.eq_slices`).
-/

namespace Foundations

variable {α : Type*} {n : ℕ}

/-- The consecutive slices of `n` elements; what is left behind the last one is in none. -/
def slices (n : ℕ) (stream : List α) : List (List α) :=
  (List.range (stream.length / n)).map fun i => (stream.drop (i * n)).take n

/-- What is in no slice. -/
def unsliced (n : ℕ) (stream : List α) : List α := stream.drop (stream.length / n * n)

@[simp] theorem length_slices (n : ℕ) (stream : List α) :
    (slices n stream).length = stream.length / n := by
  rw [slices, List.length_map, List.length_range]

theorem slices_of_lt {stream : List α} (h : stream.length < n) : slices n stream = [] := by
  rw [slices, Nat.div_eq_of_lt h, List.range_zero, List.map_nil]

theorem unsliced_of_lt {stream : List α} (h : stream.length < n) :
    unsliced n stream = stream := by
  rw [unsliced, Nat.div_eq_of_lt h, zero_mul, List.drop_zero]

theorem div_length_append (hn : 0 < n) {block : List α} (hblock : block.length = n)
    (stream : List α) : (block ++ stream).length / n = stream.length / n + 1 := by
  rw [List.length_append, hblock, Nat.add_div_left _ hn]

/-- The first slice. -/
theorem slices_append (hn : 0 < n) {block : List α} (hblock : block.length = n)
    (stream : List α) : slices n (block ++ stream) = block :: slices n stream := by
  have hfirst : ((block ++ stream).drop (0 * n)).take n = block := by
    rw [zero_mul, List.drop_zero, ← hblock, List.take_left]
  rw [slices, div_length_append hn hblock, List.range_succ_eq_map, List.map_cons, hfirst,
    List.map_map]
  congr 1
  apply List.map_congr_left
  intro i _
  show ((block ++ stream).drop ((i + 1) * n)).take n = _
  rw [Nat.succ_mul, Nat.add_comm, ← List.drop_drop, ← hblock, List.drop_left]

theorem unsliced_append (hn : 0 < n) {block : List α} (hblock : block.length = n)
    (stream : List α) : unsliced n (block ++ stream) = unsliced n stream := by
  rw [unsliced, div_length_append hn hblock, Nat.succ_mul, Nat.add_comm, ← List.drop_drop]
  rw [← hblock, List.drop_left, hblock, unsliced]

/-- `blocks` of `n` elements each were cut off the front of `stream`, and `rest` is left. -/
structure Sliced (n : ℕ) (stream : List α) (blocks : List (List α)) (rest : List α) : Prop where
  whole : blocks.flatten ++ rest = stream
  each : ∀ block ∈ blocks, block.length = n

theorem length_flatten_of_each {blocks : List (List α)} (h : ∀ block ∈ blocks, block.length = n) :
    blocks.flatten.length = blocks.length * n := by
  induction blocks with
  | nil => simp
  | cons block blocks ih =>
      rw [List.flatten_cons, List.length_append, h block List.mem_cons_self,
        ih fun b hb => h b (List.mem_cons_of_mem block hb), List.length_cons, Nat.succ_mul,
        Nat.add_comm]

namespace Sliced

variable {stream rest : List α} {blocks : List (List α)}

theorem start (n : ℕ) (rest : List α) : Sliced n rest [] rest :=
  ⟨rfl, fun _ h => absurd h List.not_mem_nil⟩

/-- More of the stream arrives. -/
theorem write (h : Sliced n stream blocks rest) (more : List α) :
    Sliced n (stream ++ more) blocks (rest ++ more) :=
  ⟨by rw [← List.append_assoc, h.whole], h.each⟩

/-- A block is cut off what is left. -/
theorem read (h : Sliced n stream blocks rest) (hle : n ≤ rest.length) :
    Sliced n stream (blocks ++ [rest.take n]) (rest.drop n) := by
  constructor
  · calc (blocks ++ [rest.take n]).flatten ++ rest.drop n
        = blocks.flatten ++ (rest.take n ++ rest.drop n) := by
          rw [List.flatten_append, List.flatten_singleton, List.append_assoc]
      _ = blocks.flatten ++ rest := by rw [List.take_append_drop]
      _ = stream := h.whole
  · intro block hblock
    rcases List.mem_append.mp hblock with hold | hnew
    · exact h.each block hold
    · rw [List.mem_singleton.mp hnew, List.length_take, min_eq_left hle]

/-- Blocks are cut off what is left, one after the other. -/
theorem trans {blocks' : List (List α)} {rest' : List α} (h : Sliced n stream blocks rest)
    (h' : Sliced n rest blocks' rest') : Sliced n stream (blocks ++ blocks') rest' := by
  constructor
  · calc (blocks ++ blocks').flatten ++ rest'
        = blocks.flatten ++ (blocks'.flatten ++ rest') := by
          rw [List.flatten_append, List.append_assoc]
      _ = blocks.flatten ++ rest := by rw [h'.whole]
      _ = stream := h.whole
  · intro block hblock
    rcases List.mem_append.mp hblock with hold | hnew
    · exact h.each block hold
    · exact h'.each block hnew

/-- The blocks are the first slices of the stream. -/
theorem eq_take (hn : 0 < n) (h : Sliced n stream blocks rest) :
    blocks = (slices n stream).take blocks.length := by
  induction blocks generalizing stream with
  | nil => rfl
  | cons block blocks ih =>
      have hblock := h.each block List.mem_cons_self
      have hrest : Sliced n (blocks.flatten ++ rest) blocks rest :=
        ⟨rfl, fun b hb => h.each b (List.mem_cons_of_mem block hb)⟩
      rw [← h.whole, List.flatten_cons, List.append_assoc, slices_append hn hblock,
        List.length_cons, List.take_succ_cons, ← ih hrest]

/-- Block `k` is slice `k` of the stream. -/
theorem getElem_eq (h : Sliced n stream blocks rest) {k : ℕ} (hk : k < blocks.length) :
    (k + 1) * n ≤ stream.length ∧ blocks[k] = (stream.drop (k * n)).take n := by
  induction blocks generalizing stream k with
  | nil => exact absurd hk (Nat.not_lt_zero k)
  | cons block blocks ih =>
      have hblock := h.each block List.mem_cons_self
      have hrest : Sliced n (blocks.flatten ++ rest) blocks rest :=
        ⟨rfl, fun b hb => h.each b (List.mem_cons_of_mem block hb)⟩
      rw [← h.whole, List.flatten_cons, List.append_assoc, List.length_append, hblock,
        Nat.succ_mul]
      cases k with
      | zero =>
          refine ⟨by omega, ?_⟩
          rw [List.getElem_cons_zero, zero_mul, List.drop_zero, ← hblock, List.take_left]
      | succ k =>
          obtain ⟨hlength, hget⟩ := ih hrest (Nat.lt_of_succ_lt_succ hk)
          refine ⟨by omega, ?_⟩
          rw [List.getElem_cons_succ, hget, Nat.succ_mul, Nat.add_comm, ← List.drop_drop, ← hblock,
            List.drop_left]

/-- With less than a block left, they are all of its slices. -/
theorem eq_slices (h : Sliced n stream blocks rest) (hshort : rest.length < n) :
    blocks = slices n stream ∧ rest = unsliced n stream := by
  have hn : 0 < n := by omega
  induction blocks generalizing stream with
  | nil =>
      rw [← h.whole, List.flatten_nil, List.nil_append]
      exact ⟨(slices_of_lt hshort).symm, (unsliced_of_lt hshort).symm⟩
  | cons block blocks ih =>
      have hblock := h.each block List.mem_cons_self
      have hrest : Sliced n (blocks.flatten ++ rest) blocks rest :=
        ⟨rfl, fun b hb => h.each b (List.mem_cons_of_mem block hb)⟩
      obtain ⟨hblocks, hleft⟩ := ih hrest
      rw [← h.whole, List.flatten_cons, List.append_assoc, slices_append hn hblock,
        unsliced_append hn hblock, ← hblocks, ← hleft]
      exact ⟨rfl, rfl⟩

end Sliced

end Foundations
