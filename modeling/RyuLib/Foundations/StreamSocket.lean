import RyuLib.Foundations.Memory

/-!
# Composed asynchronous operations on a stream socket

A composed read or write is started once and then makes progress in steps: a
read step copies what has arrived into the caller's memory, a write step takes
bytes out of the caller's memory *as it stands then*.  Only when nothing remains
of the operation is its completion handler due.  The steps of several pending
operations on one socket may alternate.

`incoming` and `outgoing` are the streams that have passed through the socket so
far.  `queued` and `writeFailed` are history: what the memory handed to each
write held when the write was started, and whether a write has failed.  No step
looks at them.  `InOrder` compares `outgoing` with `queued`.
-/

namespace Foundations

variable {κ ν α : Type*}

/-- Memory blocks by address. -/
abbrev Heap (ν α : Type*) := ν → Block α

/-- A pending read: its completion handler, how many bytes were asked for, where
the next ones go, and how many are still to come. -/
structure ReadOp (κ ν : Type*) where
  handler : κ
  length : ℕ
  address : ν
  offset : ℕ
  remaining : ℕ
  deriving DecidableEq

/-- A pending write: where its next bytes are taken from, and how many remain. -/
structure WriteOp (ν : Type*) where
  address : ν
  offset : ℕ
  remaining : ℕ
  deriving DecidableEq

/-- A stream socket with its pending operations in the order they were started. -/
structure StreamSocket (κ ν α : Type*) where
  isOpen : Bool := true
  incoming : List α := []
  outgoing : List α := []
  reads : List (ReadOp κ ν) := []
  writes : List (WriteOp ν) := []
  queued : List (List α) := []
  writeFailed : Bool := false

namespace Heap

variable [DecidableEq ν]

/-- Copy `values` into the block at `address`. -/
def store (h : Heap ν α) (address : ν) (offset : ℕ) (values : List α) : Heap ν α :=
  Function.update h address ((h address).store offset values)

end Heap

/-- The bytes a pending write has not sent yet, as they stand in memory. -/
def WriteOp.unsent (h : Heap ν α) (op : WriteOp ν) : List α :=
  (h op.address).load op.offset op.remaining

namespace StreamSocket

/-! ## Starting operations -/

/-- Start reading `length` bytes into memory. -/
def asyncRead (k : StreamSocket κ ν α) (handler : κ) (address : ν) (offset length : ℕ) :
    StreamSocket κ ν α :=
  { k with reads := k.reads ++ [⟨handler, length, address, offset, length⟩] }

/-- Start writing the first `length` bytes of the block at `address`. -/
def asyncWrite (h : Heap ν α) (k : StreamSocket κ ν α) (address : ν) (length : ℕ) :
    StreamSocket κ ν α :=
  { k with
    writes := k.writes ++ [⟨address, 0, length⟩]
    queued := k.queued ++ [(h address).load 0 length] }

/-- No further bytes pass once the socket is closed; pending operations are left
to fail. -/
def close (k : StreamSocket κ ν α) : StreamSocket κ ν α := { k with isOpen := false }

/-! ## Progress and completion -/

/-- One step of the pending read `i`: the next `values` of the peer's stream. -/
def readSome [DecidableEq ν] (h : Heap ν α) (k : StreamSocket κ ν α) (i : ℕ)
    (values : List α) : Option (Heap ν α × StreamSocket κ ν α) :=
  match k.reads[i]? with
  | none => none
  | some op =>
      if k.isOpen = true ∧ 0 < values.length ∧ values.length ≤ op.remaining then
        some (h.store op.address op.offset values,
          { k with
            incoming := k.incoming ++ values
            reads := k.reads.set i
              { op with
                offset := op.offset + values.length
                remaining := op.remaining - values.length } })
      else none

/-- The pending read `i` has all its bytes: it is removed and its handler is due. -/
def readDone (k : StreamSocket κ ν α) (i : ℕ) : Option (κ × StreamSocket κ ν α) :=
  match k.reads[i]? with
  | none => none
  | some op =>
      if op.remaining = 0 then some (op.handler, { k with reads := k.reads.eraseIdx i })
      else none

/-- The pending read `i` fails: it is removed and its handler is due. -/
def readFailed (k : StreamSocket κ ν α) (i : ℕ) : Option (κ × StreamSocket κ ν α) :=
  match k.reads[i]? with
  | none => none
  | some op => some (op.handler, { k with reads := k.reads.eraseIdx i })

/-- One step of the pending write `i`: its next `n` bytes leave. -/
def writeSome (h : Heap ν α) (k : StreamSocket κ ν α) (i n : ℕ) :
    Option (StreamSocket κ ν α) :=
  match k.writes[i]? with
  | none => none
  | some op =>
      if k.isOpen = true ∧ 0 < n ∧ n ≤ op.remaining then
        some
          { k with
            outgoing := k.outgoing ++ (h op.address).load op.offset n
            writes := k.writes.set i
              { op with offset := op.offset + n, remaining := op.remaining - n } }
      else none

/-- The pending write `i` has sent everything: it is removed. -/
def writeDone (k : StreamSocket κ ν α) (i : ℕ) : Option (StreamSocket κ ν α) :=
  match k.writes[i]? with
  | none => none
  | some op => if op.remaining = 0 then some { k with writes := k.writes.eraseIdx i } else none

/-- The pending write `i` fails: it is removed. -/
def writeError (k : StreamSocket κ ν α) (i : ℕ) : Option (StreamSocket κ ν α) :=
  match k.writes[i]? with
  | none => none
  | some _ => some { k with writes := k.writes.eraseIdx i, writeFailed := true }

/-! ## What one operation can do

One lemma for each operation; later proofs use these and unfold nothing. -/

theorem readSome_cases [DecidableEq ν] {h h' : Heap ν α} {k k' : StreamSocket κ ν α} {i : ℕ}
    {values : List α} (hstep : readSome h k i values = some (h', k')) :
    ∃ op, k.reads[i]? = some op ∧ k.isOpen = true ∧ 0 < values.length ∧
      values.length ≤ op.remaining ∧ h' = h.store op.address op.offset values ∧
      k' = { k with
        incoming := k.incoming ++ values
        reads := k.reads.set i
          { op with
            offset := op.offset + values.length
            remaining := op.remaining - values.length } } := by
  unfold readSome at hstep
  split at hstep
  · cases hstep
  · rename_i op hop
    split at hstep
    · rename_i hguard
      cases hstep
      exact ⟨op, hop, hguard.1, hguard.2.1, hguard.2.2, rfl, rfl⟩
    · cases hstep

theorem readDone_cases {k k' : StreamSocket κ ν α} {i : ℕ} {handler : κ}
    (hstep : k.readDone i = some (handler, k')) :
    ∃ op, k.reads[i]? = some op ∧ op.remaining = 0 ∧ handler = op.handler ∧
      k' = { k with reads := k.reads.eraseIdx i } := by
  unfold readDone at hstep
  split at hstep
  · cases hstep
  · rename_i op hop
    split at hstep
    · rename_i hremaining
      cases hstep
      exact ⟨op, hop, hremaining, rfl, rfl⟩
    · cases hstep

/-- A read on an open socket takes any bytes there is room for. -/
theorem exists_readSome [DecidableEq ν] (h : Heap ν α) {k : StreamSocket κ ν α} {i : ℕ}
    {values : List α} {op : ReadOp κ ν} (hop : k.reads[i]? = some op) (hopen : k.isOpen = true)
    (hpos : 0 < values.length) (hle : values.length ≤ op.remaining) :
    ∃ result, readSome h k i values = some result := by
  simp only [readSome, hop]
  exact ⟨_, if_pos ⟨hopen, hpos, hle⟩⟩

theorem exists_readDone {k : StreamSocket κ ν α} {i : ℕ} {op : ReadOp κ ν}
    (hop : k.reads[i]? = some op) (hdone : op.remaining = 0) :
    ∃ result, k.readDone i = some result := by
  simp only [readDone, hop]
  exact ⟨_, if_pos hdone⟩

theorem readFailed_cases {k k' : StreamSocket κ ν α} {i : ℕ} {handler : κ}
    (hstep : k.readFailed i = some (handler, k')) :
    ∃ op, k.reads[i]? = some op ∧ handler = op.handler ∧
      k' = { k with reads := k.reads.eraseIdx i } := by
  unfold readFailed at hstep
  split at hstep
  · cases hstep
  · rename_i op hop
    cases hstep
    exact ⟨op, hop, rfl, rfl⟩

theorem writeSome_cases {h : Heap ν α} {k k' : StreamSocket κ ν α} {i n : ℕ}
    (hstep : writeSome h k i n = some k') :
    ∃ op, k.writes[i]? = some op ∧ k.isOpen = true ∧ 0 < n ∧ n ≤ op.remaining ∧
      k' = { k with
        outgoing := k.outgoing ++ (h op.address).load op.offset n
        writes := k.writes.set i
          { op with offset := op.offset + n, remaining := op.remaining - n } } := by
  unfold writeSome at hstep
  split at hstep
  · cases hstep
  · rename_i op hop
    split at hstep
    · rename_i hguard
      cases hstep
      exact ⟨op, hop, hguard.1, hguard.2.1, hguard.2.2, rfl⟩
    · cases hstep

theorem writeDone_cases {k k' : StreamSocket κ ν α} {i : ℕ} (hstep : k.writeDone i = some k') :
    ∃ op, k.writes[i]? = some op ∧ op.remaining = 0 ∧
      k' = { k with writes := k.writes.eraseIdx i } := by
  unfold writeDone at hstep
  split at hstep
  · cases hstep
  · rename_i op hop
    split at hstep
    · rename_i hremaining
      cases hstep
      exact ⟨op, hop, hremaining, rfl⟩
    · cases hstep

theorem writeError_cases {k k' : StreamSocket κ ν α} {i : ℕ}
    (hstep : k.writeError i = some k') :
    ∃ op, k.writes[i]? = some op ∧
      k' = { k with writes := k.writes.eraseIdx i, writeFailed := true } := by
  unfold writeError at hstep
  split at hstep
  · cases hstep
  · rename_i op hop
    cases hstep
    exact ⟨op, hop, rfl⟩

/-! ## A single pending operation -/

/-- If there is at most one operation, the first is all. -/
theorem toList_head?_of_length_le {β : Type*} {ops : List β} (hone : ops.length ≤ 1) :
    ops.head?.toList = ops := by
  rcases ops with _ | ⟨op, rest⟩
  · rfl
  · obtain rfl : rest = [] := by simpa using hone
    rfl

theorem eq_singleton_of_getElem? {β : Type*} {ops : List β} (hone : ops.length ≤ 1) {i : ℕ}
    {op : β} (hop : ops[i]? = some op) : ops = [op] ∧ i = 0 := by
  obtain ⟨hi, hget⟩ := List.getElem?_eq_some_iff.mp hop
  obtain rfl : i = 0 := by omega
  refine ⟨?_, rfl⟩
  rw [← toList_head?_of_length_le hone, List.head?_eq_getElem?, hop]
  rfl

/-! ## The stream on the wire -/

/-- What the pending writes would still send from the memory `h`. -/
def backlog (h : Heap ν α) (k : StreamSocket κ ν α) : List α :=
  (k.writes.map (WriteOp.unsent h)).flatten

/-- The stream sent so far and the backlog are what was handed to the writes, in
the order they were started; once a write has failed, the stream sent so far is
still a front of that. -/
structure InOrder (h : Heap ν α) (k : StreamSocket κ ν α) : Prop where
  complete : k.writeFailed = false → k.outgoing ++ k.backlog h = k.queued.flatten
  front : k.outgoing <+: k.queued.flatten

/-- It is the turn of the pending write `i`: no write has failed, and those
started before it have sent everything. -/
def InTurn (k : StreamSocket κ ν α) (i : ℕ) : Prop :=
  k.writeFailed = false ∧ ∀ op ∈ k.writes.take i, op.remaining = 0

/-- Replacing the block at `address` by `block` changes no byte that a pending write
has yet to send. -/
def Spares (h : Heap ν α) (k : StreamSocket κ ν α) (address : ν) (block : Block α) : Prop :=
  ∀ op ∈ k.writes, op.address = address → block.load op.offset op.remaining = op.unsent h

theorem inOrder_of_complete {h : Heap ν α} {k : StreamSocket κ ν α}
    (hcomplete : k.outgoing ++ k.backlog h = k.queued.flatten) : InOrder h k :=
  ⟨fun _ => hcomplete, hcomplete ▸ List.prefix_append _ _⟩

/-- Reading does not matter to the wire. -/
theorem InOrder.congr {h : Heap ν α} {k k' : StreamSocket κ ν α} (hk : InOrder h k)
    (houtgoing : k'.outgoing = k.outgoing) (hwrites : k'.writes = k.writes)
    (hqueued : k'.queued = k.queued) (hfailed : k'.writeFailed = k.writeFailed) :
    InOrder h k' := by
  constructor
  · intro hok
    rw [houtgoing, hqueued, backlog, hwrites]
    exact hk.complete (hfailed ▸ hok)
  · rw [houtgoing, hqueued]
    exact hk.front

theorem InOrder.asyncWrite {h : Heap ν α} {k : StreamSocket κ ν α} (hk : InOrder h k)
    (address : ν) (length : ℕ) : InOrder h (k.asyncWrite h address length) := by
  constructor
  · intro hok
    have hcomplete := hk.complete hok
    simp only [backlog] at hcomplete
    simp only [StreamSocket.asyncWrite, backlog, List.map_append, List.flatten_append,
      List.map_cons, List.map_nil, List.flatten_singleton]
    rw [← List.append_assoc, hcomplete]
    rfl
  · simp only [StreamSocket.asyncWrite, List.flatten_append]
    exact hk.front.trans (List.prefix_append _ _)

private theorem flatten_unsent_split (h : Heap ν α) {l : List (WriteOp ν)} {i : ℕ}
    {op : WriteOp ν} (hop : l[i]? = some op) :
    (l.map (WriteOp.unsent h)).flatten =
      ((l.take i).map (WriteOp.unsent h)).flatten ++
        (op.unsent h ++ ((l.drop (i + 1)).map (WriteOp.unsent h)).flatten) := by
  obtain ⟨hi, hget⟩ := List.getElem?_eq_some_iff.mp hop
  conv_lhs => rw [← List.take_append_drop i l, List.drop_eq_getElem_cons hi, hget]
  simp

private theorem flatten_unsent_take (h : Heap ν α) {l : List (WriteOp ν)}
    (hdone : ∀ op ∈ l, op.remaining = 0) : (l.map (WriteOp.unsent h)).flatten = [] := by
  rw [List.flatten_eq_nil_iff]
  intro bytes hbytes
  obtain ⟨op, hop, rfl⟩ := List.mem_map.mp hbytes
  simp [WriteOp.unsent, hdone op hop]

/-- When the writes in front of it have sent everything, the backlog starts with a
write's own bytes. -/
private theorem flatten_unsent_turn (h : Heap ν α) {l : List (WriteOp ν)} {i : ℕ}
    {op : WriteOp ν} (hop : l[i]? = some op) (hturn : ∀ op ∈ l.take i, op.remaining = 0) :
    (l.map (WriteOp.unsent h)).flatten =
      op.unsent h ++ ((l.drop (i + 1)).map (WriteOp.unsent h)).flatten := by
  rw [flatten_unsent_split h hop, flatten_unsent_take h hturn, List.nil_append]

/-- A write step taken in its turn keeps the order. -/
theorem InOrder.writeSome {h : Heap ν α} {k k' : StreamSocket κ ν α} {i n : ℕ}
    (hk : InOrder h k) (hturn : k.InTurn i) (hstep : writeSome h k i n = some k') :
    InOrder h k' := by
  obtain ⟨op, hop, _, _, hn, rfl⟩ := writeSome_cases hstep
  obtain ⟨hi, _⟩ := List.getElem?_eq_some_iff.mp hop
  apply inOrder_of_complete
  -- the bytes that leave are the first of what the write has yet to send
  have hsent : (h op.address).load op.offset n ++
      WriteOp.unsent h { op with offset := op.offset + n, remaining := op.remaining - n } =
        op.unsent h := by
    simp only [WriteOp.unsent]
    rw [← Block.load_add, Nat.add_sub_cancel' hn]
  have hbefore := flatten_unsent_turn h hop hturn.2
  have hafter := flatten_unsent_turn h
    (l := k.writes.set i { op with offset := op.offset + n, remaining := op.remaining - n })
    (List.getElem?_set_self hi) (by rw [List.take_set_of_le le_rfl]; exact hturn.2)
  rw [List.drop_set_of_lt (Nat.lt_succ_self i)] at hafter
  calc (k.outgoing ++ (h op.address).load op.offset n) ++
        ((k.writes.set i { op with
          offset := op.offset + n
          remaining := op.remaining - n }).map (WriteOp.unsent h)).flatten
      = k.outgoing ++ (op.unsent h ++
          ((k.writes.drop (i + 1)).map (WriteOp.unsent h)).flatten) := by
        rw [hafter, ← hsent]
        simp only [List.append_assoc]
    _ = k.outgoing ++ k.backlog h := by rw [backlog, hbefore]
    _ = k.queued.flatten := hk.complete hturn.1

/-- A finished write has nothing left in the backlog. -/
theorem InOrder.writeDone {h : Heap ν α} {k k' : StreamSocket κ ν α} {i : ℕ}
    (hk : InOrder h k) (hstep : k.writeDone i = some k') : InOrder h k' := by
  obtain ⟨op, hop, hremaining, rfl⟩ := writeDone_cases hstep
  refine ⟨?_, hk.front⟩
  intro hok
  rw [← hk.complete hok, backlog, backlog, flatten_unsent_split h hop,
    List.eraseIdx_eq_take_drop_succ]
  simp [WriteOp.unsent, hremaining]

theorem InOrder.writeError {h : Heap ν α} {k k' : StreamSocket κ ν α} {i : ℕ}
    (hk : InOrder h k) (hstep : k.writeError i = some k') : InOrder h k' := by
  obtain ⟨op, _, rfl⟩ := writeError_cases hstep
  exact ⟨fun hok => absurd hok (by simp), hk.front⟩

/-- A change of memory that spares the pending writes does not change the backlog. -/
theorem InOrder.update [DecidableEq ν] {h : Heap ν α} {k : StreamSocket κ ν α} {address : ν}
    {block : Block α} (hk : InOrder h k) (hspares : k.Spares h address block) :
    InOrder (Function.update h address block) k := by
  have hbacklog : k.backlog (Function.update h address block) = k.backlog h := by
    unfold backlog
    congr 1
    apply List.map_congr_left
    intro op hop
    -- only writes from the replaced block are concerned
    by_cases haddress : op.address = address
    · have hspare := hspares op hop haddress
      subst haddress
      rw [← hspare, WriteOp.unsent, Function.update_self]
    · rw [WriteOp.unsent, Function.update_of_ne haddress, WriteOp.unsent]
  exact ⟨fun hok => by rw [hbacklog]; exact hk.complete hok, hk.front⟩

end StreamSocket

end Foundations
