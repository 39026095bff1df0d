import RyuLib.Foundations.LinkedNodes
import RyuLib.Foundations.Machine

/-!
# WaitFreeList

A list is a heap of nodes, of which it knows the newest one.  `add` puts a node to the right of
it, `remove` ties the neighbours of a node together and leaves the node as it is; nodes are
never released.  A traversal goes from the newest node to the left.
-/

namespace RyuLib

open Foundations

namespace WaitFreeList

/-- `left` and `right` are null or the place of a node in the heap. -/
structure Node (α : Type*) where
  left : Option ℕ
  item : α
  right : Option ℕ

end WaitFreeList

structure WaitFreeList (α : Type*) where
  nodes : List (WaitFreeList.Node α) := []
  count : ℤ := 0
  header : Option ℕ := none

namespace WaitFreeList

variable {α : Type*}

/-- A write through the pointer `p`, which has to be the address of a node. -/
def write (s : WaitFreeList α) (p : ℕ) (f : Node α → Node α) : Option (WaitFreeList α) :=
  if p < s.nodes.length then some { s with nodes := s.nodes.modify p f } else none

/-- The pointer after `new Node(left, item, right)`. -/
def new (s : WaitFreeList α) (node : Node α) : WaitFreeList α × ℕ :=
  ({ s with nodes := s.nodes ++ [node] }, s.nodes.length)

def clear (s : WaitFreeList α) : WaitFreeList α := { s with header := none, count := 0 }

def add (s : WaitFreeList α) (item : α) : Option (WaitFreeList α) :=
  match s.header with
  | none =>
      let (s, node) := s.new ⟨none, item, none⟩
      some { s with header := some node }
  | some header => do
      let (s, node) := s.new ⟨some header, item, none⟩
      let s ← s.write header fun n => { n with right := some node }
      return { s with header := some node, count := s.count + 1 }

/-- `if (pointer != nullptr) pointer->... = ...;` -/
def writeIf (s : WaitFreeList α) (pointer : Option ℕ) (f : Node α → Node α) :
    Option (WaitFreeList α) :=
  match pointer with
  | none => some s
  | some p => s.write p f

def remove (s : WaitFreeList α) (node : ℕ) : Option (WaitFreeList α) := do
  let ⟨left, _, right⟩ ← s.nodes[node]?
  let s ← s.writeIf right fun n => { n with left := left }
  let s ← s.writeIf left fun n => { n with right := right }
  return if s.header = some node then { s with header := left } else s

def getFirst (s : WaitFreeList α) : Option ℕ := s.header

def getNext (s : WaitFreeList α) (current : ℕ) : Option (Option ℕ) :=
  s.nodes[current]?.map Node.left

def getItem (s : WaitFreeList α) (node : ℕ) : Option α := s.nodes[node]?.map Node.item

/-! ## The list of a heap -/

def left (s : WaitFreeList α) (p : ℕ) : Option ℕ := (s.nodes[p]?.map Node.left).join

def right (s : WaitFreeList α) (p : ℕ) : Option ℕ := (s.nodes[p]?.map Node.right).join

def items (s : WaitFreeList α) : List α := s.nodes.map Node.item

/-- The nodes of `l` are those of the list, newest first. -/
structure Represents (s : WaitFreeList α) (l : List ℕ) : Prop where
  linked : Linked s.left s.right l
  header : s.header = l.head?
  mem : ∀ p ∈ l, p < s.nodes.length

variable {s s' : WaitFreeList α} {l : List ℕ} {p : ℕ}

theorem getNext_eq (hp : p < s.nodes.length) : s.getNext p = some (s.left p) := by
  simp [getNext, left, List.getElem?_eq_getElem hp]

theorem getItem_eq (s : WaitFreeList α) (p : ℕ) : s.getItem p = s.items[p]? := by
  rw [getItem, items, List.getElem?_map]

theorem Represents.visits (h : s.Represents l) : Visits s.getNext s.getFirst l := by
  rw [getFirst, h.header]
  exact h.linked.visits fun p hp => getNext_eq (h.mem p hp)

/-- What `clear` leaves is an empty list. -/
theorem represents_clear (s : WaitFreeList α) : s.clear.Represents [] where
  linked := Linked.nil _ _
  header := rfl
  mem p hp := by cases hp

/-! ## Writes -/

theorem length_items (s : WaitFreeList α) : s.items.length = s.nodes.length :=
  List.length_map ..

theorem left_new_of_lt {node : Node α} (hp : p < s.nodes.length) :
    (s.new node).1.left p = s.left p := by
  simp only [left, new, List.getElem?_append_left hp]

theorem right_new_of_lt {node : Node α} (hp : p < s.nodes.length) :
    (s.new node).1.right p = s.right p := by
  simp only [right, new, List.getElem?_append_left hp]

theorem left_new_self (s : WaitFreeList α) (node : Node α) :
    (s.new node).1.left s.nodes.length = node.left := by
  simp [left, new]

theorem right_new_self (s : WaitFreeList α) (node : Node α) :
    (s.new node).1.right s.nodes.length = node.right := by
  simp [right, new]

/-- A write changes the node written to. -/
theorem writeIf_nodes (s : WaitFreeList α) (pointer : Option ℕ) (f : Node α → Node α)
    (hp : ∀ p, pointer = some p → p < s.nodes.length) :
    ∃ s', s.writeIf pointer f = some s' ∧ s'.header = s.header ∧
      ∀ q, s'.nodes[q]? = if pointer = some q then s.nodes[q]?.map f else s.nodes[q]? := by
  cases pointer with
  | none => exact ⟨s, rfl, rfl, fun q => (if_neg nofun).symm⟩
  | some p =>
      refine ⟨{ s with nodes := s.nodes.modify p f }, if_pos (hp p rfl), rfl, fun q => ?_⟩
      simp only [List.getElem?_modify, Option.some.injEq]
      split_ifs <;> simp

/-- What `view` looks at and the write leaves as it is. -/
theorem map_of_writeIf {β : Type*} {f : Node α → Node α} {pointer : Option ℕ} {q : ℕ}
    (view : Node α → β)
    (hnode : s'.nodes[q]? = if pointer = some q then s.nodes[q]?.map f else s.nodes[q]?)
    (hkeep : ∀ n, view (f n) = view n) : s'.nodes[q]?.map view = s.nodes[q]?.map view := by
  rw [hnode]
  split_ifs
  · rw [Option.map_map]
    exact congrArg (Option.map · s.nodes[q]?) (funext hkeep)
  · rfl

theorem items_of_writeIf {f : Node α → Node α} {pointer : Option ℕ}
    (hnodes : ∀ q, s'.nodes[q]? = if pointer = some q then s.nodes[q]?.map f else s.nodes[q]?)
    (hkeep : ∀ n, (f n).item = n.item) : s'.items = s.items := by
  apply List.ext_getElem?
  intro q
  rw [items, items, List.getElem?_map, List.getElem?_map]
  exact map_of_writeIf Node.item (hnodes q) hkeep

/-- Of what the list looks at, only the left pointer of the node written to is another one. -/
theorem writeIf_left (s : WaitFreeList α) (pointer value : Option ℕ)
    (hp : ∀ p, pointer = some p → p < s.nodes.length) :
    ∃ s', s.writeIf pointer (fun n => { n with left := value }) = some s' ∧
      (∀ q, pointer = some q → s'.left q = value) ∧
      (∀ q, pointer ≠ some q → s'.left q = s.left q) ∧
      s'.right = s.right ∧ s'.items = s.items ∧ s'.header = s.header := by
  obtain ⟨s', hwrite, hheader, hnodes⟩ := s.writeIf_nodes pointer _ hp
  refine ⟨s', hwrite, ?_, ?_, ?_, items_of_writeIf hnodes fun _ => rfl, hheader⟩
  · intro q hq
    rw [left, hnodes, if_pos hq, List.getElem?_eq_getElem (hp q hq)]
    rfl
  · intro q hq
    rw [left, hnodes, if_neg hq]
    rfl
  · funext q
    exact congrArg Option.join (map_of_writeIf Node.right (hnodes q) fun _ => rfl)

theorem writeIf_right (s : WaitFreeList α) (pointer value : Option ℕ)
    (hp : ∀ p, pointer = some p → p < s.nodes.length) :
    ∃ s', s.writeIf pointer (fun n => { n with right := value }) = some s' ∧
      (∀ q, pointer = some q → s'.right q = value) ∧
      (∀ q, pointer ≠ some q → s'.right q = s.right q) ∧
      s'.left = s.left ∧ s'.items = s.items ∧ s'.header = s.header := by
  obtain ⟨s', hwrite, hheader, hnodes⟩ := s.writeIf_nodes pointer _ hp
  refine ⟨s', hwrite, ?_, ?_, ?_, items_of_writeIf hnodes fun _ => rfl, hheader⟩
  · intro q hq
    rw [right, hnodes, if_pos hq, List.getElem?_eq_getElem (hp q hq)]
    rfl
  · intro q hq
    rw [right, hnodes, if_neg hq]
    rfl
  · funext q
    exact congrArg Option.join (map_of_writeIf Node.left (hnodes q) fun _ => rfl)

theorem length_eq_of_items (h : s'.items = s.items) : s'.nodes.length = s.nodes.length := by
  rw [← length_items, h, length_items]

/-! ## One operation -/

/-- `add` puts a new node in front of the list. -/
theorem Represents.add (h : s.Represents l) (item : α) :
    ∃ s', s.add item = some s' ∧ s'.Represents (s.items.length :: l) ∧
      s'.items = s.items ++ [item] := by
  have hfresh : s.nodes.length ∉ l := fun hmem => (h.mem _ hmem).false
  have hitems : ∀ node, (s.new node).1.items = s.items ++ [node.item] := fun node =>
    List.map_append ..
  rw [length_items]
  cases hheader : s.header with
  | none =>
      have hnil : l = [] := List.head?_eq_none_iff.mp (h.header.symm.trans hheader)
      subst hnil
      let s' : WaitFreeList α :=
        { (s.new ⟨none, item, none⟩).1 with header := some s.nodes.length }
      refine ⟨s', ?_, ⟨?_, rfl, ?_⟩, hitems _⟩
      · simp only [WaitFreeList.add, hheader]
        rfl
      · exact (Linked.nil s.left s.right).cons hfresh (left_new_self s _) (right_new_self s _)
          (fun p hp => by cases hp) (fun p hp => by cases hp) (fun p hp => by cases hp)
      · intro p hp
        rw [List.mem_singleton.mp hp]
        simp [s', new]
  | some header =>
      have hhead : l.head? = some header := h.header.symm.trans hheader
      let node : Node α := ⟨some header, item, none⟩
      have hgrown : (s.new node).1.nodes.length = s.nodes.length + 1 := List.length_append ..
      have hlt : header < s.nodes.length := h.mem header (List.mem_of_head? hhead)
      have hvalid : ∀ p, some header = some p → p < (s.new node).1.nodes.length := by
        intro p hp
        obtain rfl := Option.some.inj hp
        omega
      obtain ⟨tied, hwrite, htied, hothers, hleft, hkept, -⟩ :=
        (s.new node).1.writeIf_right (some header) (some s.nodes.length) hvalid
      have hlength : tied.nodes.length = s.nodes.length + 1 :=
        (length_eq_of_items hkept).trans hgrown
      refine ⟨{ tied with header := some s.nodes.length, count := tied.count + 1 }, ?_,
        ⟨?_, rfl, ?_⟩, hkept.trans (hitems node)⟩
      · simp only [WaitFreeList.add, hheader]
        exact congrArg (Option.bind · _) hwrite
      · apply h.linked.cons hfresh
        · show tied.left s.nodes.length = l.head?
          rw [hleft, left_new_self, hhead]
        · show tied.right s.nodes.length = none
          rw [hothers _ fun heq => hlt.ne (Option.some.inj heq), right_new_self]
        · intro p hp
          show tied.left p = s.left p
          rw [hleft, left_new_of_lt (h.mem p hp)]
        · intro p hp
          exact htied p (hhead.symm.trans hp)
        · intro p hp hne
          show tied.right p = s.right p
          rw [hothers p fun heq => hne (hhead.trans heq), right_new_of_lt (h.mem p hp)]
      · intro p hp
        show p < tied.nodes.length
        rcases List.mem_cons.mp hp with rfl | hp
        · omega
        · have := h.mem p hp
          omega

/-- `remove` takes the node out and leaves the items, and the left pointers of all nodes but
the right neighbour's, as they are. -/
theorem Represents.remove {newer older : List ℕ} {v : ℕ} (h : s.Represents (newer ++ v :: older)) :
    ∃ s', s.remove v = some s' ∧ s'.Represents (newer ++ older) ∧ s'.items = s.items ∧
      ∀ p, newer.getLast? ≠ some p → s'.left p = s.left p := by
  have hv : v < s.nodes.length := h.mem v (by simp)
  have hleft : s.left v = older.head? := h.linked.left_eq rfl
  have hright : s.right v = newer.getLast? := h.linked.right_eq rfl
  have hnewer : ∀ p, newer.getLast? = some p → p < s.nodes.length := fun p hp =>
    h.mem p (List.mem_append_left _ (List.mem_of_getLast? hp))
  have holder : ∀ p, older.head? = some p → p < s.nodes.length := fun p hp =>
    h.mem p (List.mem_append_right _ (List.mem_cons_of_mem v (List.mem_of_head? hp)))
  obtain ⟨s₁, hwrite₁, hset₁, hothers₁, hright₁, hitems₁, hheader₁⟩ :=
    s.writeIf_left newer.getLast? older.head? hnewer
  have hlength₁ := length_eq_of_items hitems₁
  obtain ⟨s₂, hwrite₂, hset₂, hothers₂, hleft₂, hitems₂, hheader₂⟩ :=
    s₁.writeIf_right older.head? newer.getLast? fun p hp => hlength₁ ▸ holder p hp
  have hlength₂ := (length_eq_of_items hitems₂).trans hlength₁
  have hnode : s.nodes[v]? = some s.nodes[v] := List.getElem?_eq_getElem hv
  have hl : s.nodes[v].left = older.head? := by
    rw [← hleft, left, hnode]
    rfl
  have hr : s.nodes[v].right = newer.getLast? := by
    rw [← hright, right, hnode]
    rfl
  -- the header moves on exactly when it is the node that goes
  have hheader : (if s₂.header = some v then { s₂ with header := older.head? } else s₂) =
      { s₂ with header := (newer ++ older).head? } := by
    have hhead : s₂.header = (newer ++ v :: older).head? :=
      hheader₂.trans (hheader₁.trans h.header)
    by_cases hnil : newer = []
    · subst hnil
      exact if_pos hhead
    · rw [if_neg fun heq => Linked.ne_head h.linked.nodup hnil (hhead.symm.trans heq),
        List.head?_append_of_ne_nil newer hnil, ← List.head?_append_of_ne_nil newer hnil, ← hhead]
  refine ⟨{ s₂ with header := (newer ++ older).head? }, ?_, ⟨?_, rfl, ?_⟩,
    hitems₂.trans hitems₁, ?_⟩
  · rw [← hheader]
    simp only [WaitFreeList.remove, hnode, Option.bind_eq_bind, Option.bind_some, hl, hr,
      hwrite₁, hwrite₂]
    rfl
  · apply h.linked.remove
    · intro p hp
      exact (congrFun hleft₂ p).trans (hset₁ p hp)
    · intro p hp
      exact (congrFun hleft₂ p).trans (hothers₁ p hp)
    · exact hset₂
    · intro p hp
      exact (hothers₂ p hp).trans (congrFun hright₁ p)
  · intro p hp
    show p < s₂.nodes.length
    rw [hlength₂]
    apply h.mem p
    rcases List.mem_append.mp hp with hp | hp
    · exact List.mem_append_left _ hp
    · exact List.mem_append_right _ (List.mem_cons_of_mem v hp)
  · intro p hp
    exact (congrFun hleft₂ p).trans (hothers₁ p hp)

/-! ## Runs -/

inductive Call (α : Type*)
  | add (item : α)
  | remove (node : ℕ)

namespace Call

def added (calls : List (Call α)) : List α :=
  calls.filterMap fun
    | .add item => some item
    | .remove _ => none

def removed (calls : List (Call α)) : List ℕ :=
  calls.filterMap fun
    | .add _ => none
    | .remove node => some node

end Call

/-- A list and the nodes that were removed from it. -/
structure Client (α : Type*) where
  list : WaitFreeList α := {}
  removed : List ℕ := []

namespace Client

/-- The nodes currently in the list: added and not removed. -/
def Holds (c : Client α) (p : ℕ) : Prop := p < c.list.nodes.length ∧ p ∉ c.removed

instance (c : Client α) (p : ℕ) : Decidable (c.Holds p) := inferInstanceAs (Decidable (_ ∧ _))

def step (c : Client α) : Call α → Option (Client α)
  | .add item => (c.list.add item).map fun list => { c with list := list }
  | .remove p =>
      if c.Holds p then
        (c.list.remove p).map fun list => { list := list, removed := c.removed ++ [p] }
      else none

/-- The nodes added and not removed, the last one added first. -/
def nodes (added : ℕ) (removed : List ℕ) : List ℕ :=
  (List.range added).reverse.filter (· ∉ removed)

def WellFormed (c : Client α) : Prop :=
  c.list.Represents (nodes c.list.items.length c.removed) ∧
    ∀ p ∈ c.removed, p < c.list.items.length

variable {c c' : Client α} {p : ℕ}

theorem mem_nodes {added : ℕ} {removed : List ℕ} :
    p ∈ nodes added removed ↔ p < added ∧ p ∉ removed := by
  simp [nodes]

theorem nodup_nodes (added : ℕ) (removed : List ℕ) : (nodes added removed).Nodup :=
  (List.nodup_reverse.mpr List.nodup_range).filter _

theorem nodes_succ {added : ℕ} {removed : List ℕ} (h : ∀ p ∈ removed, p < added) :
    nodes (added + 1) removed = added :: nodes added removed := by
  have hnew : added ∉ removed := fun hmem => (h added hmem).false
  simp [nodes, List.range_succ, hnew]

/-- What is kept of a list when one node more is removed. -/
theorem filter_remove {l newer older removed : List ℕ} (hnodup : l.Nodup)
    (h : l.filter (· ∉ removed) = newer ++ p :: older) :
    l.filter (· ∉ removed ++ [p]) = newer ++ older := by
  have hmem := List.nodup_middle.mp (h ▸ hnodup.filter _)
  rw [List.nodup_cons, List.mem_append, not_or] at hmem
  have hsplit : l.filter (· ∉ removed ++ [p]) = (l.filter (· ∉ removed)).filter (· ≠ p) := by
    rw [List.filter_filter]
    apply List.filter_congr
    intro q _
    simp [not_or, and_comm]
  have hkeep : ∀ l : List ℕ, p ∉ l → l.filter (· ≠ p) = l := fun l hl =>
    List.filter_eq_self.mpr fun q hq => by
      simp only [ne_eq, decide_eq_true_eq]
      exact fun heq => hl (heq ▸ hq)
  rw [hsplit, h, List.filter_append, List.filter_cons_of_neg (by simp), hkeep newer hmem.1.1,
    hkeep older hmem.1.2]

theorem holds_iff :
    c.Holds p ↔ p ∈ nodes c.list.items.length c.removed := by
  rw [mem_nodes, length_items, Holds]

/-- Adding is always possible. -/
theorem WellFormed.add (h : c.WellFormed) (item : α) :
    ∃ c', c.step (.add item) = some c' ∧ c'.WellFormed ∧
      c'.list.items = c.list.items ++ [item] ∧ c'.removed = c.removed := by
  obtain ⟨list, hadd, hlist, hitems⟩ := h.1.add item
  have hlength : list.items.length = c.list.items.length + 1 := by
    rw [hitems, List.length_append, List.length_singleton]
  refine ⟨{ c with list := list }, ?_, ⟨?_, ?_⟩, hitems, rfl⟩
  · rw [step, hadd]
    rfl
  · rw [hlength, nodes_succ h.2]
    exact hlist
  · intro p hp
    show p < list.items.length
    have := h.2 p hp
    omega

/-- So is removing a node that is in the list. -/
theorem WellFormed.remove (h : c.WellFormed) {newer older : List ℕ}
    (hp : nodes c.list.items.length c.removed = newer ++ p :: older) :
    ∃ c', c.step (.remove p) = some c' ∧ c'.WellFormed ∧ c'.list.items = c.list.items ∧
      c'.removed = c.removed ++ [p] ∧
      ∀ q, newer.getLast? ≠ some q → c'.list.left q = c.list.left q := by
  have hholds : c.Holds p := holds_iff.mpr (hp ▸ by simp)
  obtain ⟨list, hremove, hlist, hitems, hleft⟩ := (hp ▸ h.1).remove
  refine ⟨{ list := list, removed := c.removed ++ [p] }, ?_, ⟨?_, ?_⟩, hitems, rfl, hleft⟩
  · rw [step, if_pos hholds, hremove]
    rfl
  · show list.Represents (nodes list.items.length (c.removed ++ [p]))
    rw [hitems, nodes, filter_remove (List.nodup_reverse.mpr List.nodup_range) hp]
    exact hlist
  · intro q hq
    rw [hitems]
    rcases List.mem_append.mp hq with hq | hq
    · exact h.2 q hq
    · rw [List.mem_singleton.mp hq]
      exact (mem_nodes.mp (holds_iff.mp hholds)).1

theorem holds_of_remove (h : c.step (.remove p) = some c') : c.Holds p := by
  by_contra hnot
  have hnone : c.step (.remove p) = none := if_neg hnot
  exact absurd (hnone.symm.trans h) nofun

/-- A list as its clients use it: what is removed is in the list. -/
def machine : Machine (Client α) (Call α) := ⟨{}, step⟩

/-- What a run leaves: the items in the order in which they were added, the removed nodes. -/
theorem run_spec {calls : List (Call α)} (hrun : machine.run calls = some c) :
    c.WellFormed ∧ c.list.items = Call.added calls ∧ c.removed = Call.removed calls := by
  apply Machine.run_induction (P := fun calls c =>
    c.WellFormed ∧ c.list.items = Call.added calls ∧ c.removed = Call.removed calls)
    _ _ calls c hrun
  · exact ⟨⟨⟨Linked.nil _ _, rfl, fun p hp => by cases hp⟩, fun p hp => by cases hp⟩, rfl, rfl⟩
  · intro calls c call c' _ ⟨hwell, hitems, hremoved⟩ hstep
    rw [Call.added, Call.removed, List.filterMap_append, List.filterMap_append]
    cases call with
    | add item =>
        obtain ⟨c'', hadd, hwell', hitems', hremoved'⟩ := hwell.add item
        obtain rfl := Option.some.inj (hadd.symm.trans hstep)
        refine ⟨hwell', ?_, ?_⟩
        · rw [hitems', hitems]
          rfl
        · rw [hremoved', hremoved]
          exact (List.append_nil _).symm
    | remove p =>
        obtain ⟨newer, older, hp⟩ := List.append_of_mem (holds_iff.mp (holds_of_remove hstep))
        obtain ⟨c'', hremove, hwell', hitems', hremoved', -⟩ := hwell.remove hp
        obtain rfl := Option.some.inj (hremove.symm.trans hstep)
        refine ⟨hwell', ?_, ?_⟩
        · rw [hitems', hitems]
          exact (List.append_nil _).symm
        · rw [hremoved', hremoved]
          rfl

end Client

/-! ## Sweeps -/

/-- A traversal: where it is, and the nodes it has visited. -/
structure Sweep (α : Type*) where
  client : Client α
  cursor : Option ℕ
  visited : List ℕ

inductive Move
  | next
  | remove (node : ℕ)
  deriving DecidableEq

namespace Sweep

def start (c : Client α) : Sweep α := ⟨c, c.list.getFirst, c.list.getFirst.toList⟩

/-- Only visited nodes are removed. -/
def step (t : Sweep α) : Move → Option (Sweep α)
  | .next => t.cursor.bind fun current =>
      (t.client.list.getNext current).map fun cursor =>
        { t with cursor := cursor, visited := t.visited ++ cursor.toList }
  | .remove p =>
      if p ∈ t.visited then
        (t.client.step (.remove p)).map fun c => { t with client := c }
      else none

def machine (c : Client α) : Machine (Sweep α) Move := ⟨start c, step⟩

/-- Of the nodes `l`, `rest` are still to be visited; the node under the cursor leads to them,
also when it has been removed. -/
structure Along (l rest : List ℕ) (t : Sweep α) : Prop where
  split : t.visited ++ rest = l
  wellFormed : t.client.WellFormed
  nodes : Client.nodes t.client.list.items.length t.client.removed =
    t.visited.filter (· ∉ t.client.removed) ++ rest
  ended : t.cursor = none → rest = []
  leads : ∀ p, t.cursor = some p → p < t.client.list.nodes.length ∧
    t.visited.getLast? = some p ∧ t.client.list.left p = rest.head?

variable {c : Client α} {t t' : Sweep α} {l rest : List ℕ}

/-- How often the traversal still goes on. -/
def stepsLeft (t : Sweep α) (rest : List ℕ) : ℕ := if t.cursor = none then 0 else rest.length + 1

/-- A cursor on the newest of the nodes `node :: rest` of which none has been visited. -/
theorem along_start (h : c.WellFormed) :
    ∃ rest, Along (Client.nodes c.list.items.length c.removed) rest (start c) ∧
      (start c).stepsLeft rest = (Client.nodes c.list.items.length c.removed).length := by
  have hheader := h.1.header
  have hlinked := h.1.linked
  have hmem := h.1.mem
  have hkept : ∀ p ∈ Client.nodes c.list.items.length c.removed, p ∉ c.removed := fun p hp =>
    (Client.mem_nodes.mp hp).2
  cases hnodes : Client.nodes c.list.items.length c.removed with
  | nil =>
      rw [hnodes] at hheader
      have hstart : start c = ⟨c, none, []⟩ := by simp only [start, getFirst, hheader]; rfl
      refine ⟨[], ⟨?_, ?_, ?_, fun _ => rfl, ?_⟩, ?_⟩ <;> rw [hstart]
      · rfl
      · exact h
      · exact hnodes
      · intro p hp
        cases hp
      · rfl
  | cons p rest =>
      rw [hnodes] at hheader hlinked hmem hkept
      have hstart : start c = ⟨c, some p, [p]⟩ := by simp only [start, getFirst, hheader]; rfl
      refine ⟨rest, ⟨?_, ?_, ?_, ?_, ?_⟩, ?_⟩ <;> rw [hstart]
      · rfl
      · exact h
      · show Client.nodes _ _ = [p].filter _ ++ rest
        rw [hnodes, List.filter_cons_of_pos (by simpa using hkept p List.mem_cons_self)]
        rfl
      · intro hnone
        cases hnone
      · intro q hq
        obtain rfl := Option.some.inj hq
        exact ⟨hmem p List.mem_cons_self, rfl, hlinked.left_eq (List.nil_append _).symm⟩
      · rfl

/-- The traversal goes on to the first of the nodes that are left. -/
theorem Along.next (h : Along l rest t) (hcursor : t.cursor ≠ none) :
    ∃ t', t.step .next = some t' ∧ Along l rest.tail t' ∧
      t.stepsLeft rest = t'.stepsLeft rest.tail + 1 := by
  obtain ⟨p, hp⟩ := Option.ne_none_iff_exists'.mp hcursor
  obtain ⟨hlt, hlast, hleads⟩ := h.leads p hp
  have hstep : t.step .next =
      some { t with cursor := rest.head?, visited := t.visited ++ rest.head?.toList } := by
    simp only [step, hp, Option.bind_some, getNext_eq hlt, hleads]
    rfl
  cases rest with
  | nil =>
      refine ⟨_, hstep, ⟨?_, h.wellFormed, ?_, fun _ => rfl, ?_⟩, ?_⟩
      · simpa using h.split
      · simpa using h.nodes
      · intro q hq
        cases hq
      · rw [stepsLeft, stepsLeft, if_neg hcursor]
        rfl
  | cons q rest =>
      have hq : q ∈ Client.nodes t.client.list.items.length t.client.removed := by
        rw [h.nodes]
        simp
      have hkept := (Client.mem_nodes.mp hq).2
      refine ⟨_, hstep, ⟨?_, h.wellFormed, ?_, ?_, ?_⟩, ?_⟩
      · rw [← h.split]
        exact List.append_assoc ..
      · show _ = (t.visited ++ [q]).filter _ ++ rest
        rw [h.nodes, List.filter_append, List.filter_cons_of_pos (by simpa using hkept),
          List.append_assoc]
        rfl
      · intro hnone
        cases hnone
      · intro q' hq'
        obtain rfl := Option.some.inj hq'
        refine ⟨h.wellFormed.1.mem q hq, List.getLast?_concat, ?_⟩
        exact h.wellFormed.1.linked.left_eq h.nodes
      · rw [stepsLeft, stepsLeft, if_neg hcursor]
        rfl

/-- The node under the cursor is the last one that was visited, so its left neighbour stays. -/
theorem cursor_ne_right {visited removed newer older : List ℕ} {p q : ℕ} (hnodup : visited.Nodup)
    (hlast : visited.getLast? = some q)
    (hsplit : visited.filter (· ∉ removed) = newer ++ p :: older) : newer.getLast? ≠ some q := by
  intro hq
  obtain ⟨front, rfl⟩ := List.getLast?_eq_some_iff.mp hlast
  obtain ⟨newest, rfl⟩ := List.getLast?_eq_some_iff.mp hq
  have hkept : q ∉ removed := by
    have hmem : q ∈ (front ++ [q]).filter (· ∉ removed) := hsplit ▸ by simp
    exact of_decide_eq_true (List.mem_filter.mp hmem).2
  have hkeeps : (newest ++ q :: p :: older).Nodup := by
    rw [List.append_cons, ← hsplit]
    exact hnodup.filter _
  apply Linked.ne_last hkeeps (List.cons_ne_nil p older)
  rw [List.append_cons, ← hsplit, List.filter_append,
    List.filter_cons_of_pos (by simpa using hkept)]
  exact List.getLast?_concat

/-- A removal of a visited node changes nothing for the traversal. -/
theorem Along.remove (h : Along l rest t) (hl : l.Nodup) {p : ℕ}
    (hstep : t.step (.remove p) = some t') :
    Along l rest t' ∧ t'.stepsLeft rest = t.stepsLeft rest := by
  have hnodup : t.visited.Nodup := (h.split ▸ hl).of_append_left
  have hvisited : p ∈ t.visited := by
    by_contra hnot
    have hnone : t.step (.remove p) = none := if_neg hnot
    exact absurd (hnone.symm.trans hstep) nofun
  have hclient : t.step (.remove p) =
      (t.client.step (.remove p)).map fun c => { t with client := c } := if_pos hvisited
  obtain ⟨c, hc, rfl⟩ := Option.map_eq_some_iff.mp (hclient.symm.trans hstep)
  have hkept : p ∉ t.client.removed := (Client.holds_of_remove hc).2
  obtain ⟨newer, older, hsplit⟩ := List.append_of_mem
    (List.mem_filter.mpr ⟨hvisited, decide_eq_true hkept⟩ :
      p ∈ t.visited.filter (· ∉ t.client.removed))
  have hnodes : Client.nodes t.client.list.items.length t.client.removed =
      newer ++ p :: (older ++ rest) := by
    rw [h.nodes, hsplit, List.append_assoc]
    rfl
  obtain ⟨c', hc', hwell, hitems, hremoved, hleft⟩ := h.wellFormed.remove hnodes
  obtain rfl := Option.some.inj (hc.symm.trans hc')
  refine ⟨⟨h.split, hwell, ?_, h.ended, ?_⟩, rfl⟩
  · calc Client.nodes c.list.items.length c.removed
        = Client.nodes t.client.list.items.length (t.client.removed ++ [p]) := by
          rw [hitems, hremoved]
      _ = newer ++ (older ++ rest) :=
          Client.filter_remove (List.nodup_reverse.mpr List.nodup_range) hnodes
      _ = newer ++ older ++ rest := (List.append_assoc ..).symm
      _ = t.visited.filter (· ∉ c.removed) ++ rest := by
          rw [hremoved, Client.filter_remove hnodup hsplit]
  · intro q hq
    obtain ⟨hlt, hlast, hleads⟩ := h.leads q hq
    refine ⟨?_, hlast, ?_⟩
    · show q < c.list.nodes.length
      rw [length_eq_of_items hitems]
      exact hlt
    · exact (hleft q (cursor_ne_right hnodup hlast hsplit)).trans hleads

/-- Every sweep goes along the nodes that the list had at its start. -/
theorem run_spec (h : c.WellFormed) {moves : List Move} (hrun : (machine c).run moves = some t) :
    ∃ rest, Along (Client.nodes c.list.items.length c.removed) rest t ∧
      moves.count .next + t.stepsLeft rest =
        (Client.nodes c.list.items.length c.removed).length := by
  apply Machine.run_induction (P := fun moves t =>
    ∃ rest, Along (Client.nodes c.list.items.length c.removed) rest t ∧
      moves.count .next + t.stepsLeft rest =
        (Client.nodes c.list.items.length c.removed).length) _ _ moves t hrun
  · obtain ⟨rest, halong, hleft⟩ := along_start h
    exact ⟨rest, halong, by rw [List.count_nil, Nat.zero_add]; exact hleft⟩
  · intro moves t move t' _ ⟨rest, halong, hcount⟩ hstep
    rw [List.count_append, List.count_singleton]
    cases move with
    | next =>
        have hcursor : t.cursor ≠ none := fun hnone => by
          have hend : t.step .next = none := by
            rw [step, hnone]
            rfl
          exact absurd (hend.symm.trans hstep) nofun
        obtain ⟨t'', hnext, halong', hleft⟩ := halong.next hcursor
        obtain rfl := Option.some.inj (hnext.symm.trans hstep)
        refine ⟨rest.tail, halong', ?_⟩
        simp only [beq_self_eq_true, if_true]
        omega
    | remove p =>
        obtain ⟨halong', hleft⟩ := halong.remove (Client.nodup_nodes _ _) hstep
        refine ⟨rest, halong', ?_⟩
        simp only [reduceCtorEq, beq_iff_eq, if_false]
        omega

end Sweep

/-- In every run the traversal visits exactly the nodes added and not removed, the last one
added first, with the items they were added with; the links of neighbours are inverse to each
other and the header is the node without a right neighbour.  A sweep that removes nodes it has
visited comes past all nodes that the list had, and ends. -/
theorem is_list (calls : List (Call α)) (c : Client α)
    (hrun : Client.machine.run calls = some c) :
    let nodes := Client.nodes (Call.added calls).length (Call.removed calls)
    (Visits c.list.getNext c.list.getFirst nodes ∧
      ∀ p ∈ nodes, c.list.getItem p = (Call.added calls)[p]?) ∧
    ((∀ p ∈ nodes, ∀ q ∈ nodes, c.list.left p = some q ↔ c.list.right q = some p) ∧
      ∀ p ∈ nodes, c.list.right p = none ↔ c.list.header = some p) ∧
    ((∀ item, (c.step (.add item)).isSome) ∧ ∀ p ∈ nodes, (c.step (.remove p)).isSome) ∧
    ∀ moves t, (Sweep.machine c).run moves = some t →
      t.visited <+: nodes ∧ (t.cursor = none → t.visited = nodes) ∧
        (t.cursor = none ↔ moves.count .next = nodes.length) ∧
        (t.cursor ≠ none → (t.step .next).isSome) := by
  obtain ⟨hwell, hitems, hremoved⟩ := Client.run_spec hrun
  rw [← hitems, ← hremoved]
  refine ⟨⟨hwell.1.visits, fun p _ => getItem_eq c.list p⟩, ⟨?_, ?_⟩, ⟨?_, ?_⟩, ?_⟩
  · intro p hp q hq
    exact hwell.1.linked.left_eq_some_iff hp hq
  · intro p hp
    rw [hwell.1.header]
    exact hwell.1.linked.right_eq_none_iff hp
  · intro item
    obtain ⟨c', hadd, -⟩ := hwell.add item
    rw [hadd]
    rfl
  · intro p hp
    obtain ⟨newer, older, hsplit⟩ := List.append_of_mem hp
    obtain ⟨c', hremove, -⟩ := hwell.remove hsplit
    rw [hremove]
    rfl
  · intro moves t hsweep
    obtain ⟨rest, halong, hcount⟩ := Sweep.run_spec hwell hsweep
    refine ⟨⟨rest, halong.split⟩, ?_, ?_, ?_⟩
    · intro hnone
      rw [← halong.split, halong.ended hnone, List.append_nil]
    · rw [Sweep.stepsLeft] at hcount
      split_ifs at hcount with hnone
      · exact iff_of_true hnone hcount
      · exact iff_of_false hnone (by omega)
    · intro hcursor
      obtain ⟨t', hnext, -⟩ := halong.next hcursor
      rw [hnext]
      rfl

theorem is_list_remove_middle :
    ∃ c : Client ℕ, Client.machine.run [.add 10, .add 20, .add 30, .remove 1] = some c ∧
      Visits c.list.getNext c.list.getFirst [2, 0] := by
  obtain ⟨c, hrun⟩ : ∃ c : Client ℕ,
      Client.machine.run [.add 10, .add 20, .add 30, .remove 1] = some c := ⟨_, rfl⟩
  exact ⟨c, hrun, (is_list _ c hrun).1.1⟩

end WaitFreeList

end RyuLib
