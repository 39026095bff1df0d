import RyuLib.Foundations.Machine
import RyuLib.Socket.Reading

/-!
# Runs as one reader sees them

A machine whose every step moves a reader (`Follows`), whatever the machine is.  For
its runs:

* `Follows.decodes`: on a stream whose headers all count themselves the reader
  decodes it.
* `Follows.lifecycle_iff`: the events have the shape connected, received…, and at
  most one disconnected at the end, exactly when nothing is reported or delivered
  after a report.
* `Follows.validates_iff`: bodies stay inside the receive buffer, only packets of
  admissible sizes are delivered and a refused header ends the deliveries, exactly
  when no header declares less than itself and no read completes after an oversized
  one.
-/

namespace RyuLib.Reading

open Foundations

variable {σ ι ν : Type*} {rejects : ℕ → Bool} {address : ν}

/-- Every step of the machine moves the reader `lane`. -/
structure Follows (M : Machine σ ι) (rejects : ℕ → Bool) (address : ν) (lane : σ → Lane ν)
    (action : σ → ι → Action) : Prop where
  init : ∃ packet, lane M.init = { packet := packet }
  moves : ∀ {inputs s i s'}, M.run inputs = some s → M.step s i = some s' →
    Moves rejects address (lane s) (action s i) (lane s')

/-! ## What a step reports and delivers -/

section

variable {l l' : Lane ν} {action : Action}

/-- A header whose declared size satisfies `P` is complete. -/
def HeaderOf (P : ℕ → Prop) (l : Lane ν) (action : Action) : Prop :=
  ∃ op, action = .readDone ∧ l.pending = some op ∧ op.handler = .header ∧
    P (Packet.packetSize l.packet)

/-- A body is complete: its packet is delivered. -/
def Delivers (l : Lane ν) (action : Action) : Prop :=
  ∃ op, action = .readDone ∧ l.pending = some op ∧ op.handler = .body

/-- A disconnect is reported: by a failed read, a failed write or a rejected header. -/
def Reports (rejects : ℕ → Bool) (l : Lane ν) (action : Action) : Prop :=
  action = .readFailed ∨ action = .writeFailed ∨ HeaderOf (fun size => rejects size = true) l action

theorem not_delivers_of_headerOf {P : ℕ → Prop} {l : Lane ν} {action : Action}
    (h : HeaderOf P l action) : ¬ Delivers l action := by
  obtain ⟨op, rfl, hop, hheader, _⟩ := h
  rintro ⟨op', _, hop', hbody⟩
  rw [hop, Option.some.injEq] at hop'
  subst hop'
  rw [hheader] at hbody
  cases hbody

/-- What a step adds to the events. -/
theorem Moves.events_cases (hmove : Moves rejects address l action l') (hreset : action ≠ .reset) :
    (¬ Reports rejects l action ∧ ¬ Delivers l action ∧
        (l'.events = l.events ∨ l.events = [] ∧ l'.events = [.connected])) ∨
      (Delivers l action ∧ ¬ Reports rejects l action ∧
        l'.events = l.events ++ [.received l.packet]) ∨
      (Reports rejects l action ∧ ¬ Delivers l action ∧
        l'.events = l.events ++ [.disconnected]) := by
  cases hmove with
  | idle => exact Or.inl ⟨by simp [Reports, HeaderOf], by simp [Delivers], Or.inl rfl⟩
  | reset => exact absurd rfl hreset
  | start => exact Or.inl ⟨by simp [Reports, HeaderOf], by simp [Delivers], Or.inr ⟨rfl, rfl⟩⟩
  | readSome => exact Or.inl ⟨by simp [Reports, HeaderOf], by simp [Delivers], Or.inl rfl⟩
  | headerDone hop hhandler hdone =>
      have hheader : HeaderOf (fun _ => True) l .readDone := ⟨_, rfl, hop, hhandler, trivial⟩
      have hdelivers := not_delivers_of_headerOf hheader
      -- a rejected header is reported; of another one no event tells
      cases hrejects : rejects (Packet.packetSize l.packet) with
      | true =>
          refine Or.inr (Or.inr ⟨Or.inr (Or.inr ⟨_, rfl, hop, hhandler, hrejects⟩), hdelivers, ?_⟩)
          simp [headerEvents, hrejects]
      | false =>
          refine Or.inl ⟨?_, hdelivers, Or.inl ?_⟩
          · simp [Reports, HeaderOf, hrejects]
          · simp [headerEvents, hrejects]
  | bodyDone hop hhandler hdone =>
      refine Or.inr (Or.inl ⟨⟨_, rfl, hop, hhandler⟩, ?_, rfl⟩)
      rintro (h | h | h)
      · cases h
      · cases h
      · exact not_delivers_of_headerOf h ⟨_, rfl, hop, hhandler⟩
  | readFailed => exact Or.inr (Or.inr ⟨Or.inl rfl, by simp [Delivers], rfl⟩)
  | writeFailed => exact Or.inr (Or.inr ⟨Or.inr (Or.inl rfl), by simp [Delivers], rfl⟩)

/-! ## The shape of the events -/

/-- Received packets, and behind them at most one disconnect. -/
def Service : List LifeEvent → Prop
  | [] => True
  | .connected :: _ => False
  | .received _ :: events => Service events
  | .disconnected :: events => events = []

/-- The events of a connection: connected, received…, and then at most one
disconnected. -/
def Lifecycle : List LifeEvent → Prop
  | [] => True
  | .connected :: events => Service events
  | _ :: _ => False

theorem service_concat {events : List LifeEvent} {event : LifeEvent} (hevent : event ≠ .connected) :
    Service (events ++ [event]) ↔ Service events ∧ .disconnected ∉ events := by
  induction events with
  | nil => cases event <;> simp_all [Service]
  | cons first events ih => cases first <;> simp_all [Service]

/-- Behind a first event, any further one needs that no disconnect came before. -/
theorem lifecycle_concat {events : List LifeEvent} {event : LifeEvent} (hnil : events ≠ [])
    (hevent : event ≠ .connected) :
    Lifecycle (events ++ [event]) ↔ Lifecycle events ∧ .disconnected ∉ events := by
  cases events with
  | nil => exact absurd rfl hnil
  | cons first events =>
      cases first with
      | connected => simpa [Lifecycle] using service_concat hevent
      | disconnected => simp [Lifecycle]
      | received packet => simp [Lifecycle]

/-- Only a reset takes back that a reader has started. -/
theorem Moves.started (hmove : Moves rejects address l action l') (hreset : action ≠ .reset)
    (hl : l.started = true) : l'.started = true := by
  cases hmove with
  | reset => exact absurd rfl hreset
  | start => rfl
  | _ => exact hl

/-- A reader that has started has an event, and one that has not has none, and no
read either. -/
def Lane.Begun (l : Lane ν) : Prop :=
  (l.started = true → l.events ≠ []) ∧ (l.started = false → l = { packet := l.packet })

theorem Lane.Begun.started_of_pending {l : Lane ν} (hl : l.Begun) {op : ReadOp ReadHandler ν}
    (hop : l.pending = some op) : l.started = true := by
  by_contra hnot
  rw [hl.2 (by simpa using hnot)] at hop
  cases hop

theorem Moves.begun (hmove : Moves rejects address l action l') (hl : l.Begun) : l'.Begun := by
  cases hmove with
  | idle => exact hl
  | reset => exact ⟨by simp, fun _ => rfl⟩
  | start => exact ⟨by simp, by simp⟩
  | readSome hop hle => exact ⟨hl.1, by simp [hl.started_of_pending hop]⟩
  | headerDone hop hhandler hdone =>
      have hstarted := hl.started_of_pending hop
      exact ⟨by simp [hl.1 hstarted], by simp [hstarted]⟩
  | bodyDone hop hhandler hdone => exact ⟨by simp, by simp [hl.started_of_pending hop]⟩
  | readFailed hop => exact ⟨by simp, by simp [hl.started_of_pending hop]⟩
  | writeFailed hstart => exact ⟨by simp, by simp [hstart]⟩

/-- A step that reports or delivers is one of a reader that has started. -/
theorem Moves.events_ne_nil (hmove : Moves rejects address l action l') (hl : l.Begun)
    (h : Reports rejects l action ∨ Delivers l action) : l.events ≠ [] := by
  apply hl.1
  rcases h with (rfl | rfl | ⟨op, _, hop, _⟩) | ⟨op, _, hop, _⟩
  · cases hmove with
    | readFailed hop => exact hl.started_of_pending hop
  · cases hmove with
    | writeFailed hstarted => exact hstarted
  · exact hl.started_of_pending hop
  · exact hl.started_of_pending hop

/-- Only a failed read leaves a reader without one, and that is reported. -/
theorem Moves.attentive (hmove : Moves rejects address l action l')
    (hl : .connected ∈ l.events → .disconnected ∉ l.events → l.pending ≠ none) :
    .connected ∈ l'.events → .disconnected ∉ l'.events → l'.pending ≠ none := by
  cases hmove with
  | idle => exact hl
  | reset => simp
  | start => simp
  | readSome => simp
  | headerDone => simp
  | bodyDone => simp
  | readFailed => simp
  | writeFailed => simp

end

namespace Follows

variable {M : Machine σ ι} {lane : σ → Lane ν} {action : σ → ι → Action}

/-! ## Over runs -/

/-- On a stream whose headers all count themselves, the reader decodes it. -/
theorem decodes (F : Follows M rejects address lane action) :
    ∀ inputs s, M.run inputs = some s →
      packetFraming.AllSizes (headerSize ≤ ·) (lane s).incoming → Decodes (lane s) := by
  refine Machine.run_induction ?_ ?_
  · intro _
    obtain ⟨packet, hinit⟩ := F.init
    rw [hinit]
    exact decodes_of_nil rfl rfl (by simp)
  · intro inputs s i s' hs ih hstep hsized
    exact (F.moves hs hstep).decodes hsized ih

theorem begun (F : Follows M rejects address lane action) {inputs : List ι} {s : σ}
    (hrun : M.run inputs = some s) : (lane s).Begun := by
  refine Machine.run_induction (P := fun _ s => (lane s).Begun) ?_ ?_ inputs s hrun
  · obtain ⟨packet, hinit⟩ := F.init
    rw [hinit]
    exact ⟨by simp, fun _ => rfl⟩
  · intro inputs s i s' hs ih hstep
    exact (F.moves hs hstep).begun ih

/-- A connected reader that has not been reported has a read pending. -/
theorem attentive (F : Follows M rejects address lane action) {inputs : List ι} {s : σ}
    (hrun : M.run inputs = some s) :
    .connected ∈ (lane s).events → .disconnected ∉ (lane s).events → (lane s).pending ≠ none := by
  refine Machine.run_induction (P := fun _ s => .connected ∈ (lane s).events →
    .disconnected ∉ (lane s).events → (lane s).pending ≠ none) ?_ ?_ inputs s hrun
  · obtain ⟨packet, hinit⟩ := F.init
    simp [hinit]
  · intro inputs s i s' hs ih hstep
    exact (F.moves hs hstep).attentive ih

/-- The events tell the whole story of a connection exactly when no step reports or
delivers after one that reports. -/
theorem lifecycle_iff (F : Follows M rejects address lane action)
    (hreset : ∀ s i, action s i ≠ .reset) {inputs : List ι} {s : σ} (hrun : M.run inputs = some s) :
    Lifecycle (lane s).events ↔
      M.NoneAfter (fun s i => Reports rejects (lane s) (action s i))
        (fun s i => Reports rejects (lane s) (action s i) ∨ Delivers (lane s) (action s i))
        inputs := by
  -- carried along: a disconnect has been fired exactly when a step has reported one
  suffices h : (Lifecycle (lane s).events ↔ M.NoneAfter _ _ inputs) ∧
      (.disconnected ∈ (lane s).events ↔
        M.Happened (fun s i => Reports rejects (lane s) (action s i)) inputs) from h.1
  refine Machine.run_induction (P := fun inputs s =>
    (Lifecycle (lane s).events ↔ M.NoneAfter (fun s i => Reports rejects (lane s) (action s i))
        (fun s i => Reports rejects (lane s) (action s i) ∨ Delivers (lane s) (action s i))
        inputs) ∧
      (.disconnected ∈ (lane s).events ↔
        M.Happened (fun s i => Reports rejects (lane s) (action s i)) inputs)) ?_ ?_ inputs s hrun
  · obtain ⟨packet, hinit⟩ := F.init
    rw [hinit]
    exact ⟨iff_of_true trivial (Machine.noneAfter_nil _ _),
      iff_of_false (by simp) (Machine.not_happened_nil _)⟩
  · rintro inputs s i s' hs ⟨hshape, hdisconnected⟩ hstep
    rw [Machine.noneAfter_concat, Machine.happened_concat]
    simp only [hs, Option.some.injEq, forall_eq', exists_eq_left']
    rcases (F.moves hs hstep).events_cases (hreset s i) with
      ⟨hreports, hdelivers, hevents⟩ | ⟨hdelivers, hreports, hevents⟩ |
        ⟨hreports, hdelivers, hevents⟩
    · rcases hevents with hevents | ⟨hnil, hevents⟩
      · rw [hevents]
        simp [hreports, hdelivers, hshape, hdisconnected]
      · rw [hnil] at hshape hdisconnected
        rw [hevents]
        simp_all [Lifecycle, Service]
    · have hnil := (F.moves hs hstep).events_ne_nil (F.begun hs) (Or.inr hdelivers)
      rw [hevents, lifecycle_concat hnil (by simp)]
      simp [hreports, hdelivers, hshape, hdisconnected]
    · have hnil := (F.moves hs hstep).events_ne_nil (F.begun hs) (Or.inl hreports)
      rw [hevents, lifecycle_concat hnil (by simp)]
      simp [hreports, hshape, hdisconnected]

end Follows

/-! ## Validation -/

section

variable {l l' : Lane ν} {action : Action}

/-- The pending body read asks for what the header declared, and that satisfies `P`. -/
def BodyDeclares (P : ℕ → Prop) (l : Lane ν) : Prop :=
  ∀ op, l.pending = some op → op.handler = .body → headerSize ≤ op.offset ∧
    op.length = sizeT (Packet.getDataSize l.packet) ∧ P (Packet.packetSize l.packet)

/-- Only a complete header decides what the next body declares. -/
theorem Moves.bodyDeclares
    {P : ℕ → Prop} (hmove : Moves rejects address l action l') (hl : BodyDeclares P l)
    (hheader : ¬ HeaderOf (fun size => ¬ P size) l action) : BodyDeclares P l' := by
  cases hmove with
  | idle => exact hl
  | reset => intro op hop; cases hop
  | start =>
      intro op hop hbody
      obtain rfl := Option.some.inj hop
      cases hbody
  | readSome hop hle =>
      rename_i op bytes
      intro op' hop' hbody
      obtain rfl := Option.some.inj hop'
      obtain ⟨hoffset, hlength, hP⟩ := hl op hop hbody
      have hsize : Packet.packetSize (l.packet.store op.offset bytes) =
          Packet.packetSize l.packet :=
        Packet.packetSize_congr (n := headerSize) (by decide)
          (Block.load_store_before _ _ (by rw [Nat.zero_add]; exact hoffset))
      simp only [Packet.getDataSize, hsize]
      exact ⟨hoffset.trans (Nat.le_add_right _ _), hlength, hP⟩
  | headerDone hop hhandler hdone =>
      intro op' hop' _
      obtain rfl := Option.some.inj hop'
      refine ⟨le_rfl, rfl, ?_⟩
      by_contra hnot
      exact hheader ⟨_, rfl, hop, hhandler, hnot⟩
  | bodyDone =>
      intro op' hop' hbody
      obtain rfl := Option.some.inj hop'
      cases hbody
  | readFailed => intro op hop; cases hop
  | writeFailed => exact hl

/-- Behind a complete header the body it declares is read. -/
theorem Moves.pending_of_headerOf {P : ℕ → Prop} (hmove : Moves rejects address l action l')
    (hheader : HeaderOf P l action) : l'.pending = some (bodyRead address l.packet) := by
  obtain ⟨op, rfl, hop, hhandler, _⟩ := hheader
  cases hmove with
  | headerDone => rfl
  | bodyDone hop' hbody =>
      rw [hop, Option.some.injEq] at hop'
      subst hop'
      rw [hhandler] at hbody
      cases hbody

/-- A started reader whose pending read, if there is one, is that of a body. -/
def Lane.Busy (l : Lane ν) : Prop :=
  l.started = true ∧ ∀ op, l.pending = some op → op.handler = .body

theorem Moves.pending_body
    (hmove : Moves rejects address l action l') (hl : l.Busy) (hread : action ≠ .readDone)
    (hreset : action ≠ .reset) : l'.Busy := by
  obtain ⟨hstarted, hpending⟩ := hl
  cases hmove with
  | idle => exact ⟨hstarted, hpending⟩
  | reset => exact absurd rfl hreset
  | start => cases hstarted
  | readSome hop hle =>
      rename_i op bytes
      refine ⟨hstarted, ?_⟩
      intro op' hop'
      obtain rfl := Option.some.inj hop'
      exact hpending op hop
  | headerDone => exact absurd rfl hread
  | bodyDone => exact absurd rfl hread
  | readFailed => exact ⟨hstarted, fun op hop => nomatch hop⟩
  | writeFailed => exact ⟨hstarted, hpending⟩

/-- The read that completes then is a delivery. -/
theorem Moves.delivers
    (hmove : Moves rejects address l action l') (hread : action = .readDone) (hl : l.Busy) :
    Delivers l action := by
  subst hread
  cases hmove with
  | headerDone hop => exact ⟨_, rfl, hop, hl.2 _ hop⟩
  | bodyDone hop hbody => exact ⟨_, rfl, hop, hbody⟩

theorem Moves.received_eq (hmove : Moves rejects address l action l') (hreset : action ≠ .reset) :
    (Delivers l action ∧ received l'.events = received l.events ++ [l.packet]) ∨
      (¬ Delivers l action ∧ received l'.events = received l.events) := by
  rcases hmove.events_cases hreset with
    ⟨_, hdelivers, hevents | ⟨hnil, hevents⟩⟩ | ⟨hdelivers, _, hevents⟩ | ⟨_, hdelivers, hevents⟩
  · exact Or.inr ⟨hdelivers, by rw [hevents]⟩
  · exact Or.inr ⟨hdelivers, by rw [hevents, hnil]; rfl⟩
  · exact Or.inl ⟨hdelivers, by rw [hevents, received_append]; rfl⟩
  · exact Or.inr ⟨hdelivers, by rw [hevents, received_append]; simp [received]⟩

/-- A body read stays inside the receive buffer exactly when the header counts
itself. -/
theorem bodyLength_le_iff (packet : Packet) :
    sizeT (Packet.getDataSize packet) ≤ 2 * packetLimit - headerSize ↔
      headerSize ≤ Packet.packetSize packet := by
  have hlt := Packet.packetSize_lt packet
  unfold packetLimit headerSize sizeT Packet.getDataSize
  omega

/-- A declared size that is too small for a header, or too large for a packet. -/
def OutOfRange (size : ℕ) : Prop := size < headerSize ∨ packetLimit < size

end

section

variable (M : Machine σ ι) (lane : σ → Lane ν) (action : σ → ι → Action)

/-- No received event follows a header of a size that satisfies `P`. -/
def Refuses (P : ℕ → Prop) (inputs : List ι) (s : σ) : Prop :=
  ∀ first i second, inputs = first ++ i :: second → ∀ s₀, M.run first = some s₀ →
    HeaderOf P (lane s₀) (action s₀ i) → received (lane s).events = received (lane s₀).events

/-- In a run that ends in `s`, every body requested stays inside the receive buffer,
every packet received has an admissible size, and a header of another size is not
followed by a delivery. -/
structure Validates (inputs : List ι) (s : σ) : Prop where
  requested : ∀ first second, inputs = first ++ second → ∀ s₀, M.run first = some s₀ →
    ∀ op, (lane s₀).pending = some op → op.handler = .body →
      op.length ≤ 2 * packetLimit - headerSize
  admitted : ∀ packet ∈ received (lane s).events,
    headerSize ≤ Packet.packetSize packet ∧ Packet.packetSize packet ≤ packetLimit
  refused : Refuses M lane action OutOfRange inputs s

end

namespace Follows

variable {M : Machine σ ι} {lane : σ → Lane ν} {action : σ → ι → Action}

theorem bodyDeclares (F : Follows M rejects address lane action) {P : ℕ → Prop} :
    ∀ inputs s, M.run inputs = some s →
      M.Always (fun s i => ¬ HeaderOf (fun size => ¬ P size) (lane s) (action s i)) inputs →
        BodyDeclares P (lane s) := by
  refine Machine.run_induction ?_ ?_
  · intro _ op hop
    obtain ⟨packet, hinit⟩ := F.init
    rw [hinit] at hop
    cases hop
  · intro inputs s i s' hs ih hstep halways
    obtain ⟨hfront, hlast⟩ := (Machine.always_concat _ _).mp halways
    exact (F.moves hs hstep).bodyDeclares (ih hfront) (hlast s hs)

theorem requested_iff (F : Follows M rejects address lane action) {inputs : List ι} {s : σ}
    (hrun : M.run inputs = some s) :
    (∀ first second, inputs = first ++ second → ∀ s₀, M.run first = some s₀ →
      ∀ op, (lane s₀).pending = some op → op.handler = .body →
        op.length ≤ 2 * packetLimit - headerSize) ↔
      M.Always (fun s i => ¬ HeaderOf (· < headerSize) (lane s) (action s i)) inputs := by
  constructor
  · intro hrequested first i second hsplit s₀ hs₀ hheader
    have hsplit' : inputs = (first ++ [i]) ++ second := by rw [hsplit]; simp
    obtain ⟨s₁, hs₁⟩ := Machine.run_front (hsplit' ▸ hrun)
    obtain ⟨s₀', hs₀', hstep⟩ := Machine.run_concat_eq_some.mp hs₁
    rw [hs₀, Option.some.injEq] at hs₀'
    subst hs₀'
    -- the step completes the header, and the body is requested with it
    have hpending := (F.moves hs₀ hstep).pending_of_headerOf hheader
    have hlength := hrequested (first ++ [i]) second hsplit' s₁ hs₁ _ hpending rfl
    have hsize := (bodyLength_le_iff (lane s₀).packet).mp hlength
    obtain ⟨_, _, _, _, hunder⟩ := hheader
    omega
  · intro halways first second hsplit s₀ hs₀ op hop hbody
    rw [hsplit] at halways
    have hdeclares := F.bodyDeclares (P := (headerSize ≤ ·)) first s₀ hs₀
      (by simpa only [Nat.not_le] using halways.front)
    obtain ⟨_, hlength, hsize⟩ := hdeclares op hop hbody
    rw [hlength]
    exact (bodyLength_le_iff _).mpr hsize

/-- Deliveries only grow. -/
theorem received_prefix (F : Follows M rejects address lane action)
    (hreset : ∀ s i, action s i ≠ .reset) {first second : List ι} {s₀ s : σ}
    (hfirst : M.run first = some s₀) (hrun : M.run (first ++ second) = some s) :
    received (lane s₀).events <+: received (lane s).events := by
  refine Machine.run_relation
    (R := fun s₀ s => received (lane s₀).events <+: received (lane s).events)
    (fun s => List.prefix_refl _) ?_ hfirst hrun
  intro inputs s₀ s i s' hs hle hstep
  rcases (F.moves hs hstep).received_eq (hreset s i) with ⟨_, hreceived⟩ | ⟨_, hreceived⟩
  · rw [hreceived]
    exact hle.trans (List.prefix_append _ _)
  · rw [hreceived]
    exact hle

/-- Refusing is delivering nothing afterwards. -/
theorem refuses_iff (F : Follows M rejects address lane action)
    (hreset : ∀ s i, action s i ≠ .reset) {P : ℕ → Prop} :
    ∀ inputs s, M.run inputs = some s → (Refuses M lane action P inputs s ↔
      M.NoneAfter (fun s i => HeaderOf P (lane s) (action s i))
        (fun s i => Delivers (lane s) (action s i)) inputs) := by
  refine Machine.run_induction ?_ ?_
  · exact iff_of_true (fun first i second h => by simp at h) (Machine.noneAfter_nil _ _)
  · intro inputs s i s' hs ih hstep
    rw [Machine.noneAfter_concat, ← ih]
    simp only [hs, Option.some.injEq, forall_eq']
    rcases (F.moves hs hstep).received_eq (hreset s i) with
      ⟨hdelivers, hreceived⟩ | ⟨hdelivers, hreceived⟩
    · -- a delivery is one too many for any header before it
      have hnone : Refuses M lane action P (inputs ++ [i]) s' →
          ¬ M.Happened (fun s i => HeaderOf P (lane s) (action s i)) inputs := by
        rintro hrefuses ⟨first, j, second, hsplit, s₀, hs₀, hheader⟩
        have heq := hrefuses first j (second ++ [i]) (by rw [hsplit]; simp) s₀ hs₀ hheader
        have hle := (F.received_prefix hreset hs₀ (hsplit ▸ hs)).length_le
        rw [hreceived] at heq
        have hlength := congrArg List.length heq
        rw [List.length_append, List.length_singleton] at hlength
        omega
      constructor
      · intro hrefuses
        refine ⟨?_, fun _ => hnone hrefuses⟩
        intro first j second hsplit s₀ hs₀ hheader
        exact absurd ⟨first, j, second, hsplit, s₀, hs₀, hheader⟩ (hnone hrefuses)
      · rintro ⟨_, hnone⟩ first j second hsplit s₀ hs₀ hheader
        rcases Machine.split_concat hsplit with ⟨rfl, rfl, rfl⟩ | ⟨front, rfl, hinputs⟩
        · rw [hs, Option.some.injEq] at hs₀
          subst hs₀
          exact absurd hdelivers (not_delivers_of_headerOf hheader)
        · exact absurd ⟨first, j, front, hinputs, s₀, hs₀, hheader⟩ (hnone hdelivers)
    · constructor
      · intro hrefuses
        refine ⟨?_, fun h => absurd h hdelivers⟩
        intro first j second hsplit s₀ hs₀ hheader
        rw [← hreceived]
        exact hrefuses first j (second ++ [i]) (by rw [hsplit]; simp) s₀ hs₀ hheader
      · rintro ⟨hrefuses, _⟩ first j second hsplit s₀ hs₀ hheader
        rw [hreceived]
        rcases Machine.split_concat hsplit with ⟨rfl, rfl, rfl⟩ | ⟨front, rfl, hinputs⟩
        · rw [hs, Option.some.injEq] at hs₀
          rw [hs₀]
        · exact hrefuses first j front hinputs s₀ hs₀ hheader

/-- While no read completes after a header that satisfies `P`, the read pending
behind such a header is that of its body. -/
theorem pending_body (F : Follows M rejects address lane action)
    (hreset : ∀ s i, action s i ≠ .reset) {P : ℕ → Prop} :
    ∀ inputs s, M.run inputs = some s →
      M.NoneAfter (fun s i => HeaderOf P (lane s) (action s i)) (fun s i => action s i = .readDone)
        inputs →
      M.Happened (fun s i => HeaderOf P (lane s) (action s i)) inputs →
        (lane s).Busy := by
  refine Machine.run_induction ?_ ?_
  · exact fun _ h => absurd h (Machine.not_happened_nil _)
  · intro inputs s i s' hs ih hstep hnone hhappened
    obtain ⟨hnone, hlast⟩ := Machine.noneAfter_concat.mp hnone
    have hmove := F.moves hs hstep
    rcases Machine.happened_concat.mp hhappened with hhappened | ⟨s₀, hs₀, hheader⟩
    · exact hmove.pending_body (ih hnone hhappened) (fun h => hlast s hs h hhappened) (hreset s i)
    · rw [hs, Option.some.injEq] at hs₀
      subst hs₀
      have hpending := hmove.pending_of_headerOf hheader
      refine ⟨(hmove.begun (F.begun hs)).started_of_pending hpending, ?_⟩
      intro op hop
      rw [hpending, Option.some.injEq] at hop
      subst hop
      rfl

/-- The first read that completes after such a header is a delivery. -/
theorem noneAfter_readDone (F : Follows M rejects address lane action)
    (hreset : ∀ s i, action s i ≠ .reset) {P : ℕ → Prop} :
    ∀ inputs s, M.run inputs = some s →
      M.NoneAfter (fun s i => HeaderOf P (lane s) (action s i))
        (fun s i => Delivers (lane s) (action s i)) inputs →
      M.NoneAfter (fun s i => HeaderOf P (lane s) (action s i)) (fun s i => action s i = .readDone)
        inputs := by
  refine Machine.run_induction ?_ ?_
  · exact fun _ => Machine.noneAfter_nil _ _
  · intro inputs s i s' hs ih hstep hnone
    obtain ⟨hnone, hlast⟩ := Machine.noneAfter_concat.mp hnone
    have hfront := ih hnone
    refine Machine.noneAfter_concat.mpr ⟨hfront, ?_⟩
    intro s₀ hs₀ hread hhappened
    rw [hs, Option.some.injEq] at hs₀
    subst hs₀
    -- so far no read has completed, so the one that does is that of the body
    have hbusy := F.pending_body hreset inputs s hs hfront hhappened
    exact hlast s hs ((F.moves hs hstep).delivers hread hbusy) hhappened

/-- What is delivered while no header is too small, and no read completes after one
that is too large. -/
theorem admitted (F : Follows M rejects address lane action) (hreset : ∀ s i, action s i ≠ .reset) :
    ∀ inputs s, M.run inputs = some s →
      M.Always (fun s i => ¬ HeaderOf (· < headerSize) (lane s) (action s i)) inputs →
      M.NoneAfter (fun s i => HeaderOf (packetLimit < ·) (lane s) (action s i))
        (fun s i => action s i = .readDone) inputs →
      ∀ packet ∈ received (lane s).events,
        headerSize ≤ Packet.packetSize packet ∧ Packet.packetSize packet ≤ packetLimit := by
  refine Machine.run_induction ?_ ?_
  · intro _ _ packet hpacket
    obtain ⟨_, hinit⟩ := F.init
    rw [hinit] at hpacket
    cases hpacket
  · intro inputs s i s' hs ih hstep halways hnone
    have hunder := ((Machine.always_concat _ _).mp halways).1
    obtain ⟨hfront, hlast⟩ := Machine.noneAfter_concat.mp hnone
    rcases (F.moves hs hstep).received_eq (hreset s i) with
      ⟨⟨op, hread, hop, hbody⟩, hreceived⟩ | ⟨_, hreceived⟩
    · intro packet hpacket
      rw [hreceived, List.mem_append, List.mem_singleton] at hpacket
      rcases hpacket with hpacket | rfl
      · exact ih hunder hfront packet hpacket
      · -- no header so far was too large, for then this read would not complete
        have hover := Machine.always_not_iff.mpr (hlast s hs hread)
        have hlower := F.bodyDeclares (P := (headerSize ≤ ·)) inputs s hs
          (by simpa only [Nat.not_le] using hunder)
        have hupper := F.bodyDeclares (P := (· ≤ packetLimit)) inputs s hs
          (by simpa only [Nat.not_le] using hover)
        exact ⟨(hlower op hop hbody).2.2, (hupper op hop hbody).2.2⟩
    · rw [hreceived]
      exact ih hunder hfront

/-- Sizes are validated exactly when no header declares less than itself and no read
completes after a header of more than `packetLimit` bytes. -/
theorem validates_iff (F : Follows M rejects address lane action)
    (hreset : ∀ s i, action s i ≠ .reset) {inputs : List ι} {s : σ} (hrun : M.run inputs = some s) :
    Validates M lane action inputs s ↔
      M.Always (fun s i => ¬ HeaderOf (· < headerSize) (lane s) (action s i)) inputs ∧
        M.NoneAfter (fun s i => HeaderOf (packetLimit < ·) (lane s) (action s i))
          (fun s i => action s i = .readDone) inputs := by
  constructor
  · intro hvalid
    refine ⟨(F.requested_iff hrun).mp hvalid.requested,
      F.noneAfter_readDone hreset inputs s hrun ?_⟩
    refine ((F.refuses_iff hreset inputs s hrun).mp hvalid.refused).mono ?_ fun _ _ h => h
    rintro first i second _ s₀ _ ⟨op, hread, hop, hhandler, hover⟩
    exact ⟨op, hread, hop, hhandler, Or.inr hover⟩
  · rintro ⟨halways, hnone⟩
    refine ⟨(F.requested_iff hrun).mpr halways, F.admitted hreset inputs s hrun halways hnone, ?_⟩
    refine (F.refuses_iff hreset inputs s hrun).mpr (hnone.mono ?_ ?_)
    · rintro first i second hsplit s₀ hs₀ ⟨op, hread, hop, hhandler, hunder | hover⟩
      · exact absurd ⟨op, hread, hop, hhandler, hunder⟩ (halways first i second hsplit s₀ hs₀)
      · exact ⟨op, hread, hop, hhandler, hover⟩
    · rintro s₀ i ⟨op, hread, _⟩
      exact hread

end Follows

/-! ## Streams that arrive -/

theorem Moves.of_readSome {l l' : Lane ν} {bytes : List UInt8}
    (hmove : Moves rejects address l (.readSome bytes) l') {op : ReadOp ReadHandler ν}
    (hop : l.pending = some op) :
    l'.incoming = l.incoming ++ bytes ∧ l'.packet = l.packet.store op.offset bytes ∧
      l'.pending = some
        { op with
          offset := op.offset + bytes.length
          remaining := op.remaining - bytes.length } := by
  cases hmove with
  | readSome hop' =>
      rw [hop, Option.some.injEq] at hop'
      subst hop'
      exact ⟨rfl, rfl, rfl⟩

/-- The read started when the one bound to `handler` is complete. -/
def nextRead (address : ν) (packet : Packet) : ReadHandler → ReadOp ReadHandler ν
  | .header => bodyRead address packet
  | .body => headerRead address

theorem Moves.of_readDone {l l' : Lane ν}
    (hmove : Moves rejects address l .readDone l') {op : ReadOp ReadHandler ν}
    (hop : l.pending = some op) :
    l'.incoming = l.incoming ∧ l'.pending = some (nextRead address l.packet op.handler) := by
  cases hmove with
  | headerDone hop' hhandler =>
      rw [hop, Option.some.injEq] at hop'
      rw [hop', hhandler]
      exact ⟨rfl, rfl⟩
  | bodyDone hop' hhandler =>
      rw [hop, Option.some.injEq] at hop'
      rw [hop', hhandler]
      exact ⟨rfl, rfl⟩

/-- As long as `ready` holds, a pending read can make progress and be completed. -/
structure Serves (M : Machine σ ι) (lane : σ → Lane ν) (action : σ → ι → Action)
    (ready : σ → Prop) : Prop where
  readSome : ∀ {inputs s op bytes}, M.run inputs = some s → ready s → (lane s).pending = some op →
    0 < bytes.length → bytes.length ≤ op.remaining →
      ∃ i s', M.step s i = some s' ∧ action s i = .readSome bytes ∧ ready s'
  readDone : ∀ {inputs s op}, M.run inputs = some s → ready s → (lane s).pending = some op →
    op.remaining = 0 → ∃ i s', M.step s i = some s' ∧ action s i = .readDone ∧ ready s'

namespace Follows

variable {M : Machine σ ι} {lane : σ → Lane ν} {action : σ → ι → Action} {ready : σ → Prop}

/-- Completing a read that has all its bytes. -/
theorem exists_readDone (F : Follows M rejects address lane action)
    (S : Serves M lane action ready) {inputs : List ι} {s : σ} (hrun : M.run inputs = some s)
    (hready : ready s) {op : ReadOp ReadHandler ν} (hop : (lane s).pending = some op)
    (hdone : op.remaining = 0) :
    ∃ i s', M.run (inputs ++ [i]) = some s' ∧ ready s' ∧ (lane s').incoming = (lane s).incoming ∧
      (lane s').pending = some (nextRead address (lane s).packet op.handler) := by
  obtain ⟨i, s', hstep, haction, hready'⟩ := S.readDone hrun hready hop hdone
  have hmove := F.moves hrun hstep
  rw [haction] at hmove
  obtain ⟨hincoming, hpending⟩ := hmove.of_readDone hop
  exact ⟨i, s', Machine.run_concat_eq_some.mpr ⟨s, hrun, hstep⟩, hready', hincoming, hpending⟩

/-- A header read awaits bytes; so does a body, unless it is empty. -/
private theorem exists_awaiting_body (F : Follows M rejects address lane action)
    (S : Serves M lane action ready) {inputs : List ι} {s : σ} (hrun : M.run inputs = some s)
    (hready : ready s) {op : ReadOp ReadHandler ν} (hop : (lane s).pending = some op)
    (hbody : op.handler = .body) :
    ∃ inputs' s', M.run inputs' = some s' ∧ ready s' ∧ (lane s').incoming = (lane s).incoming ∧
      Awaiting (lane s') := by
  rcases Nat.eq_zero_or_pos op.remaining with hdone | hremaining
  · obtain ⟨i, s', hrun', hready', hincoming, hpending⟩ := F.exists_readDone S hrun hready hop hdone
    rw [hbody] at hpending
    exact ⟨_, s', hrun', hready', hincoming, _, hpending, Nat.succ_pos 2⟩
  · exact ⟨inputs, s, hrun, hready, rfl, op, hop, hremaining⟩

/-- After at most two completions, bytes are awaited. -/
theorem exists_awaiting (F : Follows M rejects address lane action)
    (S : Serves M lane action ready) {inputs : List ι} {s : σ} (hrun : M.run inputs = some s)
    (hready : ready s) (hpending : ∃ op, (lane s).pending = some op) :
    ∃ inputs' s', M.run inputs' = some s' ∧ ready s' ∧ (lane s').incoming = (lane s).incoming ∧
      Awaiting (lane s') := by
  obtain ⟨op, hop⟩ := hpending
  cases hhandler : op.handler with
  | body => exact F.exists_awaiting_body S hrun hready hop hhandler
  | header =>
      rcases Nat.eq_zero_or_pos op.remaining with hdone | hremaining
      · obtain ⟨i, s₁, hrun₁, hready₁, hincoming₁, hpending₁⟩ :=
          F.exists_readDone S hrun hready hop hdone
        rw [hhandler] at hpending₁
        obtain ⟨inputs', s', hrun', hready', hincoming', hawaiting⟩ :=
          F.exists_awaiting_body S hrun₁ hready₁ hpending₁ rfl
        exact ⟨inputs', s', hrun', hready', hincoming'.trans hincoming₁, hawaiting⟩
      · exact ⟨inputs, s, hrun, hready, rfl, op, hop, hremaining⟩

/-- Any stream can arrive. -/
theorem exists_incoming (F : Follows M rejects address lane action)
    (S : Serves M lane action ready) {inputs : List ι} {s : σ} (hrun : M.run inputs = some s)
    (hready : ready s) (hincoming : (lane s).incoming = [])
    (hpending : ∃ op, (lane s).pending = some op) (stream : List UInt8) :
    ∃ inputs' s', M.run inputs' = some s' ∧ ready s' ∧ (lane s').incoming = stream ∧
      Awaiting (lane s') := by
  induction stream using List.reverseRecOn with
  | nil =>
      obtain ⟨inputs', s', hrun', hready', hincoming', hawaiting⟩ :=
        F.exists_awaiting S hrun hready hpending
      exact ⟨inputs', s', hrun', hready', hincoming'.trans hincoming, hawaiting⟩
  | append_singleton stream byte ih =>
      obtain ⟨inputs₁, s₁, hrun₁, hready₁, hincoming₁, op, hop, hremaining⟩ := ih
      obtain ⟨i, s₂, hstep, haction, hready₂⟩ :=
        S.readSome hrun₁ hready₁ hop (show 0 < [byte].length from Nat.one_pos) hremaining
      have hmove := F.moves hrun₁ hstep
      rw [haction] at hmove
      obtain ⟨hincoming₂, _, hpending₂⟩ := hmove.of_readSome hop
      have hrun₂ := Machine.run_concat_eq_some.mpr ⟨s₁, hrun₁, hstep⟩
      obtain ⟨inputs', s', hrun', hready', hincoming', hawaiting⟩ :=
        F.exists_awaiting S hrun₂ hready₂ ⟨_, hpending₂⟩
      exact ⟨inputs', s', hrun', hready', by rw [hincoming', hincoming₂, hincoming₁], hawaiting⟩

end Follows

end RyuLib.Reading
