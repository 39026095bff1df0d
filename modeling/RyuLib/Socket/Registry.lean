import RyuLib.Socket.ServerLanes

/-!
# The list of connections

`connection_list_` holds raw pointers.  Between two handlers it has no duplicates, it
lists exactly the connections that are connected (`Listing`), and each of these has
its one read pending, whose handler keeps it alive (`Registry`).  Ids are given out in
the order of the accepts (`Numbered`), so they are different until the counter wraps.
What `sendToAll` and `sendToOther` queue follows from the first.
-/

namespace RyuLib

open Foundations Reading

/-- A connection with one more copy of a packet to send. -/
def Connection.withCopy (k : Connection) (memory : Heap Address UInt8) (packet : Address) :
    Connection :=
  { k with socket := k.socket.asyncWrite memory packet (Packet.packetSize (memory packet)) }

namespace SocketServer

/-! ## The list -/

/-- The list is that of the connected connections: those whose connected event has been
fired and whose disconnected event has not. -/
structure Listing (s : SocketServer) : Prop where
  nodup : s.connectionList.Nodup
  listed : ∀ c, c ∈ s.connectionList ↔ (s.connections c).isConnected = true
  connected : ∀ c, (s.connections c).isConnected = true ↔
    .connected ∈ (s.lane c).events ∧ .disconnected ∉ (s.lane c).events

namespace Listing

theorem congr {s s' : SocketServer} (hs : Listing s) (hlist : s'.connectionList = s.connectionList)
    (hevents : s'.events = s.events)
    (hconnected : ∀ c, (s'.connections c).isConnected = (s.connections c).isConnected) :
    Listing s' where
  nodup := hlist ▸ hs.nodup
  listed c := by
    rw [hlist, hconnected]
    exact hs.listed c
  connected c := by
    simp only [hconnected, lane, hevents]
    exact hs.connected c

theorem sendsOnly {s s' : SocketServer} (hs : Listing s) (h : SendsOnly s s') : Listing s' :=
  hs.congr h.connectionList h.events h.isConnected

/-- Errors and received packets do not matter to the list. -/
theorem log {s : SocketServer} (hs : Listing s) {event : ServerEvent}
    (hevent : ∀ c, lifeEvent c event ≠ some .connected ∧ lifeEvent c event ≠ some .disconnected) :
    Listing (s.log event) where
  nodup := hs.nodup
  listed := hs.listed
  connected c := by
    obtain ⟨hconnected, hdisconnected⟩ := hevent c
    have hlog := hs.connected c
    rw [lane_log]
    simp only [List.mem_append, Option.mem_toList, hconnected, hdisconnected, or_false]
    exact hlog

theorem modify {s : SocketServer} (hs : Listing s) (c : ConnectionPtr) {f : Connection → Connection}
    (hf : ∀ k, (f k).isConnected = k.isConnected) : Listing (s.modify c f) := by
  refine hs.congr rfl rfl ?_
  intro d
  by_cases hd : d = c
  · subst hd
    simp [SocketServer.modify, hf]
  · simp [SocketServer.modify, hd]

theorem setSocket {s : SocketServer} (hs : Listing s) (c : ConnectionPtr)
    (socket : StreamSocket ReadHandler Address UInt8) : Listing (s.setSocket c socket) :=
  hs.modify c fun _ => rfl

theorem disconnected {s : SocketServer} (hs : Listing s) (c : ConnectionPtr) :
    Listing (s.fireDisconnectedEvent quiet c) := by
  refine ⟨hs.nodup.filter _, ?_, ?_⟩
  · intro d
    by_cases hd : d = c
    · subst hd
      simp [fireDisconnectedEvent, SocketServer.log, SocketServer.modify, Connection.doDisconnected]
    · simpa [fireDisconnectedEvent, SocketServer.log, SocketServer.modify, hd] using hs.listed d
  · intro d
    by_cases hd : d = c
    · subst hd
      rw [lane_fireDisconnectedEvent]
      simp [fireDisconnectedEvent, SocketServer.log, SocketServer.modify, Connection.doDisconnected]
    · have htouches := touches_disconnected s c
      rw [htouches.lane hd, htouches.connections d hd]
      exact hs.connected d

/-- A connection enters the list when nothing has been fired for it. -/
theorem fireConnected {s : SocketServer} (hs : Listing s) {c : ConnectionPtr}
    (hc : (s.lane c).events = []) : Listing (s.fireConnectedEvent quiet c) := by
  have hnot : c ∉ s.connectionList := by
    rw [hs.listed, hs.connected, hc]
    simp
  refine ⟨?_, ?_, ?_⟩
  · have hnodup : (s.connectionList ++ [c]).Nodup := by
      rw [List.nodup_append]
      refine ⟨hs.nodup, List.nodup_singleton c, ?_⟩
      intro d hd e he
      rw [List.mem_singleton.mp he]
      rintro rfl
      exact hnot hd
    exact hnodup
  · intro d
    by_cases hd : d = c
    · subst hd
      simp [fireConnectedEvent, SocketServer.log, SocketServer.modify, Connection.doConnected]
    · simpa [fireConnectedEvent, SocketServer.log, SocketServer.modify, hd] using hs.listed d
  · intro d
    by_cases hd : d = c
    · subst hd
      have hevents : s.events.filterMap (lifeEvent d) = [] := hc
      simp [fireConnectedEvent, SocketServer.log, SocketServer.modify, Connection.doConnected, lane,
        lifeEvent, hevents]
    · simpa [fireConnectedEvent, SocketServer.log, SocketServer.modify, lane, lifeEvent, hd,
        Ne.symm hd] using hs.connected d

theorem handleRead {s : SocketServer} (hs : Listing s) (c : ConnectionPtr) (error : Bool)
    (handler : ReadHandler) : Listing (s.handleRead quiet c error handler) := by
  cases error with
  | true => cases handler <;> exact hs.disconnected c
  | false =>
      cases handler with
      | body =>
          refine (hs.log ?_).setSocket c _
          intro d
          by_cases hd : c = d <;> simp [lifeEvent, hd]
      | header =>
          simp only [SocketServer.handleRead, handleReadHeader, if_true]
          split
          · exact ((hs.log fun d => by simp [lifeEvent]).disconnected c).setSocket c _
          · exact hs.setSocket c _

theorem handleWrite {s : SocketServer} (hs : Listing s) (c : ConnectionPtr) (error : Bool) :
    Listing (s.handleWrite quiet c error) := by
  cases error with
  | true => exact hs.disconnected c
  | false => exact hs

theorem handleAccept {s : SocketServer} (hs : Listing s) (hwell : WellFormed s) (error : Bool) :
    Listing (s.handleAccept quiet s.accepting error) := by
  rw [hwell.handleAccept_eq]
  refine Listing.congr (s := if error = false then s.start quiet s.accepting else s) ?_ rfl rfl
    fun _ => rfl
  split
  · have hsilent := (hwell.fresh _ (hwell.waiting s.accepting le_rfl)).2
    refine Listing.setSocket (fireConnected (hs.modify _ ?_) hsilent) _ _
    exact fun _ => rfl
  · exact hs

/-- Every step keeps the list. -/
theorem step {s s' : SocketServer} {turn : Turn} (hs : Listing s) (hwell : WellFormed s)
    (hstep : step s turn = some s') : Listing s' := by
  obtain ⟨t, hquiet, hsends⟩ := step_quiet hwell.listed hstep
  refine Listing.sendsOnly ?_ hsends
  obtain ⟨input, callbacks⟩ := turn
  cases input with
  | accept error =>
      obtain rfl := Option.some.inj hquiet
      exact hs.handleAccept hwell error
  | readSome c i bytes =>
      obtain ⟨result, _, rfl⟩ := Option.map_eq_some_iff.mp hquiet
      exact (hs.setSocket c result.2).congr rfl rfl fun _ => rfl
  | readDone c i =>
      obtain ⟨result, _, rfl⟩ := Option.map_eq_some_iff.mp hquiet
      exact (hs.setSocket c result.2).handleRead c false result.1
  | readFailed c i =>
      obtain ⟨result, _, rfl⟩ := Option.map_eq_some_iff.mp hquiet
      exact (hs.setSocket c result.2).handleRead c true result.1
  | writeSome c i n =>
      obtain ⟨socket, _, rfl⟩ := Option.map_eq_some_iff.mp hquiet
      exact hs.setSocket c socket
  | writeDone c i =>
      obtain ⟨socket, _, rfl⟩ := Option.map_eq_some_iff.mp hquiet
      exact (hs.setSocket c socket).handleWrite c false
  | writeFailed c i =>
      obtain ⟨socket, _, rfl⟩ := Option.map_eq_some_iff.mp hquiet
      exact (hs.setSocket c socket).handleWrite c true
  | call call =>
      obtain rfl := Option.some.inj hquiet
      exact hs.sendsOnly (sendsOnly_call hwell.listed call)
  | setUserID c userId =>
      obtain rfl := Option.some.inj hquiet
      split
      · exact hs.modify c fun _ => rfl
      · exact hs
  | rewrite block contents =>
      obtain rfl := Option.some.inj hquiet
      exact hs.sendsOnly (sendsOnly_rewrite s block contents)

end Listing

theorem listing_init (memory : Heap Address UInt8) : Listing (machine memory).init where
  nodup := List.nodup_nil
  listed c := by
    rw [connections_init]
    exact iff_of_false (fun h => nomatch h) (by simp)
  connected c := by
    rw [connections_init]
    exact iff_of_false (by simp) (fun h => nomatch h.1)

theorem listing_run {memory : Heap Address UInt8} {turns : List Turn} {s : SocketServer}
    (hrun : (machine memory).run turns = some s) : Listing s :=
  Machine.run_induction (P := fun _ s => Listing s) (listing_init memory)
    (fun _ _ _ _ hs hlisting hstep => hlisting.step (wellFormed_run hs) hstep) turns s hrun

/-! ## Ids -/

/-- What the ids of a server depend on. -/
def ids (s : SocketServer) : UInt32 × (ConnectionPtr → Bool × UInt32) :=
  (s.id, fun c => ((s.connections c).started, (s.connections c).id))

/-- A successful accept. -/
def Turn.accepts (turn : Turn) : Bool :=
  match turn.input with
  | .accept error => !error
  | _ => false

/-- The started connections have been numbered below `n`, and their ids are their
numbers. -/
def Numbered (n : ℕ) (s : SocketServer) : Prop :=
  s.id = UInt32.ofNat n ∧ ∃ number : ConnectionPtr → ℕ,
    (∀ c, (s.connections c).started = true →
      number c < n ∧ (s.connections c).id = UInt32.ofNat (number c)) ∧
    ∀ c d, (s.connections c).started = true → (s.connections d).started = true →
      number c = number d → c = d

theorem SendsOnly.ids {s s' : SocketServer} (h : SendsOnly s s') : s'.ids = s.ids := by
  simp only [SocketServer.ids, h.id, h.started, h.connectionId]

theorem ids_modify (s : SocketServer) (c : ConnectionPtr) {f : Connection → Connection}
    (hf : ∀ k, (f k).started = k.started ∧ (f k).id = k.id) : (s.modify c f).ids = s.ids := by
  refine Prod.ext rfl (funext ?_)
  intro d
  by_cases hd : d = c
  · subst hd
    simp [ids, modify, hf]
  · simp [ids, modify, hd]

@[simp] theorem ids_setSocket (s : SocketServer) (c : ConnectionPtr)
    (socket : StreamSocket ReadHandler Address UInt8) : (s.setSocket c socket).ids = s.ids :=
  ids_modify s c fun _ => ⟨rfl, rfl⟩

@[simp] theorem ids_asyncRead (s : SocketServer) (c : ConnectionPtr) (handler : ReadHandler)
    (offset length : ℕ) : (s.asyncRead c handler offset length).ids = s.ids :=
  ids_setSocket s c _

@[simp] theorem ids_disconnected (s : SocketServer) (c : ConnectionPtr) :
    (s.fireDisconnectedEvent quiet c).ids = s.ids :=
  ids_modify s c fun _ => ⟨rfl, rfl⟩

theorem ids_handleRead (s : SocketServer) (c : ConnectionPtr) (error : Bool)
    (handler : ReadHandler) : (s.handleRead quiet c error handler).ids = s.ids := by
  cases error with
  | true => cases handler <;> exact ids_disconnected s c
  | false =>
      cases handler with
      | body => exact ids_asyncRead _ c .header 0 headerSize
      | header =>
          simp only [handleRead, handleReadHeader, if_true, ids_asyncRead]
          split
          · rw [ids_disconnected]
            rfl
          · rfl

theorem ids_handleWrite (s : SocketServer) (c : ConnectionPtr) (error : Bool) :
    (s.handleWrite quiet c error).ids = s.ids := by
  cases error with
  | true => exact ids_disconnected s c
  | false => rfl

theorem Numbered.congr {n : ℕ} {s s' : SocketServer} (hs : Numbered n s) (h : s'.ids = s.ids) :
    Numbered n s' := by
  have hid : s'.id = s.id := congrArg Prod.fst h
  have hconnection : ∀ c, (s'.connections c).started = (s.connections c).started ∧
      (s'.connections c).id = (s.connections c).id := fun c =>
    Prod.ext_iff.mp (congrFun (congrArg Prod.snd h) c)
  obtain ⟨hserver, number, hnumber, hinjective⟩ := hs
  refine ⟨hid.trans hserver, number, ?_, ?_⟩
  · intro c hc
    rw [(hconnection c).2]
    exact hnumber c ((hconnection c).1 ▸ hc)
  · intro c d hc hd
    exact hinjective c d ((hconnection c).1 ▸ hc) ((hconnection d).1 ▸ hd)

/-- A successful accept gives out the next id. -/
theorem Numbered.accept {n : ℕ} {s : SocketServer} (hs : Numbered n s) (hwell : WellFormed s) :
    Numbered (n + 1) (s.handleAccept quiet s.accepting false) := by
  obtain ⟨hserver, number, hnumber, hinjective⟩ := hs
  rw [hwell.handleAccept_eq]
  have hnew : ((s.start quiet s.accepting).connections s.accepting).id = s.id := by
    simp [start, asyncRead, setSocket, fireConnectedEvent, log, modify, Connection.doConnected]
  have hold : ∀ c ≠ s.accepting, (s.start quiet s.accepting).connections c = s.connections c :=
    fun c hc => connections_start_of_ne s hc
  -- the new connection has number `n`, above all others
  refine ⟨?_, Function.update number s.accepting n, ?_, ?_⟩
  · show s.id + 1 = UInt32.ofNat (n + 1)
    rw [hserver, UInt32.ofNat_add]
    rfl
  · intro c hc
    simp only [if_true] at hc ⊢
    by_cases hca : c = s.accepting
    · rw [hca, Function.update_self, hnew, hserver]
      exact ⟨Nat.lt_succ_self n, rfl⟩
    · rw [hold c hca] at hc ⊢
      rw [Function.update_of_ne hca]
      obtain ⟨hlt, hid⟩ := hnumber c hc
      exact ⟨Nat.lt_succ_of_lt hlt, hid⟩
  · intro c d hc hd heq
    simp only [if_true] at hc hd
    by_cases hca : c = s.accepting
    · by_cases hda : d = s.accepting
      · rw [hca, hda]
      · rw [hold d hda] at hd
        rw [hca, Function.update_self, Function.update_of_ne hda] at heq
        exact absurd heq (hnumber d hd).1.ne'
    · rw [hold c hca] at hc
      by_cases hda : d = s.accepting
      · rw [hda, Function.update_self, Function.update_of_ne hca] at heq
        exact absurd heq (hnumber c hc).1.ne
      · rw [hold d hda] at hd
        rw [Function.update_of_ne hca, Function.update_of_ne hda] at heq
        exact hinjective c d hc hd heq

theorem Numbered.step {n : ℕ} {s s' : SocketServer} {turn : Turn} (hs : Numbered n s)
    (hwell : WellFormed s) (hstep : step s turn = some s') :
    Numbered (n + turn.accepts.toNat) s' := by
  obtain ⟨t, hquiet, hsends⟩ := step_quiet hwell.listed hstep
  refine Numbered.congr ?_ hsends.ids
  obtain ⟨input, callbacks⟩ := turn
  cases input with
  | accept error =>
      obtain rfl := Option.some.inj hquiet
      cases error with
      | false => exact hs.accept hwell
      | true =>
          apply hs.congr
          show (s.handleAccept quiet s.accepting true).ids = s.ids
          rw [hwell.handleAccept_eq]
          rfl
  | readSome c i bytes =>
      obtain ⟨result, _, rfl⟩ := Option.map_eq_some_iff.mp hquiet
      exact hs.congr (ids_setSocket { s with memory := result.1 } c result.2)
  | readDone c i =>
      obtain ⟨result, _, rfl⟩ := Option.map_eq_some_iff.mp hquiet
      exact hs.congr ((ids_handleRead _ c false result.1).trans (ids_setSocket s c result.2))
  | readFailed c i =>
      obtain ⟨result, _, rfl⟩ := Option.map_eq_some_iff.mp hquiet
      exact hs.congr ((ids_handleRead _ c true result.1).trans (ids_setSocket s c result.2))
  | writeSome c i n =>
      obtain ⟨socket, _, rfl⟩ := Option.map_eq_some_iff.mp hquiet
      exact hs.congr (ids_setSocket s c socket)
  | writeDone c i =>
      obtain ⟨socket, _, rfl⟩ := Option.map_eq_some_iff.mp hquiet
      exact hs.congr ((ids_handleWrite _ c false).trans (ids_setSocket s c socket))
  | writeFailed c i =>
      obtain ⟨socket, _, rfl⟩ := Option.map_eq_some_iff.mp hquiet
      exact hs.congr ((ids_handleWrite _ c true).trans (ids_setSocket s c socket))
  | call call =>
      obtain rfl := Option.some.inj hquiet
      exact hs.congr (sendsOnly_call hwell.listed call).ids
  | setUserID c userId =>
      obtain rfl := Option.some.inj hquiet
      split
      · exact hs.congr (ids_modify s c fun _ => ⟨rfl, rfl⟩)
      · exact hs
  | rewrite block contents =>
      obtain rfl := Option.some.inj hquiet
      exact hs.congr (sendsOnly_rewrite s block contents).ids

theorem numbered_run {memory : Heap Address UInt8} {turns : List Turn} {s : SocketServer}
    (hrun : (machine memory).run turns = some s) : Numbered (turns.countP Turn.accepts) s := by
  refine Machine.run_induction (P := fun turns s => Numbered (turns.countP Turn.accepts) s) ?_ ?_
    turns s hrun
  · refine ⟨rfl, fun _ => 0, ?_, ?_⟩
    · intro c hc
      rw [connections_init] at hc
      cases hc
    · intro c d hc
      rw [connections_init] at hc
      cases hc
  · intro turns s turn s' hs hnumbered hstep
    rw [List.countP_append, List.countP_singleton]
    have hstep' := hnumbered.step (wellFormed_run hs) hstep
    cases haccepts : turn.accepts <;> simpa [haccepts] using hstep'

/-- Two connections got the same id only if the counter has wrapped. -/
theorem Numbered.id_ne {n : ℕ} {s : SocketServer} (hs : Numbered n s) (hn : n < 2 ^ 32)
    {c d : ConnectionPtr} (hc : (s.connections c).started = true)
    (hd : (s.connections d).started = true) (hne : c ≠ d) :
    (s.connections c).id ≠ (s.connections d).id := by
  obtain ⟨_, number, hnumber, hinjective⟩ := hs
  obtain ⟨hcn, hcid⟩ := hnumber c hc
  obtain ⟨hdn, hdid⟩ := hnumber d hd
  rw [hcid, hdid]
  intro heq
  have hnat := congrArg UInt32.toNat heq
  rw [UInt32.toNat_ofNat_of_lt' (hcn.trans hn), UInt32.toNat_ofNat_of_lt' (hdn.trans hn)] at hnat
  exact hne (hinjective c d hc hd hnat)

/-! ## Sending to the listed connections -/

/-- Sends to some of the connections of a list without duplicates. -/
theorem connections_foldl_send (packet : Address) (chosen : ConnectionPtr → Prop)
    [DecidablePred chosen] {l : List ConnectionPtr} (hl : l.Nodup) (s : SocketServer)
    (c : ConnectionPtr) :
    (l.foldl (fun s c => if chosen c then s.send c packet else s) s).connections c =
      if c ∈ l ∧ chosen c then (s.connections c).withCopy s.memory packet
      else s.connections c := by
  induction l generalizing s with
  | nil => simp
  | cons first l ih =>
      obtain ⟨hfirst, hl⟩ := List.nodup_cons.mp hl
      rw [List.foldl_cons, ih hl]
      -- `first` is not in the rest of the list, so it gets no second copy
      by_cases hchosen : chosen first
      · by_cases hc : c = first
        · subst hc
          simp [hfirst, hchosen, send, doSend, setSocket, modify, Connection.withCopy]
        · simp [hchosen, hc, send, doSend, setSocket, modify]
      · by_cases hc : c = first
        · subst hc
          simp [hfirst, hchosen]
        · simp [hchosen, hc]

/-! ## The registry -/

/-- Something holds a shared pointer to the connection: the pending accept, or the
handler of a pending read or write. -/
def Alive (s : SocketServer) (c : ConnectionPtr) : Prop :=
  s.accepting = c ∨ (s.connections c).socket.reads ≠ [] ∨ (s.connections c).socket.writes ≠ []

/-- The list of connections, after so many accepts, and what is sent through it. -/
structure Registry (accepts : ℕ) (s : SocketServer) : Prop where
  nodup : s.connectionList.Nodup
  listed : ∀ c, c ∈ s.connectionList ↔ (s.connections c).isConnected = true
  oneRead : ∀ c ∈ s.connectionList, ∃ op, (s.connections c).socket.reads = [op]
  alive : ∀ c ∈ s.connectionList, Alive s c
  ids : accepts < 2 ^ 32 → ∀ c ∈ s.connectionList, ∀ d ∈ s.connectionList, c ≠ d →
    (s.connections c).id ≠ (s.connections d).id
  sendToAll : ∀ packet c, (s.sendToAll packet).connections c =
    if (s.connections c).isConnected = true then (s.connections c).withCopy s.memory packet
    else s.connections c
  sendToOther : ∀ other packet c, (s.sendToOther other packet).connections c =
    if (s.connections c).isConnected = true ∧ other ≠ c then
      (s.connections c).withCopy s.memory packet
    else s.connections c

/-- A listed connection has a read pending. -/
theorem oneRead_run {memory : Heap Address UInt8} {turns : List Turn} {s : SocketServer}
    (hrun : (machine memory).run turns = some s) {c : ConnectionPtr} (hc : c ∈ s.connectionList) :
    ∃ op, (s.connections c).socket.reads = [op] := by
  have hlisting := listing_run hrun
  obtain ⟨hconnected, hdisconnected⟩ := (hlisting.connected c).mp ((hlisting.listed c).mp hc)
  have hpending := (follows memory c).attentive hrun hconnected hdisconnected
  have hone := (wellFormed_run hrun).oneRead c
  simp only [lane] at hpending
  obtain ⟨op, hop⟩ := Option.ne_none_iff_exists'.mp hpending
  rw [← StreamSocket.toList_head?_of_length_le hone, hop]
  exact ⟨op, rfl⟩

/-- Between two handlers the list of connections is in order. -/
theorem registry_run {memory : Heap Address UInt8} {turns : List Turn} {s : SocketServer}
    (hrun : (machine memory).run turns = some s) : Registry (turns.countP Turn.accepts) s := by
  have hlisting := listing_run hrun
  have hstarted := (wellFormed_run hrun).listed
  refine ⟨hlisting.nodup, hlisting.listed, fun c hc => oneRead_run hrun hc, ?_, ?_, ?_, ?_⟩
  · intro c hc
    obtain ⟨op, hreads⟩ := oneRead_run hrun hc
    refine Or.inr (Or.inl ?_)
    rw [hreads]
    exact List.cons_ne_nil _ _
  · intro hn c hc d hd hne
    exact (numbered_run hrun).id_ne hn (hstarted c hc) (hstarted d hd) hne
  · intro packet c
    have hsend := connections_foldl_send packet (fun _ => True) hlisting.nodup s c
    simp only [if_true, and_true, hlisting.listed] at hsend
    exact hsend
  · intro other packet c
    have hsend := connections_foldl_send packet (fun c => other ≠ c) hlisting.nodup s c
    simp only [hlisting.listed] at hsend
    exact hsend

/-- A packet of the first connection is sent on to the others. -/
def relay : Callbacks
  | .received c _ => [.sendToOther c (.packet c)]
  | _ => []

/-- Of three connections one sends a packet to the others and another fails. -/
theorem registry_run_relayed :
    let turns : List Turn :=
      [⟨.accept false, quiet⟩, ⟨.accept false, quiet⟩, ⟨.accept false, quiet⟩,
        ⟨.readSome 0 0 [4, 0, 7], quiet⟩, ⟨.readDone 0 0, quiet⟩, ⟨.readSome 0 0 [9], quiet⟩,
        ⟨.readDone 0 0, relay⟩, ⟨.readFailed 1 0, quiet⟩]
    ∃ s, (machine fun _ _ => 0).run turns = some s ∧ s.connectionList = [0, 2] ∧
      ([0, 2].map fun c => (s.connections c).socket.writes.length) = [0, 1] ∧
      Registry 3 s := by
  intro turns
  obtain ⟨s, hs, hlist, hwrites⟩ : ∃ s, (machine fun _ _ => 0).run turns = some s ∧
      s.connectionList = [0, 2] ∧
      ([0, 2].map fun c => (s.connections c).socket.writes.length) = [0, 1] :=
    ⟨_, rfl, rfl, rfl⟩
  exact ⟨s, hs, hlist, hwrites, registry_run hs⟩

end SocketServer

end RyuLib
