import Mathlib.Data.List.Forall2
import BacsEnv.Analysis.Gspp.Dispatch
import BacsEnv.Analysis.Gspp.LinkProgress
import BacsEnv.Analysis.Gspp.PacketCallback

/-!
# Packets are handled as they were sent

The two ends of the library together: packets are serialised and sent by a `StreamClient`,
and the peer is a `DualConnection` whose `HandlePacket` is the one of a handler manager. The
handler functions that run on the peer are those of the packets sent, in their order, each
once, on the header and the body that were sent.
-/

set_option autoImplicit false

namespace BacsEnv.Gspp.DualConnection

open BacsEnv.Bacs BacsEnv.Plakpacs BacsEnv.Transition

variable {σ : Type} {setup : Setup σ}

/-! ## The calls of `HandlePacket` -/

/-- The buffers that `HandlePacket` was called with. -/
def dispatched (s : Session σ) : List Callee :=
  (s.calls.filter UserCall.isHandlePacket).map UserCall.callee

/-- Calls of which none is one of `HandlePacket` leave the dispatched buffers as they are. -/
theorem dispatched_of_extends {s s' : Session σ} {own : List UserCall}
    (hcalls : s'.calls = s.calls ++ own) (hown : own.countP UserCall.isHandlePacket = 0) :
    dispatched s' = dispatched s := by
  have hnone : own.filter UserCall.isHandlePacket = [] := by
    apply List.eq_nil_of_length_eq_zero
    rw [← List.countP_eq_length_filter, hown]
  unfold dispatched
  rw [hcalls, List.filter_append, hnone, List.append_nil]

theorem dispatched_record (s : Session σ) (buffer : List UInt8) (threw : Bool)
    (c : Connection σ) :
    dispatched (s.record (.handlePacket buffer) threw c) =
      dispatched s ++ [.handlePacket buffer] := by
  have hone : [(⟨.handlePacket buffer, threw⟩ : UserCall)].filter UserCall.isHandlePacket =
      [⟨.handlePacket buffer, threw⟩] := rfl
  unfold dispatched
  show ((s.calls ++ [(⟨.handlePacket buffer, threw⟩ : UserCall)]).filter _).map _ = _
  rw [List.filter_append, hone, List.map_append]
  rfl

theorem dispatched_record_onHandle (s : Session σ) (result : HandlerResult) (threw : Bool)
    (c : Connection σ) : dispatched (s.record (.onHandle result) threw c) = dispatched s :=
  dispatched_of_extends rfl rfl

/-- The `catch` clause dispatches nothing. -/
theorem dispatched_catchClause (what : Text) (s : Session σ) :
    dispatched (goesOn (catchClause setup what s)).2 = dispatched s := by
  by_cases hthrows : ∃ e c', Throws (setup.onHandleExceptionWith what) s.connection e c'
  · obtain ⟨e, c', hthrow⟩ := hthrows
    rw [catchClause_of_throws hthrow]
    exact dispatched_of_extends rfl rfl
  · push Not at hthrows
    obtain ⟨own, s', hgoes, hext, hown, -⟩ := catchClause_of_not_throws hthrows
    rw [hgoes]
    exact dispatched_of_extends hext.calls_eq hown.no_handlePacket

/-- A frame is dispatched once. -/
theorem dispatched_packetCallback (buffer : List UInt8) (s : Session σ) :
    dispatched (goesOn (packetCallback setup buffer s)).2 =
      dispatched s ++ [.handlePacket buffer] := by
  cases hrun : (setup.handlePacket buffer).run s.connection with
  | error what c =>
      rw [packetCallback_of_throws hrun, dispatched_catchClause, dispatched_record]
  | ok result c =>
      by_cases hthrows : ∃ what c', Throws (setup.onHandleWith result) c what c'
      · obtain ⟨what, c', hthrow⟩ := hthrows
        rw [packetCallback_of_onHandle_throws hrun hthrow, dispatched_catchClause,
          dispatched_record_onHandle, dispatched_record]
      · push Not at hthrows
        obtain ⟨s', hcallback, hext⟩ := packetCallback_of_returned hrun hthrows
        rw [hcallback]
        show dispatched s' = _
        rw [dispatched_of_extends hext.calls_eq
          (notifies_notice_onHandle setup result).no_handlePacket, dispatched_record]

/-- What a call of the handler of the receive loop dispatches. -/
theorem dispatched_handler (c : Bacs.Call) (s : Session σ) :
    dispatched (handler setup c s).2 =
      dispatched s ++ if c.failed then [] else [.handlePacket c.buffer] := by
  cases hc : c.failed with
  | false =>
      rw [handler_of_frame hc]
      exact dispatched_packetCallback c.buffer s
  | true =>
      rw [handler_of_failed hc]
      show dispatched (stateAfter (deathCallback setup s)) = dispatched s ++ []
      rw [List.append_nil]
      unfold deathCallback notify
      cases setup.onDeath with
      | none => rfl
      | some onDeath =>
          simp only [call]
          cases onDeath.run s.connection with
          | ok u c' => exact dispatched_of_extends rfl rfl
          | error what c' => exact dispatched_of_extends rfl rfl

/-! ## The receive loop of a connection -/

/-- `HandlePacket` was called with the buffers that the loop received, one for one. -/
def Dispatched (l : Link (Session σ)) : Prop :=
  dispatched l.reader.state = l.received.map Callee.handlePacket

theorem dispatched_handOn {l : Link (Session σ)} (h : Dispatched l) (call : Bacs.Call)
    (next : ℕ) :
    Dispatched { l with reader := l.reader.handOn (handler setup) call next } := by
  unfold Dispatched at h ⊢
  show dispatched (handler setup call l.reader.state).2 = _
  rw [dispatched_handler, h]
  cases hc : call.failed with
  | false =>
      rw [Link.received_handOn_of_ok hc, List.map_append]
      rfl
  | true =>
      rw [Link.received_handOn_of_failed hc]
      exact List.append_nil _

theorem dispatched_of_step {T : SPTraits} {heap : Heap} (l : Link (Session σ)) (e : Link.Event)
    (l' : Link (Session σ)) (hl : Dispatched l)
    (h : Link.step T heap (handler setup) l e = some l') : Dispatched l' := by
  cases e with
  | sender e =>
      obtain ⟨s, -, rfl⟩ := Option.map_eq_some_iff.mp h
      exact hl
  | arrive n =>
      simp only [Link.step, Link.arrive] at h
      split at h
      · cases h
      · cases h
        exact hl
  | fail =>
      cases h
      exact hl
  | read =>
      obtain ⟨r', hr', rfl⟩ := Option.map_eq_some_iff.mp h
      cases complete_eq_some_iff.mp hr' with
      | headerCut => exact dispatched_handOn hl _ _
      | rejected => exact dispatched_handOn hl _ _
      | headerRead => exact hl
      | bodyCut => exact dispatched_handOn hl _ _
      | bodyRead => exact dispatched_handOn hl _ _

/-! ## Packets -/

section Packets

variable {Header IdType : Type} [DecidableEq IdType]
  (serializer : PacketSerializer Header) (extract : Header → IdType) (uninit : ℕ → UInt8)
  (packets : List (PacketSchema (Connection σ) Header IdType))

/-- `HandlePacket` of a connection is the one of the manager with these registrations,
wherever its reads stay in bounds. -/
def Uses (setup : Setup σ) : Prop :=
  ∀ buffer (h : buffer.length < sizeRange) c,
    match (dispatch serializer extract packets c buffer h).result with
    | .ok result =>
        (setup.handlePacket buffer).run c =
          .ok result (dispatch serializer extract packets c buffer h).state
    | .error (.exception what) =>
        (setup.handlePacket buffer).run c =
          .error what (dispatch serializer extract packets c buffer h).state
    | .error _ => True

/-- The handler functions of some packet types do no more to a connection than to call
`ScheduleDisconnect`. -/
def KeepKilled (packets : List (PacketSchema (Connection σ) Header IdType)) : Prop :=
  ∀ packet ∈ packets, ∀ x c, c.killed = true →
    (stateAfter (packet.handle x c)).killed = true

/-- Then neither does `HandlePacket`. -/
theorem killed_dispatch (hkeep : KeepKilled packets) (buffer : List UInt8)
    (h : buffer.length < sizeRange) {c : Connection σ} (hc : c.killed = true) :
    (dispatch serializer extract packets c buffer h).state.killed = true := by
  have houtcome := outcome_dispatch serializer extract packets c buffer h
  generalize dispatch serializer extract packets c buffer h = outcome at houtcome ⊢
  cases houtcome with
  | headerError hheader => exact hc
  | unknownId hunknown => exact hc
  | bodyError ha hbody => exact hc
  | @handled call rs₁ rs₂ ha hbody =>
      have hkilled := hkeep call.packet (List.mem_of_find?_eq_some ha.2) (call.header, call.body)
        c hc
      unfold Handling.dispatch
      cases hrun : call.packet.handle (call.header, call.body) c with
      | ok result c' =>
          rw [hrun] at hkilled
          exact hkilled
      | error what c' =>
          rw [hrun] at hkilled
          exact hkilled

/-- `HandlePacket` of the manager with these registrations, as a function of the user. A
read that leaves the buffer is taken for an exception without a text. -/
def managerCode (hkeep : KeepKilled packets) (buffer : List UInt8) :
    UserCode σ HandlerResult where
  run := fun c =>
    if h : buffer.length < sizeRange then
      match (dispatch serializer extract packets c buffer h).result with
      | .ok result => .ok result (dispatch serializer extract packets c buffer h).state
      | .error (.exception what) =>
          .error what (dispatch serializer extract packets c buffer h).state
      | .error _ => .error [] c
    else .error [] c
  killed_run := by
    intro c hc
    split
    · rename_i h
      have hkilled := killed_dispatch serializer extract packets hkeep buffer h hc
      split
      · exact hkilled
      · exact hkilled
      · exact hc
    · exact hc

/-- Every connection set up so uses its manager. -/
theorem uses_managerCode (hkeep : KeepKilled packets)
    (hsetup : ∀ buffer, setup.handlePacket buffer =
      managerCode serializer extract packets hkeep buffer) :
    Uses serializer extract packets setup := by
  intro buffer h c
  rw [hsetup buffer]
  unfold managerCode
  simp only [dif_pos h]
  split
  · rfl
  · rfl
  · trivial

/-- A payload is that of a packet that the peer's registered object can take as it is. -/
def Delivers (payload : Payload) (call : Handling (Connection σ) Header IdType) : Prop :=
  payload.length < sizeRange ∧ Sent serializer extract uninit packets payload call ∧
    Clean call.packet.schema call.packet.value call.body

/-- A call of `HandlePacket` runs the handler function of a packet on its header and body. -/
def Runs (setup : Setup σ) (callee : Callee) (call : Handling (Connection σ) Header IdType) :
    Prop :=
  ∃ buffer, callee = .handlePacket buffer ∧
    (setup.handlePacket buffer).run = call.packet.handle (call.header, call.body)

variable {serializer extract uninit packets}

/-- `HandlePacket` on the payload of a packet is its handler function. -/
theorem runs_of_delivers (huses : Uses serializer extract packets setup) {payload : Payload}
    {call : Handling (Connection σ) Header IdType}
    (h : Delivers serializer extract uninit packets payload call) :
    Runs setup (.handlePacket payload) call := by
  obtain ⟨hlt, hsent, hclean⟩ := h
  refine ⟨payload, rfl, ?_⟩
  funext c
  have hbehaves := huses payload hlt c
  rw [dispatch_of_arrives (arrives_of_sent hsent) hclean] at hbehaves
  unfold Handling.dispatch at hbehaves
  cases hrun : call.packet.handle (call.header, call.body) c with
  | ok result c' =>
      rw [hrun] at hbehaves
      exact hbehaves
  | error what c' =>
      rw [hrun] at hbehaves
      exact hbehaves

/-- The handler functions that ran on the peer are those of the packets sent, from the first
one on, each once, on the header and the body that were sent. When no read error came and
the connection has come to rest, open and with its receive loop still asking, they all
ran. -/
theorem handled_as_sent {T : SPTraits} {heap : Heap} (hsizes : SizesAgree T)
    (hheap : ∀ position size, heap.allocates position size = true)
    (huses : Uses serializer extract packets setup) {c : Connection σ} {events : List Link.Event}
    {l : Link (Session σ)}
    (hrun : run (Link.step T heap (handler setup)) (.opened (started c)) events = some l)
    (horderly : Meets (Link.step T heap (handler setup)) (Link.Orderly T) (.opened (started c))
      events)
    {calls : List (Handling (Connection σ) Header IdType)}
    (hsent : List.Forall₂ (Delivers serializer extract uninit packets) l.sender.sent calls) :
    List.Forall₂ (Runs setup) (dispatched l.reader.state) (calls.take l.received.length) ∧
    (l.ended = false → l.sender.closed = false → l.reader.reading ≠ .nothing →
      Link.Quiescent T heap (handler setup) l →
        List.Forall₂ (Runs setup) (dispatched l.reader.state) calls) := by
  have hdispatched : Dispatched l := run_inv dispatched_of_step hrun rfl
  have hl := Link.inv_run hsizes hheap hrun horderly
  have hreceived : l.received = l.sender.sent.take l.received.length :=
    List.prefix_iff_eq_take.mp hl.received_isPrefix
  unfold Dispatched at hdispatched
  have hfirst : List.Forall₂ (Runs setup) (dispatched l.reader.state)
      (calls.take l.received.length) := by
    rw [hdispatched]
    apply List.forall₂_map_left_iff.mpr
    have htaken := List.forall₂_take l.received.length hsent
    rw [← hreceived] at htaken
    exact htaken.imp fun payload call => runs_of_delivers huses
  refine ⟨hfirst, ?_⟩
  intro hunbroken hopen hasking hquiet
  have hall := (Link.received_of_quiescent hsizes hheap ⟨hl, hunbroken⟩ hasking hquiet).2 hopen
  rw [hall, hsent.length_eq, List.take_length] at hfirst
  exact hfirst

/-- A packet type with a text, which is handled without an effect. -/
def notePacket : PacketSchema (Connection Unit) UInt8 UInt8 :=
  { id := 8, Body := Text, schema := .string, value := [], handle := fun _ => pure .continue }

theorem keepKilled_notePacket : KeepKilled [notePacket] := by
  intro packet hmem x c hc
  obtain rfl := List.mem_singleton.mp hmem
  exact hc

/-- A connection that only knows this packet type. -/
def noteSetup : Setup Unit :=
  { handlePacket := managerCode idHeader id [notePacket] keepKilled_notePacket
    onHandle := none
    onDeath := none
    onHandleException := none }

theorem delivers_note :
    Delivers idHeader id (fun _ => 0) [notePacket] [8, 65, 0] ⟨notePacket, 8, text "A"⟩ := by
  refine ⟨by unfold sizeRange; decide, ⟨rfl, ⟨?_, rfl⟩, ?_⟩, rfl⟩
  · show (0 : UInt8) ∉ text "A"
    decide
  · show ([8, 65, 0] : List UInt8) = [8] ++ written (fun _ => 0) .string (text "A")
    simp [written, write, text]

/-- The text `"A"` is sent, and its handler function runs. -/
theorem handled_as_sent_note :
    ∃ l : Link (Session Unit), l.received = [[8, 65, 0]] ∧
      List.Forall₂ (Runs noteSetup) (dispatched l.reader.state) [⟨notePacket, 8, text "A"⟩] := by
  have hrun : run (Link.step spDefault Heap.ample (handler noteSetup))
      (.opened (started ⟨false, ()⟩))
      [.sender (.send [8, 65, 0] (.starts 4)), .sender (.completed 0 true (.starts 3)),
        .arrive 7, .read, .read] = some _ := rfl
  have hsend : ∀ l : Link (Session Unit),
      Link.Orderly spDefault l (.sender (.send [8, 65, 0] (.starts 4))) :=
    fun l => ⟨trivial, Link.undisturbed_send _ _ _, (by decide : 3 < 256 ^ 4)⟩
  have hdone : ∀ l : Link (Session Unit),
      Link.Orderly spDefault l (.sender (.completed 0 true (.starts 3))) :=
    fun l => ⟨trivial, Link.undisturbed_completed _ _ _ _, trivial⟩
  have huses : Uses idHeader id [notePacket] noteSetup :=
    uses_managerCode idHeader id [notePacket] keepKilled_notePacket fun _ => rfl
  have h := handled_as_sent (fun _ => rfl) (fun _ _ => rfl) huses hrun
    ⟨hsend _, fun _ _ => ⟨hdone _, fun _ _ => ⟨trivial, fun _ _ => ⟨trivial, fun _ _ => ⟨trivial,
      fun _ _ => trivial⟩⟩⟩⟩⟩ (.cons delivers_note .nil)
  exact ⟨_, rfl, h.1⟩

end Packets

end BacsEnv.Gspp.DualConnection
