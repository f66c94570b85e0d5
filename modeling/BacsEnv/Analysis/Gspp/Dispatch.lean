import Mathlib.Data.List.Find
import BacsEnv.Analysis.Plakpacs.Bounds
import BacsEnv.Analysis.Plakpacs.Decoded
import BacsEnv.Model.Gspp.HandlerSystem

/-!
# Dispatch of packets

After any registrations the handler of an id is the one that was registered first
(`find_registered`), so `HandlePacket` depends on the order of the registrations only
through ids that were registered twice. It hands a packet to that handler when its header
and its body decode, as long as the reads of both stay in bounds, and the body is the one on
the wire when `Schema value;` was clean for it.
-/

set_option autoImplicit false

namespace BacsEnv.Gspp

open BacsEnv.Plakpacs ReadStream HandlerManager

/-! ## Registration -/

section Registration

variable {State Header IdType : Type} [DecidableEq IdType]

/-- The packet type that was registered first under an id. -/
def firstRegistered (packets : List (PacketSchema State Header IdType)) (id : IdType) :
    Option (PacketSchema State Header IdType) :=
  packets.find? fun packet => decide (packet.id = id)

/-- A registration adds a handler for its id, behind those that are there. -/
theorem find_registerHandler (manager : HandlerManager State Header IdType)
    (packet : PacketSchema State Header IdType) (id : IdType) :
    (manager.registerHandler packet).find id =
      (manager.find id).or (if packet.id = id then some packet else none) := by
  unfold registerHandler registerAs
  by_cases hthere : packet.id ∈ manager.handlers.map Prod.fst
  · rw [dif_pos hthere]
    by_cases hid : packet.id = id
    · have hsome : (manager.find id).isSome := by
        obtain ⟨entry, hmem, hentry⟩ := List.mem_map.mp hthere
        apply List.lookup_isSome_iff.mpr
        exact ⟨entry, hmem, by rw [hentry, hid]; exact beq_self_eq_true id⟩
      obtain ⟨found, hfound⟩ := Option.isSome_iff_exists.mp hsome
      rw [hfound, Option.some_or]
    · rw [if_neg hid, Option.or_none]
  · rw [dif_neg hthere]
    unfold find
    rw [List.lookup_append]
    congr 1
    by_cases hid : packet.id = id
    · simp [hid]
    · have hne : (id == packet.id) = false := beq_false_of_ne (Ne.symm hid)
      simp [List.lookup_cons, hid, hne]

theorem find_foldl_registerHandler (packets : List (PacketSchema State Header IdType))
    (manager : HandlerManager State Header IdType) (id : IdType) :
    (packets.foldl registerHandler manager).find id =
      (manager.find id).or (firstRegistered packets id) := by
  induction packets generalizing manager with
  | nil => simp [firstRegistered]
  | cons packet packets ih =>
      rw [List.foldl_cons, ih, find_registerHandler, Option.or_assoc]
      congr 1
      unfold firstRegistered
      by_cases hid : packet.id = id
      · simp [hid]
      · simp [hid]

/-- After some registrations the first one under an id counts. -/
theorem find_registered (packets : List (PacketSchema State Header IdType)) (id : IdType) :
    (registered packets).find id = firstRegistered packets id := by
  unfold registered
  rw [find_foldl_registerHandler]
  rfl

/-- The order of registrations under distinct ids does not matter. -/
theorem firstRegistered_perm {packets packets' : List (PacketSchema State Header IdType)}
    (hdistinct : (packets.map PacketSchema.id).Nodup) (hperm : packets.Perm packets')
    (id : IdType) : firstRegistered packets id = firstRegistered packets' id := by
  apply List.find?_eq_find?_of_perm hperm
  rintro packet ⟨hmem, hid⟩ packet' ⟨hmem', hid'⟩
  have hsame : packet.id = packet'.id := (of_decide_eq_true hid).trans (of_decide_eq_true hid').symm
  exact List.inj_on_of_nodup_map hdistinct hmem hmem' hsame

end Registration

/-! ## The outcome of a packet -/

section Outcome

variable {State Header IdType : Type} [DecidableEq IdType]
  (serializer : PacketSerializer Header) (extract : Header → IdType) (uninit : ℕ → UInt8)
  (packets : List (PacketSchema State Header IdType)) (state : State)

/-- `HandlePacket` after some registrations. -/
def dispatch (bytes : List UInt8) (h : bytes.length < sizeRange) : Dispatch State Header IdType :=
  (registered packets).handlePacket serializer extract state bytes h

/-- The header decodes, and its id was registered first with this packet type. -/
def Addressed (rs : ReadStream) (header : Header) (packet : PacketSchema State Header IdType)
    (rs₁ : ReadStream) : Prop :=
  serializer.deserialize rs = .ok header rs₁ ∧
    firstRegistered packets (extract header) = some packet

/-- The bytes stand for a body, whose constraints hold. -/
def BodyDecodes (packet : PacketSchema State Header IdType) (rs₁ : ReadStream)
    (body : packet.Body) : Prop :=
  ∃ rs₂, Decodes canReadNum packet.schema rs₁ body rs₂ ∧ WithinLimits packet.schema body

/-- The header decodes, its id is registered, and the body decodes with the packet type that
was registered first under it. -/
def Arrives (rs : ReadStream) (call : Handling State Header IdType) : Prop :=
  ∃ rs₁, Addressed serializer extract packets rs call.header call.packet rs₁ ∧
    BodyDecodes call.packet rs₁ call.body

/-- The header does not decode, or the body does not. -/
def Undecoded (rs : ReadStream) : Prop :=
  (∃ e rs', serializer.deserialize rs = .error e rs') ∨
    ∃ header packet rs₁, Addressed serializer extract packets rs header packet rs₁ ∧
      ¬ ∃ body, BodyDecodes packet rs₁ body

/-- The header decodes, and its id is not registered. -/
def UnknownId (rs : ReadStream) : Prop :=
  ∃ header rs₁, serializer.deserialize rs = .ok header rs₁ ∧
    firstRegistered packets (extract header) = none

/-- The bytes are those of a packet that was sent for a call of its handler. -/
def Sent (bytes : List UInt8) (call : Handling State Header IdType) : Prop :=
  firstRegistered packets (extract call.header) = some call.packet ∧
    Representable call.packet.schema call.body ∧
    bytes = serializer.serialize call.header ++ written uninit call.packet.schema call.body

/-- What is promised of `HandlePacket` on a buffer after some registrations. -/
structure Dispatches (bytes : List UInt8) (h : bytes.length < sizeRange) : Prop where
  arrived : ∀ call, Arrives serializer extract packets (ofBytes bytes h) call →
    dispatch serializer extract packets state bytes h = call.dispatch state
  unarrived : (¬ ∃ call, Arrives serializer extract packets (ofBytes bytes h) call) →
    (dispatch serializer extract packets state bytes h).handled = [] ∧
      (dispatch serializer extract packets state bytes h).state = state
  unknownId : UnknownId serializer extract packets (ofBytes bytes h) →
    (dispatch serializer extract packets state bytes h).result = .ok .continue
  undecoded : Undecoded serializer extract packets (ofBytes bytes h) →
    ∃ what, (dispatch serializer extract packets state bytes h).result = .error (.exception what)
  received : ∀ call, Sent serializer extract uninit packets bytes call →
    (dispatch serializer extract packets state bytes h).handled = [call]
  permuted : (packets.map PacketSchema.id).Nodup → ∀ packets', packets.Perm packets' →
    dispatch serializer extract packets' state bytes h =
      dispatch serializer extract packets state bytes h

/-- When it is kept: `Deserialize` comes back with a header or an exception, no read of the
body is wider than the whole buffer, and the object `Schema value;` is clean for the body on
the wire, or the constraints hold neither of that body nor of what is in the object then. -/
structure InOrder (bytes : List UInt8) (h : bytes.length < sizeRange) : Prop where
  header : ∀ e rs', serializer.deserialize (ofBytes bytes h) = .error e rs' →
    ∃ what, e = .exception what
  body : ∀ header packet rs₁,
    Addressed serializer extract packets (ofBytes bytes h) header packet rs₁ →
      ∀ n ∈ requests fits packet.schema packet.value rs₁, n ≤ rs₁.bytes.length
  clean : ∀ header packet rs₁,
    Addressed serializer extract packets (ofBytes bytes h) header packet rs₁ →
      ∀ body rs₂, Decodes canReadNum packet.schema rs₁ body rs₂ →
        Clean packet.schema packet.value body ∨
          (¬ WithinLimits packet.schema body ∧ ¬ Satisfied packet.schema packet.value body)

variable {serializer extract uninit packets state} {bytes : List UInt8}
  {h : bytes.length < sizeRange}

omit [DecidableEq IdType] in
@[simp] theorem handled_dispatch (call : Handling State Header IdType) :
    (call.dispatch state).handled = [call] := by
  unfold Handling.dispatch
  cases call.packet.handle (call.header, call.body) state <;> rfl

/-! ### The ways through `HandlePacket` -/

theorem dispatch_of_header_error {e : ReadError} {rs' : ReadStream}
    (hheader : serializer.deserialize (ofBytes bytes h) = .error e rs') :
    dispatch serializer extract packets state bytes h = .unhandled (.error e) state := by
  simp [dispatch, handlePacket, handleStream, hheader]

theorem dispatch_of_unknownId (hu : UnknownId serializer extract packets (ofBytes bytes h)) :
    dispatch serializer extract packets state bytes h = .unhandled (.ok .continue) state := by
  obtain ⟨header, rs₁, hheader, hfirst⟩ := hu
  simp [dispatch, handlePacket, handleStream, handleBody, hheader, find_registered, hfirst]

section Addressed

variable {header : Header} {packet : PacketSchema State Header IdType} {rs₁ : ReadStream}
  (ha : Addressed serializer extract packets (ofBytes bytes h) header packet rs₁)

include ha

theorem dispatch_of_addressed :
    dispatch serializer extract packets state bytes h =
      packet.handlePacket state header rs₁ := by
  obtain ⟨hheader, hfirst⟩ := ha
  simp [dispatch, handlePacket, handleStream, handleBody, hheader, find_registered, hfirst]

theorem dispatch_of_read {body : packet.Body} {rs₂ : ReadStream}
    (hbody : Plakpacs.read canReadNum packet.schema packet.value rs₁ = .ok body rs₂) :
    dispatch serializer extract packets state bytes h =
      Handling.dispatch ⟨packet, header, body⟩ state := by
  simp [dispatch_of_addressed ha, PacketSchema.handlePacket, hbody]

theorem dispatch_of_body_error {rs' : ReadStream} {e : ReadError}
    (hbody : Plakpacs.read canReadNum packet.schema packet.value rs₁ = .error e rs') :
    dispatch serializer extract packets state bytes h = .unhandled (.error e) state := by
  simp [dispatch_of_addressed ha, PacketSchema.handlePacket, hbody]

/-- The handler is called with what the read leaves in `Schema value;` when the bytes stand
for a body. -/
theorem dispatch_of_decodes {body : packet.Body} {rs₂ : ReadStream}
    (hdec : Decodes canReadNum packet.schema rs₁ body rs₂)
    (hsat : Satisfied packet.schema packet.value body) :
    dispatch serializer extract packets state bytes h =
      Handling.dispatch ⟨packet, header, merge packet.schema packet.value body⟩ state :=
  dispatch_of_read ha ((read_ok_iff_decodes packet.value rs₁ _ rs₂).mpr ⟨body, hdec, hsat, rfl⟩)

/-- No handler is called when the constraints do not hold of that. -/
theorem handled_of_not_satisfied {body : packet.Body} {rs₂ : ReadStream}
    (hdec : Decodes canReadNum packet.schema rs₁ body rs₂)
    (hsat : ¬ Satisfied packet.schema packet.value body) :
    (dispatch serializer extract packets state bytes h).handled = [] := by
  cases hread : Plakpacs.read canReadNum packet.schema packet.value rs₁ with
  | ok v rs' => exact absurd ((exists_read_iff hdec).mp ⟨v, rs', hread⟩) hsat
  | error e rs' =>
      rw [dispatch_of_body_error ha hread]
      rfl

end Addressed

/-- The outcomes of `HandlePacket`, each with what leads to it. -/
inductive Outcome (serializer : PacketSerializer Header) (extract : Header → IdType)
    (packets : List (PacketSchema State Header IdType)) (state : State) (rs : ReadStream) :
    Dispatch State Header IdType → Prop
  | headerError {e : ReadError} {rs' : ReadStream}
      (hheader : serializer.deserialize rs = .error e rs') :
      Outcome serializer extract packets state rs (.unhandled (.error e) state)
  | unknownId (hunknown : UnknownId serializer extract packets rs) :
      Outcome serializer extract packets state rs (.unhandled (.ok .continue) state)
  | bodyError {header : Header} {packet : PacketSchema State Header IdType}
      {rs₁ rs' : ReadStream} {e : ReadError}
      (haddressed : Addressed serializer extract packets rs header packet rs₁)
      (hbody : Plakpacs.read canReadNum packet.schema packet.value rs₁ = .error e rs') :
      Outcome serializer extract packets state rs (.unhandled (.error e) state)
  | handled {call : Handling State Header IdType} {rs₁ rs₂ : ReadStream}
      (haddressed : Addressed serializer extract packets rs call.header call.packet rs₁)
      (hbody : Plakpacs.read canReadNum call.packet.schema call.packet.value rs₁ =
        .ok call.body rs₂) :
      Outcome serializer extract packets state rs (call.dispatch state)

theorem outcome_dispatch (serializer : PacketSerializer Header) (extract : Header → IdType)
    (packets : List (PacketSchema State Header IdType)) (state : State) (bytes : List UInt8)
    (h : bytes.length < sizeRange) :
    Outcome serializer extract packets state (ofBytes bytes h)
      (dispatch serializer extract packets state bytes h) := by
  cases hheader : serializer.deserialize (ofBytes bytes h) with
  | error e rs' =>
      rw [dispatch_of_header_error hheader]
      exact .headerError hheader
  | ok header rs₁ =>
      cases hfirst : firstRegistered packets (extract header) with
      | none =>
          have hunknown : UnknownId serializer extract packets (ofBytes bytes h) :=
            ⟨header, rs₁, hheader, hfirst⟩
          rw [dispatch_of_unknownId hunknown]
          exact .unknownId hunknown
      | some packet =>
          cases hbody : Plakpacs.read canReadNum packet.schema packet.value rs₁ with
          | error e rs' =>
              rw [dispatch_of_body_error ⟨hheader, hfirst⟩ hbody]
              exact .bodyError ⟨hheader, hfirst⟩ hbody
          | ok body rs₂ =>
              rw [dispatch_of_read ⟨hheader, hfirst⟩ hbody]
              exact .handled ⟨hheader, hfirst⟩ hbody

/-! ### Packets that arrive -/

/-- A body that is read into an object that is clean for it is handed on as it is. -/
theorem dispatch_of_arrives {call : Handling State Header IdType}
    (ha : Arrives serializer extract packets (ofBytes bytes h) call)
    (hclean : Clean call.packet.schema call.packet.value call.body) :
    dispatch serializer extract packets state bytes h = call.dispatch state := by
  obtain ⟨rs₁, haddressed, rs₂, hdec, hlim⟩ := ha
  have hsat := satisfied_of_withinLimits call.packet.value call.body hlim hclean
  have hdispatch : dispatch serializer extract packets state bytes h = _ :=
    dispatch_of_decodes haddressed hdec hsat
  rwa [(merge_eq_iff call.packet.value call.body).mpr hclean] at hdispatch

/-- A packet that was sent arrives. -/
theorem arrives_of_sent {call : Handling State Header IdType}
    (hs : Sent serializer extract uninit packets bytes call) :
    Arrives serializer extract packets (ofBytes bytes h) call := by
  obtain ⟨packet, header, body⟩ := call
  obtain ⟨hfirst, hbody, rfl⟩ := hs
  have hheader := serializer.deserialize_serialize header (written uninit packet.schema body) h
  have hstart : (ofBytes (serializer.serialize header ++ written uninit packet.schema body)
      h).remaining = serializer.serialize header ++ written uninit packet.schema body := rfl
  have hrest := remaining_advance (serializer.serialize header) hstart
  have hwire : written uninit packet.schema body = wire packet.schema body ++ [] := by
    rw [written_eq_wire uninit hbody.2, List.append_nil]
  have hdec := decodes_of_wire packet.schema body hbody _ [] (hrest.trans hwire)
  exact ⟨_, ⟨hheader, hfirst⟩, _, hdec, hbody.1⟩

/-- What the handler gets is what the bytes stand for. -/
theorem arrives_of_read (ho : InOrder serializer extract packets bytes h)
    {call : Handling State Header IdType} {rs₁ rs₂ : ReadStream}
    (ha : Addressed serializer extract packets (ofBytes bytes h) call.header call.packet rs₁)
    (hbody : Plakpacs.read canReadNum call.packet.schema call.packet.value rs₁ =
      .ok call.body rs₂) :
    Arrives serializer extract packets (ofBytes bytes h) call := by
  obtain ⟨w, hdec, hsat, hmerge⟩ := (read_ok_iff_decodes call.packet.value rs₁ _ rs₂).mp hbody
  rcases ho.clean _ _ _ ha w rs₂ hdec with hclean | ⟨-, hrefused⟩
  · rw [(merge_eq_iff call.packet.value w).mpr hclean] at hmerge
    subst hmerge
    exact ⟨rs₁, ha, rs₂, hdec, withinLimits_of_clean hdec hsat hclean⟩
  · exact absurd hsat hrefused

/-- A read of a body that fails throws an exception. -/
theorem exception_of_body_error (ho : InOrder serializer extract packets bytes h)
    {header : Header} {packet : PacketSchema State Header IdType} {rs₁ rs' : ReadStream}
    {e : ReadError} (ha : Addressed serializer extract packets (ofBytes bytes h) header packet rs₁)
    (hbody : Plakpacs.read canReadNum packet.schema packet.value rs₁ = .error e rs') :
    ∃ what, e = .exception what := by
  have hpos := serializer.position_le _ _ _ (Nat.zero_le _) ha.1
  have htracks := tracks_read packet.schema packet.value rs₁ hpos
  have hstays := htracks.stays
  rw [← htracks.agrees (ho.body header packet rs₁ ha), hbody] at hstays
  cases e with
  | exception what => exact ⟨what, rfl⟩
  | outOfBounds i => exact hstays.elim
  | diverges => exact hstays.elim

/-! ### When the promise is kept -/

/-- A read that is wider than the buffer is not an exception. -/
theorem le_of_dispatches (hd : Dispatches serializer extract uninit packets state bytes h)
    {header : Header} {packet : PacketSchema State Header IdType} {rs₁ : ReadStream}
    (ha : Addressed serializer extract packets (ofBytes bytes h) header packet rs₁) :
    ∀ n ∈ requests fits packet.schema packet.value rs₁, n ≤ rs₁.bytes.length := by
  intro n hn
  by_contra hwide
  have hpos := serializer.position_le _ _ _ (Nat.zero_le _) ha.1
  obtain ⟨i, rs', hout⟩ := (tracks_read packet.schema packet.value rs₁ hpos).leaves n hn (by omega)
  have hdispatch : dispatch serializer extract packets state bytes h = _ :=
    dispatch_of_body_error ha hout
  by_cases hbody : ∃ body, BodyDecodes packet rs₁ body
  · obtain ⟨body, hbody⟩ := hbody
    have harrived := hd.arrived ⟨packet, header, body⟩ ⟨rs₁, ha, hbody⟩
    have hhandled := congrArg Dispatch.handled (hdispatch.symm.trans harrived)
    rw [handled_dispatch] at hhandled
    cases hhandled
  · obtain ⟨what, hresult⟩ := hd.undecoded (.inr ⟨header, packet, rs₁, ha, hbody⟩)
    rw [hdispatch] at hresult
    cases hresult

/-- A body that is handed on as it is was read into an object that is clean for it. -/
theorem clean_of_dispatches (hd : Dispatches serializer extract uninit packets state bytes h)
    {header : Header} {packet : PacketSchema State Header IdType} {rs₁ rs₂ : ReadStream}
    (ha : Addressed serializer extract packets (ofBytes bytes h) header packet rs₁)
    {body : packet.Body} (hdec : Decodes canReadNum packet.schema rs₁ body rs₂) :
    Clean packet.schema packet.value body ∨
      (¬ WithinLimits packet.schema body ∧ ¬ Satisfied packet.schema packet.value body) := by
  by_cases hlim : WithinLimits packet.schema body
  · have harrived := hd.arrived ⟨packet, header, body⟩ ⟨rs₁, ha, rs₂, hdec, hlim⟩
    have hhandled := congrArg Dispatch.handled harrived
    rw [handled_dispatch] at hhandled
    left
    by_cases hsat : Satisfied packet.schema packet.value body
    · rw [dispatch_of_decodes ha hdec hsat, handled_dispatch] at hhandled
      obtain ⟨-, -, hmerge⟩ := Handling.mk.inj (List.cons.inj hhandled).1
      exact (merge_eq_iff packet.value body).mp (eq_of_heq hmerge)
    · rw [handled_of_not_satisfied ha hdec hsat] at hhandled
      cases hhandled
  · have hnone : ¬ ∃ call, Arrives serializer extract packets (ofBytes bytes h) call := by
      rintro ⟨⟨packet', header', body'⟩, rs₁', ⟨hheader, hfirst⟩, rs₂', hdec', hlim'⟩
      obtain ⟨rfl, rfl⟩ := EStateM.Result.ok.inj (ha.1.symm.trans hheader)
      obtain rfl := Option.some_inj.mp (ha.2.symm.trans hfirst)
      obtain ⟨rfl, -⟩ := decodes_unique _ _ _ _ _ hdec hdec'
      exact hlim hlim'
    have hhandled := (hd.unarrived hnone).1
    refine .inr ⟨hlim, fun hsat => ?_⟩
    rw [dispatch_of_decodes ha hdec hsat, handled_dispatch] at hhandled
    cases hhandled

/-- `HandlePacket` calls the handler that was registered first exactly for the packets that
decode, with the header and the body that the bytes stand for, throws for the others and
receives packets as they were sent, whatever the order of the registrations, if and only if
`Deserialize` comes back with a header or an exception, no read of the body is wider than
the whole buffer, and the body is read into an object that is clean for it, unless the
constraints refuse it in any object. -/
theorem dispatches_iff (serializer : PacketSerializer Header) (extract : Header → IdType)
    (uninit : ℕ → UInt8) (packets : List (PacketSchema State Header IdType)) (state : State)
    (bytes : List UInt8) (h : bytes.length < sizeRange) :
    Dispatches serializer extract uninit packets state bytes h ↔
      InOrder serializer extract packets bytes h := by
  constructor
  · intro hd
    refine { header := ?_, body := fun header packet rs₁ ha => le_of_dispatches hd ha
             clean := fun header packet rs₁ ha body rs₂ hdec => clean_of_dispatches hd ha hdec }
    intro e rs' hheader
    obtain ⟨what, hresult⟩ := hd.undecoded (.inl ⟨e, rs', hheader⟩)
    rw [dispatch_of_header_error hheader] at hresult
    exact ⟨what, Except.error.inj hresult⟩
  · intro ho
    have harrived : ∀ call, Arrives serializer extract packets (ofBytes bytes h) call →
        dispatch serializer extract packets state bytes h = call.dispatch state := by
      intro call harrives
      obtain ⟨rs₁, ha, rs₂, hdec, hlim⟩ := harrives
      rcases ho.clean _ _ _ ha call.body rs₂ hdec with hclean | ⟨hrefused, -⟩
      · exact dispatch_of_arrives ⟨rs₁, ha, rs₂, hdec, hlim⟩ hclean
      · exact absurd hlim hrefused
    refine { arrived := harrived, unarrived := ?_, unknownId := ?_, undecoded := ?_
             received := ?_, permuted := ?_ }
    · intro hnone
      have houtcome := outcome_dispatch serializer extract packets state bytes h
      generalize dispatch serializer extract packets state bytes h = outcome at houtcome ⊢
      cases houtcome with
      | headerError hheader => exact ⟨rfl, rfl⟩
      | unknownId hunknown => exact ⟨rfl, rfl⟩
      | bodyError ha hbody => exact ⟨rfl, rfl⟩
      | handled ha hbody => exact absurd ⟨_, arrives_of_read ho ha hbody⟩ hnone
    · intro hunknown
      rw [dispatch_of_unknownId hunknown]
      rfl
    · rintro (⟨e, rs', hheader⟩ | ⟨header, packet, rs₁, ha, hnone⟩)
      · obtain ⟨what, rfl⟩ := ho.header e rs' hheader
        exact ⟨what, by rw [dispatch_of_header_error hheader]; rfl⟩
      · cases hread : Plakpacs.read canReadNum packet.schema packet.value rs₁ with
        | ok body rs₂ =>
            have harrives : Arrives serializer extract packets (ofBytes bytes h)
                ⟨packet, header, body⟩ := arrives_of_read ho ha hread
            obtain ⟨rs₁', ha', hdecodes⟩ := harrives
            obtain ⟨-, rfl⟩ := EStateM.Result.ok.inj (ha.1.symm.trans ha'.1)
            exact absurd ⟨body, hdecodes⟩ hnone
        | error e rs' =>
            obtain ⟨what, rfl⟩ := exception_of_body_error ho ha hread
            exact ⟨what, by rw [dispatch_of_body_error ha hread]; rfl⟩
    · intro call hs
      rw [harrived call (arrives_of_sent hs), handled_dispatch]
    · intro hdistinct packets' hperm
      have hfind : (registered packets').find = (registered packets).find := by
        funext id
        rw [find_registered, find_registered, firstRegistered_perm hdistinct hperm]
      unfold dispatch handlePacket handleStream handleBody
      rw [hfind]

end Outcome

/-- A header of one byte, the id of the packet. -/
def idHeader : PacketSerializer UInt8 where
  serialize id := [id]
  deserialize := readChar canReadNum
  deserialize_serialize := by
    intro id rest h
    have hrest : (ofBytes ([id] ++ rest) h).remaining = id :: rest := rfl
    exact readChar_of_remaining hrest
  position_le := by
    intro rs header rs' _ hread
    obtain ⟨-, hfit, -, rfl⟩ := readChar_ok_iff.mp hread
    exact hfit

/-- A packet type with an id that is handled without an effect. -/
def plainPacket {Body : Type} (id : UInt8) (schema : Schema Body) (value : Body) :
    PacketSchema Unit UInt8 UInt8 :=
  { id := id, Body := Body, schema := schema, value := value
    handle := fun _ => pure .continue }

/-- A packet with a number of four bytes. -/
def numberPacket : PacketSchema Unit UInt8 UInt8 :=
  plainPacket 7 (.scalar 4 (by decide)) ⟨[0, 0, 0, 0], rfl⟩

/-- A packet with a text, whose member is initialised with `"x"`. -/
def textPacket : PacketSchema Unit UInt8 UInt8 := plainPacket 8 .string (text "x")

/-- A number is dispatched. -/
theorem number_dispatches :
    Dispatches idHeader id (fun _ => 0) [numberPacket, textPacket] () [7, 1, 2, 3, 4] (by decide) ↔
      InOrder idHeader id [numberPacket, textPacket] [7, 1, 2, 3, 4] (by decide) :=
  dispatches_iff idHeader id (fun _ => 0) [numberPacket, textPacket] () [7, 1, 2, 3, 4] (by decide)

/-- Nothing is behind the header of a number. -/
theorem read_missing_number :
    Plakpacs.read canReadNum numberPacket.schema numberPacket.value
        ((ofBytes [7] (by decide)).advance 1) =
      .error (.outOfBounds 1) ((ofBytes [7] (by decide)).advance 1) := by
  simp only [numberPacket, plainPacket, Plakpacs.read]
  rfl

/-- The text `"A"` is read behind the `"x"`. -/
theorem read_text :
    Plakpacs.read canReadNum textPacket.schema textPacket.value
        ((ofBytes [8, 65, 0] (by decide)).advance 1) =
      .ok (text "xA") ((ofBytes [8, 65, 0] (by decide)).advance 3) := by
  simp only [textPacket, plainPacket, Plakpacs.read]
  rfl

theorem sent_text :
    Sent idHeader id (fun _ => 0) [numberPacket, textPacket] [8, 65, 0]
      ⟨textPacket, 8, text "A"⟩ := by
  refine ⟨rfl, ⟨?_, rfl⟩, ?_⟩
  · show (0 : UInt8) ∉ text "A"
    decide
  · show ([8, 65, 0] : List UInt8) = [8] ++ written (fun _ => 0) .string (text "A")
    simp [written, write, text]

/-- The number that is missing behind its header is read from behind the buffer, and the
text is received with the `"x"` in front of it. -/
theorem number_missing_or_text_changed :
    ((dispatch idHeader id [numberPacket, textPacket] () [7] (by decide)).result =
        .error (.outOfBounds 1) ∧
      ¬ Dispatches idHeader id (fun _ => 0) [numberPacket, textPacket] () [7] (by decide)) ∧
    ((dispatch idHeader id [numberPacket, textPacket] () [8, 65, 0] (by decide)).handled =
        [⟨textPacket, 8, text "xA"⟩] ∧
      ¬ Dispatches idHeader id (fun _ => 0) [numberPacket, textPacket] () [8, 65, 0]
        (by decide)) := by
  have hmissing : dispatch idHeader id [numberPacket, textPacket] () [7] (by decide) =
      .unhandled (.error (.outOfBounds 1)) () :=
    dispatch_of_body_error ⟨rfl, rfl⟩ read_missing_number
  have hchanged : (dispatch idHeader id [numberPacket, textPacket] () [8, 65, 0]
      (by decide)).handled = [⟨textPacket, 8, text "xA"⟩] := by
    have haddressed : Addressed idHeader id [numberPacket, textPacket]
        (ofBytes [8, 65, 0] (by decide)) 8 textPacket
        ((ofBytes [8, 65, 0] (by decide)).advance 1) := ⟨rfl, rfl⟩
    rw [dispatch_of_read haddressed read_text, handled_dispatch]
  refine ⟨⟨by rw [hmissing]; rfl, ?_⟩, hchanged, ?_⟩
  · intro hd
    have hnone : ¬ ∃ body, BodyDecodes numberPacket ((ofBytes [7] (by decide)).advance 1) body := by
      rintro ⟨body, rs₂, hdec, -⟩
      have hread : Plakpacs.read canReadNum numberPacket.schema numberPacket.value
          ((ofBytes [7] (by decide)).advance 1) = .ok body rs₂ := hdec
      rw [read_missing_number] at hread
      cases hread
    obtain ⟨what, hresult⟩ := hd.undecoded (.inr ⟨7, numberPacket, _, ⟨rfl, rfl⟩, hnone⟩)
    rw [hmissing] at hresult
    cases hresult
  · intro hd
    have hsame := (hd.received _ sent_text).symm.trans hchanged
    obtain ⟨-, -, hbody⟩ := Handling.mk.inj (List.cons.inj hsame).1
    have hne : text "A" ≠ text "xA" := by decide
    exact hne (eq_of_heq hbody)

end BacsEnv.Gspp
