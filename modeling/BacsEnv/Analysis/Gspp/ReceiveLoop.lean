import BacsEnv.Analysis.Bacs.ReadSteps
import BacsEnv.Model.Gspp.StreamClient

/-!
# Framed payloads are received exactly

The frames of some payloads, cut at an arbitrary byte and followed by a read error, are
read back by `async_read_sp_loop`: the handler is called with a success on the payloads
whose frames are complete before the cut, in their order and with their bytes, up to and
including the first call that says `false`; if there is none, the next call is one with
the error.
-/

set_option autoImplicit false

namespace BacsEnv.Gspp

open BacsEnv.Bacs

variable {T : SPTraits} {heap : Heap} {σ : Type}

/-- The payloads whose frames are complete within the first `cut` bytes. -/
def completeFrames (T : SPTraits) : List Payload → ℕ → List Payload
  | [], _ => []
  | payload :: payloads, cut =>
      if T.width + payload.length ≤ cut then
        payload :: completeFrames T payloads (cut - (T.width + payload.length))
      else []

/-- The call with a payload that was received. -/
def successCall (payload : Payload) : Call :=
  { failed := false, bytesRead := payload.length, buffer := payload }

/-- A handler is offered calls until it says `false`: the calls it gets, whether it said
`true` to all of them, and its state. -/
def offer (handler : Handler σ) : List Call → σ → List Call × Bool × σ
  | [], s => ([], true, s)
  | call :: calls, s =>
      if (handler call s).1 then
        (call :: (offer handler calls (handler call s).2).1,
          (offer handler calls (handler call s).2).2)
      else ([call], false, (handler call s).2)

/-- A size that goes over the wire is the same on both sides. -/
def SizesAgree (T : SPTraits) : Prop := ∀ size, (T.sizeOut size).bind T.sizeIn = some size

/-! ## The stream in front of the reader -/

/-- The header of a frame is accepted, with the length of its payload. -/
theorem acceptSize_header (hsizes : SizesAgree T)
    (hheap : ∀ position size, heap.allocates position size = true) {payload : Payload}
    (hfit : payload.length < 256 ^ T.width) {f : Frame} (hf : frame T payload = some f)
    (position : ℕ) : acceptSize T heap position f.header = some payload.length := by
  obtain ⟨size, hout, rfl⟩ := frame_eq_some_iff.mp hf
  have hin : T.sizeIn size = some (T.cast payload.length) := by
    have hagree := hsizes (T.cast payload.length)
    rwa [hout] at hagree
  have hval : (T.cast payload.length).val = payload.length := Nat.mod_eq_of_lt hfit
  unfold acceptSize
  simp only
  rw [T.ofBytes_toBytes]
  simp [hin, hheap, hval]

/-- A loop that has nothing left to read hands on errors only. -/
theorem calls_failed_at_end {input : Incoming} (hended : input.ended = true)
    {handler : Handler σ} {fuel position : ℕ} (hend : input.bytes.length ≤ position) {s : σ} :
    ∀ round ∈ (asyncReadSpLoop T heap input handler fuel position s).1,
      round.call.failed = true := by
  induction fuel generalizing position s with
  | zero =>
      intro round hmem
      cases hmem
  | succ fuel ih =>
      have hturn := asyncReadSp_of_header_cut heap
        (not_headerAt_of_length_le (T := T) hend) hended
      rw [asyncReadSpLoop_succ hturn]
      intro round hmem
      split at hmem
      · rcases List.mem_cons.mp hmem with rfl | hmem
        · rfl
        · exact ih (hend.trans (Nat.le_add_right _ _)) round hmem
      · obtain rfl := List.mem_singleton.mp hmem
        rfl

/-- What a loop does from a position at which a call fails. -/
def EndsWith (handler : Handler σ) (s : σ) (result : List Round × σ) : Prop :=
  ∃ last later, last.failed = true ∧ result.1.map Round.call = last :: later ∧
    (∀ call ∈ later, call.failed = true) ∧
    ((handler last s).1 = false → later = [] ∧ result.2 = (handler last s).2)

/-- The first call of a turn that cannot finish its frame is one with the error. -/
theorem endsWith_of_turn {input : Incoming} (hended : input.ended = true)
    {handler : Handler σ} {fuel position next : ℕ} {s : σ} {call : Call}
    (hturn : asyncReadSp T heap input position = some (call, next))
    (hfailed : call.failed = true) (hend : input.bytes.length ≤ next) :
    EndsWith handler s (asyncReadSpLoop T heap input handler (fuel + 1) position s) := by
  rw [asyncReadSpLoop_succ hturn]
  cases hagain : (handler call s).1 with
  | false =>
      refine ⟨call, [], hfailed, rfl, ?_, fun _ => ⟨rfl, rfl⟩⟩
      intro call' hmem
      cases hmem
  | true =>
      refine ⟨call, _, hfailed, rfl, ?_, ?_⟩
      · intro call' hmem
        obtain ⟨round, hround, rfl⟩ := List.mem_map.mp hmem
        exact calls_failed_at_end hended hend round hround
      · intro hfalse
        rw [hagain] at hfalse
        cases hfalse

/-- What a loop does with the payloads that are complete in front of it: it offers them to
the handler, and if the handler asks for more after each of them it gets an error next. -/
structure Receives (handler : Handler σ) (payloads : List Payload) (s : σ)
    (result : List Round × σ) : Prop where
  stopped : (offer handler (payloads.map successCall) s).2.1 = false →
    result.1.map Round.call = (offer handler (payloads.map successCall) s).1 ∧
      result.2 = (offer handler (payloads.map successCall) s).2.2
  ended : (offer handler (payloads.map successCall) s).2.1 = true →
    ∃ rounds, result.1.map Round.call =
        (offer handler (payloads.map successCall) s).1 ++ rounds.map Round.call ∧
      EndsWith handler (offer handler (payloads.map successCall) s).2.2 (rounds, result.2)

theorem Receives.of_endsWith {handler : Handler σ} {s : σ} {result : List Round × σ}
    (h : EndsWith handler s result) : Receives handler [] s result where
  stopped := by
    intro hfalse
    cases hfalse
  ended := fun _ => ⟨result.1, rfl, h⟩

/-- A whole frame in front of the reader. -/
theorem Receives.cons {input : Incoming} {handler : Handler σ} {fuel position next : ℕ} {s : σ}
    {payload : Payload} {payloads : List Payload}
    (hturn : asyncReadSp T heap input position = some (successCall payload, next))
    (hlater : Receives handler payloads (handler (successCall payload) s).2
      (asyncReadSpLoop T heap input handler fuel next (handler (successCall payload) s).2)) :
    Receives handler (payload :: payloads) s
      (asyncReadSpLoop T heap input handler (fuel + 1) position s) := by
  rw [asyncReadSpLoop_succ hturn]
  cases hagain : (handler (successCall payload) s).1 with
  | false =>
      refine ⟨?_, ?_⟩
      · intro _
        simp [offer, hagain]
      · intro htrue
        simp [offer, hagain] at htrue
  | true =>
      refine ⟨?_, ?_⟩
      · intro hfalse
        simp only [List.map_cons, offer, hagain, if_true] at hfalse ⊢
        obtain ⟨hcalls, hstate⟩ := hlater.stopped hfalse
        exact ⟨congrArg _ hcalls, hstate⟩
      · intro htrue
        simp only [List.map_cons, offer, hagain, if_true] at htrue ⊢
        obtain ⟨rounds, hcalls, hends⟩ := hlater.ended htrue
        exact ⟨rounds, congrArg _ hcalls, hends⟩

/-! ## The cut -/

section Cut

variable {input : Incoming} {position cut : ℕ} {header tail : List UInt8}

/-- A header that the cut leaves whole, and what it leaves behind it. -/
theorem headerAt_of_rest (hwidth : header.length = T.width)
    (hrest : input.rest position = (header ++ tail).take cut) (hcut : T.width ≤ cut) :
    HeaderAt T input position ∧ headerAt T input position = header ∧
      behindHeader T input position = tail.take (cut - T.width) := by
  refine ⟨?_, ?_, ?_⟩
  · unfold HeaderAt
    rw [hrest, List.length_take, List.length_append]
    omega
  · unfold headerAt
    rw [hrest, List.take_take, Nat.min_eq_left hcut, ← hwidth, List.take_left']
    rfl
  · unfold behindHeader
    rw [hrest, List.drop_take, ← hwidth, List.drop_left']
    rfl

/-- A header that the cut goes through. -/
theorem not_headerAt_of_rest (hrest : input.rest position = (header ++ tail).take cut)
    (hcut : ¬ T.width ≤ cut) : ¬ HeaderAt T input position := by
  unfold HeaderAt
  rw [hrest, List.length_take]
  omega

/-- What is left behind a whole frame. -/
theorem rest_of_rest {body : List UInt8} (hwidth : header.length = T.width)
    (hrest : input.rest position = (header ++ (body ++ tail)).take cut) :
    input.rest (position + T.width + body.length) =
      tail.take (cut - (T.width + body.length)) := by
  have hlen : (header ++ body).length = T.width + body.length := by
    rw [List.length_append, hwidth]
  rw [Nat.add_assoc, rest_add, hrest, List.drop_take, ← List.append_assoc,
    List.drop_left' hlen]

/-- A body that the cut leaves whole. -/
theorem behindHeader_of_cut {body : List UInt8}
    (hbehind : behindHeader T input position = (body ++ tail).take (cut - T.width))
    (hcut : T.width + body.length ≤ cut) :
    body.length ≤ (behindHeader T input position).length ∧
      (behindHeader T input position).take body.length = body := by
  rw [hbehind]
  constructor
  · rw [List.length_take, List.length_append]
    omega
  · rw [List.take_take, Nat.min_eq_left (by omega), List.take_left']
    rfl

end Cut

/-- The loop at a position where the cut frames of some payloads are left. -/
theorem receives_of_rest (hsizes : SizesAgree T)
    (hheap : ∀ position size, heap.allocates position size = true)
    {input : Incoming} (hended : input.ended = true) {handler : Handler σ}
    {payloads : List Payload} (hfit : ∀ payload ∈ payloads, payload.length < 256 ^ T.width)
    {bytes : List UInt8} (hframes : frames T payloads = some bytes) {cut position fuel : ℕ}
    (hrest : input.rest position = bytes.take cut)
    (hfuel : (completeFrames T payloads cut).length < fuel) {s : σ} :
    Receives handler (completeFrames T payloads cut) s
      (asyncReadSpLoop T heap input handler fuel position s) := by
  induction payloads generalizing bytes cut position fuel s with
  | nil =>
      obtain rfl : [] = bytes := Option.some.inj hframes
      obtain ⟨fuel, rfl⟩ : ∃ n, fuel = n + 1 := Nat.exists_eq_succ_of_ne_zero (by omega)
      have hend : input.bytes.length ≤ position := by
        rw [List.take_nil] at hrest
        exact List.drop_eq_nil_iff.mp hrest
      have hturn := asyncReadSp_of_header_cut heap
        (not_headerAt_of_length_le (T := T) hend) hended
      exact .of_endsWith (endsWith_of_turn hended hturn rfl (hend.trans (Nat.le_add_right _ _)))
  | cons payload payloads ih =>
      obtain ⟨fuel, rfl⟩ : ∃ n, fuel = n + 1 := Nat.exists_eq_succ_of_ne_zero (by omega)
      have hend : input.bytes.length ≤ position + (input.rest position).length := by
        unfold Incoming.rest
        rw [List.length_drop]
        omega
      simp only [frames, Option.bind_eq_bind, Option.bind_eq_some_iff, Option.pure_def,
        Option.some.injEq] at hframes
      obtain ⟨f, hf, more, hmore, rfl⟩ := hframes
      have hwidth := length_header hf
      rw [Frame.bytes, body_eq hf, List.append_assoc] at hrest
      by_cases hheader : T.width ≤ cut
      · obtain ⟨hat, hread, hbehind⟩ := headerAt_of_rest hwidth hrest hheader
        have haccept := acceptSize_header hsizes hheap (hfit payload List.mem_cons_self) hf position
        rw [← hread] at haccept
        by_cases hwhole : T.width + payload.length ≤ cut
        · -- The frame is complete.
          obtain ⟨hfits, hdata⟩ := behindHeader_of_cut hbehind hwhole
          have hturn := asyncReadSp_of_frame hat haccept hfits
          rw [hdata] at hturn
          have hnext := rest_of_rest hwidth hrest
          rw [completeFrames, if_pos hwhole] at hfuel ⊢
          apply Receives.cons hturn
          apply ih _ hmore hnext
          · simpa using hfuel
          · exact fun later hmem => hfit later (List.mem_cons_of_mem _ hmem)
        · -- The cut is in the body.
          have hcut : ¬ payload.length ≤ (behindHeader T input position).length := by
            rw [hbehind, List.length_take, List.length_append]
            omega
          obtain ⟨call, hfailed, hturn⟩ := asyncReadSp_of_body_cut hat haccept hcut hended
          rw [completeFrames, if_neg hwhole]
          exact .of_endsWith (endsWith_of_turn hended hturn hfailed hend)
      · -- The cut is in the header.
        have hat : ¬ HeaderAt T input position := not_headerAt_of_rest hrest hheader
        have hturn := asyncReadSp_of_header_cut heap hat hended
        rw [completeFrames, if_neg (by omega)]
        exact .of_endsWith (endsWith_of_turn hended hturn rfl hend)

/-! ## The callbacks of a client -/

/-- What a client has noticed after the payloads it handled. -/
def handled (callbacks : Callbacks σ) (calls : List Call) : List Notice :=
  if callbacks.onHandle.isSome then calls.map fun call => .onHandle call.buffer else []

/-- A client handles the payloads it is offered. -/
theorem notices_offer (callbacks : Callbacks σ) (payloads : List Payload) (s : σ)
    (notices : List Notice) :
    (offer (clientHandler callbacks) (payloads.map successCall) (s, notices)).2.2.2 =
      notices ++ handled callbacks
        (offer (clientHandler callbacks) (payloads.map successCall) (s, notices)).1 := by
  induction payloads generalizing s notices with
  | nil => simp [offer, handled]
  | cons payload payloads ih =>
      cases hcb : callbacks.onHandle with
      | none =>
          have hstep : clientHandler callbacks (successCall payload) (s, notices) =
              (true, s, notices) := by
            simp [clientHandler, successCall, hcb]
          have hlater := ih s notices
          simp only [handled, hcb] at hlater ⊢
          simp only [List.map_cons, offer, hstep, if_true]
          exact hlater
      | some onHandle =>
          have hstep : clientHandler callbacks (successCall payload) (s, notices) =
              ((onHandle payload s).1, (onHandle payload s).2,
                notices ++ [.onHandle payload]) := by
            simp [clientHandler, successCall, hcb]
          have hlater := ih (onHandle payload s).2 (notices ++ [.onHandle payload])
          simp only [handled, hcb] at hlater ⊢
          simp only [List.map_cons, offer, hstep]
          cases (onHandle payload s).1 with
          | false => simp [successCall]
          | true =>
              simp only [if_true]
              rw [hlater]
              simp [successCall]

/-- After an error a client has noticed the death of its connection, once and last. -/
theorem notices_endsWith {callbacks : Callbacks σ} {onDeath : σ → σ}
    (hdeath : callbacks.onDeath = some onDeath) {s : σ × List Notice}
    {result : List Round × (σ × List Notice)} (h : EndsWith (clientHandler callbacks) s result) :
    result.2.2 = s.2 ++ [.onDeath] := by
  obtain ⟨last, later, hfailed, -, -, hstate⟩ := h
  have hstep : clientHandler callbacks last s = (false, onDeath s.1, s.2 ++ [.onDeath]) := by
    simp [clientHandler, hfailed, hdeath]
  rw [hstep] at hstate
  obtain ⟨-, hresult⟩ := hstate rfl
  rw [hresult]

/-- The frames of some payloads, cut at any byte and followed by a read error: any handler
gets exactly the payloads that are complete before the cut, up to its first `false`, and
the error if there is none. A client then has handled these payloads, and noticed its
death once and last if it came to the error. -/
theorem receives_exactly (hsizes : SizesAgree T) {payloads : List Payload}
    (hfit : ∀ payload ∈ payloads, payload.length < 256 ^ T.width) {bytes : List UInt8}
    (hframes : frames T payloads = some bytes) (cut : ℕ) (uninit : ℕ → UInt8) :
    let heap : Heap := { allocates := fun _ _ => true, uninit := uninit }
    let input : Incoming := { bytes := bytes.take cut, ended := true }
    let delivered := completeFrames T payloads cut
    (∀ {σ : Type} (handler : Handler σ) (s : σ) (fuel : ℕ), delivered.length < fuel →
      Receives handler delivered s (asyncReadSpLoop T heap input handler fuel 0 s)) ∧
    (∀ {σ : Type} (callbacks : Callbacks σ) (onDeath : σ → σ),
      callbacks.onDeath = some onDeath → ∀ (s : σ) (fuel : ℕ), delivered.length < fuel →
        let offered := offer (clientHandler callbacks) (delivered.map successCall) (s, [])
        (asyncReadSpLoop T heap input (clientHandler callbacks) fuel 0 (s, [])).2.2 =
          handled callbacks offered.1 ++ if offered.2.1 then [.onDeath] else []) := by
  intro heap input delivered
  have hreceives : ∀ {σ : Type} (handler : Handler σ) (s : σ) (fuel : ℕ),
      delivered.length < fuel →
        Receives handler delivered s (asyncReadSpLoop T heap input handler fuel 0 s) := by
    intro σ handler s fuel hfuel
    exact receives_of_rest hsizes (fun _ _ => rfl) rfl hfit hframes rfl hfuel
  refine ⟨hreceives, ?_⟩
  intro σ callbacks onDeath hdeath s fuel hfuel offered
  have hclient := hreceives (clientHandler callbacks) (s, []) fuel hfuel
  have hnotices := notices_offer callbacks delivered s []
  rw [List.nil_append] at hnotices
  cases hall : offered.2.1 with
  | false =>
      obtain ⟨-, hstate⟩ := hclient.stopped hall
      rw [hstate, hnotices]
      simp [offered]
  | true =>
      obtain ⟨rounds, -, hends⟩ := hclient.ended hall
      have hlast := notices_endsWith hdeath hends
      rw [hlast, hnotices]
      simp [offered]

/-- An empty payload and one of two bytes, cut before the last byte. -/
theorem receives_exactly_two_payloads :
    Receives (fun _ s => (true, s)) (completeFrames spDefault [[], [5, 6]] 9) ()
      (asyncReadSpLoop spDefault { allocates := fun _ _ => true, uninit := fun _ => 0 }
        { bytes := [0, 0, 0, 0, 2, 0, 0, 0, 5, 6].take 9, ended := true }
        (fun _ s => (true, s)) 2 0 ()) :=
  have hframes : frames spDefault [[], [5, 6]] = some [0, 0, 0, 0, 2, 0, 0, 0, 5, 6] := rfl
  (receives_exactly (fun _ => rfl) (by decide) hframes 9 (fun _ => 0)).1
    (fun _ s => (true, s)) () 2 (by decide)

end BacsEnv.Gspp
