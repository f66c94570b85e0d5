import BacsEnv.Analysis.Bacs.Completions
import BacsEnv.Analysis.Gspp.ReceiveLoop
import BacsEnv.Analysis.Gspp.WriteOrder
import BacsEnv.Library.Fifo
import BacsEnv.Model.Gspp.StreamLink

/-!
# A connection is a channel that keeps the order

Two connected `StreamClient`s, for every interleaving of sends, transfers, completions,
arrivals and read errors: as long as the sender's writes are undisturbed and both sides
agree on the sizes, what the receive loop hands to its handler is a beginning of what was
sent, payload for payload, so the connection is simulated by a channel that keeps the order.

`InSync` is where the reader stands in the stream of frames.
-/

set_option autoImplicit false

namespace BacsEnv.Gspp

open BacsEnv.Bacs BacsEnv.Transition BacsEnv.Fifo

variable {T : SPTraits} {heap : Heap} {σ : Type} {handler : Handler σ}

/-! ## Frames of several payloads -/

theorem frames_append {ps qs : List Payload} {bytes : List UInt8} :
    frames T (ps ++ qs) = some bytes ↔
      ∃ b₁ b₂, frames T ps = some b₁ ∧ frames T qs = some b₂ ∧ bytes = b₁ ++ b₂ := by
  induction ps generalizing bytes with
  | nil => simp [frames]
  | cons p ps ih =>
      simp only [List.cons_append, frames, Option.bind_eq_bind, Option.bind_eq_some_iff,
        Option.pure_def, Option.some.injEq]
      constructor
      · rintro ⟨f, hf, rest, hrest, rfl⟩
        obtain ⟨b₁, b₂, hps, hqs, rfl⟩ := ih.mp hrest
        exact ⟨_, b₂, ⟨f, hf, b₁, hps, rfl⟩, hqs, by simp⟩
      · rintro ⟨-, b₂, ⟨f, hf, b₁, hps, rfl⟩, hqs, rfl⟩
        exact ⟨f, hf, b₁ ++ b₂, ih.mpr ⟨b₁, b₂, hps, hqs, rfl⟩, by simp⟩

/-- The frame of the first payload, and what follows it. -/
theorem frames_cons {p : Payload} {ps : List Payload} {bytes : List UInt8} :
    frames T (p :: ps) = some bytes ↔
      ∃ f rest, frame T p = some f ∧ frames T ps = some rest ∧
        bytes = f.header ++ (p ++ rest) := by
  simp only [frames, Option.bind_eq_bind, Option.bind_eq_some_iff, Option.pure_def,
    Option.some.injEq]
  constructor
  · rintro ⟨f, hf, rest, hrest, rfl⟩
    refine ⟨f, rest, hf, hrest, ?_⟩
    rw [Frame.bytes, body_eq hf, List.append_assoc]
  · rintro ⟨f, rest, hf, hrest, rfl⟩
    refine ⟨f, hf, rest, hrest, ?_⟩
    rw [Frame.bytes, body_eq hf, List.append_assoc]

theorem sizeOut_isSome (hsizes : SizesAgree T) (size : SizeType T.width) :
    (T.sizeOut size).isSome := by
  have hagree := hsizes size
  cases hout : T.sizeOut size with
  | none =>
      rw [hout] at hagree
      cases hagree
  | some size' => rfl

/-- The wire and the packets sent only grow, the latter by what `Send` is called with. -/
theorem grows_of_step {s s' : State} {e : Gspp.Event} (h : Gspp.step T s e = some s') :
    s.wire <+: s'.wire ∧
      (s'.sent = s.sent ∨ ∃ packet start, e = .send packet start ∧
        s'.sent = s.sent ++ [packet]) := by
  have hstart : ∀ {data start} {s₀ s₁ : State} {returned},
      writeAsync T data start s₀ = some (s₁, returned) →
        s₀.wire <+: s₁.wire ∧ s₁.sent = s₀.sent := by
    intro data start s₀ s₁ returned hwrite
    refine ⟨?_, (writeAsync_kept hwrite).2.2.2.2⟩
    rcases writeAsync_cases hwrite with ⟨-, rfl, -⟩ | ⟨f, taken, -, -, -, -, -, rfl⟩
    · exact List.prefix_refl _
    · exact List.prefix_append _ _
  have hnext : ∀ {start} {s₀ s₁ : State}, onWritten T start s₀ = some s₁ →
      s₀.wire <+: s₁.wire ∧ s₁.sent = s₀.sent := by
    intro start s₀ s₁ hwritten
    refine ⟨?_, (onWritten_kept hwritten).2.2.2⟩
    have hpop : ∀ s₂, s₂ = (if (pop s₀).shutdown then close (pop s₀) else pop s₀) →
        s₂.wire = s₀.wire := by
      intro s₂ hs₂
      have hkept : (pop s₀).wire = s₀.wire := by
        unfold pop
        cases s₀.writeQueue <;> rfl
      rw [hs₂]
      split
      · exact hkept
      · exact hkept
    unfold onWritten at hwritten
    simp only at hwritten
    split at hwritten
    · cases hwritten
      rw [hpop _ rfl]
    · obtain ⟨⟨s₂, returned⟩, hwrite, rfl⟩ := Option.map_eq_some_iff.mp hwritten
      have hgrown := (hstart hwrite).1
      rwa [hpop _ rfl] at hgrown
  cases stepped_of_step h with
  | @sentFirst packet start s₁ returned hq hwrite =>
      obtain ⟨hwire, hsent⟩ := hstart hwrite
      cases returned with
      | false => exact ⟨hwire, Or.inl hsent⟩
      | true =>
          refine ⟨hwire, Or.inr ⟨packet, start, rfl, ?_⟩⟩
          show s₁.sent ++ [packet] = _
          rw [hsent]
  | @queued packet start hq =>
      exact ⟨List.prefix_refl _, Or.inr ⟨packet, start, rfl, rfl⟩⟩
  | closedNow hq => exact ⟨List.prefix_refl _, Or.inl rfl⟩
  | shutdownAsked hq => exact ⟨List.prefix_refl _, Or.inl rfl⟩
  | transferred hop hopen hfit => exact ⟨List.prefix_append _ _, Or.inl rfl⟩
  | failed hop hwritten =>
      obtain ⟨hwire, hsent⟩ := hnext hwritten
      exact ⟨hwire, Or.inl hsent⟩
  | headerWritten hop hopen hall hphase hwrite =>
      rcases asyncWrite_cases hwrite with ⟨-, rfl, -⟩ | ⟨taken, -, -, -, -, rfl⟩
      · exact ⟨List.prefix_refl _, Or.inl rfl⟩
      · exact ⟨List.prefix_append _ _, Or.inl rfl⟩
  | bodyWritten hop hopen hall hphase hwritten =>
      obtain ⟨hwire, hsent⟩ := hnext hwritten
      exact ⟨hwire, Or.inl hsent⟩

/-- Every payload has a frame when the sizes agree. -/
theorem exists_frames_of_sizesAgree (hsizes : SizesAgree T) (payloads : List Payload) :
    ∃ bytes, frames T payloads = some bytes := by
  obtain ⟨fs, hfs⟩ := exists_frames (sizeOut_isSome hsizes) payloads
  exact ⟨_, frames_eq_some_iff.mpr ⟨fs, hfs, rfl⟩⟩

namespace Link

/-! ## Where the reader stands -/

/-- A payload that is sent is not longer than a size can say. -/
def Fits (T : SPTraits) : Gspp.Event → Prop
  | .send packet _ => packet.length < 256 ^ T.width
  | _ => True

/-- The sender's writes succeed on the open socket, their starts go through, their buffers
keep their bytes, and the payloads fit. -/
def Orderly (T : SPTraits) (l : Link σ) : Event → Prop
  | .sender e => Reliable l.sender e ∧ Undisturbed l.sender e ∧ Fits T e
  | _ => True

/-- The reader waits for the frame behind the payloads it has received, it has read the
header of that frame, or it is over. -/
inductive InSync (T : SPTraits) (l : Link σ) : Prop
  | atFrame {bytes : List UInt8} (hreading : l.reader.reading = .header)
      (hframes : frames T l.received = some bytes) (hposition : l.reader.position = bytes.length)
      (hle : l.reader.position ≤ l.arrived) (hfinished : l.finished = false)
  | atBody {bytes : List UInt8} {p : Payload} (hreading : l.reader.reading = .body p.length)
      (hframes : frames T l.received = some bytes)
      (hposition : l.reader.position = bytes.length + T.width)
      (hle : l.reader.position ≤ l.arrived) (hnext : l.received ++ [p] <+: l.sender.sent)
      (hfinished : l.finished = false)
  | stopped (hreading : l.reader.reading = .nothing)
  | cutOff (hreading : l.reader.reading = .header) (hended : l.ended = true)
      (hposition : l.arrived ≤ l.reader.position) (hfinished : l.finished = true)

/-- The invariant of a connection. -/
structure Inv (T : SPTraits) (l : Link σ) : Prop where
  sender : Gspp.Inv T l.sender
  ordered : WellOrdered T l.sender
  fits : ∀ p ∈ l.sender.sent, p.length < 256 ^ T.width
  arrived_le : l.arrived ≤ l.sender.wire.length
  received_isPrefix : l.received <+: l.sender.sent
  inSync : InSync T l

/-- A connection seen as a channel. -/
def view (σ : Type) : View (Link σ) Payload where
  accepted l := l.sender.sent
  delivered l := l.received
  ended l := l.finished

theorem inv_opened (hsizes : SizesAgree T) (state : σ) : Inv T (opened state) where
  sender := inv_init T
  ordered := wellOrdered_init (sizeOut_isSome hsizes)
  fits := fun p hp => by cases hp
  arrived_le := le_refl _
  received_isPrefix := List.prefix_refl _
  inSync := .atFrame rfl (rfl : frames T [] = some []) rfl (le_refl _) rfl

/-! ## The stream in front of the reader -/

/-- What has arrived is a beginning of the frames of the payloads sent. -/
theorem Inv.bytes_eq {l : Link σ} (hl : Inv T l) {bytes : List UInt8}
    (hframes : frames T l.sender.sent = some bytes) :
    l.incoming.bytes = bytes.take l.arrived := by
  obtain ⟨bytes', hbytes', hwire⟩ := hl.ordered.wire_prefix
  obtain rfl : bytes = bytes' := Option.some.inj (hframes.symm.trans hbytes')
  have harrived := hl.arrived_le
  show l.sender.wire.take l.arrived = bytes.take l.arrived
  rw [List.prefix_iff_eq_take.mp hwire, List.take_take, Nat.min_eq_left harrived]

/-- What is left to read behind the frames of the first payloads sent. -/
theorem Inv.rest_eq {l : Link σ} (hl : Inv T l) {first later : List Payload}
    {b₁ b₂ : List UInt8} (hsent : first ++ later = l.sender.sent)
    (hfirst : frames T first = some b₁) (hlater : frames T later = some b₂) :
    l.incoming.rest b₁.length = b₂.take (l.arrived - b₁.length) := by
  have hframes : frames T l.sender.sent = some (b₁ ++ b₂) := by
    rw [← hsent]
    exact frames_append.mpr ⟨b₁, b₂, hfirst, hlater, rfl⟩
  unfold Incoming.rest
  rw [hl.bytes_eq hframes, List.drop_take, List.drop_left]

/-- As many bytes are left to read as have arrived behind the reader. -/
theorem Inv.length_rest {l : Link σ} (hl : Inv T l) (position : ℕ) :
    (l.incoming.rest position).length = l.arrived - position := by
  have hlen : l.incoming.bytes.length = l.arrived := by
    show (l.sender.wire.take l.arrived).length = l.arrived
    rw [List.length_take]
    exact Nat.min_eq_left hl.arrived_le
  unfold Incoming.rest
  rw [List.length_drop, hlen]

/-! ## Completions of the reader -/

section Read

variable {l : Link σ} {call : Call} {next : ℕ}

theorem received_handOn_of_failed (h : call.failed = true) :
    received { l with reader := l.reader.handOn handler call next } = l.received := by
  simp [received, Reader.handOn, h]

theorem received_handOn_of_ok (h : call.failed = false) :
    received { l with reader := l.reader.handOn handler call next } =
      l.received ++ [call.buffer] := by
  simp [received, Reader.handOn, h]

/-- A call with an error is the end of the channel. -/
theorem finished_handOn_of_failed (h : call.failed = true) :
    finished { l with reader := l.reader.handOn handler call next } = true := by
  simp [finished, Reader.handOn, h]

/-- After a call without an error the channel goes on if the handler says so. -/
theorem finished_handOn_of_again (h : call.failed = false) (hfinished : l.finished = false)
    (hagain : (handler call l.reader.state).1 = true) :
    finished { l with reader := l.reader.handOn handler call next } = false := by
  simp only [finished, Bool.or_eq_false_iff] at hfinished
  simp [finished, Reader.handOn, hagain, h, hfinished.2]

/-- A read error at the end of what has arrived. -/
theorem Inv.readFailed (hl : Inv T l) (hended : l.ended = true) (hfailed : call.failed = true)
    (hnext : l.arrived ≤ next) :
    Inv T { l with reader := l.reader.handOn handler call next } ∧
      Moves (view σ) l { l with reader := l.reader.handOn handler call next } := by
  have hsame : received { l with reader := l.reader.handOn handler call next } = l.received :=
    received_handOn_of_failed hfailed
  have hfinished : finished { l with reader := l.reader.handOn handler call next } = true :=
    finished_handOn_of_failed hfailed
  constructor
  · refine { hl with received_isPrefix := ?_, inSync := ?_ }
    · rw [hsame]
      exact hl.received_isPrefix
    · cases hagain : (handler call l.reader.state).1 with
      | false => exact .stopped (by simp [Reader.handOn, hagain])
      | true => exact .cutOff (by simp [Reader.handOn, hagain]) hended hnext hfinished
  · exact
      { accepted := ⟨[], (List.append_nil _).symm⟩
        delivered := ⟨[], hsame.trans (List.append_nil _).symm⟩
        of_ended := fun _ => ⟨hsame, hfinished⟩ }

/-- The header that the reader finds at a frame is the one of the next payload. -/
theorem Inv.header_accepted (hsizes : SizesAgree T)
    (hheap : ∀ position size, heap.allocates position size = true) (hl : Inv T l)
    {bytes : List UInt8} (hframes : frames T l.received = some bytes)
    (hposition : l.reader.position = bytes.length)
    (hat : HeaderAt T l.incoming l.reader.position) :
    ∃ p rest, l.received ++ p :: rest = l.sender.sent ∧
      acceptSize T heap l.reader.position (headerAt T l.incoming l.reader.position) =
        some p.length := by
  obtain ⟨later, hsent⟩ := hl.received_isPrefix
  obtain ⟨b₂, hlater⟩ := exists_frames_of_sizesAgree hsizes later
  have hrest := hl.rest_eq hsent hframes hlater
  rw [← hposition] at hrest
  cases later with
  | nil =>
      obtain rfl : [] = b₂ := Option.some.inj hlater
      have hpos := T.width_pos
      unfold HeaderAt at hat
      rw [hrest, List.take_nil, List.length_nil] at hat
      omega
  | cons p rest =>
      obtain ⟨f, b₃, hf, -, rfl⟩ := frames_cons.mp hlater
      have hcut : T.width ≤ l.arrived - l.reader.position := by
        by_contra hcut
        exact not_headerAt_of_rest hrest hcut hat
      obtain ⟨-, hheader, -⟩ := headerAt_of_rest (length_header hf) hrest hcut
      refine ⟨p, rest, hsent, ?_⟩
      rw [hheader]
      refine acceptSize_header hsizes hheap (hl.fits p ?_) hf l.reader.position
      rw [← hsent]
      simp

/-- The reader at a frame. -/
theorem Inv.readHeader (hsizes : SizesAgree T)
    (hheap : ∀ position size, heap.allocates position size = true) (hl : Inv T l)
    {bytes : List UInt8} (hreading : l.reader.reading = .header)
    (hframes : frames T l.received = some bytes) (hposition : l.reader.position = bytes.length)
    (hfinished : l.finished = false) {r' : Reader σ}
    (h : Completed T heap handler l.incoming l.reader r') :
    Inv T { l with reader := r' } ∧ Moves (view σ) l { l with reader := r' } := by
  cases h with
  | headerCut hr hcut hended =>
      have hlen := hl.length_rest l.reader.position
      exact hl.readFailed hended rfl (by omega)
  | rejected hr hat hreject =>
      obtain ⟨p, rest, -, haccept⟩ := hl.header_accepted hsizes hheap hframes hposition hat
      rw [hreject] at haccept
      cases haccept
  | headerRead hr hat haccept =>
      obtain ⟨p, rest, hsent, haccept'⟩ := hl.header_accepted hsizes hheap hframes hposition hat
      obtain rfl := Option.some.inj (haccept.symm.trans haccept')
      have hfinished' : finished { l with reader := { l.reader with
          position := l.reader.position + T.width, reading := .body p.length } } = false := by
        simp only [finished, Bool.or_eq_false_iff] at hfinished ⊢
        exact ⟨rfl, hfinished.2⟩
      refine ⟨{ hl with inSync := ?_ }, .of_eq rfl rfl (hfinished'.trans hfinished.symm)⟩
      have hlen := hl.length_rest l.reader.position
      refine .atBody rfl hframes ?_ ?_ ?_ hfinished'
      · show l.reader.position + T.width = bytes.length + T.width
        rw [hposition]
      · show l.reader.position + T.width ≤ l.arrived
        have hpos := T.width_pos
        unfold HeaderAt at hat
        omega
      · show l.received ++ [p] <+: l.sender.sent
        rw [← hsent]
        exact (List.prefix_append_right_inj _).mpr (List.prefix_append [p] rest)
  | bodyCut hr =>
      rw [hreading] at hr
      cases hr
  | bodyRead hr =>
      rw [hreading] at hr
      cases hr

/-- The reader at a body. -/
theorem Inv.readBody (hsizes : SizesAgree T) (hl : Inv T l) {bytes : List UInt8} {p : Payload}
    (hreading : l.reader.reading = .body p.length)
    (hframes : frames T l.received = some bytes)
    (hposition : l.reader.position = bytes.length + T.width)
    (hbehind : l.reader.position ≤ l.arrived) (hnext : l.received ++ [p] <+: l.sender.sent)
    (hfinished : l.finished = false) {r' : Reader σ}
    (h : Completed T heap handler l.incoming l.reader r') :
    Inv T { l with reader := r' } ∧ Moves (view σ) l { l with reader := r' } := by
  obtain ⟨rest, hsent⟩ := hnext
  rw [List.append_assoc, List.singleton_append] at hsent
  obtain ⟨b₂, hlater⟩ := exists_frames_of_sizesAgree hsizes (p :: rest)
  have hrest := hl.rest_eq hsent hframes hlater
  obtain ⟨f, b₃, hf, -, rfl⟩ := frames_cons.mp hlater
  have hwidth := length_header hf
  have hbody : l.incoming.rest l.reader.position =
      (p ++ b₃).take (l.arrived - bytes.length - T.width) := by
    rw [hposition, rest_add, hrest, List.drop_take, ← hwidth, List.drop_left]
  cases h with
  | headerCut hr =>
      rw [hreading] at hr
      cases hr
  | rejected hr =>
      rw [hreading] at hr
      cases hr
  | headerRead hr =>
      rw [hreading] at hr
      cases hr
  | bodyCut hr hcut hended =>
      have hlen := hl.length_rest l.reader.position
      exact hl.readFailed hended rfl (by omega)
  | @bodyRead size hr hle =>
      obtain rfl : size = p.length := by
        rw [hreading] at hr
        exact (Reading.body.inj hr).symm
      have hdata : (l.incoming.rest l.reader.position).take p.length = p := by
        rw [hbody, List.length_take] at hle
        rw [hbody, List.take_take, Nat.min_eq_left (hle.trans (Nat.min_le_left _ _)),
          List.take_left]
      rw [hdata]
      have hgot : received
          { l with
            reader := l.reader.handOn handler
              { failed := false, bytesRead := p.length, buffer := p }
              (l.reader.position + p.length) } = l.received ++ [p] := received_handOn_of_ok rfl
      have hreceived : l.received ++ [p] <+: l.sender.sent := by
        rw [← hsent]
        exact (List.prefix_append_right_inj _).mpr (List.prefix_append [p] rest)
      constructor
      · refine { hl with received_isPrefix := ?_, inSync := ?_ }
        · rw [hgot]
          exact hreceived
        · cases hagain : (handler { failed := false, bytesRead := p.length, buffer := p }
            l.reader.state).1 with
          | false => exact .stopped (by simp [Reader.handOn, hagain])
          | true =>
              have hp : frames T [p] = some (f.header ++ (p ++ [])) :=
                frames_cons.mpr ⟨f, [], hf, rfl, rfl⟩
              have hall : frames T (l.received ++ [p]) =
                  some (bytes ++ (f.header ++ (p ++ []))) :=
                frames_append.mpr ⟨bytes, _, hframes, hp, rfl⟩
              rw [← hgot] at hall
              have hlen := hl.length_rest l.reader.position
              refine .atFrame ?_ hall ?_ ?_ ?_
              · simp [Reader.handOn, hagain]
              · show l.reader.position + p.length = _
                rw [hposition, List.length_append, List.length_append, hwidth]
                simp [Nat.add_assoc]
              · show l.reader.position + p.length ≤ l.arrived
                omega
              · exact finished_handOn_of_again rfl hfinished hagain
      · exact
          { accepted := ⟨[], (List.append_nil _).symm⟩
            delivered := ⟨[p], hgot⟩
            of_ended := fun hended => by
              have hfalse : l.finished = true := hended
              rw [hfinished] at hfalse
              cases hfalse }

/-- The completion of a read keeps the invariant, and delivers at most the next payload. -/
theorem Inv.read (hsizes : SizesAgree T)
    (hheap : ∀ position size, heap.allocates position size = true) (hl : Inv T l) {r' : Reader σ}
    (h : Completed T heap handler l.incoming l.reader r') :
    Inv T { l with reader := r' } ∧ Moves (view σ) l { l with reader := r' } := by
  cases hl.inSync with
  | atFrame hreading hframes hposition hle hfinished =>
      exact hl.readHeader hsizes hheap hreading hframes hposition hfinished h
  | atBody hreading hframes hposition hle hnext hfinished =>
      exact hl.readBody hsizes hreading hframes hposition hle hnext hfinished h
  | stopped hreading => exact (h.reading_ne hreading).elim
  | cutOff hreading hended hposition hfinished =>
      have hend : l.incoming.bytes.length ≤ l.reader.position := by
        show (l.sender.wire.take l.arrived).length ≤ l.reader.position
        rw [List.length_take]
        exact (Nat.min_le_left _ _).trans hposition
      have hat := not_headerAt_of_length_le (T := T) hend
      cases h with
      | headerCut hr hcut hended' => exact hl.readFailed hended rfl (hposition.trans (by omega))
      | rejected hr hat' => exact (hat hat').elim
      | headerRead hr hat' => exact (hat hat').elim
      | bodyCut hr =>
          rw [hreading] at hr
          cases hr
      | bodyRead hr =>
          rw [hreading] at hr
          cases hr

end Read

/-! ## Steps -/

/-- The invariant of the reader's place only looks at what the sender has sent. -/
theorem InSync.of_sender {l : Link σ} (h : InSync T l) {s : State}
    (hsent : l.sender.sent <+: s.sent) : InSync T { l with sender := s } := by
  cases h with
  | atFrame hreading hframes hposition hle hfinished =>
      exact .atFrame hreading hframes hposition hle hfinished
  | atBody hreading hframes hposition hle hnext hfinished =>
      exact .atBody hreading hframes hposition hle (hnext.trans hsent) hfinished
  | stopped hreading => exact .stopped hreading
  | cutOff hreading hended hposition hfinished => exact .cutOff hreading hended hposition hfinished

/-- A step of the sender. -/
theorem Inv.ofSender (hsizes : SizesAgree T) {l : Link σ} (hl : Inv T l) {e : Gspp.Event}
    {s : State} (hreliable : Reliable l.sender e) (hquiet : Undisturbed l.sender e)
    (hfit : Fits T e) (h : Gspp.step T l.sender e = some s) :
    Inv T { l with sender := s } ∧ Moves (view σ) l { l with sender := s } := by
  have hout := sizeOut_isSome hsizes
  obtain ⟨hwire, hsent⟩ := grows_of_step h
  have hordered := (wellOrdered_iff_of_step hout l.sender e s hl.sender hreliable h).mpr
    ⟨hl.ordered, hquiet⟩
  have hgrown : l.sender.sent <+: s.sent := by
    rcases hsent with hsame | ⟨packet, start, -, hsame⟩
    · rw [hsame]
    · rw [hsame]
      exact List.prefix_append _ _
  constructor
  · exact
      { sender := inv_of_step l.sender e s hl.sender hreliable h
        ordered := hordered
        fits := by
          rcases hsent with hsame | ⟨packet, start, rfl, hsame⟩
          · rw [hsame]
            exact hl.fits
          · intro p hp
            rw [hsame] at hp
            rcases List.mem_append.mp hp with hp | hp
            · exact hl.fits p hp
            · rw [List.mem_singleton.mp hp]
              exact hfit
        arrived_le := hl.arrived_le.trans hwire.length_le
        received_isPrefix := hl.received_isPrefix.trans hgrown
        inSync := hl.inSync.of_sender hgrown }
  · obtain ⟨more, hmore⟩ := hgrown
    exact
      { accepted := ⟨more, hmore.symm⟩
        delivered := ⟨[], (List.append_nil _).symm⟩
        of_ended := fun hended => ⟨rfl, hended⟩ }

/-- More bytes arrive. -/
theorem Inv.ofArrive {l l' : Link σ} (hl : Inv T l) {n : ℕ} (h : l.arrive n = some l') :
    Inv T l' ∧ Moves (view σ) l l' := by
  unfold arrive at h
  split at h
  · cases h
  · rename_i hpossible
    push Not at hpossible
    obtain ⟨hopen, hle⟩ := hpossible
    cases h
    refine ⟨{ hl with arrived_le := hle, inSync := ?_ }, .of_eq rfl rfl rfl⟩
    cases hl.inSync with
    | atFrame hreading hframes hposition hle hfinished =>
        exact .atFrame hreading hframes hposition (hle.trans (Nat.le_add_right _ n)) hfinished
    | atBody hreading hframes hposition hle hnext hfinished =>
        exact .atBody hreading hframes hposition (hle.trans (Nat.le_add_right _ n)) hnext hfinished
    | stopped hreading => exact .stopped hreading
    | cutOff hreading hended => exact (hopen hended).elim

/-- A read error follows. -/
theorem Inv.ofFail {l : Link σ} (hl : Inv T l) : Inv T { l with ended := true } := by
  refine { hl with inSync := ?_ }
  cases hl.inSync with
  | atFrame hreading hframes hposition hle hfinished =>
      exact .atFrame hreading hframes hposition hle hfinished
  | atBody hreading hframes hposition hle hnext hfinished =>
      exact .atBody hreading hframes hposition hle hnext hfinished
  | stopped hreading => exact .stopped hreading
  | cutOff hreading hended hposition hfinished => exact .cutOff hreading rfl hposition hfinished

/-- A step keeps the invariant, and accepts and delivers as a channel does. -/
theorem inv_moves_of_step (hsizes : SizesAgree T)
    (hheap : ∀ position size, heap.allocates position size = true) {l l' : Link σ} {e : Event}
    (hl : Inv T l) (hC : Orderly T l e) (h : step T heap handler l e = some l') :
    Inv T l' ∧ Moves (view σ) l l' := by
  cases e with
  | sender e =>
      obtain ⟨s, hs, rfl⟩ := Option.map_eq_some_iff.mp h
      exact hl.ofSender hsizes hC.1 hC.2.1 hC.2.2 hs
  | arrive n => exact hl.ofArrive h
  | fail =>
      cases h
      exact ⟨hl.ofFail, .of_eq rfl rfl rfl⟩
  | read =>
      obtain ⟨r', hr', rfl⟩ := Option.map_eq_some_iff.mp h
      exact hl.read hsizes hheap (complete_eq_some_iff.mp hr')

/-- The invariant holds after every run. -/
theorem inv_run (hsizes : SizesAgree T)
    (hheap : ∀ position size, heap.allocates position size = true) {state : σ}
    {events : List Event} {l : Link σ}
    (hrun : run (step T heap handler) (opened state) events = some l)
    (horderly : Meets (step T heap handler) (Orderly T) (opened state) events) : Inv T l :=
  run_induction (fun _ _ _ hl hC h => (inv_moves_of_step hsizes hheap hl hC h).1) hrun horderly
    (inv_opened hsizes state)

/-- A connection stands for a channel: the payloads sent are accepted, and those that the
handler got without an error are delivered. -/
structure Represents (l : Link σ) (c : Channel Payload) : Prop where
  accepted_eq : c.accepted = l.sender.sent
  delivered_eq : c.delivered = l.received
  ended_eq : c.ended = l.finished

/-- A connection is simulated by a channel that keeps the order, for every run in which the
sender's writes are undisturbed. So what the handler of the receive loop gets without an
error are the payloads sent, from the first one on, each once and in their order, and
nothing more once the handler has said `false` or got an error. -/
theorem simulated_by_channel (hsizes : SizesAgree T)
    (hheap : ∀ position size, heap.allocates position size = true) (state : σ)
    {before after : List Event} {l₁ l₂ : Link σ}
    (hbefore : run (step T heap handler) (opened state) before = some l₁)
    (hafter : run (step T heap handler) l₁ after = some l₂)
    (horderly : Meets (step T heap handler) (Orderly T) (opened state) (before ++ after)) :
    (∃ c₁ c₂ actions₁ actions₂, run act ({} : Channel Payload) actions₁ = some c₁ ∧
      run act c₁ actions₂ = some c₂ ∧ Represents l₁ c₁ ∧ Represents l₂ c₂) ∧
    l₂.received <+: l₂.sender.sent ∧ l₁.received <+: l₂.received ∧
    (l₁.finished = true → l₂.received = l₁.received) := by
  have hsimulates : Simulates (step T heap handler) act (Orderly T) (Stands (Inv T) (view σ)) :=
    simulates_of_moves
      (fun _ _ _ hl hC h => (inv_moves_of_step hsizes hheap hl hC h).1)
      (fun _ hl => hl.received_isPrefix)
      (fun _ _ _ hl hC h => (inv_moves_of_step hsizes hheap hl hC h).2)
  have hstart : Stands (Inv T) (view σ) (opened state) {} :=
    { inv := inv_opened hsizes state
      inOrder := rfl
      accepted_eq := rfl
      delivered_eq := rfl
      ended_eq := rfl }
  obtain ⟨horderly₁, horderly₂⟩ := (meets_append hbefore).mp horderly
  obtain ⟨actions₁, c₁, hact₁, hstands₁⟩ := hsimulates.run hbefore horderly₁ hstart
  obtain ⟨actions₂, c₂, hact₂, hstands₂⟩ := hsimulates.run hafter horderly₂ hstands₁
  obtain ⟨-, hdelivered, hended⟩ := grows_of_run hact₂
  have h₁ : Represents l₁ c₁ := ⟨hstands₁.accepted_eq, hstands₁.delivered_eq, hstands₁.ended_eq⟩
  have h₂ : Represents l₂ c₂ := ⟨hstands₂.accepted_eq, hstands₂.delivered_eq, hstands₂.ended_eq⟩
  refine
    ⟨⟨c₁, c₂, actions₁, actions₂, hact₁, hact₂, h₁, h₂⟩, hstands₂.inv.received_isPrefix, ?_, ?_⟩
  · rw [← h₁.delivered_eq, ← h₂.delivered_eq]
    exact hdelivered
  · intro hfinished
    rw [← h₁.delivered_eq, ← h₂.delivered_eq]
    exact (hended (h₁.ended_eq.trans hfinished)).2

/-- A write that is started disturbs nothing. -/
theorem undisturbed_send (s : State) (packet : Payload) (taken : ℕ) :
    Undisturbed s (.send packet (.starts taken)) := by
  refine ⟨trivial, ?_⟩
  simp [startUsed]

theorem undisturbed_completed (s : State) (i taken : ℕ) (ok : Bool) :
    Undisturbed s (.completed i ok (.starts taken)) := by
  refine ⟨trivial, ?_⟩
  cases h : s.writes[i]? with
  | none => simp [startUsed, h]
  | some op => simp [startUsed, h]

/-- Two packets were sent, and three bytes of the first one's frame have arrived. -/
def twoSent : Link Unit :=
  { sender :=
      { writeQueue := [[7], []]
        writes := [{ frame := ⟨[1, 0, 0, 0], [7]⟩, phase := .body, taken := 1 }]
        wire := [1, 0, 0, 0, 7]
        sent := [[7], []] }
    arrived := 3
    ended := false
    reader := { state := () } }

/-- Then the first one is received. -/
theorem simulated_by_channel_two_packets :
    ∃ l : Link Unit, l.received = [[7]] ∧ l.sender.sent = [[7], []] ∧
      l.received <+: l.sender.sent ∧ twoSent.received <+: l.received := by
  have hsend : ∀ (l : Link Unit) (p : Payload) (k : ℕ), p.length < 256 →
      Orderly spDefault l (.sender (.send p (.starts k))) := by
    intro l p k hp
    refine ⟨trivial, undisturbed_send _ _ _, ?_⟩
    show p.length < 256 ^ 4
    omega
  have hdone : ∀ (l : Link Unit) (i k : ℕ),
      Orderly spDefault l (.sender (.completed i true (.starts k))) :=
    fun l i k => ⟨trivial, undisturbed_completed _ _ _ _, trivial⟩
  have hbefore : run (step spDefault Heap.ample fun _ s => (true, s)) (opened ())
      [.sender (.send [7] (.starts 4)), .sender (.send [] (.starts 0)),
        .sender (.completed 0 true (.starts 1)), .arrive 3] = some twoSent := rfl
  have hafter : run (step spDefault Heap.ample fun _ s => (true, s)) twoSent
      [.arrive 2, .read, .read] = some _ := rfl
  have h := simulated_by_channel (fun _ => rfl) (fun _ _ => rfl) () hbefore hafter
    ⟨hsend _ _ _ (by decide), fun _ _ => ⟨hsend _ _ _ (by decide), fun _ _ => ⟨hdone _ _ _,
      fun _ _ => ⟨trivial, fun _ _ => ⟨trivial, fun _ _ => ⟨trivial, fun _ _ => ⟨trivial,
        fun _ _ => trivial⟩⟩⟩⟩⟩⟩⟩
  exact ⟨_, rfl, rfl, h.2.1, h.2.2.1⟩

end Link

end BacsEnv.Gspp
