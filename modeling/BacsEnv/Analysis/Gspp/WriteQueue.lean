import BacsEnv.Analysis.Gspp.ClientSteps

/-!
# The write queue of a `StreamClient`

The invariant of the sending side, for every SPTraits and every way the writes start:
at most one write is outstanding and it is one of the frame of the queue's front, no
packet is popped from an empty queue and the socket is not closed under a write, and
the wire has as many bytes as the frames written so far and the part of the
outstanding one account for. `inv_step` carries it through a step, and with it says
when the step puts the right bytes on the wire (`BuffersIntact`) and when it leaves
the queue without a write (`startUsed`).
-/

set_option autoImplicit false

namespace BacsEnv.Gspp

open BacsEnv.Bacs BacsEnv.Transition

variable {T : SPTraits}

/-! ## What the wire should be -/

/-- The bytes of its frame that a write has accounted for. -/
def AsyncWrite.progress (op : AsyncWrite) : List UInt8 :=
  match op.phase with
  | .header => op.frame.header.take op.taken
  | .body => op.frame.header ++ op.frame.body.take op.taken

/-- The wire if the buffer of every write keeps its bytes. -/
def intended (s : State) : List UInt8 :=
  (s.written.map Frame.bytes).flatten ++ (s.writes.map AsyncWrite.progress).flatten

/-- The wire is what it should be. -/
def Faithful (s : State) : Prop := s.wire = intended s

/-- The socket is closed, or the queue is still being written. -/
def Live (s : State) : Prop := s.closed = true ∨ ¬ Stuck s

/-- The frames of the packets sent are those written and those of the queue. -/
def Balanced (T : SPTraits) (s : State) : Prop :=
  s.sent.map (frame T) = s.written.map some ++ s.writeQueue.map (frame T)

/-- The invariant of the shared state. -/
structure Inv (T : SPTraits) (s : State) : Prop where
  no_fault : s.faults = []
  writes_cases : s.writes = [] ∨ ∃ front rest op, s.writeQueue = front :: rest ∧
    s.writes = [op] ∧ frame T front = some op.frame ∧ op.taken ≤ op.buffer.length
  of_closed : s.closed = true → ∀ op ∈ s.writes, op.phase = .header ∧ op.taken = 0
  balanced : s.closed = false → ¬ Stuck s → Balanced T s
  written_prefix : s.written.map some <+: s.sent.map (frame T)
  length_wire : Live s → s.wire.length = (intended s).length

theorem inv_init (T : SPTraits) : Inv T init where
  no_fault := rfl
  writes_cases := Or.inl rfl
  of_closed := by intro h; cases h
  balanced := fun _ _ => rfl
  written_prefix := List.nil_prefix
  length_wire := fun _ => rfl

theorem Inv.manned {s : State} (hs : Inv T s) : Manned T s := by
  rcases hs.writes_cases with hidle | ⟨front, rest, op, hq, hw, hf, -⟩
  · exact Or.inl hidle
  · exact Or.inr ⟨front, rest, op, hq, hw, hf⟩

theorem not_stuck_of_writes {s : State} {op : AsyncWrite} (h : s.writes = [op]) : ¬ Stuck s := by
  rintro ⟨hidle, -⟩
  rw [h] at hidle
  cases hidle

theorem progress_isPrefix (op : AsyncWrite) : op.progress <+: op.frame.bytes := by
  unfold AsyncWrite.progress Frame.bytes
  cases op.phase with
  | header => exact (List.take_prefix _ _).trans (List.prefix_append _ _)
  | body => exact (List.prefix_append_right_inj _).mpr (List.take_prefix _ _)

/-- The socket takes the next bytes of the buffer of a write. -/
theorem progress_add (op : AsyncWrite) (n : ℕ) :
    ({ op with taken := op.taken + n } : AsyncWrite).progress =
      op.progress ++ op.unsent.take n := by
  unfold AsyncWrite.progress AsyncWrite.unsent AsyncWrite.buffer
  cases op.phase <;> simp [List.take_add, List.append_assoc]

theorem intended_of_idle {s : State} (h : s.writes = []) :
    intended s = (s.written.map Frame.bytes).flatten := by
  simp [intended, h]

theorem intended_of_single {s : State} {op : AsyncWrite} (h : s.writes = [op]) :
    intended s = (s.written.map Frame.bytes).flatten ++ op.progress := by
  simp [intended, h]

/-- On a closed socket only whole frames have been written. -/
theorem Inv.intended_of_closed {s : State} (hs : Inv T s) (hclosed : s.closed = true) :
    intended s = (s.written.map Frame.bytes).flatten := by
  have hprogress : ∀ bytes ∈ s.writes.map AsyncWrite.progress, bytes = [] := by
    intro bytes hbytes
    obtain ⟨op, hop, rfl⟩ := List.mem_map.mp hbytes
    obtain ⟨hphase, htaken⟩ := hs.of_closed hclosed op hop
    simp [AsyncWrite.progress, hphase, htaken]
  unfold intended
  rw [List.flatten_eq_nil_iff.mpr hprogress, List.append_nil]

/-! ## Steps -/

/-- No write fails on the open socket. -/
def Reliable (s : State) : Event → Prop
  | .completed _ false _ => s.closed = true
  | _ => True

/-- The bytes that the socket takes from a buffer after the call that started the write
are still the ones that were put there. -/
def BuffersIntact (s : State) : Event → Prop
  | .transfer i bytes => ∀ op, s.writes[i]? = some op → bytes = op.unsent.take bytes.length
  | _ => True

/-- The start of a write that a step gets to, if any. -/
def startUsed (s : State) : Event → Option Start
  | .send _ start => if s.writeQueue = [] then some start else none
  | .completed i ok start =>
      match s.writes[i]? with
      | none => none
      | some op =>
          if (ok = true ∧ op.phase = .header) ∨ 2 ≤ s.writeQueue.length then some start
          else none
  | _ => none

/-- Queueing a packet keeps the invariant. -/
theorem Inv.push {s : State} (hs : Inv T s) (packet : Payload) :
    Inv T { s with writeQueue := s.writeQueue ++ [packet], sent := s.sent ++ [packet] } where
  no_fault := hs.no_fault
  writes_cases := by
    rcases hs.writes_cases with hidle | ⟨front, rest, op, hq, hw, hf, hle⟩
    · exact Or.inl hidle
    · exact Or.inr ⟨front, rest ++ [packet], op, by simp [hq], hw, hf, hle⟩
  of_closed := hs.of_closed
  balanced := by
    intro hopen hmoving
    have hbefore : ¬ Stuck s := fun hstuck => hmoving ⟨hstuck.1, by simp⟩
    have hbal := hs.balanced hopen hbefore
    unfold Balanced at hbal ⊢
    simp [hbal]
  written_prefix := by
    have hle := hs.written_prefix
    simpa using hle.trans (List.prefix_append _ _)
  length_wire := by
    intro hlive
    refine hs.length_wire (hlive.imp_right ?_)
    exact fun hmoving hstuck => hmoving ⟨hstuck.1, by simp⟩

/-- Starting the header of the front's frame keeps the invariant. -/
theorem Inv.started {s : State} (hs : Inv T s) {front : Payload} {rest : List Payload}
    {f : Frame} {taken : ℕ} (hidle : s.writes = []) (hq : s.writeQueue = front :: rest)
    (hbal : s.closed = false → Balanced T s)
    (hlen : s.wire.length = (intended s).length) (hf : frame T front = some f)
    (hle : taken ≤ f.header.length) (hclosed : s.closed = true → taken = 0) :
    Inv T { s with
      writes := [{ frame := f, phase := .header, taken := taken }]
      wire := s.wire ++ f.header.take taken } where
  no_fault := hs.no_fault
  writes_cases := Or.inr ⟨front, rest, _, hq, rfl, hf, hle⟩
  of_closed := by
    intro hc op hop
    obtain rfl := List.mem_singleton.mp hop
    exact ⟨rfl, hclosed hc⟩
  balanced := fun hopen _ => hbal hopen
  written_prefix := hs.written_prefix
  length_wire := by
    intro _
    rw [intended_of_idle hidle] at hlen
    rw [intended_of_single rfl]
    simp [AsyncWrite.progress, hlen]

/-- What a step does: the invariant stays, and while the client is live the wire stays
right exactly when the socket takes the right bytes. The queue is left without a write
exactly when a start throws. -/
structure StepSpec (T : SPTraits) (s : State) (e : Event) (s' : State) : Prop where
  inv : Inv T s'
  faithful_iff : Live s' → (Faithful s' ↔ Faithful s ∧ BuffersIntact s e)
  stuck_iff : (∀ size, (T.sizeOut size).isSome) →
    (Stuck s' ↔ Stuck s ∨ startUsed s e = some .throws)

/-- The frame of every packet exists when `SPTraits::out` does not throw. -/
theorem frame_ne_none (hout : ∀ size, (T.sizeOut size).isSome) (payload : Payload) :
    frame T payload ≠ none := by
  obtain ⟨size, hsize⟩ := Option.isSome_iff_exists.mp (hout (T.cast payload.length))
  rw [frame_eq_some_iff.mpr ⟨size, hsize, rfl⟩]
  exact Option.some_ne_none _

/-- `WriteAsync` of the front of a queue that nothing is written of. -/
theorem Inv.resume {s s' : State} (hs : Inv T s) {front : Payload} {rest : List Payload}
    {start : Start} {returned : Bool} (hidle : s.writes = [])
    (hq : s.writeQueue = front :: rest) (hbal : s.closed = false → Balanced T s)
    (hlen : s.wire.length = (intended s).length)
    (h : writeAsync T front start s = some (s', returned)) :
    Inv T s' ∧ (Faithful s' ↔ Faithful s) := by
  rcases writeAsync_cases h with ⟨-, rfl, -⟩ | ⟨f, taken, hf, rfl, hle, hclosed, -, rfl⟩
  · exact ⟨hs, Iff.rfl⟩
  · rw [hidle, List.nil_append]
    refine ⟨hs.started hidle hq hbal hlen hf hle hclosed, ?_⟩
    unfold Faithful
    rw [intended_of_single rfl, intended_of_idle hidle]
    exact List.append_left_inj _

/-! ### One lemma for each kind of step -/

theorem inv_sentFirst {packet : Payload} {start : Start} {s s₁ : State} {returned : Bool}
    (hs : Inv T s) (hq : s.writeQueue = [])
    (hwrite : writeAsync T packet start { s with writeQueue := [packet] } =
      some (s₁, returned)) :
    Inv T (if returned then { s₁ with sent := s₁.sent ++ [packet] } else s₁) ∧
      (Faithful (if returned then { s₁ with sent := s₁.sent ++ [packet] } else s₁) ↔
        Faithful s) := by
  have hidle := hs.manned.writes_of_queue_nil hq
  have hmoving : ¬ Stuck s := fun hstuck => hstuck.2 hq
  have hpush := hs.push packet
  rw [hq, List.nil_append] at hpush
  rcases writeAsync_cases hwrite with
    ⟨-, rfl, rfl⟩ | ⟨f, taken, hf, rfl, hle, hclosed, rfl, rfl⟩
  · -- The exception leaves `Send` with the packet in the queue.
    refine ⟨?_, Iff.rfl⟩
    exact
      { no_fault := hs.no_fault
        writes_cases := Or.inl hidle
        of_closed := hs.of_closed
        balanced := fun _ hnot => (hnot ⟨hidle, by simp⟩).elim
        written_prefix := hs.written_prefix
        length_wire := fun _ => hs.length_wire (Or.inr hmoving) }
  · have hbal : s.closed = false → Balanced T
        { s with writeQueue := [packet], sent := s.sent ++ [packet] } := by
      intro hopen
      have hbefore := hs.balanced hopen hmoving
      unfold Balanced at hbefore ⊢
      simp [hbefore, hq]
    have hstarted := hpush.started hidle rfl hbal (hs.length_wire (Or.inr hmoving)) hf hle hclosed
    refine ⟨?_, ?_⟩
    · simpa [hidle] using hstarted
    · simp [Faithful, intended, hidle, AsyncWrite.progress]

theorem close_of_idle {s : State} (h : s.writes = []) : close s = { s with closed := true } := by
  simp [close, h]

/-- Closing a socket that nothing is written to keeps the invariant. -/
theorem Inv.close {s : State} (hs : Inv T s) (hidle : s.writes = [])
    (hlen : s.wire.length = (intended s).length) :
    Inv T { s with closed := true } where
  no_fault := hs.no_fault
  writes_cases := Or.inl hidle
  of_closed := by
    intro _ op hop
    rw [hidle] at hop
    cases hop
  balanced := by
    intro hopen
    cases hopen
  written_prefix := hs.written_prefix
  length_wire := fun _ => hlen

theorem inv_closedNow {s : State} (hs : Inv T s) (hq : s.writeQueue = []) :
    Inv T (close s) ∧ (Faithful (close s) ↔ Faithful s) := by
  have hidle := hs.manned.writes_of_queue_nil hq
  have hlen := hs.length_wire (Or.inr fun hstuck => hstuck.2 hq)
  rw [close_of_idle hidle]
  exact ⟨hs.close hidle hlen, Iff.rfl⟩

/-- Asking for a shutdown keeps the invariant. -/
theorem Inv.shutdownAsked {s : State} (hs : Inv T s) : Inv T { s with shutdown := true } :=
  { no_fault := hs.no_fault
    writes_cases := hs.writes_cases
    of_closed := hs.of_closed
    balanced := hs.balanced
    written_prefix := hs.written_prefix
    length_wire := hs.length_wire }

/-- The outstanding write of a state, when there is an index of one. -/
theorem Inv.writes_getElem? {s : State} (hs : Inv T s) {i : ℕ} {op : AsyncWrite}
    (h : s.writes[i]? = some op) :
    s.writes = [op] ∧ i = 0 ∧ s.writes.eraseIdx i = [] ∧ op.taken ≤ op.buffer.length ∧
      ∃ front rest, s.writeQueue = front :: rest ∧ frame T front = some op.frame := by
  obtain ⟨hw, hi, herase, hfront⟩ := hs.manned.writes_getElem? h
  refine ⟨hw, hi, herase, ?_, hfront⟩
  rcases hs.writes_cases with hidle | ⟨-, -, op', -, hw', -, hle⟩
  · rw [hidle] at hw
    cases hw
  · rw [hw'] at hw
    obtain ⟨rfl, -⟩ := List.cons.inj hw
    exact hle

theorem inv_transferred {i : ℕ} {bytes : List UInt8} {s : State} {op : AsyncWrite}
    (hs : Inv T s) (hop : s.writes[i]? = some op) (hopen : s.closed = false)
    (hfit : bytes.length ≤ op.unsent.length) :
    Inv T { s with writes := s.writes.set i { op with taken := op.taken + bytes.length }
                   wire := s.wire ++ bytes } ∧
      (Faithful { s with writes := s.writes.set i { op with taken := op.taken + bytes.length }
                         wire := s.wire ++ bytes } ↔
        Faithful s ∧ BuffersIntact s (.transfer i bytes)) := by
  obtain ⟨hw, rfl, -, hle, front, rest, hq, hf⟩ := hs.writes_getElem? hop
  have hset : s.writes.set 0 { op with taken := op.taken + bytes.length } =
      [{ op with taken := op.taken + bytes.length }] := by
    rw [hw]
    rfl
  rw [hset]
  have hprogress := progress_add op bytes.length
  have hlen := hs.length_wire (Or.inr (not_stuck_of_writes hw))
  have htake : (op.unsent.take bytes.length).length = bytes.length := by
    rw [List.length_take]
    exact Nat.min_eq_left hfit
  refine ⟨?_, ?_⟩
  · exact
      { no_fault := hs.no_fault
        writes_cases := by
          refine Or.inr ⟨front, rest, _, hq, rfl, hf, ?_⟩
          have hunsent : op.unsent.length = op.buffer.length - op.taken := List.length_drop
          show op.taken + bytes.length ≤ op.buffer.length
          omega
        of_closed := by
          intro hclosed
          rw [hopen] at hclosed
          cases hclosed
        balanced := fun _ _ => hs.balanced hopen (not_stuck_of_writes hw)
        written_prefix := hs.written_prefix
        length_wire := by
          intro _
          rw [intended_of_single hw] at hlen
          rw [intended_of_single rfl, hprogress, ← List.append_assoc]
          simp only [List.length_append] at hlen ⊢
          omega }
  · unfold Faithful
    rw [intended_of_single rfl, hprogress, ← List.append_assoc, ← intended_of_single hw]
    have hintact : BuffersIntact s (.transfer 0 bytes) ↔
        bytes = op.unsent.take bytes.length := by
      simp [BuffersIntact, hw]
    rw [hintact]
    constructor
    · intro heq
      exact List.append_inj heq hlen
    · rintro ⟨hwire, htaken⟩
      rw [hwire, ← htaken]

/-- Once the header is written, the body is started or the queue is left alone. -/
theorem Inv.headerWritten {s s' : State} {op : AsyncWrite} {start : Start} {returned : Bool}
    (hs : Inv T s) (hw : s.writes = [op]) (hopen : s.closed = false) (hphase : op.phase = .header)
    (hall : op.unsent = []) {front : Payload} {rest : List Payload}
    (hq : s.writeQueue = front :: rest) (hf : frame T front = some op.frame)
    (h : asyncWrite op.frame .body start { s with writes := [] } = some (s', returned)) :
    Inv T s' ∧ (Live s' → (Faithful s' ↔ Faithful s)) := by
  have hmoving := not_stuck_of_writes hw
  have hlen := hs.length_wire (Or.inr hmoving)
  have hheader : op.progress = op.frame.header := by
    have hdrop : op.frame.header.drop op.taken = [] := by
      simpa [AsyncWrite.unsent, AsyncWrite.buffer, hphase] using hall
    simp only [AsyncWrite.progress, hphase]
    exact List.take_of_length_le (List.drop_eq_nil_iff.mp hdrop)
  rcases asyncWrite_cases h with ⟨rfl, rfl, -⟩ | ⟨taken, rfl, hle, -, -, rfl⟩
  · -- The header stays on the wire, and nothing will follow it.
    have hstuck : Stuck { s with writes := [] } := ⟨rfl, by simp [hq]⟩
    have hdead : ¬ Live { s with writes := [] } := by
      rintro (hclosed | hlive)
      · rw [hopen] at hclosed
        cases hclosed
      · exact hlive hstuck
    refine ⟨?_, fun hlive => (hdead hlive).elim⟩
    exact
      { no_fault := hs.no_fault
        writes_cases := Or.inl rfl
        of_closed := fun _ op hop => by cases hop
        balanced := fun _ hlive => (hlive hstuck).elim
        written_prefix := hs.written_prefix
        length_wire := fun hlive => (hdead hlive).elim }
  · rw [List.nil_append]
    refine ⟨?_, ?_⟩
    · exact
        { no_fault := hs.no_fault
          writes_cases := Or.inr ⟨front, rest, _, hq, rfl, hf, hle⟩
          of_closed := by
            intro hclosed
            rw [hopen] at hclosed
            cases hclosed
          balanced := fun _ _ => hs.balanced hopen hmoving
          written_prefix := hs.written_prefix
          length_wire := by
            intro _
            rw [intended_of_single hw, hheader] at hlen
            rw [intended_of_single rfl]
            simp only [AsyncWrite.progress, AsyncWrite.buffer, List.length_append] at hlen ⊢
            omega }
    · intro _
      unfold Faithful
      rw [intended_of_single rfl, intended_of_single hw, hheader]
      simp only [AsyncWrite.progress, AsyncWrite.buffer, ← List.append_assoc]
      exact List.append_left_inj _

/-- The queue goes on after a frame that is through. -/
theorem Inv.next {s s' : State} {front : Payload} {rest : List Payload} {start : Start}
    (hidle : s.writes = []) (hq : s.writeQueue = front :: rest)
    (hs : Inv T { s with writeQueue := rest, closed := s.closed || s.shutdown })
    (hbal : (s.closed || s.shutdown) = false →
      Balanced T { s with writeQueue := rest, closed := s.closed || s.shutdown })
    (hlen : s.wire.length = (intended s).length)
    (h : onWritten T start s = some s') :
    Inv T s' ∧ (Faithful s' ↔ Faithful s) := by
  rw [onWritten_eq start hidle hq] at h
  cases rest with
  | nil =>
      cases h
      exact ⟨hs, Iff.rfl⟩
  | cons next rest =>
      obtain ⟨⟨s₂, returned⟩, hwrite, rfl⟩ := Option.map_eq_some_iff.mp h
      exact hs.resume hidle rfl hbal hlen hwrite

/-- A frame that was written through is accounted for as a whole. -/
theorem Inv.bodyWritten {s : State} {op : AsyncWrite} (hs : Inv T s) (hw : s.writes = [op])
    (hopen : s.closed = false) (hphase : op.phase = .body) (hall : op.unsent = [])
    {front : Payload} {rest : List Payload} (hq : s.writeQueue = front :: rest)
    (hf : frame T front = some op.frame) :
    let s₁ := { s with writes := [], written := s.written ++ [op.frame] }
    intended s₁ = intended s ∧
      Balanced T { s₁ with writeQueue := rest, closed := s.closed || s.shutdown } ∧
      Inv T { s₁ with writeQueue := rest, closed := s.closed || s.shutdown } := by
  intro s₁
  have hmoving := not_stuck_of_writes hw
  have hwhole : op.progress = op.frame.bytes := by
    have hdrop : op.frame.body.drop op.taken = [] := by
      simpa [AsyncWrite.unsent, AsyncWrite.buffer, hphase] using hall
    simp only [AsyncWrite.progress, hphase, Frame.bytes]
    rw [List.take_of_length_le (List.drop_eq_nil_iff.mp hdrop)]
  have hsame : intended s₁ = intended s := by
    rw [intended_of_single hw, intended_of_idle rfl, hwhole]
    simp [s₁]
  have hbefore := hs.balanced hopen hmoving
  have hbal : Balanced T { s₁ with writeQueue := rest, closed := s.closed || s.shutdown } := by
    unfold Balanced at hbefore ⊢
    simp [s₁, hbefore, hq, hf]
  refine ⟨hsame, hbal, ?_⟩
  exact
    { no_fault := hs.no_fault
      writes_cases := Or.inl rfl
      of_closed := fun _ op hop => by cases hop
      balanced := fun _ _ => hbal
      written_prefix := by
        unfold Balanced at hbal
        rw [hbal]
        exact List.prefix_append _ _
      length_wire := by
        intro _
        have hlen := hs.length_wire (Or.inr hmoving)
        rw [← hsame] at hlen
        exact hlen }

/-- A write that failed on the closed socket has taken nothing. -/
theorem Inv.failed {s : State} (hs : Inv T s)
    (hclosed : s.closed = true) (rest : List Payload) :
    intended { s with writes := [] } = intended s ∧
      Inv T { s with writes := [], writeQueue := rest, closed := s.closed || s.shutdown } := by
  have hsame : intended { s with writes := [] } = intended s := by
    rw [hs.intended_of_closed hclosed]
    exact intended_of_idle rfl
  refine ⟨hsame, ?_⟩
  exact
    { no_fault := hs.no_fault
      writes_cases := Or.inl rfl
      of_closed := fun _ op hop => by cases hop
      balanced := by simp [hclosed]
      written_prefix := hs.written_prefix
      length_wire := by
        intro _
        have hlen := hs.length_wire (Or.inl hclosed)
        rw [← hsame] at hlen
        exact hlen }

theorem inv_failed {i : ℕ} {start : Start} {s s' : State} {op : AsyncWrite} (hs : Inv T s)
    (hclosed : s.closed = true) (hop : s.writes[i]? = some op)
    (h : onWritten T start { s with writes := s.writes.eraseIdx i } = some s') :
    Inv T s' ∧ (Faithful s' ↔ Faithful s) := by
  obtain ⟨hw, rfl, herase, -, front, rest, hq, hf⟩ := hs.writes_getElem? hop
  obtain ⟨hsame, hinv⟩ := hs.failed hclosed rest
  have hlen := hs.length_wire (Or.inl hclosed)
  rw [← hsame] at hlen
  rw [herase] at h
  obtain ⟨hinv', hfaithful⟩ := Inv.next (s := { s with writes := [] }) rfl hq hinv
    (by simp [hclosed]) hlen h
  refine ⟨hinv', ?_⟩
  rw [hfaithful]
  simp [Faithful, hsame]

theorem inv_headerWritten {i : ℕ} {start : Start} {s s' : State} {op : AsyncWrite}
    {returned : Bool} (hs : Inv T s) (hop : s.writes[i]? = some op) (hopen : s.closed = false)
    (hall : op.unsent = []) (hphase : op.phase = .header)
    (h : asyncWrite op.frame .body start { s with writes := s.writes.eraseIdx i } =
      some (s', returned)) :
    Inv T s' ∧ (Live s' → (Faithful s' ↔ Faithful s)) := by
  obtain ⟨hw, rfl, herase, -, front, rest, hq, hf⟩ := hs.writes_getElem? hop
  rw [herase] at h
  exact hs.headerWritten hw hopen hphase hall hq hf h

theorem inv_bodyWritten {i : ℕ} {start : Start} {s s' : State} {op : AsyncWrite}
    (hs : Inv T s) (hop : s.writes[i]? = some op) (hopen : s.closed = false)
    (hall : op.unsent = []) (hphase : op.phase = .body)
    (h : onWritten T start
      { s with writes := s.writes.eraseIdx i, written := s.written ++ [op.frame] } = some s') :
    Inv T s' ∧ (Faithful s' ↔ Faithful s) := by
  obtain ⟨hw, rfl, herase, -, front, rest, hq, hf⟩ := hs.writes_getElem? hop
  obtain ⟨hsame, hbal, hinv⟩ := hs.bodyWritten hw hopen hphase hall hq hf
  have hlen := hs.length_wire (Or.inr (not_stuck_of_writes hw))
  rw [← hsame] at hlen
  rw [herase] at h
  obtain ⟨hinv', hfaithful⟩ := Inv.next
    (s := { s with writes := [], written := s.written ++ [op.frame] }) rfl hq hinv
    (fun _ => hbal) hlen h
  refine ⟨hinv', ?_⟩
  rw [hfaithful]
  simp [Faithful, hsame]

/-- When `SPTraits::out` does not throw, a start throws exactly when the one that the step
gets to does. -/
theorem startThrows_iff (hout : ∀ size, (T.sizeOut size).isSome) (s : State) (e : Event) :
    StartThrows T s e ↔ startUsed s e = some .throws := by
  have hstarts : ∀ packet start, ¬ Starts T packet start ↔ start = .throws := by
    intro packet start
    simp [Starts, frame_ne_none hout packet]
  cases e with
  | send packet start => simp [StartThrows, startUsed, hstarts]
  | completed i ok start =>
      cases hop : s.writes[i]? with
      | none => simp [StartThrows, startUsed, hop]
      | some op =>
          by_cases hheader : ok = true ∧ op.phase = .header
          · simp [StartThrows, startUsed, hop, hheader]
          · have hnext : (∃ next, s.writeQueue[1]? = some next) ↔ 2 ≤ s.writeQueue.length := by
              simp [← Option.isSome_iff_exists, Nat.lt_iff_add_one_le]
            simp [StartThrows, startUsed, hop, hheader, hstarts, hnext]
  | closeSocket => simp [StartThrows, startUsed]
  | transfer i bytes => simp [StartThrows, startUsed]

/-- What a step does to the invariant and to the wire. -/
theorem inv_faithful_of_step {s s' : State} {e : Event} (hs : Inv T s) (hC : Reliable s e)
    (h : step T s e = some s') :
    Inv T s' ∧ (Live s' → (Faithful s' ↔ Faithful s ∧ BuffersIntact s e)) := by
  -- Only the bytes of a transfer can be wrong.
  have hkept : ∀ {s'}, Inv T s' ∧ (Faithful s' ↔ Faithful s) → BuffersIntact s e →
      Inv T s' ∧ (Live s' → (Faithful s' ↔ Faithful s ∧ BuffersIntact s e)) := by
    rintro s' ⟨hinv, hfaithful⟩ hintact
    exact ⟨hinv, fun _ => hfaithful.trans (and_iff_left hintact).symm⟩
  cases stepped_of_step h with
  | sentFirst hq hwrite => exact hkept (inv_sentFirst hs hq hwrite) trivial
  | queued hq => exact hkept ⟨hs.push _, Iff.rfl⟩ trivial
  | closedNow hq => exact hkept (inv_closedNow hs hq) trivial
  | shutdownAsked hq => exact hkept ⟨hs.shutdownAsked, Iff.rfl⟩ trivial
  | transferred hop hopen hfit =>
      obtain ⟨hinv, hfaithful⟩ := inv_transferred hs hop hopen hfit
      exact ⟨hinv, fun _ => hfaithful⟩
  | failed hop hnext => exact hkept (inv_failed hs hC hop hnext) trivial
  | headerWritten hop hopen hall hphase hwrite =>
      obtain ⟨hinv, hfaithful⟩ := inv_headerWritten hs hop hopen hall hphase hwrite
      exact ⟨hinv, fun hlive => (hfaithful hlive).trans (and_iff_left trivial).symm⟩
  | bodyWritten hop hopen hall hphase hnext =>
      exact hkept (inv_bodyWritten hs hop hopen hall hphase hnext) trivial

/-- What a step does, under the invariant. -/
theorem inv_step {s s' : State} {e : Event} (hs : Inv T s) (hC : Reliable s e)
    (h : step T s e = some s') : StepSpec T s e s' := by
  obtain ⟨hinv, hfaithful⟩ := inv_faithful_of_step hs hC h
  refine { inv := hinv, faithful_iff := hfaithful, stuck_iff := ?_ }
  intro hout
  rw [(stuck_iff_of_step hs.manned h).2, startThrows_iff hout]

/-- The invariant is preserved by a step. -/
theorem inv_of_step (s : State) (e : Event) (s' : State) (hs : Inv T s) (hC : Reliable s e)
    (h : step T s e = some s') : Inv T s' :=
  (inv_step hs hC h).inv

/-- Every state that a run reaches satisfies the invariant: whatever the writes take and
whichever of them throw, no packet is popped from an empty queue, no second write is started
beside an outstanding one, and the socket is not closed under a write. -/
theorem inv_run {events : List Event} {s : State} (hrun : run (step T) init events = some s)
    (hreliable : Meets (step T) Reliable init events) : Inv T s :=
  run_induction inv_of_step hrun hreliable (inv_init T)

end BacsEnv.Gspp
