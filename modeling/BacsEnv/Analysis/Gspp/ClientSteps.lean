import BacsEnv.Model.Gspp.StreamClient

/-!
# What a step of a `StreamClient` can do

`Stepped` has one case for every way a step can go, with what it needs and the state it
leaves. What holds along the runs of a client is proved by cases on it. The first use is
`stuck_iff_of_step`: a step leaves at most one write outstanding, and leaves packets in the
queue without a write exactly when it found them so or a start throws.
-/

set_option autoImplicit false

namespace BacsEnv.Gspp

open BacsEnv.Bacs

variable {T : SPTraits}

/-- An `async_write` throws, or starts a write and takes a part of the buffer. -/
theorem asyncWrite_cases {f : Frame} {phase : Phase} {start : Start} {s s' : State}
    {returned : Bool} (h : asyncWrite f phase start s = some (s', returned)) :
    (start = .throws ∧ s' = s ∧ returned = false) ∨
      ∃ taken, start = .starts taken ∧
        taken ≤ ({ frame := f, phase := phase, taken := taken } : AsyncWrite).buffer.length ∧
        (s.closed = true → taken = 0) ∧ returned = true ∧
        s' = { s with
          writes := s.writes ++ [{ frame := f, phase := phase, taken := taken }]
          wire := s.wire ++
            ({ frame := f, phase := phase, taken := taken } : AsyncWrite).buffer.take taken } := by
  cases start with
  | throws =>
      simp only [asyncWrite, Option.some.injEq, Prod.mk.injEq] at h
      exact Or.inl ⟨rfl, h.1.symm, h.2.symm⟩
  | starts taken =>
      simp only [asyncWrite] at h
      split at h
      · cases h
      · rename_i hpossible
        simp only [Option.some.injEq, Prod.mk.injEq] at h
        push Not at hpossible
        exact Or.inr ⟨taken, rfl, hpossible.1, hpossible.2, h.2.symm, h.1.symm⟩

/-- `WriteAsync` leaves the state as it is when it throws, and otherwise starts the
header of the packet's frame. -/
theorem writeAsync_cases {data : Payload} {start : Start} {s s' : State} {returned : Bool}
    (h : writeAsync T data start s = some (s', returned)) :
    ((frame T data = none ∨ start = .throws) ∧ s' = s ∧ returned = false) ∨
      ∃ f taken, frame T data = some f ∧ start = .starts taken ∧ taken ≤ f.header.length ∧
        (s.closed = true → taken = 0) ∧ returned = true ∧
        s' = { s with
          writes := s.writes ++ [{ frame := f, phase := .header, taken := taken }]
          wire := s.wire ++ f.header.take taken } := by
  unfold writeAsync at h
  cases hf : frame T data with
  | none =>
      simp only [hf, Option.some.injEq, Prod.mk.injEq] at h
      exact Or.inl ⟨Or.inl rfl, h.1.symm, h.2.symm⟩
  | some f =>
      simp only [hf] at h
      rcases asyncWrite_cases h with ⟨hstart, hs', hret⟩ | ⟨taken, hstart, hle, hcl, hret, hs'⟩
      · exact Or.inl ⟨Or.inr hstart, hs', hret⟩
      · exact Or.inr ⟨f, taken, rfl, hstart, hle, hcl, hret, hs'⟩

theorem writeAsync_kept {data : Payload} {start : Start} {s s' : State} {returned : Bool}
    (h : writeAsync T data start s = some (s', returned)) :
    s'.writeQueue = s.writeQueue ∧ s'.shutdown = s.shutdown ∧ s'.closed = s.closed ∧
      s'.written = s.written ∧ s'.sent = s.sent := by
  rcases writeAsync_cases h with ⟨-, rfl, -⟩ | ⟨f, taken, -, -, -, -, -, rfl⟩
  · exact ⟨rfl, rfl, rfl, rfl, rfl⟩
  · exact ⟨rfl, rfl, rfl, rfl, rfl⟩

/-- The handler of `WriteAsync` closes the socket exactly when a shutdown was asked for. -/
theorem onWritten_kept {start : Start} {s s' : State} (h : onWritten T start s = some s') :
    s'.closed = (s.closed || s.shutdown) ∧ s'.shutdown = s.shutdown ∧ s'.written = s.written ∧
      s'.sent = s.sent := by
  have hpop : (pop s).closed = s.closed ∧ (pop s).shutdown = s.shutdown ∧
      (pop s).written = s.written ∧ (pop s).sent = s.sent := by
    unfold pop
    cases s.writeQueue <;> exact ⟨rfl, rfl, rfl, rfl⟩
  obtain ⟨hclosed, hdown, hwritten, hsent⟩ := hpop
  have hclose : ∀ s₂, s₂ = (if (pop s).shutdown then close (pop s) else pop s) →
      s₂.closed = (s.closed || s.shutdown) ∧ s₂.shutdown = s.shutdown ∧
        s₂.written = s.written ∧ s₂.sent = s.sent := by
    intro s₂ hs₂
    cases hs : (pop s).shutdown <;> rw [hs] at hdown hs₂ <;>
      simp [hs₂, close, hclosed, hwritten, hsent, hs, ← hdown]
  unfold onWritten at h
  simp only at h
  split at h
  · cases h
    exact hclose _ rfl
  · obtain ⟨⟨s₂, returned⟩, hwrite, rfl⟩ := Option.map_eq_some_iff.mp h
    obtain ⟨-, hd, hc, hw, hse⟩ := writeAsync_kept hwrite
    rw [hd, hc, hw, hse]
    exact hclose _ rfl

/-- The ways a step can go. -/
inductive Stepped (T : SPTraits) (s : State) : Event → State → Prop
  /-- `Send` with nothing queued starts the write of its packet. -/
  | sentFirst {packet : Payload} {start : Start} {s₁ : State} {returned : Bool}
      (hq : s.writeQueue = [])
      (hwrite : writeAsync T packet start { s with writeQueue := [packet] } =
        some (s₁, returned)) :
      Stepped T s (.send packet start)
        (if returned then { s₁ with sent := s₁.sent ++ [packet] } else s₁)
  /-- `Send` behind other packets. -/
  | queued {packet : Payload} {start : Start} (hq : s.writeQueue ≠ []) :
      Stepped T s (.send packet start)
        { s with writeQueue := s.writeQueue ++ [packet], sent := s.sent ++ [packet] }
  /-- `CloseSocket` with nothing queued. -/
  | closedNow (hq : s.writeQueue = []) : Stepped T s .closeSocket (close s)
  /-- `CloseSocket` with packets queued. -/
  | shutdownAsked (hq : s.writeQueue ≠ []) :
      Stepped T s .closeSocket { s with shutdown := true }
  /-- The socket takes bytes of an outstanding write. -/
  | transferred {i : ℕ} {bytes : List UInt8} {op : AsyncWrite} (hop : s.writes[i]? = some op)
      (hopen : s.closed = false) (hfit : bytes.length ≤ op.unsent.length) :
      Stepped T s (.transfer i bytes)
        { s with writes := s.writes.set i { op with taken := op.taken + bytes.length }
                 wire := s.wire ++ bytes }
  /-- A write fails. -/
  | failed {i : ℕ} {start : Start} {op : AsyncWrite} {s' : State}
      (hop : s.writes[i]? = some op)
      (hnext : onWritten T start { s with writes := s.writes.eraseIdx i } = some s') :
      Stepped T s (.completed i false start) s'
  /-- A header is through. -/
  | headerWritten {i : ℕ} {start : Start} {op : AsyncWrite} {s' : State} {returned : Bool}
      (hop : s.writes[i]? = some op) (hopen : s.closed = false) (hall : op.unsent = [])
      (hphase : op.phase = .header)
      (hwrite : asyncWrite op.frame .body start { s with writes := s.writes.eraseIdx i } =
        some (s', returned)) :
      Stepped T s (.completed i true start) s'
  /-- A body is through. -/
  | bodyWritten {i : ℕ} {start : Start} {op : AsyncWrite} {s' : State}
      (hop : s.writes[i]? = some op) (hopen : s.closed = false) (hall : op.unsent = [])
      (hphase : op.phase = .body)
      (hnext : onWritten T start
        { s with writes := s.writes.eraseIdx i, written := s.written ++ [op.frame] } = some s') :
      Stepped T s (.completed i true start) s'

theorem stepped_send {packet : Payload} {start : Start} {s s' : State}
    (h : send T packet start s = some s') : Stepped T s (.send packet start) s' := by
  unfold send at h
  cases hq : s.writeQueue with
  | nil =>
      simp only [hq, List.nil_append, Option.bind_eq_bind, Option.bind_eq_some_iff,
        Option.pure_def, Option.some.injEq, Prod.exists] at h
      obtain ⟨s₁, returned, hwrite, rfl⟩ := h
      exact .sentFirst hq hwrite
  | cons front rest =>
      have hne : s.writeQueue ≠ [] := by
        rw [hq]
        exact List.cons_ne_nil _ _
      have hlong : ∃ second tail, rest ++ [packet] = second :: tail := by
        cases rest <;> simp
      obtain ⟨second, tail, htail⟩ := hlong
      have hqueued : Stepped T s (.send packet start) _ := .queued hne
      rw [hq, List.cons_append, htail] at hqueued
      simp only [hq, List.cons_append, htail, Option.some.injEq] at h
      rw [← h]
      exact hqueued

theorem stepped_closeSocket {s : State} : Stepped T s .closeSocket (closeSocket s) := by
  unfold closeSocket
  by_cases hq : s.writeQueue = []
  · rw [if_pos hq]
    exact .closedNow hq
  · rw [if_neg hq]
    exact .shutdownAsked hq

theorem stepped_transfer {i : ℕ} {bytes : List UInt8} {s s' : State}
    (h : transfer i bytes s = some s') : Stepped T s (.transfer i bytes) s' := by
  unfold transfer at h
  cases hop : s.writes[i]? with
  | none => simp [hop] at h
  | some op =>
      simp only [hop] at h
      split at h
      · cases h
      · rename_i hpossible
        push Not at hpossible
        cases h
        exact .transferred hop (Bool.eq_false_iff.mpr hpossible.1) hpossible.2

theorem stepped_completed {i : ℕ} {ok : Bool} {start : Start} {s s' : State}
    (h : completed T i ok start s = some s') : Stepped T s (.completed i ok start) s' := by
  unfold completed at h
  cases hop : s.writes[i]? with
  | none => simp [hop] at h
  | some op =>
      simp only [hop] at h
      cases ok with
      | false => exact .failed hop h
      | true =>
          simp only at h
          split at h
          · cases h
          · rename_i hpossible
            push Not at hpossible
            have hopen : s.closed = false := Bool.eq_false_iff.mpr hpossible.1
            cases hphase : op.phase with
            | header =>
                simp only [hphase] at h
                obtain ⟨⟨s₁, returned⟩, hwrite, rfl⟩ := Option.map_eq_some_iff.mp h
                exact .headerWritten hop hopen hpossible.2 hphase hwrite
            | body =>
                simp only [hphase] at h
                exact .bodyWritten hop hopen hpossible.2 hphase h

/-- A step goes one of these ways. -/
theorem stepped_of_step {s s' : State} {e : Event} (h : step T s e = some s') :
    Stepped T s e s' := by
  cases e with
  | send packet start => exact stepped_send h
  | closeSocket =>
      cases h
      exact stepped_closeSocket
  | transfer i bytes => exact stepped_transfer h
  | completed i ok start => exact stepped_completed h

/-! ## Queues that nobody writes -/

/-- A packet is queued and no write is outstanding: nothing will be written any more. -/
def Stuck (s : State) : Prop := s.writes = [] ∧ s.writeQueue ≠ []

/-- No write is outstanding, or exactly one, which is one of the front's frame. -/
def Manned (T : SPTraits) (s : State) : Prop :=
  s.writes = [] ∨ ∃ front rest op, s.writeQueue = front :: rest ∧ s.writes = [op] ∧
    frame T front = some op.frame

/-- The write of a packet starts: `SPTraits::out` accepts its size and nothing throws. -/
def Starts (T : SPTraits) (packet : Payload) (start : Start) : Prop :=
  frame T packet ≠ none ∧ start ≠ .throws

/-- The step gets to start a write, and that throws. -/
def StartThrows (T : SPTraits) (s : State) : Event → Prop
  | .send packet start => s.writeQueue = [] ∧ ¬ Starts T packet start
  | .completed i ok start =>
      ∃ op, s.writes[i]? = some op ∧
        if ok = true ∧ op.phase = .header then start = .throws
        else ∃ next, s.writeQueue[1]? = some next ∧ ¬ Starts T next start
  | _ => False

/-- The outstanding write, when an index points to one. -/
theorem Manned.writes_getElem? {s : State} (hs : Manned T s) {i : ℕ} {op : AsyncWrite}
    (h : s.writes[i]? = some op) :
    s.writes = [op] ∧ i = 0 ∧ s.writes.eraseIdx i = [] ∧
      ∃ front rest, s.writeQueue = front :: rest ∧ frame T front = some op.frame := by
  rcases hs with hidle | ⟨front, rest, op', hq, hw, hf⟩
  · rw [hidle] at h
    cases h
  · rw [hw] at h ⊢
    cases i with
    | zero =>
        cases h
        exact ⟨rfl, rfl, rfl, front, rest, hq, hf⟩
    | succ i => cases h

/-- With an empty queue no write is outstanding. -/
theorem Manned.writes_of_queue_nil {s : State} (hs : Manned T s) (hq : s.writeQueue = []) :
    s.writes = [] := by
  rcases hs with hidle | ⟨front, rest, op, hq', -⟩
  · exact hidle
  · rw [hq] at hq'
    cases hq'

/-- The handler of `WriteAsync` for a frame that is through: the packet is popped, the
socket is closed if a shutdown was asked for, and the next packet is started. -/
theorem onWritten_eq {s : State} {front : Payload} {rest : List Payload} (start : Start)
    (hidle : s.writes = []) (hq : s.writeQueue = front :: rest) :
    onWritten T start s =
      match rest with
      | [] => some { s with writeQueue := [], closed := s.closed || s.shutdown }
      | next :: _ => (writeAsync T next start
          { s with writeQueue := rest, closed := s.closed || s.shutdown }).map Prod.fst := by
  have hpop : pop s = { s with writeQueue := rest } := by
    simp [pop, hq]
  unfold onWritten
  rw [hpop]
  cases hdown : s.shutdown <;> cases rest <;> simp [close, hidle]

/-- Without an outstanding write, `WriteAsync` of the front starts one or throws. -/
theorem writeAsync_front {front : Payload} {rest : List Payload} {start : Start} {s s' : State}
    {returned : Bool} (hidle : s.writes = []) (hq : s.writeQueue = front :: rest)
    (h : writeAsync T front start s = some (s', returned)) :
    Manned T s' ∧ (Stuck s' ↔ ¬ Starts T front start) := by
  rcases writeAsync_cases h with
    ⟨hfail, rfl, -⟩ | ⟨f, taken, hf, rfl, -, -, -, rfl⟩
  · have hnot : ¬ Starts T front start := by
      rintro ⟨hframe, hstart⟩
      exact hfail.elim hframe hstart
    have hstuck : Stuck s' := by
      refine ⟨hidle, ?_⟩
      rw [hq]
      exact List.cons_ne_nil _ _
    exact ⟨Or.inl hidle, iff_of_true hstuck hnot⟩
  · have hstarts : Starts T front (.starts taken) := by
      constructor
      · rw [hf]
        exact Option.some_ne_none f
      · exact fun h => by cases h
    refine ⟨Or.inr ⟨front, rest, { frame := f, phase := .header, taken := taken }, hq, ?_, hf⟩, ?_⟩
    · show s.writes ++ [_] = _
      rw [hidle]
      rfl
    · apply iff_of_false _ (not_not_intro hstarts)
      rintro ⟨hnil, -⟩
      simp at hnil

/-- The handler of `WriteAsync` starts the next packet or throws. -/
theorem onWritten_front {front : Payload} {rest : List Payload} {start : Start} {s s' : State}
    (hidle : s.writes = []) (hq : s.writeQueue = front :: rest)
    (h : onWritten T start s = some s') :
    Manned T s' ∧ (Stuck s' ↔ ∃ next, rest[0]? = some next ∧ ¬ Starts T next start) ∧
      (s'.writes = [] ↔ ∀ next, rest[0]? = some next → ¬ Starts T next start) := by
  rw [onWritten_eq start hidle hq] at h
  cases rest with
  | nil =>
      cases h
      refine ⟨Or.inl hidle, by simp [Stuck], ?_⟩
      simp [hidle]
  | cons next rest =>
      obtain ⟨⟨s₂, returned⟩, hwrite, hs'⟩ := Option.map_eq_some_iff.mp h
      cases hs'
      obtain ⟨hmanned, hstuck⟩ := writeAsync_front (s := { s with
        writeQueue := next :: rest, closed := s.closed || s.shutdown }) hidle rfl hwrite
      have hqueue : s₂.writeQueue = next :: rest := (writeAsync_kept hwrite).1
      have hwrites : s₂.writes = [] ↔ Stuck s₂ := by
        simp [Stuck, hqueue]
      refine ⟨hmanned, ?_, ?_⟩
      · rw [hstuck]
        simp
      · rw [hwrites, hstuck]
        simp

/-- A step leaves at most the one write, and leaves the queue without one exactly when it
found it so or a start throws. -/
theorem stuck_iff_of_step {s s' : State} {e : Event} (hs : Manned T s)
    (h : step T s e = some s') : Manned T s' ∧ (Stuck s' ↔ Stuck s ∨ StartThrows T s e) := by
  cases stepped_of_step h with
  | @sentFirst packet start s₁ returned hq hwrite =>
      obtain ⟨hmanned, hstuck⟩ := writeAsync_front
        (s := { s with writeQueue := [packet] }) (hs.writes_of_queue_nil hq) rfl hwrite
      have hsame : ∀ b : Bool, Manned T
          (if b then { s₁ with sent := s₁.sent ++ [packet] } else s₁) ∧
          (Stuck (if b then { s₁ with sent := s₁.sent ++ [packet] } else s₁) ↔ Stuck s₁) := by
        intro b
        cases b
        · exact ⟨hmanned, Iff.rfl⟩
        · exact ⟨hmanned, Iff.rfl⟩
      refine ⟨(hsame returned).1, ?_⟩
      rw [(hsame returned).2, hstuck]
      simp [Stuck, StartThrows, hq]
  | @queued packet start hq =>
      constructor
      · rcases hs with hidle | ⟨front, rest, op, hq', hw, hf⟩
        · exact Or.inl hidle
        · exact Or.inr ⟨front, rest ++ [packet], op, by simp [hq'], hw, hf⟩
      · simp [Stuck, StartThrows, hq]
  | closedNow hq => exact ⟨hs, by simp [Stuck, StartThrows, close]⟩
  | shutdownAsked hq => exact ⟨hs, by simp [Stuck, StartThrows]⟩
  | @transferred i bytes op hop hopen hfit =>
      obtain ⟨hw, rfl, -, front, rest, hq, hf⟩ := hs.writes_getElem? hop
      refine ⟨Or.inr ⟨front, rest, { op with taken := op.taken + bytes.length }, hq, ?_, hf⟩, ?_⟩
      · show s.writes.set 0 _ = _
        rw [hw]
        rfl
      · simp [Stuck, StartThrows, hw]
  | failed hop hnext =>
      obtain ⟨hw, rfl, herase, front, rest, hq, hf⟩ := hs.writes_getElem? hop
      rw [herase] at hnext
      obtain ⟨hmanned, hstuck, -⟩ := onWritten_front (s := { s with writes := [] }) rfl hq hnext
      refine ⟨hmanned, ?_⟩
      rw [hstuck]
      simp [Stuck, StartThrows, hw, hq]
  | headerWritten hop hopen hall hphase hwrite =>
      obtain ⟨hw, rfl, herase, front, rest, hq, hf⟩ := hs.writes_getElem? hop
      rw [herase] at hwrite
      rcases asyncWrite_cases hwrite with ⟨rfl, rfl, -⟩ | ⟨taken, rfl, -, -, -, rfl⟩
      · exact ⟨Or.inl rfl, by simp [Stuck, StartThrows, hw, hq, hphase]⟩
      · refine ⟨Or.inr ⟨front, rest, _, hq, rfl, hf⟩, ?_⟩
        simp [Stuck, StartThrows, hw, hphase]
  | bodyWritten hop hopen hall hphase hnext =>
      obtain ⟨hw, rfl, herase, front, rest, hq, hf⟩ := hs.writes_getElem? hop
      rw [herase] at hnext
      obtain ⟨hmanned, hstuck, -⟩ := onWritten_front
        (s := { s with writes := [], written := s.written ++ [_] }) rfl hq hnext
      refine ⟨hmanned, ?_⟩
      rw [hstuck]
      simp [Stuck, StartThrows, hw, hq, hphase]

end BacsEnv.Gspp
