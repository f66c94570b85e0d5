import BacsEnv.Analysis.Gspp.StreamLink

/-!
# A connection delivers what was sent

Every packet that is sent takes a bounded number of steps of the connection: bytes that a
socket takes, completions of writes, arrivals and completions of reads. When none of these
steps is left, all packets that were written have been received, and on a socket that was
not closed these are all packets that were sent.
-/

set_option autoImplicit false

namespace BacsEnv.Gspp

open BacsEnv.Bacs BacsEnv.Transition

variable {T : SPTraits} {heap : Heap} {σ : Type} {handler : Handler σ}

/-! ## What is left to do for the sender -/

/-- The steps that an outstanding write still takes: two for each byte, which a socket
takes and which arrives, and one for each completion. -/
def AsyncWrite.owed (op : AsyncWrite) : ℕ :=
  match op.phase with
  | .header => 2 * (op.unsent.length + op.frame.body.length) + 2
  | .body => 2 * op.unsent.length + 1

/-- The steps that the frame of a packet takes. -/
def frameCost (T : SPTraits) (packet : Payload) : ℕ := 2 * (T.width + packet.length) + 2

/-- The steps that the queue of a client still takes. -/
def owed (T : SPTraits) (s : State) : ℕ :=
  (s.writes.map AsyncWrite.owed).sum + ((s.writeQueue.drop 1).map (frameCost T)).sum

theorem owed_of_idle {s : State} (h : s.writes = []) :
    owed T s = ((s.writeQueue.drop 1).map (frameCost T)).sum := by
  simp [owed, h]

theorem owed_of_single {s : State} {op : AsyncWrite} {front : Payload} {rest : List Payload}
    (hw : s.writes = [op]) (hq : s.writeQueue = front :: rest) :
    owed T s = op.owed + (rest.map (frameCost T)).sum := by
  simp [owed, hw, hq]

/-- Every outstanding write takes at least its completion. -/
theorem one_le_owed (op : AsyncWrite) : 1 ≤ op.owed := by
  unfold AsyncWrite.owed
  split <;> omega

/-- Bytes that are taken pay twice. -/
theorem owed_add (op : AsyncWrite) {n : ℕ} (h : n ≤ op.unsent.length) :
    ({ op with taken := op.taken + n } : AsyncWrite).owed + 2 * n = op.owed := by
  obtain ⟨f, phase, taken⟩ := op
  cases phase with
  | header =>
      simp only [AsyncWrite.owed, AsyncWrite.unsent, AsyncWrite.buffer, List.length_drop] at h ⊢
      omega
  | body =>
      simp only [AsyncWrite.owed, AsyncWrite.unsent, AsyncWrite.buffer, List.length_drop] at h ⊢
      omega

/-- The work that a step does. -/
def workOf : Gspp.Event → ℕ
  | .transfer _ bytes => min bytes.length 1
  | .completed _ _ _ => 1
  | _ => 0

/-- The work that a step asks for. -/
def askedBy (T : SPTraits) : Gspp.Event → ℕ
  | .send packet _ => frameCost T packet
  | _ => 0

/-- Starting the header of a frame pays for the bytes that are taken at once. -/
theorem owed_of_writeAsync {data : Payload} {start : Start} {s s' : State} {returned : Bool}
    {rest : List Payload} (hidle : s.writes = []) (hq : s.writeQueue = data :: rest)
    (h : writeAsync T data start s = some (s', returned)) :
    owed T s' + s'.wire.length ≤ frameCost T data + (rest.map (frameCost T)).sum +
      s.wire.length := by
  rcases writeAsync_cases h with ⟨-, rfl, -⟩ | ⟨f, taken, hf, -, hle, -, -, rfl⟩
  · rw [owed_of_idle hidle, hq, List.drop_one, List.tail_cons]
    omega
  · have hwidth := length_header hf
    have howed := owed_of_single (T := T) (s := { s with
      writes := s.writes ++ [{ frame := f, phase := .header, taken := taken }]
      wire := s.wire ++ f.header.take taken }) (by rw [hidle]; rfl) hq
    rw [howed]
    simp only [AsyncWrite.owed, AsyncWrite.unsent, AsyncWrite.buffer, frameCost,
      List.length_append, List.length_take, List.length_drop, body_eq hf]
    omega

/-- So does the handler of `WriteAsync`. -/
theorem owed_of_onWritten {start : Start} {s s' : State} {front : Payload} {rest : List Payload}
    (hidle : s.writes = []) (hq : s.writeQueue = front :: rest)
    (h : onWritten T start s = some s') :
    owed T s' + s'.wire.length ≤ (rest.map (frameCost T)).sum + s.wire.length := by
  rw [onWritten_eq start hidle hq] at h
  cases rest with
  | nil =>
      cases h
      simp [owed, hidle]
  | cons next rest =>
      obtain ⟨⟨s₁, returned⟩, hwrite, rfl⟩ := Option.map_eq_some_iff.mp h
      have hstarted := owed_of_writeAsync (s := { s with
        writeQueue := next :: rest, closed := s.closed || s.shutdown }) hidle rfl hwrite
      rw [List.map_cons, List.sum_cons]
      exact hstarted

/-- A step takes off what it works, and adds what it asks for. The bytes on the wire still
have to arrive. -/
theorem owed_of_step {s s' : State} {e : Gspp.Event} (hs : Manned T s)
    (h : Gspp.step T s e = some s') :
    owed T s' + s'.wire.length + workOf e ≤ owed T s + s.wire.length + askedBy T e := by
  cases stepped_of_step h with
  | @sentFirst packet start s₁ returned hq hwrite =>
      have hidle := hs.writes_of_queue_nil hq
      have hstarted := owed_of_writeAsync (s := { s with writeQueue := [packet] }) hidle rfl hwrite
      have hsame : owed T (if returned then { s₁ with sent := s₁.sent ++ [packet] } else s₁) =
          owed T s₁ ∧ (if returned then { s₁ with sent := s₁.sent ++ [packet] } else s₁).wire =
            s₁.wire := by
        cases returned <;> exact ⟨rfl, rfl⟩
      rw [hsame.1, hsame.2]
      simp only [List.map_nil, List.sum_nil, workOf, askedBy] at hstarted ⊢
      omega
  | @queued packet start hq =>
      obtain ⟨front, rest, hcons⟩ := List.exists_cons_of_ne_nil hq
      simp only [owed, hcons, workOf, askedBy, List.cons_append, List.drop_one, List.tail_cons,
        List.map_append, List.sum_append, List.map_cons, List.map_nil, List.sum_cons, List.sum_nil]
      omega
  | closedNow hq => exact le_refl _
  | shutdownAsked hq => exact le_refl _
  | @transferred i bytes op hop hopen hfit =>
      obtain ⟨hw, rfl, -, front, rest, hq, hf⟩ := hs.writes_getElem? hop
      rw [owed_of_single hw hq, owed_of_single (s := { s with
        writes := s.writes.set 0 { op with taken := op.taken + bytes.length }
        wire := s.wire ++ bytes }) (by rw [hw]; rfl) hq]
      have hpaid := owed_add op hfit
      simp only [workOf, askedBy, List.length_append]
      omega
  | @failed i start op s' hop hnext =>
      obtain ⟨hw, rfl, herase, front, rest, hq, hf⟩ := hs.writes_getElem? hop
      rw [herase] at hnext
      have hpaid := owed_of_onWritten (s := { s with writes := [] }) rfl hq hnext
      have hone := one_le_owed op
      rw [owed_of_single hw hq]
      simp only [workOf, askedBy] at hpaid ⊢
      omega
  | @headerWritten i start op s' returned hop hopen hall hphase hwrite =>
      obtain ⟨hw, rfl, herase, front, rest, hq, hf⟩ := hs.writes_getElem? hop
      rw [herase] at hwrite
      rw [owed_of_single hw hq]
      rcases asyncWrite_cases hwrite with ⟨-, rfl, -⟩ | ⟨taken, -, hle, -, -, rfl⟩
      · rw [owed_of_idle rfl]
        simp only [AsyncWrite.owed, hphase, hall, workOf, askedBy, hq, List.drop_one,
          List.tail_cons, List.length_nil]
        omega
      · rw [owed_of_single (s := { s with
            writes := [] ++ [{ frame := op.frame, phase := .body, taken := taken }], wire := _ })
          rfl hq]
        simp only [AsyncWrite.owed, AsyncWrite.unsent, AsyncWrite.buffer, hphase, workOf, askedBy,
          List.length_append, List.length_take, List.length_drop] at hle ⊢
        omega
  | @bodyWritten i start op s' hop hopen hall hphase hnext =>
      obtain ⟨hw, rfl, herase, front, rest, hq, hf⟩ := hs.writes_getElem? hop
      rw [herase] at hnext
      have hpaid := owed_of_onWritten
        (s := { s with writes := [], written := s.written ++ [op.frame] }) rfl hq hnext
      have hone := one_le_owed op
      rw [owed_of_single hw hq]
      simp only [workOf, askedBy] at hpaid ⊢
      omega

namespace Link

/-! ## What is left to do for a connection -/

/-- The work that a step of a connection does. -/
def work : Event → ℕ
  | .sender e => workOf e
  | .arrive n => min n 1
  | .read => 1
  | .fail => 0

/-- The work that a step of a connection asks for: its header and its body are read too. -/
def asked (T : SPTraits) : Event → ℕ
  | .sender (.send packet _) => frameCost T packet + 2
  | _ => 0

/-- The completions that the reader still sees. -/
def unread (l : Link σ) : ℕ :=
  2 * (l.sender.sent.length - l.received.length) + if l.reader.reading = .header then 1 else 0

/-- The steps that a connection still takes. -/
def pending (T : SPTraits) (l : Link σ) : ℕ :=
  owed T l.sender + (l.sender.wire.length - l.arrived) + l.unread

/-- The sender's writes are undisturbed, and no read error comes. -/
def Unbroken (T : SPTraits) (l : Link σ) (e : Event) : Prop := Orderly T l e ∧ e ≠ .fail

/-- The invariant of a connection that no read error came to. -/
def OpenInv (T : SPTraits) (l : Link σ) : Prop := Inv T l ∧ l.ended = false

section Steps

variable (hsizes : SizesAgree T) (hheap : ∀ position size, heap.allocates position size = true)

include hsizes hheap

theorem openInv_of_step (l : Link σ) (e : Event) (l' : Link σ) (hl : OpenInv T l)
    (hC : Unbroken T l e) (h : step T heap handler l e = some l') : OpenInv T l' := by
  refine ⟨(inv_moves_of_step hsizes hheap hl.1 hC.1 h).1, ?_⟩
  cases e with
  | sender e =>
      obtain ⟨s, -, rfl⟩ := Option.map_eq_some_iff.mp h
      exact hl.2
  | arrive n =>
      simp only [step, arrive] at h
      split at h
      · cases h
      · cases h
        exact hl.2
  | fail => exact (hC.2 rfl).elim
  | read =>
      obtain ⟨r', -, rfl⟩ := Option.map_eq_some_iff.mp h
      exact hl.2

/-- A read that completes brings the reader on. -/
theorem unread_of_read {l : Link σ} (hl : OpenInv T l) {r' : Reader σ}
    (h : Completed T heap handler l.incoming l.reader r') :
    unread { l with reader := r' } + 1 ≤ l.unread := by
  obtain ⟨hl, hopen⟩ := hl
  have hnext := (hl.read hsizes hheap h).1.received_isPrefix.length_le
  have hended : l.incoming.ended = false := hopen
  cases h with
  | headerCut hr hcut hcut' =>
      rw [hended] at hcut'
      cases hcut'
  | rejected hr hat hreject =>
      -- Only a reader that is over could meet such a header.
      cases hl.inSync with
      | atFrame hreading hframes hposition hover =>
          obtain ⟨p, rest, -, haccept⟩ := hl.header_accepted hsizes hheap hframes hposition hat
          rw [hreject] at haccept
          cases haccept
      | atBody hreading => simp [hreading] at hr
      | stopped hreading => simp [hreading] at hr
      | cutOff hreading hended' => simp [hopen] at hended'
  | headerRead hr hat haccept =>
      show 2 * (l.sender.sent.length - l.received.length) + 0 + 1 ≤ l.unread
      unfold unread
      rw [if_pos hr]
  | bodyCut hr hcut hcut' =>
      rw [hended] at hcut'
      cases hcut'
  | @bodyRead size hr hle =>
      have hgot : received
          { l with
            reader := l.reader.handOn handler
              { failed := false, bytesRead := size,
                buffer := (l.incoming.rest l.reader.position).take size }
              (l.reader.position + size) } =
          l.received ++ [(l.incoming.rest l.reader.position).take size] :=
        received_handOn_of_ok rfl
      rw [hgot, List.length_append, List.length_singleton] at hnext
      have hroom : l.received.length + 1 ≤ l.sender.sent.length := hnext
      unfold unread
      rw [hgot, List.length_append, List.length_singleton, hr]
      show 2 * (l.sender.sent.length - (l.received.length + 1)) + _ + 1 ≤
        2 * (l.sender.sent.length - l.received.length) + 0
      split
      · omega
      · omega

/-- A step takes off what it works, and adds what it asks for. -/
theorem pending_of_step (l : Link σ) (e : Event) (l' : Link σ) (hl : OpenInv T l)
    (hC : Unbroken T l e) (h : step T heap handler l e = some l') :
    pending T l' + work e ≤ pending T l + asked T e := by
  have hl' := (openInv_of_step hsizes hheap l e l' hl hC h).1
  cases e with
  | sender e =>
      obtain ⟨s, hs, rfl⟩ := Option.map_eq_some_iff.mp h
      have howed := owed_of_step hl.1.sender.manned hs
      have harrived := hl.1.arrived_le
      have hwire := (grows_of_step hs).1.length_le
      have hreceived := hl.1.received_isPrefix.length_le
      have hsame : received { l with sender := s } = l.received := rfl
      rcases (grows_of_step hs).2 with hsent | ⟨packet, start, rfl, hsent⟩
      · have hasked : askedBy T e ≤ asked T (.sender e) := by
          cases e with
          | send packet start => exact Nat.le_add_right _ _
          | _ => exact le_refl _
        simp only [pending, unread, work, hsent, hsame] at howed ⊢
        omega
      · simp only [pending, unread, work, workOf, askedBy, asked, hsent, hsame, List.length_append,
          List.length_singleton] at howed ⊢
        omega
  | arrive n =>
      simp only [step, arrive] at h
      split at h
      · cases h
      · rename_i hpossible
        push Not at hpossible
        cases h
        have hle := hpossible.2
        show owed T l.sender + (l.sender.wire.length - (l.arrived + n)) + l.unread + min n 1 ≤
          pending T l + 0
        unfold pending
        omega
  | fail => exact (hC.2 rfl).elim
  | read =>
      obtain ⟨r', hr', rfl⟩ := Option.map_eq_some_iff.mp h
      have hread := unread_of_read hsizes hheap hl (complete_eq_some_iff.mp hr')
      show owed T l.sender + (l.sender.wire.length - l.arrived) +
        unread { l with reader := r' } + 1 ≤ pending T l + 0
      unfold pending
      omega

end Steps

/-! ## Nothing is left to do -/

/-- None of the steps that do work is possible any more. -/
def Quiescent (T : SPTraits) (heap : Heap) (handler : Handler σ) (l : Link σ) : Prop :=
  ∀ e, Unbroken T l e → 0 < work e → step T heap handler l e = none

/-- The handler of `WriteAsync` can always go on to the next packet. -/
theorem isSome_onWritten {s : State} {front : Payload} {rest : List Payload}
    (hidle : s.writes = []) (hq : s.writeQueue = front :: rest) :
    (onWritten T (.starts 0) s).isSome := by
  rw [onWritten_eq (.starts 0) hidle hq]
  cases rest with
  | nil => rfl
  | cons next rest =>
      cases hframe : frame T next with
      | none => simp [writeAsync, hframe]
      | some f => simp [writeAsync, asyncWrite, hframe]

/-- An outstanding write has a step that does work. -/
theorem exists_work_of_write {s : State} (hs : Gspp.Inv T s) {op : AsyncWrite}
    (hw : s.writes = [op]) :
    ∃ e, Reliable s e ∧ Undisturbed s e ∧ 0 < workOf e ∧ (Gspp.step T s e).isSome := by
  have hget : s.writes[0]? = some op := by
    rw [hw]
    rfl
  obtain ⟨-, -, herase, -, front, rest, hq, -⟩ := hs.writes_getElem? hget
  by_cases hclosed : s.closed = true
  · -- On a closed socket the write fails.
    refine ⟨.completed 0 false (.starts 0), hclosed, undisturbed_completed s 0 0 false,
      Nat.one_pos, ?_⟩
    have hnext := isSome_onWritten (T := T) (s := { s with writes := s.writes.eraseIdx 0 })
      herase hq
    simpa [Gspp.step, completed, hget] using hnext
  · have hopen : s.closed = false := Bool.eq_false_iff.mpr hclosed
    by_cases hall : op.unsent = []
    · -- All its bytes are taken, so it completes.
      refine ⟨.completed 0 true (.starts 0), trivial, undisturbed_completed s 0 0 true,
        Nat.one_pos, ?_⟩
      cases hphase : op.phase with
      | header => simp [Gspp.step, completed, hget, hopen, hall, hphase, asyncWrite]
      | body =>
          have hnext := isSome_onWritten (T := T) (s := { s with
            writes := s.writes.eraseIdx 0
            written := s.written ++ [op.frame] }) herase hq
          simpa [Gspp.step, completed, hget, hopen, hall, hphase] using hnext
    · -- The socket takes what is left of it.
      have hpos : 0 < op.unsent.length := List.length_pos_of_ne_nil hall
      refine ⟨.transfer 0 op.unsent, trivial, ⟨?_, by simp [startUsed]⟩, ?_, ?_⟩
      · intro op' hop'
        obtain rfl : op = op' := Option.some.inj (hget.symm.trans hop')
        rw [List.take_length]
      · show 0 < min op.unsent.length 1
        omega
      · simp [Gspp.step, transfer, hget, hopen]

section Quiet

variable {l : Link σ} (hquiet : Quiescent T heap handler l)

include hquiet

/-- Nothing is written on a quiescent connection. -/
theorem Quiescent.writes_eq (hl : Gspp.Inv T l.sender) : l.sender.writes = [] := by
  rcases hl.writes_cases with hidle | ⟨front, rest, op, hq, hw, hf, hle⟩
  · exact hidle
  · obtain ⟨e, hreliable, hundisturbed, hwork, hsome⟩ := exists_work_of_write hl hw
    have hfit : Fits T e := by
      cases e with
      | send packet start => simp [workOf] at hwork
      | _ => trivial
    have hnone := hquiet (.sender e) ⟨⟨hreliable, hundisturbed, hfit⟩, by simp⟩ hwork
    simp only [step, Option.map_eq_none_iff] at hnone
    rw [hnone] at hsome
    cases hsome

/-- Everything has arrived. -/
theorem Quiescent.arrived_eq (hopen : l.ended = false) (hle : l.arrived ≤ l.sender.wire.length) :
    l.arrived = l.sender.wire.length := by
  by_contra hne
  have hnone := hquiet (.arrive 1) ⟨trivial, by simp⟩ Nat.one_pos
  have hlt : ¬ l.sender.wire.length < l.arrived + 1 := by omega
  simp [step, arrive, hopen, hlt] at hnone

/-- No read can complete. -/
theorem Quiescent.not_completed {r' : Reader σ} :
    ¬ Completed T heap handler l.incoming l.reader r' := by
  intro h
  have hnone := hquiet .read ⟨trivial, by simp⟩ Nat.one_pos
  simp only [step, Option.map_eq_none_iff] at hnone
  have hsome := complete_eq_some_iff.mpr h
  rw [hnone] at hsome
  cases hsome

end Quiet

/-- The frames of fewer payloads are shorter. -/
theorem length_frames_lt {first later : List Payload} {b₁ b₂ : List UInt8}
    (hfirst : frames T first = some b₁) (hall : frames T (first ++ later) = some b₂)
    (hne : later ≠ []) : b₁.length < b₂.length := by
  obtain ⟨p, rest, rfl⟩ := List.exists_cons_of_ne_nil hne
  obtain ⟨b₁', b₃, hfirst', hlater, rfl⟩ := frames_append.mp hall
  obtain rfl := Option.some.inj (hfirst.symm.trans hfirst')
  obtain ⟨f, b₄, hf, -, rfl⟩ := frames_cons.mp hlater
  have hwidth := length_header hf
  have hpos := T.width_pos
  rw [List.length_append, List.length_append]
  omega

/-- When no header fits behind the frames that were read, these are all that were written. -/
theorem eq_of_no_header {sent received written : List Payload} {bytes wire : List UInt8}
    (hreceived : received <+: sent) (hwritten : written <+: sent)
    (hframes : frames T received = some bytes) (hwire : frames T written = some wire)
    (hle : bytes.length ≤ wire.length) (hshort : wire.length < bytes.length + T.width) :
    received = written := by
  rcases List.prefix_or_prefix_of_prefix hreceived hwritten with ⟨more, rfl⟩ | ⟨more, rfl⟩
  · -- A packet that was written and not received would have a header there.
    cases more with
    | nil => rw [List.append_nil]
    | cons p more =>
        obtain ⟨b₁, b₂, hframes', hnext, rfl⟩ := frames_append.mp hwire
        obtain rfl := Option.some.inj (hframes.symm.trans hframes')
        obtain ⟨f, b₃, hf, -, rfl⟩ := frames_cons.mp hnext
        have hwidth := length_header hf
        simp only [List.length_append] at hshort
        omega
  · -- A packet that was received and not written would not be on the wire.
    by_cases hne : more = []
    · rw [hne, List.append_nil]
    · have hlt := length_frames_lt hwire hframes hne
      omega

/-- Where a header fits behind the frames that were read, the body of its packet does. -/
theorem body_fits {sent received written : List Payload} {p : Payload} {bytes wire : List UInt8}
    (hnext : received ++ [p] <+: sent) (hwritten : written <+: sent)
    (hframes : frames T received = some bytes) (hwire : frames T written = some wire)
    (hheader : bytes.length + T.width ≤ wire.length) :
    bytes.length + T.width + p.length ≤ wire.length := by
  have hreceived : received <+: sent := (List.prefix_append received [p]).trans hnext
  by_cases hfew : written.length ≤ received.length
  · -- The header would not be there.
    have hpos := T.width_pos
    obtain ⟨more, rfl⟩ := List.prefix_of_prefix_length_le hwritten hreceived hfew
    obtain ⟨b₁, b₂, hframes', -, rfl⟩ := frames_append.mp hframes
    obtain rfl := Option.some.inj (hwire.symm.trans hframes')
    rw [List.length_append] at hheader
    omega
  · have hlonger : (received ++ [p]).length ≤ written.length := by
      rw [List.length_append, List.length_singleton]
      omega
    obtain ⟨more, rfl⟩ := List.prefix_of_prefix_length_le hnext hwritten hlonger
    rw [List.append_assoc] at hwire
    obtain ⟨b₁, b₂, hframes', hlater, rfl⟩ := frames_append.mp hwire
    obtain rfl := Option.some.inj (hframes.symm.trans hframes')
    obtain ⟨f, b₃, hf, -, rfl⟩ := frames_cons.mp hlater
    have hwidth := length_header hf
    simp only [List.length_append, hwidth]
    omega

/-- When a connection has come to rest with its reader still asking, what has been written
has been received. -/
theorem received_of_quiescent (hsizes : SizesAgree T)
    (hheap : ∀ position size, heap.allocates position size = true) {l : Link σ}
    (hl : OpenInv T l) (hasking : l.reader.reading ≠ .nothing)
    (hquiet : Quiescent T heap handler l) :
    l.received = l.sender.sent.take l.sender.written.length ∧
      (l.sender.closed = false → l.received = l.sender.sent) := by
  obtain ⟨hl, hopen⟩ := hl
  have hended : l.incoming.ended = false := hopen
  have hidle := hquiet.writes_eq hl.sender
  have harrived := hquiet.arrived_eq hopen hl.arrived_le
  obtain ⟨hfaithful, hmoving⟩ := (hl.sender.wellOrdered_iff (sizeOut_isSome hsizes)).mp hl.ordered
  -- The wire holds the frames of the packets written, and nothing else.
  have hwire : frames T (l.sender.sent.take l.sender.written.length) = some l.sender.wire := by
    unfold Faithful at hfaithful
    rw [hfaithful, intended_of_idle hidle]
    exact hl.sender.frames_take
  have hreceived : l.received = l.sender.sent.take l.sender.written.length := by
    have hshort := List.take_prefix l.sender.written.length l.sender.sent
    have hlen : (l.incoming.rest l.reader.position).length =
        l.sender.wire.length - l.reader.position := by
      rw [hl.length_rest, harrived]
    cases hl.inSync with
    | stopped hreading => exact (hasking hreading).elim
    | cutOff hreading hended' => simp [hopen] at hended'
    | atFrame hreading hframes hposition hle =>
        have hnone : ¬ HeaderAt T l.incoming l.reader.position := by
          intro hat
          obtain ⟨p, rest, -, haccept⟩ :=
            hl.header_accepted hsizes hheap hframes hposition hat
          exact hquiet.not_completed (.headerRead hreading hat haccept)
        unfold HeaderAt at hnone
        rw [hlen, hposition] at hnone
        exact eq_of_no_header hl.received_isPrefix hshort hframes hwire (by omega) (by omega)
    | @atBody bytes p hreading hframes hposition hle hnext =>
        have hnone : ¬ p.length ≤ (l.incoming.rest l.reader.position).length := by
          intro hfit
          exact hquiet.not_completed (.bodyRead hreading hfit)
        have hfits := body_fits hnext hshort hframes hwire (by omega)
        rw [hlen, hposition] at hnone
        omega
  refine ⟨hreceived, ?_⟩
  intro hclosed
  have hqueue : l.sender.writeQueue = [] := by
    by_contra hne
    exact hmoving ⟨hidle, hne⟩
  have hbal := hl.sender.balanced hclosed hmoving
  unfold Balanced at hbal
  have hlen := congrArg List.length hbal
  rw [hqueue] at hlen
  simp only [List.length_map, List.length_append, List.map_nil, List.length_nil] at hlen
  rw [hreceived]
  exact List.take_of_length_le (by omega)

/-- Every run without a read error does no more work than its packets ask for. When no work
is left and the handler still asks for more, exactly the packets that were written have been
received, and all that were sent if the socket is open. -/
theorem delivers_in_bounded_work (hsizes : SizesAgree T)
    (hheap : ∀ position size, heap.allocates position size = true) (state : σ)
    {events : List Event} {l : Link σ}
    (hrun : run (step T heap handler) (opened state) events = some l)
    (hunbroken : Meets (step T heap handler) (Unbroken T) (opened state) events) :
    (events.map work).sum ≤ 1 + (events.map (asked T)).sum ∧
    (l.reader.reading ≠ .nothing → Quiescent T heap handler l →
      l.received = l.sender.sent.take l.sender.written.length ∧
        (l.sender.closed = false → l.received = l.sender.sent)) := by
  have hstart : OpenInv T (opened state : Link σ) := ⟨inv_opened hsizes state, rfl⟩
  constructor
  · have hcost := run_cost_le (openInv_of_step hsizes hheap) (pending_of_step hsizes hheap) hrun
      hunbroken hstart
    have hfirst : pending T (opened state : Link σ) = 1 := rfl
    omega
  · intro hasking hquiet
    have hl := run_induction (openInv_of_step hsizes hheap) hrun hunbroken hstart
    exact received_of_quiescent hsizes hheap hl hasking hquiet

/-- The connection on which a packet of one byte was sent and received. -/
def oneReceived : Link Unit :=
  { sender := { wire := [1, 0, 0, 0, 7], sent := [[7]], written := [⟨[1, 0, 0, 0], [7]⟩] }
    arrived := 5
    ended := false
    reader :=
      { position := 5
        state := ()
        calls := [{ failed := false, bytesRead := 1, buffer := [7] }] } }

theorem quiescent_oneReceived :
    Quiescent spDefault Heap.ample (fun _ s => (true, s)) oneReceived := by
  intro e _ hwork
  cases e with
  | sender e =>
      cases e with
      | send packet start => simp [work, workOf] at hwork
      | closeSocket => simp [work, workOf] at hwork
      | transfer i bytes => rfl
      | completed i ok start => rfl
  | arrive n =>
      have hpos : 0 < n := by
        simp only [work] at hwork
        omega
      have hlong : 5 < 5 + n := by omega
      simp [step, arrive, oneReceived, hlong]
  | fail => simp [work] at hwork
  | read => rfl

/-- Five steps do work for a packet of one byte. -/
theorem delivers_in_bounded_work_one_packet :
    5 ≤ 1 + (asked spDefault (.sender (.send [7] (.starts 4))) + 0) ∧
      oneReceived.received = oneReceived.sender.sent := by
  have hdone : ∀ (l : Link Unit) (k : ℕ),
      Unbroken spDefault l (.sender (.completed 0 true (.starts k))) :=
    fun l k => ⟨⟨trivial, undisturbed_completed _ _ _ _, trivial⟩, by simp⟩
  have hsend : ∀ (l : Link Unit), Unbroken spDefault l (.sender (.send [7] (.starts 4))) :=
    fun l => ⟨⟨trivial, undisturbed_send _ _ _, (by decide : 1 < 256 ^ 4)⟩, by simp⟩
  have hread : ∀ (l : Link Unit), Unbroken spDefault l .read := fun l => ⟨trivial, by simp⟩
  have hrun : run (step spDefault Heap.ample fun _ s => (true, s)) (opened ())
      [.sender (.send [7] (.starts 4)), .sender (.completed 0 true (.starts 1)),
        .sender (.completed 0 true (.starts 0)), .arrive 5, .read, .read] = some oneReceived := rfl
  have h := delivers_in_bounded_work (fun _ => rfl) (fun _ _ => rfl) () hrun
    ⟨hsend _, fun _ _ => ⟨hdone _ _, fun _ _ => ⟨hdone _ _, fun _ _ => ⟨⟨trivial, by simp⟩,
      fun _ _ => ⟨hread _, fun _ _ => ⟨hread _, fun _ _ => trivial⟩⟩⟩⟩⟩⟩
  obtain ⟨hreceived, hopen⟩ := h.2 (by decide) quiescent_oneReceived
  exact ⟨h.1, hopen rfl⟩

end Link

end BacsEnv.Gspp
