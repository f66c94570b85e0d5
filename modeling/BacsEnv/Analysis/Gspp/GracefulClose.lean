import BacsEnv.Analysis.Gspp.WriteQueue

/-!
# What a graceful close loses

`CloseSocket` on a client with queued packets leaves the close to the completion handler
of `WriteAsync`. The handler closes the socket after the packet it completed, whatever
else is queued. So the packets sent before the close are all on the wire exactly when at
most one was still queued (and the buffers kept their bytes).
-/

set_option autoImplicit false

namespace BacsEnv.Gspp

open BacsEnv.Bacs BacsEnv.Transition

variable {T : SPTraits}

/-- The frames of some packets are on the wire, headers and bodies, before anything
else. -/
def OnWire (T : SPTraits) (packets : List Payload) (wire : List UInt8) : Prop :=
  ∃ bytes, frames T packets = some bytes ∧ bytes <+: wire

/-- A closed socket stays closed, and no write succeeds on it. -/
theorem step_of_closed {s s' : State} {e : Event} (hclosed : s.closed = true)
    (h : step T s e = some s') : s'.closed = true ∧ s'.written = s.written := by
  cases stepped_of_step h with
  | @sentFirst packet start s₁ returned hq hwrite =>
      obtain ⟨-, -, hc, hw, -⟩ := writeAsync_kept hwrite
      cases returned <;> exact ⟨hc.trans hclosed, hw⟩
  | queued hq => exact ⟨hclosed, rfl⟩
  | closedNow hq => exact ⟨rfl, rfl⟩
  | shutdownAsked hq => exact ⟨hclosed, rfl⟩
  | failed hop hnext =>
      obtain ⟨hc, -, hw, -⟩ := onWritten_kept hnext
      refine ⟨?_, hw⟩
      rw [hc]
      simp [hclosed]
  | transferred hop hopen hfit =>
      rw [hclosed] at hopen
      cases hopen
  | headerWritten hop hopen hall hphase hwrite =>
      rw [hclosed] at hopen
      cases hopen
  | bodyWritten hop hopen hall hphase hnext =>
      rw [hclosed] at hopen
      cases hopen

/-- A queue that is stuck on an open socket stays so. -/
theorem live_of_step (s : State) (e : Event) (s' : State) (h : step T s e = some s')
    (hlive : Live s') : Live s := by
  by_contra hdead
  unfold Live at hdead
  push Not at hdead
  obtain ⟨hopen, hidle, hne⟩ := hdead
  have hnone : ∀ (i : ℕ) (op : AsyncWrite), s.writes[i]? ≠ some op := by
    intro i op
    simp [hidle]
  have hstill : s'.closed = s.closed ∧ Stuck s' := by
    cases stepped_of_step h with
    | sentFirst hq hwrite => exact (hne hq).elim
    | queued hq => exact ⟨rfl, hidle, by simp⟩
    | closedNow hq => exact (hne hq).elim
    | shutdownAsked hq => exact ⟨rfl, hidle, hne⟩
    | transferred hop => exact (hnone _ _ hop).elim
    | failed hop => exact (hnone _ _ hop).elim
    | headerWritten hop => exact (hnone _ _ hop).elim
    | bodyWritten hop => exact (hnone _ _ hop).elim
  obtain ⟨hclosed, hstuck⟩ := hstill
  rcases hlive with hlive | hmoving
  · exact hopen (hclosed.symm.trans hlive)
  · exact hmoving hstuck

/-- A run that ends live has the right bytes on the wire exactly when the buffers kept
theirs. -/
theorem faithful_iff_buffersIntact {events : List Event} {s : State}
    (hrun : run (step T) init events = some s) (hreliable : Meets (step T) Reliable init events)
    (hlive : Live s) : Faithful s ↔ Meets (step T) BuffersIntact init events := by
  -- The client was live all along.
  obtain ⟨-, hlater⟩ := meets_of_end live_of_step hrun hlive
  have hend := end_iff_meets (P := Faithful) (D := BuffersIntact)
    (C := fun s e => Reliable s e ∧ ∀ s', step T s e = some s' → Live s')
    (fun s e s' hs hC h => inv_of_step s e s' hs hC.1 h)
    (fun s e s' hs hC h => (inv_step hs hC.1 h).faithful_iff (hC.2 s' h))
    hrun (meets_and hreliable hlater) (inv_init T)
  rw [hend]
  exact and_iff_right rfl

/-! ## From the call of `CloseSocket` to the close -/

/-- The client on its way from `CloseSocket`, with the frames `written` and the packets
`queue` at the call: either the socket is closed after the front of the queue, or the front
is still being written and the shutdown is asked for. -/
def Closing (T : SPTraits) (written : List Frame) (queue : List Payload) (s : State) : Prop :=
  (s.closed = true ∧
      s.written.map some = written.map some ++ (queue.take 1).map (frame T)) ∨
    (s.closed = false ∧ s.shutdown = true ∧ s.written = written ∧
      ∃ front rest later, queue = front :: rest ∧ s.writeQueue = front :: later)

theorem closing_closeSocket {s : State} (hopen : s.closed = false) :
    Closing T s.written s.writeQueue (closeSocket s) := by
  unfold closeSocket
  cases hq : s.writeQueue with
  | nil =>
      rw [if_pos rfl]
      exact Or.inl ⟨rfl, by simp [close]⟩
  | cons front rest =>
      rw [if_neg (List.cons_ne_nil _ _)]
      exact Or.inr ⟨hopen, rfl, rfl, front, rest, rest, rfl, rfl⟩

/-- The way to the close goes on with every step, and ends with the first frame. -/
theorem closing_step {written : List Frame} {queue : List Payload} {s s' : State} {e : Event}
    (hs : Inv T s) (hC : Reliable s e) (hclosing : Closing T written queue s)
    (h : step T s e = some s') : Closing T written queue s' := by
  rcases hclosing with ⟨hclosed, hall⟩ | ⟨hopen, hdown, hwritten, front, rest, later, hqueue, hq⟩
  · obtain ⟨hclosed', hwritten'⟩ := step_of_closed hclosed h
    exact Or.inl ⟨hclosed', by rw [hwritten']; exact hall⟩
  · have hne : s.writeQueue ≠ [] := by
      rw [hq]
      exact List.cons_ne_nil _ _
    cases stepped_of_step h with
    | sentFirst hnil hwrite => exact (hne hnil).elim
    | @queued packet start hq' =>
        have hlater : s.writeQueue ++ [packet] = front :: (later ++ [packet]) := by
          rw [hq, List.cons_append]
        exact Or.inr ⟨hopen, hdown, hwritten, front, rest, _, hqueue, hlater⟩
    | closedNow hnil => exact (hne hnil).elim
    | shutdownAsked hq' => exact Or.inr ⟨hopen, rfl, hwritten, front, rest, later, hqueue, hq⟩
    | transferred hop hopen' hfit =>
        exact Or.inr ⟨hopen, hdown, hwritten, front, rest, later, hqueue, hq⟩
    | failed hop hnext =>
        have hclosed : s.closed = true := hC
        rw [hopen] at hclosed
        cases hclosed
    | headerWritten hop hopen' hall hphase hwrite =>
        rcases asyncWrite_cases hwrite with ⟨-, rfl, -⟩ | ⟨taken, -, -, -, -, rfl⟩
        · exact Or.inr ⟨hopen, hdown, hwritten, front, rest, later, hqueue, hq⟩
        · exact Or.inr ⟨hopen, hdown, hwritten, front, rest, later, hqueue, hq⟩
    | bodyWritten hop hopen' hall hphase hnext =>
        obtain ⟨-, -, -, -, front', rest', hq', hf⟩ := hs.writes_getElem? hop
        rw [hq] at hq'
        obtain ⟨rfl, -⟩ := List.cons.inj hq'
        obtain ⟨hclosed', -, hwritten', -⟩ := onWritten_kept hnext
        refine Or.inl ⟨?_, ?_⟩
        · rw [hclosed']
          simp [hdown]
        · rw [hwritten', hqueue]
          simp [hwritten, hf]

/-- After the call and up to the close one more frame is written, if any packet was
queued. -/
theorem written_of_closed {events : List Event} {s₁ s₂ : State} (hs₁ : Inv T s₁)
    (hopen : s₁.closed = false) (hrun : run (step T) s₁ (.closeSocket :: events) = some s₂)
    (hreliable : Meets (step T) Reliable s₁ (.closeSocket :: events))
    (hclosed : s₂.closed = true) :
    s₂.written.map some = s₁.written.map some ++ (s₁.writeQueue.take 1).map (frame T) := by
  have hfirst : step T s₁ .closeSocket = some (closeSocket s₁) := rfl
  have hinv : Inv T (closeSocket s₁) := inv_of_step _ _ _ hs₁ hreliable.1 hfirst
  obtain ⟨s, hcall, hrest⟩ := run_cons_eq_some.mp hrun
  cases hcall
  have hboth := run_induction (I := fun s => Inv T s ∧ Closing T s₁.written s₁.writeQueue s)
    (fun s e s' hs hC h => ⟨inv_of_step s e s' hs.1 hC h, closing_step hs.1 hC hs.2 h⟩)
    hrest (hreliable.2 _ hfirst) ⟨hinv, closing_closeSocket hopen⟩
  rcases hboth.2 with ⟨-, hwritten⟩ | ⟨hstill, -⟩
  · exact hwritten
  · rw [hclosed] at hstill
    cases hstill

/-- The frames of a packet list that is longer than one packet do not fit in one frame. -/
theorem frames_too_long {written written' : List Frame} {queue : List Payload}
    {packets : List Payload} {bytes : List UInt8}
    (hsent : packets.map (frame T) = written.map some ++ queue.map (frame T))
    (hwritten : written'.map some = written.map some ++ (queue.take 1).map (frame T))
    (hframes : frames T packets = some bytes)
    (hle : bytes.length ≤ ((written'.map Frame.bytes).flatten).length) : queue.length ≤ 1 := by
  rcases queue with _ | ⟨front, _ | ⟨second, rest⟩⟩
  · exact Nat.zero_le _
  · exact le_rfl
  exfalso
  obtain ⟨fs, hfs, rfl⟩ := frames_eq_some_iff.mp hframes
  have hfirst : packets.map (frame T) =
      written'.map some ++ frame T second :: rest.map (frame T) := by
    rw [hsent, hwritten]
    simp
  rw [hfs] at hfirst
  obtain ⟨fs', later, rfl, hfs', hlater⟩ := List.map_eq_append_iff.mp hfirst
  obtain rfl := List.map_injective_iff.mpr (Option.some_injective _) hfs'
  obtain ⟨f, later, rfl, hf, -⟩ := List.map_eq_cons_iff.mp hlater
  have hheader := length_header hf.symm
  have hpos := T.width_pos
  simp only [List.map_append, List.map_cons, List.flatten_append, List.flatten_cons,
    List.length_append, Frame.bytes] at hle
  omega

/-- When `CloseSocket` has closed the socket, all packets whose `Send` returned before the
call are on the wire, if and only if at most one of them was still queued and every buffer
kept its bytes until the socket had taken them. -/
theorem onWire_iff_of_closed {before after : List Event} {s₁ s₂ : State}
    (hbefore : run (step T) init before = some s₁) (hopen : s₁.closed = false)
    (hafter : run (step T) s₁ (.closeSocket :: after) = some s₂) (hclosed : s₂.closed = true)
    (hreliable : Meets (step T) Reliable init (before ++ .closeSocket :: after)) :
    OnWire T s₁.sent s₂.wire ↔
      s₁.writeQueue.length ≤ 1 ∧
        Meets (step T) BuffersIntact init (before ++ .closeSocket :: after) := by
  obtain ⟨hrel₁, hrel₂⟩ := (meets_append hbefore).mp hreliable
  have hs₁ := inv_run hbefore hrel₁
  have hrun := run_append_eq_some.mpr ⟨s₁, hbefore, hafter⟩
  have hs₂ := inv_run hrun hreliable
  have hmoving : ¬ Stuck s₁ := by
    -- A client that is stuck on the open socket never closes it.
    obtain ⟨hlive, -⟩ := meets_of_end live_of_step hafter (Or.inl hclosed)
    rcases hlive with hc | hmoving
    · rw [hopen] at hc
      cases hc
    · exact hmoving
  have hsent := hs₁.balanced hopen hmoving
  unfold Balanced at hsent
  have hwritten := written_of_closed hs₁ hopen hafter hrel₂ hclosed
  have hfaithful := faithful_iff_buffersIntact hrun hreliable (Or.inl hclosed)
  have hlen := hs₂.length_wire (Or.inl hclosed)
  have hintended := hs₂.intended_of_closed hclosed
  rw [← hfaithful]
  constructor
  · rintro ⟨bytes, hframes, hwire⟩
    have hshort : s₁.writeQueue.length ≤ 1 := by
      apply frames_too_long hsent hwritten hframes
      rw [← hintended, ← hlen]
      exact hwire.length_le
    refine ⟨hshort, ?_⟩
    rw [List.take_of_length_le hshort, ← hsent] at hwritten
    have hall := frames_eq_some_iff.mpr ⟨s₂.written, hwritten.symm, rfl⟩
    rw [hframes] at hall
    cases hall
    rw [← hintended] at hwire
    exact (hwire.eq_of_length hlen.symm).symm
  · rintro ⟨hshort, hfaithful⟩
    rw [List.take_of_length_le hshort, ← hsent] at hwritten
    have hall := frames_eq_some_iff.mpr ⟨s₂.written, hwritten.symm, rfl⟩
    rw [← hintended] at hall
    exact ⟨_, hall, by rw [hfaithful]⟩

/-- The completions of the two writes of a frame, the body taken as soon as it is started. -/
def sampleCompletions : List Event :=
  [.completed 0 true (.starts 1), .completed 0 true (.starts 0)]

/-- One packet is sent and the client closed while its header is written. -/
theorem onWire_iff_of_one_packet :
    OnWire spDefault [[7]] [1, 0, 0, 0, 7] ↔
      [[7]].length ≤ 1 ∧ Meets (step spDefault) BuffersIntact init
        ([.send [7] (.starts 4)] ++ .closeSocket :: sampleCompletions) := by
  have hbefore : run (step spDefault) init [.send [7] (.starts 4)] = some
      { writeQueue := [[7]], writes := [⟨⟨[1, 0, 0, 0], [7]⟩, .header, 4⟩],
        wire := [1, 0, 0, 0], sent := [[7]] } := rfl
  have hafter : run (step spDefault)
      { writeQueue := [[7]], writes := [⟨⟨[1, 0, 0, 0], [7]⟩, .header, 4⟩],
        wire := [1, 0, 0, 0], sent := [[7]] } (.closeSocket :: sampleCompletions) = some
      { shutdown := true, closed := true, wire := [1, 0, 0, 0, 7], sent := [[7]],
        written := [⟨[1, 0, 0, 0], [7]⟩] } := rfl
  apply onWire_iff_of_closed hbefore rfl hafter rfl
  exact ⟨trivial, fun _ _ => ⟨trivial, fun _ _ => ⟨trivial, fun _ _ => ⟨trivial,
    fun _ _ => trivial⟩⟩⟩⟩

/-- Two packets are sent and the client closed: the second one is lost, with every write
on the open socket successful and all buffers intact. -/
theorem second_packet_lost :
    ∃ s₁ s₂ : State,
      run (step spDefault) init [.send [7] (.starts 4), .send [8] (.starts 4)] = some s₁ ∧
      s₁.closed = false ∧
      run (step spDefault) s₁ (.closeSocket :: sampleCompletions) = some s₂ ∧
      s₂.closed = true ∧
      Meets (step spDefault) (fun s e => Reliable s e ∧ BuffersIntact s e) init
        ([.send [7] (.starts 4), .send [8] (.starts 4)] ++ .closeSocket :: sampleCompletions) ∧
      s₁.sent = [[7], [8]] ∧ s₂.wire = [1, 0, 0, 0, 7] ∧ ¬ OnWire spDefault s₁.sent s₂.wire := by
  refine ⟨_, _, rfl, rfl, rfl, rfl, ?_, rfl, rfl, ?_⟩
  · exact ⟨⟨trivial, trivial⟩, fun _ _ => ⟨⟨trivial, trivial⟩, fun _ _ => ⟨⟨trivial, trivial⟩,
      fun _ _ => ⟨⟨trivial, trivial⟩, fun _ _ => ⟨⟨trivial, trivial⟩, fun _ _ => trivial⟩⟩⟩⟩⟩
  · rintro ⟨bytes, hbytes, hwire⟩
    obtain rfl : [1, 0, 0, 0, 7, 1, 0, 0, 0, 8] = bytes := Option.some.inj hbytes
    have hle := hwire.length_le
    revert hle
    decide

end BacsEnv.Gspp
