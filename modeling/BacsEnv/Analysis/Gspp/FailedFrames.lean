import BacsEnv.Analysis.Gspp.WriteOrder
import BacsEnv.Analysis.Gspp.ThrowingSends

/-!
# Frames behind a failed frame

The completion handler of `WriteAsync` does not look at its `error_code`: whether the
frame went through or broke off, the packet is popped and the next one is started, on a
socket that may still be open. Whether the peer meets a size header in the middle of
another frame therefore rests on what is queued when a write fails and on what is sent
afterwards.
-/

set_option autoImplicit false

namespace BacsEnv.Gspp

open BacsEnv.Bacs BacsEnv.Transition

variable {T : SPTraits}

/-- A write completes with an error. -/
def Fails : Event → Prop
  | .completed _ false _ => True
  | _ => False

/-- Nothing is being written. -/
def Silent (s : State) : Prop := s.writes = []

/-- The wire is a prefix of the frames in the order of the `Send` calls. -/
def WirePrefix (T : SPTraits) (s : State) : Prop :=
  ∃ packets bytes, packets <+: s.sent ∧ frames T packets = some bytes ∧ s.wire <+: bytes

/-- If the step is a failed completion, no packet is queued behind the one that failed, or
the start of its write throws. -/
def QuietFailure (T : SPTraits) (s : State) : Event → Prop
  | .completed _ false start => ∀ next, s.writeQueue[1]? = some next → ¬ Starts T next start
  | _ => True

/-- If the step is a `Send`, its packet is queued behind another one, or the start of its
write throws. -/
def QuietSend (T : SPTraits) (s : State) : Event → Prop
  | .send packet start => s.writeQueue = [] → ¬ Starts T packet start
  | _ => True

/-- What is asked of a step that may fail is met by one that does not. -/
theorem of_not_fails {s : State} {e : Event} (h : ¬ Fails e) :
    QuietFailure T s e ∧ Reliable s e := by
  cases e with
  | completed i ok start =>
      cases ok with
      | false => exact absurd trivial h
      | true => exact ⟨trivial, trivial⟩
  | send packet start => exact ⟨trivial, trivial⟩
  | closeSocket => exact ⟨trivial, trivial⟩
  | transfer i bytes => exact ⟨trivial, trivial⟩

/-! ## What a step leaves alone -/

theorem asyncWrite_sent {f : Frame} {phase : Phase} {start : Start} {s s' : State}
    {returned : Bool} (h : asyncWrite f phase start s = some (s', returned)) :
    s'.sent = s.sent ∧ s'.closed = s.closed ∧ s'.shutdown = s.shutdown := by
  rcases asyncWrite_cases h with ⟨-, rfl, -⟩ | ⟨taken, -, -, -, -, rfl⟩
  · exact ⟨rfl, rfl, rfl⟩
  · exact ⟨rfl, rfl, rfl⟩

/-- Packets that were sent stay sent. -/
theorem sent_prefix_of_step {s s' : State} {e : Event} (h : step T s e = some s') :
    s.sent <+: s'.sent := by
  cases stepped_of_step h with
  | @sentFirst packet start s₁ returned hq hwrite =>
      obtain ⟨-, -, -, -, hsent⟩ := writeAsync_kept hwrite
      have hsame : s₁.sent = s.sent := hsent
      cases returned with
      | false =>
          show s.sent <+: s₁.sent
          rw [hsame]
      | true =>
          show s.sent <+: s₁.sent ++ [packet]
          rw [hsame]
          exact List.prefix_append _ _
  | queued hq => exact List.prefix_append _ _
  | closedNow hq => exact List.prefix_refl _
  | shutdownAsked hq => exact List.prefix_refl _
  | transferred hop hopen hfit => exact List.prefix_refl _
  | failed hop hnext => rw [(onWritten_kept hnext).2.2.2]
  | headerWritten hop hopen hall hphase hwrite => rw [(asyncWrite_sent hwrite).1]
  | bodyWritten hop hopen hall hphase hnext => rw [(onWritten_kept hnext).2.2.2]

/-- As long as nobody asks for it, the socket is not closed. -/
theorem open_of_step {s s' : State} {e : Event} (hclose : e ≠ .closeSocket)
    (hopen : s.closed = false ∧ s.shutdown = false) (h : step T s e = some s') :
    s'.closed = false ∧ s'.shutdown = false := by
  obtain ⟨hclosed, hdown⟩ := hopen
  cases stepped_of_step h with
  | @sentFirst packet start s₁ returned hq hwrite =>
      obtain ⟨-, hd, hc, -, -⟩ := writeAsync_kept hwrite
      cases returned <;> exact ⟨hc.trans hclosed, hd.trans hdown⟩
  | queued hq => exact ⟨hclosed, hdown⟩
  | closedNow hq => exact absurd rfl hclose
  | shutdownAsked hq => exact absurd rfl hclose
  | transferred hop hopen hfit => exact ⟨hclosed, hdown⟩
  | failed hop hnext =>
      obtain ⟨hc, hd, -, -⟩ := onWritten_kept hnext
      rw [hc, hd]
      simp [hclosed, hdown]
  | headerWritten hop hopen hall hphase hwrite =>
      obtain ⟨-, hc, hd⟩ := asyncWrite_sent hwrite
      exact ⟨hc.trans hclosed, hd.trans hdown⟩
  | bodyWritten hop hopen hall hphase hnext =>
      obtain ⟨hc, hd, -, -⟩ := onWritten_kept hnext
      rw [hc, hd]
      simp [hclosed, hdown]

/-! ## Steps after which nothing is written -/

/-- A write that starts is outstanding. -/
theorem wire_of_writeAsync {packet : Payload} {start : Start} {s s' : State} {returned : Bool}
    (h : writeAsync T packet start s = some (s', returned)) (hsilent : Silent s') :
    s'.wire = s.wire := by
  rcases writeAsync_cases h with ⟨-, rfl, -⟩ | ⟨f, taken, -, -, -, -, -, rfl⟩
  · rfl
  · simp [Silent] at hsilent

theorem wire_of_onWritten {front : Payload} {rest : List Payload} {start : Start} {s s' : State}
    (hidle : s.writes = []) (hq : s.writeQueue = front :: rest)
    (h : onWritten T start s = some s') (hsilent : Silent s') : s'.wire = s.wire := by
  rw [onWritten_eq start hidle hq] at h
  cases rest with
  | nil =>
      cases h
      rfl
  | cons next rest =>
      obtain ⟨⟨s₂, returned⟩, hwrite, hs'⟩ := Option.map_eq_some_iff.mp h
      cases hs'
      have hwire := wire_of_writeAsync hwrite hsilent
      exact hwire

/-- A step after which nothing is written has put nothing on the wire. -/
theorem wire_of_silent {s s' : State} {e : Event} (hs : Manned T s) (h : step T s e = some s')
    (hsilent : Silent s') : s'.wire = s.wire ∧ BuffersIntact s e := by
  cases stepped_of_step h with
  | @sentFirst packet start s₁ returned hq hwrite =>
      have hwire := wire_of_writeAsync hwrite (by cases returned <;> exact hsilent)
      refine ⟨?_, trivial⟩
      cases returned <;> exact hwire
  | queued hq => exact ⟨rfl, trivial⟩
  | closedNow hq => exact ⟨rfl, trivial⟩
  | shutdownAsked hq => exact ⟨rfl, trivial⟩
  | transferred hop hopen hfit =>
      obtain ⟨hw, rfl, -, -⟩ := hs.writes_getElem? hop
      simp [Silent, hw] at hsilent
  | failed hop hnext =>
      obtain ⟨-, rfl, herase, front, rest, hq, -⟩ := hs.writes_getElem? hop
      rw [herase] at hnext
      have hwire := wire_of_onWritten (s := { s with writes := [] }) rfl hq hnext hsilent
      exact ⟨hwire, trivial⟩
  | headerWritten hop hopen hall hphase hwrite =>
      refine ⟨?_, trivial⟩
      rcases asyncWrite_cases hwrite with ⟨-, rfl, -⟩ | ⟨taken, -, -, -, -, rfl⟩
      · rfl
      · simp [Silent] at hsilent
  | @bodyWritten i start op s' hop hopen hall hphase hnext =>
      obtain ⟨-, rfl, herase, front, rest, hq, -⟩ := hs.writes_getElem? hop
      rw [herase] at hnext
      have hwire := wire_of_onWritten
        (s := { s with writes := [], written := s.written ++ [op.frame] }) rfl hq hnext hsilent
      exact ⟨hwire, trivial⟩

/-- The wire stays a prefix of the frames over such a step. -/
theorem wirePrefix_of_silent {s s' : State} {e : Event} (hs : Manned T s)
    (h : step T s e = some s') (hsilent : Silent s') (hwire : WirePrefix T s) :
    WirePrefix T s' := by
  obtain ⟨packets, bytes, hpackets, hframes, hle⟩ := hwire
  refine ⟨packets, bytes, hpackets.trans (sent_prefix_of_step h), hframes, ?_⟩
  rw [(wire_of_silent hs h hsilent).1]
  exact hle

/-- With nothing being written, a step is a `Send` that starts its packet or one that
leaves nothing being written. -/
theorem silent_step {s s' : State} {e : Event} (hs : Silent s) (hclose : e ≠ .closeSocket)
    (h : step T s e = some s') : ¬ Fails e ∧ (Silent s' ↔ QuietSend T s e) := by
  have hnone : ∀ (i : ℕ) (op : AsyncWrite), s.writes[i]? ≠ some op := by
    intro i op
    simp [show s.writes = [] from hs]
  cases stepped_of_step h with
  | @sentFirst packet start s₁ returned hq hwrite =>
      refine ⟨id, ?_⟩
      obtain ⟨-, hstuck⟩ := writeAsync_front (s := { s with writeQueue := [packet] }) hs rfl hwrite
      have hqueue : s₁.writeQueue = [packet] := (writeAsync_kept hwrite).1
      have hsilent : Silent s₁ ↔ Stuck s₁ := by
        simp [Silent, Stuck, hqueue]
      rw [hstuck] at hsilent
      have hquiet : QuietSend T s (.send packet start) ↔ ¬ Starts T packet start :=
        ⟨fun h => h hq, fun h _ => h⟩
      rw [hquiet, ← hsilent]
      cases returned <;> exact Iff.rfl
  | queued hq => exact ⟨id, iff_of_true hs fun hnil => absurd hnil hq⟩
  | closedNow hq => exact absurd rfl hclose
  | shutdownAsked hq => exact absurd rfl hclose
  | transferred hop => exact absurd hop (hnone _ _)
  | failed hop => exact absurd hop (hnone _ _)
  | headerWritten hop => exact absurd hop (hnone _ _)
  | bodyWritten hop => exact absurd hop (hnone _ _)

/-! ## Runs on which nothing is written -/

/-- With nothing being written, it stays so exactly as long as no `Send` starts a write. -/
theorem always_silent_iff {events : List Event} {s s' : State} (hs : Silent s)
    (hclose : ∀ e ∈ events, e ≠ .closeSocket) (hrun : run (step T) s events = some s') :
    Always (step T) Silent s events ↔ Meets (step T) (QuietSend T) s events := by
  induction events generalizing s with
  | nil => exact iff_of_true hs trivial
  | cons e events ih =>
      obtain ⟨s₁, he, hrest⟩ := run_cons_eq_some.mp hrun
      obtain ⟨-, hnext⟩ := silent_step hs (hclose e List.mem_cons_self) he
      simp only [Always, Meets, he, Option.some.injEq, forall_eq']
      by_cases hsilent : Silent s₁
      · have hlater := ih hsilent (fun e he => hclose e (List.mem_cons_of_mem _ he)) hrest
        rw [hlater]
        exact and_congr_left' (iff_of_true hs (hnext.mp hsilent))
      · apply iff_of_false
        · rintro ⟨-, hall⟩
          exact hsilent hall.head
        · rintro ⟨hquiet, -⟩
          exact hsilent (hnext.mpr hquiet)

/-- What is known of a run on which nothing is written: no write fails, and the wire does
not change. -/
theorem quiet_of_silent {P : State → List Event → Prop} {events : List Event} {s s' : State}
    (hsilent : Always (step T) Silent s events) (hclose : ∀ e ∈ events, e ≠ .closeSocket)
    (hrun : run (step T) s events = some s') (hwire : WirePrefix T s) :
    Always (step T) (WirePrefix T) s events ∧ Meets (step T) (QuietFailure T) s events ∧
      Meets (step T) BuffersIntact s events ∧ After (step T) Fails P s events := by
  induction events generalizing s with
  | nil => exact ⟨hwire, trivial, trivial, trivial⟩
  | cons e events ih =>
      obtain ⟨s₁, he, hrest⟩ := run_cons_eq_some.mp hrun
      have hs : Silent s := hsilent.head
      have hlater : Always (step T) Silent s₁ events := hsilent.2 s₁ he
      have hmanned : Manned T s := Or.inl hs
      obtain ⟨hfail, -⟩ := silent_step hs (hclose e List.mem_cons_self) he
      obtain ⟨hordered, hfailure, hintact, hafter⟩ := ih hlater
        (fun e he => hclose e (List.mem_cons_of_mem _ he)) hrest
        (wirePrefix_of_silent hmanned he hlater.head hwire)
      simp only [Always, Meets, After, he, Option.some.injEq, forall_eq']
      exact ⟨⟨hwire, hordered⟩, ⟨(of_not_fails hfail).1, hfailure⟩,
        ⟨(wire_of_silent hmanned he hlater.head).2, hintact⟩, fun hf => absurd hf hfail, hafter⟩

/-- A queue that is stuck stays so, and nothing is written. -/
theorem silent_of_stuck {events : List Event} {s s' : State} (hs : Stuck s)
    (hclose : ∀ e ∈ events, e ≠ .closeSocket) (hrun : run (step T) s events = some s') :
    Always (step T) Silent s events := by
  induction events generalizing s with
  | nil => exact hs.1
  | cons e events ih =>
      obtain ⟨s₁, he, hrest⟩ := run_cons_eq_some.mp hrun
      have hmanned : Manned T s := Or.inl hs.1
      have hstuck : Stuck s₁ := (stuck_iff_of_step hmanned he).2.mpr (Or.inl hs)
      simp only [Always, he, Option.some.injEq, forall_eq']
      exact ⟨hs.1, ih hstuck (fun e he => hclose e (List.mem_cons_of_mem _ he)) hrest⟩

/-! ## Runs up to the first failure -/

/-- A failed completion starts the next packet exactly when one is queued and its start
goes through. -/
theorem silent_iff_quietFailure {i : ℕ} {start : Start} {s s' : State} (hs : Manned T s)
    (h : step T s (.completed i false start) = some s') :
    Silent s' ↔ QuietFailure T s (.completed i false start) := by
  cases stepped_of_step h with
  | failed hop hnext =>
      obtain ⟨hw, rfl, herase, front, rest, hq, hf⟩ := hs.writes_getElem? hop
      rw [herase] at hnext
      obtain ⟨-, -, hsilent⟩ := onWritten_front (s := { s with writes := [] }) rfl hq hnext
      unfold QuietFailure
      rw [hq]
      exact hsilent

/-- The frames of fewer packets come first. -/
theorem frames_mono {packets packets' : List Payload} {bytes bytes' : List UInt8}
    (hpackets : packets <+: packets') (h : frames T packets = some bytes)
    (h' : frames T packets' = some bytes') : bytes <+: bytes' := by
  obtain ⟨fs, hfs, rfl⟩ := frames_eq_some_iff.mp h
  obtain ⟨fs', hfs', rfl⟩ := frames_eq_some_iff.mp h'
  obtain ⟨later, rfl⟩ := hpackets
  rw [List.map_append, hfs] at hfs'
  obtain ⟨fs₁, fs₂, rfl, hfst, -⟩ := List.map_eq_append_iff.mp hfs'.symm
  have heq := List.map_injective_iff.mpr (Option.some_injective Frame) hfst
  rw [heq, List.map_append, List.flatten_append]
  exact List.prefix_append _ _

/-- On an open socket that is written to, the wire should be a prefix of the frames of the
packets up to the front of the queue. -/
theorem Inv.exists_frames {s : State} (hs : Inv T s) (hopen : s.closed = false)
    (hmoving : ¬ Stuck s) :
    ∃ packets bytes, packets <+: s.sent ∧ frames T packets = some bytes ∧ intended s <+: bytes := by
  rcases hs.writes_cases with hidle | ⟨front, rest, op, hq, hw, hf, -⟩
  · refine ⟨_, _, List.take_prefix _ _, hs.frames_take, ?_⟩
    rw [intended_of_idle hidle]
  · have hbal := hs.balanced hopen hmoving
    unfold Balanced at hbal
    have htake : (s.sent.take (s.written.length + 1)).map (frame T) =
        (s.written ++ [op.frame]).map some := by
      have hlen : (s.written.map some).length = s.written.length := List.length_map _
      rw [List.map_take, hbal, hq, List.map_cons, hf, ← hlen, List.take_length_add_append]
      simp
    refine ⟨_, _, List.take_prefix _ _, frames_eq_some_iff.mpr ⟨_, htake, rfl⟩, ?_⟩
    rw [intended_of_single hw, List.map_append, List.flatten_append]
    apply (List.prefix_append_right_inj _).mpr
    simpa using progress_isPrefix op

/-- On such a socket the wire is a prefix of the frames exactly when it is what it should
be. -/
theorem Inv.wirePrefix_iff {s : State} (hs : Inv T s) (hopen : s.closed = false)
    (hmoving : ¬ Stuck s) : WirePrefix T s ↔ Faithful s := by
  obtain ⟨packets, bytes, hpackets, hframes, hintended⟩ := hs.exists_frames hopen hmoving
  constructor
  · rintro ⟨packets', bytes', hpackets', hframes', hwire⟩
    have hlen := hs.length_wire (Or.inr hmoving)
    -- Both are prefixes of the longer one of the two lists of frames.
    rcases List.prefix_or_prefix_of_prefix hpackets hpackets' with hle | hle
    · have hboth := List.prefix_of_prefix_length_le hwire
        (hintended.trans (frames_mono hle hframes hframes')) hlen.le
      exact hboth.eq_of_length hlen
    · have hboth := List.prefix_of_prefix_length_le
        (hwire.trans (frames_mono hle hframes' hframes)) hintended hlen.le
      exact hboth.eq_of_length hlen
  · intro hfaithful
    unfold Faithful at hfaithful
    exact ⟨packets, bytes, hpackets, hframes, by rwa [hfaithful]⟩

/-- After a failed completion: if it was quiet, what follows is decided by the `Send`
calls, and otherwise the next frame is being written. -/
theorem silentAfter_failure {events : List Event} {i : ℕ} {start : Start} {s s₁ s' : State}
    (hs : Manned T s) (hwire : WirePrefix T s)
    (he : step T s (.completed i false start) = some s₁)
    (hclose : ∀ e ∈ events, e ≠ .closeSocket) (hrest : run (step T) s₁ events = some s') :
    (Always (step T) Silent s₁ events ∧ After (step T) Fails (Always (step T) Silent) s₁ events ∧
        Always (step T) (WirePrefix T) s₁ events) ↔
      (QuietFailure T s (.completed i false start) ∧ Meets (step T) (QuietFailure T) s₁ events) ∧
        (Meets (step T) (QuietSend T) s₁ events ∧
          After (step T) Fails (Meets (step T) (QuietSend T)) s₁ events) ∧
        Meets (step T) BuffersIntact s₁ events := by
  have hquiet := silent_iff_quietFailure hs he
  by_cases hsilent : Silent s₁
  · have hall := always_silent_iff hsilent hclose hrest
    have hwire₁ := wirePrefix_of_silent hs he hsilent hwire
    constructor
    · rintro ⟨hsilence, -, -⟩
      obtain ⟨-, hfailure, hintact, hafter⟩ := quiet_of_silent hsilence hclose hrest hwire₁
      exact ⟨⟨hquiet.mp hsilent, hfailure⟩, ⟨hall.mp hsilence, hafter⟩, hintact⟩
    · rintro ⟨-, ⟨hsends, -⟩, -⟩
      have hsilence := hall.mpr hsends
      obtain ⟨hordered, -, -, hafter⟩ := quiet_of_silent hsilence hclose hrest hwire₁
      exact ⟨hsilence, hafter, hordered⟩
  · apply iff_of_false
    · rintro ⟨hsilence, -⟩
      exact hsilent hsilence.head
    · rintro ⟨⟨hfailure, -⟩, -⟩
      exact hsilent (hquiet.mpr hfailure)

/-- From a state on the way to the first failure: nothing is written after a failed frame
and the wire stays in order, if and only if the failures and what follows them are quiet
and the buffers keep their bytes. -/
theorem silentAfter_iff {events : List Event} {s s' : State} (hs : Inv T s)
    (hopen : s.closed = false ∧ s.shutdown = false) (hmoving : ¬ Stuck s)
    (hfaithful : Faithful s) (hclose : ∀ e ∈ events, e ≠ .closeSocket)
    (hrun : run (step T) s events = some s') :
    (After (step T) Fails (Always (step T) Silent) s events ∧
        Always (step T) (WirePrefix T) s events) ↔
      Meets (step T) (QuietFailure T) s events ∧
        After (step T) Fails (Meets (step T) (QuietSend T)) s events ∧
        Meets (step T) BuffersIntact s events := by
  induction events generalizing s with
  | nil =>
      have hwire : WirePrefix T s := (hs.wirePrefix_iff hopen.1 hmoving).mpr hfaithful
      exact iff_of_true ⟨trivial, hwire⟩ ⟨trivial, trivial, trivial⟩
  | cons e events ih =>
      obtain ⟨s₁, he, hrest⟩ := run_cons_eq_some.mp hrun
      have hwire : WirePrefix T s := (hs.wirePrefix_iff hopen.1 hmoving).mpr hfaithful
      have hclose₁ : ∀ e ∈ events, e ≠ .closeSocket :=
        fun e he => hclose e (List.mem_cons_of_mem _ he)
      simp only [After, Always, Meets, he, Option.some.injEq, forall_eq']
      by_cases hfail : Fails e
      · cases e with
        | completed i ok start =>
            cases ok with
            | false =>
                have hfailed := silentAfter_failure hs.manned hwire he hclose₁ hrest
                simp only [Fails, BuffersIntact, true_implies, hwire, true_and]
                rw [and_assoc]
                exact hfailed
            | true => exact hfail.elim
        | send packet start => exact hfail.elim
        | closeSocket => exact hfail.elim
        | transfer i bytes => exact hfail.elim
      · obtain ⟨hquiet, hreliable⟩ := of_not_fails (T := T) (s := s) hfail
        have hspec := inv_step hs hreliable he
        have hopen₁ := open_of_step (hclose e List.mem_cons_self) hopen he
        simp only [hfail, false_implies, true_and, hwire, hquiet]
        by_cases hstuck : Stuck s₁
        · -- A start has thrown: nothing more is written.
          have hsilent := silent_of_stuck hstuck hclose₁ hrest
          have hwire₁ := wirePrefix_of_silent hs.manned he hstuck.1 hwire
          have hintact := (wire_of_silent hs.manned he hstuck.1).2
          obtain ⟨hordered, hfailure, hbuffers, hafter⟩ :=
            quiet_of_silent (P := Always (step T) Silent) hsilent hclose₁ hrest hwire₁
          obtain ⟨-, -, -, hafter'⟩ :=
            quiet_of_silent (P := Meets (step T) (QuietSend T)) hsilent hclose₁ hrest hwire₁
          exact iff_of_true ⟨hafter, hordered⟩ ⟨hfailure, hafter', hintact, hbuffers⟩
        · have hnext := hspec.faithful_iff (Or.inr hstuck)
          by_cases hintact : BuffersIntact s e
          · have hlater := ih hspec.inv hopen₁ hstuck (hnext.mpr ⟨hfaithful, hintact⟩) hclose₁ hrest
            simp only [hintact, true_and]
            exact hlater
          · apply iff_of_false
            · rintro ⟨-, hordered⟩
              have hfaithful₁ := (hspec.inv.wirePrefix_iff hopen₁.1 hstuck).mp hordered.head
              exact hintact (hnext.mp hfaithful₁).2
            · rintro ⟨-, -, hbuffers, -⟩
              exact hintact hbuffers

/-- In a run of `Send` calls and completions nothing is written after a frame that failed,
and the wire is a prefix of the frames in the order of the calls all along, if and only
if no packet is queued behind a frame that fails, none is sent after it (but for packets
whose write does not start), and every buffer keeps its bytes until the socket has taken
them. -/
theorem noFrameAfterFailure_iff {events : List Event} {s : State}
    (hclose : ∀ e ∈ events, e ≠ .closeSocket) (hrun : run (step T) init events = some s) :
    (After (step T) Fails (Always (step T) Silent) init events ∧
        Always (step T) (WirePrefix T) init events) ↔
      Meets (step T) (QuietFailure T) init events ∧
        After (step T) Fails (Meets (step T) (QuietSend T)) init events ∧
        Meets (step T) BuffersIntact init events :=
  silentAfter_iff (inv_init T) ⟨rfl, rfl⟩ (fun hstuck => hstuck.2 rfl) rfl hclose hrun

/-- Some packets are sent, and the write of the first one's header fails after two bytes. -/
def brokenHeader (packets : List Payload) : List Event :=
  packets.map (fun packet => .send packet (.starts 0)) ++
    [.transfer 0 [1, 0], .completed 0 false (.starts 4)]

/-- The run of one packet. -/
theorem brokenHeader_noFrameAfterFailure :
    (After (step spDefault) Fails (Always (step spDefault) Silent) init (brokenHeader [[7]]) ∧
        Always (step spDefault) (WirePrefix spDefault) init (brokenHeader [[7]])) ↔
      Meets (step spDefault) (QuietFailure spDefault) init (brokenHeader [[7]]) ∧
        After (step spDefault) Fails (Meets (step spDefault) (QuietSend spDefault)) init
          (brokenHeader [[7]]) ∧
        Meets (step spDefault) BuffersIntact init (brokenHeader [[7]]) :=
  noFrameAfterFailure_iff (T := spDefault) (s := { wire := [1, 0], sent := [[7]] })
    (by simp [brokenHeader]) rfl

/-- With a second packet queued, the size header of its frame follows the half of a
header on the wire. -/
theorem header_inside_frame :
    (run (step spDefault) init (brokenHeader [[7], [8]])).map State.wire =
        some [1, 0, 1, 0, 0, 0] ∧
      ¬ (After (step spDefault) Fails (Always (step spDefault) Silent) init
          (brokenHeader [[7], [8]]) ∧
        Always (step spDefault) (WirePrefix spDefault) init (brokenHeader [[7], [8]])) := by
  constructor
  · rfl
  · rintro ⟨hafter, -⟩
    have hsilent := (((hafter _ rfl).2 _ rfl).2 _ rfl).2 _ rfl
    have hwrites := hsilent.1 trivial
    cases hwrites

end BacsEnv.Gspp
