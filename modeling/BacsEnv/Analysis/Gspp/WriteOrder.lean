import BacsEnv.Analysis.Gspp.WriteQueue

/-!
# The queue discipline and the order on the wire

In every state of every run whose writes succeed on the open socket, exactly one write
is outstanding while packets are queued, it is one of the front's frame, and the wire
is a prefix of the frames in the order of the `Send` calls, as long as every start goes
through and every buffer keeps its bytes until the socket has taken them. Neither
condition can be dropped.
-/

set_option autoImplicit false

namespace BacsEnv.Gspp

open BacsEnv.Bacs BacsEnv.Transition

variable {T : SPTraits}

/-- What the queue and the wire should be like in every state. -/
structure WellOrdered (T : SPTraits) (s : State) : Prop where
  idle : s.writeQueue = [] → s.writes = []
  writing : ∀ front rest, s.writeQueue = front :: rest →
    ∃ op, s.writes = [op] ∧ op.frame.body = front
  no_fault : s.faults = []
  wire_prefix : ∃ bytes, frames T s.sent = some bytes ∧ s.wire <+: bytes
  whole_frames : s.closed = true → ∃ n, frames T (s.sent.take n) = some s.wire

/-- No start of a write throws, and every buffer keeps its bytes. -/
def Undisturbed (s : State) (e : Event) : Prop :=
  BuffersIntact s e ∧ startUsed s e ≠ some .throws

/-- With `SPTraits::out` total, the packets sent have frames. -/
theorem exists_frames (hout : ∀ size, (T.sizeOut size).isSome) (packets : List Payload) :
    ∃ fs : List Frame, packets.map (frame T) = fs.map some := by
  induction packets with
  | nil => exact ⟨[], rfl⟩
  | cons packet packets ih =>
      obtain ⟨fs, hfs⟩ := ih
      obtain ⟨f, hf⟩ := Option.ne_none_iff_exists'.mp (frame_ne_none hout packet)
      exact ⟨f :: fs, by simp [hf, hfs]⟩

/-- The frames written are those of the first packets sent. -/
theorem Inv.frames_take {s : State} (hs : Inv T s) :
    frames T (s.sent.take s.written.length) = some (s.written.map Frame.bytes).flatten := by
  refine frames_eq_some_iff.mpr ⟨s.written, ?_, rfl⟩
  have hprefix := hs.written_prefix
  rw [List.map_take]
  have htake := List.prefix_iff_eq_take.mp hprefix
  rw [List.length_map] at htake
  exact htake.symm

/-- The frames written come first among those of the packets sent. -/
theorem Inv.frames_eq {s : State} (hs : Inv T s) {fs : List Frame}
    (hfs : s.sent.map (frame T) = fs.map some) : ∃ later, fs = s.written ++ later := by
  have hprefix := hs.written_prefix
  rw [hfs] at hprefix
  obtain ⟨written, ⟨later, rfl⟩, hmap⟩ := List.prefix_map_iff.mp hprefix
  obtain rfl := List.map_injective_iff.mpr (Option.some_injective _) hmap
  exact ⟨later, rfl⟩

/-- The intended wire is a prefix of the frames of the packets sent. -/
theorem Inv.intended_prefix {s : State} (hs : Inv T s) {fs : List Frame}
    (hfs : s.sent.map (frame T) = fs.map some) :
    intended s <+: (fs.map Frame.bytes).flatten := by
  obtain ⟨later, rfl⟩ := hs.frames_eq hfs
  rw [List.map_append, List.flatten_append]
  rcases hs.writes_cases with hidle | ⟨front, rest, op, hq, hw, hf, -⟩
  · rw [intended_of_idle hidle]
    exact List.prefix_append _ _
  · by_cases hclosed : s.closed = true
    · rw [hs.intended_of_closed hclosed]
      exact List.prefix_append _ _
    · -- The outstanding frame is the next one of the packets sent.
      have hbal := hs.balanced (Bool.eq_false_iff.mpr hclosed) (not_stuck_of_writes hw)
      unfold Balanced at hbal
      rw [hfs, hq, List.map_append, List.map_cons, hf] at hbal
      have hlater := List.append_cancel_left hbal
      rw [intended_of_single hw]
      apply (List.prefix_append_right_inj _).mpr
      cases later with
      | nil => cases hlater
      | cons f later =>
          obtain ⟨hhead, -⟩ := List.cons.inj hlater
          cases hhead
          rw [List.map_cons, List.flatten_cons]
          exact (progress_isPrefix op).trans (List.prefix_append _ _)

/-- Under the invariant a state is well ordered exactly when something is outstanding for
a queue that is not empty, and the wire is what it should be. -/
theorem Inv.wellOrdered_iff {s : State} (hs : Inv T s)
    (hout : ∀ size, (T.sizeOut size).isSome) :
    WellOrdered T s ↔ Faithful s ∧ ¬ Stuck s := by
  obtain ⟨fs, hfs⟩ := exists_frames hout s.sent
  have hframes : frames T s.sent = some (fs.map Frame.bytes).flatten :=
    frames_eq_some_iff.mpr ⟨fs, hfs, rfl⟩
  constructor
  · intro h
    have hmoving : ¬ Stuck s := by
      rintro ⟨hidle, hne⟩
      obtain ⟨front, rest, hq⟩ := List.exists_cons_of_ne_nil hne
      obtain ⟨op, hw, -⟩ := h.writing front rest hq
      rw [hidle] at hw
      cases hw
    refine ⟨?_, hmoving⟩
    obtain ⟨bytes, hbytes, hwire⟩ := h.wire_prefix
    rw [hframes] at hbytes
    cases hbytes
    have hlen := hs.length_wire (Or.inr hmoving)
    have hintended := hs.intended_prefix hfs
    rw [List.prefix_iff_eq_take] at hwire hintended
    unfold Faithful
    rw [hwire, hintended, hlen]
  · rintro ⟨hfaithful, hmoving⟩
    unfold Faithful at hfaithful
    refine ⟨hs.manned.writes_of_queue_nil, ?_, hs.no_fault, ⟨_, hframes, ?_⟩, ?_⟩
    · intro front rest hq
      rcases hs.writes_cases with hidle | ⟨front', rest', op, hq', hw, hf, -⟩
      · refine (hmoving ⟨hidle, ?_⟩).elim
        rw [hq]
        exact List.cons_ne_nil _ _
      · rw [hq] at hq'
        obtain ⟨rfl, -⟩ := List.cons.inj hq'
        exact ⟨op, hw, body_eq hf⟩
    · rw [hfaithful]
      exact hs.intended_prefix hfs
    · intro hclosed
      refine ⟨s.written.length, ?_⟩
      rw [hfaithful, hs.intended_of_closed hclosed]
      exact hs.frames_take

/-- A step keeps a state well ordered exactly when it is undisturbed. -/
theorem wellOrdered_iff_of_step (hout : ∀ size, (T.sizeOut size).isSome) (s : State) (e : Event)
    (s' : State) (hs : Inv T s) (hC : Reliable s e) (h : step T s e = some s') :
    WellOrdered T s' ↔ WellOrdered T s ∧ Undisturbed s e := by
  have hspec := inv_step hs hC h
  rw [hspec.inv.wellOrdered_iff hout, hs.wellOrdered_iff hout]
  have hstuck := hspec.stuck_iff hout
  constructor
  · rintro ⟨hfaithful, hmoving⟩
    obtain ⟨hbefore, hintact⟩ := (hspec.faithful_iff (Or.inr hmoving)).mp hfaithful
    rw [hstuck] at hmoving
    exact ⟨⟨hbefore, fun h => hmoving (Or.inl h)⟩, hintact, fun h => hmoving (Or.inr h)⟩
  · rintro ⟨⟨hfaithful, hmoving⟩, hintact, hstarts⟩
    have hnext : ¬ Stuck s' := by
      rw [hstuck]
      exact fun h => h.elim hmoving hstarts
    exact ⟨(hspec.faithful_iff (Or.inr hnext)).mpr ⟨hfaithful, hintact⟩, hnext⟩

theorem wellOrdered_init (hout : ∀ size, (T.sizeOut size).isSome) : WellOrdered T init := by
  apply ((inv_init T).wellOrdered_iff hout).mpr
  exact ⟨rfl, fun hstuck => hstuck.2 rfl⟩

/-- A run keeps the queue discipline and the order on the wire all along, if and only if
no start of a write throws and the socket always takes the bytes that the program put
into the buffers. -/
theorem always_wellOrdered_iff (hout : ∀ size, (T.sizeOut size).isSome) {events : List Event}
    {s : State} (hrun : run (step T) init events = some s)
    (hreliable : Meets (step T) Reliable init events) :
    Always (step T) (WellOrdered T) init events ↔ Meets (step T) Undisturbed init events := by
  rw [always_iff_meets inv_of_step (wellOrdered_iff_of_step hout) hrun hreliable (inv_init T)]
  exact and_iff_right (wellOrdered_init hout)

/-- One packet is sent; its header is taken later, its body at once. -/
def sampleEvents (header : List UInt8) : List Event :=
  [.send [7] (.starts 0), .transfer 0 header, .completed 0 true (.starts 1),
    .completed 0 true (.starts 0)]

/-- The run in which the header's bytes are intact. -/
theorem sampleEvents_wellOrdered :
    Always (step spDefault) (WellOrdered spDefault) init (sampleEvents [1, 0, 0, 0]) ↔
      Meets (step spDefault) Undisturbed init (sampleEvents [1, 0, 0, 0]) :=
  always_wellOrdered_iff (T := spDefault) (fun _ => rfl)
    (s := { wire := [1, 0, 0, 0, 7], sent := [[7]], written := [⟨[1, 0, 0, 0], [7]⟩] })
    rfl ⟨trivial, fun _ _ => ⟨trivial, fun _ _ => ⟨trivial, fun _ _ => ⟨trivial, fun _ _ => trivial⟩⟩⟩⟩

/-- The memory of the header is reused before the socket takes it: a packet of one byte is
announced with the size `0x09090909`. -/
theorem sampleEvents_not_wellOrdered :
    (run (step spDefault) init (sampleEvents [9, 9, 9, 9])).map State.wire =
        some [9, 9, 9, 9, 7] ∧
      Meets (step spDefault) Reliable init (sampleEvents [9, 9, 9, 9]) ∧
      ¬ Always (step spDefault) (WellOrdered spDefault) init (sampleEvents [9, 9, 9, 9]) := by
  refine ⟨rfl, ?_, ?_⟩
  · exact ⟨trivial, fun _ _ => ⟨trivial, fun _ _ => ⟨trivial, fun _ _ => ⟨trivial, fun _ _ =>
      trivial⟩⟩⟩⟩
  · rintro ⟨-, hrest⟩
    obtain ⟨-, hrest⟩ := hrest _ rfl
    obtain ⟨hordered, -⟩ := hrest _ rfl
    obtain ⟨bytes, hbytes, hwire⟩ := hordered.wire_prefix
    obtain rfl : [1, 0, 0, 0, 7] = bytes := Option.some.inj hbytes
    revert hwire
    decide

end BacsEnv.Gspp
