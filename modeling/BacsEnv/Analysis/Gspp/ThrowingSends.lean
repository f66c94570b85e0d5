import BacsEnv.Analysis.Gspp.WriteQueue

/-!
# Sends that throw

`Send` pushes its packet before it starts the write, and restarts writing only when it
finds the queue empty. So a start that throws leaves a packet that nobody is writing,
and every later `Send` queues behind it. What follows holds along every run of a
client: of `Send` calls, completions with and without an error, and closes.
-/

set_option autoImplicit false

namespace BacsEnv.Gspp

open BacsEnv.Bacs BacsEnv.Transition

variable {T : SPTraits}

/-- A queue that is not empty has an outstanding write of its front. -/
def Attended (T : SPTraits) (s : State) : Prop :=
  ∀ front rest, s.writeQueue = front :: rest → ∃ op ∈ s.writes, frame T front = some op.frame

/-- If the step is a `Send` that throws, so that it does not count as sent, the queue is
as it was before. -/
def Restores (T : SPTraits) (s : State) : Event → Prop
  | .send packet start =>
      ∀ s', step T s (.send packet start) = some s' → s'.sent = s.sent →
        s'.writeQueue = s.writeQueue
  | _ => True

/-! ## One step -/

theorem attended_iff_not_stuck {s : State} (hs : Manned T s) : Attended T s ↔ ¬ Stuck s := by
  constructor
  · rintro h ⟨hidle, hne⟩
    obtain ⟨front, rest, hq⟩ := List.exists_cons_of_ne_nil hne
    obtain ⟨op, hop, -⟩ := h front rest hq
    rw [hidle] at hop
    cases hop
  · intro h front rest hq
    rcases hs with hidle | ⟨front', rest', op, hq', hw, hf⟩
    · refine (h ⟨hidle, ?_⟩).elim
      rw [hq]
      exact List.cons_ne_nil _ _
    · rw [hq] at hq'
      obtain ⟨hfront, -⟩ := List.cons.inj hq'
      refine ⟨op, ?_, ?_⟩
      · rw [hw]
        exact List.mem_singleton_self op
      · rw [hfront, hf]

/-- A `Send` whose start goes through counts as sent. -/
theorem sent_of_send {packet : Payload} {start : Start} {s s' : State}
    (hstarts : ¬ StartThrows T s (.send packet start))
    (h : step T s (.send packet start) = some s') : s'.sent = s.sent ++ [packet] := by
  cases stepped_of_step h with
  | @sentFirst packet start s₁ returned hq hwrite =>
      rcases writeAsync_cases hwrite with ⟨hfail, -, -⟩ | ⟨f, taken, -, -, -, -, rfl, rfl⟩
      · exfalso
        apply hstarts
        refine ⟨hq, ?_⟩
        rintro ⟨hframe, hstart⟩
        exact hfail.elim hframe hstart
      · rfl
  | queued hq => rfl

/-- A step without a start that throws restores the queue: there is nothing to restore. -/
theorem restores_of_starts {s : State} {e : Event} (h : ¬ StartThrows T s e) : Restores T s e := by
  cases e with
  | send packet start =>
      intro s' hstep hsent
      rw [sent_of_send h hstep] at hsent
      simp at hsent
  | closeSocket => trivial
  | transfer i bytes => trivial
  | completed i ok start => trivial

/-! ## Runs -/

theorem manned_init : Manned T init := Or.inl rfl

/-- An empty queue has nobody to attend to. -/
theorem attended_init : Attended T init := by
  intro front rest hq
  cases hq

/-- Along a run every `Send` that throws leaves the queue as it was, and every state in
which packets are queued has an outstanding write of the front, if and only if no start
of a write throws. -/
theorem sends_restore_iff {events : List Event} {s : State}
    (hrun : run (step T) init events = some s) :
    (Meets (step T) (Restores T) init events ∧ Always (step T) (Attended T) init events) ↔
      Meets (step T) (fun s e => ¬ StartThrows T s e) init events := by
  have hattended := always_iff_meets (C := fun _ _ => True) (I := Manned T) (P := Attended T)
    (D := fun s e => ¬ StartThrows T s e)
    (fun s e s' hs _ h => (stuck_iff_of_step hs h).1)
    (fun s e s' hs _ h => by
      obtain ⟨hs', hstuck⟩ := stuck_iff_of_step hs h
      rw [attended_iff_not_stuck hs', attended_iff_not_stuck hs, hstuck, not_or])
    hrun (meets_of_forall (fun _ _ => trivial) init events) manned_init
  rw [hattended]
  constructor
  · rintro ⟨-, -, hstarts⟩
    exact hstarts
  · intro hstarts
    exact ⟨meets_mono (fun s e => restores_of_starts) hstarts, attended_init, hstarts⟩

/-- Two packets are sent, and the start of the first one's write goes as given. -/
def twoSends (start : Start) : List Event := [.send [7] start, .send [8] (.starts 0)]

/-- The run in which the first start goes through. -/
theorem twoSends_restore :
    (Meets (step spDefault) (Restores spDefault) init (twoSends (.starts 0)) ∧
        Always (step spDefault) (Attended spDefault) init (twoSends (.starts 0))) ↔
      Meets (step spDefault) (fun s e => ¬ StartThrows spDefault s e) init
        (twoSends (.starts 0)) :=
  sends_restore_iff (T := spDefault) (s := { writeQueue := [[7], [8]]
                                             writes := [⟨⟨[1, 0, 0, 0], [7]⟩, .header, 0⟩]
                                             sent := [[7], [8]] }) rfl

/-- The first start throws: its packet stays in the queue, the second one is queued behind
it, and nobody writes either of them. -/
theorem twoSends_not_restored :
    run (step spDefault) init (twoSends .throws) =
        some { writeQueue := [[7], [8]], sent := [[8]] } ∧
      ¬ (Meets (step spDefault) (Restores spDefault) init (twoSends .throws) ∧
        Always (step spDefault) (Attended spDefault) init (twoSends .throws)) := by
  constructor
  · rfl
  · rintro ⟨⟨hrestored, -⟩, -⟩
    have hqueue : ([[7]] : List Payload) = [] := hrestored { writeQueue := [[7]] } rfl rfl
    cases hqueue

end BacsEnv.Gspp
