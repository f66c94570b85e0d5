import BacsEnv.Model.Gspp.DatagramConnection

/-!
# The receive loop of a datagram connection

The handler of the constructor looks at the error of a receive, but `RecvLoopAsync` calls
itself after it in any case. `endsWithConnection_iff` says when a run has the loop end with
its connection: a receive that fails on the closed socket starts the next one, which fails
in turn (`fails_forever`). Only an exception ends the loop, and until then the shared state
is kept (`not_released_of_run`). That `onHandle` is not called again holds in every run
(`handled_since_closed`).
-/

set_option autoImplicit false

namespace BacsEnv.Gspp.Datagram

open BacsEnv.Bacs BacsEnv.Transition

variable {Endpoint : Type} {C : Config}

/-! ## What a step does -/

/-- What a step can do. -/
inductive Outcome (C : Config) (s : State Endpoint) : Event Endpoint → State Endpoint → Prop
  | handling {i : ℕ} {ep : Endpoint} {datagram : List UInt8}
      (hi : s.receives[i]? = some { onOpen := true }) (honHandle : C.onHandle = true) :
      Outcome C s (.received i ep datagram)
        { s with receives := s.receives.eraseIdx i
                 recvBuffer := overwrite datagram s.recvBuffer
                 handling := s.handling + 1
                 handled := s.handled ++
                   [{ ep := ep, recvBuffer := overwrite datagram s.recvBuffer,
                      bytesTransferred := min datagram.length s.recvBuffer.length }] }
  | unhandled {i : ℕ} {ep : Endpoint} {datagram : List UInt8}
      (hi : s.receives[i]? = some { onOpen := true }) (honHandle : C.onHandle = false) :
      Outcome C s (.received i ep datagram)
        { s with receives := s.receives.eraseIdx i
                 recvBuffer := overwrite datagram s.recvBuffer }
  | failed {i : ℕ} {written : List UInt8} {started : Bool} (hi : i < s.receives.length) :
      Outcome C s (.failed i written started)
        (recvLoopAsync started { s with receives := s.receives.eraseIdx i
                                        recvBuffer := overwrite written s.recvBuffer })
  | handleReturned {started : Bool} (hhandling : 0 < s.handling) :
      Outcome C s (.handleReturned started)
        (recvLoopAsync started { s with handling := s.handling - 1 })
  | handleThrew (hhandling : 0 < s.handling) :
      Outcome C s .handleThrew { s with handling := s.handling - 1 }
  | sent {e : Event Endpoint} (sends : List (PendingSendOp Endpoint))
      (he : (∃ ep packet, e = .send ep packet) ∨ ∃ i, e = .sendCompleted i) :
      Outcome C s e { s with sends := sends }
  | destroyed (halive : s.destroyed = false) :
      Outcome C s .destroy { s with destroyed := true, isOpen := false }

/-- Every step is one of these. -/
theorem outcome_of_step {s s' : State Endpoint} {e : Event Endpoint}
    (hstep : step C s e = some s') : Outcome C s e s' := by
  cases e with
  | received i ep datagram =>
      simp only [step, received] at hstep
      split at hstep
      · cases hstep
      · rename_i receive hi
        obtain ⟨onOpen⟩ := receive
        cases onOpen with
        | false => cases hstep
        | true =>
            rw [if_neg (by simp), length_overwrite] at hstep
            split at hstep
            · rename_i honHandle
              cases hstep
              exact .handling hi honHandle
            · rename_i honHandle
              cases hstep
              exact .unhandled hi (Bool.eq_false_iff.mpr honHandle)
  | failed i written started =>
      obtain ⟨hi, hs'⟩ := Option.ite_none_right_eq_some.mp hstep
      cases hs'
      exact .failed hi
  | handleReturned started =>
      obtain ⟨hhandling, hs'⟩ := Option.ite_none_left_eq_some.mp hstep
      cases hs'
      exact .handleReturned (Nat.pos_of_ne_zero hhandling)
  | handleThrew =>
      obtain ⟨hhandling, hs'⟩ := Option.ite_none_left_eq_some.mp hstep
      cases hs'
      exact .handleThrew (Nat.pos_of_ne_zero hhandling)
  | send ep packet =>
      obtain ⟨-, hs'⟩ := Option.ite_none_left_eq_some.mp hstep
      split at hs'
      · cases hs'
        exact .sent s.sends (.inl ⟨ep, packet, rfl⟩)
      · cases hs'
        exact .sent _ (.inl ⟨ep, packet, rfl⟩)
  | sendCompleted i =>
      obtain ⟨-, hs'⟩ := Option.ite_none_right_eq_some.mp hstep
      cases hs'
      exact .sent _ (.inr ⟨i, rfl⟩)
  | destroy =>
      obtain ⟨halive, hs'⟩ := Option.ite_none_left_eq_some.mp hstep
      cases hs'
      exact .destroyed (Bool.eq_false_iff.mpr halive)

/-! ## The loop -/

/-- The receives that are outstanding and the calls of `onHandle` that run: the places from
which `RecvLoopAsync` will be called. -/
def pendingTurns (s : State Endpoint) : ℕ := s.receives.length + s.handling

/-- `RecvLoopAsync` adds at most one turn. -/
theorem pendingTurns_recvLoopAsync (started : Bool) (s : State Endpoint) :
    pendingTurns (recvLoopAsync started s) = pendingTurns s + started.toNat := by
  cases started with
  | false => rfl
  | true =>
      simp only [recvLoopAsync, pendingTurns, if_true, List.length_append, List.length_singleton,
        Bool.toNat_true]
      omega

/-- A receive that completes takes its turn. -/
theorem length_eraseIdx_add_one {xs : List Receive} {i : ℕ} (hi : i < xs.length) :
    (xs.eraseIdx i).length + 1 = xs.length := by
  rw [List.length_eraseIdx_of_lt hi]
  omega

/-- The step ends in an exception: of `onHandle`, also of an empty one, or of
`RecvLoopAsync`. -/
def Throws (C : Config) : Event Endpoint → Prop
  | .received _ _ _ => C.onHandle = false
  | .failed _ _ started => started = false
  | .handleReturned started => started = false
  | .handleThrew => True
  | _ => False

/-- A step leaves the number of turns as it is, or lowers it by one with an exception. -/
theorem pendingTurns_outcome {s s' : State Endpoint} {e : Event Endpoint}
    (h : Outcome C s e s') :
    (¬ Throws C e ∧ pendingTurns s' = pendingTurns s) ∨
      (Throws C e ∧ pendingTurns s' + 1 = pendingTurns s) := by
  cases h with
  | handling hi honHandle =>
      have hlen := length_eraseIdx_add_one (List.getElem?_eq_some_iff.mp hi).1
      refine .inl ⟨by simp [Throws, honHandle], ?_⟩
      simp only [pendingTurns]
      omega
  | unhandled hi honHandle =>
      have hlen := length_eraseIdx_add_one (List.getElem?_eq_some_iff.mp hi).1
      refine .inr ⟨honHandle, ?_⟩
      simp only [pendingTurns]
      omega
  | @failed i written started hi =>
      have hlen := length_eraseIdx_add_one hi
      rw [pendingTurns_recvLoopAsync]
      simp only [Throws, pendingTurns]
      cases started with
      | false => exact .inr ⟨rfl, by simp only [Bool.toNat_false]; omega⟩
      | true => exact .inl ⟨by simp, by simp only [Bool.toNat_true]; omega⟩
  | @handleReturned started hhandling =>
      rw [pendingTurns_recvLoopAsync]
      simp only [Throws, pendingTurns]
      cases started with
      | false => exact .inr ⟨rfl, by simp only [Bool.toNat_false]; omega⟩
      | true => exact .inl ⟨by simp, by simp only [Bool.toNat_true]; omega⟩
  | handleThrew hhandling =>
      refine .inr ⟨trivial, ?_⟩
      simp only [pendingTurns]
      omega
  | sent sends he =>
      refine .inl ⟨?_, rfl⟩
      rcases he with ⟨ep, packet, rfl⟩ | ⟨i, rfl⟩ <;> exact id
  | destroyed halive => exact .inl ⟨id, rfl⟩

/-- What holds of a connection at any time: there is at most one turn, a destroyed connection
has closed its socket, and the buffer that `onHandle` gets is the one of `RecvSize` bytes. -/
structure Inv (C : Config) (s : State Endpoint) : Prop where
  single : pendingTurns s ≤ 1
  closed : s.destroyed = true → s.isOpen = false
  buffer : s.recvBuffer.length = C.recvSize
  handled : ∀ call ∈ s.handled, call.recvBuffer.length = C.recvSize ∧
    call.bytesTransferred ≤ C.recvSize

@[simp] theorem recvLoopAsync_destroyed (started : Bool) (s : State Endpoint) :
    (recvLoopAsync started s).destroyed = s.destroyed := by
  cases started <;> rfl

@[simp] theorem recvLoopAsync_isOpen (started : Bool) (s : State Endpoint) :
    (recvLoopAsync started s).isOpen = s.isOpen := by
  cases started <;> rfl

@[simp] theorem recvLoopAsync_recvBuffer (started : Bool) (s : State Endpoint) :
    (recvLoopAsync started s).recvBuffer = s.recvBuffer := by
  cases started <;> rfl

@[simp] theorem recvLoopAsync_handling (started : Bool) (s : State Endpoint) :
    (recvLoopAsync started s).handling = s.handling := by
  cases started <;> rfl

@[simp] theorem recvLoopAsync_handled (started : Bool) (s : State Endpoint) :
    (recvLoopAsync started s).handled = s.handled := by
  cases started <;> rfl

theorem inv_init (C : Config) (isOpen : Bool) : Inv C (init C isOpen : State Endpoint) where
  single := Nat.le_refl 1
  closed := by
    intro h
    cases h
  buffer := List.length_replicate
  handled := by
    intro call hmem
    cases hmem

/-- Every step keeps the invariant. -/
theorem inv_outcome {s s' : State Endpoint} {e : Event Endpoint} (hinv : Inv C s)
    (h : Outcome C s e s') : Inv C s' := by
  have hsingle : pendingTurns s' ≤ 1 := by
    have hle := hinv.single
    rcases pendingTurns_outcome h with ⟨-, hturns⟩ | ⟨-, hturns⟩ <;> omega
  cases h with
  | @handling i ep datagram hi honHandle =>
      refine { single := hsingle, closed := hinv.closed, buffer := ?_, handled := ?_ }
      · exact (length_overwrite _ _).trans hinv.buffer
      · intro call hmem
        rcases List.mem_append.mp hmem with hmem | hmem
        · exact hinv.handled call hmem
        · obtain rfl := List.mem_singleton.mp hmem
          refine ⟨(length_overwrite _ _).trans hinv.buffer, ?_⟩
          rw [← hinv.buffer]
          exact Nat.min_le_right _ _
  | unhandled hi honHandle =>
      exact { single := hsingle, closed := hinv.closed,
              buffer := (length_overwrite _ _).trans hinv.buffer, handled := hinv.handled }
  | failed hi =>
      refine { single := hsingle, closed := ?_, buffer := ?_, handled := ?_ }
      · simpa using hinv.closed
      · simpa using hinv.buffer
      · simpa using hinv.handled
  | handleReturned hhandling =>
      refine { single := hsingle, closed := ?_, buffer := ?_, handled := ?_ }
      · simpa using hinv.closed
      · simpa using hinv.buffer
      · simpa using hinv.handled
  | handleThrew hhandling =>
      exact { single := hsingle, closed := hinv.closed, buffer := hinv.buffer,
              handled := hinv.handled }
  | sent sends he =>
      exact { single := hsingle, closed := hinv.closed, buffer := hinv.buffer,
              handled := hinv.handled }
  | destroyed halive =>
      exact { single := hsingle, closed := fun _ => rfl, buffer := hinv.buffer,
              handled := hinv.handled }

/-! ## The closed connection -/

/-- A receive completes with an error after the destructor has closed the socket. -/
def FailsClosed (s : State Endpoint) : Event Endpoint → Prop
  | .failed _ _ _ => s.destroyed = true
  | _ => False

/-- Nothing outside the connection keeps the next receive from starting: no allocation throws. -/
def StartAllowed : Event Endpoint → Prop
  | .failed _ _ started => started = true
  | .handleReturned started => started = true
  | _ => False

/-- Once the destructor has closed the socket and a receive has completed with an error, no
receive is started and `onHandle` is not called. -/
def EndsWithConnection (C : Config) (isOpen : Bool) (events : List (Event Endpoint)) : Prop :=
  Since (step C) FailsClosed (fun s s' => s'.started = s.started ∧ s'.handled = s.handled)
    (init C isOpen) events

/-- The connection is closed and only receives are outstanding that can but fail. -/
structure Spent (s : State Endpoint) : Prop where
  destroyed : s.destroyed = true
  closed : s.isOpen = false
  handling : s.handling = 0
  onClosed : ∀ receive ∈ s.receives, receive.onOpen = false

theorem mem_recvLoopAsync {started : Bool} {s : State Endpoint} {receive : Receive}
    (hmem : receive ∈ (recvLoopAsync started s).receives) :
    receive ∈ s.receives ∨ receive = { onOpen := s.isOpen } := by
  cases started with
  | false => exact .inl hmem
  | true => simpa [recvLoopAsync] using hmem

/-- `RecvLoopAsync` on a closed socket. -/
theorem Spent.recvLoopAsync {s : State Endpoint} (hs : Spent s) (started : Bool) :
    Spent (recvLoopAsync started s) where
  destroyed := by rw [recvLoopAsync_destroyed, hs.destroyed]
  closed := by rw [recvLoopAsync_isOpen, hs.closed]
  handling := by rw [recvLoopAsync_handling, hs.handling]
  onClosed := by
    intro receive hmem
    rcases mem_recvLoopAsync hmem with hmem | rfl
    · exact hs.onClosed receive hmem
    · exact hs.closed

/-- A step of such a connection leaves it so, and does not call `onHandle`. -/
theorem Spent.outcome {s s' : State Endpoint} {e : Event Endpoint} (hs : Spent s)
    (h : Outcome C s e s') : Spent s' ∧ s'.handled = s.handled := by
  have hnone : ∀ i : ℕ, s.receives[i]? ≠ some { onOpen := true } := by
    intro i hi
    have hclosed := hs.onClosed _ (List.mem_of_getElem? hi)
    cases hclosed
  have hidle : ¬ 0 < s.handling := by
    rw [hs.handling]
    exact Nat.lt_irrefl 0
  cases h with
  | handling hi honHandle => exact absurd hi (hnone _)
  | unhandled hi honHandle => exact absurd hi (hnone _)
  | @failed i written started hi =>
      refine ⟨Spent.recvLoopAsync ?_ started, recvLoopAsync_handled _ _⟩
      refine { destroyed := hs.destroyed, closed := hs.closed, handling := hs.handling,
               onClosed := ?_ }
      intro receive hmem
      exact hs.onClosed receive (List.mem_of_mem_eraseIdx hmem)
  | handleReturned hhandling => exact absurd hhandling hidle
  | handleThrew hhandling => exact absurd hhandling hidle
  | sent sends he =>
      exact ⟨{ destroyed := hs.destroyed, closed := hs.closed, handling := hs.handling,
               onClosed := hs.onClosed }, rfl⟩
  | destroyed halive =>
      rw [hs.destroyed] at halive
      cases halive

/-- What a receive leaves that fails on the closed socket. -/
theorem spent_of_failsClosed {s s' : State Endpoint} {e : Event Endpoint} (hinv : Inv C s)
    (hfails : FailsClosed s e) (h : Outcome C s e s') :
    Spent s' ∧ s'.handled = s.handled ∧
      (¬ StartAllowed e → pendingTurns s' = 0 ∧ s'.started = s.started) ∧
      (StartAllowed e → s'.started = s.started + 1) := by
  have hsingle := hinv.single
  cases h with
  | @failed i written started hi =>
      have hlen := length_eraseIdx_add_one hi
      have hnil : s.receives.eraseIdx i = [] := by
        apply List.eq_nil_of_length_eq_zero
        unfold pendingTurns at hsingle
        omega
      have hhandling : s.handling = 0 := by
        unfold pendingTurns at hsingle
        omega
      rw [hnil]
      refine ⟨Spent.recvLoopAsync ?_ started, recvLoopAsync_handled _ _, ?_, ?_⟩
      · refine { destroyed := hfails, closed := hinv.closed hfails, handling := hhandling,
                 onClosed := ?_ }
        intro receive hmem
        cases hmem
      · intro hnot
        rw [Bool.eq_false_iff.mpr hnot]
        refine ⟨?_, rfl⟩
        show 0 + s.handling = 0
        rw [hhandling]
      · rintro rfl
        rfl
  | handling hi honHandle => cases hfails
  | unhandled hi honHandle => cases hfails
  | handleReturned hhandling => cases hfails
  | handleThrew hhandling => cases hfails
  | sent sends he => rcases he with ⟨ep, packet, rfl⟩ | ⟨i, rfl⟩ <;> cases hfails
  | destroyed halive => cases hfails

/-- Without a turn no receive is started and `onHandle` is not called. -/
theorem outcome_of_pendingTurns_eq_zero {s s' : State Endpoint} {e : Event Endpoint}
    (hturns : pendingTurns s = 0) (h : Outcome C s e s') :
    pendingTurns s' = 0 ∧ s'.started = s.started ∧ s'.handled = s.handled := by
  have hreceives : s.receives.length = 0 := Nat.eq_zero_of_add_eq_zero_right hturns
  have hhandling : s.handling = 0 := Nat.eq_zero_of_add_eq_zero_left hturns
  cases h with
  | handling hi honHandle =>
      have hlt := (List.getElem?_eq_some_iff.mp hi).1
      omega
  | unhandled hi honHandle =>
      have hlt := (List.getElem?_eq_some_iff.mp hi).1
      omega
  | failed hi => omega
  | handleReturned hpos => omega
  | handleThrew hpos => omega
  | sent sends he => exact ⟨hturns, rfl, rfl⟩
  | destroyed halive => exact ⟨hturns, rfl, rfl⟩

/-! ## Whole runs -/

section Runs

variable {isOpen : Bool} {events : List (Event Endpoint)} {s : State Endpoint}

/-- Every call of `onHandle` gets a buffer of `RecvSize` bytes, and no more were received. -/
theorem handled_of_run (hrun : run (step C) (init C isOpen) events = some s) :
    ∀ call ∈ s.handled, call.recvBuffer.length = C.recvSize ∧
      call.bytesTransferred ≤ C.recvSize := by
  have hstep : ∀ s e s', Inv C s → step C s e = some s' → Inv C (s' : State Endpoint) :=
    fun s e s' hs h => inv_outcome hs (outcome_of_step h)
  have hinv : Inv C s := run_inv hstep hrun (inv_init C isOpen)
  exact hinv.handled

/-- In a run without exceptions there is a turn at any time. -/
theorem pendingTurns_of_run (hrun : run (step C) (init C isOpen) events = some s)
    (hthrows : Meets (step C) (fun _ e => ¬ Throws C e) (init C isOpen) events) :
    pendingTurns s = 1 := by
  have hstep : ∀ (s : State Endpoint) e s', pendingTurns s = 1 → ¬ Throws C e →
      step C s e = some s' → pendingTurns s' = 1 := by
    intro s e s' hs hnot h
    rcases pendingTurns_outcome (outcome_of_step h) with ⟨-, hturns⟩ | ⟨hthrows, -⟩
    · rw [hturns, hs]
    · exact absurd hthrows hnot
  exact run_induction hstep hrun hthrows rfl

/-- Neither the connection nor a completion handler holds the shared state. -/
def Released (s : State Endpoint) : Prop :=
  s.destroyed = true ∧ pendingTurns s = 0 ∧ s.sends = []

/-- In a run without exceptions the shared state is not released. -/
theorem not_released_of_run (hrun : run (step C) (init C isOpen) events = some s)
    (hthrows : Meets (step C) (fun _ e => ¬ Throws C e) (init C isOpen) events) :
    ¬ Released s := by
  rintro ⟨-, hturns, -⟩
  rw [pendingTurns_of_run hrun hthrows] at hturns
  cases hturns

/-- On a closed connection receives fail and are started again any number of times. -/
theorem fails_forever (hs : Spent s) (hturn : s.receives.length = 1) (n : ℕ) :
    ∃ s', run (step C) s (List.replicate n (.failed 0 [] true)) = some s' ∧
      s'.started = s.started + n := by
  induction n generalizing s with
  | zero => exact ⟨s, rfl, rfl⟩
  | succ n ih =>
      have hfirst : step C s (.failed 0 [] true) = some (recvLoopAsync true
          { s with receives := s.receives.eraseIdx 0
                   recvBuffer := overwrite [] s.recvBuffer }) := by
        have hlt : 0 < s.receives.length := by omega
        exact if_pos hlt
      obtain ⟨hspent, -⟩ := hs.outcome (outcome_of_step hfirst)
      have hlen : (s.receives.eraseIdx 0 ++ [(⟨s.isOpen⟩ : Receive)]).length = 1 := by
        rw [List.length_append, List.length_eraseIdx_of_lt (by omega), List.length_singleton,
          hturn]
      obtain ⟨s', hrest, hstarted⟩ := ih hspent hlen
      refine ⟨s', run_cons_eq_some.mpr ⟨_, hfirst, hrest⟩, ?_⟩
      rw [hstarted]
      simp only [recvLoopAsync, if_true]
      omega

/-- Once the destructor has closed the socket and a receive has completed with an error,
`onHandle` is not called again. -/
theorem handled_since_closed (hrun : run (step C) (init C isOpen) events = some s) :
    Since (step C) FailsClosed (fun s s' => s'.handled = s.handled) (init C isOpen) events := by
  have hall : Meets (step C) (fun s e => FailsClosed s e → True) (init C isOpen) events :=
    meets_of_forall (fun _ _ _ => trivial) _ _
  refine (since_iff_meets (I := Inv C) (J := fun s₀ s => Spent s ∧ s.handled = s₀.handled)
    ?_ ?_ ?_ ?_ ?_ hrun (inv_init C isOpen)).mpr hall
  · exact fun s e s' hs h => inv_outcome hs (outcome_of_step h)
  · exact fun _ _ _ _ _ _ _ => trivial
  · intro s e s' hs hfails h _
    obtain ⟨hspent, hhandled, -, -⟩ := spent_of_failsClosed hs hfails (outcome_of_step h)
    exact ⟨hspent, hhandled⟩
  · rintro s₀ s e s' ⟨hspent, hhandled⟩ h
    obtain ⟨hspent', hhandled'⟩ := hspent.outcome (outcome_of_step h)
    exact ⟨hspent', hhandled'.trans hhandled⟩
  · exact fun s₀ s h => h.2

/-- The loop ends with its connection if and only if no receive completes with an error after
the destructor has closed the socket, unless an exception keeps it from starting the next
one. -/
theorem endsWithConnection_iff (hrun : run (step C) (init C isOpen) events = some s) :
    EndsWithConnection C isOpen events ↔
      Meets (step C) (fun s e => FailsClosed s e → ¬ StartAllowed e) (init C isOpen) events := by
  refine since_iff_meets (I := Inv C) (J := fun s₀ s => pendingTurns s = 0 ∧
    s.started = s₀.started ∧ s.handled = s₀.handled) ?_ ?_ ?_ ?_ ?_ hrun (inv_init C isOpen)
  · exact fun s e s' hs h => inv_outcome hs (outcome_of_step h)
  · rintro s e s' hs hfails h ⟨hstarted, -⟩ hallowed
    obtain ⟨-, -, -, hnext⟩ := spent_of_failsClosed hs hfails (outcome_of_step h)
    rw [hnext hallowed] at hstarted
    exact absurd hstarted (Nat.succ_ne_self _)
  · intro s e s' hs hfails h hnot
    obtain ⟨-, hhandled, hover, -⟩ := spent_of_failsClosed hs hfails (outcome_of_step h)
    obtain ⟨hturns, hstarted⟩ := hover hnot
    exact ⟨hturns, hstarted, hhandled⟩
  · rintro s₀ s e s' ⟨hturns, hstarted, hhandled⟩ h
    obtain ⟨hturns', hstarted', hhandled'⟩ :=
      outcome_of_pendingTurns_eq_zero hturns (outcome_of_step h)
    exact ⟨hturns', hstarted'.trans hstarted, hhandled'.trans hhandled⟩
  · exact fun s₀ s h => h.2

end Runs

/-- A datagram, an error, a packet, and an exception that ends the loop after the close. -/
def sampleEvents : List (Event ℕ) :=
  [.received 0 5 [1, 2], .handleReturned true, .failed 0 [] true, .send 5 [7], .destroy,
    .failed 0 [] false]

theorem sampleEvents_endsWithConnection :
    ∃ s, run (step {}) (init {} true) sampleEvents = some s ∧
      (EndsWithConnection {} true sampleEvents ↔
        Meets (step {}) (fun s e => FailsClosed s e → ¬ StartAllowed e) (init {} true)
          sampleEvents) :=
  ⟨_, rfl, endsWithConnection_iff rfl⟩

/-- The receive that the close makes fail starts another one. -/
theorem rearmed_after_close :
    ¬ EndsWithConnection {} true ([.destroy, .failed 0 [] true] : List (Event ℕ)) := by
  intro h
  have hlater := (h _ rfl).2 _ rfl
  have hstarted : 2 = 1 := (hlater.1 rfl).1
  cases hstarted

end BacsEnv.Gspp.Datagram
