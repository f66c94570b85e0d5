import BacsEnv.Library.Transition
import BacsEnv.Analysis.Bacs.ReadSteps
import BacsEnv.Analysis.Gspp.PacketCallback

/-!
# A connection stops receiving

The loop goes on only when the packet callback says `true`, which it does after a dispatch
that returned `Continue` on a connection that is not killed then. So with callbacks that do
not throw, nothing of the user's is called after the first frame for which this fails.
`run_of_loop` says that `async_read_sp_loop` goes through such a run on every stream.
-/

set_option autoImplicit false

namespace BacsEnv.Gspp.DualConnection

open BacsEnv.Transition

variable {σ : Type} {setup : Setup σ}

/-- No callback throws. `HandlePacket` may. -/
structure CallbacksReturn (setup : Setup σ) : Prop where
  onHandle : ∀ result c what c', ¬ Throws (setup.onHandleWith result) c what c'
  onHandleException : ∀ e c what c', ¬ Throws (setup.onHandleExceptionWith e) c what c'
  onDeath : ∀ c what c', ¬ Throws setup.onDeath c what c'

/-- The dispatch of a frame in `s` returns `Disconnect`, throws or ends with `killed()`, or
the connection is killed when its callback, which leads to `s'`, is done. -/
def Stopping (setup : Setup σ) (buffer : List UInt8) (s s' : Session σ) : Prop :=
  match (setup.handlePacket buffer).run s.connection with
  | .ok result c => result = .disconnect ∨ c.killed = true ∨ s'.killed = true
  | .error _ _ => True

/-- What is promised of a run from `c` to `s`. -/
structure StopsInTime (setup : Setup σ) (c : Connection σ) (events : List Event)
    (s : Session σ) : Prop where
  /-- All that is called after the dispatch that stops the connection is its own
  notification. -/
  stopped : ∀ before frame after s₀ s₁, events = before ++ .received frame :: after →
    run (step setup) (started c) before = some s₀ →
    step setup s₀ (.received frame) = some s₁ → frame.failed = false →
    Stopping setup frame.buffer s₀ s₁ →
    ∃ threw own, s.calls = s₀.calls ++ ⟨.handlePacket frame.buffer, threw⟩ :: own ∧
      Notifies own (onHandleCount setup)
  outside : ∀ before after s₀, events = before ++ .scheduleDisconnect :: after →
    run (step setup) (started c) before = some s₀ →
    s.calls.countP UserCall.isHandlePacket ≤ s₀.calls.countP UserCall.isHandlePacket + 1
  thrown : ∀ call ∈ s.calls, call.isHandlePacket = true → call.threw = true → s.killed = true
  death : s.calls.countP UserCall.isOnDeath ≤ 1
  death_last : ∀ earlier call later, s.calls = earlier ++ call :: later →
    call.isOnDeath = true → later = []

/-! ## Steps -/

/-- What a frame does when no callback throws: its dispatch and the notifications `own`. -/
structure Framed (setup : Setup σ) (buffer : List UInt8) (threw : Bool) (own : List UserCall)
    (s s' : Session σ) : Prop where
  calls_eq : s'.calls = s.calls ++ ⟨.handlePacket buffer, threw⟩ :: own
  notifies : Notifies own (onHandleCount setup)
  killed : s.killed = true → s'.killed = true
  thrown : threw = true → s'.killed = true
  stops : Stopping setup buffer s s' → s'.receiving = false

theorem framed_of_step (hreturn : CallbacksReturn setup) {c : BacsEnv.Bacs.Call}
    (hframe : c.failed = false) {s s' : Session σ}
    (h : step setup s (.received c) = some s') :
    ∃ threw own, Framed setup c.buffer threw own s s' := by
  obtain ⟨-, rfl⟩ := step_received h
  rw [handler_of_frame hframe]
  cases hrun : (setup.handlePacket c.buffer).run s.connection with
  | error what c₁ =>
      have hfirst := Extends.record (s := s) (setup.handlePacket c.buffer) (by rw [hrun])
        (.handlePacket c.buffer) true
      obtain ⟨own, s₂, hgoes, hext, hown, hkilled⟩ := catchClause_of_not_throws
        (s := s.record (.handlePacket c.buffer) true c₁)
        (fun e c' => hreturn.onHandleException what _ e c')
      have hcalls : s₂.calls = s.calls ++ ⟨.handlePacket c.buffer, true⟩ :: own :=
        (hfirst.trans hext).calls_eq
      rw [packetCallback_of_throws hrun, hgoes]
      exact ⟨true, own, { calls_eq := hcalls
                          notifies := hown
                          killed := fun _ => hkilled
                          thrown := fun _ => hkilled
                          stops := fun _ => rfl }⟩
  | ok result c₁ =>
      have hfirst := Extends.record (s := s) (setup.handlePacket c.buffer) (by rw [hrun])
        (.handlePacket c.buffer) false
      obtain ⟨s₂, hcallback, hext⟩ := packetCallback_of_returned hrun (hreturn.onHandle result c₁)
      rw [hcallback]
      refine ⟨false, _, { calls_eq := (hfirst.trans hext).calls_eq
                          notifies := notifies_notice_onHandle setup result
                          killed := (hfirst.trans hext).killed
                          thrown := fun hthrew => absurd hthrew (by decide)
                          stops := ?_ }⟩
      intro hstop
      unfold Stopping at hstop
      rw [hrun] at hstop
      show (decide (result = .continue) && !s₂.killed) = false
      rcases hstop with rfl | hkilled | hkilled
      · rfl
      · have hk : s₂.killed = true := hext.killed hkilled
        rw [hk]
        exact Bool.and_false _
      · have hk : s₂.killed = true := hkilled
        rw [hk]
        exact Bool.and_false _

/-- What a step does when no callback throws. -/
inductive Stepped (setup : Setup σ) (s s' : Session σ) : Event → Prop
  | frame {c : BacsEnv.Bacs.Call} {threw : Bool} {own : List UserCall}
      (hreceiving : s.receiving = true) (hframe : c.failed = false)
      (hframed : Framed setup c.buffer threw own s s') : Stepped setup s s' (.received c)
  | died {c : BacsEnv.Bacs.Call} (hreceiving : s.receiving = true) (hfailed : c.failed = true)
      (hcalls : s'.calls = s.calls ++ notice .onDeath setup.onDeath)
      (hkilled : s.killed = true → s'.killed = true) (hstopped : s'.receiving = false) :
      Stepped setup s s' (.received c)
  | outside (hs' : s' = scheduleDisconnect s) : Stepped setup s s' .scheduleDisconnect

theorem stepped_of_step (hreturn : CallbacksReturn setup) {e : Event} {s s' : Session σ}
    (h : step setup s e = some s') : Stepped setup s s' e := by
  cases e with
  | scheduleDisconnect => exact .outside (Option.some.inj h).symm
  | received c =>
      obtain ⟨hreceiving, hs'⟩ := step_received h
      cases hfailed : c.failed with
      | false =>
          obtain ⟨threw, own, hframed⟩ := framed_of_step hreturn hfailed h
          exact .frame hreceiving hfailed hframed
      | true =>
          obtain ⟨s₁, hdeath, hext⟩ := notify_of_not_throws (s := s) .onDeath
            (hreturn.onDeath s.connection)
          rw [handler_of_failed hfailed, deathCallback, hdeath] at hs'
          subst hs'
          exact .died hreceiving hfailed hext.calls_eq hext.killed rfl

/-! ## Runs -/

/-- What is known of the calls of a connection: a dispatch that threw has killed it, and
`onDeath` was called last, by a loop that ended. -/
structure Inv (s : Session σ) : Prop where
  thrown : ∀ call ∈ s.calls, call.isHandlePacket = true → call.threw = true → s.killed = true
  alive : s.receiving = true → s.calls.countP UserCall.isOnDeath = 0
  death : ∃ earlier later, s.calls = earlier ++ later ∧ later.length ≤ 1 ∧
    earlier.countP UserCall.isOnDeath = 0

theorem inv_started (c : Connection σ) : Inv (started c) :=
  { thrown := by
      intro call hmem
      cases hmem
    alive := fun _ => rfl
    death := ⟨[], [], rfl, Nat.zero_le _, rfl⟩ }

theorem length_notice_le (callee : Callee) (callback : Option (UserCode σ Unit)) :
    (notice callee callback).length ≤ 1 := by
  unfold notice
  split
  · exact le_refl 1
  · exact Nat.zero_le 1

theorem inv_step (hreturn : CallbacksReturn setup) {e : Event} {s s' : Session σ} (hs : Inv s)
    (h : step setup s e = some s') : Inv s' := by
  cases stepped_of_step hreturn h with
  | frame hreceiving hframe hframed =>
      have hdeaths : s'.calls.countP UserCall.isOnDeath = 0 := by
        rw [hframed.calls_eq, List.countP_append, hs.alive hreceiving, Nat.zero_add,
          List.countP_cons_of_neg (by simp [UserCall.isOnDeath]), hframed.notifies.no_onDeath]
      refine { thrown := ?_, alive := fun _ => hdeaths, death := ?_ }
      · intro call hmem hdispatch hthrew
        rw [hframed.calls_eq, List.mem_append, List.mem_cons] at hmem
        rcases hmem with hmem | rfl | hmem
        · exact hframed.killed (hs.thrown call hmem hdispatch hthrew)
        · exact hframed.thrown hthrew
        · have hnone := List.countP_eq_zero.mp hframed.notifies.no_handlePacket call hmem
          exact absurd hdispatch hnone
      · exact ⟨s'.calls, [], (List.append_nil _).symm, Nat.zero_le _, hdeaths⟩
  | died hreceiving hfailed hcalls hkilled hstopped =>
      refine { thrown := ?_, alive := ?_, death := ?_ }
      · intro call hmem hdispatch hthrew
        rw [hcalls, List.mem_append] at hmem
        rcases hmem with hmem | hmem
        · exact hkilled (hs.thrown call hmem hdispatch hthrew)
        · rw [threw_of_mem_notice hmem] at hthrew
          cases hthrew
      · intro hagain
        rw [hstopped] at hagain
        cases hagain
      · exact ⟨s.calls, _, hcalls, length_notice_le _ _, hs.alive hreceiving⟩
  | outside hs' =>
      rw [hs']
      exact { thrown := fun _ _ _ _ => rfl, alive := hs.alive, death := hs.death }

theorem inv_run (hreturn : CallbacksReturn setup) {events : List Event} {s s' : Session σ}
    (hs : Inv s) (hrun : run (step setup) s events = some s') : Inv s' :=
  run_inv (fun _ _ _ hs h => inv_step hreturn hs h) hrun hs

/-- An element with a property that only the last one can have is the last one. -/
theorem last_of_append {α : Type} {p : α → Bool} {l l' earlier later : List α} {a : α}
    (hnone : l.countP p = 0) (hlen : l'.length ≤ 1) (hsplit : l ++ l' = earlier ++ a :: later)
    (ha : p a = true) : later = [] := by
  rcases List.append_eq_append_iff.mp hsplit with ⟨as, -, hl'⟩ | ⟨bs, hl, hrest⟩
  · rw [hl', List.length_append, List.length_cons] at hlen
    exact List.length_eq_zero_iff.mp (by omega)
  · cases bs with
    | nil =>
        have hl' : l' = a :: later := hrest.symm
        rw [hl', List.length_cons] at hlen
        exact List.length_eq_zero_iff.mp (by omega)
    | cons b bs =>
        obtain ⟨rfl, -⟩ := List.cons.inj hrest
        have hmem : a ∈ l := by
          rw [hl]
          exact List.mem_append_right _ List.mem_cons_self
        exact absurd ha (List.countP_eq_zero.mp hnone a hmem)

/-- A loop that ended makes no more calls. -/
theorem calls_of_stopped {events : List Event} {s s' : Session σ} (hs : s.receiving = false)
    (hrun : run (step setup) s events = some s') : s'.calls = s.calls := by
  induction events generalizing s with
  | nil =>
      obtain rfl := Option.some.inj hrun
      rfl
  | cons e events ih =>
      obtain ⟨s₁, he, hrest⟩ := run_cons_eq_some.mp hrun
      cases e with
      | received c =>
          have hreceiving := (step_received he).1
          rw [hs] at hreceiving
          cases hreceiving
      | scheduleDisconnect =>
          obtain rfl : scheduleDisconnect s = s₁ := Option.some.inj he
          exact ih (s := scheduleDisconnect s) hs hrest

/-- A killed connection dispatches at most one more frame. -/
theorem dispatches_of_killed (hreturn : CallbacksReturn setup) {events : List Event}
    {s s' : Session σ} (hkilled : s.killed = true)
    (hrun : run (step setup) s events = some s') :
    s'.calls.countP UserCall.isHandlePacket ≤ s.calls.countP UserCall.isHandlePacket + 1 := by
  induction events generalizing s with
  | nil =>
      obtain rfl := Option.some.inj hrun
      omega
  | cons e events ih =>
      obtain ⟨s₁, he, hrest⟩ := run_cons_eq_some.mp hrun
      cases stepped_of_step hreturn he with
      | @frame c threw own hreceiving hframe hframed =>
          have hstop : Stopping setup c.buffer s s₁ := by
            unfold Stopping
            split
            · exact Or.inr (Or.inr (hframed.killed hkilled))
            · trivial
          rw [calls_of_stopped (hframed.stops hstop) hrest, hframed.calls_eq, List.countP_append,
            List.countP_cons_of_pos (by simp [UserCall.isHandlePacket]),
            hframed.notifies.no_handlePacket]
      | died hreceiving hfailed hcalls hkilled' hstopped =>
          have hnone : (notice .onDeath setup.onDeath).countP UserCall.isHandlePacket = 0 := by
            unfold notice
            split <;> rfl
          rw [calls_of_stopped hstopped hrest, hcalls, List.countP_append, hnone]
          omega
      | outside hs' =>
          have hlater := ih (s := s₁) (by rw [hs']; rfl) hrest
          rwa [hs'] at hlater

/-- A connection stops receiving after the first frame whose dispatch returned `Disconnect`,
threw or ended with `killed()`, and dispatches at most one frame after a
`ScheduleDisconnect` from outside. -/
theorem stops_in_time (hreturn : CallbacksReturn setup) {c : Connection σ} {events : List Event}
    {s : Session σ} (hrun : run (step setup) (started c) events = some s) :
    StopsInTime setup c events s := by
  have hs : Inv s := inv_run hreturn (inv_started c) hrun
  obtain ⟨earlier, later, hcalls, hlen, hnone⟩ := hs.death
  refine { stopped := ?_, outside := ?_, thrown := hs.thrown, death := ?_, death_last := ?_ }
  · intro before frame after s₀ s₁ hevents hbefore hstep hframe hstop
    rw [hevents] at hrun
    obtain ⟨s₂, hbefore', hrest⟩ := run_append_eq_some.mp hrun
    obtain rfl : s₀ = s₂ := Option.some.inj (hbefore.symm.trans hbefore')
    obtain ⟨s₃, hstep', hafter⟩ := run_cons_eq_some.mp hrest
    obtain rfl : s₁ = s₃ := Option.some.inj (hstep.symm.trans hstep')
    obtain ⟨threw, own, hframed⟩ := framed_of_step hreturn hframe hstep
    refine ⟨threw, own, ?_, hframed.notifies⟩
    rw [calls_of_stopped (hframed.stops hstop) hafter, hframed.calls_eq]
  · intro before after s₀ hevents hbefore
    rw [hevents] at hrun
    obtain ⟨s₂, hbefore', hrest⟩ := run_append_eq_some.mp hrun
    obtain rfl : s₀ = s₂ := Option.some.inj (hbefore.symm.trans hbefore')
    obtain ⟨s₁, hstep, hafter⟩ := run_cons_eq_some.mp hrest
    obtain rfl : scheduleDisconnect s₀ = s₁ := Option.some.inj hstep
    exact dispatches_of_killed hreturn (s := scheduleDisconnect s₀) rfl hafter
  · rw [hcalls, List.countP_append, hnone, Nat.zero_add]
    exact List.countP_le_length.trans hlen
  · intro earlier' call later' hsplit hdeath
    exact last_of_append hnone hlen (hcalls.symm.trans hsplit) hdeath

/-- Empty frames are handled, and the dispatch of others throws. -/
def emptyFramesOnly : Setup Unit :=
  { handlePacket := fun buffer =>
      if buffer = [] then returning .continue else throwing (text "HandlePacket")
    onHandle := some fun _ => returning ()
    onDeath := some (returning ())
    onHandleException := some fun _ => returning () }

theorem callbacksReturn_emptyFramesOnly : CallbacksReturn emptyFramesOnly where
  onHandle := by
    rintro result c what c' ⟨code, hcode, hrun⟩
    obtain rfl := Option.some.inj hcode
    cases hrun
  onHandleException := by
    rintro e c what c' ⟨code, hcode, hrun⟩
    obtain rfl := Option.some.inj hcode
    cases hrun
  onDeath := by
    rintro c what c' ⟨code, hcode, hrun⟩
    obtain rfl := Option.some.inj hcode
    cases hrun

/-- A frame that is handled, one on which the dispatch throws, and a kill from outside. -/
theorem emptyFramesOnly_stops_in_time :
    StopsInTime emptyFramesOnly ⟨false, ()⟩ [frameOf [], frameOf [7], .scheduleDisconnect]
      { connection := ⟨true, ()⟩
        receiving := false
        calls := [⟨.handlePacket [], false⟩, ⟨.onHandle .continue, false⟩,
          ⟨.handlePacket [7], true⟩, ⟨.onHandleException (text "HandlePacket"), false⟩,
          ⟨.onHandle .disconnect, false⟩] } :=
  stops_in_time callbacksReturn_emptyFramesOnly rfl

/-! ## The receive loop -/

section Loop

open BacsEnv.Bacs

/-- The handler of the loop, when `ScheduleDisconnect` is called from outside before each
of its calls that the list marks. -/
def interrupted (setup : Setup σ) : Handler (List Bool × Session σ) := fun c s =>
  let s₀ := if s.1.headD false then scheduleDisconnect s.2 else s.2
  let (again, s₁) := handler setup c s₀
  (again, s.1.tail, { s₁ with receiving := again })

/-- The events of some calls of the handler and the marked calls from outside. -/
def eventsOf : List Bool → List Call → List Event
  | _, [] => []
  | kills, c :: calls =>
      (if kills.headD false then [.scheduleDisconnect] else []) ++
        .received c :: eventsOf kills.tail calls

/-- One call of the handler. -/
theorem run_of_call {kills : List Bool} {c : Call} {s : Session σ} (hs : s.receiving = true)
    (events : List Event) :
    run (step setup) s ((if kills.headD false then [.scheduleDisconnect] else []) ++
        .received c :: events) =
      run (step setup) (interrupted setup c (kills, s)).2.2 events := by
  unfold interrupted
  cases kills.headD false with
  | false =>
      show (step setup s (.received c)).bind _ = _
      rw [step_of_receiving c hs]
      rfl
  | true =>
      have hkilled : (scheduleDisconnect s).receiving = true := hs
      show (step setup (scheduleDisconnect s) (.received c)).bind _ = _
      rw [step_of_receiving c hkilled]
      rfl

/-- `async_read_sp_loop` with the handler of a connection, on any stream and with any calls
of `ScheduleDisconnect` from outside between the frames, goes through a run of the
connection. -/
theorem run_of_loop (T : SPTraits) (heap : Heap) (input : Incoming) (fuel position : ℕ)
    (kills : List Bool) {s : Session σ} (hs : s.receiving = true) :
    run (step setup) s (eventsOf kills
        ((asyncReadSpLoop T heap input (interrupted setup) fuel position (kills, s)).1.map
          Round.call)) =
      some (asyncReadSpLoop T heap input (interrupted setup) fuel position (kills, s)).2.2 := by
  induction fuel generalizing position kills s with
  | zero => rfl
  | succ fuel ih =>
      cases hturn : asyncReadSp T heap input position with
      | none =>
          rw [asyncReadSpLoop_succ_of_none hturn]
          rfl
      | some turn =>
          obtain ⟨c, next⟩ := turn
          rw [asyncReadSpLoop_succ hturn]
          cases hagain : (interrupted setup c (kills, s)).1 with
          | false =>
              simp only [Bool.false_eq_true, if_false, List.map_cons, List.map_nil, eventsOf]
              rw [run_of_call hs]
              rfl
          | true =>
              have hnext : (interrupted setup c (kills, s)).2.2.receiving = true := hagain
              simp only [if_true, List.map_cons, eventsOf]
              rw [run_of_call hs]
              exact ih next kills.tail hnext

end Loop

end BacsEnv.Gspp.DualConnection
