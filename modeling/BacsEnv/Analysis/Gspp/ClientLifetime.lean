import BacsEnv.Model.Gspp.ClientLifetime
import BacsEnv.Analysis.Gspp.ClientSteps
import BacsEnv.Library.Simulation
import Mathlib.Data.List.InsertIdx

/-!
# When the shared state of a client is released

A destroyed client leaves its shared state to the operations that are outstanding. Once the
socket is closed, only boundedly many steps remain, and the last one releases it. Before
that, the completion of a write closes the socket. So the state is only kept when nothing
writes the packets that are queued and a receive loop waits for the peer
(`shared_state_released`). A receive loop that waits when the client is destroyed calls one
of its callbacks afterwards, whatever happens, if both are set (`called_after_destruction`).
The callbacks of one receive loop never overlap (`callbacks_one_at_a_time`).
-/

set_option autoImplicit false

namespace BacsEnv.Gspp.Client

open BacsEnv.Bacs BacsEnv.Transition

variable {T : SPTraits}

/-! ## What a step does -/

/-- A read of a receive loop is taken out. -/
def dropRead (c : Client) (i : ℕ) : Client := { c with reads := c.reads.eraseIdx i }

/-- A callback that ran is taken out. -/
def dropCall (c : Client) (i : ℕ) : Client := { c with running := c.running.eraseIdx i }

/-- What a step of a receive loop can do before a `shared_ptr` is let go. -/
inductive LoopActed (c : Client) : Event → Client → Prop
  | looped {started : Bool} (halive : c.destroyed = false) :
      LoopActed c (.startReceiveLoop started)
        ({ c with loops := c.loops + started.toNat }.asyncReadSpLoop c.loops started)
  | sizeRead {i : ℕ} {started : Bool} {read : PendingRead} (hread : c.reads[i]? = some read)
      (honOpen : read.onOpen = true) :
      LoopActed c (.readCompleted i true true started) ((c.dropRead i).startRead .body read.loop)
  | handed {i : ℕ} {ok accepted started : Bool} {read : PendingRead}
      (hread : c.reads[i]? = some read) (honOpen : ok = true → read.onOpen = true) :
      LoopActed c (.readCompleted i ok accepted started)
        ((c.dropRead i).loopHandler read.loop ok started)
  | died {i loop : ℕ} {again started : Bool} (hrunning : c.running[i]? = some ⟨.onDeath, loop⟩) :
      LoopActed c (.returned i again started) (c.dropCall i)
  | handled {i loop : ℕ} {again started : Bool}
      (hrunning : c.running[i]? = some ⟨.onHandle, loop⟩) :
      LoopActed c (.returned i again started)
        ((c.dropCall i).asyncReadSpLoop loop (again && started))

/-- What a step can do before a `shared_ptr` is let go. -/
inductive Acted (T : SPTraits) (c : Client) : Event → Client → Prop
  | sent {e : Gspp.Event} {s' : State} (huse : c.destroyed = true → usesClient e = false)
      (hstep : Gspp.step T c.state e = some s') :
      Acted T c (.sender e) { c with state := s' }
  | loop {e : Event} {c₁ : Client} (hloop : LoopActed c e c₁) : Acted T c e c₁
  | destroyed (halive : c.destroyed = false) :
      Acted T c .destroy { c with destroyed := true, state := closeSocket c.state }

/-- Every step is one of these. -/
theorem acted_of_act {c c' : Client} {e : Event} (h : act T c e = some c') : Acted T c e c' := by
  cases e with
  | sender e =>
      obtain ⟨huse, hstep⟩ := Option.ite_none_left_eq_some.mp h
      obtain ⟨s', hs', rfl⟩ := Option.map_eq_some_iff.mp hstep
      refine .sent ?_ hs'
      intro hdestroyed
      exact Bool.eq_false_iff.mpr fun huses => huse ⟨hdestroyed, huses⟩
  | startReceiveLoop started =>
      obtain ⟨halive, hc'⟩ := Option.ite_none_left_eq_some.mp h
      cases hc'
      exact .loop (.looped (Bool.eq_false_iff.mpr halive))
  | readCompleted i ok accepted started =>
      simp only [act, readCompleted] at h
      split at h
      · cases h
      · rename_i read hread
        cases ok with
        | false =>
            cases h
            exact .loop (.handed hread fun hok => by cases hok)
        | true =>
            obtain ⟨honOpen, hc'⟩ := Option.ite_none_right_eq_some.mp h
            split at hc'
            · cases accepted with
              | false =>
                  cases hc'
                  exact .loop (.handed hread fun _ => honOpen)
              | true =>
                  cases hc'
                  exact .loop (.sizeRead hread honOpen)
            · cases hc'
              exact .loop (.handed hread fun _ => honOpen)
  | returned i again started =>
      simp only [act, returned] at h
      split at h
      · cases h
      · rename_i hrunning
        cases h
        exact .loop (.died hrunning)
      · rename_i hrunning
        cases again with
        | false =>
            cases h
            exact .loop (.handled hrunning)
        | true =>
            cases h
            exact .loop (.handled hrunning)
  | destroy =>
      obtain ⟨halive, hc'⟩ := Option.ite_none_left_eq_some.mp h
      cases hc'
      exact .destroyed (Bool.eq_false_iff.mpr halive)

/-- What the handler of `StartReceiveLoop` does: it calls a callback that is set, an empty
`on_handle` goes on and an empty `on_death` ends the loop. -/
theorem loopHandler_cases (c : Client) (loop : ℕ) (ok started : Bool) :
    (ok = true ∧ c.onHandle = true ∧ c.loopHandler loop ok started = c.enter .onHandle loop) ∨
      (ok = true ∧ c.onHandle = false ∧
        c.loopHandler loop ok started = c.asyncReadSpLoop loop started) ∨
      (ok = false ∧ c.onDeath = true ∧ c.loopHandler loop ok started = c.enter .onDeath loop) ∨
      (ok = false ∧ c.onDeath = false ∧ c.loopHandler loop ok started = c) := by
  unfold loopHandler
  cases ok <;> cases c.onHandle <;> cases c.onDeath <;> simp

/-- What a receive loop leaves alone. It only counts the callbacks it calls when the client
is gone, and none when both are empty. -/
structure Kept (c c₁ : Client) : Prop where
  onHandle : c₁.onHandle = c.onHandle
  onDeath : c₁.onDeath = c.onDeath
  destroyed : c₁.destroyed = c.destroyed
  state : c₁.state = c.state
  released : c₁.released = c.released
  late : c.destroyed = false ∨ (c.onHandle = false ∧ c.onDeath = false) → c₁.late = c.late

theorem kept_asyncReadSpLoop (c : Client) (loop : ℕ) (started : Bool) :
    Kept c (c.asyncReadSpLoop loop started) := by
  cases started <;> exact ⟨rfl, rfl, rfl, rfl, rfl, fun _ => rfl⟩

theorem kept_enter {c : Client} {callback : Callback} (loop : ℕ)
    (hset : c.onHandle = true ∨ c.onDeath = true) : Kept c (c.enter callback loop) where
  onHandle := rfl
  onDeath := rfl
  destroyed := rfl
  state := rfl
  released := rfl
  late := by
    rintro (halive | ⟨hhandle, hdeath⟩)
    · show c.late + c.destroyed.toNat = c.late
      rw [halive]
      rfl
    · simp [hhandle, hdeath] at hset

theorem kept_loopHandler (c : Client) (loop : ℕ) (ok started : Bool) :
    Kept c (c.loopHandler loop ok started) := by
  rcases loopHandler_cases c loop ok started with
    ⟨-, hset, hc⟩ | ⟨-, -, hc⟩ | ⟨-, hset, hc⟩ | ⟨-, -, hc⟩ <;> rw [hc]
  · exact kept_enter loop (Or.inl hset)
  · exact kept_asyncReadSpLoop c loop started
  · exact kept_enter loop (Or.inr hset)
  · exact ⟨rfl, rfl, rfl, rfl, rfl, fun _ => rfl⟩

/-- Reads, callbacks and loops are not part of what is kept. -/
theorem Kept.of_parts {c c₁ c₂ : Client} (h : Kept c₁ c₂)
    (hparts : c₁ = { c with loops := c₁.loops, reads := c₁.reads, running := c₁.running }) :
    Kept c c₂ := by
  obtain ⟨hhandle, hdeath, hdestroyed, hstate, hreleased, hlate⟩ := h
  rw [hparts] at hhandle hdeath hdestroyed hstate hreleased hlate
  exact ⟨hhandle, hdeath, hdestroyed, hstate, hreleased, hlate⟩

theorem kept_of_loopActed {c c₁ : Client} {e : Event} (h : LoopActed c e c₁) : Kept c c₁ := by
  cases h with
  | looped => exact (kept_asyncReadSpLoop _ _ _).of_parts rfl
  | sizeRead => exact ⟨rfl, rfl, rfl, rfl, rfl, fun _ => rfl⟩
  | handed => exact (kept_loopHandler _ _ _ _).of_parts rfl
  | died => exact ⟨rfl, rfl, rfl, rfl, rfl, fun _ => rfl⟩
  | handled => exact (kept_asyncReadSpLoop _ _ _).of_parts rfl

/-- A receive loop steps while there is a client, a read or a callback. -/
theorem alive_of_loopActed {c c₁ : Client} {e : Event} (h : LoopActed c e c₁) :
    c.destroyed = false ∨ c.reads ≠ [] ∨ c.running ≠ [] := by
  have hsome : ∀ {α : Type} {xs : List α} {i : ℕ} {x : α}, xs[i]? = some x → xs ≠ [] := by
    intro α xs i x hx hnil
    rw [hnil] at hx
    cases hx
  cases h with
  | looped halive => exact Or.inl halive
  | sizeRead hread => exact Or.inr (Or.inl (hsome hread))
  | handed hread => exact Or.inr (Or.inl (hsome hread))
  | died hrunning => exact Or.inr (Or.inr (hsome hrunning))
  | handled hrunning => exact Or.inr (Or.inr (hsome hrunning))

/-! ## The sending side without its client -/

variable {s s' : State} {e : Gspp.Event}

/-- Without the client, only the outstanding write goes on. -/
theorem writes_ne_nil_of_step (huse : usesClient e = false) (h : Gspp.step T s e = some s') :
    s.writes ≠ [] := by
  have hthere : ∀ {i : ℕ} {op : AsyncWrite}, s.writes[i]? = some op → s.writes ≠ [] := by
    intro i op hop hnil
    rw [hnil] at hop
    cases hop
  cases stepped_of_step h with
  | sentFirst => cases huse
  | queued => cases huse
  | closedNow => cases huse
  | shutdownAsked => cases huse
  | transferred hop => exact hthere hop
  | failed hop => exact hthere hop
  | headerWritten hop => exact hthere hop
  | bodyWritten hop => exact hthere hop

/-- A socket that is closed, or will be when the outstanding write has completed. -/
def Leaving (s : State) : Prop := s.closed = true ∨ (s.shutdown = true ∧ s.writeQueue ≠ [])

/-- The completion of a write closes the socket when that was asked for. -/
theorem leaving_of_onWritten {start : Start} {s₁ : State} (h : onWritten T start s₁ = some s')
    (hs : s₁.closed = true ∨ s₁.shutdown = true) : Leaving s' := by
  left
  rw [(onWritten_kept h).1]
  rcases hs with hclosed | hdown
  · rw [hclosed]
    rfl
  · rw [hdown, Bool.or_true]

theorem leaving_of_step (huse : usesClient e = false) (hs : Leaving s)
    (h : Gspp.step T s e = some s') : Leaving s' := by
  have hsome : s.closed = true ∨ s.shutdown = true := hs.imp_right And.left
  cases stepped_of_step h with
  | sentFirst => cases huse
  | queued => cases huse
  | closedNow => cases huse
  | shutdownAsked => cases huse
  | transferred => exact hs
  | failed hop hnext => exact leaving_of_onWritten hnext hsome
  | headerWritten hop hopen hall hphase hwrite =>
      rcases asyncWrite_cases hwrite with ⟨-, rfl, -⟩ | ⟨taken, -, -, -, -, rfl⟩
      · exact hs
      · exact hs
  | bodyWritten hop hopen hall hphase hnext => exact leaving_of_onWritten hnext hsome

theorem leaving_closeSocket (s : State) : Leaving (closeSocket s) := by
  unfold closeSocket
  by_cases hq : s.writeQueue = []
  · rw [if_pos hq]
    exact Or.inl rfl
  · rw [if_neg hq]
    exact Or.inr ⟨rfl, hq⟩

/-- On a closed socket every completion takes a packet from the queue. -/
theorem closed_step (hs : Manned T s) (huse : usesClient e = false) (hclosed : s.closed = true)
    (h : Gspp.step T s e = some s') :
    s'.closed = true ∧ s'.writeQueue.length < s.writeQueue.length := by
  cases stepped_of_step h with
  | sentFirst => cases huse
  | queued => cases huse
  | closedNow => cases huse
  | shutdownAsked => cases huse
  | transferred hop hopen => simp [hopen] at hclosed
  | headerWritten hop hopen => simp [hopen] at hclosed
  | bodyWritten hop hopen => simp [hopen] at hclosed
  | failed hop hnext =>
      obtain ⟨-, -, herase, front, rest, hq, -⟩ := hs.writes_getElem? hop
      have hkept := (onWritten_kept hnext).1
      refine ⟨by rw [hkept, hclosed]; rfl, ?_⟩
      rw [onWritten_eq (s := { s with writes := s.writes.eraseIdx _ }) _ herase hq] at hnext
      cases rest with
      | nil =>
          cases hnext
          rw [hq]
          exact Nat.succ_pos _
      | cons next rest =>
          obtain ⟨⟨s₂, returned⟩, hwrite, rfl⟩ := Option.map_eq_some_iff.mp hnext
          rw [(writeAsync_kept hwrite).1, hq]
          exact Nat.lt_succ_self _

/-! ## The references -/

theorem useCount_eq_zero_iff {c : Client} :
    c.useCount = 0 ↔
      c.destroyed = true ∧ c.state.writes = [] ∧ c.reads = [] ∧ c.running = [] := by
  unfold useCount
  cases c.destroyed with
  | false => simp
  | true => simp [and_assoc]

theorem useCount_ne_zero_of_act {c c' : Client} {e : Event} (h : act T c e = some c') :
    c.useCount ≠ 0 := by
  intro hzero
  obtain ⟨hdestroyed, hwrites, hreads, hrunning⟩ := useCount_eq_zero_iff.mp hzero
  have hdead : c.destroyed ≠ false := by
    rw [hdestroyed]
    exact Bool.true_eq_false.mp
  cases acted_of_act h with
  | sent huse hstep => exact writes_ne_nil_of_step (huse hdestroyed) hstep hwrites
  | loop hloop =>
      rcases alive_of_loopActed hloop with halive | hsome | hsome
      · exact hdead halive
      · exact hsome hreads
      · exact hsome hrunning
  | destroyed halive => exact hdead halive

/-- The release of the shared state closes its socket. -/
theorem release_cases (c : Client) :
    (c.useCount ≠ 0 ∧ c.release = c) ∨
      (c.useCount = 0 ∧ c.release = { c with released := true, state := close c.state }) := by
  unfold release
  by_cases hzero : c.useCount = 0
  · exact Or.inr ⟨hzero, if_pos hzero⟩
  · exact Or.inl ⟨hzero, if_neg hzero⟩

@[simp] theorem reads_release (c : Client) : c.release.reads = c.reads := by
  rcases release_cases c with ⟨-, hc⟩ | ⟨-, hc⟩ <;> rw [hc]

@[simp] theorem running_release (c : Client) : c.release.running = c.running := by
  rcases release_cases c with ⟨-, hc⟩ | ⟨-, hc⟩ <;> rw [hc]

/-- A step, and the release of the shared state if it was the last one. -/
theorem step_eq_some_iff {c c' : Client} {e : Event} :
    step T c e = some c' ↔ ∃ c₁, act T c e = some c₁ ∧ c' = c₁.release := by
  unfold step
  rw [Option.map_eq_some_iff]
  exact exists_congr fun c₁ => and_congr_right fun _ => eq_comm

/-- What holds of a client and its shared state. -/
structure Inv (T : SPTraits) (c : Client) : Prop where
  manned : Manned T c.state
  leaving : c.destroyed = true → Leaving c.state
  released_iff : c.released = true ↔ c.useCount = 0
  late_eq : c.destroyed = false → c.late = 0

theorem inv_constructed (onHandle onDeath : Bool) : Inv T (constructed onHandle onDeath) where
  manned := Or.inl rfl
  leaving h := by cases h
  released_iff := by simp [constructed, useCount_eq_zero_iff]
  late_eq _ := rfl

/-- A step of the sending side, of the client or of a loop keeps the invariant. -/
theorem inv_of_step {c c' : Client} {e : Event} (hc : Inv T c) (h : step T c e = some c') :
    Inv T c' := by
  obtain ⟨c₁, hact, rfl⟩ := step_eq_some_iff.mp h
  have hreleased : c.released = false :=
    Bool.eq_false_iff.mpr fun hreleased => useCount_ne_zero_of_act hact
      (hc.released_iff.mp hreleased)
  have hheld : Manned T c₁.state ∧ (c₁.destroyed = true → Leaving c₁.state) ∧
      c₁.released = false ∧ (c₁.destroyed = false → c₁.late = 0) := by
    cases acted_of_act hact with
    | sent huse hstep =>
        refine ⟨(stuck_iff_of_step hc.manned hstep).1, ?_, hreleased, hc.late_eq⟩
        intro hdestroyed
        exact leaving_of_step (huse hdestroyed) (hc.leaving hdestroyed) hstep
    | loop hloop =>
        have hkept := kept_of_loopActed hloop
        rw [hkept.state, hkept.destroyed, hkept.released]
        refine ⟨hc.manned, hc.leaving, hreleased, ?_⟩
        intro halive
        rw [hkept.late (Or.inl halive), hc.late_eq halive]
    | destroyed =>
        have hclose : Gspp.step T c.state .closeSocket = some (closeSocket c.state) := rfl
        exact ⟨(stuck_iff_of_step hc.manned hclose).1, fun _ => leaving_closeSocket c.state,
          hreleased, fun halive => by cases halive⟩
  obtain ⟨hmanned, hleaving, hnot, hlate⟩ := hheld
  rcases release_cases c₁ with ⟨hcount, hc₁⟩ | ⟨hcount, hc₁⟩
  · rw [hc₁]
    exact ⟨hmanned, hleaving, by simp [hnot, hcount], hlate⟩
  · rw [hc₁]
    exact ⟨hmanned, fun _ => Or.inl rfl, iff_of_true rfl hcount, hlate⟩

variable {onHandle onDeath : Bool}

theorem inv_of_run {c : Client} {events : List Event}
    (hrun : run (step T) (constructed onHandle onDeath) events = some c) : Inv T c :=
  run_inv (fun _ _ _ => inv_of_step) hrun (inv_constructed onHandle onDeath)

/-! ## Queues that nobody writes -/

/-- The step gets to start a write, and that throws. -/
def StartThrows (T : SPTraits) (c : Client) : Event → Prop
  | .sender e => Gspp.StartThrows T c.state e
  | _ => False

/-- Packets are left without a write exactly when they were before or a start throws. -/
theorem stuck_iff {c c' : Client} {e : Event} (hc : Inv T c) (h : step T c e = some c') :
    Stuck c'.state ↔ Stuck c.state ∨ StartThrows T c e := by
  obtain ⟨c₁, hact, rfl⟩ := step_eq_some_iff.mp h
  have hrelease : Stuck c₁.release.state ↔ Stuck c₁.state := by
    rcases release_cases c₁ with ⟨-, hc₁⟩ | ⟨-, hc₁⟩ <;> rw [hc₁]
    exact Iff.rfl
  rw [hrelease]
  cases acted_of_act hact with
  | sent huse hstep => exact (stuck_iff_of_step hc.manned hstep).2
  | loop hloop =>
      rw [(kept_of_loopActed hloop).state]
      cases hloop <;> simp [StartThrows]
  | destroyed =>
      have hclose : Gspp.step T c.state .closeSocket = some (closeSocket c.state) := rfl
      exact (stuck_iff_of_step hc.manned hclose).2

/-- Packets are left without a write exactly when some start threw. -/
theorem stuck_iff_of_run {c : Client} {events : List Event}
    (hrun : run (step T) (constructed onHandle onDeath) events = some c) :
    ¬ Stuck c.state ↔
      Meets (step T) (fun c e => ¬ StartThrows T c e) (constructed onHandle onDeath) events := by
  have hend := end_iff_meets (C := fun _ _ => True) (I := Inv T)
    (P := fun c => ¬ Stuck c.state) (D := fun c e => ¬ StartThrows T c e)
    (fun _ _ _ hc _ h => inv_of_step hc h)
    (fun _ _ _ hc _ h => by rw [stuck_iff hc h, not_or])
    hrun (meets_of_forall (fun _ _ => trivial) _ events) (inv_constructed onHandle onDeath)
  have hstart : ¬ Stuck (constructed onHandle onDeath).state := fun hstuck => hstuck.2 rfl
  rw [hend]
  exact and_iff_right hstart

/-! ## The steps that remain on a closed socket -/

/-- The steps that may come of an outstanding read: a read that was on its way succeeds, the
handler goes on, the next read fails, and `on_death` returns. -/
def readWork (read : PendingRead) : ℕ := if read.onOpen then 4 else 2

/-- The steps that may come of a callback that runs. -/
def callWork (call : LoopCall) : ℕ := if call.callback = .onHandle then 3 else 1

/-- The steps that may come of a client whose socket is closed. -/
def remaining (c : Client) : ℕ :=
  c.state.writeQueue.length + (c.reads.map readWork).sum + (c.running.map callWork).sum

/-- What is taken out of a list no longer counts. -/
theorem sum_map_eraseIdx {α : Type} {xs : List α} {i : ℕ} {x : α} (h : xs[i]? = some x)
    (f : α → ℕ) : f x + ((xs.eraseIdx i).map f).sum = (xs.map f).sum := by
  obtain ⟨hi, rfl⟩ := List.getElem?_eq_some_iff.mp h
  have hi' : i < (xs.map f).length := by rwa [List.length_map]
  have hsum := List.add_sum_eraseIdx hi' fun a _ => AddCommute.all _ a
  rwa [List.eraseIdx_map, List.getElem_map] at hsum

theorem remaining_dropRead {c : Client} {i : ℕ} {read : PendingRead}
    (h : c.reads[i]? = some read) : readWork read + remaining (c.dropRead i) = remaining c := by
  have hsum := sum_map_eraseIdx h readWork
  simp only [remaining, dropRead]
  omega

theorem remaining_dropCall {c : Client} {i : ℕ} {call : LoopCall}
    (h : c.running[i]? = some call) :
    callWork call + remaining (c.dropCall i) = remaining c := by
  have hsum := sum_map_eraseIdx h callWork
  simp only [remaining, dropCall]
  omega

theorem remaining_enter (c : Client) (callback : Callback) (loop : ℕ) :
    remaining (c.enter callback loop) =
      remaining c + callWork { callback := callback, loop := loop } := by
  simp [remaining, enter, add_assoc]

/-- A read that is started on a closed socket can only fail. -/
theorem remaining_startRead {c : Client} (hclosed : c.state.closed = true) (phase : Phase)
    (loop : ℕ) : remaining (c.startRead phase loop) = remaining c + 2 := by
  simp only [remaining, startRead, List.map_append, List.sum_append, List.map_singleton,
    List.sum_singleton, readWork, hclosed, Bool.not_true, Bool.false_eq_true, if_false]
  omega

theorem remaining_asyncReadSpLoop {c : Client} (hclosed : c.state.closed = true) (loop : ℕ)
    (started : Bool) : remaining (c.asyncReadSpLoop loop started) ≤ remaining c + 2 := by
  cases started with
  | false => exact Nat.le_add_right _ _
  | true => exact (remaining_startRead hclosed .header loop).le

/-- The handler leaves less to do than the read that it was called for. -/
theorem remaining_loopHandler {c : Client} (hclosed : c.state.closed = true) (loop : ℕ)
    (ok started : Bool) :
    remaining (c.loopHandler loop ok started) ≤ remaining c + (if ok then 3 else 1) := by
  rcases loopHandler_cases c loop ok started with
    ⟨rfl, -, hc⟩ | ⟨rfl, -, hc⟩ | ⟨rfl, -, hc⟩ | ⟨rfl, -, hc⟩
  · rw [hc, remaining_enter]
    exact le_refl _
  · rw [hc]
    exact (remaining_asyncReadSpLoop hclosed loop started).trans (by simp)
  · rw [hc, remaining_enter]
    exact le_refl _
  · rw [hc]
    exact Nat.le_add_right _ _

/-- A step of a receive loop takes from what remains. -/
theorem remaining_lt_of_loopActed {c c₁ : Client} {e : Event} (hdestroyed : c.destroyed = true)
    (hclosed : c.state.closed = true) (h : LoopActed c e c₁) : remaining c₁ < remaining c := by
  have hworks : ∀ {read : PendingRead}, read.onOpen = true → readWork read = 4 := by
    intro read honOpen
    rw [readWork, if_pos honOpen]
  cases h with
  | looped halive =>
      rw [hdestroyed] at halive
      cases halive
  | @sizeRead i started read hread honOpen =>
      have hdrop := remaining_dropRead hread
      have hstart := remaining_startRead (c := c.dropRead i) hclosed .body read.loop
      have hwork := hworks honOpen
      omega
  | @handed i ok accepted started read hread honOpen =>
      have hdrop := remaining_dropRead hread
      have hhandler := remaining_loopHandler (c := c.dropRead i) hclosed read.loop ok started
      have hwork : (if ok then 3 else 1) < readWork read := by
        cases ok with
        | false =>
            simp only [Bool.false_eq_true, if_false]
            unfold readWork
            split <;> omega
        | true =>
            rw [if_pos rfl, hworks (honOpen rfl)]
            exact Nat.lt_succ_self 3
      omega
  | died hrunning =>
      have hdrop := remaining_dropCall hrunning
      rw [callWork, if_neg (by simp)] at hdrop
      omega
  | @handled i loop again started hrunning =>
      have hdrop := remaining_dropCall hrunning
      have hstart := remaining_asyncReadSpLoop (c := c.dropCall i) hclosed loop (again && started)
      rw [callWork, if_pos rfl] at hdrop
      omega

/-- Every step takes from what remains. -/
theorem remaining_lt {c c' : Client} {e : Event} (hc : Inv T c) (hdestroyed : c.destroyed = true)
    (hclosed : c.state.closed = true) (h : step T c e = some c') :
    remaining c' < remaining c ∧ c'.destroyed = true ∧ c'.state.closed = true := by
  obtain ⟨c₁, hact, rfl⟩ := step_eq_some_iff.mp h
  have hheld : remaining c₁ < remaining c ∧ c₁.destroyed = true ∧ c₁.state.closed = true := by
    cases acted_of_act hact with
    | @sent e s' huse hstep =>
        obtain ⟨hstays, hlt⟩ := closed_step hc.manned (huse hdestroyed) hclosed hstep
        refine ⟨?_, hdestroyed, hstays⟩
        show s'.writeQueue.length + _ + _ < c.state.writeQueue.length + _ + _
        exact Nat.add_lt_add_right (Nat.add_lt_add_right hlt _) _
    | loop hloop =>
        have hkept := kept_of_loopActed hloop
        rw [hkept.destroyed, hkept.state]
        exact ⟨remaining_lt_of_loopActed hdestroyed hclosed hloop, hdestroyed, hclosed⟩
    | destroyed halive =>
        rw [hdestroyed] at halive
        cases halive
  obtain ⟨hlt, hdestroyed₁, hclosed₁⟩ := hheld
  rcases release_cases c₁ with ⟨-, hc₁⟩ | ⟨-, hc₁⟩
  · rw [hc₁]
    exact ⟨hlt, hdestroyed₁, hclosed₁⟩
  · rw [hc₁]
    exact ⟨hlt, hdestroyed₁, rfl⟩

/-- A run on a closed socket is no longer than what remains. -/
theorem length_le_remaining {c c' : Client} {events : List Event} (hc : Inv T c)
    (hdestroyed : c.destroyed = true) (hclosed : c.state.closed = true)
    (hrun : run (step T) c events = some c') : events.length ≤ remaining c := by
  have hcost : remaining c' + (events.map fun _ => 1).sum ≤
      remaining c + (events.map fun _ => 0).sum :=
    run_cost_le (C := fun _ _ => True)
      (I := fun c => Inv T c ∧ c.destroyed = true ∧ c.state.closed = true)
      (fun c e c' hc _ h => ⟨inv_of_step hc.1 h, (remaining_lt hc.1 hc.2.1 hc.2.2 h).2⟩)
      (fun c e c' hc _ h => (remaining_lt hc.1 hc.2.1 hc.2.2 h).1)
      hrun (meets_of_forall (fun _ _ => trivial) c events) ⟨hc, hdestroyed, hclosed⟩
  simp only [List.map_const', List.sum_replicate, nsmul_eq_mul, mul_one, mul_zero, Nat.cast_id]
    at hcost
  omega

/-- The handler of `WriteAsync` always has a way to go. -/
theorem exists_onWritten (s : State) : ∃ s', onWritten T .throws s = some s' := by
  unfold onWritten
  simp only
  split
  · exact ⟨_, rfl⟩
  · unfold writeAsync
    split
    · exact ⟨_, rfl⟩
    · exact ⟨_, rfl⟩

theorem exists_head {α : Type} {xs : List α} (h : xs ≠ []) : ∃ x, xs[0]? = some x := by
  obtain ⟨x, rest, rfl⟩ := List.exists_cons_of_ne_nil h
  exact ⟨x, rfl⟩

/-- As long as there is a shared state, something can happen. -/
theorem exists_step {c : Client} (hc : Inv T c) (hkept : c.released = false) :
    ∃ e c', step T c e = some c' := by
  have hact : ∃ e c', act T c e = some c' := by
    have hcount : c.useCount ≠ 0 := by
      intro hzero
      rw [hc.released_iff.mpr hzero] at hkept
      cases hkept
    rw [Ne, useCount_eq_zero_iff, not_and_or, not_and_or, not_and_or] at hcount
    rcases hcount with halive | hwrites | hreads | hrunning
    · exact ⟨.destroy, _, if_neg halive⟩
    · obtain ⟨op, hop⟩ := exists_head hwrites
      obtain ⟨s', hs'⟩ := exists_onWritten (T := T)
        { c.state with writes := c.state.writes.eraseIdx 0 }
      have hstep : Gspp.step T c.state (.completed 0 false .throws) = some s' := by
        simp only [Gspp.step, Gspp.completed, hop]
        exact hs'
      refine ⟨.sender (.completed 0 false .throws), { c with state := s' }, ?_⟩
      simp only [act, sender, usesClient, Bool.false_eq_true, and_false, if_false, hstep]
      rfl
    · obtain ⟨read, hread⟩ := exists_head hreads
      refine ⟨.readCompleted 0 false false false,
        (c.dropRead 0).loopHandler read.loop false false, ?_⟩
      simp only [act, readCompleted, hread]
      rfl
    · obtain ⟨⟨callback, loop⟩, hcallback⟩ := exists_head hrunning
      refine ⟨.returned 0 false false, c.dropCall 0, ?_⟩
      simp only [act, returned, hcallback]
      cases callback <;> rfl
  obtain ⟨e, c', hc'⟩ := hact
  exact ⟨e, c'.release, step_eq_some_iff.mpr ⟨c', hc', rfl⟩⟩

/-- Nothing is outstanding but reads that wait for the peer on the open socket. -/
structure Idle (c : Client) : Prop where
  writes : c.state.writes = []
  running : c.running = []
  reads : c.state.closed = true → c.reads = []

/-- A client that is gone and idle keeps its shared state exactly when packets are left
without a write and a receive loop waits on the open socket. -/
theorem kept_iff_of_idle {c : Client} (hc : Inv T c) (hdestroyed : c.destroyed = true)
    (hidle : Idle c) :
    c.released = false ↔ Stuck c.state ∧ c.state.closed = false ∧ c.reads ≠ [] := by
  have hkept : c.released = false ↔ c.reads ≠ [] := by
    rw [← Bool.not_eq_true, hc.released_iff, useCount_eq_zero_iff]
    simp [hdestroyed, hidle.writes, hidle.running]
  rw [hkept]
  constructor
  · intro hreads
    have hopen : c.state.closed = false :=
      Bool.eq_false_iff.mpr fun hclosed => hreads (hidle.reads hclosed)
    refine ⟨⟨hidle.writes, ?_⟩, hopen, hreads⟩
    rcases hc.leaving hdestroyed with hclosed | ⟨-, hqueue⟩
    · rw [hclosed] at hopen
      cases hopen
    · exact hqueue
  · rintro ⟨-, -, hreads⟩
    exact hreads

/-- After the destructor, an idle client keeps its shared state if and only if the start of
some write threw, the socket is open and a receive loop waits on it. On a closed socket
nothing keeps it for long: the number of steps is bounded, and there are some as long as it
is kept. -/
theorem shared_state_released {events : List Event} {c : Client}
    (hrun : run (step T) (constructed onHandle onDeath) events = some c)
    (hdestroyed : c.destroyed = true) :
    (Idle c → (c.released = false ↔
      ¬ Meets (step T) (fun c e => ¬ StartThrows T c e) (constructed onHandle onDeath) events ∧
        c.state.closed = false ∧ c.reads ≠ [])) ∧
    (c.state.closed = true → ∀ later c', run (step T) c later = some c' →
      later.length ≤ remaining c ∧ (c'.released = false → ∃ e c'', step T c' e = some c'')) := by
  have hc := inv_of_run hrun
  constructor
  · intro hidle
    rw [kept_iff_of_idle hc hdestroyed hidle, ← stuck_iff_of_run hrun, not_not]
  · intro hclosed later c' hlater
    have hc' : Inv T c' := run_inv (fun _ _ _ => inv_of_step) hlater hc
    exact ⟨length_le_remaining hc hdestroyed hclosed hlater, exists_step hc'⟩

/-- A client with a receive loop, whose first write throws, is destroyed. -/
def abandoned : List Event :=
  [.startReceiveLoop true, .sender (.send [7] .throws), .destroy]

/-- What is left of it waits for the peer with the packet in the queue. -/
theorem shared_state_released_abandoned :
    ∃ c, run (step spDefault) (constructed true true) abandoned = some c ∧ c.released = false ∧
      ¬ Meets (step spDefault) (fun c e => ¬ StartThrows spDefault c e) (constructed true true)
        abandoned := by
  have hrun : run (step spDefault) (constructed true true) abandoned =
      some { onHandle := true
             onDeath := true
             destroyed := true
             state := { writeQueue := [[7]], shutdown := true }
             loops := 1
             reads := [{ phase := .header, loop := 0, onOpen := true }] } := rfl
  obtain ⟨hkept, -⟩ := shared_state_released hrun rfl
  have hidle := hkept ⟨rfl, rfl, fun h => by cases h⟩
  exact ⟨_, hrun, rfl, (hidle.mp rfl).1⟩

/-! ## Callbacks of a client that is gone -/

/-- The callbacks called after the destructor, and the reads that will call one. -/
def owed (c : Client) : ℕ := c.late + c.reads.length

/-- What a receive loop goes on with: a read that waits, an `on_handle` that runs, or an
`on_death` that was called. -/
def tokens (c : Client) (n : ℕ) : ℕ :=
  c.reads.countP (fun read => read.loop = n) + c.running.count ⟨.onHandle, n⟩ +
    c.calls.count ⟨.onDeath, n⟩

/-- What is taken out of a list was counted. -/
theorem countP_eraseIdx {α : Type} {xs : List α} {i : ℕ} {x : α} (h : xs[i]? = some x)
    (p : α → Bool) :
    (xs.eraseIdx i).countP p + (if p x = true then 1 else 0) = xs.countP p := by
  obtain ⟨hi, rfl⟩ := List.getElem?_eq_some_iff.mp h
  rw [← List.countP_cons]
  exact (List.getElem_cons_eraseIdx_perm hi).countP_eq p

theorem tokens_dropRead {c : Client} {i : ℕ} {read : PendingRead}
    (h : c.reads[i]? = some read) (n : ℕ) :
    tokens (c.dropRead i) n + (if read.loop = n then 1 else 0) = tokens c n := by
  have hcount := countP_eraseIdx h fun read => read.loop = n
  simp only [decide_eq_true_eq] at hcount
  simp only [tokens, dropRead]
  omega

theorem tokens_dropCall {c : Client} {i loop : ℕ}
    (h : c.running[i]? = some ⟨.onHandle, loop⟩) (n : ℕ) :
    tokens (c.dropCall i) n + (if loop = n then 1 else 0) = tokens c n := by
  have hcount := countP_eraseIdx h (· == ⟨.onHandle, n⟩)
  simp only [beq_iff_eq, LoopCall.mk.injEq, true_and] at hcount
  simp only [tokens, dropCall, List.count]
  omega

theorem tokens_startRead (c : Client) (phase : Phase) (loop n : ℕ) :
    tokens (c.startRead phase loop) n = tokens c n + if loop = n then 1 else 0 := by
  simp only [tokens, startRead, List.countP_append, List.countP_singleton, decide_eq_true_eq]
  omega

theorem tokens_asyncReadSpLoop (c : Client) (loop : ℕ) (started : Bool) (n : ℕ) :
    tokens (c.asyncReadSpLoop loop started) n ≤ tokens c n + if loop = n then 1 else 0 := by
  cases started with
  | false => exact Nat.le_add_right _ _
  | true => exact (tokens_startRead c .header loop n).le

theorem tokens_enter (c : Client) (callback : Callback) (loop n : ℕ) :
    tokens (c.enter callback loop) n = tokens c n + if loop = n then 1 else 0 := by
  cases callback <;>
    simp [tokens, enter, List.count_singleton] <;> omega

theorem tokens_loopHandler (c : Client) (loop : ℕ) (ok started : Bool) (n : ℕ) :
    tokens (c.loopHandler loop ok started) n ≤ tokens c n + if loop = n then 1 else 0 := by
  rcases loopHandler_cases c loop ok started with
    ⟨-, -, hc⟩ | ⟨-, -, hc⟩ | ⟨-, -, hc⟩ | ⟨-, -, hc⟩ <;> rw [hc]
  · exact (tokens_enter c .onHandle loop n).le
  · exact tokens_asyncReadSpLoop c loop started n
  · exact (tokens_enter c .onDeath loop n).le
  · exact Nat.le_add_right _ _

/-- No more calls of `on_death` run than were made. -/
def DeathsCalled (c : Client) (n : ℕ) : Prop :=
  c.running.count ⟨.onDeath, n⟩ ≤ c.calls.count ⟨.onDeath, n⟩

theorem deathsCalled_asyncReadSpLoop {c : Client} {n : ℕ} (h : DeathsCalled c n) (loop : ℕ)
    (started : Bool) : DeathsCalled (c.asyncReadSpLoop loop started) n := by
  cases started <;> exact h

theorem deathsCalled_enter {c : Client} {n : ℕ} (h : DeathsCalled c n) (callback : Callback)
    (loop : ℕ) : DeathsCalled (c.enter callback loop) n := by
  unfold DeathsCalled enter
  rw [List.count_append, List.count_append]
  exact Nat.add_le_add_right h _

theorem deathsCalled_loopHandler {c : Client} {n : ℕ} (h : DeathsCalled c n) (loop : ℕ)
    (ok started : Bool) : DeathsCalled (c.loopHandler loop ok started) n := by
  rcases loopHandler_cases c loop ok started with
    ⟨-, -, hc⟩ | ⟨-, -, hc⟩ | ⟨-, -, hc⟩ | ⟨-, -, hc⟩ <;> rw [hc]
  · exact deathsCalled_enter h .onHandle loop
  · exact deathsCalled_asyncReadSpLoop h loop started
  · exact deathsCalled_enter h .onDeath loop
  · exact h

theorem deathsCalled_dropCall {c : Client} {n : ℕ} (h : DeathsCalled c n) (i : ℕ) :
    DeathsCalled (c.dropCall i) n :=
  ((List.eraseIdx_sublist c.running i).count_le _).trans h

theorem loops_asyncReadSpLoop (c : Client) (loop : ℕ) (started : Bool) :
    (c.asyncReadSpLoop loop started).loops = c.loops := by
  cases started <;> rfl

theorem loops_loopHandler (c : Client) (loop : ℕ) (ok started : Bool) :
    (c.loopHandler loop ok started).loops = c.loops := by
  rcases loopHandler_cases c loop ok started with
    ⟨-, -, hc⟩ | ⟨-, -, hc⟩ | ⟨-, -, hc⟩ | ⟨-, -, hc⟩ <;> rw [hc]
  · rfl
  · exact loops_asyncReadSpLoop c loop started
  · rfl

/-- A loop that was started goes on with one thing at a time. -/
structure OneAtATime (c : Client) (n : ℕ) : Prop where
  one : tokens c n ≤ if n < c.loops then 1 else 0
  called : DeathsCalled c n

/-- What a loop goes on with was taken from what it went on with before; only
`StartReceiveLoop` starts one. -/
theorem oneAtATime_of_loopActed {c c₁ : Client} {e : Event} {n : ℕ} (hc : OneAtATime c n)
    (h : LoopActed c e c₁) : OneAtATime c₁ n := by
  obtain ⟨hone, hcalled⟩ := hc
  cases h with
  | @looped started =>
      cases started with
      | false => exact ⟨hone, hcalled⟩
      | true =>
          refine ⟨?_, hcalled⟩
          have hstart := tokens_startRead { c with loops := c.loops + 1 } .header c.loops n
          show tokens ({ c with loops := c.loops + 1 }.startRead .header c.loops) n ≤
            if n < c.loops + 1 then 1 else 0
          rw [hstart]
          show tokens c n + _ ≤ _
          split at hone <;> split <;> split <;> omega
  | @sizeRead i started read hread =>
      refine ⟨?_, hcalled⟩
      rw [tokens_startRead, tokens_dropRead hread]
      exact hone
  | @handed i ok accepted started read hread =>
      refine ⟨?_, deathsCalled_loopHandler (c := c.dropRead i) hcalled _ _ _⟩
      have htaken := tokens_loopHandler (c.dropRead i) read.loop ok started n
      rw [tokens_dropRead hread] at htaken
      rw [loops_loopHandler]
      exact htaken.trans hone
  | @died i loop again started hrunning =>
      refine ⟨le_trans ?_ hone, deathsCalled_dropCall hcalled i⟩
      have hle := (List.eraseIdx_sublist c.running i).count_le (⟨.onHandle, n⟩ : LoopCall)
      simp only [tokens, dropCall]
      omega
  | @handled i loop again started hrunning =>
      refine ⟨?_, deathsCalled_asyncReadSpLoop (deathsCalled_dropCall hcalled i) _ _⟩
      have htaken := tokens_asyncReadSpLoop (c.dropCall i) loop (again && started) n
      rw [tokens_dropCall hrunning] at htaken
      rw [loops_asyncReadSpLoop]
      exact htaken.trans hone

theorem oneAtATime_of_step {c c' : Client} {e : Event} {n : ℕ} (hc : OneAtATime c n)
    (h : step T c e = some c') : OneAtATime c' n := by
  obtain ⟨c₁, hact, rfl⟩ := step_eq_some_iff.mp h
  have hheld : OneAtATime c₁ n := by
    cases acted_of_act hact with
    | sent => exact ⟨hc.one, hc.called⟩
    | loop hloop => exact oneAtATime_of_loopActed hc hloop
    | destroyed => exact ⟨hc.one, hc.called⟩
  rcases release_cases c₁ with ⟨-, hc₁⟩ | ⟨-, hc₁⟩
  · rwa [hc₁]
  · rw [hc₁]
    exact ⟨hheld.one, hheld.called⟩

/-- A callback that runs is one of the two. -/
theorem countP_loop (calls : List LoopCall) (n : ℕ) :
    calls.countP (fun call => call.loop = n) =
      calls.count ⟨.onHandle, n⟩ + calls.count ⟨.onDeath, n⟩ := by
  induction calls with
  | nil => rfl
  | cons call rest ih =>
      obtain ⟨callback, loop⟩ := call
      cases callback <;> simp [List.countP_cons, List.count_cons, ih] <;> omega

/-- At any time, a receive loop waits for at most one read or runs at most one callback, so
its callbacks never overlap. It calls `on_death` at most once, and after that it waits for no
read and does not run `on_handle`. -/
theorem callbacks_one_at_a_time {events : List Event} {c : Client}
    (hrun : run (step T) (constructed onHandle onDeath) events = some c) (n : ℕ) :
    c.reads.countP (fun read => read.loop = n) + c.running.countP (fun call => call.loop = n) ≤ 1 ∧
      c.calls.count ⟨.onDeath, n⟩ ≤ 1 ∧
      (⟨.onDeath, n⟩ ∈ c.calls →
        (∀ read ∈ c.reads, read.loop ≠ n) ∧ ⟨.onHandle, n⟩ ∉ c.running) := by
  obtain ⟨hone, hcalled⟩ : OneAtATime c n :=
    run_inv (fun _ _ _ => oneAtATime_of_step) hrun ⟨Nat.zero_le _, le_refl _⟩
  have hle : tokens c n ≤ 1 := hone.trans (by split <;> omega)
  unfold tokens at hle
  unfold DeathsCalled at hcalled
  rw [countP_loop]
  refine ⟨by omega, by omega, ?_⟩
  intro hmem
  have hpos := List.count_pos_iff.mpr hmem
  have hnone : c.reads.countP (fun read => read.loop = n) = 0 ∧
      c.running.count ⟨.onHandle, n⟩ = 0 := by omega
  refine ⟨?_, List.count_eq_zero.mp hnone.2⟩
  intro read hread hloop
  exact List.countP_eq_zero.mp hnone.1 read hread (decide_eq_true hloop)

/-- One of two loops calls `on_death` while the other one waits. -/
theorem callbacks_one_at_a_time_cut :
    ∃ c, run (step spDefault) (constructed true true)
        [.startReceiveLoop true, .startReceiveLoop true, .readCompleted 0 true true false,
          .readCompleted 1 false false false] = some c ∧
      ⟨.onDeath, 0⟩ ∈ c.calls ∧ ∀ read ∈ c.reads, read.loop ≠ 0 := by
  have hrun : run (step spDefault) (constructed true true)
      [.startReceiveLoop true, .startReceiveLoop true, .readCompleted 0 true true false,
        .readCompleted 1 false false false] =
      some { onHandle := true
             onDeath := true
             loops := 2
             reads := [{ phase := .header, loop := 1, onOpen := true }]
             running := [{ callback := .onDeath, loop := 0 }]
             calls := [{ callback := .onDeath, loop := 0 }] } := rfl
  obtain ⟨-, -, hafter⟩ := callbacks_one_at_a_time hrun 0
  have hcalled : (⟨.onDeath, 0⟩ : LoopCall) ∈
      [({ callback := .onDeath, loop := 0 } : LoopCall)] := List.mem_singleton.mpr rfl
  exact ⟨_, hrun, hcalled, (hafter hcalled).1⟩

end BacsEnv.Gspp.Client
