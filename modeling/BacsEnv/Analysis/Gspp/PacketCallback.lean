import BacsEnv.Library.StatefulRun
import BacsEnv.Model.Gspp.DualConnection

/-!
# What the packet callback of a connection does

`Extends s own s'` says that a connection came from `s` to `s'` by the calls `own` of the
user's functions. The lemmas below give these calls for a callback that may be empty, for
the `catch` clause and for the whole packet callback, by which of the functions throw.
-/

set_option autoImplicit false

namespace BacsEnv.Gspp.DualConnection

open BacsEnv.StatefulRun

variable {σ : Type} {setup : Setup σ}

/-- A callback throws `what` when it is called on `c`, and leaves `c'`. -/
def Throws (callback : Option (UserCode σ Unit)) (c : Connection σ) (what : Text)
    (c' : Connection σ) : Prop :=
  ∃ code, callback = some code ∧ code.run c = .error what c'

/-- Is it a call of `HandlePacket`? -/
def UserCall.isHandlePacket (call : UserCall) : Bool :=
  match call.callee with
  | .handlePacket _ => true
  | _ => false

/-- Is it a call of `onHandle`? -/
def UserCall.isOnHandle (call : UserCall) : Bool :=
  match call.callee with
  | .onHandle _ => true
  | _ => false

/-- Is it a call of `onDeath`? -/
def UserCall.isOnDeath (call : UserCall) : Bool :=
  match call.callee with
  | .onDeath => true
  | _ => false

/-- From `s` the user's functions were called as in `own`, which led to `s'`. -/
structure Extends (s : Session σ) (own : List UserCall) (s' : Session σ) : Prop where
  calls_eq : s'.calls = s.calls ++ own
  receiving_eq : s'.receiving = s.receiving
  killed : s.killed = true → s'.killed = true

theorem Extends.refl (s : Session σ) : Extends s [] s :=
  { calls_eq := by simp, receiving_eq := rfl, killed := id }

theorem Extends.trans {s s₁ s₂ : Session σ} {own own' : List UserCall} (h : Extends s own s₁)
    (h' : Extends s₁ own' s₂) : Extends s (own ++ own') s₂ :=
  { calls_eq := by rw [h'.calls_eq, h.calls_eq, List.append_assoc]
    receiving_eq := h'.receiving_eq.trans h.receiving_eq
    killed := fun hk => h'.killed (h.killed hk) }

theorem Extends.scheduleDisconnect (s : Session σ) : Extends s [] (scheduleDisconnect s) :=
  { calls_eq := (List.append_nil _).symm, receiving_eq := rfl, killed := fun _ => rfl }

/-- One call of a user's function. -/
theorem Extends.record {α : Type} (code : UserCode σ α) {s : Session σ} {c : Connection σ}
    (h : stateAfter (code.run s.connection) = c) (callee : Callee) (threw : Bool) :
    Extends s [{ callee := callee, threw := threw }] (s.record callee threw c) :=
  { calls_eq := rfl
    receiving_eq := rfl
    killed := fun hk => by
      rw [← h]
      exact code.killed_run s.connection hk }

/-- `own` are notifications, `n` of them of `onHandle`. -/
structure Notifies (own : List UserCall) (n : ℕ) : Prop where
  no_handlePacket : own.countP UserCall.isHandlePacket = 0
  no_onDeath : own.countP UserCall.isOnDeath = 0
  onHandle : own.countP UserCall.isOnHandle = n

theorem Notifies.nil : Notifies [] 0 :=
  { no_handlePacket := rfl, no_onDeath := rfl, onHandle := rfl }

theorem Notifies.append {own own' : List UserCall} {n n' : ℕ} (h : Notifies own n)
    (h' : Notifies own' n') : Notifies (own ++ own') (n + n') :=
  { no_handlePacket := by rw [List.countP_append, h.no_handlePacket, h'.no_handlePacket]
    no_onDeath := by rw [List.countP_append, h.no_onDeath, h'.no_onDeath]
    onHandle := by rw [List.countP_append, h.onHandle, h'.onHandle] }

theorem notifies_onHandle (result : HandlerResult) (threw : Bool) :
    Notifies [{ callee := .onHandle result, threw := threw }] 1 :=
  { no_handlePacket := rfl, no_onDeath := rfl, onHandle := rfl }

theorem notifies_onHandleException (what : Text) (threw : Bool) :
    Notifies [{ callee := .onHandleException what, threw := threw }] 0 :=
  { no_handlePacket := rfl, no_onDeath := rfl, onHandle := rfl }

/-! ## Callbacks -/

/-- The call of a callback that returns, if there is one. -/
def notice (callee : Callee) (callback : Option (UserCode σ Unit)) : List UserCall :=
  if callback.isSome then [{ callee := callee, threw := false }] else []

/-- How often `onHandle` is called when it is to be called once. -/
def onHandleCount (setup : Setup σ) : ℕ := if setup.onHandle.isSome then 1 else 0

theorem onHandleCount_le (setup : Setup σ) : onHandleCount setup ≤ 1 := by
  unfold onHandleCount
  split <;> omega

theorem notifies_notice_onHandle (setup : Setup σ) (result : HandlerResult) :
    Notifies (notice (.onHandle result) (setup.onHandleWith result)) (onHandleCount setup) := by
  unfold notice onHandleCount Setup.onHandleWith
  cases setup.onHandle with
  | none => exact Notifies.nil
  | some f => exact notifies_onHandle result false

theorem notifies_notice_onHandleException (setup : Setup σ) (what : Text) :
    Notifies (notice (.onHandleException what) (setup.onHandleExceptionWith what)) 0 := by
  unfold notice Setup.onHandleExceptionWith
  cases setup.onHandleException with
  | none => exact Notifies.nil
  | some f => exact notifies_onHandleException what false

theorem threw_of_mem_notice {callee : Callee} {callback : Option (UserCode σ Unit)}
    {c : UserCall} (h : c ∈ notice callee callback) : c.threw = false := by
  unfold notice at h
  split at h
  · rw [List.mem_singleton.mp h]
  · cases h

theorem notify_of_not_throws (callee : Callee) {callback : Option (UserCode σ Unit)}
    {s : Session σ} (h : ∀ what c', ¬ Throws callback s.connection what c') :
    ∃ s', notify callee callback s = .ok () s' ∧ Extends s (notice callee callback) s' := by
  cases callback with
  | none => exact ⟨s, rfl, Extends.refl s⟩
  | some code =>
      cases hrun : code.run s.connection with
      | ok u c =>
          have hstep : notify callee (some code) s = .ok () (s.record callee false c) := by
            simp [notify, call, hrun]
          exact ⟨_, hstep, Extends.record code (by rw [hrun]; rfl) callee false⟩
      | error what c => exact absurd ⟨code, rfl, hrun⟩ (h what c)

theorem notify_of_throws (callee : Callee) {callback : Option (UserCode σ Unit)}
    {s : Session σ} {what : Text} {c' : Connection σ}
    (h : Throws callback s.connection what c') :
    notify callee callback s = .error what (s.record callee true c') ∧
      Extends s [{ callee := callee, threw := true }] (s.record callee true c') := by
  obtain ⟨code, rfl, hrun⟩ := h
  refine ⟨?_, Extends.record code (by rw [hrun]; rfl) callee true⟩
  simp [notify, call, hrun]

/-- There is an `onHandle` if it throws. -/
theorem onHandleCount_of_throws {result : HandlerResult} {c c' : Connection σ} {what : Text}
    (h : Throws (setup.onHandleWith result) c what c') : onHandleCount setup = 1 := by
  obtain ⟨code, hcode, -⟩ := h
  obtain ⟨f, hf, -⟩ := Option.map_eq_some_iff.mp hcode
  simp [onHandleCount, hf]

/-! ## The `catch` clause -/

/-- When `onHandleException` throws, the `catch` clause ends there. -/
theorem catchClause_of_throws {what e : Text} {s : Session σ} {c' : Connection σ}
    (h : Throws (setup.onHandleExceptionWith what) s.connection e c') :
    catchClause setup what s = .error e (s.record (.onHandleException what) true c') :=
  bind_of_error (notify_of_throws (.onHandleException what) h).1 _

/-- When it does not, the connection is killed and `onHandle` is called. -/
theorem catchClause_of_not_throws {what : Text} {s : Session σ}
    (h : ∀ e c', ¬ Throws (setup.onHandleExceptionWith what) s.connection e c') :
    ∃ own s', goesOn (catchClause setup what s) = (false, s') ∧ Extends s own s' ∧
      Notifies own (onHandleCount setup) ∧ s'.killed = true := by
  obtain ⟨s₁, hfirst, hext₁⟩ := notify_of_not_throws (.onHandleException what) h
  have hkill := Extends.scheduleDisconnect s₁
  have hown₁ := notifies_notice_onHandleException setup what
  have hrest : catchClause setup what s =
      (do notify (.onHandle .disconnect) (setup.onHandleWith .disconnect)
          pure false : SessionM σ Bool) (scheduleDisconnect s₁) := bind_of_ok hfirst _
  by_cases hthrows : ∃ e c', Throws (setup.onHandleWith .disconnect)
      (scheduleDisconnect s₁).connection e c'
  · obtain ⟨e, c', hthrow⟩ := hthrows
    obtain ⟨hsecond, hext₂⟩ := notify_of_throws (.onHandle .disconnect) hthrow
    have hown := hown₁.append (notifies_onHandle .disconnect true)
    rw [Nat.zero_add, ← onHandleCount_of_throws hthrow] at hown
    refine ⟨_, _, ?_, hext₁.trans (hkill.trans hext₂), hown, hext₂.killed rfl⟩
    rw [hrest, bind_of_error hsecond]
    rfl
  · push Not at hthrows
    obtain ⟨s₂, hsecond, hext₂⟩ := notify_of_not_throws (.onHandle .disconnect) hthrows
    have hown := hown₁.append (notifies_notice_onHandle setup .disconnect)
    rw [Nat.zero_add] at hown
    refine ⟨_, _, ?_, hext₁.trans (hkill.trans hext₂), hown, hext₂.killed rfl⟩
    rw [hrest, bind_of_ok hsecond]
    rfl

/-! ## The packet callback -/

/-- A dispatch that throws is left to the `catch` clause. -/
theorem packetCallback_of_throws {buffer : List UInt8} {s : Session σ} {what : Text}
    {c : Connection σ} (h : (setup.handlePacket buffer).run s.connection = .error what c) :
    packetCallback setup buffer s =
      catchClause setup what (s.record (.handlePacket buffer) true c) := by
  have hcall : call (.handlePacket buffer) (setup.handlePacket buffer) s =
      .error what (s.record (.handlePacket buffer) true c) := by
    simp [call, h]
  exact tryCatch_of_error (bind_of_error hcall _) _

section Returned

variable {buffer : List UInt8} {s : Session σ} {result : HandlerResult} {c : Connection σ}

theorem call_handlePacket (h : (setup.handlePacket buffer).run s.connection = .ok result c) :
    call (.handlePacket buffer) (setup.handlePacket buffer) s =
      .ok result (s.record (.handlePacket buffer) false c) := by
  simp [call, h]

/-- So is an `onHandle` that throws after the dispatch. -/
theorem packetCallback_of_onHandle_throws
    (h : (setup.handlePacket buffer).run s.connection = .ok result c) {what : Text}
    {c' : Connection σ} (hthrow : Throws (setup.onHandleWith result) c what c') :
    packetCallback setup buffer s =
      catchClause setup what
        ((s.record (.handlePacket buffer) false c).record (.onHandle result) true c') := by
  have hnotify := (notify_of_throws (s := s.record (.handlePacket buffer) false c)
    (.onHandle result) hthrow).1
  apply tryCatch_of_error
  rw [bind_of_ok (call_handlePacket h), bind_of_error hnotify]

/-- Without an exception the packet callback says whether to go on. -/
theorem packetCallback_of_returned
    (h : (setup.handlePacket buffer).run s.connection = .ok result c)
    (hreturn : ∀ what c', ¬ Throws (setup.onHandleWith result) c what c') :
    ∃ s', packetCallback setup buffer s =
        .ok (decide (result = .continue) && !s'.killed) s' ∧
      Extends (s.record (.handlePacket buffer) false c)
        (notice (.onHandle result) (setup.onHandleWith result)) s' := by
  obtain ⟨s', hnotify, hext⟩ := notify_of_not_throws
    (s := s.record (.handlePacket buffer) false c) (.onHandle result) hreturn
  refine ⟨s', ?_, hext⟩
  apply tryCatch_of_ok
  rw [bind_of_ok (call_handlePacket h), bind_of_ok hnotify]
  rfl

end Returned

/-! ## The handler of the receive loop -/

/-- A read error ends the loop. -/
theorem handler_of_failed {c : BacsEnv.Bacs.Call} (hc : c.failed = true) (s : Session σ) :
    handler setup c s = (false, stateAfter (deathCallback setup s)) := by
  simp [handler, clientHandler, streamCallbacks, hc]

/-- A frame goes to the packet callback. -/
theorem handler_of_frame {c : BacsEnv.Bacs.Call} (hc : c.failed = false) (s : Session σ) :
    handler setup c s = goesOn (packetCallback setup c.buffer s) := by
  simp [handler, clientHandler, streamCallbacks, hc]

/-- What a call of the handler leaves, with the loop going on as it says. -/
theorem step_received {c : BacsEnv.Bacs.Call} {s s' : Session σ}
    (h : step setup s (.received c) = some s') :
    s.receiving = true ∧
      s' = { (handler setup c s).2 with receiving := (handler setup c s).1 } := by
  unfold step at h
  simp only at h
  split at h
  · exact ⟨‹_›, (Option.some.inj h).symm⟩
  · cases h

theorem step_of_receiving (c : BacsEnv.Bacs.Call) {s : Session σ} (h : s.receiving = true) :
    step setup s (.received c) =
      some { (handler setup c s).2 with receiving := (handler setup c s).1 } := by
  simp [step, h]

/-! ## Functions that do nothing -/

/-- A function that returns and leaves the connection alone. -/
def returning {α : Type} (a : α) : UserCode σ α :=
  { run := pure a, killed_run := fun _ hk => hk }

/-- A function that throws and leaves the connection alone. -/
def throwing {α : Type} (what : Text) : UserCode σ α :=
  { run := throw what, killed_run := fun _ hk => hk }

/-- A frame with a payload. -/
def frameOf (buffer : List UInt8) : Event :=
  .received { failed := false, bytesRead := buffer.length, buffer := buffer }

end BacsEnv.Gspp.DualConnection
