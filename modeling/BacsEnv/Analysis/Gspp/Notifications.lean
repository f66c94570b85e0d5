import BacsEnv.Library.Transition
import BacsEnv.Analysis.Gspp.PacketCallback

/-!
# Notifications and failures of a connection

The success notification is in the `try` block whose `catch` clause notifies again, and
the connection is killed behind `onHandleException`. So a frame is notified at most once
and a failure kills the connection exactly when the callbacks throw in the right places
(`OrderlyFrame`).
-/

set_option autoImplicit false

namespace BacsEnv.Gspp.DualConnection

open BacsEnv.Transition

variable {σ : Type} {setup : Setup σ}

/-- The calls of the user's functions from one session to a later one. -/
def ownCalls (s s' : Session σ) : List UserCall := s'.calls.drop s.calls.length

/-- From `s` to `s'` `onHandle` was called at most once, and if anything threw then the
connection is killed. -/
structure Proper (s s' : Session σ) : Prop where
  once : (ownCalls s s').countP UserCall.isOnHandle ≤ 1
  kills : (∃ call ∈ ownCalls s s', call.threw = true) → s'.killed = true

/-- The frame of a step, if there is one, is processed properly. -/
def ProperFrame (setup : Setup σ) (s : Session σ) : Event → Prop
  | .received c =>
      c.failed = false → ∀ s', step setup s (.received c) = some s' → Proper s s'
  | .scheduleDisconnect => True

/-- How the user's functions have to behave for a frame: an `onHandle` that throws after
the dispatch is followed by an `onHandleException` that throws as well, and when
`onHandleException` throws the connection has been killed. -/
structure OrderlyFrame (setup : Setup σ) (buffer : List UInt8) (c : Connection σ) : Prop where
  returned : ∀ result c₁, (setup.handlePacket buffer).run c = .ok result c₁ →
    ∀ what c₂, Throws (setup.onHandleWith result) c₁ what c₂ →
      ∃ e c₃, Throws (setup.onHandleExceptionWith what) c₂ e c₃ ∧ c₃.killed = true
  threw : ∀ what c₁, (setup.handlePacket buffer).run c = .error what c₁ →
    ∀ e c₂, Throws (setup.onHandleExceptionWith what) c₁ e c₂ → c₂.killed = true

/-- The user's functions behave so for the frame of a step. -/
def Orderly (setup : Setup σ) (s : Session σ) : Event → Prop
  | .received c =>
      s.receiving = true → c.failed = false → OrderlyFrame setup c.buffer s.connection
  | .scheduleDisconnect => True

/-! ## One frame -/

theorem Throws.unique {callback : Option (UserCode σ Unit)} {c c₁ c₂ : Connection σ}
    {what₁ what₂ : Text} (h₁ : Throws callback c what₁ c₁) (h₂ : Throws callback c what₂ c₂) :
    what₁ = what₂ ∧ c₁ = c₂ := by
  obtain ⟨code, rfl, hrun₁⟩ := h₁
  obtain ⟨code', hcode, hrun₂⟩ := h₂
  obtain rfl : code = code' := Option.some.inj hcode
  exact EStateM.Result.error.inj (hrun₁.symm.trans hrun₂)

/-- The calls of one frame, when they are known. -/
theorem proper_iff_of_calls {s s' : Session σ} {own : List UserCall}
    (h : s'.calls = s.calls ++ own) :
    Proper s s' ↔ own.countP UserCall.isOnHandle ≤ 1 ∧
      ((∃ call ∈ own, call.threw = true) → s'.killed = true) := by
  have hown : ownCalls s s' = own := by
    unfold ownCalls
    rw [h, List.drop_left' rfl]
  constructor
  · rintro ⟨honce, hkills⟩
    rw [hown] at honce hkills
    exact ⟨honce, hkills⟩
  · rintro ⟨honce, hkills⟩
    exact { once := by rw [hown]; exact honce
            kills := by rw [hown]; exact hkills }

section Caught

variable {s₀ s : Session σ} {pre : List UserCall} {what : Text}

/-- A failure is handed on by an `onHandleException` that throws. -/
theorem proper_catchClause_of_throws (hpre : s.calls = s₀.calls ++ pre)
    (hthrew : ∃ call ∈ pre, call.threw = true) {e : Text} {c : Connection σ}
    (h : Throws (setup.onHandleExceptionWith what) s.connection e c) :
    Proper s₀ (goesOn (catchClause setup what s)).2 ↔
      pre.countP UserCall.isOnHandle ≤ 1 ∧ c.killed = true := by
  have hcalls : (s.record (.onHandleException what) true c).calls =
      s₀.calls ++ (pre ++ [⟨.onHandleException what, true⟩]) := by
    rw [← List.append_assoc, ← hpre]
    rfl
  rw [catchClause_of_throws h]
  apply (proper_iff_of_calls hcalls).trans
  rw [List.countP_append, (notifies_onHandleException what true).onHandle, Nat.add_zero]
  apply and_congr_right'
  obtain ⟨call, hmem, hcall⟩ := hthrew
  exact ⟨fun hkills => hkills ⟨call, List.mem_append_left _ hmem, hcall⟩, fun hkilled _ => hkilled⟩

/-- Otherwise the connection is killed, and `onHandle` is called. -/
theorem proper_catchClause_of_not_throws (hpre : s.calls = s₀.calls ++ pre)
    (h : ∀ e c, ¬ Throws (setup.onHandleExceptionWith what) s.connection e c) :
    Proper s₀ (goesOn (catchClause setup what s)).2 ↔
      pre.countP UserCall.isOnHandle + onHandleCount setup ≤ 1 := by
  obtain ⟨own, s', hgoes, hext, hown, hkilled⟩ := catchClause_of_not_throws h
  have hcalls : s'.calls = s₀.calls ++ (pre ++ own) := by
    rw [hext.calls_eq, hpre, List.append_assoc]
  rw [hgoes]
  apply (proper_iff_of_calls hcalls).trans
  rw [List.countP_append, hown.onHandle]
  exact and_iff_left fun _ => hkilled

end Caught

section Frame

variable {buffer : List UInt8} {s : Session σ}

/-- A dispatch that throws is processed properly exactly when `onHandleException` returns
or leaves the connection killed. -/
theorem proper_of_threw {what : Text} {c₁ : Connection σ}
    (h : (setup.handlePacket buffer).run s.connection = .error what c₁) :
    Proper s (goesOn (packetCallback setup buffer s)).2 ↔
      ∀ e c₂, Throws (setup.onHandleExceptionWith what) c₁ e c₂ → c₂.killed = true := by
  have hpre : (s.record (.handlePacket buffer) true c₁).calls =
      s.calls ++ [⟨.handlePacket buffer, true⟩] := rfl
  rw [packetCallback_of_throws h]
  by_cases hexcs : ∃ e c₂, Throws (setup.onHandleExceptionWith what) c₁ e c₂
  · obtain ⟨e, c₂, hexc⟩ := hexcs
    have hthrew : ∃ call ∈ [(⟨.handlePacket buffer, true⟩ : UserCall)], call.threw = true :=
      ⟨_, List.mem_cons_self, rfl⟩
    rw [proper_catchClause_of_throws hpre hthrew hexc]
    constructor
    · rintro ⟨-, hkilled⟩ e' c' hexc'
      obtain ⟨-, rfl⟩ := hexc.unique hexc'
      exact hkilled
    · exact fun hall => ⟨Nat.zero_le _, hall e c₂ hexc⟩
  · push Not at hexcs
    rw [proper_catchClause_of_not_throws hpre hexcs]
    apply iff_of_true
    · show 0 + onHandleCount setup ≤ 1
      rw [Nat.zero_add]
      exact onHandleCount_le setup
    · intro e c₂ hexc
      exact absurd hexc (hexcs e c₂)

variable {result : HandlerResult} {c₁ : Connection σ}

/-- An `onHandle` that throws after the dispatch is processed properly exactly when
`onHandleException` throws after it and leaves the connection killed. -/
theorem proper_of_onHandle_threw
    (h : (setup.handlePacket buffer).run s.connection = .ok result c₁) {what : Text}
    {c₂ : Connection σ} (hthrow : Throws (setup.onHandleWith result) c₁ what c₂) :
    Proper s (goesOn (packetCallback setup buffer s)).2 ↔
      ∃ e c₃, Throws (setup.onHandleExceptionWith what) c₂ e c₃ ∧ c₃.killed = true := by
  let own : List UserCall := [⟨.handlePacket buffer, false⟩, ⟨.onHandle result, true⟩]
  have hpre : ((s.record (.handlePacket buffer) false c₁).record (.onHandle result) true c₂).calls =
      s.calls ++ own := List.append_assoc _ _ _
  rw [packetCallback_of_onHandle_throws h hthrow]
  by_cases hexcs : ∃ e c₃, Throws (setup.onHandleExceptionWith what) c₂ e c₃
  · -- `ScheduleDisconnect` is skipped.
    obtain ⟨e, c₃, hexc⟩ := hexcs
    have hthrew : ∃ call ∈ own, call.threw = true :=
      ⟨_, List.mem_cons_of_mem _ List.mem_cons_self, rfl⟩
    rw [proper_catchClause_of_throws hpre hthrew hexc]
    constructor
    · rintro ⟨-, hkilled⟩
      exact ⟨e, c₃, hexc, hkilled⟩
    · rintro ⟨e', c', hexc', hkilled⟩
      obtain ⟨-, rfl⟩ := hexc.unique hexc'
      exact ⟨le_refl 1, hkilled⟩
  · -- `onHandle` is called a second time.
    push Not at hexcs
    rw [proper_catchClause_of_not_throws hpre hexcs, onHandleCount_of_throws hthrow]
    apply iff_of_false
    · show ¬ 1 + 1 ≤ 1
      omega
    · rintro ⟨e, c₃, hexc, -⟩
      exact hexcs e c₃ hexc

/-- A frame without an exception is processed properly. -/
theorem proper_of_returned
    (h : (setup.handlePacket buffer).run s.connection = .ok result c₁)
    (hreturn : ∀ what c₂, ¬ Throws (setup.onHandleWith result) c₁ what c₂) :
    Proper s (goesOn (packetCallback setup buffer s)).2 := by
  obtain ⟨s', hcallback, hext⟩ := packetCallback_of_returned h hreturn
  have hcalls : s'.calls = s.calls ++ ([⟨.handlePacket buffer, false⟩] ++
      notice (.onHandle result) (setup.onHandleWith result)) := by
    rw [← List.append_assoc]
    exact hext.calls_eq
  rw [hcallback]
  apply (proper_iff_of_calls hcalls).mpr
  constructor
  · rw [List.countP_append, (notifies_notice_onHandle setup result).onHandle]
    show 0 + onHandleCount setup ≤ 1
    rw [Nat.zero_add]
    exact onHandleCount_le setup
  · rintro ⟨call, hmem, hthrew⟩
    rcases List.mem_append.mp hmem with hmem | hmem
    · rw [List.mem_singleton.mp hmem] at hthrew
      cases hthrew
    · rw [threw_of_mem_notice hmem] at hthrew
      cases hthrew

/-- A frame is processed properly exactly when the user's functions are orderly. -/
theorem proper_packetCallback_iff :
    Proper s (goesOn (packetCallback setup buffer s)).2 ↔ OrderlyFrame setup buffer s.connection := by
  cases hrun : (setup.handlePacket buffer).run s.connection with
  | error what c₁ =>
      rw [proper_of_threw hrun]
      constructor
      · intro hexc
        refine { returned := ?_, threw := ?_ }
        · intro result c hok
          rw [hrun] at hok
          cases hok
        · intro what' c herror
          obtain ⟨rfl, rfl⟩ := EStateM.Result.error.inj (hrun.symm.trans herror)
          exact hexc
      · exact fun horderly => horderly.threw what c₁ hrun
  | ok result c₁ =>
      have honly : OrderlyFrame setup buffer s.connection ↔
          ∀ what c₂, Throws (setup.onHandleWith result) c₁ what c₂ →
            ∃ e c₃, Throws (setup.onHandleExceptionWith what) c₂ e c₃ ∧ c₃.killed = true := by
        constructor
        · exact fun horderly => horderly.returned result c₁ hrun
        · intro hall
          refine { returned := ?_, threw := ?_ }
          · intro result' c hok
            obtain ⟨rfl, rfl⟩ := EStateM.Result.ok.inj (hrun.symm.trans hok)
            exact hall
          · intro what c herror
            rw [hrun] at herror
            cases herror
      rw [honly]
      by_cases hthrows : ∃ what c₂, Throws (setup.onHandleWith result) c₁ what c₂
      · obtain ⟨what, c₂, hthrow⟩ := hthrows
        rw [proper_of_onHandle_threw hrun hthrow]
        constructor
        · intro hexc what' c' hthrow'
          obtain ⟨rfl, rfl⟩ := hthrow.unique hthrow'
          exact hexc
        · exact fun hall => hall what c₂ hthrow
      · push Not at hthrows
        apply iff_of_true (proper_of_returned hrun hthrows)
        intro what c₂ hthrow
        exact absurd hthrow (hthrows what c₂)

end Frame

/-! ## Runs -/

/-- One step. -/
theorem properFrame_iff (s : Session σ) (e : Event) :
    ProperFrame setup s e ↔ Orderly setup s e := by
  cases e with
  | scheduleDisconnect => exact Iff.rfl
  | received c =>
      constructor
      · intro hproper hreceiving hframe
        have hp := hproper hframe _ (step_of_receiving c hreceiving)
        rw [handler_of_frame hframe] at hp
        exact proper_packetCallback_iff.mp ⟨hp.once, hp.kills⟩
      · intro horderly hframe s' hs'
        obtain ⟨hreceiving, rfl⟩ := step_received hs'
        have hp := proper_packetCallback_iff.mpr (horderly hreceiving hframe)
        rw [handler_of_frame hframe]
        exact ⟨hp.once, hp.kills⟩

/-- In a run of a connection every frame is notified at most once and every failure leaves
the connection killed, if and only if for every frame an `onHandle` that throws after the
dispatch is followed by an `onHandleException` that throws as well, and the connection has
been killed whenever `onHandleException` throws. -/
theorem properFrames_iff (s : Session σ) (events : List Event) :
    Meets (step setup) (ProperFrame setup) s events ↔
      Meets (step setup) (Orderly setup) s events := by
  constructor
  · exact meets_mono fun s e => (properFrame_iff s e).mp
  · exact meets_mono fun s e => (properFrame_iff s e).mpr

/-- The dispatch returns, and `onHandle` throws. -/
def throwingOnHandle : Setup Unit :=
  { handlePacket := fun _ => returning .continue
    onHandle := some fun _ => throwing (text "onHandle")
    onDeath := none
    onHandleException := none }

/-- The dispatch throws, and so does `onHandleException`. -/
def throwingOnHandleException : Setup Unit :=
  { handlePacket := fun _ => throwing (text "HandlePacket")
    onHandle := none
    onDeath := none
    onHandleException := some fun _ => throwing (text "onHandleException") }

/-- The one is notified of a single frame twice, and the other is not killed by a frame on
which two functions threw. -/
theorem notified_twice_or_not_killed :
    ((run (step throwingOnHandle) (started ⟨false, ()⟩) [frameOf []]).map Session.calls =
        some [⟨.handlePacket [], false⟩, ⟨.onHandle .continue, true⟩,
          ⟨.onHandle .disconnect, true⟩] ∧
      ¬ Meets (step throwingOnHandle) (ProperFrame throwingOnHandle) (started ⟨false, ()⟩)
        [frameOf []]) ∧
    ((run (step throwingOnHandleException) (started ⟨false, ()⟩) [frameOf []]).map Session.killed =
        some false ∧
      ¬ Meets (step throwingOnHandleException) (ProperFrame throwingOnHandleException)
        (started ⟨false, ()⟩) [frameOf []]) := by
  refine ⟨⟨by decide, ?_⟩, by decide, ?_⟩
  · rintro ⟨hproper, -⟩
    have honce := (hproper rfl _ rfl).once
    exact absurd honce (by decide)
  · rintro ⟨hproper, -⟩
    have hkilled := (hproper rfl _ rfl).kills ⟨⟨.handlePacket [], true⟩, by decide, rfl⟩
    exact absurd hkilled (by decide)

end BacsEnv.Gspp.DualConnection
