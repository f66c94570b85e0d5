import BacsEnv.Library.Simulation

/-!
# A channel that keeps the order

What a reliable ordered channel is for, as a specification: it accepts messages, hands them
over in the order it accepted them, each at most once, and may end at any time, after which
nothing is handed over any more. `accepted` and `delivered` record what happened.
-/

set_option autoImplicit false

namespace BacsEnv.Fifo

open BacsEnv.Transition

variable {α : Type}

/-- The messages of a channel, from the first one on. -/
structure Channel (α : Type) where
  accepted : List α := []
  delivered : List α := []
  inTransit : List α := []
  ended : Bool := false

/-- What can happen on a channel. -/
inductive Action (α : Type)
  | accept (message : α)
  | deliver
  | finish

/-- One action, when it can happen. -/
def act (c : Channel α) : Action α → Option (Channel α)
  | .accept message =>
      some { c with accepted := c.accepted ++ [message], inTransit := c.inTransit ++ [message] }
  | .deliver =>
      match c.ended, c.inTransit with
      | false, message :: rest =>
          some { c with delivered := c.delivered ++ [message], inTransit := rest }
      | _, _ => none
  | .finish => if c.ended then none else some { c with ended := true }

/-- No message is lost, duplicated or overtaken. -/
def InOrder (c : Channel α) : Prop := c.delivered ++ c.inTransit = c.accepted

theorem inOrder_of_act (c : Channel α) (a : Action α) (c' : Channel α) (hc : InOrder c)
    (h : act c a = some c') : InOrder c' := by
  unfold InOrder at hc ⊢
  cases a with
  | accept message =>
      cases h
      show c.delivered ++ (c.inTransit ++ [message]) = c.accepted ++ [message]
      rw [← hc, List.append_assoc]
  | deliver =>
      simp only [act] at h
      split at h
      · rename_i message rest hended htransit
        cases h
        show (c.delivered ++ [message]) ++ rest = c.accepted
        rw [← hc, htransit, List.append_assoc]
        rfl
      · cases h
  | finish =>
      simp only [act] at h
      split at h
      · cases h
      · cases h
        exact hc

/-- The next message is delivered. -/
theorem act_deliver {c : Channel α} (hopen : c.ended = false) {message : α} {rest : List α}
    (h : c.inTransit = message :: rest) :
    act c .deliver =
      some { c with delivered := c.delivered ++ [message], inTransit := rest } := by
  simp [act, hopen, h]

/-! ## Runs of a channel -/

/-- A channel accepts messages one after the other. -/
theorem run_accept (c : Channel α) (messages : List α) :
    run act c (messages.map Action.accept) =
      some { c with accepted := c.accepted ++ messages, inTransit := c.inTransit ++ messages } := by
  induction messages generalizing c with
  | nil => simp [run]
  | cons message messages ih =>
      rw [List.map_cons]
      refine run_cons_eq_some.mpr ⟨_, rfl, ?_⟩
      rw [ih]
      simp

/-- It delivers what comes first among the messages in transit. -/
theorem run_deliver {c : Channel α} (hopen : c.ended = false) {messages rest : List α}
    (h : c.inTransit = messages ++ rest) :
    run act c (messages.map fun _ => Action.deliver) =
      some { c with delivered := c.delivered ++ messages, inTransit := rest } := by
  induction messages generalizing c with
  | nil =>
      rw [List.nil_append] at h
      simp [run, ← h]
  | cons message messages ih =>
      rw [List.cons_append] at h
      have hlater := ih (c := { c with delivered := c.delivered ++ [message],
                                       inTransit := messages ++ rest }) hopen rfl
      rw [List.append_assoc, List.singleton_append] at hlater
      exact run_cons_eq_some.mpr ⟨_, act_deliver hopen h, hlater⟩

/-- It may end once. -/
theorem exists_run_end (c : Channel α) (e : Bool) (h : c.ended = true → e = true) :
    ∃ actions, run act c actions = some { c with ended := e } := by
  obtain ⟨accepted, delivered, inTransit, ended⟩ := c
  cases ended with
  | true =>
      obtain rfl : e = true := h rfl
      exact ⟨[], rfl⟩
  | false =>
      cases e with
      | false => exact ⟨[], rfl⟩
      | true => exact ⟨[.finish], rfl⟩

/-- What was accepted and delivered only grows, and nothing is delivered after the end. -/
theorem grows_of_act (c : Channel α) (a : Action α) (c' : Channel α) (h : act c a = some c') :
    c.accepted <+: c'.accepted ∧ c.delivered <+: c'.delivered ∧
      (c.ended = true → c'.ended = true ∧ c'.delivered = c.delivered) := by
  cases a with
  | accept message =>
      cases h
      exact ⟨List.prefix_append _ _, List.prefix_refl _, fun h => ⟨h, rfl⟩⟩
  | deliver =>
      simp only [act] at h
      split at h
      · rename_i message rest hended htransit
        cases h
        refine ⟨List.prefix_refl _, List.prefix_append _ _, ?_⟩
        intro hend
        rw [hended] at hend
        cases hend
      · cases h
  | finish =>
      simp only [act] at h
      split at h
      · cases h
      · cases h
        exact ⟨List.prefix_refl _, List.prefix_refl _, fun _ => ⟨rfl, rfl⟩⟩

theorem grows_of_run {c c' : Channel α} {actions : List (Action α)}
    (h : run act c actions = some c') :
    c.accepted <+: c'.accepted ∧ c.delivered <+: c'.delivered ∧
      (c.ended = true → c'.ended = true ∧ c'.delivered = c.delivered) := by
  refine run_inv (I := fun c' => c.accepted <+: c'.accepted ∧ c.delivered <+: c'.delivered ∧
      (c.ended = true → c'.ended = true ∧ c'.delivered = c.delivered)) ?_ h
    ⟨List.prefix_refl _, List.prefix_refl _, fun h => ⟨h, rfl⟩⟩
  rintro c₁ a c₂ ⟨haccepted, hdelivered, hended⟩ hact
  obtain ⟨haccepted', hdelivered', hended'⟩ := grows_of_act c₁ a c₂ hact
  refine ⟨haccepted.trans haccepted', hdelivered.trans hdelivered', ?_⟩
  intro hend
  obtain ⟨hend₁, hsame₁⟩ := hended hend
  obtain ⟨hend₂, hsame₂⟩ := hended' hend₁
  exact ⟨hend₂, hsame₂.trans hsame₁⟩

/-! ## Systems that are channels -/

section Refinement

variable {σ ε : Type} {step : σ → ε → Option σ} {C : σ → ε → Prop} {I : σ → Prop}

/-- How a state of a system stands for a channel: the messages it accepted and delivered,
and whether it has ended. -/
structure View (σ α : Type) where
  accepted : σ → List α
  delivered : σ → List α
  ended : σ → Bool

/-- A step that accepts and delivers as a channel does: both histories only grow, and
nothing is delivered after the end. -/
structure Moves (view : View σ α) (s s' : σ) : Prop where
  accepted : ∃ more, view.accepted s' = view.accepted s ++ more
  delivered : ∃ more, view.delivered s' = view.delivered s ++ more
  of_ended : view.ended s = true → view.delivered s' = view.delivered s ∧ view.ended s' = true

theorem Moves.of_eq {view : View σ α} {s s' : σ} (haccepted : view.accepted s' = view.accepted s)
    (hdelivered : view.delivered s' = view.delivered s) (hended : view.ended s' = view.ended s) :
    Moves view s s' where
  accepted := ⟨[], by rw [haccepted, List.append_nil]⟩
  delivered := ⟨[], by rw [hdelivered, List.append_nil]⟩
  of_ended := fun h => ⟨hdelivered, by rw [hended, h]⟩

/-- The channel that a state of a system stands for. -/
structure Stands (I : σ → Prop) (view : View σ α) (s : σ) (c : Channel α) : Prop where
  inv : I s
  inOrder : InOrder c
  accepted_eq : c.accepted = view.accepted s
  delivered_eq : c.delivered = view.delivered s
  ended_eq : c.ended = view.ended s

/-- A system is simulated by a channel if its invariant keeps what was delivered a beginning
of what was accepted, and its steps accept and deliver as a channel does. -/
theorem simulates_of_moves {view : View σ α}
    (hkept : ∀ s e s', I s → C s e → step s e = some s' → I s')
    (hdelivered : ∀ s, I s → view.delivered s <+: view.accepted s)
    (hmoves : ∀ s e s', I s → C s e → step s e = some s' → Moves view s s') :
    Simulates step act C (Stands I view) := by
  intro s e s' c hc hC he
  have hI' := hkept s e s' hc.inv hC he
  have hmove := hmoves s e s' hc.inv hC he
  obtain ⟨more, hmore⟩ := hmove.accepted
  obtain ⟨news, hnews⟩ := hmove.delivered
  -- The new messages are accepted first, then what was delivered is.
  have haccept := run_accept c more
  have hinOrder := run_inv inOrder_of_act haccept hc.inOrder
  obtain ⟨rest, hrest⟩ := hdelivered s' hI'
  have htransit : c.inTransit ++ more = news ++ rest := by
    have hall : c.delivered ++ (c.inTransit ++ more) = c.delivered ++ (news ++ rest) := by
      rw [← List.append_assoc, hc.inOrder, hc.accepted_eq, hc.delivered_eq, ← hmore,
        ← List.append_assoc, ← hnews, hrest]
    exact List.append_cancel_left hall
  have hdeliver : run act
      { c with accepted := c.accepted ++ more, inTransit := c.inTransit ++ more }
      (news.map fun _ => Action.deliver) =
        some { c with accepted := c.accepted ++ more, delivered := c.delivered ++ news,
                      inTransit := rest } := by
    by_cases hended : c.ended = true
    · have hsame := (hmove.of_ended (hc.ended_eq ▸ hended)).1
      obtain rfl : news = [] := List.self_eq_append_right.mp (hsame.symm.trans hnews)
      rw [List.nil_append] at htransit
      simp [run, htransit]
    · exact run_deliver (c := { c with accepted := c.accepted ++ more,
                                       inTransit := c.inTransit ++ more })
        (Bool.eq_false_iff.mpr hended) htransit
  obtain ⟨last, hlast⟩ := exists_run_end
    { c with accepted := c.accepted ++ more, delivered := c.delivered ++ news, inTransit := rest }
    (view.ended s') (fun h => (hmove.of_ended (hc.ended_eq ▸ h)).2)
  refine ⟨_, _, run_append_eq_some.mpr ⟨_, haccept, run_append_eq_some.mpr ⟨_, hdeliver, hlast⟩⟩,
    ?_⟩
  exact
    { inv := hI'
      inOrder := by
        show (c.delivered ++ news) ++ rest = c.accepted ++ more
        rw [List.append_assoc, ← htransit, ← List.append_assoc, hc.inOrder]
      accepted_eq := by rw [hmore, ← hc.accepted_eq]
      delivered_eq := by rw [hnews, ← hc.delivered_eq]
      ended_eq := rfl }

end Refinement

end BacsEnv.Fifo
