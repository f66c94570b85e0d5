import BacsEnv.Analysis.Bacs.ReadSteps
import BacsEnv.Library.Transition
import BacsEnv.Model.Bacs.Reader

/-!
# The receive loop, completion by completion

What the completion of a pending read can do (`Completed`), and that the loop that runs one
completion handler at a time does what `async_read_sp_loop` does turn by turn.
-/

set_option autoImplicit false

namespace BacsEnv.Bacs

open BacsEnv.Transition

variable {T : SPTraits} {heap : Heap} {σ : Type} {handler : Handler σ} {input : Incoming}

/-- The ways a pending read can complete. -/
inductive Completed (T : SPTraits) (heap : Heap) (handler : Handler σ) (input : Incoming)
    (r : Reader σ) : Reader σ → Prop
  /-- The stream ends in a header. -/
  | headerCut (hr : r.reading = .header) (hcut : ¬ HeaderAt T input r.position)
      (hended : input.ended = true) :
      Completed T heap handler input r
        (r.handOn handler
          { failed := true, bytesRead := (input.rest r.position).length, buffer := [] }
          (r.position + (input.rest r.position).length))
  /-- The size in a header is rejected. -/
  | rejected (hr : r.reading = .header) (hat : HeaderAt T input r.position)
      (hreject : acceptSize T heap r.position (headerAt T input r.position) = none) :
      Completed T heap handler input r
        (r.handOn handler { failed := false, bytesRead := T.width, buffer := [] }
          (r.position + T.width))
  /-- A header is through. -/
  | headerRead {size : ℕ} (hr : r.reading = .header) (hat : HeaderAt T input r.position)
      (haccept : acceptSize T heap r.position (headerAt T input r.position) = some size) :
      Completed T heap handler input r
        { r with position := r.position + T.width, reading := .body size }
  /-- The stream ends in a body. -/
  | bodyCut {size : ℕ} (hr : r.reading = .body size)
      (hcut : ¬ size ≤ (input.rest r.position).length) (hended : input.ended = true) :
      Completed T heap handler input r
        (r.handOn handler
          { failed := true, bytesRead := (input.rest r.position).length,
            buffer := sharedBuffer heap size (input.rest r.position) }
          (r.position + (input.rest r.position).length))
  /-- A body is through. -/
  | bodyRead {size : ℕ} (hr : r.reading = .body size)
      (hle : size ≤ (input.rest r.position).length) :
      Completed T heap handler input r
        (r.handOn handler
          { failed := false, bytesRead := size, buffer := (input.rest r.position).take size }
          (r.position + size))

/-- A buffer that was filled. -/
theorem sharedBuffer_of_length {size : ℕ} {data : List UInt8} (h : data.length = size) :
    sharedBuffer heap size data = data := by
  unfold sharedBuffer
  rw [h, Nat.sub_self]
  simp

/-- What the completion of a pending read did. -/
theorem completed_of_complete {r r' : Reader σ}
    (h : r.complete T heap handler input = some r') : Completed T heap handler input r r' := by
  unfold Reader.complete at h
  cases hr : r.reading with
  | nothing => simp [hr] at h
  | header =>
      simp only [hr] at h
      by_cases hat : HeaderAt T input r.position
      · have hlen := List.length_take_of_le hat
        rw [asyncRead_of_le hat] at h
        cases haccept : acceptSize T heap r.position (headerAt T input r.position) with
        | none =>
            unfold headerAt at haccept
            simp only [Option.bind_eq_bind, Option.bind_some, hlen, haccept] at h
            cases h
            exact .rejected hr hat haccept
        | some size =>
            unfold headerAt at haccept
            simp only [Option.bind_eq_bind, Option.bind_some, hlen, haccept] at h
            cases h
            exact .headerRead hr hat haccept
      · cases hended : input.ended with
        | false =>
            rw [asyncRead_of_pending hat hended] at h
            cases h
        | true =>
            rw [asyncRead_of_ended hat hended] at h
            cases h
            exact .headerCut hr hat hended
  | body size =>
      simp only [hr] at h
      by_cases hle : size ≤ (input.rest r.position).length
      · have hlen := List.length_take_of_le hle
        rw [asyncRead_of_le hle] at h
        simp only [Option.bind_eq_bind, Option.bind_some, hlen, sharedBuffer_of_length hlen] at h
        cases h
        exact .bodyRead hr hle
      · cases hended : input.ended with
        | false =>
            rw [asyncRead_of_pending hle hended] at h
            cases h
        | true =>
            rw [asyncRead_of_ended hle hended] at h
            cases h
            exact .bodyCut hr hle hended

/-- Each of the ways is one of the pending read. -/
theorem Completed.complete_eq {r r' : Reader σ} (h : Completed T heap handler input r r') :
    r.complete T heap handler input = some r' := by
  unfold Reader.complete
  cases h with
  | headerCut hr hcut hended =>
      simp only [hr]
      rw [asyncRead_of_ended hcut hended]
      rfl
  | rejected hr hat hreject =>
      have hlen := List.length_take_of_le hat
      unfold headerAt at hreject
      simp only [hr]
      rw [asyncRead_of_le hat]
      simp [hreject, hlen]
  | headerRead hr hat haccept =>
      have hlen := List.length_take_of_le hat
      unfold headerAt at haccept
      simp only [hr]
      rw [asyncRead_of_le hat]
      simp [haccept, hlen]
  | bodyCut hr hcut hended =>
      simp only [hr]
      rw [asyncRead_of_ended hcut hended]
      rfl
  | bodyRead hr hle =>
      have hlen := List.length_take_of_le hle
      simp only [hr]
      rw [asyncRead_of_le hle]
      simp [hlen, sharedBuffer_of_length hlen]

/-- A read completes in one of these ways. -/
theorem complete_eq_some_iff {r r' : Reader σ} :
    r.complete T heap handler input = some r' ↔ Completed T heap handler input r r' :=
  ⟨completed_of_complete, Completed.complete_eq⟩

/-- Only a read that is pending completes. -/
theorem Completed.reading_ne {r r' : Reader σ} (h : Completed T heap handler input r r') :
    r.reading ≠ .nothing := by
  intro hnothing
  cases h with
  | headerCut hr => simp [hnothing] at hr
  | rejected hr => simp [hnothing] at hr
  | headerRead hr => simp [hnothing] at hr
  | bodyCut hr => simp [hnothing] at hr
  | bodyRead hr => simp [hnothing] at hr

/-! ## Turns of the loop -/

/-- The next completion of a loop, as a transition. -/
def completion (T : SPTraits) (heap : Heap) (handler : Handler σ) (input : Incoming)
    (r : Reader σ) (_ : Unit) : Option (Reader σ) :=
  r.complete T heap handler input

theorem completion_of_completed {r r' : Reader σ} (h : Completed T heap handler input r r') :
    completion T heap handler input r () = some r' := complete_eq_some_iff.mpr h

/-- One turn of `async_read_sp` is one completion or two. -/
theorem exists_completions_of_turn {r : Reader σ} (hr : r.reading = .header) {call : Call}
    {next : ℕ} (h : asyncReadSp T heap input r.position = some (call, next)) :
    ∃ k, run (completion T heap handler input) r (List.replicate k ()) =
      some (r.handOn handler call next) := by
  have hone : ∀ {r'}, Completed T heap handler input r r' →
      run (completion T heap handler input) r (List.replicate 1 ()) = some r' := by
    intro r' hr'
    exact run_cons_eq_some.mpr ⟨r', completion_of_completed hr', rfl⟩
  by_cases hat : HeaderAt T input r.position
  · cases haccept : acceptSize T heap r.position (headerAt T input r.position) with
    | none =>
        rw [asyncReadSp_of_rejected hat haccept] at h
        cases h
        exact ⟨1, hone (.rejected hr hat haccept)⟩
    | some size =>
        have hfirst : completion T heap handler input r () =
            some { r with position := r.position + T.width, reading := .body size } :=
          completion_of_completed (.headerRead hr hat haccept)
        have hrest : input.rest (r.position + T.width) = behindHeader T input r.position :=
          rest_add input r.position T.width
        -- The completion of the body finds what is behind the header.
        have hsecond : ∀ {r'}, Completed T heap handler input
            { r with position := r.position + T.width, reading := .body size } r' →
              run (completion T heap handler input) r (List.replicate 2 ()) = some r' := by
          intro r' hr'
          exact run_cons_eq_some.mpr ⟨_, hfirst,
            run_cons_eq_some.mpr ⟨r', completion_of_completed hr', rfl⟩⟩
        refine ⟨2, ?_⟩
        by_cases hle : size ≤ (behindHeader T input r.position).length
        · rw [asyncReadSp_of_frame hat haccept hle] at h
          cases h
          rw [← hrest] at hle ⊢
          exact hsecond (.bodyRead rfl hle)
        · cases hended : input.ended with
          | false =>
              rw [asyncReadSp_of_body_pending hat haccept hle hended] at h
              cases h
          | true =>
              have hlen : ((input.rest r.position).take T.width).length = T.width := by
                rw [List.length_take]
                exact Nat.min_eq_left hat
              unfold headerAt at haccept
              rw [← hrest] at hle
              unfold asyncReadSp at h
              rw [asyncRead_of_le hat] at h
              simp only [Option.bind_eq_bind, Option.bind_some, haccept, hlen,
                asyncRead_of_ended hle hended] at h
              cases h
              exact hsecond (.bodyCut rfl hle hended)
  · cases hended : input.ended with
    | false =>
        rw [asyncReadSp_of_header_pending hat hended] at h
        cases h
    | true =>
        rw [asyncReadSp_of_header_cut heap hat hended] at h
        cases h
        exact ⟨1, hone (.headerCut hr hat hended)⟩

/-- Some completions bring a loop to what `async_read_sp_loop` does in some turns: the same
calls of the handler, and the same state of it. -/
theorem exists_completions_of_loop (fuel : ℕ) {r : Reader σ} (hr : r.reading = .header) :
    ∃ k r', run (completion T heap handler input) r (List.replicate k ()) = some r' ∧
      r'.calls = r.calls ++
        (asyncReadSpLoop T heap input handler fuel r.position r.state).1.map Round.call ∧
      r'.state = (asyncReadSpLoop T heap input handler fuel r.position r.state).2 := by
  induction fuel generalizing r with
  | zero => exact ⟨0, r, rfl, by simp [asyncReadSpLoop], rfl⟩
  | succ fuel ih =>
      cases hturn : asyncReadSp T heap input r.position with
      | none =>
          rw [asyncReadSpLoop_succ_of_none hturn]
          exact ⟨0, r, rfl, by simp, rfl⟩
      | some turn =>
          obtain ⟨call, next⟩ := turn
          obtain ⟨k, hk⟩ : ∃ k, run (completion T heap handler input) r (List.replicate k ()) =
              some (r.handOn handler call next) := exists_completions_of_turn hr hturn
          rw [asyncReadSpLoop_succ hturn]
          by_cases hagain : (handler call r.state).1 = true
          · have hheader : (r.handOn handler call next).reading = .header := by
              simp [Reader.handOn, hagain]
            obtain ⟨k', r', hk', hcalls, hstate⟩ := ih hheader
            refine ⟨k + k', r', ?_, ?_, ?_⟩
            · rw [List.replicate_add]
              exact run_append_eq_some.mpr ⟨_, hk, hk'⟩
            · rw [hcalls, if_pos hagain]
              simp [Reader.handOn]
            · rw [hstate, if_pos hagain]
              rfl
          · refine ⟨k, _, hk, ?_, ?_⟩
            · rw [if_neg hagain]
              rfl
            · rw [if_neg hagain]
              rfl

end BacsEnv.Bacs
