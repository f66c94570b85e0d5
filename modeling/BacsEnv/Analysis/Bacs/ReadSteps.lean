import BacsEnv.Model.Bacs.ReadLoop

/-!
# One turn of the receive loop

What `async_read_sp` does at a position, by what is left of the stream there: a header
that is cut off, a header that is rejected, a body that is cut off, or a whole frame.
-/

set_option autoImplicit false

namespace BacsEnv.Bacs

variable {T : SPTraits} {heap : Heap} {input : Incoming} {position : ℕ}

/-- A whole size header is at a position. -/
def HeaderAt (T : SPTraits) (input : Incoming) (position : ℕ) : Prop :=
  T.width ≤ (input.rest position).length

/-- The size header at a position. -/
def headerAt (T : SPTraits) (input : Incoming) (position : ℕ) : List UInt8 :=
  (input.rest position).take T.width

/-- The bytes behind the size header at a position. -/
def behindHeader (T : SPTraits) (input : Incoming) (position : ℕ) : List UInt8 :=
  (input.rest position).drop T.width

theorem rest_add (input : Incoming) (position n : ℕ) :
    input.rest (position + n) = (input.rest position).drop n := by
  simp [Incoming.rest, List.drop_drop]

/-- No header is found past the end. -/
theorem not_headerAt_of_length_le (h : input.bytes.length ≤ position) :
    ¬ HeaderAt T input position := by
  have hpos := T.width_pos
  unfold HeaderAt Incoming.rest
  rw [List.length_drop]
  omega

/-- `async_read` of what is there succeeds. -/
theorem asyncRead_of_le {n : ℕ} (h : n ≤ (input.rest position).length) :
    asyncRead input position n =
      some { failed := false, data := (input.rest position).take n } := by
  unfold asyncRead
  exact if_pos h

theorem asyncRead_of_ended {n : ℕ} (h : ¬ n ≤ (input.rest position).length)
    (hended : input.ended = true) :
    asyncRead input position n = some { failed := true, data := input.rest position } := by
  unfold asyncRead
  rw [if_neg h, if_pos hended]

theorem asyncRead_of_pending {n : ℕ} (h : ¬ n ≤ (input.rest position).length)
    (hpending : input.ended = false) : asyncRead input position n = none := by
  unfold asyncRead
  rw [if_neg h, hpending]
  rfl

/-- A header that is cut off: the handler gets the error. -/
theorem asyncReadSp_of_header_cut (heap : Heap) (h : ¬ HeaderAt T input position)
    (hended : input.ended = true) :
    asyncReadSp T heap input position =
      some ({ failed := true, bytesRead := (input.rest position).length, buffer := [] },
        position + (input.rest position).length) := by
  unfold asyncReadSp
  rw [asyncRead_of_ended h hended]
  rfl

theorem asyncReadSp_of_header_pending (h : ¬ HeaderAt T input position)
    (hpending : input.ended = false) : asyncReadSp T heap input position = none := by
  unfold asyncReadSp
  rw [asyncRead_of_pending h hpending]
  rfl

/-- A header that is rejected: the handler gets the success of the header's read and an
empty buffer, and the socket is left behind the header. -/
theorem asyncReadSp_of_rejected (h : HeaderAt T input position)
    (hreject : acceptSize T heap position (headerAt T input position) = none) :
    asyncReadSp T heap input position =
      some ({ failed := false, bytesRead := T.width, buffer := [] }, position + T.width) := by
  have hlen : (headerAt T input position).length = T.width := by
    unfold headerAt
    rw [List.length_take]
    exact Nat.min_eq_left h
  unfold headerAt at hlen hreject
  unfold asyncReadSp
  rw [asyncRead_of_le h]
  simp [hreject, hlen]

/-- A body that is cut off: the handler gets the error. -/
theorem asyncReadSp_of_body_cut {size : ℕ} (h : HeaderAt T input position)
    (hsize : acceptSize T heap position (headerAt T input position) = some size)
    (hcut : ¬ size ≤ (behindHeader T input position).length) (hended : input.ended = true) :
    ∃ call, call.failed = true ∧ asyncReadSp T heap input position =
      some (call, position + (input.rest position).length) := by
  have hlen : ((input.rest position).take T.width).length = T.width := by
    rw [List.length_take]
    exact Nat.min_eq_left h
  unfold headerAt at hsize
  unfold behindHeader at hcut
  rw [← rest_add] at hcut
  have hall : T.width + (input.rest (position + T.width)).length =
      (input.rest position).length := by
    rw [rest_add, List.length_drop]
    exact Nat.add_sub_cancel' h
  unfold asyncReadSp
  rw [asyncRead_of_le h]
  simp only [Option.bind_eq_bind, Option.bind_some, hsize, hlen,
    asyncRead_of_ended hcut hended]
  refine ⟨{ failed := true, bytesRead := (input.rest (position + T.width)).length,
            buffer := sharedBuffer heap size (input.rest (position + T.width)) }, rfl, ?_⟩
  simp [Nat.add_assoc, hall]

/-- A body that does not arrive. -/
theorem asyncReadSp_of_body_pending {size : ℕ} (h : HeaderAt T input position)
    (hsize : acceptSize T heap position (headerAt T input position) = some size)
    (hcut : ¬ size ≤ (behindHeader T input position).length) (hpending : input.ended = false) :
    asyncReadSp T heap input position = none := by
  have hlen : ((input.rest position).take T.width).length = T.width := by
    rw [List.length_take]
    exact Nat.min_eq_left h
  unfold headerAt at hsize
  unfold behindHeader at hcut
  rw [← rest_add] at hcut
  unfold asyncReadSp
  rw [asyncRead_of_le h]
  simp [hsize, hlen, asyncRead_of_pending hcut hpending]

/-- A whole frame: the handler gets its body. -/
theorem asyncReadSp_of_frame {size : ℕ} (h : HeaderAt T input position)
    (hsize : acceptSize T heap position (headerAt T input position) = some size)
    (hbody : size ≤ (behindHeader T input position).length) :
    asyncReadSp T heap input position =
      some ({ failed := false, bytesRead := size,
              buffer := (behindHeader T input position).take size },
        position + T.width + size) := by
  have hlen : ((input.rest position).take T.width).length = T.width := by
    rw [List.length_take]
    exact Nat.min_eq_left h
  have hdata : ((behindHeader T input position).take size).length = size := by
    rw [List.length_take]
    exact Nat.min_eq_left hbody
  unfold headerAt at hsize
  unfold behindHeader at hbody hdata ⊢
  rw [← rest_add] at hbody hdata ⊢
  unfold asyncReadSp
  rw [asyncRead_of_le h]
  simp only [Option.bind_eq_bind, Option.bind_some, hsize, hlen, asyncRead_of_le hbody]
  simp [sharedBuffer, hdata]

/-- A header that the `try` block gives up on. -/
def Rejected (T : SPTraits) (heap : Heap) (input : Incoming) (position : ℕ) : Prop :=
  HeaderAt T input position ∧ acceptSize T heap position (headerAt T input position) = none

/-- A whole frame that the `try` block accepts, with the size of its body. -/
def FrameAt (T : SPTraits) (heap : Heap) (input : Incoming) (position size : ℕ) : Prop :=
  HeaderAt T input position ∧
    acceptSize T heap position (headerAt T input position) = some size ∧
    size ≤ (behindHeader T input position).length

/-- The call for a whole frame. -/
def frameCall (T : SPTraits) (input : Incoming) (position size : ℕ) : Call :=
  { failed := false, bytesRead := size, buffer := (behindHeader T input position).take size }

/-- Everything that `async_read_sp` can do: wait, report an error at the end of the stream,
reject the header, or hand on the body of a whole frame. -/
theorem asyncReadSp_cases (T : SPTraits) (heap : Heap) (input : Incoming) (position : ℕ) :
    (¬ Rejected T heap input position ∧ (∀ size, ¬ FrameAt T heap input position size) ∧
        (asyncReadSp T heap input position = none ∨
          ∃ call next, call.failed = true ∧ position ≤ next ∧ input.bytes.length ≤ next ∧
            asyncReadSp T heap input position = some (call, next))) ∨
      (Rejected T heap input position ∧
        asyncReadSp T heap input position =
          some ({ failed := false, bytesRead := T.width, buffer := [] }, position + T.width)) ∨
      ∃ size, FrameAt T heap input position size ∧
        asyncReadSp T heap input position =
          some (frameCall T input position size, position + T.width + size) := by
  have hend : input.bytes.length ≤ position + (input.rest position).length := by
    unfold Incoming.rest
    rw [List.length_drop]
    omega
  by_cases hheader : HeaderAt T input position
  · cases hsize : acceptSize T heap position (headerAt T input position) with
    | none => exact Or.inr (Or.inl ⟨⟨hheader, hsize⟩, asyncReadSp_of_rejected hheader hsize⟩)
    | some size =>
        by_cases hbody : size ≤ (behindHeader T input position).length
        · exact Or.inr (Or.inr ⟨size, ⟨hheader, hsize, hbody⟩,
            asyncReadSp_of_frame hheader hsize hbody⟩)
        · refine Or.inl ⟨?_, ?_, ?_⟩
          · rintro ⟨-, hreject⟩
            rw [hsize] at hreject
            cases hreject
          · rintro size' ⟨-, hsize', hbody'⟩
            rw [hsize] at hsize'
            obtain rfl := Option.some.inj hsize'
            exact hbody hbody'
          · cases hended : input.ended with
            | false => exact Or.inl (asyncReadSp_of_body_pending hheader hsize hbody hended)
            | true =>
                obtain ⟨call, hfailed, hcall⟩ :=
                  asyncReadSp_of_body_cut hheader hsize hbody hended
                exact Or.inr ⟨call, _, hfailed, Nat.le_add_right _ _, hend, hcall⟩
  · refine Or.inl ⟨fun hreject => hheader hreject.1, fun size hframe => hheader hframe.1, ?_⟩
    cases hended : input.ended with
    | false => exact Or.inl (asyncReadSp_of_header_pending hheader hended)
    | true =>
        exact Or.inr ⟨_, _, rfl, Nat.le_add_right _ _, hend,
          asyncReadSp_of_header_cut heap hheader hended⟩

/-- One turn of the loop. -/
theorem asyncReadSpLoop_succ {σ : Type} {handler : Handler σ} {fuel : ℕ} {s : σ} {call : Call}
    {next : ℕ} (h : asyncReadSp T heap input position = some (call, next)) :
    asyncReadSpLoop T heap input handler (fuel + 1) position s =
      if (handler call s).1 then
        ({ start := position, call := call } ::
            (asyncReadSpLoop T heap input handler fuel next (handler call s).2).1,
          (asyncReadSpLoop T heap input handler fuel next (handler call s).2).2)
      else ([{ start := position, call := call }], (handler call s).2) := by
  simp only [asyncReadSpLoop, h]

theorem asyncReadSpLoop_succ_of_none {σ : Type} {handler : Handler σ} {fuel : ℕ} {s : σ}
    (h : asyncReadSp T heap input position = none) :
    asyncReadSpLoop T heap input handler (fuel + 1) position s = ([], s) := by
  simp only [asyncReadSpLoop, h]

end BacsEnv.Bacs
