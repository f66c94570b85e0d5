import BacsEnv.Analysis.Bacs.ReadSteps

/-!
# A rejected frame size

The `catch` clause of `async_read_sp` calls the handler with the `error_code` of the
header, which is a success, and with an empty buffer. A handler that goes on makes the
loop read the next header inside the body of the rejected frame. The loop stays in step
with the frames exactly when it never comes to a rejected header.
-/

set_option autoImplicit false

namespace BacsEnv.Bacs

variable {T : SPTraits} {heap : Heap} {input : Incoming} {σ : Type} {handler : Handler σ}

/-- What the turns of a loop should be like. -/
structure Synchronised (T : SPTraits) (heap : Heap) (input : Incoming) (rounds : List Round) :
    Prop where
  /-- A success comes with the whole body of the frame whose header was read. -/
  delivered : ∀ round ∈ rounds, round.call.failed = false →
    HeaderAt T input round.start ∧
      ∃ size, T.sizeIn (T.ofBytes (headerAt T input round.start)) = some size ∧
        size.val ≤ (behindHeader T input round.start).length ∧
        round.call.buffer = (behindHeader T input round.start).take size.val
  /-- No header is read inside the body of an earlier frame. -/
  outside : rounds.Pairwise fun earlier later =>
    HeaderAt T input earlier.start → HeaderAt T input later.start →
      ∀ size, T.sizeIn (T.ofBytes (headerAt T input earlier.start)) = some size →
        earlier.start + T.width + size.val ≤ later.start
  /-- A rejected header is reported as a failure, and is the last thing that is read. -/
  rejected_last : ∀ i round, rounds[i]? = some round → Rejected T heap input round.start →
    round.call.failed = true ∧ rounds[i + 1]? = none

/-- The stream has a header that is rejected, behind whole frames for each of which the
handler asks for more. -/
inductive RejectReached (T : SPTraits) (heap : Heap) (input : Incoming) {σ : Type}
    (handler : Handler σ) : ℕ → σ → Prop
  | here {position : ℕ} {s : σ} (hreject : Rejected T heap input position) :
      RejectReached T heap input handler position s
  | behind {position size : ℕ} {s s' : σ} (hframe : FrameAt T heap input position size)
      (hagain : handler (frameCall T input position size) s = (true, s'))
      (hlater : RejectReached T heap input handler (position + T.width + size) s') :
      RejectReached T heap input handler position s

/-- The positions of a loop only grow. -/
theorem start_le_of_mem {fuel position : ℕ} {s : σ} {round : Round}
    (h : round ∈ (asyncReadSpLoop T heap input handler fuel position s).1) :
    position ≤ round.start := by
  induction fuel generalizing position s with
  | zero => cases h
  | succ fuel ih =>
      cases hturn : asyncReadSp T heap input position with
      | none =>
          rw [asyncReadSpLoop_succ_of_none hturn] at h
          cases h
      | some turn =>
          obtain ⟨call, next⟩ := turn
          have hnext : position ≤ next := by
            rcases asyncReadSp_cases T heap input position with
              ⟨-, -, hnone | ⟨call', next', -, hle, -, hsome⟩⟩ | ⟨-, hsome⟩ | ⟨size, -, hsome⟩
            · rw [hturn] at hnone
              cases hnone
            · rw [hturn] at hsome
              cases hsome
              exact hle
            · rw [hturn] at hsome
              cases hsome
              exact Nat.le_add_right _ _
            · rw [hturn] at hsome
              cases hsome
              omega
          rw [asyncReadSpLoop_succ hturn] at h
          split at h
          · rcases List.mem_cons.mp h with rfl | hmem
            · exact le_rfl
            · exact hnext.trans (ih hmem)
          · obtain rfl := List.mem_singleton.mp h
            exact le_rfl

/-- An accepted size is what `SPTraits::in` makes of the header. -/
theorem sizeIn_of_acceptSize {position size : ℕ} {header : List UInt8}
    (h : acceptSize T heap position header = some size) :
    ∃ n, T.sizeIn (T.ofBytes header) = some n ∧ n.val = size := by
  simp only [acceptSize, Option.bind_eq_bind, Option.bind_eq_some_iff, Option.pure_def,
    Option.ite_none_right_eq_some, Option.some.injEq] at h
  obtain ⟨n, hn, -, hval⟩ := h
  exact ⟨n, hn, hval⟩

/-- A turn is put in front of turns that are in step and start behind its frame. -/
theorem Synchronised.cons {position next : ℕ} {call : Call} {rounds : List Round}
    (hrounds : Synchronised T heap input rounds) (hstarts : ∀ round ∈ rounds, next ≤ round.start)
    (hreject : ¬ Rejected T heap input position)
    (hcall : (call.failed = true ∧ input.bytes.length ≤ next) ∨
      ∃ size, FrameAt T heap input position size ∧ call = frameCall T input position size ∧
        next = position + T.width + size) :
    Synchronised T heap input ({ start := position, call := call } :: rounds) where
  delivered := by
    intro round hmem hok
    rcases List.mem_cons.mp hmem with rfl | hmem
    · rcases hcall with ⟨hfailed, -⟩ | ⟨size, ⟨hheader, hsize, hbody⟩, rfl, -⟩
      · rw [hfailed] at hok
        cases hok
      · obtain ⟨n, hn, rfl⟩ := sizeIn_of_acceptSize hsize
        exact ⟨hheader, n, hn, hbody, rfl⟩
    · exact hrounds.delivered round hmem hok
  outside := by
    refine List.pairwise_cons.mpr ⟨?_, hrounds.outside⟩
    intro later hmem hheader hlater size hsize
    have hle := hstarts later hmem
    rcases hcall with ⟨-, hend⟩ | ⟨size', ⟨-, haccept, -⟩, -, rfl⟩
    · exact (not_headerAt_of_length_le (hend.trans hle) hlater).elim
    · obtain ⟨n, hn, rfl⟩ := sizeIn_of_acceptSize haccept
      have hsame : n = size := Option.some.inj (hn.symm.trans hsize)
      rw [← hsame]
      exact hle
  rejected_last := by
    intro i round hget hrej
    cases i with
    | zero =>
        cases hget
        exact (hreject hrej).elim
    | succ i => exact hrounds.rejected_last i round hget hrej

theorem synchronised_nil : Synchronised T heap input [] where
  delivered := by
    intro round hmem
    cases hmem
  outside := List.Pairwise.nil
  rejected_last := by
    intro i round hget
    cases hget

theorem Synchronised.tail {round : Round} {rounds : List Round}
    (h : Synchronised T heap input (round :: rounds)) : Synchronised T heap input rounds where
  delivered := fun later hmem => h.delivered later (List.mem_cons_of_mem _ hmem)
  outside := (List.pairwise_cons.mp h.outside).2
  rejected_last := fun i later hget => h.rejected_last (i + 1) later hget

/-- As long as no rejected header is reached the loop stays in step. -/
theorem synchronised_of_not_rejectReached {fuel position : ℕ} {s : σ}
    (h : ¬ RejectReached T heap input handler position s) :
    Synchronised T heap input (asyncReadSpLoop T heap input handler fuel position s).1 := by
  induction fuel generalizing position s with
  | zero => exact synchronised_nil
  | succ fuel ih =>
      have hreject : ¬ Rejected T heap input position := fun hrej => h (.here hrej)
      rcases asyncReadSp_cases T heap input position with
        ⟨-, -, hnone | ⟨call, next, hfailed, -, hend, hturn⟩⟩ | ⟨hrej, -⟩ | ⟨size, hframe, hturn⟩
      · rw [asyncReadSpLoop_succ_of_none hnone]
        exact synchronised_nil
      · rw [asyncReadSpLoop_succ hturn]
        split
        · -- Past the end there are no more headers, whatever the handler says.
          refine Synchronised.cons (ih ?_) (fun round => start_le_of_mem) hreject
            (Or.inl ⟨hfailed, hend⟩)
          intro hreached
          cases hreached with
          | here hrej => exact not_headerAt_of_length_le hend hrej.1
          | behind hframe => exact not_headerAt_of_length_le hend hframe.1
        · exact synchronised_nil.cons (by simp) hreject (Or.inl ⟨hfailed, hend⟩)
      · exact (hreject hrej).elim
      · rw [asyncReadSpLoop_succ hturn]
        split
        · rename_i hagain
          refine Synchronised.cons (ih ?_) (fun round => start_le_of_mem) hreject
            (Or.inr ⟨size, hframe, rfl, rfl⟩)
          intro hreached
          exact h (.behind hframe (Prod.ext hagain rfl) hreached)
        · exact synchronised_nil.cons (by simp) hreject (Or.inr ⟨size, hframe, rfl, rfl⟩)

/-- Once a rejected header is reached, the loop takes it for a success. -/
theorem RejectReached.not_synchronised {position : ℕ} {s : σ}
    (h : RejectReached T heap input handler position s) :
    ∃ fuel, ¬ Synchronised T heap input (asyncReadSpLoop T heap input handler fuel position s).1 := by
  induction h with
  | @here position s hreject =>
      refine ⟨1, ?_⟩
      intro hsync
      have hturn := asyncReadSp_of_rejected hreject.1 hreject.2
      rw [asyncReadSpLoop_succ hturn] at hsync
      have hfirst : ∀ {rounds : List Round}, Synchronised T heap input
          ({ start := position, call := ⟨false, T.width, []⟩ } :: rounds) → False := by
        intro rounds hall
        obtain ⟨hfailed, -⟩ := hall.rejected_last 0 _ rfl hreject
        cases hfailed
      split at hsync
      · exact hfirst hsync
      · exact hfirst hsync
  | @behind position size s s' hframe hagain hlater ih =>
      obtain ⟨fuel, hfuel⟩ := ih
      refine ⟨fuel + 1, ?_⟩
      intro hsync
      obtain ⟨hheader, hsize, hbody⟩ := hframe
      have hturn := asyncReadSp_of_frame hheader hsize hbody
      rw [asyncReadSpLoop_succ hturn] at hsync
      unfold frameCall at hagain
      rw [hagain, if_pos rfl] at hsync
      exact hfuel hsync.tail

/-- The loop stays in step with the frames for any number of turns, if and only if it does
not reach a header that `SPTraits::in` rejects or whose body finds no memory. -/
theorem synchronised_iff_not_rejectReached (T : SPTraits) (heap : Heap) (input : Incoming)
    {σ : Type} (handler : Handler σ) (s : σ) :
    (∀ fuel, Synchronised T heap input (asyncReadSpLoop T heap input handler fuel 0 s).1) ↔
      ¬ RejectReached T heap input handler 0 s := by
  constructor
  · intro hsync hreached
    obtain ⟨fuel, hfuel⟩ := hreached.not_synchronised
    exact hfuel (hsync fuel)
  · intro hnot fuel
    exact synchronised_of_not_rejectReached hnot

/-- Sizes of one byte, of which those above `2` are rejected. -/
def smallFrames : SPTraits where
  width := 1
  width_pos := by decide
  sizeIn := fun size => if size.val ≤ 2 then some size else none
  sizeOut := some

/-- A frame of three bytes is rejected, the handler is called with a success and an empty
buffer, and then with the `9` inside that frame as the body of a frame of its own. -/
theorem rejected_size_desynchronises :
    (asyncReadSpLoop smallFrames Heap.ample { bytes := [3, 1, 9, 8], ended := false }
        (fun _ s => (true, s)) 2 0 ()).1 =
      [{ start := 0, call := { failed := false, bytesRead := 1, buffer := [] } },
        { start := 1, call := { failed := false, bytesRead := 1, buffer := [9] } }] ∧
      ¬ ∀ fuel, Synchronised smallFrames Heap.ample { bytes := [3, 1, 9, 8], ended := false }
        (asyncReadSpLoop smallFrames Heap.ample { bytes := [3, 1, 9, 8], ended := false }
          (fun _ s => (true, s)) fuel 0 ()).1 := by
  refine ⟨rfl, ?_⟩
  intro hsync
  have hreject : Rejected smallFrames Heap.ample { bytes := [3, 1, 9, 8], ended := false } 0 :=
    ⟨by unfold HeaderAt; decide, rfl⟩
  obtain ⟨hfailed, -⟩ := (hsync 2).rejected_last 0 _ rfl hreject
  cases hfailed

end BacsEnv.Bacs
