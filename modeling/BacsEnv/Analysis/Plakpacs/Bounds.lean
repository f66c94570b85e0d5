import BacsEnv.Analysis.Plakpacs.StreamReads

/-!
# Where decoding stays in bounds

The reader with the guard of the source is compared with the reader that has the
exact guard `fits`. `requests` lists the widths that a read asks its guard about.
As long as the exact reader asks for no width larger than the whole buffer, both
readers do the same; at the first wider request the reader of the source
dereferences a byte past the end (`Tracks`). The exact reader never does, and it
always comes back with a value or an exception.
-/

set_option autoImplicit false

namespace BacsEnv.Plakpacs

open StatefulRun ReadStream

/-- The requests of `n` reads after each other. -/
def requestsLoop {α : Type} (r : ReadStream → List ℕ) (step : ReadM α) :
    ℕ → ReadStream → List ℕ
  | 0, _ => []
  | n + 1, rs =>
      r rs ++
        match step rs with
        | .ok _ rs' => requestsLoop r step n rs'
        | .error _ _ => []

/-- What holds of every request of one read holds of those of a loop. -/
theorem of_mem_requestsLoop {α : Type} {p : ℕ → Prop} {r : ReadStream → List ℕ}
    {step : ReadM α} (hr : ∀ rs, ∀ k ∈ r rs, p k) {n k : ℕ} {rs : ReadStream}
    (h : k ∈ requestsLoop r step n rs) : p k := by
  induction n generalizing rs with
  | zero => simp [requestsLoop] at h
  | succ n ih =>
      rcases List.mem_append.mp h with h | h
      · exact hr rs k h
      · split at h
        · exact ih h
        · simp at h

mutual

/-- The widths that a read of `s` asks the guard about. -/
def requests (G : Guard) {α : Type} : Schema α → α → ReadStream → List ℕ
  | .scalar w _, _, _ => [w]
  | .bool, _, _ => [1]
  | .empty, _, _ => []
  | .string, _, _ => [1]
  | .array s n, _, rs => requestsLoop (requests G s (fresh s)) (read G s (fresh s)) n rs
  | .spContainer s, _, rs =>
      4 ::
        match readCount G rs with
        | .ok size rs' => requestsLoop (requests G s (fresh s)) (read G s (fresh s)) size rs'
        | .error _ _ => []
  | .spString, _, rs =>
      4 ::
        match readCount G rs with
        | .ok _ _ => [1]
        | .error _ _ => []
  | .optional s, _, rs =>
      1 ::
        match readBool G rs with
        | .ok has rs' => if has != 0 then requests G s (fresh s) rs' else []
        | .error _ _ => []
  | .constrained s _, target, rs => requests G s target rs
  | .struct _ fs, target, rs => requestsFields G fs target rs

/-- The widths that a read of the fields of an object asks the guard about. -/
def requestsFields (G : Guard) {α : Type} : Fields α → α → ReadStream → List ℕ
  | .last _ _ s, target, rs => requests G s target rs
  | .cons _ _ s fs, (target, targets), rs =>
      requests G s target rs ++
        match read G s target rs with
        | .ok _ rs' => requestsFields G fs targets rs'
        | .error _ _ => []

end

/-- A run that came back, with a value or an exception, and left the stream within its
buffer. -/
def Stays {α : Type} (rs : ReadStream) : EStateM.Result ReadError ReadStream α → Prop
  | .ok _ rs' => rs'.bytes = rs.bytes ∧ rs'.position ≤ rs.bytes.length
  | .error (.exception _) rs' => rs'.bytes = rs.bytes ∧ rs'.position ≤ rs.bytes.length
  | .error _ _ => False

/-- How a computation `code` with the guard of the source compares with the same
computation `exact` with the exact guard, when the latter makes the requests `reqs`. -/
structure Tracks {α : Type} (code exact : ReadM α) (reqs : List ℕ) (rs : ReadStream) : Prop where
  agrees : (∀ n ∈ reqs, n ≤ rs.bytes.length) → code rs = exact rs
  leaves : ∀ n ∈ reqs, rs.bytes.length < n → ∃ i rs', code rs = .error (.outOfBounds i) rs'
  stays : Stays rs (exact rs)

namespace Tracks

/-- A result that needs no request. -/
theorem pure {α : Type} (a : α) {rs : ReadStream} (hpos : rs.position ≤ rs.bytes.length) :
    Tracks (Pure.pure a) (Pure.pure a) [] rs :=
  { agrees := fun _ => rfl, leaves := by simp, stays := ⟨rfl, hpos⟩ }

/-- An exception that needs no request. -/
theorem throw {α : Type} (what : Text) {rs : ReadStream} (hpos : rs.position ≤ rs.bytes.length) :
    Tracks (α := α) (MonadExcept.throw (.exception what)) (MonadExcept.throw (.exception what))
      [] rs :=
  { agrees := fun _ => rfl, leaves := by simp, stays := ⟨rfl, hpos⟩ }

/-- Only which widths are requested matters, not how often. -/
theorem of_mem_iff {α : Type} {code exact : ReadM α} {reqs reqs' : List ℕ} {rs : ReadStream}
    (h : Tracks code exact reqs rs) (hmem : ∀ n, n ∈ reqs' ↔ n ∈ reqs) :
    Tracks code exact reqs' rs :=
  { agrees := fun hall => h.agrees fun n hn => hall n ((hmem n).mpr hn)
    leaves := fun n hn hwide => h.leaves n ((hmem n).mp hn) hwide
    stays := h.stays }

/-- Computations after each other: the second part runs where the exact first part
returned, and its requests come after those of the first. -/
theorem bind {α β : Type} {code exact : ReadM α} {f g : α → ReadM β} {reqs : List ℕ}
    {r : α → ReadStream → List ℕ} {rs : ReadStream} (h : Tracks code exact reqs rs)
    (hnext : ∀ a rs₁, exact rs = .ok a rs₁ → rs₁.bytes = rs.bytes →
      rs₁.position ≤ rs₁.bytes.length → Tracks (f a) (g a) (r a rs₁) rs₁) :
    Tracks (code >>= f) (exact >>= g)
      (reqs ++ match exact rs with
        | .ok a rs₁ => r a rs₁
        | .error _ _ => []) rs := by
  have hstays := h.stays
  cases hexact : exact rs with
  | ok a rs₁ =>
      rw [hexact] at hstays
      obtain ⟨hbytes, hpos⟩ := hstays
      have hrest := hnext a rs₁ hexact hbytes (by rw [hbytes]; exact hpos)
      have hgbind : (exact >>= g) rs = g a rs₁ := bind_of_ok hexact g
      refine { agrees := ?_, leaves := ?_, stays := ?_ }
      · intro hall
        have hcode := h.agrees fun n hn => hall n (List.mem_append_left _ hn)
        have hsecond := hrest.agrees fun n hn => by
          rw [hbytes]
          exact hall n (List.mem_append_right _ hn)
        rw [hgbind, ← hsecond]
        exact bind_of_ok (hcode.trans hexact) f
      · intro n hn hwide
        by_cases hfirst : ∀ m ∈ reqs, m ≤ rs.bytes.length
        · rcases List.mem_append.mp hn with hn | hn
          · have hle := hfirst n hn
            omega
          · have hcode := h.agrees hfirst
            rw [bind_of_ok (hcode.trans hexact) f]
            exact hrest.leaves n hn (by rw [hbytes]; exact hwide)
        · push Not at hfirst
          obtain ⟨m, hm, hwide'⟩ := hfirst
          obtain ⟨i, rs', hcode⟩ := h.leaves m hm hwide'
          exact ⟨i, rs', bind_of_error hcode f⟩
      · rw [hgbind]
        have hrest' := hrest.stays
        unfold Stays at hrest' ⊢
        rw [hbytes] at hrest'
        exact hrest'
  | error e rs₁ =>
      rw [hexact] at hstays
      have hgbind : (exact >>= g) rs = .error e rs₁ := bind_of_error hexact g
      refine { agrees := ?_, leaves := ?_, stays := ?_ }
      · intro hall
        have hcode := h.agrees fun n hn => hall n (List.mem_append_left _ hn)
        rw [hgbind]
        exact bind_of_error (hcode.trans hexact) f
      · intro n hn hwide
        rw [List.append_nil] at hn
        obtain ⟨i, rs', hcode⟩ := h.leaves n hn hwide
        exact ⟨i, rs', bind_of_error hcode f⟩
      · rw [hgbind]
        cases e <;> exact hstays

/-- A second part that makes no request adds none. -/
theorem bind_free {α β : Type} {code exact : ReadM α} {f g : α → ReadM β} {reqs : List ℕ}
    {rs : ReadStream} (h : Tracks code exact reqs rs)
    (hnext : ∀ a rs₁, rs₁.position ≤ rs₁.bytes.length → Tracks (f a) (g a) [] rs₁) :
    Tracks (code >>= f) (exact >>= g) reqs rs := by
  have hbind := h.bind (r := fun _ _ => []) fun a rs₁ _ _ hpos₁ => hnext a rs₁ hpos₁
  apply hbind.of_mem_iff
  intro n
  cases exact rs <;> simp

/-- A read of `w` bytes. -/
theorem read {w : ℕ} (hw : w < sizeRange) {rs : ReadStream}
    (hpos : rs.position ≤ rs.bytes.length) :
    Tracks (ReadStream.read canReadNum w) (ReadStream.read fits w) [w] rs := by
  refine { agrees := ?_, leaves := ?_, stays := ?_ }
  · intro hall
    have hguard := canReadNum_iff rs (hall w (by simp))
    have hsame : canReadNum rs w = fits rs w := by
      rw [Bool.eq_iff_iff, hguard]
      simp [fits]
    simp only [ReadStream.read, hsame]
  · intro n hn hwide
    obtain rfl : n = w := by simpa using hn
    have hpass := canReadNum_of_wide hpos hwide hw
    have hmiss : ¬ rs.position + n ≤ rs.bytes.length := by omega
    exact ⟨rs.bytes.length, rs, by simp [ReadStream.read, hpass, hmiss]⟩
  · unfold ReadStream.read
    by_cases hfit : rs.position + w ≤ rs.bytes.length
    · simp only [fits, hfit, decide_true, if_true, dite_true]
      exact ⟨rfl, hfit⟩
    · simp only [fits, hfit, decide_false, Bool.false_eq_true, if_false]
      exact ⟨rfl, hpos⟩

theorem readChar {rs : ReadStream} (hpos : rs.position ≤ rs.bytes.length) :
    Tracks (ReadStream.readChar canReadNum) (ReadStream.readChar fits) [1] rs := by
  have hone : (1 : ℕ) < sizeRange := by decide
  exact (read hone hpos).bind_free fun v _ hpos₁ => pure v.head hpos₁

theorem readBool {rs : ReadStream} (hpos : rs.position ≤ rs.bytes.length) :
    Tracks (ReadStream.readBool canReadNum) (ReadStream.readBool fits) [1] rs :=
  readChar hpos

theorem readCount {rs : ReadStream} (hpos : rs.position ≤ rs.bytes.length) :
    Tracks (Plakpacs.readCount canReadNum) (Plakpacs.readCount fits) [4] rs := by
  have hfour : (4 : ℕ) < sizeRange := by decide
  have hnum : Tracks (ReadStream.readUInt32 canReadNum) (ReadStream.readUInt32 fits) [4] rs :=
    (read hfour hpos).bind_free fun v _ hpos₁ => pure (LittleEndian.decode v.toList) hpos₁
  apply hnum.bind_free
  intro size rs₁ hpos₁
  by_cases hmax : size > maxContainerCount
  · simp only [hmax, if_true]
    exact throw _ hpos₁
  · simp only [hmax, if_false]
    exact pure _ hpos₁

/-- The loop of a string, with fuel for every byte that remains. -/
theorem readStringLoop {fuel : ℕ} (value : Text) {rs : ReadStream}
    (hpos : rs.position ≤ rs.bytes.length) (hfuel : rs.bytes.length - rs.position < fuel) :
    Tracks (Plakpacs.readStringLoop canReadNum fuel value)
      (Plakpacs.readStringLoop fits fuel value) [1] rs := by
  induction fuel generalizing value rs with
  | zero => omega
  | succ fuel ih =>
      have hrest : ∀ c rs₁, ReadStream.readChar fits rs = .ok c rs₁ → rs₁.bytes = rs.bytes →
          rs₁.position ≤ rs₁.bytes.length →
          Tracks (if c = 0 then Pure.pure value else
              Plakpacs.readStringLoop canReadNum fuel (value ++ [c]))
            (if c = 0 then Pure.pure value else
              Plakpacs.readStringLoop fits fuel (value ++ [c]))
            (if c = 0 then [] else [1]) rs₁ := by
        intro c rs₁ hread hbytes hpos₁
        obtain ⟨-, -, -, rfl⟩ := readChar_ok_iff.mp hread
        by_cases hc : c = 0
        · simp only [hc, if_true]
          exact pure value hpos₁
        · simp only [hc, if_false]
          apply ih _ hpos₁
          simp only [advance_bytes, advance_position] at hpos₁ ⊢
          omega
      apply ((readChar hpos).bind hrest).of_mem_iff
      intro n
      split
      · split <;> simp
      · simp

theorem readString {value : Text} {rs : ReadStream} (hpos : rs.position ≤ rs.bytes.length) :
    Tracks (Plakpacs.readString canReadNum value) (Plakpacs.readString fits value) [1] rs := by
  have h := readStringLoop value hpos (Nat.lt_succ_self _)
  exact { agrees := h.agrees, leaves := h.leaves, stays := h.stays }

/-- A counted loop over a body that is tracked from everywhere within the buffer. -/
theorem repeatAppend {α γ : Type} {code exact : ReadM α} (append : γ → α → γ)
    {r : ReadStream → List ℕ}
    (hstep : ∀ rs : ReadStream, rs.position ≤ rs.bytes.length → Tracks code exact (r rs) rs)
    (n : ℕ) (c : γ) {rs : ReadStream} (hpos : rs.position ≤ rs.bytes.length) :
    Tracks (StatefulRun.repeatAppend code append n c) (StatefulRun.repeatAppend exact append n c)
      (requestsLoop r exact n rs) rs := by
  induction n generalizing c rs with
  | zero => exact pure c hpos
  | succ n ih =>
      exact (hstep rs hpos).bind (r := fun _ rs₁ => requestsLoop r exact n rs₁)
        fun a rs₁ _ _ hpos₁ => ih (append c a) hpos₁

/-- The `catch` clause around a field changes the text of an exception only. -/
theorem inField {α : Type} (holder name : Text) {code exact : ReadM α} {reqs : List ℕ}
    {rs : ReadStream} (h : Tracks code exact reqs rs) :
    Tracks (Plakpacs.inField holder name code) (Plakpacs.inField holder name exact) reqs rs := by
  have hstays := h.stays
  refine { agrees := ?_, leaves := ?_, stays := ?_ }
  · intro hall
    simp only [Plakpacs.inField, h.agrees hall]
  · intro n hn hwide
    obtain ⟨i, rs', hcode⟩ := h.leaves n hn hwide
    exact ⟨i, rs', by simp [Plakpacs.inField, hcode]⟩
  · unfold Plakpacs.inField
    cases hexact : exact rs with
    | ok a rs' =>
        rw [hexact] at hstays
        exact hstays
    | error e rs' =>
        rw [hexact] at hstays
        cases e with
        | exception what => exact hstays
        | outOfBounds i => exact hstays
        | diverges => exact hstays

/-- The characters of an `sp_string` and its terminator, whatever its size. -/
theorem spStringChars (size : ℕ) (target : Text) {rs : ReadStream}
    (hpos : rs.position ≤ rs.bytes.length) :
    Tracks (do
        let value ← StatefulRun.repeatAppend (ReadStream.readChar canReadNum) pushBack size target
        let _ ← ReadStream.readChar canReadNum
        Pure.pure value : ReadM Text)
      (do
        let value ← StatefulRun.repeatAppend (ReadStream.readChar fits) pushBack size target
        let _ ← ReadStream.readChar fits
        Pure.pure value : ReadM Text) [1] rs := by
  have hloop := repeatAppend pushBack (fun _ => readChar) size target hpos
  have hlast := hloop.bind (r := fun _ _ => [1])
    (f := fun value => ReadStream.readChar canReadNum >>= fun _ => Pure.pure value)
    (g := fun value => ReadStream.readChar fits >>= fun _ => Pure.pure value)
    fun value rs₂ _ _ hpos₂ => (readChar hpos₂).bind_free fun _ _ hpos₃ => pure value hpos₃
  apply hlast.of_mem_iff
  intro n
  constructor
  · intro hn
    cases size with
    | zero => exact hn
    | succ size =>
        obtain rfl : n = 1 := by simpa using hn
        simp [requestsLoop]
  · intro hn
    rcases List.mem_append.mp hn with hn | hn
    · have hone : n = 1 := of_mem_requestsLoop (p := fun k => k = 1) (by simp) hn
      simpa using hone
    · split at hn
      · exact hn
      · simp at hn

/-- What the reader of an optional does once `can_read` lets it through: the flag, and the
payload behind a set flag. -/
theorem flagged {α : Type} {s : Schema α} (target : Option α) {rs : ReadStream}
    (hs : ∀ rs : ReadStream, rs.position ≤ rs.bytes.length →
      Tracks (Plakpacs.read canReadNum s (fresh s)) (Plakpacs.read fits s (fresh s))
        (requests fits s (fresh s) rs) rs)
    (hpos : rs.position ≤ rs.bytes.length) :
    Tracks
      (ReadStream.readBool canReadNum >>= fun has =>
        if has != 0 then Plakpacs.read canReadNum s (fresh s) >>= fun x => Pure.pure (some x)
        else Pure.pure target)
      (ReadStream.readBool fits >>= fun has =>
        if has != 0 then Plakpacs.read fits s (fresh s) >>= fun x => Pure.pure (some x)
        else Pure.pure target)
      (requests fits (.optional s) target rs) rs := by
  have h := (readBool hpos).bind
    (r := fun has rs₁ => if has != 0 then requests fits s (fresh s) rs₁ else [])
    (f := fun has => if has != 0 then
      Plakpacs.read canReadNum s (fresh s) >>= fun x => Pure.pure (some x) else Pure.pure target)
    (g := fun has => if has != 0 then
      Plakpacs.read fits s (fresh s) >>= fun x => Pure.pure (some x) else Pure.pure target)
    (fun has rs₁ _ _ hpos₁ => by
      cases has != 0 with
      | false => exact pure target hpos₁
      | true => exact (hs rs₁ hpos₁).bind_free fun x _ hpos₂ => pure (some x) hpos₂)
  apply h.of_mem_iff
  intro n
  simp only [requests]
  cases ReadStream.readBool fits rs with
  | ok has rs₁ => cases has != 0 <;> simp
  | error e rs₁ => simp

/-- The read of an optional whose payload is tracked. -/
theorem optional {α : Type} {s : Schema α} {target : Option α} {rs : ReadStream}
    (hs : ∀ rs : ReadStream, rs.position ≤ rs.bytes.length →
      Tracks (Plakpacs.read canReadNum s (fresh s)) (Plakpacs.read fits s (fresh s))
        (requests fits s (fresh s) rs) rs)
    (hpos : rs.position ≤ rs.bytes.length) :
    Tracks (Plakpacs.read canReadNum (.optional s) target) (Plakpacs.read fits (.optional s) target)
      (requests fits (.optional s) target rs) rs := by
  have hflag := flagged target hs hpos
  have hget : ∀ {β : Type} (k : ReadStream → ReadM β),
      ((get : ReadM ReadStream) >>= k) rs = k rs rs := fun _ => rfl
  by_cases hone : 1 ≤ rs.bytes.length
  · have hguard : canRead canReadNum rs = canRead fits rs := by
      rw [Bool.eq_iff_iff]
      simp [canRead, canReadNum_iff rs hone, fits]
    by_cases hcan : canRead fits rs = true
    · refine { agrees := ?_, leaves := ?_, stays := ?_ }
      · intro hall
        simp only [Plakpacs.read, hget, hguard, hcan, if_true]
        exact hflag.agrees hall
      · intro n hn hwide
        simp only [Plakpacs.read, hget, hguard, hcan, if_true]
        exact hflag.leaves n hn hwide
      · simp only [Plakpacs.read, hget, hcan, if_true]
        exact hflag.stays
    · have hread : ∃ e rs₁, ReadStream.readBool fits rs = .error e rs₁ := by
        cases hb : ReadStream.readBool fits rs with
        | ok b rs₁ => exact absurd (readBool_ok_iff.mp hb).1 hcan
        | error e rs₁ => exact ⟨e, rs₁, rfl⟩
      obtain ⟨e, rs₁, hread⟩ := hread
      refine { agrees := ?_, leaves := ?_, stays := ?_ }
      · intro _
        simp only [Plakpacs.read, hget, hguard, hcan, Bool.false_eq_true, if_false, pure_apply]
      · intro n hn hwide
        simp only [requests, hread, List.mem_singleton] at hn
        omega
      · simp only [Plakpacs.read, hget, hcan, Bool.false_eq_true, if_false, pure_apply]
        exact ⟨rfl, hpos⟩
  · -- In an empty buffer `can_read` is true, and the flag is read past the end.
    have hcan : canRead canReadNum rs = true :=
      canReadNum_of_wide hpos (by omega) (by decide)
    have hcan' : canRead fits rs = false := by
      simp only [canRead, fits, decide_eq_false_iff_not]
      omega
    refine { agrees := ?_, leaves := ?_, stays := ?_ }
    · intro hall
      have hle := hall 1 (by simp [requests])
      omega
    · intro n hn hwide
      simp only [Plakpacs.read, hget, hcan, if_true]
      exact hflag.leaves n hn hwide
    · simp only [Plakpacs.read, hget, hcan', Bool.false_eq_true, if_false, pure_apply]
      exact ⟨rfl, hpos⟩

end Tracks

/-- The reader of the source tracks the exact reader on every schema. -/
theorem tracks_read {α : Type} (s : Schema α) (target : α) (rs : ReadStream)
    (hpos : rs.position ≤ rs.bytes.length) :
    Tracks (read canReadNum s target) (read fits s target) (requests fits s target rs) rs := by
  induction s using @Schema.rec _
    (fun _ fs => ∀ holder target (rs : ReadStream), rs.position ≤ rs.bytes.length →
      Tracks (readObject canReadNum holder fs target) (readObject fits holder fs target)
        (requestsFields fits fs target rs) rs)
    generalizing rs with
  | scalar w size => exact Tracks.read size.2 hpos
  | bool => exact Tracks.readBool hpos
  | empty => exact Tracks.pure () hpos
  | string => exact Tracks.readString hpos
  | array s n ih =>
      have hloop := Tracks.repeatAppend FixedAppender.append
        (fun rs hpos => ih (fresh s) rs hpos) n ({ container := target } : FixedAppender _ n) hpos
      exact hloop.bind_free fun a _ hpos₁ => Tracks.pure a.container hpos₁
  | spContainer s ih =>
      have h := (Tracks.readCount hpos).bind
        (r := fun size rs₁ =>
          requestsLoop (requests fits s (fresh s)) (read fits s (fresh s)) size rs₁)
        fun size rs₁ _ _ hpos₁ => Tracks.repeatAppend pushBack
          (fun rs hpos => ih (fresh s) rs hpos) size target hpos₁
      apply h.of_mem_iff
      intro n
      simp only [requests]
      cases readCount fits rs <;> simp
  | spString =>
      have h := (Tracks.readCount hpos).bind (r := fun _ _ => [1])
        fun size rs₁ _ _ hpos₁ => Tracks.spStringChars size target hpos₁
      apply h.of_mem_iff
      intro n
      simp only [requests]
      cases readCount fits rs <;> simp
  | optional s ih => exact Tracks.optional (fun rs hpos => ih (fresh s) rs hpos) hpos
  | constrained s cs ih =>
      apply (ih target rs hpos).bind_free
      intro v _ hpos₁
      by_cases hcs : cs.all (fun check => check v) = true
      · simp only [hcs, if_true]
        exact Tracks.pure v hpos₁
      · simp only [hcs]
        exact Tracks.throw _ hpos₁
  | struct holder fs ih => exact ih holder target rs hpos
  | last name init s ih holder target rs hpos => exact (ih target rs hpos).inField holder name
  | cons name init s fs ih ihfs holder target rs hpos =>
      obtain ⟨target, targets⟩ := target
      have h := ((ih target rs hpos).inField holder name).bind
        (r := fun _ rs₁ => requestsFields fits fs targets rs₁)
        (f := fun v => readObject canReadNum holder fs targets >>= fun vs => pure (v, vs))
        (g := fun v => readObject fits holder fs targets >>= fun vs => pure (v, vs))
        fun v rs₁ _ _ hpos₁ => (ihfs holder targets rs₁ hpos₁).bind_free
          fun vs _ hpos₂ => Tracks.pure (v, vs) hpos₂
      apply h.of_mem_iff
      intro n
      simp only [requestsFields, inField]
      cases read fits s target rs with
      | ok v rs₁ => simp
      | error e rs₁ => cases e <;> simp

/-! ## Runs of calls on one stream -/

/-- One call of `serializer::read` or `read_stream::read`: what is read, and the object
that is read into. -/
structure Call where
  {α : Type}
  schema : Schema α
  target : α

/-- The stream of the next call: where a call left it that returned or threw. -/
def Call.after (c : Call) (G : Guard) (rs : ReadStream) : Option ReadStream :=
  match read G c.schema c.target rs with
  | .ok _ rs' => some rs'
  | .error (.exception _) rs' => some rs'
  | .error _ _ => none

/-- The position is within the buffer, and the guard answers right about `n` bytes. -/
def StreamOk (n : ℕ) (rs : ReadStream) : Prop :=
  rs.position ≤ rs.bytes.length ∧
    (canReadNum rs n = true ↔ n ≤ rs.bytes.length - rs.position)

/-- Every call of a run returns or throws without touching a byte past the end, and the
stream is in order before and after it. -/
def Safe (n : ℕ) : List Call → ReadStream → Prop
  | [], rs => StreamOk n rs
  | c :: cs, rs => StreamOk n rs ∧ ∃ rs', c.after canReadNum rs = some rs' ∧ Safe n cs rs'

/-- A reader with the exact guard asks for no width larger than the whole buffer. -/
def Narrow : List Call → ReadStream → Prop
  | [], _ => True
  | c :: cs, rs =>
      (∀ w ∈ requests fits c.schema c.target rs, w ≤ rs.bytes.length) ∧
        ∀ rs', c.after fits rs = some rs' → Narrow cs rs'

/-- The guard is right about `n` at every position exactly when the buffer has `n` bytes. -/
theorem streamOk_iff {n : ℕ} (hn : n < sizeRange) {rs : ReadStream}
    (hpos : rs.position ≤ rs.bytes.length) : StreamOk n rs ↔ n ≤ rs.bytes.length := by
  have hright := canReadNum_right_iff hpos hn
  have hfit : rs.position + n ≤ rs.bytes.length ↔ n ≤ rs.bytes.length - rs.position := by omega
  rw [hfit] at hright
  unfold StreamOk
  rw [hright]
  exact ⟨fun h => h.2, fun h => ⟨hpos, h⟩⟩

/-- The exact reader comes back from every call, with the stream within its buffer. -/
theorem after_fits (c : Call) {rs : ReadStream} (hpos : rs.position ≤ rs.bytes.length) :
    ∃ rs', c.after fits rs = some rs' ∧ rs'.bytes = rs.bytes ∧
      rs'.position ≤ rs'.bytes.length := by
  have hstays := (tracks_read c.schema c.target rs hpos).stays
  unfold Call.after
  cases hread : read fits c.schema c.target rs with
  | ok v rs' =>
      rw [hread] at hstays
      obtain ⟨hbytes, hle⟩ := hstays
      exact ⟨rs', rfl, hbytes, by rw [hbytes]; exact hle⟩
  | error e rs' =>
      rw [hread] at hstays
      cases e with
      | exception what =>
          obtain ⟨hbytes, hle⟩ := hstays
          exact ⟨rs', rfl, hbytes, by rw [hbytes]; exact hle⟩
      | outOfBounds i => exact hstays.elim
      | diverges => exact hstays.elim

/-- A run of calls on a stream stays in bounds, comes back from every call and has a
guard that is right about `n`, if and only if no call asks for more bytes than the whole
buffer has and neither does `n`. -/
theorem safe_iff_narrow_of_position_le {n : ℕ} (hn : n < sizeRange) (calls : List Call)
    (rs : ReadStream) (hpos : rs.position ≤ rs.bytes.length) :
    Safe n calls rs ↔ Narrow calls rs ∧ n ≤ rs.bytes.length := by
  induction calls generalizing rs with
  | nil => simpa [Safe, Narrow] using streamOk_iff hn hpos
  | cons c cs ih =>
      have htracks := tracks_read c.schema c.target rs hpos
      obtain ⟨rs₁, hfits, hbytes, hpos₁⟩ := after_fits c hpos
      have hagree : (∀ w ∈ requests fits c.schema c.target rs, w ≤ rs.bytes.length) →
          c.after canReadNum rs = some rs₁ := by
        intro hall
        rw [← hfits]
        unfold Call.after
        rw [htracks.agrees hall]
      constructor
      · rintro ⟨hok, rs', hafter, hsafe⟩
        have hall : ∀ w ∈ requests fits c.schema c.target rs, w ≤ rs.bytes.length := by
          intro w hw
          by_contra hwide
          obtain ⟨i, rs₂, hout⟩ := htracks.leaves w hw (by omega)
          unfold Call.after at hafter
          rw [hout] at hafter
          cases hafter
        obtain rfl : rs₁ = rs' := Option.some.inj ((hagree hall).symm.trans hafter)
        obtain ⟨hnarrow, hle⟩ := (ih rs₁ hpos₁).mp hsafe
        refine ⟨⟨hall, ?_⟩, by rw [← hbytes]; exact hle⟩
        intro rs₂ hrs₂
        obtain rfl : rs₁ = rs₂ := Option.some.inj (hfits.symm.trans hrs₂)
        exact hnarrow
      · rintro ⟨⟨hall, hnarrow⟩, hle⟩
        have hrest := (ih rs₁ hpos₁).mpr ⟨hnarrow rs₁ hfits, by rw [hbytes]; exact hle⟩
        exact ⟨(streamOk_iff hn hpos).mpr hle, rs₁, hagree hall, hrest⟩

/-! ## Buffers that are long enough for every single read -/

mutual

/-- The widest single read of a type. -/
def widest {α : Type} : Schema α → ℕ
  | .scalar w _ => w
  | .bool => 1
  | .empty => 0
  | .string => 1
  | .array s _ => widest s
  | .spContainer s => max 4 (widest s)
  | .spString => 4
  | .optional s => max 1 (widest s)
  | .constrained s _ => widest s
  | .struct _ fs => widestField fs

/-- The widest single read of the fields of a struct. -/
def widestField {α : Type} : Fields α → ℕ
  | .last _ _ s => widest s
  | .cons _ _ s fs => max (widest s) (widestField fs)

end

/-- No read asks for more than the widest single read of its type. -/
theorem requests_le_widest {G : Guard} {α : Type} (s : Schema α) (target : α)
    (rs : ReadStream) : ∀ w ∈ requests G s target rs, w ≤ widest s := by
  induction s using @Schema.rec _
    (fun _ fs => ∀ target rs, ∀ w ∈ requestsFields G fs target rs, w ≤ widestField fs)
    generalizing rs with
  | scalar w size => simp [requests, widest]
  | bool => simp [requests, widest]
  | empty => simp [requests]
  | string => simp [requests, widest]
  | array s n ih =>
      intro w hw
      rw [requests] at hw
      exact of_mem_requestsLoop (fun rs => ih (fresh s) rs) hw
  | spContainer s ih =>
      intro w hw
      rw [requests, List.mem_cons] at hw
      rw [widest]
      rcases hw with rfl | hw
      · exact le_max_left _ _
      · split at hw
        · have hle := of_mem_requestsLoop (fun rs => ih (fresh s) rs) hw
          exact hle.trans (le_max_right _ _)
        · simp at hw
  | spString =>
      intro w hw
      rw [requests, List.mem_cons] at hw
      rw [widest]
      rcases hw with rfl | hw
      · exact le_rfl
      · split at hw
        · simp only [List.mem_singleton] at hw
          omega
        · simp at hw
  | optional s ih =>
      intro w hw
      rw [requests, List.mem_cons] at hw
      rw [widest]
      rcases hw with rfl | hw
      · exact le_max_left _ _
      · split at hw
        · split at hw
          · exact (ih (fresh s) _ w hw).trans (le_max_right _ _)
          · simp at hw
        · simp at hw
  | constrained s cs ih =>
      intro w hw
      rw [requests] at hw
      exact ih target rs w hw
  | struct holder fs ih =>
      intro w hw
      rw [requests] at hw
      exact ih target rs w hw
  | last name init s ih target rs w hw =>
      rw [requestsFields] at hw
      exact ih target rs w hw
  | cons name init s fs ih ihfs target rs w hw =>
      obtain ⟨target, targets⟩ := target
      rw [requestsFields, List.mem_append] at hw
      rw [widestField]
      rcases hw with hw | hw
      · exact (ih target rs w hw).trans (le_max_left _ _)
      · split at hw
        · exact (ihfs targets _ w hw).trans (le_max_right _ _)
        · simp at hw

/-- In a buffer that has the widest read of each type no call asks for too much. -/
theorem narrow_of_widest_le {calls : List Call} {rs : ReadStream}
    (hpos : rs.position ≤ rs.bytes.length)
    (hwide : ∀ c ∈ calls, widest c.schema ≤ rs.bytes.length) : Narrow calls rs := by
  induction calls generalizing rs with
  | nil => trivial
  | cons c cs ih =>
      refine ⟨?_, ?_⟩
      · intro w hw
        exact (requests_le_widest c.schema c.target rs w hw).trans (hwide c List.mem_cons_self)
      · intro rs' hafter
        obtain ⟨rs₁, hfits, hbytes, hpos₁⟩ := after_fits c hpos
        obtain rfl : rs₁ = rs' := Option.some.inj (hfits.symm.trans hafter)
        apply ih hpos₁
        intro c' hmem
        rw [hbytes]
        exact hwide c' (List.mem_cons_of_mem _ hmem)

/-- Hostile bytes are harmless when there are as many of them as the widest scalar, size
prefix, character or flag of the types that are read. -/
theorem safe_of_widest_le {bytes : List UInt8} (h : bytes.length < sizeRange)
    {calls : List Call} (hwide : ∀ c ∈ calls, widest c.schema ≤ bytes.length) {n : ℕ}
    (hn : n ≤ bytes.length) : Safe n calls (ofBytes bytes h) := by
  have hpos : (ofBytes bytes h).position ≤ (ofBytes bytes h).bytes.length := Nat.zero_le _
  apply (safe_iff_narrow_of_position_le (by omega) calls _ hpos).mpr
  exact ⟨narrow_of_widest_le hpos hwide, hn⟩

/-- Decoding a buffer stays in bounds for a run of calls, and `can_read_num(n)` is right
all along, if and only if the exact reader asks for no scalar, size prefix, character or
flag that is wider than the whole buffer, and `n` is not wider either. -/
theorem safe_iff_narrow (bytes : List UInt8) (h : bytes.length < sizeRange) (calls : List Call)
    (n : ℕ) (hn : n < sizeRange) :
    Safe n calls (ofBytes bytes h) ↔ Narrow calls (ofBytes bytes h) ∧ n ≤ bytes.length :=
  safe_iff_narrow_of_position_le hn calls (ofBytes bytes h) (Nat.zero_le _)

/-- Two calls on a buffer of three bytes. -/
theorem safe_iff_narrow_three_bytes :
    Safe 2 [⟨.optional .bool, none⟩, ⟨.string, []⟩] (ofBytes [1, 1, 0] (by decide)) ↔
      Narrow [⟨.optional .bool, none⟩, ⟨.string, []⟩] (ofBytes [1, 1, 0] (by decide)) ∧ 2 ≤ 3 :=
  safe_iff_narrow [1, 1, 0] (by decide) [⟨.optional .bool, none⟩, ⟨.string, []⟩] 2 (by decide)

/-- On an empty buffer `can_read_num(1)` is true, and reading one character dereferences
the byte at index `0`. -/
theorem empty_buffer_leaves_bounds :
    readChar canReadNum (ofBytes [] (by decide)) =
        .error (.outOfBounds 0) (ofBytes [] (by decide)) ∧
      ¬ Safe 1 [⟨.string, []⟩] (ofBytes [] (by decide)) := by
  refine ⟨rfl, ?_⟩
  rintro ⟨-, rs', hafter, -⟩
  cases hafter

end BacsEnv.Plakpacs
