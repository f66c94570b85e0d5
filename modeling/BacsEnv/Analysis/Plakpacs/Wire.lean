import BacsEnv.Analysis.Plakpacs.StreamReads

/-!
# The wire format

`wire s v` is the byte string that stands for the value `v` of the type `s`: what
`serializer::write` appends, with one byte `0` in the place of each value of an
empty class. `WithinLimits` and `emptyCount` say which values the format can
carry: the former collects the limits of strings, containers and constraints at
every depth, the latter counts the values of empty classes.
-/

set_option autoImplicit false

namespace BacsEnv.Plakpacs

open LittleEndian

mutual

/-- The byte string that stands for a value. -/
def wire {α : Type} : Schema α → α → List UInt8
  | .scalar _ _, v => v.toList
  | .bool, v => [v]
  | .empty, _ => [0]
  | .string, v => v ++ [0]
  | .array s _, v => v.toList.flatMap (wire s)
  | .spContainer s, v => encode 4 (v.length % 2 ^ 32) ++ v.flatMap (wire s)
  | .spString, v => encode 4 (v.length % 2 ^ 32) ++ (v ++ [0])
  | .optional s, v =>
      match v with
      | none => [0]
      | some x => 1 :: wire s x
  | .constrained s _, v => wire s v
  | .struct _ fs, v => wireFields fs v

/-- The byte strings of the fields, in order. -/
def wireFields {α : Type} : Fields α → α → List UInt8
  | .last _ _ s, v => wire s v
  | .cons _ _ s fs, (v, vs) => wire s v ++ wireFields fs vs

end

mutual

/-- The number of values of empty classes in a value, at any depth. -/
def emptyCount {α : Type} : Schema α → α → ℕ
  | .scalar _ _, _ => 0
  | .bool, _ => 0
  | .empty, _ => 1
  | .string, _ => 0
  | .array s _, v => (v.toList.map (emptyCount s)).sum
  | .spContainer s, v => (v.map (emptyCount s)).sum
  | .spString, _ => 0
  | .optional s, v =>
      match v with
      | none => 0
      | some x => emptyCount s x
  | .constrained s _, v => emptyCount s v
  | .struct _ fs, v => emptyCountFields fs v

def emptyCountFields {α : Type} : Fields α → α → ℕ
  | .last _ _ s, v => emptyCount s v
  | .cons _ _ s fs, (v, vs) => emptyCount s v + emptyCountFields fs vs

end

mutual

/-- At every depth: a string that is not an `sp_string` has no zero byte, a
size-prefixed container has at most `maxContainerCount` elements, and a
constrained value satisfies its constraints. -/
def WithinLimits {α : Type} : Schema α → α → Prop
  | .scalar _ _, _ => True
  | .bool, _ => True
  | .empty, _ => True
  | .string, v => (0 : UInt8) ∉ v
  | .array s _, v => ∀ x ∈ v.toList, WithinLimits s x
  | .spContainer s, v => v.length ≤ maxContainerCount ∧ ∀ x ∈ v, WithinLimits s x
  | .spString, v => v.length ≤ maxContainerCount
  | .optional s, v => ∀ x ∈ v, WithinLimits s x
  | .constrained s cs, v => WithinLimits s v ∧ cs.all (fun check => check v) = true
  | .struct _ fs, v => WithinLimitsFields fs v

def WithinLimitsFields {α : Type} : Fields α → α → Prop
  | .last _ _ s, v => WithinLimits s v
  | .cons _ _ s fs, (v, vs) => WithinLimits s v ∧ WithinLimitsFields fs vs

end

/-- A value the format can carry: within the limits, and without a value of an
empty class at any depth. -/
def Representable {α : Type} (s : Schema α) (v : α) : Prop :=
  WithinLimits s v ∧ emptyCount s v = 0

/-! ## The writer produces the wire format -/

/-- What a write appended: as many bytes as the wire format has, and exactly its
bytes when the value holds no value of an empty class. -/
def Appends (ws ws' : WriteStream) (image : List UInt8) (empties : ℕ) : Prop :=
  ∃ out, ws'.bytes = ws.bytes ++ out ∧ out.length = image.length ∧ (empties = 0 → out = image)

theorem Appends.write (ws : WriteStream) (bytes : List UInt8) (empties : ℕ) :
    Appends ws (ws.write bytes) bytes empties :=
  ⟨bytes, rfl, rfl, fun _ => rfl⟩

/-- Two writes after each other append the two images after each other. -/
theorem Appends.trans {ws₁ ws₂ ws₃ : WriteStream} {image₁ image₂ : List UInt8} {m n : ℕ}
    (h₁ : Appends ws₁ ws₂ image₁ m) (h₂ : Appends ws₂ ws₃ image₂ n) :
    Appends ws₁ ws₃ (image₁ ++ image₂) (m + n) := by
  obtain ⟨out₁, hbytes₁, hlen₁, hout₁⟩ := h₁
  obtain ⟨out₂, hbytes₂, hlen₂, hout₂⟩ := h₂
  refine ⟨out₁ ++ out₂, ?_, ?_, ?_⟩
  · rw [hbytes₂, hbytes₁, List.append_assoc]
  · simp [hlen₁, hlen₂]
  · intro hzero
    rw [hout₁ (by omega), hout₂ (by omega)]

/-- Writing the elements of a list one by one appends their images in order. -/
theorem Appends.foldl {α : Type} {f : α → WriteStream → WriteStream} {image : α → List UInt8}
    {empties : α → ℕ} (hf : ∀ x ws, Appends ws (f x ws) (image x) (empties x)) (l : List α)
    (ws : WriteStream) :
    Appends ws (l.foldl (fun ws x => f x ws) ws) (l.flatMap image) (l.map empties).sum := by
  induction l generalizing ws with
  | nil => exact ⟨[], by simp⟩
  | cons x l ih =>
      rw [List.foldl_cons, List.flatMap_cons, List.map_cons, List.sum_cons]
      exact (hf x ws).trans (ih (f x ws))

/-- `serializer::write` appends the wire format of the value. -/
theorem write_appends (uninit : ℕ → UInt8) {α : Type} (s : Schema α) (v : α) (ws : WriteStream) :
    Appends ws (write uninit s v ws) (wire s v) (emptyCount s v) := by
  induction s using @Schema.rec _
    (fun _ fs => ∀ v ws,
      Appends ws (writeObject uninit fs v ws) (wireFields fs v) (emptyCountFields fs v))
    generalizing ws with
  | scalar w size => exact .write ws _ _
  | bool => exact .write ws _ _
  | empty => exact ⟨[uninit ws.bytes.length], rfl, rfl, fun h => absurd h Nat.one_ne_zero⟩
  | string => exact (Appends.write ws v 0).trans (.write _ [0] 0)
  | array s n ih => exact Appends.foldl (fun x ws => ih x ws) v.toList ws
  | spContainer s ih =>
      have hcount : Appends ws (ws.writeCount v.length) (encode 4 (v.length % 2 ^ 32)) 0 :=
        .write ws _ 0
      have helems := Appends.foldl (fun x ws => ih x ws) v (ws.writeCount v.length)
      have htrans := hcount.trans helems
      rwa [Nat.zero_add] at htrans
  | spString =>
      have hcount : Appends ws (ws.writeCount v.length) (encode 4 (v.length % 2 ^ 32)) 0 :=
        .write ws _ 0
      exact hcount.trans ((Appends.write _ v 0).trans (.write _ [0] 0))
  | optional s ih =>
      cases v with
      | none => exact .write ws _ _
      | some x =>
          have hflag : Appends ws (ws.write [1]) [1] 0 := .write ws _ 0
          have htrans := hflag.trans (ih x (ws.write [1]))
          rwa [Nat.zero_add] at htrans
  | constrained s cs ih => exact ih v ws
  | struct holder fs ih => exact ih v ws
  | last name init s ih v ws => exact ih v ws
  | cons name init s fs ih ihfs v ws => exact (ih v.1 ws).trans (ihfs v.2 _)

/-- A written value has the length of its wire format. -/
theorem length_written (uninit : ℕ → UInt8) {α : Type} (s : Schema α) (v : α) :
    (written uninit s v).length = (wire s v).length := by
  obtain ⟨out, hbytes, hlen, -⟩ := write_appends uninit s v {}
  have hout : written uninit s v = out := by
    unfold written
    rw [hbytes, List.nil_append]
  rw [hout, hlen]

/-- A value without values of empty classes is written as its wire format. -/
theorem written_eq_wire (uninit : ℕ → UInt8) {α : Type} {s : Schema α} {v : α}
    (h : emptyCount s v = 0) : written uninit s v = wire s v := by
  obtain ⟨out, hbytes, -, hout⟩ := write_appends uninit s v {}
  unfold written
  rw [hbytes, List.nil_append, hout h]

end BacsEnv.Plakpacs
