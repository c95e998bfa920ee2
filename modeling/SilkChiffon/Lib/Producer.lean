import Mathlib.Data.List.Basic

/-!
# Producers

A program that takes what arrives on a channel, looks at a cancellation token
from time to time, and writes bytes. A producer says which of these it can do
next; what the channel, the token and the writer answer is its environment's
matter. `Run` holds of what a producer has done and the state it is in, as
long as it never saw itself cancelled.
-/

namespace SilkChiffon

inductive Action (α : Type)
  | work
  /-- Reading the token. -/
  | look (cancelled : Bool)
  | receive (a : α)
  /-- The channel was closed and is empty. -/
  | ended
  | wrote (bytes : List UInt8)
  | writeFailed (bytes : List UInt8)

inductive TaskError
  | failed | panicked
  deriving DecidableEq

structure Producer (α ρ σ : Type) where
  init : σ
  step : σ → Action α → σ → Prop
  returns : σ → Except TaskError ρ → Prop
  /-- Whether it is stopped between two actions once the token is cancelled. -/
  preempted : Prop

/-- What a producer did: the items it received, whether it saw the end of
them, the bytes it wrote, and whether every write went through. -/
structure History (α : Type) where
  received : List α
  ended : Bool
  written : List UInt8
  intact : Bool

namespace History

def new : History α := ⟨[], false, [], true⟩

/-- Nothing arrives behind the end, and a cancelled producer has no history. -/
def add (h : History α) : Action α → Option (History α)
  | .work => some h
  | .look cancelled => if cancelled then none else some h
  | .receive a => if h.ended then none else some { h with received := h.received ++ [a] }
  | .ended => some { h with ended := true }
  | .wrote bytes => some { h with written := h.written ++ bytes }
  | .writeFailed _ => some { h with intact := false }

end History

namespace Producer

variable {P : Producer α ρ σ}

inductive Run (P : Producer α ρ σ) : History α → σ → Prop
  | init : Run P .new P.init
  | step (run : Run P h p) (hadd : h.add action = some h') (hstep : P.step p action p') : Run P h' p'

/-- What holds at first and is kept by every action holds of every run. -/
theorem Run.keeps {I : History α → σ → Prop} (hinit : I .new P.init)
    (hstep : ∀ h p action h' p', I h p → h.add action = some h' → P.step p action p' → I h' p')
    (run : P.Run h p) : I h p := by
  induction run with
  | init => exact hinit
  | step _ hadd hs ih => exact hstep _ _ _ _ _ ih hadd hs

end Producer

end SilkChiffon
