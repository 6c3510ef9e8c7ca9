import Reckon.Parser.Evaluation

/-!
# Calls of rules

A run of a parser calls a rule wherever the parser refers to one.  Which rules it calls,
and on which tokens, does not show in a run.  It does in a run whose state also keeps a
note of every call; whatever a called rule does is done as before.
-/

namespace Reckon
namespace Parser

variable {ι : Type} {τ : ι -> Type} {state : Type 1} {a : Type}

structure Call (ι : Type) where
  rule : ι
  tokens : List Token

structure Noted (ι : Type) (state : Type 1) : Type 1 where
  state : state
  calls : List (Call ι)

def noting (call : (i : ι) -> List Token -> Action ι state (Reply (τ i))) (i : ι)
    (tokens : List Token) : Action ι (Noted ι state) (Reply (τ i)) :=
  fun s =>
    let run := call i tokens s.state
    ⟨run.outcome, run.events, ⟨run.state, s.calls ++ [⟨i, tokens⟩]⟩⟩

/-- The calls that a parser makes itself, in order.  Calls made by the rules it calls are
not among them. -/
def calls (call : (i : ι) -> List Token -> Action ι state (Reply (τ i))) (limit : Nat)
    (p : Parser τ a) (tokens : List Token) (s : state) : List (Call ι) :=
  (eval (noting call) limit p tokens ⟨s, []⟩).state.calls

end Parser
end Reckon
