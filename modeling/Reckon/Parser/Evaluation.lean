import Reckon.Parser
import Reckon.Parser.Action

/-!
# Running parsers

`Parser.eval` gives a parser its meaning, relative to a way of running the rules
that it refers to.  Rules can be run in two ways.  Built afresh, a rule's parser
is made again at every use.  With a cache it is made at the first use and kept
from then on, also for later streams of tokens.

Rules can call themselves without end, and so can repetition if a parser gives
back more tokens than it was given.  Both are bounded by fuel, and a run that
needs more is unfinished.
-/

namespace Reckon
namespace Parser

variable {ι : Type} {τ : ι -> Type} {state : Type 1} {a b : Type}

/-!
# The meaning of a parser
-/

/-- Runs a step again and again until it fails or consumes nothing, at most
`limit` times.  The value of a step that consumed nothing is dropped. -/
def repeated (step : List Token -> Action ι state (Reply a)) :
    Nat -> List Token -> Action ι state (Reply (List a))
  | 0, _ => Action.unfinished
  | limit + 1, tokens => do
      match <- step tokens with
      | .fail _ => return .ok tokens []
      | .ok rest value =>
          if rest.length = tokens.length then
            return .ok tokens []
          else
            let reply <- repeated step limit rest
            return reply.map fun values => value :: values

/-- The shorter of two token lists, the first one if they are equally long. -/
def shorter (xs ys : List Token) : List Token :=
  if ys.length < xs.length then ys else xs

def eval (call : (i : ι) -> List Token -> Action ι state (Reply (τ i))) (limit : Nat) :
    {a : Type} -> Parser τ a -> List Token -> Action ι state (Reply a)
  | _, .prim reply, tokens => Action.ofOutcome (Outcome.ofExcept (reply tokens))
  | _, .trace label, tokens => do
      Action.record (.printed (traceLine label tokens))
      return .ok tokens ()
  | _, .judge p accept, tokens => do
      match <- eval call limit p tokens with
      | .fail _ => return .fail ⟨tokens, none⟩
      | .ok rest value =>
          if <- Action.ofOutcome (Outcome.ofExcept (accept value)) then
            return .ok rest value
          else
            return .fail ⟨tokens, none⟩
  | _, .many p, tokens => repeated (eval call limit p) limit tokens
  | _, .bind p next, tokens => do
      match <- eval call limit p tokens with
      | .fail failure => return .fail failure
      | .ok rest value => eval call limit (next value) rest
  | _, .orElse p q, tokens => do
      match <- eval call limit p tokens with
      | .ok rest value => return .ok rest value
      | .fail first =>
          match <- eval call limit q tokens with
          | .ok rest value => return .ok rest value
          | .fail second =>
              return .fail ⟨tokens, some (shorter first.deepest second.deepest)⟩
  | _, .rule i, tokens => call i tokens

@[simp] theorem eval_prim
    (call : (i : ι) -> List Token -> Action ι state (Reply (τ i))) (limit : Nat)
    (reply : List Token -> Except NotInteger (Reply a)) (tokens : List Token) :
    eval call limit (.prim reply) tokens =
      Action.ofOutcome (Outcome.ofExcept (reply tokens)) :=
  rfl

@[simp] theorem eval_trace
    (call : (i : ι) -> List Token -> Action ι state (Reply (τ i))) (limit : Nat)
    (label : String) (tokens : List Token) :
    eval call limit (.trace label) tokens =
      Action.record (.printed (traceLine label tokens)) >>= fun _ => pure (.ok tokens ()) :=
  rfl

@[simp] theorem eval_many
    (call : (i : ι) -> List Token -> Action ι state (Reply (τ i))) (limit : Nat)
    (p : Parser τ a) (tokens : List Token) :
    eval call limit (.many p) tokens = repeated (eval call limit p) limit tokens :=
  rfl

@[simp] theorem eval_bind
    (call : (i : ι) -> List Token -> Action ι state (Reply (τ i))) (limit : Nat)
    (p : Parser τ a) (next : a -> Parser τ b) (tokens : List Token) :
    eval call limit (.bind p next) tokens =
      eval call limit p tokens >>= fun reply =>
        match reply with
        | .fail failure => pure (.fail failure)
        | .ok rest value => eval call limit (next value) rest := by
  rw [eval]

@[simp] theorem eval_rule
    (call : (i : ι) -> List Token -> Action ι state (Reply (τ i))) (limit : Nat)
    (i : ι) (tokens : List Token) :
    eval call limit (.rule i) tokens = call i tokens :=
  rfl

/-!
# Single tokens
-/

def tokenReply (k : Kind) : List Token -> Reply Token
  | [] => .fail ⟨[], none⟩
  | t :: rest => if t.kind = k then .ok rest t else .fail ⟨t :: rest, none⟩

theorem tokenReply_eq_ok {k : Kind} {tokens rest : List Token} {t : Token}
    (h : tokenReply k tokens = .ok rest t) : tokens = t :: rest ∧ t.kind = k := by
  cases tokens with
  | nil => cases h
  | cons u us =>
      by_cases hkind : u.kind = k
      · rw [tokenReply, if_pos hkind] at h
        cases h
        exact ⟨rfl, hkind⟩
      · rw [tokenReply, if_neg hkind] at h
        cases h

@[simp] theorem eval_token
    (call : (i : ι) -> List Token -> Action ι state (Reply (τ i))) (limit : Nat)
    (k : Kind) (tokens : List Token) :
    eval call limit (.token k) tokens = pure (tokenReply k tokens) := by
  cases tokens with
  | nil => rfl
  | cons t rest =>
      show (if decide (t.kind = k) then pure (Reply.ok rest t)
        else pure (Reply.fail ⟨t :: rest, none⟩) : Action ι state (Reply Token)) = _
      by_cases hkind : t.kind = k
      · simp only [tokenReply, hkind, decide_true, if_true]
      · simp only [tokenReply, hkind, decide_false, if_false, Bool.false_eq_true]

/-!
# Rules built afresh
-/

def callAfresh (rules : (i : ι) -> Parser τ (τ i)) :
    Nat -> (i : ι) -> List Token -> Action ι PUnit (Reply (τ i))
  | 0, _, _ => Action.unfinished
  | fuel + 1, i, tokens => do
      Action.record (.built i)
      eval (callAfresh rules fuel) (fuel + 1) (rules i) tokens

def runAfresh (rules : (i : ι) -> Parser τ (τ i)) (fuel : Nat) (p : Parser τ a)
    (tokens : List Token) : Run ι PUnit (Reply a) :=
  eval (callAfresh rules fuel) (fuel + 1) p tokens ⟨⟩

/-!
# Rules built once
-/

def Cache (τ : ι -> Type) : Type 1 :=
  (i : ι) -> Option (Parser τ (τ i))

namespace Cache

def empty : Cache τ :=
  fun _ => none

def insert [DecidableEq ι] (cache : Cache τ) (i : ι) (p : Parser τ (τ i)) : Cache τ :=
  fun j => if h : i = j then some (h ▸ p) else cache j

@[simp] theorem insert_same [DecidableEq ι] (cache : Cache τ) (i : ι) (p : Parser τ (τ i)) :
    cache.insert i p i = some p := by
  simp [insert]

theorem insert_other [DecidableEq ι] (cache : Cache τ) {i j : ι} (p : Parser τ (τ i))
    (h : i ≠ j) : cache.insert i p j = cache j := by
  simp [insert, h]

end Cache

def callCached [DecidableEq ι] (rules : (i : ι) -> Parser τ (τ i)) :
    Nat -> (i : ι) -> List Token -> Action ι (Cache τ) (Reply (τ i))
  | 0, _, _ => Action.unfinished
  | fuel + 1, i, tokens => fun cache =>
      match cache i with
      | some p => eval (callCached rules fuel) (fuel + 1) p tokens cache
      | none =>
          (do
            Action.record (.built i)
            eval (callCached rules fuel) (fuel + 1) (rules i) tokens : Action ι (Cache τ) _)
            (cache.insert i (rules i))

def runCached [DecidableEq ι] (rules : (i : ι) -> Parser τ (τ i)) (fuel : Nat)
    (p : Parser τ a) (tokens : List Token) : Action ι (Cache τ) (Reply a) :=
  eval (callCached rules fuel) (fuel + 1) p tokens

/-- Runs a parser on some streams of tokens in turn and keeps the cache between
them.  The fuel of each run may depend on its stream. -/
def runEach [DecidableEq ι] (rules : (i : ι) -> Parser τ (τ i)) (fuel : List Token -> Nat)
    (p : Parser τ a) :
    Cache τ -> List (List Token) -> List (Run ι (Cache τ) (Reply a))
  | _, [] => []
  | cache, tokens :: more =>
      let run := runCached rules (fuel tokens) p tokens cache
      run :: runEach rules fuel p run.state more

end Parser
end Reckon
