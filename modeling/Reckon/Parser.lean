import Reckon.Parser.Reply
import Reckon.Text.Numeral

/-!
# Parsers

A parser is a description of how to read tokens; `Reckon.Parser.Evaluation` says
what it does to them.  Parsers may refer to rules, which are parsers of their
own and may refer to each other and to themselves.  `τ` gives the type of value
that each rule reads.

Seven constructors carry the whole library of combinators.  A primitive is any
way of replying to tokens, and may meet a text that is no numeral.  A value that
is judged and refused consumes nothing, repetition never fails, and a choice
tries its second parser from where the first one started.
-/

namespace Reckon

inductive Parser {ι : Type} (τ : ι -> Type) : Type -> Type 1 where
  | prim {a : Type} (reply : List Token -> Except NotInteger (Reply a)) : Parser τ a
  | trace (label : String) : Parser τ Unit
  | judge {a : Type} (p : Parser τ a) (accept : a -> Except NotInteger Bool) : Parser τ a
  | many {a : Type} (p : Parser τ a) : Parser τ (List a)
  | bind {a b : Type} (p : Parser τ a) (next : a -> Parser τ b) : Parser τ b
  | orElse {a : Type} (p q : Parser τ a) : Parser τ a
  | rule (i : ι) : Parser τ (τ i)

namespace Parser

variable {ι : Type} {τ : ι -> Type} {a b : Type}

/-!
# Primitives
-/

protected def pure (value : a) : Parser τ a :=
  prim fun tokens => .ok (.ok tokens value)

def fail : Parser τ a :=
  prim fun tokens => .ok (.fail ⟨tokens, none⟩)

def atom : Parser τ Token :=
  prim fun tokens =>
    match tokens with
    | [] => .ok (.fail ⟨[], none⟩)
    | t :: rest => .ok (.ok rest t)

def eof : Parser τ Unit :=
  prim fun tokens =>
    match tokens with
    | [] => .ok (.ok [] ())
    | t :: rest => .ok (.fail ⟨t :: rest, none⟩)

def token (k : Kind) : Parser τ Token :=
  judge atom fun t => .ok (decide (t.kind = k))

/-!
# Changing values
-/

def map (p : Parser τ a) (f : a -> b) : Parser τ b :=
  bind p fun x => Parser.pure (f x)

def mapExcept (p : Parser τ a) (f : a -> Except NotInteger b) : Parser τ b :=
  bind p fun x => prim fun tokens => (f x).map fun y => .ok tokens y

/-!
# Sequences
-/

def pair (p : Parser τ a) (q : Parser τ b) : Parser τ (a × b) :=
  bind p fun x => q.map fun y => (x, y)

def andThen (p : Parser τ a) (q : Parser τ b) : Parser τ b :=
  bind p fun _ => q

def before (p : Parser τ a) (q : Parser τ b) : Parser τ a :=
  bind p fun x => q.map fun _ => x

def between {o c : Type} (opening : Parser τ o) (closing : Parser τ c) (p : Parser τ a) :
    Parser τ a :=
  (opening.andThen p).before closing

/-!
# Choice and tracing
-/

def choice : List (Parser τ a) -> Parser τ a
  | [] => fail
  | p :: ps => ps.foldl orElse p

def traced (label : String) (p : Parser τ a) : Parser τ a :=
  (trace label).andThen (orElse p ((trace (label ++ " backtracked")).andThen fail))

/-- The line that tracing prints: the label, and the texts of the tokens ahead cut
after thirty characters. -/
def traceLine (label : String) (tokens : List Token) : String :=
  let ahead := (Token.texts tokens).toList
  label ++ ": \"" ++ String.ofList (ahead.take 30) ++
    (if ahead.length > 30 then "..." else "") ++ "\""

end Parser
end Reckon
