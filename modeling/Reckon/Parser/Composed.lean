import Reckon.Parser

/-!
# Parsers made of combinators

The constructors of `Parser` admit primitives that give back whatever tokens they
like.  A parser is composed if its primitives are those of the library: it succeeds
or fails on the spot, takes one token, or looks for the end.  What follows a parser
may depend on its value in any way, and references to rules are composed themselves,
so that composed parsers include all recursive ones over composed rules.
-/

namespace Reckon
namespace Parser

variable {ι : Type} {τ : ι -> Type}

inductive Composed : {a : Type} -> Parser τ a -> Prop where
  | pure {a : Type} (value : a) : Composed (Parser.pure value)
  | fail {a : Type} : Composed (Parser.fail : Parser τ a)
  | atom : Composed Parser.atom
  | eof : Composed Parser.eof
  | trace (label : String) : Composed (.trace label)
  | judge {a : Type} {p : Parser τ a} (accept : a -> Except NotInteger Bool) :
      Composed p -> Composed (.judge p accept)
  | many {a : Type} {p : Parser τ a} : Composed p -> Composed (.many p)
  | mapExcept {a b : Type} {p : Parser τ a} (f : a -> Except NotInteger b) :
      Composed p -> Composed (p.mapExcept f)
  | bind {a b : Type} {p : Parser τ a} {next : a -> Parser τ b} :
      Composed p -> (forall value : a, Composed (next value)) -> Composed (.bind p next)
  | orElse {a : Type} {p q : Parser τ a} : Composed p -> Composed q -> Composed (.orElse p q)
  | rule (i : ι) : Composed (.rule i)

namespace Composed

variable {a b : Type} {p : Parser τ a} {q : Parser τ b}

/-!
# Derived combinators
-/

theorem token (k : Kind) : Composed (Parser.token k : Parser τ Token) :=
  judge _ atom

theorem map (hp : Composed p) (f : a -> b) : Composed (p.map f) :=
  bind hp fun x => pure (f x)

theorem pair (hp : Composed p) (hq : Composed q) : Composed (p.pair q) :=
  bind hp fun x => hq.map fun y => (x, y)

theorem andThen (hp : Composed p) (hq : Composed q) : Composed (p.andThen q) :=
  bind hp fun _ => hq

theorem before (hp : Composed p) (hq : Composed q) : Composed (p.before q) :=
  bind hp fun x => hq.map fun _ => x

theorem between {o c : Type} {opening : Parser τ o} {closing : Parser τ c}
    (hopening : Composed opening) (hclosing : Composed closing) (hp : Composed p) :
    Composed (Parser.between opening closing p) :=
  (hopening.andThen hp).before hclosing

theorem foldl_orElse {ps : List (Parser τ a)} (hps : forall r : Parser τ a, r ∈ ps -> Composed r)
    (hp : Composed p) : Composed (ps.foldl Parser.orElse p) := by
  induction ps generalizing p with
  | nil => exact hp
  | cons r ps ih =>
      rcases List.forall_mem_cons.mp hps with ⟨hr, hps⟩
      exact ih hps (hp.orElse hr)

theorem choice {ps : List (Parser τ a)} (hps : forall r : Parser τ a, r ∈ ps -> Composed r) :
    Composed (Parser.choice ps) := by
  cases ps with
  | nil => exact fail
  | cons r ps =>
      rcases List.forall_mem_cons.mp hps with ⟨hr, hps⟩
      exact foldl_orElse hps hr

theorem traced (label : String) (hp : Composed p) : Composed (Parser.traced label p) :=
  (trace label).andThen (hp.orElse ((trace _).andThen fail))

end Composed
end Parser
end Reckon
