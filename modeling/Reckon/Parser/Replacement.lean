import Mathlib.Data.List.Forall2
import Reckon.Parser.Meaning

/-!
# Parsers put in the place of others

Two parsers are equivalent if a report cannot tell them apart: on all tokens both
succeed alike, or both fail and are reported at the same place, whatever they leave.
One of them may be put in the place of the other anywhere inside a parser, also in the
rules that it refers to, and also in only some of the parsers that follow a value.
What is put in is therefore judged by the rules that it is going to be used with.
-/

namespace Reckon
namespace Parser

variable {ι : Type} {τ : ι -> Type}

def Equivalent (rules rules' : (i : ι) -> Parser τ (τ i)) {a : Type} (p p' : Parser τ a) :
    Prop :=
  forall tokens : List Token, exists r : Reply a, exists r' : Reply a,
    Replies rules p tokens r ∧ Replies rules' p' tokens r' ∧ r.SameResult r'

def Follows (rules rules' : (i : ι) -> Parser τ (τ i)) {a : Type} (p p' : Parser τ a) : Prop :=
  forall tokens : List Token, forall r : Reply a, Replies rules p tokens r ->
    exists r' : Reply a, Replies rules' p' tokens r' ∧ r.SameResult r'

/-- A parser inside which some parsers are swapped for others, as a relation permits. -/
inductive Replaced (swap : {a : Type} -> Parser τ a -> Parser τ a -> Prop) :
    {a : Type} -> Parser τ a -> Parser τ a -> Prop where
  | swap {a : Type} {p p' : Parser τ a} : swap p p' -> Replaced swap p p'
  | prim {a : Type} (reply : List Token -> Except NotInteger (Reply a)) :
      Replaced swap (.prim reply) (.prim reply)
  | trace (label : String) : Replaced swap (.trace label) (.trace label)
  | judge {a : Type} {p p' : Parser τ a} (accept : a -> Except NotInteger Bool) :
      Replaced swap p p' -> Replaced swap (.judge p accept) (.judge p' accept)
  | many {a : Type} {p p' : Parser τ a} :
      Replaced swap p p' -> Replaced swap (.many p) (.many p')
  | bind {a b : Type} {p p' : Parser τ a} {next next' : a -> Parser τ b} :
      Replaced swap p p' -> (forall value : a, Replaced swap (next value) (next' value)) ->
      Replaced swap (.bind p next) (.bind p' next')
  | orElse {a : Type} {p p' q q' : Parser τ a} :
      Replaced swap p p' -> Replaced swap q q' ->
      Replaced swap (.orElse p q) (.orElse p' q')
  | rule (i : ι) : Replaced swap (.rule i) (.rule i)

namespace Replaced

variable {swap : {a : Type} -> Parser τ a -> Parser τ a -> Prop} {a b : Type}
variable {p p' : Parser τ a} {q q' : Parser τ b}

theorem refl (p : Parser τ a) : Replaced swap p p := by
  induction p with
  | prim reply => exact prim reply
  | trace label => exact trace label
  | judge p accept ih => exact judge accept ih
  | many p ih => exact many ih
  | bind p next ih ihnext => exact bind ih ihnext
  | orElse p q ihp ihq => exact orElse ihp ihq
  | rule i => exact rule i

/-!
# Derived combinators
-/

theorem map (hp : Replaced swap p p') (f : a -> b) : Replaced swap (p.map f) (p'.map f) :=
  bind hp fun _ => refl _

theorem mapExcept (hp : Replaced swap p p') (f : a -> Except NotInteger b) :
    Replaced swap (p.mapExcept f) (p'.mapExcept f) :=
  bind hp fun _ => refl _

theorem pair (hp : Replaced swap p p') (hq : Replaced swap q q') :
    Replaced swap (p.pair q) (p'.pair q') :=
  bind hp fun _ => hq.map _

theorem andThen (hp : Replaced swap p p') (hq : Replaced swap q q') :
    Replaced swap (p.andThen q) (p'.andThen q') :=
  bind hp fun _ => hq

theorem before (hp : Replaced swap p p') (hq : Replaced swap q q') :
    Replaced swap (p.before q) (p'.before q') :=
  bind hp fun _ => hq.map _

theorem between {o c : Type} {opening opening' : Parser τ o} {closing closing' : Parser τ c}
    (hopening : Replaced swap opening opening') (hclosing : Replaced swap closing closing')
    (hp : Replaced swap p p') :
    Replaced swap (Parser.between opening closing p) (Parser.between opening' closing' p') :=
  (hopening.andThen hp).before hclosing

theorem foldl_orElse {ps ps' : List (Parser τ a)}
    (hps : List.Forall₂ (Replaced swap) ps ps') (hp : Replaced swap p p') :
    Replaced swap (ps.foldl Parser.orElse p) (ps'.foldl Parser.orElse p') := by
  induction hps generalizing p p' with
  | nil => exact hp
  | cons hr _ ih => exact ih (hp.orElse hr)

theorem choice {ps ps' : List (Parser τ a)} (hps : List.Forall₂ (Replaced swap) ps ps') :
    Replaced swap (Parser.choice ps) (Parser.choice ps') := by
  cases hps with
  | nil => exact refl _
  | cons hr hps => exact foldl_orElse hps hr

theorem traced (label : String) (hp : Replaced swap p p') :
    Replaced swap (Parser.traced label p) (Parser.traced label p') :=
  (trace label).andThen (hp.orElse (refl _))

end Replaced
end Parser
end Reckon
