import Reckon.Parser.Meaning

/-!
# More fuel changes no finished run

A run that came to an end is the same run, event by event, with any larger
amount of fuel.  The reply of a parser to some tokens is therefore unique.
-/

namespace Reckon

namespace Action

variable {ι : Type} {state : Type 1} {a b : Type}

/-- Wherever the first action finishes, the second one does the same. -/
def Refines (x y : Action ι state a) : Prop :=
  forall s : state, (x s).outcome = .unfinished ∨ y s = x s

theorem Refines.refl (x : Action ι state a) : Refines x x :=
  fun _ => Or.inr rfl

theorem refines_of_unfinished (y : Action ι state a) : Refines unfinished y :=
  fun _ => Or.inl rfl

/-!
# Sequences of actions
-/

theorem Refines.bind {x y : Action ι state a} {f g : a -> Action ι state b}
    (hxy : Refines x y) (hfg : forall value : a, Refines (f value) (g value)) :
    Refines (x >>= f) (y >>= g) := by
  intro s
  cases hxy s with
  | inl hunfinished =>
      rcases hx : x s with ⟨outcome, events, after⟩
      rw [hx] at hunfinished
      rw [bind_of_unfinished f (hx.trans (by rw [<- hunfinished]))]
      exact Or.inl rfl
  | inr hsame =>
      rcases hx : x s with ⟨outcome, events, after⟩
      have hy := hsame.trans hx
      cases outcome with
      | raised fault =>
          rw [bind_of_raised f hx, bind_of_raised g hy]
          exact Or.inr rfl
      | unfinished =>
          rw [bind_of_unfinished f hx]
          exact Or.inl rfl
      | done value =>
          rw [bind_of_done f hx, bind_of_done g hy]
          cases hfg value after with
          | inl hunfinished => exact Or.inl hunfinished
          | inr hsame' =>
              rw [hsame']
              exact Or.inr rfl

end Action

namespace Parser

variable {ι : Type} {τ : ι -> Type} {state : Type 1} {a : Type}

open Reckon.Action

theorem repeated_refines {step step' : List Token -> Action ι state (Reply a)}
    (hstep : forall tokens : List Token, Refines (step tokens) (step' tokens))
    {limit limit' : Nat} (hlimit : limit ≤ limit') (tokens : List Token) :
    Refines (repeated step limit tokens) (repeated step' limit' tokens) := by
  induction limit generalizing limit' tokens with
  | zero => exact refines_of_unfinished _
  | succ limit ih =>
      cases limit' with
      | zero => omega
      | succ limit' =>
          apply Refines.bind (hstep tokens)
          intro reply
          cases reply with
          | fail failure => exact Refines.refl _
          | ok rest value =>
              dsimp only
              split
              · exact Refines.refl _
              · exact Refines.bind (ih (by omega) rest) fun _ => Refines.refl _

theorem eval_refines
    {call call' : (i : ι) -> List Token -> Action ι state (Reply (τ i))}
    (hcall : forall i : ι, forall tokens : List Token, Refines (call i tokens) (call' i tokens))
    {limit limit' : Nat} (hlimit : limit ≤ limit') (p : Parser τ a) (tokens : List Token) :
    Refines (eval call limit p tokens) (eval call' limit' p tokens) := by
  induction p generalizing tokens with
  | prim reply => exact Refines.refl _
  | trace label => exact Refines.refl _
  | judge p accept ih =>
      apply Refines.bind (ih tokens)
      intro reply
      exact Refines.refl _
  | many p ih => exact repeated_refines ih hlimit tokens
  | bind p next ih ihnext =>
      rw [eval_bind, eval_bind]
      apply Refines.bind (ih tokens)
      intro reply
      cases reply with
      | fail failure => exact Refines.refl _
      | ok rest value => exact ihnext value rest
  | orElse p q ihp ihq =>
      apply Refines.bind (ihp tokens)
      intro reply
      cases reply with
      | ok rest value => exact Refines.refl _
      | fail first => exact Refines.bind (ihq tokens) fun _ => Refines.refl _
  | rule i => exact hcall i tokens

/-!
# Runs with more fuel
-/

theorem callAfresh_refines (rules : (i : ι) -> Parser τ (τ i)) {fuel fuel' : Nat}
    (hfuel : fuel ≤ fuel') (i : ι) (tokens : List Token) :
    Refines (callAfresh rules fuel i tokens) (callAfresh rules fuel' i tokens) := by
  induction fuel generalizing fuel' i tokens with
  | zero => exact refines_of_unfinished _
  | succ fuel ih =>
      cases fuel' with
      | zero => omega
      | succ fuel' =>
          apply Refines.bind (Refines.refl _)
          intro _
          exact eval_refines (fun j us => ih (by omega) j us) (by omega) (rules i) tokens

theorem runAfresh_of_le (rules : (i : ι) -> Parser τ (τ i)) {fuel fuel' : Nat}
    (hfuel : fuel ≤ fuel') (p : Parser τ a) (tokens : List Token)
    (hfinished : (p.runAfresh rules fuel tokens).outcome ≠ .unfinished) :
    p.runAfresh rules fuel' tokens = p.runAfresh rules fuel tokens := by
  have hrefines :=
    eval_refines (callAfresh_refines rules hfuel) (Nat.succ_le_succ hfuel) p tokens ⟨⟩
  cases hrefines with
  | inl hunfinished => exact absurd hunfinished hfinished
  | inr hsame => exact hsame

theorem Replies.unique {rules : (i : ι) -> Parser τ (τ i)} {p : Parser τ a}
    {tokens : List Token} {r s : Reply a}
    (hr : Replies rules p tokens r) (hs : Replies rules p tokens s) : r = s := by
  obtain ⟨fuel, hr⟩ := hr
  obtain ⟨fuel', hs⟩ := hs
  have hfirst := runAfresh_of_le rules (Nat.le_max_left fuel fuel') p tokens
    (by simp [hr])
  have hsecond := runAfresh_of_le rules (Nat.le_max_right fuel fuel') p tokens
    (by simp [hs])
  rw [<- hfirst, hsecond, hs] at hr
  exact (Outcome.done.inj hr).symm

end Parser
end Reckon
