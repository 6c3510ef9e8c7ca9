import Reckon.Proofs.Inversion

/-!
# How parsers come to raise

A text that is no numeral ends a run at once, and no combinator catches the refusal.
It escapes from a parser exactly if it escapes from one of the parts that are run,
and the parts that are run before come to replies.  For every way of building a
parser this is said twice: with the fuel of the whole in view, to tell where a
refusal comes from, and for enough fuel, to let one through.
-/

namespace Reckon

namespace Outcome

variable {a b : Type} {fault : NotInteger}

theorem bind_eq_raised_iff {x : Outcome a} {f : a -> Outcome b} :
    x.bind f = .raised fault <->
      x = .raised fault ∨ exists middle : a, x = .done middle ∧ f middle = .raised fault := by
  cases x with
  | done middle => simp [bind]
  | raised fault' => simp [bind]
  | unfinished => simp [bind]

theorem ofExcept_eq_raised_iff {x : Except NotInteger a} :
    ofExcept x = .raised fault <-> x = .error fault := by
  cases x <;> simp [ofExcept]

end Outcome

theorem Action.Refines.result_eq_raised {ι a : Type} {x y : Action ι PUnit a}
    {fault : NotInteger} (h : Refines x y) (hx : x.result = .raised fault) :
    y.result = .raised fault := by
  rcases h ⟨⟩ with hunfinished | hsame
  · rw [result, hunfinished] at hx
    cases hx
  · rw [result, hsame]
    exact hx

namespace Parser

variable {ι : Type} {τ : ι -> Type} {a b : Type} {rules : (i : ι) -> Parser τ (τ i)}

open Reckon.Action

def RaisesIn (rules : (i : ι) -> Parser τ (τ i)) (fuel : Nat) (p : Parser τ a)
    (tokens : List Token) (fault : NotInteger) : Prop :=
  (evalWith rules fuel p tokens).result = .raised fault

def Raises (rules : (i : ι) -> Parser τ (τ i)) (p : Parser τ a) (tokens : List Token)
    (fault : NotInteger) : Prop :=
  exists fuel : Nat, RaisesIn rules fuel p tokens fault

variable {fuel : Nat} {tokens : List Token} {fault : NotInteger}

/-!
# Where refusals come from
-/

theorem raisesIn_prim_iff {reply : List Token -> Except NotInteger (Reply a)} :
    RaisesIn rules fuel (.prim reply) tokens fault <-> reply tokens = .error fault := by
  rw [RaisesIn, evalWith, eval_prim, result_ofOutcome]
  exact Outcome.ofExcept_eq_raised_iff

theorem raisesIn_judge_iff {p : Parser τ a} {accept : a -> Except NotInteger Bool} :
    RaisesIn rules fuel (.judge p accept) tokens fault <->
      RaisesIn rules fuel p tokens fault ∨
        exists rest : List Token, exists value : a,
          RepliesIn rules fuel p tokens (.ok rest value) ∧ accept value = .error fault := by
  rw [RaisesIn, evalWith, result_judge, Outcome.bind_eq_raised_iff]
  refine or_congr Iff.rfl ?_
  constructor
  · rintro ⟨reply, hp, hnext⟩
    cases reply with
    | fail failure => cases hnext
    | ok rest value =>
        rcases Outcome.bind_eq_raised_iff.mp hnext with haccept | ⟨accepted, _, hdone⟩
        · exact ⟨rest, value, hp, Outcome.ofExcept_eq_raised_iff.mp haccept⟩
        · cases hdone
  · rintro ⟨rest, value, hp, haccept⟩
    refine ⟨_, hp, Outcome.bind_eq_raised_iff.mpr (Or.inl ?_)⟩
    exact Outcome.ofExcept_eq_raised_iff.mpr haccept

theorem raisesIn_bind_iff {p : Parser τ a} {next : a -> Parser τ b} :
    RaisesIn rules fuel (.bind p next) tokens fault <->
      RaisesIn rules fuel p tokens fault ∨
        exists rest : List Token, exists value : a,
          RepliesIn rules fuel p tokens (.ok rest value) ∧
            RaisesIn rules fuel (next value) rest fault := by
  rw [RaisesIn, evalWith, result_eval_bind, Outcome.bind_eq_raised_iff]
  refine or_congr Iff.rfl ?_
  constructor
  · rintro ⟨reply, hp, hnext⟩
    cases reply with
    | fail failure => cases hnext
    | ok rest value => exact ⟨rest, value, hp, hnext⟩
  · rintro ⟨rest, value, hp, hnext⟩
    exact ⟨_, hp, hnext⟩

theorem raisesIn_orElse_iff {p q : Parser τ a} :
    RaisesIn rules fuel (.orElse p q) tokens fault <->
      RaisesIn rules fuel p tokens fault ∨
        exists failure : Failure, RepliesIn rules fuel p tokens (.fail failure) ∧
          RaisesIn rules fuel q tokens fault := by
  rw [RaisesIn, evalWith, result_orElse, Outcome.bind_eq_raised_iff]
  refine or_congr Iff.rfl ?_
  constructor
  · rintro ⟨reply, hp, hnext⟩
    cases reply with
    | ok rest value => cases hnext
    | fail failure =>
        rcases Outcome.bind_eq_raised_iff.mp hnext with hq | ⟨reply', _, hdone⟩
        · exact ⟨failure, hp, hq⟩
        · cases reply' <;> cases hdone
  · rintro ⟨failure, hp, hq⟩
    exact ⟨_, hp, Outcome.bind_eq_raised_iff.mpr (Or.inl hq)⟩

theorem RaisesIn.rule {i : ι} (h : RaisesIn rules fuel (.rule i) tokens fault) :
    exists less : Nat, fuel = less + 1 ∧ RaisesIn rules less (rules i) tokens fault := by
  cases fuel with
  | zero => cases h
  | succ less =>
      refine ⟨less, rfl, ?_⟩
      rw [RaisesIn, evalWith, result_rule] at h
      exact h

/-- How a repetition comes to a refusal: some rounds read values, and the next one raises. -/
inductive RaisesAfter (step : List Token -> Reply a -> Prop) (raises : List Token -> Prop) :
    List Token -> Prop where
  | here {tokens : List Token} : raises tokens -> RaisesAfter step raises tokens
  | reads {tokens rest : List Token} {value : a} :
      step tokens (.ok rest value) -> RaisesAfter step raises rest ->
      RaisesAfter step raises tokens

theorem raisesAfter_of_repeated {step : List Token -> Action ι PUnit (Reply a)} {limit : Nat}
    (h : (repeated step limit tokens).result = .raised fault) :
    RaisesAfter (fun us reply => (step us).result = .done reply)
      (fun us => (step us).result = .raised fault) tokens := by
  induction limit generalizing tokens with
  | zero => cases h
  | succ limit ih =>
      rw [result_repeated] at h
      rcases Outcome.bind_eq_raised_iff.mp h with hstep | ⟨reply, hstep, hnext⟩
      · exact RaisesAfter.here hstep
      · cases reply with
        | fail failure => cases hnext
        | ok rest value =>
            dsimp only at hnext
            by_cases hlength : rest.length = tokens.length
            · rw [if_pos hlength] at hnext
              cases hnext
            · rw [if_neg hlength] at hnext
              rcases Outcome.bind_eq_raised_iff.mp hnext with hmore | ⟨_, _, hdone⟩
              · exact RaisesAfter.reads hstep (ih hmore)
              · cases hdone

theorem RaisesIn.many {p : Parser τ a} (h : RaisesIn rules fuel (.many p) tokens fault) :
    RaisesAfter (RepliesIn rules fuel p) (fun us => RaisesIn rules fuel p us fault) tokens := by
  rw [RaisesIn, evalWith, eval_many] at h
  exact raisesAfter_of_repeated h

theorem not_raisesIn_token {k : Kind} : ¬ RaisesIn rules fuel (.token k) tokens fault := by
  intro h
  rcases raisesIn_judge_iff.mp h with hatom | ⟨_, _, _, haccept⟩
  · cases tokens with
    | nil => cases raisesIn_prim_iff.mp hatom
    | cons t rest => cases raisesIn_prim_iff.mp hatom
  · cases haccept

/-!
# Letting refusals through
-/

theorem RaisesIn.of_le {fuel' : Nat} {p : Parser τ a} (h : RaisesIn rules fuel p tokens fault)
    (hfuel : fuel ≤ fuel') : RaisesIn rules fuel' p tokens fault :=
  (evalWith_refines hfuel p tokens).result_eq_raised h

theorem Raises.behind {p : Parser τ a} {q : Parser τ b} {more : List Token} {r : Reply a}
    (h : Raises rules q more fault) (hp : Replies rules p tokens r) :
    exists fuel : Nat, RepliesIn rules fuel p tokens r ∧ RaisesIn rules fuel q more fault := by
  rcases replies_iff_result.mp hp with ⟨fuel, hfuel⟩
  rcases h with ⟨fuel', hfuel'⟩
  exact ⟨max fuel fuel', result_of_le (Nat.le_max_left fuel fuel') hfuel,
    hfuel'.of_le (Nat.le_max_right fuel fuel')⟩

theorem raises_prim {reply : List Token -> Except NotInteger (Reply a)}
    (h : reply tokens = .error fault) : Raises rules (.prim reply) tokens fault :=
  ⟨0, raisesIn_prim_iff.mpr h⟩

theorem raises_bind_first {p : Parser τ a} {next : a -> Parser τ b}
    (h : Raises rules p tokens fault) : Raises rules (.bind p next) tokens fault := by
  rcases h with ⟨fuel, hfuel⟩
  exact ⟨fuel, raisesIn_bind_iff.mpr (Or.inl hfuel)⟩

theorem raises_bind {p : Parser τ a} {next : a -> Parser τ b} {rest : List Token} {value : a}
    (hp : Replies rules p tokens (.ok rest value)) (h : Raises rules (next value) rest fault) :
    Raises rules (.bind p next) tokens fault := by
  rcases h.behind hp with ⟨fuel, hp, hnext⟩
  exact ⟨fuel, raisesIn_bind_iff.mpr (Or.inr ⟨rest, value, hp, hnext⟩)⟩

theorem raises_orElse_left {p q : Parser τ a} (h : Raises rules p tokens fault) :
    Raises rules (.orElse p q) tokens fault := by
  rcases h with ⟨fuel, hfuel⟩
  exact ⟨fuel, raisesIn_orElse_iff.mpr (Or.inl hfuel)⟩

theorem raises_orElse_right {p q : Parser τ a} {failure : Failure}
    (hp : Replies rules p tokens (.fail failure)) (h : Raises rules q tokens fault) :
    Raises rules (.orElse p q) tokens fault := by
  rcases h.behind hp with ⟨fuel, hp, hq⟩
  exact ⟨fuel, raisesIn_orElse_iff.mpr (Or.inr ⟨failure, hp, hq⟩)⟩

theorem raises_rule {i : ι} (h : Raises rules (rules i) tokens fault) :
    Raises rules (.rule i) tokens fault := by
  rcases h with ⟨fuel, hfuel⟩
  refine ⟨fuel + 1, ?_⟩
  rw [RaisesIn, evalWith, result_rule]
  exact hfuel

theorem raises_many_first {p : Parser τ a} (h : Raises rules p tokens fault) :
    Raises rules (.many p) tokens fault := by
  rcases h with ⟨fuel, hfuel⟩
  refine ⟨fuel, ?_⟩
  rw [RaisesIn, evalWith, eval_many, result_repeated, hfuel]
  rfl

theorem raises_many_step {p : Parser τ a} {rest : List Token} {value : a}
    (hp : Replies rules p tokens (.ok rest value)) (hlength : rest.length ≠ tokens.length)
    (h : Raises rules (.many p) rest fault) : Raises rules (.many p) tokens fault := by
  rcases h.behind hp with ⟨fuel, hp, hmore⟩
  have hstep := result_of_le (Nat.le_succ fuel) hp
  have hrepeated :
      (repeated (evalWith rules (fuel + 1) p) (fuel + 1) rest).result = .raised fault := by
    rw [RaisesIn, evalWith, eval_many] at hmore
    exact (repeated_refines (fun us => evalWith_refines (Nat.le_succ fuel) p us)
      (Nat.le_refl (fuel + 1)) rest).result_eq_raised hmore
  refine ⟨fuel + 1, ?_⟩
  rw [RaisesIn, evalWith, eval_many, result_repeated, hstep]
  simp only [Outcome.bind, hlength, if_false]
  rw [hrepeated]

end Parser
end Reckon
