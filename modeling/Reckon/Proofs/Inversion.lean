import Reckon.Proofs.Replies

/-!
# Where replies come from

The converse of `Reckon.Proofs.Replies`: a reply of a parser goes back to replies of
its parts.  Here the fuel is kept in view.  Every part comes to its reply with the
fuel of the whole, and the parser of a rule with one unit less, so that statements
about recursive rules go by induction on the fuel.  How often a repetition may go
round is forgotten at once.
-/

namespace Reckon

theorem Outcome.bind_eq_done_iff {a b : Type} {x : Outcome a} {f : a -> Outcome b} {value : b} :
    x.bind f = .done value <-> exists middle : a, x = .done middle ∧ f middle = .done value := by
  cases x with
  | done middle => simp [bind]
  | raised fault => simp [bind]
  | unfinished => simp [bind]

theorem Outcome.ofExcept_eq_done_iff {a : Type} {x : Except NotInteger a} {value : a} :
    ofExcept x = .done value <-> x = .ok value := by
  cases x <;> simp [ofExcept]

namespace Parser

variable {ι : Type} {τ : ι -> Type} {a b : Type} {rules : (i : ι) -> Parser τ (τ i)}

open Reckon.Action

/-!
# Replies with some fuel
-/

def RepliesIn (rules : (i : ι) -> Parser τ (τ i)) (fuel : Nat) (p : Parser τ a)
    (tokens : List Token) (r : Reply a) : Prop :=
  (evalWith rules fuel p tokens).result = .done r

variable {fuel : Nat} {tokens : List Token}

theorem RepliesIn.replies {p : Parser τ a} {r : Reply a} (h : RepliesIn rules fuel p tokens r) :
    Replies rules p tokens r :=
  replies_iff_result.mpr ⟨fuel, h⟩

theorem RepliesIn.prim {reply : List Token -> Except NotInteger (Reply a)} {r : Reply a}
    (h : RepliesIn rules fuel (.prim reply) tokens r) : reply tokens = .ok r := by
  rw [RepliesIn, evalWith, eval_prim, result_ofOutcome] at h
  exact Outcome.ofExcept_eq_done_iff.mp h

theorem RepliesIn.trace {label : String} {r : Reply Unit}
    (h : RepliesIn rules fuel (.trace label) tokens r) : r = .ok tokens () := by
  rw [RepliesIn, evalWith, eval_trace, result_bind, result_record] at h
  exact (Outcome.done.inj h).symm

theorem RepliesIn.judge {p : Parser τ a} {accept : a -> Except NotInteger Bool} {r : Reply a}
    (h : RepliesIn rules fuel (.judge p accept) tokens r) :
    (exists failure : Failure,
      RepliesIn rules fuel p tokens (.fail failure) ∧ r = .fail ⟨tokens, none⟩) ∨
    exists rest : List Token, exists value : a, exists accepted : Bool,
      RepliesIn rules fuel p tokens (.ok rest value) ∧ accept value = .ok accepted ∧
        r = if accepted then .ok rest value else .fail ⟨tokens, none⟩ := by
  rw [RepliesIn, evalWith, result_judge] at h
  rcases Outcome.bind_eq_done_iff.mp h with ⟨reply, hp, hnext⟩
  cases reply with
  | fail failure => exact Or.inl ⟨failure, hp, (Outcome.done.inj hnext).symm⟩
  | ok rest value =>
      rcases Outcome.bind_eq_done_iff.mp hnext with ⟨accepted, haccept, hdone⟩
      exact Or.inr ⟨rest, value, accepted, hp, Outcome.ofExcept_eq_done_iff.mp haccept,
        (Outcome.done.inj hdone).symm⟩

theorem RepliesIn.bind {p : Parser τ a} {next : a -> Parser τ b} {r : Reply b}
    (h : RepliesIn rules fuel (.bind p next) tokens r) :
    (exists failure : Failure,
      RepliesIn rules fuel p tokens (.fail failure) ∧ r = .fail failure) ∨
    exists rest : List Token, exists value : a,
      RepliesIn rules fuel p tokens (.ok rest value) ∧
        RepliesIn rules fuel (next value) rest r := by
  rw [RepliesIn, evalWith, result_eval_bind] at h
  rcases Outcome.bind_eq_done_iff.mp h with ⟨reply, hp, hnext⟩
  cases reply with
  | fail failure => exact Or.inl ⟨failure, hp, (Outcome.done.inj hnext).symm⟩
  | ok rest value => exact Or.inr ⟨rest, value, hp, hnext⟩

theorem RepliesIn.orElse {p q : Parser τ a} {r : Reply a}
    (h : RepliesIn rules fuel (.orElse p q) tokens r) :
    (exists rest : List Token, exists value : a,
      RepliesIn rules fuel p tokens (.ok rest value) ∧ r = .ok rest value) ∨
    exists first : Failure, RepliesIn rules fuel p tokens (.fail first) ∧
      ((exists rest : List Token, exists value : a,
        RepliesIn rules fuel q tokens (.ok rest value) ∧ r = .ok rest value) ∨
      exists second : Failure, RepliesIn rules fuel q tokens (.fail second) ∧
        r = .fail ⟨tokens, some (shorter first.deepest second.deepest)⟩) := by
  rw [RepliesIn, evalWith, result_orElse] at h
  rcases Outcome.bind_eq_done_iff.mp h with ⟨reply, hp, hnext⟩
  cases reply with
  | ok rest value => exact Or.inl ⟨rest, value, hp, (Outcome.done.inj hnext).symm⟩
  | fail first =>
      rcases Outcome.bind_eq_done_iff.mp hnext with ⟨reply', hq, hdone⟩
      refine Or.inr ⟨first, hp, ?_⟩
      cases reply' with
      | ok rest value => exact Or.inl ⟨rest, value, hq, (Outcome.done.inj hdone).symm⟩
      | fail second => exact Or.inr ⟨second, hq, (Outcome.done.inj hdone).symm⟩

theorem RepliesIn.bind_ok {p : Parser τ a} {next : a -> Parser τ b} {rest : List Token}
    {value : b} (h : RepliesIn rules fuel (.bind p next) tokens (.ok rest value)) :
    exists middle : List Token, exists first : a,
      RepliesIn rules fuel p tokens (.ok middle first) ∧
        RepliesIn rules fuel (next first) middle (.ok rest value) := by
  rcases RepliesIn.bind h with ⟨_, _, hfail⟩ | hboth
  · cases hfail
  · exact hboth

theorem RepliesIn.orElse_ok {p q : Parser τ a} {rest : List Token} {value : a}
    (h : RepliesIn rules fuel (.orElse p q) tokens (.ok rest value)) :
    RepliesIn rules fuel p tokens (.ok rest value) ∨
      RepliesIn rules fuel q tokens (.ok rest value) := by
  rcases RepliesIn.orElse h with ⟨_, _, hp, heq⟩ | ⟨_, _, ⟨_, _, hq, heq⟩ | ⟨_, _, hfail⟩⟩
  · cases heq
    exact Or.inl hp
  · cases heq
    exact Or.inr hq
  · cases hfail

theorem RepliesIn.rule {i : ι} {r : Reply (τ i)} (h : RepliesIn rules fuel (.rule i) tokens r) :
    exists less : Nat, fuel = less + 1 ∧ RepliesIn rules less (rules i) tokens r := by
  cases fuel with
  | zero => cases h
  | succ less =>
      refine ⟨less, rfl, ?_⟩
      rw [RepliesIn, evalWith, result_rule] at h
      exact h

/-!
# Repetition
-/

inductive Repeats (step : List Token -> Reply a -> Prop) :
    List Token -> List Token -> List a -> Prop where
  | fails {tokens : List Token} {failure : Failure} :
      step tokens (.fail failure) -> Repeats step tokens tokens []
  | idles {tokens rest : List Token} {value : a} :
      step tokens (.ok rest value) -> rest.length = tokens.length ->
      Repeats step tokens tokens []
  | reads {tokens rest rest' : List Token} {value : a} {values : List a} :
      step tokens (.ok rest value) -> rest.length ≠ tokens.length ->
      Repeats step rest rest' values -> Repeats step tokens rest' (value :: values)

theorem repeats_of_repeated {step : List Token -> Action ι PUnit (Reply a)} {limit : Nat}
    {r : Reply (List a)} (h : (repeated step limit tokens).result = .done r) :
    exists rest : List Token, exists values : List a, r = .ok rest values ∧
      Repeats (fun us reply => (step us).result = .done reply) tokens rest values := by
  induction limit generalizing tokens r with
  | zero => cases h
  | succ limit ih =>
      rw [result_repeated] at h
      rcases Outcome.bind_eq_done_iff.mp h with ⟨reply, hstep, hnext⟩
      cases reply with
      | fail failure =>
          exact ⟨tokens, [], (Outcome.done.inj hnext).symm, Repeats.fails hstep⟩
      | ok rest value =>
          dsimp only at hnext
          by_cases hlength : rest.length = tokens.length
          · rw [if_pos hlength] at hnext
            exact ⟨tokens, [], (Outcome.done.inj hnext).symm, Repeats.idles hstep hlength⟩
          · rw [if_neg hlength] at hnext
            rcases Outcome.bind_eq_done_iff.mp hnext with ⟨reply', hmore, hdone⟩
            rcases ih hmore with ⟨rest', values, rfl, hrepeats⟩
            exact ⟨rest', value :: values, (Outcome.done.inj hdone).symm,
              Repeats.reads hstep hlength hrepeats⟩

theorem Repeats.replies {p : Parser τ a} {rest : List Token} {values : List a}
    (h : Repeats (Replies rules p) tokens rest values) :
    Replies rules (.many p) tokens (.ok rest values) := by
  induction h with
  | fails hfail => exact replies_many_fail hfail
  | idles hok hlength => exact replies_many_idle hok hlength
  | reads hok hlength _ ih => exact replies_many_step hok hlength ih

theorem RepliesIn.many {p : Parser τ a} {r : Reply (List a)}
    (h : RepliesIn rules fuel (.many p) tokens r) :
    exists rest : List Token, exists values : List a, r = .ok rest values ∧
      Repeats (RepliesIn rules fuel p) tokens rest values := by
  rw [RepliesIn, evalWith, eval_many] at h
  exact repeats_of_repeated h

end Parser
end Reckon
