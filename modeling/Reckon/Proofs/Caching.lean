import Reckon.Proofs.Replies

/-!
# A cache of rules shows in no outcome

A rule that is built once and kept runs as if it were built at every use, as long as
the cache holds nothing but the parsers of the rules.  Every run leaves such a cache
behind, whatever its outcome.
-/

namespace Reckon
namespace Parser

variable {ι : Type} {τ : ι -> Type} {a b : Type} {rules : (i : ι) -> Parser τ (τ i)}

open Reckon.Action

def Cache.Keeps (cache : Cache τ) (rules : (i : ι) -> Parser τ (τ i)) : Prop :=
  forall i : ι, forall p : Parser τ (τ i), cache i = some p -> p = rules i

theorem Cache.keeps_empty : Cache.empty.Keeps rules := by
  intro i p h
  cases h

theorem Cache.Keeps.insert [DecidableEq ι] {cache : Cache τ} (h : cache.Keeps rules) (i : ι) :
    (cache.insert i (rules i)).Keeps rules := by
  intro j p hp
  by_cases hij : i = j
  · subst hij
    rw [Cache.insert_same] at hp
    exact (Option.some.inj hp).symm
  · rw [Cache.insert_other cache _ hij] at hp
    exact h j p hp

/-!
# Relations between actions

Two actions of different states can be compared step by step.  A relation that holds of
the single steps and passes to sequences holds of whole parsers, if it holds of their
rules.
-/

/-- A relation that holds between single steps and passes to sequences of actions. -/
structure Compatible {state state' : Type 1}
    (R : {a : Type} -> Action ι state a -> Action ι state' a -> Prop) : Prop where
  ofOutcome : forall {a : Type} (x : Outcome a), R (ofOutcome x) (ofOutcome x)
  printed : forall line : String, R (record (.printed line)) (record (.printed line))
  bind : forall {a b : Type} {x : Action ι state a} {y : Action ι state' a}
    {f : a -> Action ι state b} {g : a -> Action ι state' b},
    R x y -> (forall value : a, R (f value) (g value)) -> R (x >>= f) (y >>= g)

namespace Compatible

variable {state state' : Type 1} {R : {a : Type} -> Action ι state a -> Action ι state' a -> Prop}

theorem pure (h : Compatible R) (value : a) : R (Pure.pure value) (Pure.pure value) :=
  h.ofOutcome (.done value)

theorem repeated (h : Compatible R) {step : List Token -> Action ι state (Reply a)}
    {step' : List Token -> Action ι state' (Reply a)}
    (hstep : forall tokens : List Token, R (step tokens) (step' tokens)) (limit : Nat)
    (tokens : List Token) :
    R (Parser.repeated step limit tokens) (Parser.repeated step' limit tokens) := by
  induction limit generalizing tokens with
  | zero => exact h.ofOutcome .unfinished
  | succ limit ih =>
      apply h.bind (hstep tokens)
      intro reply
      cases reply with
      | fail failure => exact h.pure _
      | ok rest value =>
          dsimp only
          split
          · exact h.pure _
          · exact h.bind (ih rest) fun _ => h.pure _

theorem eval (h : Compatible R) {call : (i : ι) -> List Token -> Action ι state (Reply (τ i))}
    {call' : (i : ι) -> List Token -> Action ι state' (Reply (τ i))}
    (hcall : forall (i : ι) (tokens : List Token), R (call i tokens) (call' i tokens))
    (limit : Nat) (p : Parser τ a) (tokens : List Token) :
    R (Parser.eval call limit p tokens) (Parser.eval call' limit p tokens) := by
  induction p generalizing tokens with
  | prim reply => exact h.ofOutcome _
  | trace label => exact h.bind (h.printed _) fun _ => h.pure _
  | judge p accept ih =>
      apply h.bind (ih tokens)
      intro reply
      cases reply with
      | fail failure => exact h.pure _
      | ok rest value =>
          apply h.bind (h.ofOutcome _)
          intro accepted
          cases accepted <;> exact h.pure _
  | many p ih => exact h.repeated ih limit tokens
  | bind p next ih ihnext =>
      rw [eval_bind, eval_bind]
      apply h.bind (ih tokens)
      intro reply
      cases reply with
      | fail failure => exact h.pure _
      | ok rest value => exact ihnext value rest
  | orElse p q ihp ihq =>
      apply h.bind (ihp tokens)
      intro reply
      cases reply with
      | ok rest value => exact h.pure _
      | fail first =>
          apply h.bind (ihq tokens)
          intro reply'
          cases reply' <;> exact h.pure _
  | rule i => exact hcall i tokens

end Compatible

/-!
# Actions with and without a cache
-/

/-- From every cache of the rules, the first action ends like the second one and leaves a
cache of the rules. -/
def Mirrors (rules : (i : ι) -> Parser τ (τ i)) (x : Action ι (Cache τ) a)
    (y : Action ι PUnit a) : Prop :=
  forall cache : Cache τ, cache.Keeps rules ->
    (x cache).outcome = y.result ∧ (x cache).state.Keeps rules

theorem mirrors_ofOutcome (x : Outcome a) : Mirrors rules (ofOutcome x) (ofOutcome x) :=
  fun _ hcache => ⟨rfl, hcache⟩

theorem mirrors_record (e : Event ι) : Mirrors rules (record e) (record e) :=
  fun _ hcache => ⟨rfl, hcache⟩

theorem Mirrors.bind {x : Action ι (Cache τ) a} {y : Action ι PUnit a}
    {f : a -> Action ι (Cache τ) b} {g : a -> Action ι PUnit b} (hxy : Mirrors rules x y)
    (hfg : forall value : a, Mirrors rules (f value) (g value)) :
    Mirrors rules (x >>= f) (y >>= g) := by
  intro cache hcache
  rcases hxy cache hcache with ⟨houtcome, hkeeps⟩
  rcases hx : x cache with ⟨outcome, events, after⟩
  rw [hx] at houtcome hkeeps
  rw [result_bind, <- houtcome]
  cases outcome with
  | done value =>
      rw [bind_of_done f hx]
      exact hfg value after hkeeps
  | raised fault =>
      rw [bind_of_raised f hx]
      exact ⟨rfl, hkeeps⟩
  | unfinished =>
      rw [bind_of_unfinished f hx]
      exact ⟨rfl, hkeeps⟩

theorem compatible_mirrors (rules : (i : ι) -> Parser τ (τ i)) :
    Compatible (fun {_} x y => Mirrors rules x y) where
  ofOutcome := mirrors_ofOutcome
  printed line := mirrors_record (.printed line)
  bind := Mirrors.bind

theorem eval_mirrors {call : (i : ι) -> List Token -> Action ι (Cache τ) (Reply (τ i))}
    {call' : (i : ι) -> List Token -> Action ι PUnit (Reply (τ i))}
    (hcall : forall i : ι, forall tokens : List Token,
      Mirrors rules (call i tokens) (call' i tokens))
    (limit : Nat) (p : Parser τ a) (tokens : List Token) :
    Mirrors rules (eval call limit p tokens) (eval call' limit p tokens) :=
  (compatible_mirrors rules).eval hcall limit p tokens

/-!
# Runs with and without a cache
-/

variable [DecidableEq ι]

theorem callCached_mirrors (fuel : Nat) (i : ι) (tokens : List Token) :
    Mirrors rules (callCached rules fuel i tokens) (callAfresh rules fuel i tokens) := by
  induction fuel generalizing i tokens with
  | zero => exact mirrors_ofOutcome .unfinished
  | succ fuel ih =>
      intro cache hcache
      have hrule := eval_mirrors ih (fuel + 1) (rules i) tokens
      have hbuilt := Mirrors.bind (mirrors_record (.built i)) fun _ => hrule
      cases hfound : cache i with
      | some p =>
          obtain rfl := hcache i p hfound
          simp only [callCached, callAfresh, hfound, result_bind, result_record]
          exact hrule cache hcache
      | none =>
          simp only [callCached, hfound]
          exact hbuilt (cache.insert i (rules i)) (hcache.insert i)

theorem outcome_runCached {cache : Cache τ} (hcache : cache.Keeps rules) (fuel : Nat)
    (p : Parser τ a) (tokens : List Token) :
    (runCached rules fuel p tokens cache).outcome = (runAfresh rules fuel p tokens).outcome :=
  (eval_mirrors (callCached_mirrors fuel) (fuel + 1) p tokens cache hcache).left

theorem keeps_runCached {cache : Cache τ} (hcache : cache.Keeps rules) (fuel : Nat)
    (p : Parser τ a) (tokens : List Token) :
    (runCached rules fuel p tokens cache).state.Keeps rules :=
  (eval_mirrors (callCached_mirrors fuel) (fuel + 1) p tokens cache hcache).right

end Parser
end Reckon
