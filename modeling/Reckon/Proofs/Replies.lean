import Reckon.Parser.Fuel

/-!
# How parsers come to their replies

For every way of building a parser, a rule derives its reply from the replies of
its parts.  The rules do not mention fuel: whatever the parts need, the larger of
two amounts serves both, since a finished run stays the same with more.
-/

namespace Reckon

namespace Action

variable {ι : Type} {a b : Type}

def result (x : Action ι PUnit a) : Outcome a :=
  (x ⟨⟩).outcome

@[simp] theorem result_ofOutcome (x : Outcome a) : (ofOutcome x : Action ι PUnit a).result = x :=
  rfl

@[simp] theorem result_record (e : Event ι) : (record e : Action ι PUnit Unit).result = .done () :=
  rfl

@[simp] theorem result_bind (x : Action ι PUnit a) (f : a -> Action ι PUnit b) :
    (x >>= f).result = x.result.bind fun value => (f value).result := by
  rcases hx : x ⟨⟩ with ⟨outcome, events, after⟩
  cases outcome with
  | done value =>
      simp only [result, bind_of_done f hx, hx]
      rfl
  | raised fault =>
      simp only [result, bind_of_raised f hx, hx]
      rfl
  | unfinished =>
      simp only [result, bind_of_unfinished f hx, hx]
      rfl

theorem Refines.result_eq {x y : Action ι PUnit a} {value : a} (h : Refines x y)
    (hx : x.result = .done value) : y.result = .done value := by
  rcases h ⟨⟩ with hunfinished | hsame
  · rw [result, hunfinished] at hx
    cases hx
  · rw [result, hsame]
    exact hx

end Action

namespace Parser

variable {ι : Type} {τ : ι -> Type} {a b c : Type} {rules : (i : ι) -> Parser τ (τ i)}

open Reckon.Action

/-!
# The meaning of a parser at its end
-/

section Results

variable (call : (i : ι) -> List Token -> Action ι PUnit (Reply (τ i))) (limit : Nat)

theorem result_judge (p : Parser τ a) (accept : a -> Except NotInteger Bool)
    (tokens : List Token) :
    (eval call limit (.judge p accept) tokens).result =
      (eval call limit p tokens).result.bind fun reply =>
        match reply with
        | .fail _ => .done (.fail ⟨tokens, none⟩)
        | .ok rest value => (Outcome.ofExcept (accept value)).bind fun accepted =>
            .done (if accepted then .ok rest value else .fail ⟨tokens, none⟩) := by
  rw [eval, result_bind]
  congr 1
  funext reply
  cases reply with
  | fail failure => rfl
  | ok rest value =>
      rw [result_bind]
      congr 1
      funext accepted
      cases accepted <;> rfl

theorem result_eval_bind (p : Parser τ a) (next : a -> Parser τ b) (tokens : List Token) :
    (eval call limit (.bind p next) tokens).result =
      (eval call limit p tokens).result.bind fun reply =>
        match reply with
        | .fail failure => .done (.fail failure)
        | .ok rest value => (eval call limit (next value) rest).result := by
  rw [eval_bind, result_bind]
  congr 1
  funext reply
  cases reply <;> rfl

theorem result_orElse (p q : Parser τ a) (tokens : List Token) :
    (eval call limit (.orElse p q) tokens).result =
      (eval call limit p tokens).result.bind fun reply =>
        match reply with
        | .ok rest value => .done (.ok rest value)
        | .fail first => (eval call limit q tokens).result.bind fun reply' =>
            match reply' with
            | .ok rest value => .done (.ok rest value)
            | .fail second =>
                .done (.fail ⟨tokens, some (shorter first.deepest second.deepest)⟩) := by
  rw [eval, result_bind]
  congr 1
  funext reply
  cases reply with
  | ok rest value => rfl
  | fail first =>
      rw [result_bind]
      congr 1
      funext reply'
      cases reply' <;> rfl

theorem result_repeated (step : List Token -> Action ι PUnit (Reply a)) (tokens : List Token) :
    (repeated step (limit + 1) tokens).result =
      (step tokens).result.bind fun reply =>
        match reply with
        | .fail _ => .done (.ok tokens [])
        | .ok rest value =>
            if rest.length = tokens.length then .done (.ok tokens [])
            else (repeated step limit rest).result.bind fun reply' =>
              .done (reply'.map fun values => value :: values) := by
  rw [repeated, result_bind]
  congr 1
  funext reply
  cases reply with
  | fail failure => rfl
  | ok rest value =>
      dsimp only
      split
      · rfl
      · rw [result_bind]
        rfl

/-- A rule does what its parser does with less fuel. -/
@[simp] theorem result_rule (fuel : Nat) (i : ι) (tokens : List Token) :
    (eval (callAfresh rules (fuel + 1)) limit (.rule i) tokens).result =
      (eval (callAfresh rules fuel) (fuel + 1) (rules i) tokens).result := by
  rw [eval_rule, callAfresh, result_bind, result_record]
  rfl

end Results

/-!
# Replies with enough fuel
-/

abbrev evalWith (rules : (i : ι) -> Parser τ (τ i)) (fuel : Nat) (p : Parser τ a)
    (tokens : List Token) : Action ι PUnit (Reply a) :=
  eval (callAfresh rules fuel) (fuel + 1) p tokens

theorem evalWith_refines {fuel fuel' : Nat} (hfuel : fuel ≤ fuel') (p : Parser τ a)
    (tokens : List Token) : Refines (evalWith rules fuel p tokens)
      (evalWith rules fuel' p tokens) :=
  eval_refines (callAfresh_refines rules hfuel) (Nat.succ_le_succ hfuel) p tokens

theorem replies_iff_result {p : Parser τ a} {tokens : List Token} {r : Reply a} :
    Replies rules p tokens r <->
      exists fuel : Nat, (evalWith rules fuel p tokens).result = .done r :=
  Iff.rfl

theorem result_of_le {fuel fuel' : Nat} (hfuel : fuel ≤ fuel') {p : Parser τ a}
    {tokens : List Token} {r : Reply a}
    (h : (evalWith rules fuel p tokens).result = .done r) :
    (evalWith rules fuel' p tokens).result = .done r :=
  (evalWith_refines hfuel p tokens).result_eq h

theorem Replies.both {p : Parser τ a} {q : Parser τ b} {tokens more : List Token} {r : Reply a}
    {s : Reply b} (h : Replies rules p tokens r) (h' : Replies rules q more s) :
    exists fuel : Nat, (evalWith rules fuel p tokens).result = .done r ∧
      (evalWith rules fuel q more).result = .done s := by
  rcases replies_iff_result.mp h with ⟨fuel, hp⟩
  rcases replies_iff_result.mp h' with ⟨fuel', hq⟩
  exact ⟨max fuel fuel', result_of_le (Nat.le_max_left fuel fuel') hp,
    result_of_le (Nat.le_max_right fuel fuel') hq⟩

/-!
# Rules for the constructors
-/

theorem replies_prim {reply : List Token -> Except NotInteger (Reply a)} {tokens : List Token}
    {r : Reply a} (h : reply tokens = .ok r) : Replies rules (.prim reply) tokens r := by
  refine replies_iff_result.mpr ⟨0, ?_⟩
  rw [evalWith, eval_prim, h]
  rfl

theorem replies_trace (label : String) (tokens : List Token) :
    Replies rules (.trace label) tokens (.ok tokens ()) := by
  refine replies_iff_result.mpr ⟨0, ?_⟩
  rw [evalWith, eval_trace, result_bind, result_record]
  rfl

theorem replies_judge {p : Parser τ a} {accept : a -> Except NotInteger Bool}
    {tokens rest : List Token} {value : a} {accepted : Bool}
    (h : Replies rules p tokens (.ok rest value)) (haccept : accept value = .ok accepted) :
    Replies rules (.judge p accept) tokens
      (if accepted then .ok rest value else .fail ⟨tokens, none⟩) := by
  rcases replies_iff_result.mp h with ⟨fuel, hp⟩
  refine replies_iff_result.mpr ⟨fuel, ?_⟩
  rw [evalWith, result_judge, hp]
  show (Outcome.ofExcept (accept value)).bind _ = _
  rw [haccept]
  rfl

theorem replies_judge_fail {p : Parser τ a} {accept : a -> Except NotInteger Bool}
    {tokens : List Token} {failure : Failure} (h : Replies rules p tokens (.fail failure)) :
    Replies rules (.judge p accept) tokens (.fail ⟨tokens, none⟩) := by
  rcases replies_iff_result.mp h with ⟨fuel, hp⟩
  refine replies_iff_result.mpr ⟨fuel, ?_⟩
  rw [evalWith, result_judge, hp]
  rfl

theorem replies_bind {p : Parser τ a} {next : a -> Parser τ b} {tokens rest : List Token}
    {value : a} {r : Reply b} (h : Replies rules p tokens (.ok rest value))
    (hnext : Replies rules (next value) rest r) : Replies rules (.bind p next) tokens r := by
  rcases h.both hnext with ⟨fuel, hp, hq⟩
  refine replies_iff_result.mpr ⟨fuel, ?_⟩
  rw [evalWith, result_eval_bind, hp]
  exact hq

theorem replies_bind_fail {p : Parser τ a} {next : a -> Parser τ b} {tokens : List Token}
    {failure : Failure} (h : Replies rules p tokens (.fail failure)) :
    Replies rules (.bind p next) tokens (.fail failure) := by
  rcases replies_iff_result.mp h with ⟨fuel, hp⟩
  refine replies_iff_result.mpr ⟨fuel, ?_⟩
  rw [evalWith, result_eval_bind, hp]
  rfl

theorem replies_orElse_left {p q : Parser τ a} {tokens rest : List Token} {value : a}
    (h : Replies rules p tokens (.ok rest value)) :
    Replies rules (.orElse p q) tokens (.ok rest value) := by
  rcases replies_iff_result.mp h with ⟨fuel, hp⟩
  refine replies_iff_result.mpr ⟨fuel, ?_⟩
  rw [evalWith, result_orElse, hp]
  rfl

theorem replies_orElse_right {p q : Parser τ a} {tokens rest : List Token} {value : a}
    {failure : Failure} (h : Replies rules p tokens (.fail failure))
    (h' : Replies rules q tokens (.ok rest value)) :
    Replies rules (.orElse p q) tokens (.ok rest value) := by
  rcases h.both h' with ⟨fuel, hp, hq⟩
  refine replies_iff_result.mpr ⟨fuel, ?_⟩
  rw [evalWith, result_orElse, hp]
  show Outcome.bind _ _ = _
  rw [hq]
  rfl

theorem replies_orElse_fail {p q : Parser τ a} {tokens : List Token} {first second : Failure}
    (h : Replies rules p tokens (.fail first)) (h' : Replies rules q tokens (.fail second)) :
    Replies rules (.orElse p q) tokens
      (.fail ⟨tokens, some (shorter first.deepest second.deepest)⟩) := by
  rcases h.both h' with ⟨fuel, hp, hq⟩
  refine replies_iff_result.mpr ⟨fuel, ?_⟩
  rw [evalWith, result_orElse, hp]
  show Outcome.bind _ _ = _
  rw [hq]
  rfl

theorem replies_rule {i : ι} {tokens : List Token} {r : Reply (τ i)}
    (h : Replies rules (rules i) tokens r) : Replies rules (.rule i) tokens r := by
  rcases replies_iff_result.mp h with ⟨fuel, hp⟩
  refine replies_iff_result.mpr ⟨fuel + 1, ?_⟩
  rw [evalWith, result_rule]
  exact hp

/-!
# Rules for repetition
-/

theorem replies_many_fail {p : Parser τ a} {tokens : List Token} {failure : Failure}
    (h : Replies rules p tokens (.fail failure)) :
    Replies rules (.many p) tokens (.ok tokens []) := by
  rcases replies_iff_result.mp h with ⟨fuel, hp⟩
  refine replies_iff_result.mpr ⟨fuel, ?_⟩
  rw [evalWith, eval_many, result_repeated, hp]
  rfl

theorem replies_many_idle {p : Parser τ a} {tokens rest : List Token} {value : a}
    (h : Replies rules p tokens (.ok rest value)) (hlength : rest.length = tokens.length) :
    Replies rules (.many p) tokens (.ok tokens []) := by
  rcases replies_iff_result.mp h with ⟨fuel, hp⟩
  refine replies_iff_result.mpr ⟨fuel, ?_⟩
  rw [evalWith, eval_many, result_repeated, hp]
  simp only [Outcome.bind, hlength, if_true]

theorem replies_many_step {p : Parser τ a} {tokens rest rest' : List Token} {value : a}
    {values : List a} (h : Replies rules p tokens (.ok rest value))
    (hlength : rest.length ≠ tokens.length)
    (hmore : Replies rules (.many p) rest (.ok rest' values)) :
    Replies rules (.many p) tokens (.ok rest' (value :: values)) := by
  rcases h.both hmore with ⟨fuel, hp, hq⟩
  have hstep := result_of_le (Nat.le_succ fuel) hp
  have hrepeated :
      (repeated (evalWith rules (fuel + 1) p) (fuel + 1) rest).result =
        .done (.ok rest' values) := by
    rw [evalWith, eval_many] at hq
    exact (repeated_refines (fun us => evalWith_refines (Nat.le_succ fuel) p us)
      (Nat.le_refl (fuel + 1)) rest).result_eq hq
  refine replies_iff_result.mpr ⟨fuel + 1, ?_⟩
  rw [evalWith, eval_many, result_repeated, hstep]
  simp only [Outcome.bind, hlength, if_false]
  rw [hrepeated]
  rfl

/-!
# Rules for the derived parsers
-/

theorem replies_pure (value : a) (tokens : List Token) :
    Replies rules (Parser.pure value) tokens (.ok tokens value) :=
  replies_prim rfl

theorem replies_fail (tokens : List Token) :
    Replies rules (Parser.fail : Parser τ a) tokens (.fail ⟨tokens, none⟩) :=
  replies_prim rfl

theorem replies_atom (t : Token) (rest : List Token) :
    Replies rules .atom (t :: rest) (.ok rest t) :=
  replies_prim rfl

theorem replies_token {k : Kind} {t : Token} (ht : t.kind = k) (rest : List Token) :
    Replies rules (.token k) (t :: rest) (.ok rest t) := by
  have hjudge : Replies rules (.token k) (t :: rest) (if true then .ok rest t else _) :=
    replies_judge (replies_atom t rest) (by rw [decide_eq_true ht])
  exact hjudge

theorem replies_token_fail {k : Kind} {tokens : List Token}
    (h : forall t : Token, tokens.head? = some t -> t.kind ≠ k) :
    Replies rules (.token k) tokens (.fail ⟨tokens, none⟩) := by
  cases tokens with
  | nil => exact replies_judge_fail (replies_prim rfl)
  | cons t rest =>
      have hjudge : Replies rules (.token k) (t :: rest)
          (if false then .ok rest t else .fail ⟨t :: rest, none⟩) :=
        replies_judge (replies_atom t rest) (by rw [decide_eq_false (h t rfl)])
      exact hjudge

theorem replies_eof : Replies rules .eof [] (.ok [] ()) :=
  replies_prim rfl

theorem replies_eof_fail (t : Token) (rest : List Token) :
    Replies rules .eof (t :: rest) (.fail ⟨t :: rest, none⟩) :=
  replies_prim rfl

theorem replies_map {p : Parser τ a} (f : a -> b) {tokens rest : List Token} {value : a}
    (h : Replies rules p tokens (.ok rest value)) :
    Replies rules (p.map f) tokens (.ok rest (f value)) :=
  replies_bind h (replies_pure (f value) rest)

theorem replies_map_fail {p : Parser τ a} (f : a -> b) {tokens : List Token} {failure : Failure}
    (h : Replies rules p tokens (.fail failure)) :
    Replies rules (p.map f) tokens (.fail failure) :=
  replies_bind_fail h

theorem replies_mapExcept {p : Parser τ a} {f : a -> Except NotInteger b}
    {tokens rest : List Token} {value : a} {value' : b}
    (h : Replies rules p tokens (.ok rest value)) (hf : f value = .ok value') :
    Replies rules (p.mapExcept f) tokens (.ok rest value') :=
  replies_bind h (replies_prim (by rw [hf]; rfl))

theorem replies_pair {p : Parser τ a} {q : Parser τ b} {tokens rest rest' : List Token}
    {x : a} {y : b} (hp : Replies rules p tokens (.ok rest x))
    (hq : Replies rules q rest (.ok rest' y)) :
    Replies rules (p.pair q) tokens (.ok rest' (x, y)) :=
  replies_bind hp (replies_map (fun y => (x, y)) hq)

theorem replies_pair_fail {p : Parser τ a} {q : Parser τ b} {tokens rest : List Token}
    {x : a} {failure : Failure} (hp : Replies rules p tokens (.ok rest x))
    (hq : Replies rules q rest (.fail failure)) :
    Replies rules (p.pair q) tokens (.fail failure) :=
  replies_bind hp (replies_map_fail (fun y => (x, y)) hq)

theorem replies_before {p : Parser τ a} {q : Parser τ b} {tokens rest rest' : List Token}
    {x : a} {y : b} (hp : Replies rules p tokens (.ok rest x))
    (hq : Replies rules q rest (.ok rest' y)) :
    Replies rules (p.before q) tokens (.ok rest' x) :=
  replies_bind hp (replies_map (fun _ => x) hq)

theorem replies_before_fail {p : Parser τ a} {q : Parser τ b} {tokens rest : List Token}
    {x : a} {failure : Failure} (hp : Replies rules p tokens (.ok rest x))
    (hq : Replies rules q rest (.fail failure)) :
    Replies rules (p.before q) tokens (.fail failure) :=
  replies_bind hp (replies_map_fail (fun _ => x) hq)

theorem replies_traced_fail {p : Parser τ a} (label : String) {tokens : List Token}
    {failure : Failure} (h : Replies rules p tokens (.fail failure)) :
    Replies rules (traced label p) tokens
      (.fail ⟨tokens, some (shorter failure.deepest tokens)⟩) := by
  have hbacktracked : Replies rules
      ((trace (label ++ " backtracked")).andThen Parser.fail : Parser τ a) tokens
      (.fail ⟨tokens, none⟩) :=
    replies_bind (replies_trace _ tokens) (replies_fail tokens)
  exact replies_bind (replies_trace label tokens) (replies_orElse_fail h hbacktracked)

end Parser
end Reckon
