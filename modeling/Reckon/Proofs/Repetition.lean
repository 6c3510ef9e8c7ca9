import Reckon.Proofs.Suffixes
import Reckon.Proofs.Congruence

/-!
# Repetition unrolled

A repetition goes on until its step fails or consumes nothing, and what such a last
step consumed is given back.  If the step comes to a reply everywhere and leaves
suffixes, every round but the last one leaves fewer tokens, so that the repetition
comes to an end and succeeds, whatever the tokens are.

A step that never succeeds without consuming makes the repetition a choice: one more
value and the repetition behind it, or no value at all.
-/

namespace Reckon
namespace Parser

variable {ι : Type} {τ : ι -> Type} {a : Type} {rules : (i : ι) -> Parser τ (τ i)}

/-!
# Readings
-/

/-- Values that a parser reads one behind the other, each of them from a shorter suffix
of the tokens than the one before. -/
inductive Readings (rules : (i : ι) -> Parser τ (τ i)) (p : Parser τ a) :
    List Token -> List Token -> List a -> Prop where
  | none (tokens : List Token) : Readings rules p tokens tokens []
  | more {tokens middle rest : List Token} {value : a} {values : List a} :
      Replies rules p tokens (.ok middle value) -> middle <:+ tokens ->
      middle.length < tokens.length -> Readings rules p middle rest values ->
      Readings rules p tokens rest (value :: values)

/-- A parser reads no further value: it fails, or succeeds without consuming anything. -/
def Exhausted (rules : (i : ι) -> Parser τ (τ i)) (p : Parser τ a) (tokens : List Token) : Prop :=
  (exists failure : Failure, Replies rules p tokens (.fail failure)) ∨
    exists value : a, Replies rules p tokens (.ok tokens value)

theorem Readings.length_le {p : Parser τ a} {tokens rest : List Token} {values : List a}
    (h : Readings rules p tokens rest values) :
    values.length + rest.length ≤ tokens.length := by
  induction h with
  | none => simp
  | more _ _ hshorter _ ih =>
      rw [List.length_cons]
      omega

theorem Exhausted.replies_many {p : Parser τ a} {tokens : List Token}
    (h : Exhausted rules p tokens) : Replies rules (.many p) tokens (.ok tokens []) := by
  rcases h with ⟨failure, hfail⟩ | ⟨value, hidle⟩
  · exact replies_many_fail hfail
  · exact replies_many_idle hidle rfl

theorem Readings.replies_many {p : Parser τ a} {tokens rest : List Token} {values : List a}
    (h : Readings rules p tokens rest values) (hrest : Exhausted rules p rest) :
    Replies rules (.many p) tokens (.ok rest values) := by
  induction h with
  | none => exact hrest.replies_many
  | more hread _ hshorter _ ih => exact replies_many_step hread (Nat.ne_of_lt hshorter) (ih hrest)

/-!
# One round
-/

theorem exhausted_or_reads {p : Parser τ a}
    (hreturns : forall tokens : List Token, Returns rules p tokens)
    (hsuffix : forall (tokens rest : List Token) (value : a),
      Replies rules p tokens (.ok rest value) -> rest <:+ tokens) (tokens : List Token) :
    Exhausted rules p tokens ∨ exists rest : List Token, exists value : a,
      Replies rules p tokens (.ok rest value) ∧ rest <:+ tokens ∧
        rest.length < tokens.length := by
  rcases hreturns tokens with ⟨r, hr⟩
  cases r with
  | fail failure => exact Or.inl (Or.inl ⟨failure, hr⟩)
  | ok rest value =>
      have hrest := hsuffix tokens rest value hr
      by_cases hsame : rest = tokens
      · rw [hsame] at hr
        exact Or.inl (Or.inr ⟨value, hr⟩)
      · have hlength : rest.length ≠ tokens.length := fun h => hsame (hrest.eq_of_length h)
        exact Or.inr ⟨rest, value, hr, hrest, Nat.lt_of_le_of_ne hrest.length_le hlength⟩

theorem exists_readings {p : Parser τ a}
    (hreturns : forall tokens : List Token, Returns rules p tokens)
    (hsuffix : forall (tokens rest : List Token) (value : a),
      Replies rules p tokens (.ok rest value) -> rest <:+ tokens) (tokens : List Token) :
    exists rest : List Token, exists values : List a,
      Readings rules p tokens rest values ∧ Exhausted rules p rest := by
  induction hn : tokens.length using Nat.strongRecOn generalizing tokens with
  | ind n ih =>
      rcases exhausted_or_reads hreturns hsuffix tokens with
        hexhausted | ⟨middle, value, hread, hmiddle, hshorter⟩
      · exact ⟨tokens, [], Readings.none tokens, hexhausted⟩
      · rcases ih middle.length (hn ▸ hshorter) middle rfl with ⟨rest, values, hmore, hrest⟩
        exact ⟨rest, value :: values, Readings.more hread hmiddle hshorter hmore, hrest⟩

/-!
# Repetition as a choice
-/

def unrolled (p : Parser τ a) : Parser τ (List a) :=
  .orElse ((p.pair (.many p)).map fun xs => [xs.1] ++ xs.2) (Parser.pure [])

theorem replies_unrolled_fail {p : Parser τ a} {tokens : List Token} {failure : Failure}
    (h : Replies rules p tokens (.fail failure)) :
    Replies rules (unrolled p) tokens (.ok tokens []) :=
  replies_orElse_right (replies_map_fail _ (replies_bind_fail h)) (replies_pure [] tokens)

theorem replies_unrolled_step {p : Parser τ a} {tokens middle rest : List Token} {value : a}
    {values : List a} (h : Replies rules p tokens (.ok middle value))
    (hmore : Replies rules (.many p) middle (.ok rest values)) :
    Replies rules (unrolled p) tokens (.ok rest (value :: values)) :=
  replies_orElse_left (replies_map _ (replies_pair h hmore))

theorem Readings.replies_unrolled {p : Parser τ a} {tokens rest : List Token} {values : List a}
    (h : Readings rules p tokens rest values) {failure : Failure}
    (hfail : Replies rules p rest (.fail failure)) :
    Replies rules (unrolled p) tokens (.ok rest values) := by
  cases h with
  | none => exact replies_unrolled_fail hfail
  | more hread _ _ hmore =>
      exact replies_unrolled_step hread (hmore.replies_many (Or.inl ⟨failure, hfail⟩))

/-- A repetition comes to an end and succeeds.  It reads one value after the other from shorter
and shorter suffixes, up to where no further value is read, and reads nothing from there.  If
its step never succeeds without consuming, it gives the replies of its unrolling. -/
theorem many_reads_until_exhausted {p : Parser τ a}
    (hreturns : forall tokens : List Token, Returns rules p tokens)
    (hsuffix : forall (tokens rest : List Token) (value : a),
      Replies rules p tokens (.ok rest value) -> rest <:+ tokens) :
    (forall tokens : List Token, exists rest : List Token, exists values : List a,
      Replies rules (.many p) tokens (.ok rest values) ∧ values.length ≤ tokens.length ∧
        Readings rules p tokens rest values ∧ Exhausted rules p rest ∧
        Replies rules (.many p) rest (.ok rest [])) ∧
    ((forall (tokens rest : List Token) (value : a),
        Replies rules p tokens (.ok rest value) -> rest ≠ tokens) ->
      forall (tokens : List Token) (r : Reply (List a)),
        Replies rules (.many p) tokens r <-> Replies rules (unrolled p) tokens r) := by
  constructor
  · intro tokens
    rcases exists_readings hreturns hsuffix tokens with ⟨rest, values, hreadings, hrest⟩
    exact ⟨rest, values, hreadings.replies_many hrest,
      Nat.le_of_add_right_le hreadings.length_le, hreadings, hrest, hrest.replies_many⟩
  · intro hconsumes tokens r
    rcases exists_readings hreturns hsuffix tokens with ⟨rest, values, hreadings, hrest⟩
    have hmany := hreadings.replies_many hrest
    have hunrolled : Replies rules (unrolled p) tokens (.ok rest values) := by
      rcases hrest with ⟨failure, hfail⟩ | ⟨value, hidle⟩
      · exact hreadings.replies_unrolled hfail
      · exact absurd rfl (hconsumes rest rest value hidle)
    constructor
    · intro hr
      rw [hr.unique hmany]
      exact hunrolled
    · intro hr
      rw [hr.unique hunrolled]
      exact hmany

theorem length_lt_of_replies_negated {tokens rest : List Token} {t : Token}
    (h : Replies rules negated tokens (.ok rest t)) : rest.length < tokens.length := by
  rcases replies_iff_result.mp h with ⟨fuel, hfuel⟩
  rcases RepliesIn.bind_ok hfuel with ⟨middle, sign, hsign, hnumber⟩
  rw [(eq_cons_of_token hsign).left, (eq_cons_of_token hnumber).left, List.length_cons,
    List.length_cons]
  omega

end Parser

namespace Grammar

open Reckon.Parser

variable {bound : DigitBound}

theorem many_reads_until_exhausted_lone_minus :
    (forall tokens : List Token, Returns (rules .standard) negated tokens) ∧
      (forall (tokens rest : List Token) (t : Token),
        Replies (rules .standard) negated tokens (.ok rest t) -> rest <:+ tokens) ∧
      (forall (tokens rest : List Token) (t : Token),
        Replies (rules .standard) negated tokens (.ok rest t) -> rest ≠ tokens) ∧
      Readings (rules .standard) negated [⟨.minus, "-"⟩, ⟨.num, "5"⟩, ⟨.minus, "-"⟩, ⟨.plus, "+"⟩]
        [⟨.minus, "-"⟩, ⟨.plus, "+"⟩] [⟨.num, "5"⟩] ∧
      Exhausted (rules .standard) negated [⟨.minus, "-"⟩, ⟨.plus, "+"⟩] ∧
      Replies (rules .standard) (unrolled negated)
        [⟨.minus, "-"⟩, ⟨.num, "5"⟩, ⟨.minus, "-"⟩, ⟨.plus, "+"⟩]
        (.ok [⟨.minus, "-"⟩, ⟨.plus, "+"⟩] [⟨.num, "5"⟩]) := by
  have hreturns (tokens : List Token) : Returns (rules .standard) negated tokens := by
    rcases replies_negated_total tokens with ⟨r, _, hr⟩
    exact ⟨r, hr (rules .standard)⟩
  have hsuffix (tokens rest : List Token) (t : Token)
      (h : Replies (rules .standard) negated tokens (.ok rest t)) : rest <:+ tokens :=
    (((Composed.token .minus).andThen (Composed.token .num)).disciplined composed_rules tokens _
      h).suffix
  have hconsumes (tokens rest : List Token) (t : Token)
      (h : Replies (rules .standard) negated tokens (.ok rest t)) : rest ≠ tokens := by
    intro hsame
    have hlength := length_lt_of_replies_negated h
    rw [hsame] at hlength
    exact Nat.lt_irrefl _ hlength
  have hfirst : Replies (rules .standard) negated
      [⟨.minus, "-"⟩, ⟨.num, "5"⟩, ⟨.minus, "-"⟩, ⟨.plus, "+"⟩]
      (.ok [⟨.minus, "-"⟩, ⟨.plus, "+"⟩] ⟨.num, "5"⟩) :=
    replies_bind (replies_token (t := ⟨.minus, "-"⟩) rfl _)
      (replies_token (t := ⟨.num, "5"⟩) rfl _)
  have hlast : Replies (rules .standard) negated [⟨.minus, "-"⟩, ⟨.plus, "+"⟩]
      (.fail ⟨[⟨.plus, "+"⟩], none⟩) :=
    replies_bind (replies_token (t := ⟨.minus, "-"⟩) rfl _) (replies_token_fail (by simp))
  have hmany := replies_many_step hfirst (by simp) (replies_many_fail hlast)
  rcases many_reads_until_exhausted hreturns hsuffix with ⟨hreads, hunrolled⟩
  rcases hreads [⟨.minus, "-"⟩, ⟨.num, "5"⟩, ⟨.minus, "-"⟩, ⟨.plus, "+"⟩] with
    ⟨rest, values, hreply, _, hreadings, hexhausted, _⟩
  cases hreply.unique hmany
  exact ⟨hreturns, hsuffix, hconsumes, hreadings, hexhausted, (hunrolled hconsumes _ _).mp hmany⟩

end Grammar
end Reckon
