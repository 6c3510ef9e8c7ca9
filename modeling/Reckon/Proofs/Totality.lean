import Reckon.Proofs.Decimals
import Reckon.Proofs.FirstFault
import Reckon.Proofs.Rereading

/-!
# Every text has an answer

Reading a text ends with a tree or with a refusal, unless a number of the text has more
digits than are allowed: the lexer emits numbers without looking at their length, and the
first one that is too long to be read then ends the run.  Nothing else can go wrong, since
every number that is emitted is a numeral, and the parsers need no more of their tokens.

A tree that is read is well formed.  It can therefore be printed, and nothing but a division
by zero can keep it from having a value.
-/

namespace Reckon

theorem Expr.WellFormed.format {bound : DigitBound} {e : Expr} (h : WellFormed bound e) :
    exists text : String, e.format = .ok text := by
  induction h with
  | @literal value raw _ _ => exact ⟨raw, rfl⟩
  | join _ _ _ ihleft ihright =>
      rcases ihleft with ⟨lhs, hlhs⟩
      rcases ihright with ⟨rhs, hrhs⟩
      exact ⟨_, format_of_operands hlhs hrhs⟩

namespace Lexer

variable {bound : DigitBound} {lang : Language} {text : String} {tokens : List Token}

theorem read_of_lex (h : lex lang text = .ok tokens) {t : Token} (ht : t ∈ tokens)
    (hnum : t.kind = .num) :
    (exists value : Int, Numeral.read bound t.text = .ok value) ∨
      exists allowed : Nat, bound.exceeded? (Numeral.length t.text) = some allowed ∧
        Numeral.read bound t.text = .error (.tooLong allowed (Numeral.length t.text)) := by
  have hcanonical := (emitted_of_lex h t ht).isCanonical hnum
  cases hread : Numeral.read bound t.text with
  | ok value => exact Or.inl ⟨value, rfl⟩
  | error e =>
      rcases hcanonical.read_error hread with ⟨allowed, hexceeded, rfl⟩
      exact Or.inr ⟨allowed, hexceeded, rfl⟩

end Lexer

namespace Grammar

open Token

variable {bound : DigitBound} {lang : Language} {text : String} {tokens : List Token}

theorem exists_unread_of_parse {fault : NotInteger} (h : parse bound tokens = .raised fault) :
    exists t : Token, t ∈ tokens ∧ t.kind = .num ∧ Numeral.read bound t.text = .error fault := by
  rcases parse_eq_raised_iff.mp h with ⟨enough, hraises⟩
  cases trips_program enough tokens fault hraises with
  | @mk front back t _ _ _ ht hread => exact ⟨t, by simp, ht, hread⟩

/-- A number of a text is too long to be read, which is what reading the text ends with. -/
def EndsInLongNumber (bound : DigitBound) (lang : Language) (text : String) : Prop :=
  exists tokens : List Token, exists t : Token, exists allowed : Nat,
    Lexer.lex lang text = .ok tokens ∧ t ∈ tokens ∧ t.kind = .num ∧
      bound.exceeded? (Numeral.length t.text) = some allowed ∧
      build bound lang text = .raised (.tooLong allowed (Numeral.length t.text))

theorem build_settles (bound : DigitBound) (lang : Language) (text : String) :
    (exists refusal : Refusal, build bound lang text = .done (.error refusal)) ∨
      EndsInLongNumber bound lang text ∨
      exists root : Expr, build bound lang text = .done (.ok root) := by
  cases hlex : Lexer.lex lang text with
  | error e => exact Or.inl ⟨.lexical e, by rw [build, hlex]⟩
  | ok tokens =>
      have hbuild : build bound lang text =
          (parse bound tokens).map fun parsed => parsed.mapError Refusal.grammatical := by
        rw [build, hlex]
      cases hparse : parse bound tokens with
      | done parsed =>
          rw [hparse] at hbuild
          cases parsed with
          | error e => exact Or.inl ⟨.grammatical e, hbuild⟩
          | ok root => exact Or.inr (Or.inr ⟨root, hbuild⟩)
      | raised fault =>
          rw [hparse] at hbuild
          rcases exists_unread_of_parse hparse with ⟨t, ht, hnum, hread⟩
          have hcanonical := (Lexer.emitted_of_lex hlex t ht).isCanonical hnum
          rcases hcanonical.read_error hread with ⟨allowed, hexceeded, rfl⟩
          exact Or.inr (Or.inl ⟨tokens, t, allowed, hlex, ht, hnum, hexceeded, hbuild⟩)
      | unfinished => exact absurd hparse parse_ne_unfinished

/-- The numbers of a text can be read unless they are too long.  Reading the text gives a
refusal, ends in a number that is too long, or gives a well-formed tree.  Such a tree can be
printed, and its only possible fault is a division by zero, which cannot be reported as one
if its dividend is too long to be written. -/
theorem build_total (bound : DigitBound) (lang : Language) (text : String) :
    (forall tokens : List Token, Lexer.lex lang text = .ok tokens ->
      forall t : Token, t ∈ tokens -> t.kind = .num ->
        (exists value : Int, Numeral.read bound t.text = .ok value) ∨
          exists allowed : Nat, bound.exceeded? (Numeral.length t.text) = some allowed ∧
            Numeral.read bound t.text = .error (.tooLong allowed (Numeral.length t.text))) ∧
    ((exists refusal : Refusal, build bound lang text = .done (.error refusal)) ∨
      EndsInLongNumber bound lang text ∨
      exists root : Expr, build bound lang text = .done (.ok root) ∧
        Expr.WellFormed bound root ∧
        (exists printed : String, root.format = .ok printed) ∧
        ((exists value : Int, root.eval bound = .ok value) ∨
          (exists dividend : Int, exists written : String,
            Numeral.write bound dividend = .ok written ∧
              root.eval bound = .error (.divisionByZero dividend)) ∨
          exists dividend : Int, exists e : Unwritable,
            Numeral.write bound dividend = .error e ∧
              root.eval bound = .error (.unwritable e))) := by
  constructor
  · intro tokens hlex t ht hnum
    exact Lexer.read_of_lex hlex ht hnum
  · rcases build_settles bound lang text with hrefused | hlong | ⟨root, hbuild⟩
    · exact Or.inl hrefused
    · exact Or.inr (Or.inl hlong)
    · have hwell := (wellFormed_of_build hbuild).left
      refine Or.inr (Or.inr ⟨root, hbuild, hwell, hwell.format, ?_⟩)
      rcases eval_of_wellFormed hwell with hvalue | ⟨dividend, hfault⟩
      · exact Or.inl hvalue
      · right
        rw [hfault, Fault.ofDivision]
        cases hwrite : Numeral.write bound dividend with
        | ok written => exact Or.inl ⟨dividend, written, hwrite, rfl⟩
        | error e => exact Or.inr ⟨dividend, e, hwrite, rfl⟩

theorem build_total_quotient_by_zero :
    exists root : Expr, build .standard Language.arith "7 / -0" = .done (.ok root) ∧
      Expr.WellFormed .standard root ∧ root.format = .ok "7 / (-0)" ∧
        root.eval .standard = .error (.divisionByZero 7) := by
  have hquotient : Derives (Number .standard) .term
      ([⟨.num, "7"⟩] ++ ⟨.slash, "/"⟩ :: [⟨.num, "-0"⟩])
      (.join (.literal .num 7 "7") .slash (.literal .num 0 "-0")) :=
    Derives.multiply (Or.inr rfl) (derives_number rfl .term) (derives_number rfl .factor)
  have hbuild : build .standard Language.arith "7 / -0" = .done (.ok _) :=
    build_eq_ok_iff.mpr ⟨_, rfl, Derives.term hquotient⟩
  rcases (build_total .standard Language.arith "7 / -0").right with
    ⟨refusal, hrefused⟩ | ⟨_, _, _, _, _, _, _, hraised⟩ | ⟨root, hroot, hwell, _, _⟩
  · rw [hbuild] at hrefused
    cases hrefused
  · rw [hbuild] at hraised
    cases hraised
  · rw [hbuild] at hroot
    cases hroot
    exact ⟨_, hbuild, hwell, rfl, rfl⟩

/-- The product of two integers that can be written need not be one. -/
theorem build_product_over_zero {n m : Int} {first second : String}
    (hfirst : Numeral.write .standard n = .ok first)
    (hsecond : Numeral.write .standard m = .ok second) :
    exists root : Expr,
      build .standard Language.arith ("((" ++ first ++ ")*(" ++ second ++ "))/(0)") =
          .done (.ok root) ∧
        root.eval .standard = .error (.ofDivision .standard (n * m)) := by
  have hn := Numeral.read_of_write hfirst
  have hm := Numeral.read_of_write hsecond
  have hzero : build .standard Language.arith "0" = .done (.ok (.literal .num 0 "0")) :=
    build_numeral (Numeral.toString_denotes 0).left rfl
  have hstar : Kind.star.isArithmetic = true := rfl
  have hslash : Kind.slash.isArithmetic = true := rfl
  have hproduct := build_joined (by decide) (by decide) hstar (arith_written_operator hstar)
    (build_numeral hn.left hn.right) (build_numeral hm.left hm.right)
  have hquotient := build_joined (by decide) (by decide) hslash (arith_written_operator hslash)
    hproduct hzero
  have htext : "(" ++ ("(" ++ first ++ ")" ++ "*" ++ "(" ++ second ++ ")") ++ ")" ++ "/" ++
      "(" ++ "0" ++ ")" = "((" ++ first ++ ")*(" ++ second ++ "))/(0)" := by
    rw [<- String.toList_inj]
    simp
  exact ⟨_, htext ▸ hquotient, rfl⟩

/-- A number that is too long ends the run, and a product of numbers that are not makes a
dividend that is. -/
theorem build_total_but_long :
    (exists refusal : NotInteger,
      build .standard Language.arith (toString (10 ^ 4300 : Int)) = .raised refusal ∧
        refusal.message = "Exceeds the limit (4300 digits) for integer string conversion: " ++
          "value has 4301 digits; use sys.set_int_max_str_digits() to increase the limit") ∧
      exists root : Expr, exists fault : Fault,
        build .standard Language.arith ("((" ++ toString (10 ^ 4299 : Int) ++ ")*(10))/(0)") =
            .done (.ok root) ∧
          root.eval .standard = .error fault ∧ fault.errorClass = .value := by
  refine ⟨⟨_, build_pow 4300 (by decide), rfl⟩, ?_⟩
  have hshort : Numeral.write .standard (10 ^ 4299) = .ok (toString (10 ^ 4299 : Int)) :=
    Numeral.write_pow_of_lt (by decide) (by decide)
  have hten : Numeral.write .standard 10 = .ok "10" := rfl
  rcases build_product_over_zero hshort hten with ⟨root, hbuild, heval⟩
  have hproduct : (10 ^ 4299 * 10 : Int) = 10 ^ 4300 := (Int.pow_succ 10 4299).symm
  have hfault : Fault.ofDivision .standard (10 ^ 4300) = .unwritable ⟨4300⟩ :=
    Expr.ofDivision_pow 4300 (by decide)
  rw [hproduct, hfault] at heval
  have htext (text : String) :
      "((" ++ text ++ ")*(" ++ "10" ++ "))/(0)" = "((" ++ text ++ ")*(10))/(0)" := by
    rw [<- String.toList_inj]
    simp
  exact ⟨root, _, htext _ ▸ hbuild, heval, rfl⟩

end Grammar
end Reckon
