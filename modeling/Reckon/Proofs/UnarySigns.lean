import Reckon.Expr.WellFormed
import Reckon.Proofs.Folding
import Reckon.Proofs.Reading

/-!
# A folded sign is a unary sign

The lexer folds signs without any knowledge of the grammar.  Folding any choice of
signs turns a derivation from the grammar in which a number may have a sign of its
own into a derivation from the grammar without signs, and the other way round.
Where tokens are derivable from the grammar without signs, the choice is forced: at
an operand no sign can be left over, and a sign behind an operand cannot have been
folded.
-/

namespace Reckon

namespace Kind

theorem isArithmetic_of_operator {k : Kind}
    (h : (k = .star ∨ k = .slash) ∨ k = .plus ∨ k = .minus) : k.isArithmetic = true := by
  rcases h with (h | h) | h | h <;> rw [h] <;> rfl

theorem priority_of_isArithmetic {k : Kind} (h : k.isArithmetic = true) :
    k.priority = 1 ∧ (k = .plus ∨ k = .minus) ∨ k.priority = 2 ∧ (k = .star ∨ k = .slash) := by
  cases k <;> simp_all [isArithmetic, priority]

theorem ne_of_isArithmetic {j k : Kind} (h : k.isArithmetic = true)
    (hj : j.isArithmetic = false) : k ≠ j := by
  intro hsame
  rw [hsame, hj] at h
  cases h

theorem opensOperand_of_isArithmetic {k : Kind} (h : k.isArithmetic = true) :
    k.opensOperand = true := by
  cases k <;> first | rfl | cases h

end Kind

namespace Token

variable {lang : Language}

/-!
# The tokens that a lexer emits
-/

/-- A token in the form that a lexer gives it: as it is written, or a number behind
a folded minus sign. -/
inductive Emitted (lang : Language) : Token -> Prop where
  | written {t : Token} : Written lang t -> Emitted lang t
  | negative {text : String} :
      lang.foldSigns = true -> lang.isOperator '-' = true -> Written lang ⟨.num, text⟩ ->
      Emitted lang ⟨.num, "-" ++ text⟩

theorem Written.isPlain {t : Token} (h : Written lang t) (ht : t.kind = .num) :
    Numeral.IsPlain t.text.toList := by
  cases h with
  | operator hc hk => exact absurd ht (Kind.ne_num_of_ofChar? hk)
  | number hplain _ => exact hplain

theorem Written.isOperator {t : Token} {c : Char} (h : Written lang t)
    (ht : t.kind.symbol? = some c) : lang.isOperator c = true := by
  cases h with
  | operator hc hk =>
      rw [Kind.ofChar?_eq_some_iff.mp hk, Option.some_inj] at ht
      rw [<- ht]
      exact hc
  | number => cases ht

theorem signed_of_minus {sign number : Token} (hsign : sign.kind = .minus) :
    signed sign number = ⟨.num, "-" ++ number.text⟩ := by
  simp [signed, hsign]

theorem signed_of_plus {sign number : Token} (hsign : sign.kind = .plus)
    (hnumber : number.kind = .num) : signed sign number = number := by
  cases number
  simp_all [signed]

theorem plus_or_minus_of_isSign {k : Kind} (h : k.isSign = true) : k = .plus ∨ k = .minus := by
  cases k <;> simp_all [Kind.isSign]

theorem FoldsTo.emitted {raw ts : List Token} (h : FoldsTo lang.foldSigns raw ts)
    (hraw : forall t : Token, t ∈ raw -> Written lang t) :
    forall t : Token, t ∈ ts -> Emitted lang t := by
  induction h with
  | nil => simp
  | keep _ ih =>
      rcases List.forall_mem_cons.mp hraw with ⟨ht, hrest⟩
      exact List.forall_mem_cons.mpr ⟨Emitted.written ht, ih hrest⟩
  | @sign sign number raw ts hfold hsign hnumber _ ih =>
      rcases List.forall_mem_cons.mp hraw with ⟨hwritten, hmore⟩
      rcases List.forall_mem_cons.mp hmore with ⟨ht, hrest⟩
      refine List.forall_mem_cons.mpr ⟨?_, ih hrest⟩
      rcases plus_or_minus_of_isSign hsign with hplus | hminus
      · rw [signed_of_plus hplus hnumber]
        exact Emitted.written ht
      · rw [signed_of_minus hminus]
        refine Emitted.negative hfold (hwritten.isOperator (by rw [hminus]; rfl)) ?_
        rw [<- hnumber]
        exact ht

theorem Emitted.written_of_ne_num {t : Token} (h : Emitted lang t) (ht : t.kind ≠ .num) :
    Written lang t := by
  cases h with
  | written hwritten => exact hwritten
  | negative => exact absurd rfl ht

end Token

namespace Lexer

open Token

variable {lang : Language}

theorem emitted_of_lex {text : String} {tokens : List Token}
    (h : lex lang text = .ok tokens) : forall t : Token, t ∈ tokens -> Emitted lang t := by
  rcases lex_eq_ok_iff_spells.mp h with ⟨_, raw, hraw, rfl⟩
  exact (foldsTo_resolve lang raw).emitted hraw.written

end Lexer

namespace Grammar

open Token

variable {bound : DigitBound} {lang : Language}

/-!
# Trees of texts
-/

theorem build_eq_ok_iff {text : String} {root : Expr} :
    build bound lang text = .done (.ok root) <->
      exists tokens : List Token,
        Lexer.lex lang text = .ok tokens ∧ Derives (Number bound) .expr tokens root := by
  unfold build
  cases hlex : Lexer.lex lang text with
  | error e => simp
  | ok tokens =>
      have hparse : parse bound tokens = .done (.ok root) <->
          Derives (Number bound) .expr tokens root :=
        parse_eq_ok_iff_derives
      simp only [Except.ok.injEq, exists_eq_left']
      rw [<- hparse]
      rcases parse bound tokens with parsed | fault | _
      · cases parsed with
        | error e =>
            show (Outcome.done (Except.error (Refusal.grammatical e)) : Outcome _) = _ <-> _
            simp
        | ok e =>
            show (Outcome.done (Except.ok e) : Outcome (Except Refusal Expr)) = _ <-> _
            simp
      · simp [Outcome.map]
      · simp [Outcome.map]

/-!
# Derivations without their levels
-/

/-- Where the levels of a derivation do not matter, it consists of operands, of
parentheses and of joined parts. -/
@[elab_as_elim]
theorem Derives.inductionOn {operand motive : List Token -> Expr -> Prop} {level : Level}
    {tokens : List Token} {e : Expr} (h : Derives operand level tokens e)
    (single : forall {ts : List Token} {e : Expr}, operand ts e -> motive ts e)
    (parens : forall {opening closing : Token} {ts : List Token} {e : Expr},
      opening.kind = .openParen -> closing.kind = .closeParen ->
        Derives operand .expr ts e -> motive ts e -> motive (opening :: ts ++ [closing]) e)
    (join : forall {op : Token} {front back : List Token} {left right : Expr} {level : Level},
      op.kind.isArithmetic = true -> Derives operand level front left ->
        motive front left -> motive back right ->
          motive (front ++ op :: back) (.join left op.kind right)) : motive tokens e := by
  induction h with
  | operand hoperand => exact single hoperand
  | parens hopening hclosing htokens ih => exact parens hopening hclosing htokens ih
  | factor _ ih => exact ih
  | multiply hop hfront _ ihfront ihback =>
      exact join (Kind.isArithmetic_of_operator (Or.inl hop)) hfront ihfront ihback
  | term _ ih => exact ih
  | add hop hfront _ ihfront ihback =>
      exact join (Kind.isArithmetic_of_operator (Or.inr hop)) hfront ihfront ihback

/-!
# Derivations and the length of numbers
-/

theorem Derives.readable {level : Level} {ts : List Token} {e : Expr}
    (h : Derives (Number bound) level ts e) : Readable bound ts := by
  refine h.inductionOn ?single ?parens ?join
  case single =>
      intro ts e hoperand
      cases hoperand with
      | mk _ hvalue => exact readable_cons_iff.mpr ⟨fun _ => ⟨_, hvalue⟩, readable_nil⟩
  case parens =>
      intro opening closing ts e hopening hclosing _ ih
      have hclosing : Readable bound [closing] := readable_nil.behind (by simp [hclosing])
      exact readable_append_iff.mpr ⟨ih.behind (by simp [hopening]), hclosing⟩
  case join =>
      intro op front back left right level hop _ ihfront ihback
      exact readable_append_iff.mpr ⟨ihfront, ihback.behind (Kind.ne_of_isArithmetic hop rfl)⟩

theorem Derives.imp {operand operand' : List Token -> Expr -> Prop} {P : Token -> Prop}
    (himp : forall (ts : List Token) (e : Expr),
      operand ts e -> (forall t : Token, t ∈ ts -> P t) -> operand' ts e)
    {level : Level} {ts : List Token} {e : Expr} (h : Derives operand level ts e)
    (hall : forall t : Token, t ∈ ts -> P t) : Derives operand' level ts e := by
  induction h with
  | operand hoperand => exact Derives.operand (himp _ _ hoperand hall)
  | parens hopening hclosing _ ih =>
      exact Derives.parens hopening hclosing (ih fun t ht => hall t (by simp [ht]))
  | factor _ ih => exact Derives.factor (ih hall)
  | multiply hop _ _ ihfront ihback =>
      exact Derives.multiply hop (ihfront fun t ht => hall t (by simp [ht]))
        (ihback fun t ht => hall t (by simp [ht]))
  | term _ ih => exact Derives.term (ih hall)
  | add hop _ _ ihfront ihback =>
      exact Derives.add hop (ihfront fun t ht => hall t (by simp [ht]))
        (ihback fun t ht => hall t (by simp [ht]))

/-- Whether tokens are derivable has to do with the length of numbers only as far as all of
them have to be read. -/
theorem derives_iff_unbounded {level : Level} {ts : List Token} {e : Expr} :
    Derives (Number bound) level ts e <->
      Derives (Number .unbounded) level ts e ∧ Readable bound ts := by
  constructor
  · intro h
    refine ⟨h.imp (fun us e hoperand _ => ?_) h.readable, h.readable⟩
    cases hoperand with
    | mk ht hread =>
        have hvalue := (Numeral.read_eq_ok_iff.mp hread).right
        exact Number.mk ht (Numeral.read_eq_ok_iff.mpr ⟨rfl, hvalue⟩)
  · rintro ⟨h, hreadable⟩
    refine h.imp (fun us e hoperand hus => ?_) hreadable
    cases hoperand with
    | mk ht hread =>
        rcases hus _ List.mem_cons_self ht with ⟨value, hvalue⟩
        have hsame := (Numeral.read_eq_ok_iff.mp hvalue).right
        rw [(Numeral.read_eq_ok_iff.mp hread).right, Option.some_inj] at hsame
        rw [hsame]
        exact Number.mk ht hvalue

/-!
# Derivations over folded signs
-/

theorem number_of_value {t : Token} {value : Int} (ht : t.kind = .num)
    (hvalue : Numeral.value? t.text = some value) :
    Number .unbounded [t] (.literal .num value t.text) :=
  Number.mk ht (Numeral.read_eq_ok_iff.mpr ⟨rfl, hvalue⟩)

theorem FoldsTo.readable_iff {fold : Bool} {raw ts : List Token} (h : FoldsTo fold raw ts)
    (hplain : forall t : Token, t ∈ raw -> t.kind = .num -> Numeral.IsPlain t.text.toList) :
    Readable bound ts <->
      forall t : Token, t ∈ raw -> t.kind = .num -> bound.Allows (Numeral.length t.text) := by
  induction h with
  | nil => simp [Readable]
  | @keep t raw ts _ ih =>
      rcases List.forall_mem_cons.mp hplain with ⟨ht, hrest⟩
      rw [readable_cons_iff, List.forall_mem_cons, ih hrest]
      exact and_congr_left fun _ =>
        forall_congr' fun hnum => Numeral.IsCanonical.exists_read_iff (Or.inl (ht hnum))
  | @sign sign number raw ts _ hsign hnumber _ ih =>
      rcases List.forall_mem_cons.mp hplain with ⟨_, hmore⟩
      rcases List.forall_mem_cons.mp hmore with ⟨hdigits, hrest⟩
      have hnum : sign.kind ≠ .num := by
        intro hsame
        rw [hsame] at hsign
        cases hsign
      have hread : (exists value : Int,
          Numeral.read bound (signed sign number).text = .ok value) <->
            bound.Allows (Numeral.length number.text) := by
        rcases plus_or_minus_of_isSign hsign with hplus | hminus
        · rw [signed_of_plus hplus hnumber]
          exact Numeral.IsCanonical.exists_read_iff (Or.inl (hdigits hnumber))
        · rw [signed_of_minus hminus, <- Numeral.length_minus (hdigits hnumber)]
          exact Numeral.IsCanonical.exists_read_iff
            (Or.inr ⟨_, Numeral.toList_minus _, hdigits hnumber⟩)
      rw [readable_cons_iff, List.forall_mem_cons, List.forall_mem_cons, ih hrest, hread]
      simp [hnum, hnumber, signed]

theorem Derives.folded {level : Level} {raw : List Token} {e : Expr}
    (h : Derives SignedNumber level raw e)
    (hplain : forall t : Token, t ∈ raw -> t.kind = .num -> Numeral.IsPlain t.text.toList) :
    exists ts : List Token, FoldsTo true raw ts ∧ Derives (Number .unbounded) level ts e := by
  induction h with
  | operand hoperand =>
      cases hoperand with
      | @plain t value ht hvalue =>
          exact ⟨[t], FoldsTo.refl true [t], Derives.operand (number_of_value ht hvalue)⟩
      | @plus sign t value hsign ht hvalue =>
          refine ⟨[signed sign t], FoldsTo.sign rfl (by simp [hsign, Kind.isSign]) ht
            FoldsTo.nil, ?_⟩
          rw [signed_of_plus hsign ht]
          exact Derives.operand (number_of_value ht hvalue)
      | @minus sign t value hsign ht hvalue =>
          refine ⟨[signed sign t], FoldsTo.sign rfl (by simp [hsign, Kind.isSign]) ht
            FoldsTo.nil, ?_⟩
          rw [signed_of_minus hsign]
          have hvalue' := Numeral.value?_minus (hplain t (by simp) ht) hvalue
          exact Derives.operand (number_of_value (t := ⟨.num, "-" ++ t.text⟩) rfl hvalue')
  | @parens opening closing tokens e hopening hclosing _ ih =>
      rcases ih fun t ht => hplain t (by simp [ht]) with ⟨ts, hfolds, hderives⟩
      exact ⟨opening :: ts ++ [closing],
        FoldsTo.keep (hfolds.append (FoldsTo.refl true [closing])),
        Derives.parens hopening hclosing hderives⟩
  | factor _ ih =>
      rcases ih hplain with ⟨ts, hfolds, hderives⟩
      exact ⟨ts, hfolds, Derives.factor hderives⟩
  | @multiply front back op left right hop _ _ ihfront ihback =>
      rcases ihfront fun t ht => hplain t (by simp [ht]) with ⟨ts, hfolds, hleft⟩
      rcases ihback fun t ht => hplain t (by simp [ht]) with ⟨us, hfolds', hright⟩
      exact ⟨ts ++ op :: us, hfolds.append (FoldsTo.keep hfolds'),
        Derives.multiply hop hleft hright⟩
  | term _ ih =>
      rcases ih hplain with ⟨ts, hfolds, hderives⟩
      exact ⟨ts, hfolds, Derives.term hderives⟩
  | @add front back op left right hop _ _ ihfront ihback =>
      rcases ihfront fun t ht => hplain t (by simp [ht]) with ⟨ts, hfolds, hleft⟩
      rcases ihback fun t ht => hplain t (by simp [ht]) with ⟨us, hfolds', hright⟩
      exact ⟨ts ++ op :: us, hfolds.append (FoldsTo.keep hfolds'), Derives.add hop hleft hright⟩

theorem FoldsTo.split_operator {fold : Bool} {raw front back : List Token} {op : Token}
    (hop : op.kind ≠ .num) (h : FoldsTo fold raw (front ++ op :: back)) :
    exists rawFront : List Token, exists rawBack : List Token,
      raw = rawFront ++ op :: rawBack ∧ FoldsTo fold rawFront front ∧
        FoldsTo fold rawBack back := by
  rcases h.split with ⟨rawFront, tail, rfl, hfront, htail⟩
  rcases htail.cons_of_ne_num hop with ⟨rawBack, rfl, hback⟩
  exact ⟨rawFront, rawBack, rfl, hfront, hback⟩

theorem FoldsTo.split_parens {fold : Bool} {raw tokens : List Token} {opening closing : Token}
    (hopening : opening.kind = .openParen) (hclosing : closing.kind = .closeParen)
    (h : FoldsTo fold raw (opening :: tokens ++ [closing])) :
    exists inner : List Token, raw = opening :: inner ++ [closing] ∧ FoldsTo fold inner tokens := by
  rcases h.cons_of_ne_num (by simp [hopening]) with ⟨tail, rfl, htail⟩
  rcases FoldsTo.split_operator (by simp [hclosing]) htail with ⟨inner, rest, rfl, hinner, hrest⟩
  exact ⟨inner, by simp [hrest.nil_eq], hinner⟩

theorem Derives.unfolded {level : Level} {raw ts : List Token} {e : Expr}
    (h : Derives (Number .unbounded) level ts e) (hfolds : FoldsTo true raw ts)
    (hplain : forall t : Token, t ∈ raw -> t.kind = .num -> Numeral.IsPlain t.text.toList) :
    Derives SignedNumber level raw e := by
  induction h generalizing raw with
  | operand hoperand =>
      cases hoperand with
      | @mk t value ht hread =>
          have hvalue := (Numeral.read_eq_ok_iff.mp hread).right
          apply Derives.operand
          cases hfolds with
          | keep htail =>
              rw [htail.nil_eq]
              exact SignedNumber.plain ht hvalue
          | @sign sign number tail _ _ hsign hnumber htail =>
              rw [htail.nil_eq]
              rcases plus_or_minus_of_isSign hsign with hplus | hminus
              · rw [signed_of_plus hplus hnumber] at hvalue ⊢
                exact SignedNumber.plus hplus hnumber hvalue
              · have hnumberPlain := hplain number (by simp) hnumber
                have hn := Numeral.value?_of_isPlain hnumberPlain
                rw [signed_of_minus hminus] at hvalue ⊢
                rw [Numeral.value?_minus hnumberPlain hn, Option.some_inj] at hvalue
                rw [<- hvalue]
                exact SignedNumber.minus hminus hnumber hn
  | parens hopening hclosing _ ih =>
      rcases FoldsTo.split_parens hopening hclosing hfolds with ⟨inner, rfl, hinner⟩
      exact Derives.parens hopening hclosing (ih hinner fun t ht => hplain t (by simp [ht]))
  | factor _ ih => exact Derives.factor (ih hfolds hplain)
  | multiply hop _ _ ihfront ihback =>
      have hnum := Kind.ne_of_isArithmetic (j := .num)
        (Kind.isArithmetic_of_operator (Or.inl hop)) rfl
      rcases FoldsTo.split_operator hnum hfolds with ⟨rawFront, rawBack, rfl, hfront, hback⟩
      exact Derives.multiply hop (ihfront hfront fun t ht => hplain t (by simp [ht]))
        (ihback hback fun t ht => hplain t (by simp [ht]))
  | term _ ih => exact Derives.term (ih hfolds hplain)
  | add hop _ _ ihfront ihback =>
      have hnum := Kind.ne_of_isArithmetic (j := .num)
        (Kind.isArithmetic_of_operator (Or.inr hop)) rfl
      rcases FoldsTo.split_operator hnum hfolds with ⟨rawFront, rawBack, rfl, hfront, hback⟩
      exact Derives.add hop (ihfront hfront fun t ht => hplain t (by simp [ht]))
        (ihback hback fun t ht => hplain t (by simp [ht]))

/-!
# The choice of signs is forced
-/

theorem lastKind_append (front : List Token) (op : Token) (back : List Token)
    (before : Option Kind) :
    ((front ++ op :: back).getLast?.map Token.kind).or before =
      (back.getLast?.map Token.kind).or (some op.kind) := by
  induction front generalizing before with
  | nil => exact lastKind_cons op back before
  | cons t rest ih => rw [List.cons_append, lastKind_cons, ih]

theorem Derives.not_atOperand_last {level : Level} {ts : List Token} {e : Expr}
    (h : Derives (Number bound) level ts e) :
    forall before : Option Kind, atOperand ((ts.getLast?.map Token.kind).or before) = false := by
  refine h.inductionOn ?single ?parens ?join
  case single =>
      intro ts e hoperand before
      cases hoperand with
      | mk ht _ => simp [ht, atOperand, Kind.opensOperand]
  case parens =>
      intro opening closing ts e _ hclosing _ _ before
      rw [lastKind_append (opening :: ts) closing [] before, hclosing]
      rfl
  case join =>
      intro op front back left right level _ _ _ ihback before
      rw [lastKind_append front op back before]
      exact ihback (some op.kind)

theorem foldSignsAfter_operator {before : Option Kind} {op : Token}
    {rawFront rawBack front back : List Token} (hop : op.kind ≠ .num)
    (hlast : atOperand ((rawFront.getLast?.map Token.kind).or before) = false)
    (hfront : foldSignsAfter before rawFront = front)
    (hback : foldSignsAfter (some op.kind) rawBack = back) :
    foldSignsAfter before (rawFront ++ op :: rawBack) = front ++ op :: back := by
  have hhead : forall t : Token, (op :: rawBack).head? = some t -> t.kind ≠ .num := by
    intro t ht
    obtain rfl : op = t := by simpa using ht
    exact hop
  rw [foldSignsAfter_append before rawFront (op :: rawBack) hhead, hfront,
    foldSignsAfter_cons (by rw [hlast, Bool.and_false]), hback]

theorem Derives.foldSignsAfter_eq {level : Level} {ts : List Token} {e : Expr}
    (h : Derives (Number bound) level ts e) :
    forall (raw : List Token) (before : Option Kind),
      FoldsTo true raw ts -> atOperand before = true -> foldSignsAfter before raw = ts := by
  refine h.inductionOn ?single ?parens ?join
  case single =>
      intro ts e hoperand raw before hfolds hbefore
      cases hoperand with
      | @mk t _ ht _ =>
          cases hfolds with
          | keep htail =>
              rw [htail.nil_eq]
              rfl
          | sign _ hsign hnumber htail =>
              rw [htail.nil_eq]
              exact foldSignsAfter_sign hsign hnumber hbefore []
  case parens =>
      intro opening closing ts e hopening hclosing hts ih raw before hfolds _
      rcases FoldsTo.split_parens hopening hclosing hfolds with ⟨inner, rfl, hinner⟩
      have hopens : atOperand (some opening.kind) = true := by
        rw [hopening]
        rfl
      have hlast : atOperand ((inner.getLast?.map Token.kind).or (some opening.kind)) = false := by
        rw [hinner.lastKind_eq]
        exact hts.not_atOperand_last (some opening.kind)
      rw [List.cons_append, List.cons_append,
        foldSignsAfter_cons (by rw [hopening]; rfl) (inner ++ [closing])]
      refine congrArg (List.cons opening) ?_
      exact foldSignsAfter_operator (by simp [hclosing]) hlast (ih inner _ hinner hopens) rfl
  case join =>
      intro op front back left right level hop hleft ihfront ihback raw before hfolds hbefore
      have hnum : op.kind ≠ .num := Kind.ne_of_isArithmetic hop rfl
      rcases FoldsTo.split_operator hnum hfolds with ⟨rawFront, rawBack, rfl, hfront, hback⟩
      -- the operator itself stays, since the operand in front of it has ended
      have hlast : atOperand ((rawFront.getLast?.map Token.kind).or before) = false := by
        rw [hfront.lastKind_eq]
        exact hleft.not_atOperand_last before
      exact foldSignsAfter_operator hnum hlast (ihfront rawFront before hfront hbefore)
        (ihback rawBack _ hback (Kind.opensOperand_of_isArithmetic hop))

theorem Derives.resolve_eq {level : Level} {raw ts : List Token} {e : Expr}
    (h : Derives (Number bound) level ts e) (hfolds : FoldsTo lang.foldSigns raw ts) :
    lang.resolve raw = ts := by
  unfold Language.resolve
  cases hfold : lang.foldSigns with
  | false =>
      rw [hfold] at hfolds
      exact hfolds.eq_of_unfolded
  | true =>
      rw [hfold] at hfolds
      exact h.foldSignsAfter_eq raw none hfolds rfl

end Grammar
end Reckon
