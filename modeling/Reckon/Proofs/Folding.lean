import Reckon.Proofs.Scanning
import Reckon.Token.Folding

/-!
# Signs are folded by their neighbours

While it reads, the lexer decides about a sign by looking at the tokens that it
has already folded.  The main statements say that this comes to the same as the
rule that looks at neighbours in the unfolded tokens only, and therefore that the
tokens of a text are its spelled tokens with all signs folded at once.

`FoldsTo` relates tokens to what any choice of folded signs makes of them.
-/

namespace Reckon
namespace Token

variable {lang : Language}

/-!
# One rule for whole lists
-/

theorem atOperand_map_kind (found : List Token) :
    atOperand (found.head?.map Token.kind) = found.head?.all fun t => t.kind.opensOperand := by
  cases found <;> rfl

theorem foldSignsAfter_cons {before : Option Kind} {t : Token}
    (h : (t.kind.isSign && atOperand before) = false) (ts : List Token) :
    foldSignsAfter before (t :: ts) = t :: foldSignsAfter (some t.kind) ts := by
  cases ts with
  | nil => rfl
  | cons u rest =>
      have hcondition :
          (t.kind.isSign && decide (u.kind = .num) && atOperand before) = false := by
        rw [Bool.and_right_comm, h, Bool.false_and]
      rw [foldSignsAfter, hcondition, if_neg Bool.false_ne_true]

theorem foldSignsAfter_cons_of_next {before : Option Kind} {t u : Token} (hu : u.kind ≠ .num)
    (ts : List Token) :
    foldSignsAfter before (t :: u :: ts) = t :: foldSignsAfter (some t.kind) (u :: ts) := by
  rw [foldSignsAfter]
  simp [hu]

theorem foldSignsAfter_sign {before : Option Kind} {sign number : Token}
    (hsign : sign.kind.isSign = true) (hnumber : number.kind = .num)
    (hbefore : atOperand before = true) (ts : List Token) :
    foldSignsAfter before (sign :: number :: ts) =
      signed sign number :: foldSignsAfter (some .num) ts := by
  rw [foldSignsAfter]
  simp [hsign, hnumber, hbefore]

@[simp] theorem lastKind_cons (t : Token) (ts : List Token) (before : Option Kind) :
    ((t :: ts).getLast?.map Token.kind).or before =
      (ts.getLast?.map Token.kind).or (some t.kind) := by
  rw [List.getLast?_cons]
  cases ts.getLast? <;> rfl

theorem foldSignsAfter_append (before : Option Kind) (front back : List Token)
    (hback : forall t : Token, back.head? = some t -> t.kind ≠ .num) :
    foldSignsAfter before (front ++ back) =
      foldSignsAfter before front ++
        foldSignsAfter ((front.getLast?.map Token.kind).or before) back := by
  fun_induction foldSignsAfter before front with
  | case1 before sign number rest hfolds ih =>
      simp only [Bool.and_eq_true, decide_eq_true_eq] at hfolds
      rw [List.cons_append, List.cons_append,
        foldSignsAfter_sign hfolds.left.left hfolds.left.right hfolds.right, ih,
        lastKind_cons, lastKind_cons, hfolds.left.right]
      rfl
  | case2 before sign number rest hfolds ih =>
      have hkeeps : foldSignsAfter before (sign :: number :: (rest ++ back)) =
          sign :: foldSignsAfter (some sign.kind) (number :: rest ++ back) := by
        rw [foldSignsAfter, if_neg hfolds]
        rfl
      rw [List.cons_append, List.cons_append, hkeeps, ih, lastKind_cons sign]
      rfl
  | case3 before tokens hshort =>
      cases tokens with
      | nil => rfl
      | cons t ts =>
          cases ts with
          | nil =>
              cases back with
              | nil => rfl
              | cons u us => exact foldSignsAfter_cons_of_next (hback u rfl) us
          | cons u us => exact absurd rfl (hshort t u us)

/-!
# What the lexer pushes
-/

end Token

namespace Lexer

open Token

variable {lang : Language}

theorem push_operator {found : List Token} {t : Token} {k : Kind}
    (hk : Kind.ofText? t.text = some k) (ht : t.kind = k) :
      push lang found t.text = t :: found := by
  simp only [push, hk]
  rw [<- ht]

theorem push_number {found : List Token} {text : String} (hnumber : Kind.ofText? text = none) :
    push lang found text =
      ⟨.num, (foldSign lang found text).1⟩ :: (foldSign lang found text).2 := by
  simp only [push, hnumber]

theorem ofText?_of_isPlain {text : String} (h : Numeral.IsPlain text.toList) :
    Kind.ofText? text = none := by
  unfold Kind.ofText?
  split
  · rename_i c hchars
    cases hkind : Kind.ofChar? c with
    | none => rfl
    | some k => exact absurd (h.digits c (by simp [hchars])) (Kind.not_digit_of_ofChar? hkind)
  · rfl

theorem foldSign_of_not_waits {found : List Token} (h : signWaits found = false)
    (text : String) : foldSign lang found text = (text, found) := by
  unfold foldSign
  split
  · rfl
  · simp [h]

theorem push_written {found : List Token} {t : Token} (ht : Written lang t)
    (hwaits : t.kind = .num -> lang.foldSigns = false ∨ signWaits found = false) :
    push lang found t.text = t :: found := by
  cases ht with
  | operator hc hk => exact push_operator (by rw [Kind.ofText?_singleton, hk]) rfl
  | @number text hplain hblank =>
      rw [push_number (ofText?_of_isPlain hplain)]
      rcases hwaits rfl with hfold | hwaits
      · have hkept : foldSign lang found text = (text, found) := by
          unfold foldSign
          split
          · rfl
          · simp [hfold]
        rw [hkept]
      · rw [foldSign_of_not_waits hwaits]

theorem emit_unfolded (hfold : lang.foldSigns = false) {ts : List Token}
    (hts : forall t : Token, t ∈ ts -> Written lang t) (found : List Token) :
    (emit lang found ts).reverse = found.reverse ++ ts := by
  induction ts generalizing found with
  | nil => simp [emit]
  | cons t rest ih =>
      rw [emit_cons, push_written (hts t List.mem_cons_self) fun _ => Or.inl hfold,
        ih fun u hu => hts u (List.mem_cons_of_mem t hu)]
      simp

theorem signWaits_cons (sign : Token) (found : List Token) :
    signWaits (sign :: found) =
      (sign.kind.isSign && atOperand (found.head?.map Token.kind)) := by
  rw [signWaits, atOperand_map_kind]

theorem push_signed (hfold : lang.foldSigns = true) {sign number : Token} {found : List Token}
    (hnumber : Written lang number) (hkind : number.kind = .num)
    (hwaits : signWaits (sign :: found) = true) :
    push lang (sign :: found) number.text = signed sign number :: found := by
  cases hnumber with
  | operator hc hk => exact absurd hkind (Kind.ne_num_of_ofChar? hk)
  | @number text hplain hblank =>
      rw [push_number (ofText?_of_isPlain hplain)]
      simp [foldSign, hfold, hwaits, signed]

/-- Reading tokens behind others folds what the rule on neighbours folds, unless the
first of them goes into a sign that waits. -/
theorem emit_folded (hfold : lang.foldSigns = true) {ts : List Token}
    (hts : forall t : Token, t ∈ ts -> Written lang t) (found : List Token)
    (hfirst : forall t : Token, ts.head? = some t -> t.kind = .num -> signWaits found = false) :
    (emit lang found ts).reverse =
      found.reverse ++ foldSignsAfter (found.head?.map Token.kind) ts := by
  generalize hbefore : found.head?.map Token.kind = before
  fun_induction foldSignsAfter before ts generalizing found with
  | case1 before sign number rest hfolds ih =>
      simp only [Bool.and_eq_true, decide_eq_true_eq] at hfolds
      have hsign := hts sign (by simp)
      have hnumber := hts number (by simp)
      have hwaits : signWaits (sign :: found) = true := by
        rw [signWaits_cons, hbefore, hfolds.left.left, hfolds.right]
        rfl
      have hnotNum : sign.kind = .num -> lang.foldSigns = false ∨ signWaits found = false := by
        intro hnum
        rw [hnum] at hfolds
        cases hfolds.left.left
      rw [emit_cons, push_written hsign hnotNum, emit_cons,
        push_signed hfold hnumber hfolds.left.right hwaits,
        ih (fun t ht => hts t (by simp [ht])) (signed sign number :: found) (fun _ _ _ => rfl) rfl]
      simp
  | case2 before sign number rest hfolds ih =>
      have hsign := hts sign (by simp)
      have hfirst' : forall t : Token, (number :: rest).head? = some t -> t.kind = .num ->
          signWaits (sign :: found) = false := by
        intro t ht hnum
        obtain rfl : number = t := by simpa using ht
        rw [signWaits_cons, hbefore]
        simpa [hnum] using hfolds
      rw [emit_cons, push_written hsign fun hnum => Or.inr (hfirst sign rfl hnum),
        ih (fun t ht => hts t (List.mem_cons_of_mem sign ht)) (sign :: found) hfirst' rfl]
      simp
  | case3 before tokens hshort =>
      cases tokens with
      | nil => simp [emit]
      | cons t ts =>
          cases ts with
          | nil =>
              rw [emit_cons, push_written (hts t List.mem_cons_self)
                fun hnum => Or.inr (hfirst t rfl hnum)]
              simp [emit]
          | cons u us => exact absurd rfl (hshort t u us)

/-!
# The tokens of a text
-/

end Lexer

def Language.resolve (lang : Language) (raw : List Token) : List Token :=
  if lang.foldSigns then Token.foldSigns raw else raw

@[simp] theorem Language.resolve_nil (lang : Language) : lang.resolve [] = [] := by
  unfold resolve
  split <;> rfl

@[simp] theorem Language.resolve_singleton (lang : Language) (t : Token) :
    lang.resolve [t] = [t] := by
  unfold resolve
  split <;> rfl

namespace Lexer

open Token

variable {lang : Language}

@[simp] theorem resolve_withFoldSigns_false (raw : List Token) :
    (lang.withFoldSigns false).resolve raw = raw :=
  rfl

theorem emit_eq_resolve {raw : List Token}
    (hraw : forall t : Token, t ∈ raw -> Written lang t) :
    (emit lang [] raw).reverse = lang.resolve raw := by
  unfold Language.resolve
  cases hfold : lang.foldSigns with
  | false => exact emit_unfolded hfold hraw []
  | true => exact emit_folded hfold hraw [] fun _ _ _ => rfl

theorem lex_eq_ok_iff_spells {text : String} {tokens : List Token} :
    lex lang text = .ok tokens <->
      text ≠ "" ∧ exists raw : List Token,
        Spells lang text.toList raw ∧ lang.resolve raw = tokens := by
  rw [lex_eq_ok_iff]
  constructor
  · rintro ⟨htext, raw, hraw, hemit⟩
    exact ⟨htext, raw, hraw, by rw [<- emit_eq_resolve hraw.written, hemit]⟩
  · rintro ⟨htext, raw, hraw, hresolve⟩
    exact ⟨htext, raw, hraw, by rw [emit_eq_resolve hraw.written, hresolve]⟩

theorem lex_written {t : Token} (h : Written lang t) : lex lang t.text = .ok [t] :=
  lex_eq_ok_iff_spells.mpr ⟨h.text_ne_empty, [t], h.spells, lang.resolve_singleton t⟩

theorem lex_withFoldSigns_false_eq_ok_iff {text : String} {raw : List Token} :
    lex (lang.withFoldSigns false) text = .ok raw <->
      text ≠ "" ∧ Spells lang text.toList raw := by
  rw [lex_eq_ok_iff_spells]
  simp only [spells_withFoldSigns, resolve_withFoldSigns_false, exists_eq_right]

end Lexer

namespace Token

/-!
# Any choice of folded signs
-/

/-- Tokens after some of the signs directly before numbers have been folded, or none
if signs are not folded at all. -/
inductive FoldsTo (fold : Bool) : List Token -> List Token -> Prop where
  | nil : FoldsTo fold [] []
  | keep {t : Token} {raw ts : List Token} :
      FoldsTo fold raw ts -> FoldsTo fold (t :: raw) (t :: ts)
  | sign {sign number : Token} {raw ts : List Token} :
      fold = true -> sign.kind.isSign = true -> number.kind = .num -> FoldsTo fold raw ts ->
      FoldsTo fold (sign :: number :: raw) (signed sign number :: ts)

theorem FoldsTo.refl (fold : Bool) (ts : List Token) : FoldsTo fold ts ts := by
  induction ts with
  | nil => exact FoldsTo.nil
  | cons t rest ih => exact FoldsTo.keep ih

theorem FoldsTo.append {fold : Bool} {raw more ts others : List Token}
    (h : FoldsTo fold raw ts) (hmore : FoldsTo fold more others) :
    FoldsTo fold (raw ++ more) (ts ++ others) := by
  induction h with
  | nil => exact hmore
  | keep _ ih => exact FoldsTo.keep ih
  | sign hfold hsign hnumber _ ih => exact FoldsTo.sign hfold hsign hnumber ih

theorem FoldsTo.split {fold : Bool} {raw front back : List Token}
    (h : FoldsTo fold raw (front ++ back)) :
    exists rawFront : List Token, exists rawBack : List Token,
      raw = rawFront ++ rawBack ∧ FoldsTo fold rawFront front ∧ FoldsTo fold rawBack back := by
  induction front generalizing raw with
  | nil => exact ⟨[], raw, rfl, FoldsTo.nil, h⟩
  | cons t rest ih =>
      cases h with
      | @keep _ tail _ htail =>
          rcases ih htail with ⟨rawFront, rawBack, rfl, hfront, hback⟩
          exact ⟨t :: rawFront, rawBack, rfl, FoldsTo.keep hfront, hback⟩
      | @sign sign number tail _ hfold hsign hnumber htail =>
          rcases ih htail with ⟨rawFront, rawBack, rfl, hfront, hback⟩
          exact ⟨sign :: number :: rawFront, rawBack, rfl,
            FoldsTo.sign hfold hsign hnumber hfront, hback⟩

theorem FoldsTo.cons_of_ne_num {fold : Bool} {raw ts : List Token} {t : Token}
    (h : FoldsTo fold raw (t :: ts)) (ht : t.kind ≠ .num) :
    exists tail : List Token, raw = t :: tail ∧ FoldsTo fold tail ts := by
  cases h with
  | keep htail => exact ⟨_, rfl, htail⟩
  | sign => exact absurd rfl ht

theorem FoldsTo.nil_eq {fold : Bool} {raw : List Token} (h : FoldsTo fold raw []) :
    raw = [] := by
  cases h
  rfl

theorem FoldsTo.eq_of_unfolded {raw ts : List Token} (h : FoldsTo false raw ts) : raw = ts := by
  induction h with
  | nil => rfl
  | keep _ ih => rw [ih]
  | sign hfold => cases hfold

theorem FoldsTo.lastKind_eq {fold : Bool} {raw ts : List Token} (h : FoldsTo fold raw ts)
    (before : Option Kind) :
    (raw.getLast?.map Token.kind).or before = (ts.getLast?.map Token.kind).or before := by
  induction h generalizing before with
  | nil => rfl
  | keep _ ih => rw [lastKind_cons, lastKind_cons, ih]
  | sign _ _ hnumber _ ih => rw [lastKind_cons, lastKind_cons, lastKind_cons, ih, hnumber]; rfl

theorem foldsTo_foldSignsAfter (before : Option Kind) (raw : List Token) :
    FoldsTo true raw (foldSignsAfter before raw) := by
  fun_induction foldSignsAfter before raw with
  | case1 before sign number rest hfolds ih =>
      simp only [Bool.and_eq_true, decide_eq_true_eq] at hfolds
      exact FoldsTo.sign rfl hfolds.left.left hfolds.left.right ih
  | case2 before sign number rest hfolds ih => exact FoldsTo.keep ih
  | case3 before tokens hshort => exact FoldsTo.refl true tokens

theorem foldsTo_resolve (lang : Language) (raw : List Token) :
    FoldsTo lang.foldSigns raw (lang.resolve raw) := by
  unfold Language.resolve
  cases lang.foldSigns with
  | false => exact FoldsTo.refl false raw
  | true => exact foldsTo_foldSignsAfter none raw

end Token
end Reckon
