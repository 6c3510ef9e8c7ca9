import Reckon.Proofs.Numerals
import Reckon.Token.Spelling

/-!
# How a text spells tokens

The first character of a spelled text decides how the text goes on: a blank adds
nothing, an operator is a token, and a digit starts a number that reaches as far
as there are digits.  Spellings can be put one behind the other as long as no two
numbers touch.
-/

namespace Reckon

namespace Kind

theorem ne_num_of_ofChar? {c : Char} {k : Kind} (h : ofChar? c = some k) : k ≠ num := by
  intro hnum
  have hsymbol := ofChar?_eq_some_iff.mp h
  simp [hnum, symbol?] at hsymbol

theorem not_digit_of_ofChar? {c : Char} {k : Kind} (h : ofChar? c = some k) :
    ¬ ('0' ≤ c ∧ c ≤ '9') := by
  have hsymbol := ofChar?_eq_some_iff.mp h
  cases k <;> simp [symbol?] at hsymbol <;> subst hsymbol <;> decide

end Kind

namespace Language

/-!
# Classes of characters
-/

def isDigit (lang : Language) (c : Char) : Bool :=
  decide ('0' ≤ c ∧ c ≤ '9') && !lang.isBlank c

theorem isOperator_iff {lang : Language} {c : Char} :
    lang.isOperator c = true <-> c ∈ lang.operators.toList := by
  simp [isOperator]

theorem isBlank_iff {lang : Language} {c : Char} :
    lang.isBlank c = true <-> c ∈ lang.whitespace.toList := by
  simp [isBlank]

theorem isDigit_iff {lang : Language} {c : Char} :
    lang.isDigit c = true <-> ('0' ≤ c ∧ c ≤ '9') ∧ lang.isBlank c = false := by
  simp [isDigit]

theorem ofChar?_of_isOperator {lang : Language} {c : Char} (h : lang.isOperator c = true) :
    exists k : Kind, Kind.ofChar? c = some k :=
  Option.isSome_iff_exists.mp
    (lang.operators_known c (isOperator_iff.mp h))

theorem not_isBlank_of_isOperator {lang : Language} {c : Char}
    (h : lang.isOperator c = true) : lang.isBlank c = false := by
  have hapart := lang.operators_apart c (isOperator_iff.mp h)
  rw [Bool.eq_false_iff, ne_eq, isBlank_iff]
  exact hapart

theorem not_isDigit_of_isOperator {lang : Language} {c : Char}
    (h : lang.isOperator c = true) : lang.isDigit c = false := by
  rcases ofChar?_of_isOperator h with ⟨k, hk⟩
  have hdigit := Kind.not_digit_of_ofChar? hk
  simp only [isDigit, hdigit, decide_false, Bool.false_and]

inductive Classed (lang : Language) (c : Char) : CharClass -> Prop where
  | operator : lang.isOperator c = true -> Classed lang c .operator
  | blank : lang.isBlank c = true -> Classed lang c .blank
  | zero : lang.isDigit c = true -> c = '0' -> Classed lang c .zero
  | nonzero : lang.isDigit c = true -> '1' ≤ c ∧ c ≤ '9' -> Classed lang c .nonzero
  | other :
      lang.isOperator c = false -> lang.isBlank c = false -> lang.isDigit c = false ->
      Classed lang c .other

theorem classed (lang : Language) (c : Char) : Classed lang c (lang.classOf c) := by
  unfold classOf
  split
  · exact Classed.operator (by assumption)
  · rename_i hoperator
    split
    · exact Classed.blank (by assumption)
    · rename_i hblank
      have hnotBlank : lang.isBlank c = false := by simpa using hblank
      split
      · rename_i hzero
        exact Classed.zero (isDigit_iff.mpr ⟨by rw [hzero]; decide, hnotBlank⟩) hzero
      · rename_i hzero
        split
        · rename_i hnonzero
          exact Classed.nonzero
            (isDigit_iff.mpr ⟨Numeral.digit_of_nonzero hnonzero, hnotBlank⟩) hnonzero
        · rename_i hnonzero
          refine Classed.other (by simpa using hoperator) hnotBlank ?_
          cases hdigit : lang.isDigit c with
          | false => rfl
          | true =>
              have hcases := Numeral.eq_zero_or_nonzero (isDigit_iff.mp hdigit).left
              exact absurd hcases (by simp [hzero, hnonzero])

end Language

namespace Token

variable {lang : Language}

/-!
# Runs of digits
-/

def Digits (lang : Language) (cs : List Char) : Prop :=
  forall c : Char, c ∈ cs -> lang.isDigit c = true

/-- No run of digits goes on into these characters. -/
def Stops (lang : Language) (cs : List Char) : Prop :=
  forall c : Char, cs.head? = some c -> lang.isDigit c = false

theorem digits_of_isPlain {cs : List Char} (hplain : Numeral.IsPlain cs)
    (hblank : forall c : Char, c ∈ cs -> lang.isBlank c = false) : Digits lang cs := by
  intro c hc
  exact Language.isDigit_iff.mpr ⟨hplain.digits c hc, hblank c hc⟩

theorem append_inj_of_class {p : Char -> Bool} {front front' back back' : List Char}
    (hfront : forall c : Char, c ∈ front -> p c = true)
    (hfront' : forall c : Char, c ∈ front' -> p c = true)
    (hback : forall c : Char, back.head? = some c -> p c = false)
    (hback' : forall c : Char, back'.head? = some c -> p c = false)
    (heq : front ++ back = front' ++ back') : front = front' ∧ back = back' := by
  induction front generalizing front' with
  | nil =>
      cases front' with
      | nil => exact ⟨rfl, heq⟩
      | cons d rest =>
          have hinside := hfront' d List.mem_cons_self
          rw [hback d (by simpa using congrArg List.head? heq)] at hinside
          cases hinside
  | cons c rest ih =>
      cases front' with
      | nil =>
          have hinside := hfront c List.mem_cons_self
          rw [hback' c (by simpa using congrArg List.head? heq.symm)] at hinside
          cases hinside
      | cons d rest' =>
          rcases List.cons.inj heq with ⟨hhead, htail⟩
          obtain ⟨hrest, hmore⟩ :=
            ih (fun e he => hfront e (List.mem_cons_of_mem c he))
              (fun e he => hfront' e (List.mem_cons_of_mem d he)) htail
          exact ⟨by rw [hhead, hrest], hmore⟩

/-!
# The first token
-/

theorem Written.first {t : Token} (h : Written lang t) :
    exists c : Char, exists rest : List Char,
      t.text.toList = c :: rest ∧ lang.isBlank c = false ∧
        (lang.isDigit c = true -> t.kind = .num) := by
  cases h with
  | @operator c k hoperator hkind =>
      refine ⟨c, [], String.toList_singleton c, Language.not_isBlank_of_isOperator hoperator, ?_⟩
      intro hdigit
      rw [Language.not_isDigit_of_isOperator hoperator] at hdigit
      cases hdigit
  | @number text hplain hblank =>
      cases htext : text.toList with
      | nil => exact absurd htext hplain.ne_nil
      | cons c rest => exact ⟨c, rest, rfl, hblank c (by simp [htext]), fun _ => rfl⟩

theorem Written.text_ne_empty {t : Token} (h : Written lang t) : t.text ≠ "" := by
  rcases h.first with ⟨c, rest, htext, _, _⟩
  intro hempty
  rw [hempty] at htext
  cases htext

def Kept (lang : Language) (t : Token) (rest : List Token) (more : List Char) : Prop :=
  RunTogether t rest -> exists c : Char, more.head? = some c ∧ lang.isBlank c = true

theorem Spells.cons {t : Token} {more : List Char} {rest : List Token} (ht : Written lang t)
    (h : Spells lang more rest) (hkept : Kept lang t rest more) :
    Spells lang (t.text.toList ++ more) (t :: rest) := by
  have hgap : IsGap lang [] := by simp [IsGap]
  exact Spells.token hgap ht h hkept

theorem spells_blank {b : Char} (hb : lang.isBlank b = true) {cs : List Char}
    {ts : List Token} : Spells lang (b :: cs) ts <-> Spells lang cs ts := by
  constructor
  · intro h
    generalize hcs : b :: cs = text at h
    cases h with
    | done hgap =>
        subst hcs
        exact Spells.done fun c hc => hgap c (List.mem_cons_of_mem b hc)
    | @token gap more t rest hgap ht hmore hkept =>
        cases gap with
        | nil =>
            rcases ht.first with ⟨c, tail, htext, hblank, _⟩
            rw [htext] at hcs
            rcases List.cons.inj hcs with ⟨rfl, _⟩
            rw [hb] at hblank
            cases hblank
        | cons c gap =>
            rcases List.cons.inj hcs with ⟨_, rfl⟩
            exact Spells.token (fun d hd => hgap d (List.mem_cons_of_mem c hd)) ht hmore hkept
  · intro h
    cases h with
    | done hgap => exact Spells.done (List.forall_mem_cons.mpr ⟨hb, hgap⟩)
    | @token gap more t rest hgap ht hmore hkept =>
        have hlonger : IsGap lang (b :: gap) := List.forall_mem_cons.mpr ⟨hb, hgap⟩
        exact Spells.token hlonger ht hmore hkept

theorem spells_gap {gap : List Char} (hgap : IsGap lang gap) {cs : List Char}
    {ts : List Token} : Spells lang (gap ++ cs) ts <-> Spells lang cs ts := by
  induction gap with
  | nil => exact Iff.rfl
  | cons b rest ih =>
      exact (spells_blank (hgap b List.mem_cons_self)).trans
        (ih fun c hc => hgap c (List.mem_cons_of_mem b hc))

theorem Spells.first {c : Char} {cs : List Char} {ts : List Token}
    (h : Spells lang (c :: cs) ts) (hc : lang.isBlank c = false) :
    exists t : Token, exists rest : List Token, exists more : List Char,
      ts = t :: rest ∧ Written lang t ∧ c :: cs = t.text.toList ++ more ∧
        Spells lang more rest ∧ Kept lang t rest more := by
  generalize hcs : c :: cs = text at h
  cases h with
  | done hgap =>
      subst hcs
      rw [hgap c List.mem_cons_self] at hc
      cases hc
  | @token gap more t rest hgap ht hmore hkept =>
      cases gap with
      | nil => exact ⟨t, rest, more, rfl, ht, rfl, hmore, hkept⟩
      | cons d gap =>
          rcases List.cons.inj hcs with ⟨rfl, _⟩
          rw [hgap c List.mem_cons_self] at hc
          cases hc

@[simp] theorem spells_nil {ts : List Token} : Spells lang [] ts <-> ts = [] := by
  constructor
  · intro h
    generalize hcs : ([] : List Char) = text at h
    cases h with
    | done => rfl
    | @token gap more t rest hgap ht hmore hkept =>
        rcases ht.first with ⟨c, tail, htext, _, _⟩
        simp [htext] at hcs
  · intro h
    rw [h]
    exact Spells.done (by simp [IsGap])

theorem Written.spells {t : Token} (h : Written lang t) : Spells lang t.text.toList [t] := by
  have hkept : Kept lang t [] [] := fun hrun => nomatch hrun
  simpa using Spells.cons h (spells_nil.mpr rfl) hkept

/-!
# Operators
-/

theorem spells_operator {c : Char} {k : Kind} (hc : lang.isOperator c = true)
    (hk : Kind.ofChar? c = some k) {cs : List Char} {ts : List Token} :
    Spells lang (c :: cs) ts <->
      exists rest : List Token, ts = ⟨k, String.singleton c⟩ :: rest ∧ Spells lang cs rest := by
  constructor
  · intro h
    obtain ⟨t, rest, more, hts, ht, hcs, hmore, _⟩ :=
      h.first (Language.not_isBlank_of_isOperator hc)
    cases ht with
    | @operator d j hd hj =>
        rw [String.toList_singleton] at hcs
        rcases List.cons.inj hcs with ⟨rfl, rfl⟩
        rw [hk] at hj
        obtain rfl := Option.some.inj hj
        exact ⟨rest, hts, hmore⟩
    | @number text hplain hblank =>
        cases htext : text.toList with
        | nil => exact absurd htext hplain.ne_nil
        | cons d tail =>
            rw [htext] at hcs
            rcases List.cons.inj hcs with ⟨rfl, _⟩
            exact absurd (hplain.digits c (by simp [htext])) (Kind.not_digit_of_ofChar? hk)
  · rintro ⟨rest, rfl, h⟩
    have hkept : Kept lang ⟨k, String.singleton c⟩ rest cs := by
      intro hrun
      cases rest with
      | nil => cases hrun
      | cons u rest => exact absurd hrun.left (Kind.ne_num_of_ofChar? hk)
    simpa using h.cons (Written.operator hc hk) hkept

/-!
# Numbers
-/

theorem Kept.stops {t : Token} {rest : List Token} {more : List Char} (ht : t.kind = .num)
    (hkept : Kept lang t rest more) (h : Spells lang more rest) : Stops lang more := by
  intro c hc
  cases hdigit : lang.isDigit c with
  | false => rfl
  | true =>
      cases more with
      | nil => cases hc
      | cons d tail =>
          obtain rfl : d = c := by simpa using hc
          have hblank := (Language.isDigit_iff.mp hdigit).right
          rcases h.first hblank with ⟨u, others, after, rfl, hu, hcs, _, _⟩
          rcases hu.first with ⟨e, texts, htext, _, hnum⟩
          rw [htext] at hcs
          rcases List.cons.inj hcs with ⟨rfl, _⟩
          rcases hkept ⟨ht, hnum hdigit⟩ with ⟨b, hb, hbBlank⟩
          obtain rfl : d = b := by simpa using hb
          rw [hblank] at hbBlank
          cases hbBlank

theorem Stops.kept {t : Token} {rest : List Token} {more : List Char}
    (hstops : Stops lang more) (h : Spells lang more rest) : Kept lang t rest more := by
  intro hrun
  cases rest with
  | nil => cases hrun
  | cons u rest =>
      cases more with
      | nil => cases spells_nil.mp h
      | cons c tail =>
          refine ⟨c, rfl, ?_⟩
          cases hblank : lang.isBlank c with
          | true => rfl
          | false =>
              rcases h.first hblank with ⟨v, others, after, hts, hv, hcs, _, _⟩
              rcases List.cons.inj hts with ⟨rfl, _⟩
              cases hv with
              | operator _ hk => exact absurd hrun.right (Kind.ne_num_of_ofChar? hk)
              | @number text hplain htext =>
                  have hdigits := digits_of_isPlain hplain htext
                  cases hchars : text.toList with
                  | nil => exact absurd hchars hplain.ne_nil
                  | cons d ds =>
                      rw [hchars] at hcs
                      rcases List.cons.inj hcs with ⟨rfl, _⟩
                      have hdigit := hdigits c (by simp [hchars])
                      rw [hstops c rfl] at hdigit
                      cases hdigit

theorem Spells.number {w cs : List Char} {ts : List Token} (hw : w ≠ []) (hdigits : Digits lang w)
    (h : Spells lang (w ++ cs) ts) :
    exists text : String, exists rest : List Token, exists more : List Char,
      ts = ⟨.num, text⟩ :: rest ∧ Numeral.IsPlain text.toList ∧ Digits lang text.toList ∧
        w ++ cs = text.toList ++ more ∧ Spells lang more rest ∧ Stops lang more := by
  cases w with
  | nil => exact absurd rfl hw
  | cons c w =>
      have hdigit := hdigits c List.mem_cons_self
      obtain ⟨t, rest, more, hts, ht, hcs, hmore, hkept⟩ :=
        h.first (Language.isDigit_iff.mp hdigit).right
      cases ht with
      | @operator d k hd hk =>
          rw [String.toList_singleton] at hcs
          rcases List.cons.inj hcs with ⟨rfl, _⟩
          rw [Language.not_isDigit_of_isOperator hd] at hdigit
          cases hdigit
      | @number text hplain hblank =>
          exact ⟨text, rest, more, hts, hplain, digits_of_isPlain hplain hblank, hcs, hmore,
            hkept.stops rfl hmore⟩

theorem spells_number {w cs : List Char} (hplain : Numeral.IsPlain w) (hdigits : Digits lang w)
    (hstops : Stops lang cs) {ts : List Token} :
    Spells lang (w ++ cs) ts <->
      exists rest : List Token, ts = ⟨.num, String.ofList w⟩ :: rest ∧ Spells lang cs rest := by
  constructor
  · intro h
    obtain ⟨text, rest, more, hts, _, htext, hcs, hmore, hmoreStops⟩ :=
      h.number hplain.ne_nil hdigits
    rcases append_inj_of_class hdigits htext hstops hmoreStops hcs with ⟨rfl, rfl⟩
    exact ⟨rest, by simpa using hts, hmore⟩
  · rintro ⟨rest, rfl, h⟩
    have hwritten : Written lang ⟨.num, String.ofList w⟩ :=
      Written.number (by simpa using hplain)
        (by simpa using fun c hc => (Language.isDigit_iff.mp (hdigits c hc)).right)
    simpa using h.cons hwritten (hstops.kept h)

theorem not_spells_zero_digit {c : Char} (hzero : lang.isDigit '0' = true)
    (hc : lang.isDigit c = true) (cs : List Char) (ts : List Token) :
    ¬ Spells lang ('0' :: c :: cs) ts := by
  intro h
  change Spells lang (['0'] ++ c :: cs) ts at h
  obtain ⟨text, rest, more, _, hplain, _, hcs, _, hstops⟩ :=
    h.number (by simp) (by simpa [Digits] using hzero)
  rcases hplain with htext | ⟨d, ds, htext, hd, _⟩
  · rw [htext] at hcs
    rcases List.cons.inj hcs with ⟨_, rfl⟩
    rw [hstops c rfl] at hc
    cases hc
  · rw [htext] at hcs
    rcases List.cons.inj hcs with ⟨rfl, _⟩
    exact absurd hd (by decide)

/-!
# Whole spellings
-/

theorem Spells.written {cs : List Char} {ts : List Token} (h : Spells lang cs ts) :
    forall t : Token, t ∈ ts -> Written lang t := by
  induction h with
  | done => simp
  | token _ ht _ _ ih => exact List.forall_mem_cons.mpr ⟨ht, ih⟩

theorem Spells.classes {cs : List Char} {ts : List Token} (h : Spells lang cs ts) :
    forall c : Char, c ∈ cs ->
      lang.isOperator c = true ∨ lang.isBlank c = true ∨ lang.isDigit c = true := by
  induction h with
  | done hgap =>
      intro c hc
      exact Or.inr (Or.inl (hgap c hc))
  | token hgap ht _ _ ih =>
      intro c hc
      rcases List.mem_append.mp hc with hfront | hmore
      · rcases List.mem_append.mp hfront with hblank | htext
        · exact Or.inr (Or.inl (hgap c hblank))
        · cases ht with
          | @operator d k hd hk =>
              rw [String.toList_singleton, List.mem_singleton] at htext
              exact Or.inl (by rw [htext]; exact hd)
          | number hplain hblank =>
              exact Or.inr (Or.inr (digits_of_isPlain hplain hblank c htext))
      · exact ih c hmore

theorem Spells.append {cs more : List Char} {ts others : List Token}
    (h : Spells lang cs ts) (hmore : Spells lang more others)
    (hhead : forall u : Token, others.head? = some u -> u.kind ≠ .num) :
    Spells lang (cs ++ more) (ts ++ others) := by
  induction h with
  | done hgap => exact (spells_gap hgap).mpr hmore
  | @token gap tail t rest hgap ht _ hkept ih =>
      have htoken := Spells.token hgap ht ih (fun hrun => by
        cases rest with
        | nil =>
            cases others with
            | nil => cases hrun
            | cons u others => exact absurd hrun.right (hhead u rfl)
        | cons u rest =>
            rcases hkept hrun with ⟨b, hb, hblank⟩
            refine ⟨b, ?_, hblank⟩
            rw [List.head?_append, hb, Option.some_or])
      simpa using htoken

theorem Spells.mono {smaller larger : Language}
    (hoperator : forall c : Char, smaller.isOperator c = true -> larger.isOperator c = true)
    (hblank : forall c : Char, smaller.isBlank c = true -> larger.isBlank c = true)
    (hdigit : forall c : Char, smaller.isDigit c = true -> larger.isBlank c = false)
    {cs : List Char} {ts : List Token} (h : Spells smaller cs ts) : Spells larger cs ts := by
  induction h with
  | done hgap => exact Spells.done fun c hc => hblank c (hgap c hc)
  | token hgap ht _ hkept ih =>
      refine Spells.token (fun c hc => hblank c (hgap c hc)) ?_ ih ?_
      · cases ht with
        | operator hc hk => exact Written.operator (hoperator _ hc) hk
        | number hplain htext =>
            exact Written.number hplain
              fun c hc => hdigit c (digits_of_isPlain hplain htext c hc)
      · intro hrun
        rcases hkept hrun with ⟨b, hb, hbBlank⟩
        exact ⟨b, hb, hblank b hbBlank⟩

theorem spells_withFoldSigns {fold : Bool} {cs : List Char} {ts : List Token} :
    Spells (lang.withFoldSigns fold) cs ts <-> Spells lang cs ts := by
  constructor
  · intro h
    refine h.mono ?_ ?_ ?_
    · exact fun c hc => hc
    · exact fun c hc => hc
    · exact fun c hc => (Language.isDigit_iff.mp hc).right
  · intro h
    refine h.mono ?_ ?_ ?_
    · exact fun c hc => hc
    · exact fun c hc => hc
    · exact fun c hc => (Language.isDigit_iff.mp hc).right

end Token
end Reckon
