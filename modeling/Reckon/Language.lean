import Reckon.Kind
import Reckon.Text.Quoted

/-!
# Languages

A language says which symbols are operators, which characters separate tokens,
and whether a sign is folded into the number that it stands in front of.  A
value of the type is always usable: its operators are known symbols, and none of
them separates tokens.  `Language.define` checks this and says what is wrong.

Characters fall into five classes.  The classes are tested in a fixed order, so
a digit that separates tokens is blank and no digit.
-/

namespace Reckon

structure Language where
  operators : String
  whitespace : String
  foldSigns : Bool
  operators_known : ∀ c ∈ operators.toList, (Kind.ofChar? c).isSome = true
  operators_apart : ∀ c ∈ operators.toList, c ∉ whitespace.toList

inductive LanguageError where
  | unsupported (symbols : String)
  | overlap (symbols : String)
deriving DecidableEq

def LanguageError.message : LanguageError -> String
  | unsupported symbols => "LexerDef: unsupported operator symbols " ++ Text.quoted symbols
  | overlap symbols =>
      "LexerDef: " ++ Text.quoted symbols ++ " cannot be both operator and whitespace"

namespace Language

/-!
# Making languages
-/

/-- The characters among some operators that are no symbols, repetitions kept. -/
def unsupported (operators : String) : List Char :=
  operators.toList.filter fun c => (Kind.ofChar? c).isNone

/-- The symbols, by code point, that are operators and separators at once. -/
def overlap (operators whitespace : String) : List Char :=
  ['(', ')', '*', '+', '-', '/'].filter fun c =>
    operators.toList.contains c && whitespace.toList.contains c

theorem known_of_unsupported_eq_nil {operators : String}
    (h : unsupported operators = []) :
    ∀ c ∈ operators.toList, (Kind.ofChar? c).isSome = true := by
  intro c hc
  have hnone := List.filter_eq_nil_iff.mp h c hc
  cases hk : Kind.ofChar? c with
  | none => simp [hk] at hnone
  | some k => rfl

theorem mem_symbols_of_isSome {c : Char} (h : (Kind.ofChar? c).isSome = true) :
    c ∈ ['(', ')', '*', '+', '-', '/'] := by
  obtain ⟨k, hk⟩ := Option.isSome_iff_exists.mp h
  have hsymbol := Kind.ofChar?_eq_some_iff.mp hk
  cases k <;> simp [Kind.symbol?] at hsymbol <;> subst hsymbol <;> simp

theorem apart_of_overlap_eq_nil {operators whitespace : String}
    (hknown : ∀ c ∈ operators.toList, (Kind.ofChar? c).isSome = true)
    (h : overlap operators whitespace = []) :
    ∀ c ∈ operators.toList, c ∉ whitespace.toList := by
  intro c hc hblank
  have hsymbol := mem_symbols_of_isSome (hknown c hc)
  have hboth := List.filter_eq_nil_iff.mp h c hsymbol
  simp [hc, hblank] at hboth

/-- The language with the given settings.  Unknown symbols are reported before
symbols that also separate tokens. -/
def define (operators whitespace : String) (foldSigns : Bool) :
    Except LanguageError Language :=
  if hknown : unsupported operators = [] then
    if hoverlap : overlap operators whitespace = [] then
      .ok {
        operators, whitespace, foldSigns
        operators_known := known_of_unsupported_eq_nil hknown
        operators_apart :=
          apart_of_overlap_eq_nil (known_of_unsupported_eq_nil hknown) hoverlap
      }
    else
      .error (.overlap (String.ofList (overlap operators whitespace)))
  else
    .error (.unsupported (String.ofList (unsupported operators)))

/-- The four operators of arithmetic with parentheses, separated by the space,
the tab and the two line ends; signs are folded. -/
def arith : Language where
  operators := "+-*/()"
  whitespace := " \t\r\n"
  foldSigns := true
  operators_known := by simp [Kind.ofChar?]
  operators_apart := by simp

structure Change where
  operators : Option String := none
  whitespace : Option String := none
  foldSigns : Option Bool := none

def change (lang : Language) (c : Change) : Except LanguageError Language :=
  define (c.operators.getD lang.operators) (c.whitespace.getD lang.whitespace)
    (c.foldSigns.getD lang.foldSigns)

def strictSpace : Language where
  operators := "+-*/()"
  whitespace := " "
  foldSigns := true
  operators_known := by simp [Kind.ofChar?]
  operators_apart := by simp

def withFoldSigns (lang : Language) (fold : Bool) : Language :=
  { lang with foldSigns := fold }

def unfolded : Language :=
  arith.withFoldSigns false

/-!
# Settings of a language
-/

@[simp] theorem unsupported_eq_nil (lang : Language) : unsupported lang.operators = [] := by
  apply List.filter_eq_nil_iff.mpr
  intro c hc
  have hknown := lang.operators_known c hc
  cases hk : Kind.ofChar? c with
  | none => simp [hk] at hknown
  | some k => simp

@[simp] theorem overlap_eq_nil (lang : Language) :
    overlap lang.operators lang.whitespace = [] := by
  apply List.filter_eq_nil_iff.mpr
  intro c _ hboth
  simp only [Bool.and_eq_true, List.contains_iff_mem] at hboth
  exact lang.operators_apart c hboth.left hboth.right

@[simp] theorem change_foldSigns (lang : Language) (fold : Bool) :
    lang.change { foldSigns := some fold } = .ok (lang.withFoldSigns fold) := by
  have hknown := unsupported_eq_nil lang
  have hoverlap := overlap_eq_nil lang
  simp [change, define, withFoldSigns, hknown, hoverlap]

/-!
# Classes of characters
-/

def isOperator (lang : Language) (c : Char) : Bool :=
  lang.operators.toList.contains c

def isBlank (lang : Language) (c : Char) : Bool :=
  lang.whitespace.toList.contains c

inductive CharClass where
  | operator
  | blank
  | zero
  | nonzero
  | other
deriving DecidableEq

def classOf (lang : Language) (c : Char) : CharClass :=
  if lang.isOperator c then .operator
  else if lang.isBlank c then .blank
  else if c = '0' then .zero
  else if '1' ≤ c ∧ c ≤ '9' then .nonzero
  else .other

/-!
# Classes of chunks

A chunk of any length has a class too.  It is an operator or blank when it
occurs somewhere inside the operators or the separators, as the empty chunk
always does, and digits are compared in the order of texts.
-/

def occursIn (chunk : List Char) : List Char -> Bool
  | [] => chunk.isEmpty
  | c :: rest => chunk.isPrefixOf (c :: rest) || occursIn chunk rest

def chunkClass (lang : Language) (chunk : String) : CharClass :=
  if occursIn chunk.toList lang.operators.toList then .operator
  else if occursIn chunk.toList lang.whitespace.toList then .blank
  else if chunk = "0" then .zero
  else if "1" ≤ chunk ∧ chunk ≤ "9" then .nonzero
  else .other

@[simp] theorem occursIn_singleton (c : Char) (cs : List Char) :
    occursIn [c] cs = cs.contains c := by
  induction cs with
  | nil => rfl
  | cons d rest ih =>
      rw [occursIn, ih, List.contains_cons]
      simp [List.isPrefixOf_cons_cons]

@[simp] theorem singleton_le_singleton_iff {c d : Char} :
    String.singleton c ≤ String.singleton d <-> c ≤ d := by
  show ¬ (String.singleton d).toList < (String.singleton c).toList <-> c ≤ d
  simp [List.cons_lt_cons_iff]

@[simp] theorem chunkClass_singleton (lang : Language) (c : Char) :
    lang.chunkClass (String.singleton c) = lang.classOf c := by
  have hzero : String.singleton c = "0" <-> c = '0' := by
    rw [<- String.toList_inj]
    simp
  have hone : "1" ≤ String.singleton c <-> '1' ≤ c := by
    rw [show "1" = String.singleton '1' by decide]
    exact singleton_le_singleton_iff
  have hnine : String.singleton c ≤ "9" <-> c ≤ '9' := by
    rw [show "9" = String.singleton '9' by decide]
    exact singleton_le_singleton_iff
  simp [chunkClass, classOf, isOperator, isBlank, occursIn_singleton,
    hzero, hone, hnine]

end Language
end Reckon
