import Reckon.Token.Session

/-!
# Lexers that are used again

A run takes nothing over from what was done with a lexer before.  What it answers and
the tokens that it leaves are decided by the text and the language assigned last: they
are those of a new lexer.  The one exception is the empty text, which is refused before
the tokens of an earlier run are given up, so that these tokens remain.
-/

namespace Reckon
namespace Lexer

/-!
# One run
-/

theorem run_of_ok {l : Lexer} {tokens : List Token} (h : lex l.lang l.code = .ok tokens) :
    l.run = ({ l with found := tokens.reverse }, none) := by
  rw [lex_eq] at h
  by_cases hcode : l.code = ""
  · rw [if_pos hcode] at h
    cases h
  · rw [if_neg hcode] at h
    rw [run, if_neg hcode]
    cases hscan : Scan.start.steps l.lang l.code.toList with
    | error e =>
        rw [hscan] at h
        cases h
    | ok s =>
        rw [hscan] at h
        rw [<- Except.ok.inj h, List.reverse_reverse]

theorem run_of_error {l : Lexer} (hcode : l.code ≠ "") {e : LexError}
    (h : lex l.lang l.code = .error e) : l.run = ({ l with found := [] }, some e) := by
  rw [lex_eq, if_neg hcode] at h
  rw [run, if_neg hcode]
  cases hscan : Scan.start.steps l.lang l.code.toList with
  | error e' =>
      rw [hscan] at h
      rw [Except.error.inj h]
  | ok s =>
      rw [hscan] at h
      cases h

theorem run_of_empty {l : Lexer} (hcode : l.code = "") :
    l.run = (l, some LexError.emptyText) := by
  rw [run, if_pos hcode]

theorem run_keeps (l : Lexer) : l.run.1.code = l.code ∧ l.run.1.lang = l.lang := by
  by_cases hcode : l.code = ""
  · rw [run_of_empty hcode]
    exact ⟨rfl, rfl⟩
  · cases h : lex l.lang l.code with
    | ok tokens =>
        rw [run_of_ok h]
        exact ⟨rfl, rfl⟩
    | error e =>
        rw [run_of_error hcode h]
        exact ⟨rfl, rfl⟩

@[simp] theorem perform_run (l : Lexer) :
    l.perform .run = (l.run.1, l.run.2.elim Answer.done Answer.refused) := by
  rw [perform]
  rcases l.run with ⟨m, _ | e⟩
  · rfl
  · rfl

/-- A run answers what is said of a text, its tokens or a refusal, and leaves these tokens
or none. -/
def RunGives (l : Lexer) : Except LexError (List Token) -> Prop
  | .ok tokens =>
      (l.perform .run).2 = .done ∧
        ((l.perform .run).1.perform .readTokens).2 = .tokens tokens
  | .error e =>
      (l.perform .run).2 = .refused e ∧
        ((l.perform .run).1.perform .readTokens).2 = .tokens []

theorem runGives_lex {l : Lexer} (hcode : l.code ≠ "") : l.RunGives (lex l.lang l.code) := by
  cases h : lex l.lang l.code with
  | ok tokens =>
      rw [RunGives, perform_run, run_of_ok h]
      simp [perform, Lexer.tokens]
  | error e =>
      rw [RunGives, perform_run, run_of_error hcode h]
      simp [perform, Lexer.tokens]

/-!
# Sessions

No move but an assignment changes the text or the language of a lexer.
-/

namespace Session

theorem play_assigns (s : Session) (m : Move) :
    (s.play m).lexer.code = m.code?.getD s.lexer.code ∧
      (s.play m).lexer.lang = m.lang?.getD s.lexer.lang := by
  cases m with
  | empty => exact ⟨rfl, rfl⟩
  | perform step =>
      cases step with
      | run =>
          rw [play, perform_run]
          exact s.lexer.run_keeps
      | setCode | setLang | readTokens | push | foldSign | describe => exact ⟨rfl, rfl⟩

theorem after_eq_last {α : Type} {field : Lexer -> α} {assigned : Move -> Option α}
    (hplay : forall (s : Session) (m : Move),
      field (s.play m).lexer = (assigned m).getD (field s.lexer))
    (s : Session) (moves : List Move) :
    field (s.after moves).lexer =
      (moves.filterMap assigned).getLast?.getD (field s.lexer) := by
  induction moves generalizing s with
  | nil => rfl
  | cons m moves ih =>
      rw [after, List.foldl_cons, <- after, ih, hplay]
      cases hassigned : assigned m with
      | none => rw [List.filterMap_cons_none hassigned, Option.getD_none]
      | some value =>
          rw [List.filterMap_cons_some hassigned, List.getLast?_cons, Option.getD_some,
            Option.getD_some]

theorem code_after (s : Session) (moves : List Move) :
    (s.after moves).lexer.code = s.lastCode moves :=
  after_eq_last (fun s m => (play_assigns s m).left) s moves

theorem lang_after (s : Session) (moves : List Move) :
    (s.after moves).lexer.lang = s.lastLang moves :=
  after_eq_last (fun s m => (play_assigns s m).right) s moves

end Session

/-- Whatever was done with a lexer before, a run on a text that is not empty gives what a
new lexer gives for the text and the language assigned last. -/
theorem run_after_session (s : Session) (moves : List Move) (hcode : s.lastCode moves ≠ "") :
    (s.after moves).lexer.RunGives (lex (s.lastLang moves) (s.lastCode moves)) := by
  rw [<- Session.code_after] at hcode ⊢
  rw [<- Session.lang_after]
  exact runGives_lex hcode

theorem run_after_session_sign_left_over :
    exists s : Session, exists moves : List Move,
      (s.after moves).lexer.tokens = [⟨.minus, "-"⟩] ∧ (s.after moves).handed = [[]] ∧
        s.lastCode moves ≠ "" ∧
        (s.after moves).lexer.RunGives (.ok [⟨.num, "7"⟩]) := by
  refine ⟨{ lexer := { code := "1 + 2", lang := Language.arith } },
    [.perform .run, .perform .readTokens, .empty 0, .perform (.setCode "0-07"), .perform .run,
      .perform (.setCode "7"), .perform (.push "-"), .perform (.push "-"),
      .perform (.foldSign "3")], ?tokens, ?handed, ?code, ?gives⟩
  case tokens => rfl
  case handed => rfl
  case code => decide
  case gives => exact run_after_session _ _ (by decide)

/-!
# Refused texts
-/

/-- A refused text leaves no tokens, unless it is empty: then the earlier ones remain. -/
theorem tokens_of_refused_run (l : Lexer) (steps : List Step) {e : LexError}
    (h : ((l.after steps).perform .run).2 = .refused e) :
    ((l.after steps).perform .run).1.tokens =
      if (l.after steps).code = "" then (l.after steps).tokens else [] := by
  generalize l.after steps = m at h ⊢
  by_cases hcode : m.code = ""
  · rw [perform_run, run_of_empty hcode, if_pos hcode]
  · rw [if_neg hcode]
    cases hlex : lex m.lang m.code with
    | ok tokens =>
        rw [perform_run, run_of_ok hlex] at h
        cases h
    | error e' =>
        rw [perform_run, run_of_error hcode hlex]
        rfl

theorem tokens_of_refused_run_leading_zero :
    exists e : LexError,
      ((after ⟨"1 + 2", Language.arith, []⟩ [.run, .setCode "10 + 007"]).perform .run).2 =
        .refused e ∧
      (after ⟨"1 + 2", Language.arith, []⟩ [.run, .setCode "10 + 007"]).tokens ≠ [] ∧
      ((after ⟨"1 + 2", Language.arith, []⟩ [.run, .setCode "10 + 007"]).perform .run).1.tokens =
        [] := by
  refine ⟨LexError.unexpected 6 '0' "0", ?refused, ?before, ?behind⟩
  case refused => rfl
  case before => decide
  case behind => exact tokens_of_refused_run _ _ (e := LexError.unexpected 6 '0' "0") rfl

theorem tokens_remain_behind_empty_text :
    ((after ⟨"1", Language.arith, []⟩ [.run, .setCode ""]).perform .run).2 =
        .refused LexError.emptyText ∧
      ((after ⟨"1", Language.arith, []⟩ [.run, .setCode ""]).perform .run).1.tokens =
        [⟨.num, "1"⟩] := by
  constructor
  · rfl
  · rfl

end Lexer
end Reckon
