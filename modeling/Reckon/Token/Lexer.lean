import Reckon.Token
import Reckon.Token.Automaton

/-!
# The lexer

Characters are fed to the automaton one at a time.  The pending text becomes a
token as soon as the automaton leaves an accepting state for another one, and
after every operator.  A number takes the sign in front of it into its own text
when that sign has nothing to join on its left.

A `Lexer` is a source text and a language together with the tokens found so far.
It can be run again, given another text or another language, and asked to take
single tokens; `Lexer.lex` is one run of a new lexer.
-/

namespace Reckon

/-!
# Refusals
-/

/-- Where a text stops being a sequence of tokens, and the text then pending. -/
structure LexError where
  pos : Int
  message : String
  cache : String := ""
deriving DecidableEq

namespace LexError

def describe (e : LexError) : String :=
  "Lex error at position " ++ toString e.pos ++ ": " ++ e.message

def emptyText : LexError where
  pos := 0
  message := "an empty string was received"

def unexpected (pos : Nat) (c : Char) (cache : String) : LexError where
  pos := pos
  message :=
    "unexpected character " ++ Text.quoted (String.singleton c) ++
      ", current cache: " ++ Text.quoted cache
  cache := cache

end LexError

namespace Lexer

open Automaton

/-!
# Emitting tokens

The tokens found so far are kept newest first, since signs are looked up and
removed at that end.
-/

/-- Whether the newest token is a sign that belongs to a number read next: nothing
stands in front of it, or something that an operand has to follow. -/
def signWaits : List Token -> Bool
  | [] => false
  | sign :: before => sign.kind.isSign && before.head?.all fun t => t.kind.opensOperand

/-- The number text that results from reading `text` as a number, and the tokens
that remain in front of it. -/
def foldSign (lang : Language) (found : List Token) (text : String) :
    String × List Token :=
  match found with
  | [] => (text, [])
  | sign :: before =>
      if lang.foldSigns && signWaits (sign :: before) then
        (if sign.kind = Kind.minus then "-" ++ text else text, before)
      else
        (text, sign :: before)

def push (lang : Language) (found : List Token) (text : String) : List Token :=
  match Kind.ofText? text with
  | some k => ⟨k, text⟩ :: found
  | none =>
      let folded := foldSign lang found text
      ⟨Kind.num, folded.1⟩ :: folded.2

/-!
# Scanning
-/

structure Scan where
  pos : Nat
  state : State
  cache : String
  found : List Token

def Scan.start : Scan where
  pos := 0
  state := .start
  cache := ""
  found := []

/-- Whether the pending text ends where the automaton moves from `q` to `r`. -/
def completes (q r : State) : Bool :=
  q.accepting && (r != q || q == .operator)

def Scan.flush (lang : Language) (s : Scan) (r : State) : Scan :=
  if completes s.state r then
    { s with cache := "", found := push lang s.found s.cache }
  else
    s

def Scan.step (lang : Language) (s : Scan) (c : Char) : Except LexError Scan :=
  let r := transition lang s.state (String.singleton c)
  if r = .error then
    .error (LexError.unexpected s.pos c s.cache)
  else
    let flushed := s.flush lang r
    .ok {
      pos := s.pos + 1
      state := r
      cache := if lang.isBlank c then flushed.cache else flushed.cache.push c
      found := flushed.found
    }

theorem Scan.step_eq (lang : Language) (s : Scan) (c : Char) :
    s.step lang c =
      if s.state.next (lang.classOf c) = .error then
        .error (LexError.unexpected s.pos c s.cache)
      else
        let flushed := s.flush lang (s.state.next (lang.classOf c))
        .ok {
          pos := s.pos + 1
          state := s.state.next (lang.classOf c)
          cache := if lang.isBlank c then flushed.cache else flushed.cache.push c
          found := flushed.found
        } := by
  rw [Scan.step, transition_singleton]

def Scan.steps (lang : Language) (s : Scan) : List Char -> Except LexError Scan
  | [] => .ok s
  | c :: rest =>
      match s.step lang c with
      | .ok t => t.steps lang rest
      | .error e => .error e

def Scan.finish (lang : Language) (s : Scan) : List Token :=
  if s.cache = "" then s.found else push lang s.found s.cache

end Lexer

/-!
# Lexers
-/

structure Lexer where
  code : String
  lang : Language
  found : List Token := []

namespace Lexer

def tokens (l : Lexer) : List Token :=
  l.found.reverse

/-- Reads the whole text.  An empty text is refused before the tokens of an
earlier run are given up; any other refusal leaves no tokens. -/
def run (l : Lexer) : Lexer × Option LexError :=
  if l.code = "" then
    (l, some LexError.emptyText)
  else
    match Scan.start.steps l.lang l.code.toList with
    | .ok s => ({ l with found := s.finish l.lang }, none)
    | .error e => ({ l with found := [] }, some e)

def lex (lang : Language) (text : String) : Except LexError (List Token) :=
  match (Lexer.mk text lang []).run with
  | (l, none) => .ok l.tokens
  | (_, some e) => .error e

theorem lex_eq (lang : Language) (text : String) :
    lex lang text =
      if text = "" then .error LexError.emptyText
      else (Scan.start.steps lang text.toList).map fun s => (s.finish lang).reverse := by
  unfold lex run
  by_cases h : text = ""
  · simp [h]
  · simp only [h, if_false]
    cases Scan.start.steps lang text.toList <;> rfl

/-!
# Steps

What a caller can do with a lexer, and what it is told.
-/

inductive Step where
  | run
  | setCode (code : String)
  | setLang (lang : Language)
  | readTokens
  | push (text : String)
  | foldSign (text : String)
  | describe

inductive Answer where
  | done
  | refused (e : LexError)
  | tokens (tokens : List Token)
  | text (s : String)
  | texts (ss : List String)
deriving DecidableEq

def perform (l : Lexer) : Step -> Lexer × Answer
  | .run =>
      match l.run with
      | (l', none) => (l', .done)
      | (l', some e) => (l', .refused e)
  | .setCode code => ({ l with code }, .done)
  | .setLang lang => ({ l with lang }, .done)
  | .readTokens => (l, .tokens l.tokens)
  | .push text => ({ l with found := Lexer.push l.lang l.found text }, .done)
  | .foldSign text =>
      let folded := Lexer.foldSign l.lang l.found text
      ({ l with found := folded.2 }, .text folded.1)
  | .describe => (l, .texts (l.tokens.map Token.describe))

def after (l : Lexer) (steps : List Step) : Lexer :=
  steps.foldl (fun m s => (m.perform s).1) l

end Lexer
end Reckon
