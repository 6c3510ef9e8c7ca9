import Reckon.Token.Spelling

/-!
# Segmentations

A segmentation cuts a text into blanks and tokens and leaves no character over:
first some blanks, then one token after the other, each with the blanks that
stand behind it.  Where `Spells` says that a text can be cut into some tokens, a
segmentation also says where it is cut.
-/

namespace Reckon
namespace Token

structure Piece where
  token : Token
  gap : List Char

structure Segmentation where
  lead : List Char
  pieces : List Piece

def Piece.characters (p : Piece) : List Char :=
  p.token.text.toList ++ p.gap

namespace Segmentation

def characters (d : Segmentation) : List Char :=
  d.lead ++ d.pieces.flatMap Piece.characters

def tokens (d : Segmentation) : List Token :=
  d.pieces.map Piece.token

structure Fits (lang : Language) (d : Segmentation) : Prop where
  lead : IsGap lang d.lead
  written : forall p : Piece, p ∈ d.pieces -> Written lang p.token
  gaps : forall p : Piece, p ∈ d.pieces -> IsGap lang p.gap
  apart : forall (front back : List Piece) (p q : Piece), d.pieces = front ++ p :: q :: back ->
    p.token.kind = .num -> q.token.kind = .num -> p.gap ≠ []

@[simp] theorem characters_cons (lead : List Char) (p : Piece) (ps : List Piece) :
    characters ⟨lead, p :: ps⟩ = lead ++ p.token.text.toList ++ characters ⟨p.gap, ps⟩ := by
  simp [characters, Piece.characters]

theorem Fits.tail {lang : Language} {lead : List Char} {p : Piece} {ps : List Piece}
    (h : Fits lang ⟨lead, p :: ps⟩) : Fits lang ⟨p.gap, ps⟩ where
  lead := h.gaps p List.mem_cons_self
  written := fun q hq => h.written q (List.mem_cons_of_mem p hq)
  gaps := fun q hq => h.gaps q (List.mem_cons_of_mem p hq)
  apart := fun front back q r hps => h.apart (p :: front) back q r (congrArg (List.cons p) hps)

end Segmentation
end Token
end Reckon
