/-!
# Blank characters

The characters that may surround a numeral.  Below code point 128 these are the
space, the tab and the four characters that end or advance a line, which leaves
out the four separators at 28 to 31; above it they are the characters that the
Unicode standard calls white space.
-/

namespace Reckon
namespace Text

def blanks : List Nat :=
  [
    0x09, 0x0a, 0x0b, 0x0c, 0x0d, 0x20, 0x85, 0xa0, 0x1680,
    0x2000, 0x2001, 0x2002, 0x2003, 0x2004, 0x2005, 0x2006, 0x2007, 0x2008,
    0x2009, 0x200a, 0x2028, 0x2029, 0x202f, 0x205f, 0x3000
  ]

def isBlank (c : Char) : Bool :=
  blanks.contains c.toNat

def trim (cs : List Char) : List Char :=
  ((cs.dropWhile isBlank).reverse.dropWhile isBlank).reverse

end Text
end Reckon
