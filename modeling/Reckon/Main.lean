import Reckon.Demo

/-!
# The program

Prints the table of sample calculations.
-/

def main : IO Unit :=
  IO.print Reckon.Demo.report
