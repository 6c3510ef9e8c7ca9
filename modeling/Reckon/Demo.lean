import Reckon.Expr.Format
import Reckon.Expr.Value
import Reckon.Grammar

/-!
# A table of sample calculations

Each sample is printed with its value and its canonical text, or with the error
that it runs into.
-/

namespace Reckon
namespace Demo

def samples : List String :=
  [
    "2 + 3",
    "2 * 3",
    "2 + 3 * 4",
    "(2 + 3) * 4",
    "-2 + 3",
    "1 - 2 - 3",
    "10 / 3",
    "1 * 2 + (3 / (4 + (-5)))",
    "007",
    "(1 + 2",
    "10 / (2 - 2)"
  ]

def padded (width : Nat) (text : String) : String :=
  text ++ String.ofList (List.replicate (width - text.length) ' ')

def refusal : Grammar.Refusal -> String
  | .lexical e => e.describe
  | .grammatical e => e.describe

def result (sample : String) : String :=
  match Grammar.build .standard .arith sample with
  | .raised fault => "Runtime Error: " ++ fault.message
  | .unfinished => "Runtime Error: out of fuel"
  | .done (.error e) => "Error: " ++ refusal e
  | .done (.ok tree) =>
      match tree.eval .standard, tree.format with
      | .ok value, .ok text => padded 8 (toString value) ++ " | " ++ text
      | .error fault, _ => "Runtime Error: " ++ fault.message
      | _, .error fault => "Runtime Error: " ++ fault.message

def heading : List String :=
  [
    padded 26 "Expression" ++ " | " ++ padded 8 "Result" ++ " | Formatted",
    String.ofList (List.replicate 60 '-')
  ]

def table : List String :=
  heading ++ samples.map fun sample => padded 26 sample ++ " | " ++ result sample

def report : String :=
  String.join (table.map fun line => line ++ "\n")

end Demo
end Reckon
