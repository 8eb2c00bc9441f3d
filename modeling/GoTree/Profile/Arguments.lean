import GoTree.Number.Decimal
import GoTree.Number.Word64

/-!
# Arguments

Options are given as a key followed by its value. The first occurrence of a key counts, and a value
that cannot be read counts as absent.
-/

namespace GoTree.Profile

/-- The argument after the first occurrence of a key. -/
def argument? (key : String) : List String → Option String
  | [] => none
  | a :: rest => if a = key then rest.head? else argument? key rest

/-- The whole number after a key. -/
def wordArgument (args : List String) (key : String) (default : Nat) : Nat :=
  ((argument? key args).bind Word64.parse?).getD default

/-- The decimal number after a key. -/
def decimalArgument (args : List String) (key : String) (default : Binary64) : Binary64 :=
  ((argument? key args).bind Decimal.parse?).getD default

/-- The options of a profiling run. -/
structure Options where
  /-- How long to repeat the traversal. -/
  seconds : Binary64
  /-- The number of statements in the template. -/
  items : Nat
  /-- How often to repeat the traversal at most. -/
  limit : Nat
  /-- Whether to keep every node instead of splitting declarations. -/
  identity : Bool

/-- The options given by arguments. -/
def Options.ofArguments (args : List String) : Options where
  seconds := decimalArgument args "--secs" (.ofDecimal false 3 0)
  items := wordArgument args "--items" 50000
  limit := wordArgument args "--iters" (Word64.size - 1)
  identity := args.contains "--identity"

end GoTree.Profile
