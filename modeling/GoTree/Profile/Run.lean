import GoTree.Profile.Arguments
import GoTree.Profile.Template
import GoTree.Transform.Split
import GoTree.Transform.Walk

/-!
# Profiling runs

A run builds the template once and then traverses it again and again, each time from a fresh copy,
until a number of repetitions or a time is reached. A **checksum** of each traversal is combined
into the report, so that no traversal can be left out unnoticed.
-/

namespace GoTree.Profile

/-! ### One traversal -/

/-- Counts the nodes it sees, and either keeps every node or splits declarations. -/
def counter (identity : Bool) : Transformer Nat where
  replace node := do
    modify fun ⟨store, visits⟩ => ⟨store, visits + 1⟩
    if identity then return (node, true) else TransformM.onStore (splitDecl node)

/-- The factor by which the length of the resulting block enters the checksum. -/
def lengthFactor : UInt64 := 0xA24BAED4963EE407

/-- Combines the number of nodes seen with the length of the resulting block; another result counts
as an empty block. -/
def checksum (visits : Nat) (result : Node) : UInt64 :=
  let length := match result with
    | ⟨.block, block⟩ => block.stmts.length
    | _ => 0
  visits.toUInt64 ^^^ (length.toUInt64 * lengthFactor)

/-- Traverses a tree in a copy of the store and returns the checksum. -/
def once (depth : Nat) (store : Store) (root : Node) (identity : Bool) : Except Abort UInt64 := do
  let outcome := (counter identity).run depth root store 0
  return checksum outcome.state (← outcome.result)

/-! ### Durations -/

/-- Why a number of seconds is not a duration. -/
inductive DurationError where
  | negative
  | tooLarge
  deriving DecidableEq

/-- The text that reports a bad duration. -/
def DurationError.message : DurationError → String
  | negative => "cannot convert float seconds to Duration: value is negative"
  | tooLarge => "cannot convert float seconds to Duration: value is either too big or NaN"

/-- A number of seconds in nanoseconds, rounded to the nearest and to even between two. A number
below zero is refused, and so is one of 2^64 seconds or more and what is not a number; a negative
zero is zero. -/
def nanoseconds (seconds : Binary64) : Except DurationError Nat :=
  let m := seconds.magnitude
  if seconds.isNegative && 0 < m && m ≤ Binary64.infinityBits then .error .negative
  else
    match seconds.ratio? with
    | none => .error .tooLarge
    | some (num, den) =>
      if Word64.size * den ≤ num then .error .tooLarge
      else .ok (roundHalfEven (num * 1000000000) den)

/-! ### Repetition -/

/-- How many repetitions there are, of at most `limit`, if repetition `i` takes place whenever
`goOn i` holds. -/
def repetitions (goOn : Nat → Bool) : (limit : Nat) → (i : Nat) → Nat
  | 0, i => i
  | limit + 1, i => if goOn i then repetitions goOn limit (i + 1) else i

/-- The checksums of `k` traversals combined, each of which starts from the same store. -/
def accumulate (depth : Nat) (store : Store) (root : Node) (identity : Bool) :
    (k : Nat) → UInt64 → Except Abort UInt64
  | 0, acc => pure acc
  | k + 1, acc => do
      let sum ← once depth store root identity
      accumulate depth store root identity k (acc ^^^ sum)

/-- What a run reports. -/
structure Report where
  iters : Nat
  checksum : UInt64
  items : Nat
  symbols : Nat

/-- Why a run ends without a report. -/
inductive Failure where
  | build (e : Fault)
  | duration (e : DurationError)
  | abort (e : Abort)

/-- The text that reports a failure. -/
def Failure.message : Failure → String
  | build e => e.message
  | duration e => e.message
  | abort e => e.message

/-- A template with the store and the names it was built in. -/
structure Template where
  root : Node
  builder : Builder

/-- Builds the template. -/
def Template.ofItems (items : Nat) : Except Failure Template :=
  match template items {} with
  | .ok root builder => .ok ⟨root, builder⟩
  | .error e _ => .error (.build e)

/-- A whole run under a clock that says how many nanoseconds have passed before each
repetition. -/
def run (clock : Nat → Nat) (options : Options) : Except Failure Report := do
  let template ← Template.ofItems options.items
  let duration ← (nanoseconds options.seconds).mapError .duration
  let iters := repetitions (fun i => clock i < duration) options.limit 0
  let checksum ← (accumulate wordSize template.builder.store template.root options.identity iters
    0).mapError .abort
  return {
    iters
    checksum
    items := options.items
    symbols := template.builder.names.size }

end GoTree.Profile
