import GoTree.Profile.Run

/-!
# The profiling program

`--items N --secs S [--iters N] [--identity]`: traverses a template of `N` statements again and
again for `S` seconds, and reports the number of traversals, their combined checksum and the size of
the template on standard error.
-/

namespace GoTree.Profile

/-- Repeats the traversal until the limit or the end of the time is reached. -/
partial def repeatUntil (stop limit : Nat) (store : Store) (root : Node) (identity : Bool)
    (iters : Nat) (acc : UInt64) : IO (Nat × UInt64) := do
  if limit ≤ iters || stop ≤ (← IO.monoNanosNow) then return (iters, acc)
  match once wordSize store root identity with
  | .ok sum => repeatUntil stop limit store root identity (iters + 1) (acc ^^^ sum)
  | .error e => throw (IO.userError e.message)

/-- Runs with these options and prints the report. -/
def report (options : Options) : IO Unit := do
  let template ← IO.ofExcept ((Template.ofItems options.items).mapError Failure.message)
  let duration ← IO.ofExcept ((nanoseconds options.seconds).mapError DurationError.message)
  let start ← IO.monoNanosNow
  let (iters, sum) ← repeatUntil (start + duration) options.limit template.builder.store
    template.root options.identity 0 0
  let elapsed := ((← IO.monoNanosNow) - start) / 1000000
  let symbols := template.builder.names.size
  let items := options.items
  let counts := s!"iters={iters} checksum={sum} items={items} symbols={symbols}"
  IO.eprintln s!"hot_rewrite done {counts} elapsed_ms={elapsed}"

end GoTree.Profile

/-- The program. A run that fails ends with exit code 101. -/
def main (args : List String) : IO UInt32 := do
  try
    GoTree.Profile.report (GoTree.Profile.Options.ofArguments args)
    return 0
  catch e =>
    IO.eprintln e
    return 101
