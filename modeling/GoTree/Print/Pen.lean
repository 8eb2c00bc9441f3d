import GoTree.Fault

/-!
# Pens

Text is written with a **pen**. It holds the text so far and the indentation of the next line, and
`PrintM` is the monad of actions that move a pen and may fault. Nothing here ties the actions
together: brackets are opened and closed by two separate `push`es, and a level of indentation that
`indent` adds stays until `dedent` takes it back.
-/

namespace GoTree

/-- The text so far, and the indentation of the next line. -/
structure Pen where
  out : String := ""
  indent : Nat := 0

/-- Appends `n` tabs. -/
def Pen.tabs : Nat → String → String
  | 0, out => out
  | n + 1, out => tabs n (out.push '\t')

/-- Actions with a pen. A fault ends the printing, and the text is lost. -/
abbrev PrintM : Type → Type :=
  StateT Pen (Except Fault)

namespace PrintM

/-- Writes a string. -/
def push (s : String) : PrintM Unit :=
  modify fun pen => { pen with out := pen.out ++ s }

/-- Ends the line and writes the indentation of the next one. -/
def newline : PrintM Unit :=
  modify fun pen => { pen with out := Pen.tabs pen.indent (pen.out.push '\n') }

/-- One level of indentation more. -/
def indent : PrintM Unit :=
  modify fun pen => { pen with indent := pen.indent + 1 }

/-- One level of indentation less. -/
def dedent : PrintM Unit := do
  let pen ← get
  if pen.indent = 0 then throw .subOverflow
  set { pen with indent := pen.indent - 1 }

/-- An action that takes place if a condition holds. -/
def when (c : Bool) (x : PrintM Unit) : PrintM Unit :=
  if c then x else pure ()

/-- An action for each value, with another one between any two. -/
def join {α : Type} (sep : PrintM Unit) (f : α → PrintM Unit) (as : List α) : PrintM Unit :=
  as.zipIdx.forM fun (a, i) => do
    when (0 < i) sep
    f a

end PrintM

end GoTree
