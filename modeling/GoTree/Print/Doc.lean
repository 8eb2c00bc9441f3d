import GoTree.Handle
import GoTree.Print.Pen

/-!
# Documents

A `Doc` is laid out text before its indentation is known: fixed words, names, line ends, nested
parts and parts in brackets. `Doc.write` appends its text to a string at a given indentation, one
tab for each level. A `Draft` is a document or the fault that was met on the way to it, and
`Draft.draw` writes it with a pen.

In a document brackets come in pairs, and the fixed words hold neither brackets nor line ends
(`Word.plain`); so whatever else it contains stems from its names. That a node is printed as a
document at all is the subject of `GoTree.Proofs.Rendering`.
-/

namespace GoTree

/-- The three pairs of brackets. -/
inductive Bracket where
  | round
  | square
  | curly
  deriving DecidableEq

namespace Bracket

/-- The bracket that opens. -/
def opening : Bracket → Char
  | round => '('
  | square => '['
  | curly => '\x7b'

/-- The bracket that closes. -/
def closing : Bracket → Char
  | round => ')'
  | square => ']'
  | curly => '\x7d'

/-- Whether a character is one of the six brackets. -/
def isBracket (c : Char) : Bool :=
  [round, square, curly].any fun b => c == b.opening || c == b.closing

end Bracket

/-- Fixed text without brackets and line ends. -/
structure Word where
  text : String
  plain : text.toList.all (fun c => !(c == '\n' || Bracket.isBracket c)) = true

/-- Text to be laid out. -/
inductive Doc where
  | empty
  | word (w : Word)
  /-- An interned string, with its symbol. -/
  | name (sym : Symbol) (text : String)
  /-- A line end and the indentation of the next line. -/
  | line
  /-- One level of indentation more. -/
  | nest (d : Doc)
  | enclosed (b : Bracket) (d : Doc)
  | append (a b : Doc)

namespace Doc

instance : Append Doc := ⟨append⟩

/-- Appends the text of a document at an indentation. -/
def write (indent : Nat) : Doc → String → String
  | empty, out => out
  | word w, out => out ++ w.text
  | name _ text, out => out ++ text
  | line, out => Pen.tabs indent (out.push '\n')
  | nest d, out => write (indent + 1) d out
  | enclosed b d, out => (write indent d (out.push b.opening)).push b.closing
  | append a b, out => write indent b (write indent a out)

/-- The text of a document that starts without indentation. -/
def text (d : Doc) : String :=
  d.write 0 ""

/-- The symbols of the names in a document, from left to right. -/
def symbols : Doc → List Symbol
  | empty => []
  | word _ => []
  | name sym _ => [sym]
  | line => []
  | nest d => d.symbols
  | enclosed _ d => d.symbols
  | append a b => a.symbols ++ b.symbols

end Doc

/-! ### Drafts -/

/-- A document, or the fault that was met first while it was put together. -/
abbrev Draft : Type :=
  Except Fault Doc

namespace Draft

/-- The document without text. -/
def empty : Draft :=
  .ok .empty

/-- A fixed word. -/
def word (text : String)
    (plain : text.toList.all (fun c => !(c == '\n' || Bracket.isBracket c)) = true := by decide) :
    Draft :=
  .ok (.word ⟨text, plain⟩)

/-- A line end. -/
def line : Draft :=
  .ok .line

/-- One draft after another. The second is not looked at after a fault in the first. -/
def andThen : Draft → (Unit → Draft) → Draft
  | .ok a, b => (b ()).map (a ++ ·)
  | .error e, _ => .error e

instance : AndThen Draft := ⟨andThen⟩

/-- One level of indentation more. -/
def nest (d : Draft) : Draft :=
  d.map .nest

/-- A draft in brackets. -/
def enclosed (b : Bracket) (d : Draft) : Draft :=
  d.map (.enclosed b)

variable {α : Type}

/-- A draft of a value that may be absent. -/
def option (f : α → Draft) : Option α → Draft
  | none => empty
  | some a => f a

/-- The drafts of values, one after another. -/
def concat (f : α → Draft) : List α → Draft
  | [] => empty
  | a :: as => f a >> concat f as

/-- The drafts of values with a separator between any two. -/
def join (sep : Draft) (f : α → Draft) : List α → Draft
  | [] => empty
  | a :: as => f a >> concat (fun a => sep >> f a) as

/-- Writes a document at the indentation of the pen, or meets the fault of the draft. -/
def draw (d : Draft) : PrintM Unit := fun pen =>
  d.map fun a => ((), { pen with out := a.write pen.indent pen.out })

end Draft

end GoTree
