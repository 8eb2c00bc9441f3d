import GoTree.Handle
import Std.Data.HashMap

/-!
# Interned names

A `NameTable` numbers the strings it has been given, in the order in which they first came. Strings
are looked up through buckets by hash. The hash function is a field of the table: two strings may
have the same hash, so a bucket may hold several symbols, and nothing that a table answers depends
on which function it is.
-/

namespace GoTree

/-- The strings numbered so far. -/
structure NameTable where
  /-- The function that chooses the bucket of a string. -/
  hash : String → UInt64 := fun s => s.hash
  /-- The strings, in the order of their numbers. -/
  strings : Array String := #[]
  /-- For each hash the symbols of the strings that have it, oldest first. -/
  buckets : Std.HashMap UInt64 (List Symbol) := {}

namespace NameTable

/-- The number of strings. -/
def size (t : NameTable) : Nat :=
  t.strings.size

/-- The string of a symbol, if it has one. -/
def string? (t : NameTable) (sym : Symbol) : Option String :=
  t.strings[sym.index]?

/-- The string of a symbol. -/
def resolve (t : NameTable) (sym : Symbol) : Except Fault String :=
  match t.string? sym with
  | some s => .ok s
  | none => .error .invalidSymbol

/-- The symbols in the bucket of a hash. -/
def bucket (t : NameTable) (h : UInt64) : List Symbol :=
  t.buckets.getD h []

/-- The symbol of a string, if the string has been given before. -/
def find? (t : NameTable) (s : String) : Option Symbol :=
  (t.bucket (t.hash s)).find? fun sym => t.string? sym == some s

/-- Numbers a string that the table does not hold. Symbols are counted in 32 bits. -/
def add (t : NameTable) (s : String) : Symbol × NameTable :=
  let sym : Symbol := ⟨t.strings.size.toUInt32⟩
  let h := t.hash s
  (sym, { t with
    strings := t.strings.push s
    buckets := t.buckets.alter h fun syms => some (syms.getD [] ++ [sym]) })

/-- The symbol of a string, which is numbered if it is new. -/
def intern (t : NameTable) (s : String) : Symbol × NameTable :=
  match t.find? s with
  | some sym => (sym, t)
  | none => t.add s

end NameTable

end GoTree
