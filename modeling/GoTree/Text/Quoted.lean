import GoTree.Text.CombiningMark
import GoTree.Text.DefaultIgnorable
import GoTree.Text.Unprintable

/-!
# Quoted text

The source form of a string literal: the text between double quotes, with a backslash before a
double quote or a backslash, the short escapes for NUL, tab, line feed and carriage return, and a
braced hexadecimal escape for every other character that a reader could not see for itself: one
without a printed form, one that is ignored in display, and one that joins the character before
it.
-/

namespace GoTree

namespace Quoted

/-- The letter of the short escape of a character, if it has one. -/
def shortEscape? (c : Char) : Option Char :=
  if c = '"' then some '"'
  else if c = '\\' then some '\\'
  else if c = '\x00' then some '0'
  else if c = '\t' then some 't'
  else if c = '\n' then some 'n'
  else if c = '\r' then some 'r'
  else none

/-- Whether a character without a short escape is written by its code point. -/
def isCoded (c : Char) : Bool :=
  CodeSet.combiningMark.contains c || CodeSet.defaultIgnorable.contains c
    || CodeSet.unprintable.contains c

/-- The written form of one character. Code points are in lower-case hexadecimal digits without
leading zeros. -/
def encodeChar (c : Char) : List Char :=
  match shortEscape? c with
  | some e => ['\\', e]
  | none =>
    if isCoded c then ['\\', 'u', '\x7b'] ++ Nat.toDigits 16 c.toNat ++ ['\x7d'] else [c]

/-- The written form of a text, without the quotes. -/
def encode (cs : List Char) : List Char :=
  cs.flatMap encodeChar

/-- The quoted form of a text. -/
def quote (s : String) : String :=
  String.ofList ('"' :: encode s.toList ++ ['"'])

end Quoted

end GoTree
