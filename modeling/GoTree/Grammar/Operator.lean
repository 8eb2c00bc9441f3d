/-!
# Operators

The operators of expressions and statements, and the directions of channel types, each with its
spelling.
-/

namespace GoTree

/-- Operators written before their operand. -/
inductive UnaryOp where
  | add
  | sub
  | not
  | xor
  | deref
  | addr
  | recv
  deriving DecidableEq

/-- Operators written between their operands. -/
inductive BinaryOp where
  | add
  | sub
  | mul
  | div
  | mod
  | and
  | or
  | xor
  | shl
  | shr
  | andNot
  | logicalAnd
  | logicalOr
  | eq
  | ne
  | lt
  | le
  | gt
  | ge
  deriving DecidableEq

/-- Operators of assignments. -/
inductive AssignOp where
  | assign
  | add
  | sub
  | mul
  | div
  | mod
  | and
  | or
  | xor
  | shl
  | shr
  | andNot
  deriving DecidableEq

/-- Increment and decrement. -/
inductive IncDecOp where
  | inc
  | dec
  deriving DecidableEq

/-- The directions of a channel type. -/
inductive ChanDir where
  | both
  | send
  | recv
  deriving DecidableEq

/-- The spelling of an operator. -/
def UnaryOp.text : UnaryOp → String
  | .add => "+"
  | .sub => "-"
  | .not => "!"
  | .xor => "^"
  | .deref => "*"
  | .addr => "&"
  | .recv => "<-"

/-- The spelling of an operator. -/
def BinaryOp.text : BinaryOp → String
  | .add => "+"
  | .sub => "-"
  | .mul => "*"
  | .div => "/"
  | .mod => "%"
  | .and => "&"
  | .or => "|"
  | .xor => "^"
  | .shl => "<<"
  | .shr => ">>"
  | .andNot => "&^"
  | .logicalAnd => "&&"
  | .logicalOr => "||"
  | .eq => "=="
  | .ne => "!="
  | .lt => "<"
  | .le => "<="
  | .gt => ">"
  | .ge => ">="

/-- The spelling of an operator. -/
def AssignOp.text : AssignOp → String
  | .assign => "="
  | .add => "+="
  | .sub => "-="
  | .mul => "*="
  | .div => "/="
  | .mod => "%="
  | .and => "&="
  | .or => "|="
  | .xor => "^="
  | .shl => "<<="
  | .shr => ">>="
  | .andNot => "&^="

/-- The spelling of an operator. -/
def IncDecOp.text : IncDecOp → String
  | .inc => "++"
  | .dec => "--"

/-- How a channel type of this direction begins. -/
def ChanDir.text : ChanDir → String
  | .both => "chan "
  | .send => "chan<- "
  | .recv => "<-chan "

end GoTree
