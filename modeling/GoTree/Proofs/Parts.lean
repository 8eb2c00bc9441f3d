import GoTree.Slots.Grammar
import Mathlib.Tactic.CasesM

/-!
# The parts of a node

`Slots` presents the slots of a construct one by one, each after the one before it has been
answered. This module is about the slots of a construct **as a whole**: what they hold at the
moment (`Slots.parts`), what is left when they are emptied (`Slots.blank`), and what is rebuilt from
a list of new contents (`Slots.Refills`).

The three belong together by `Slots.Lawful`: what a slot holds never depends on the answers to the
slots before it, a construct refilled with other parts has exactly these parts, and refilling
changes nothing else. The law is a finite check for each construct (`Category.lawful`,
`Kind.lawful`, `Pool.lawful`); everything later uses the law and never a construct.

A node of any kind has a **body**, the value whose slots are traversed: the payload of a stored
node, or the value itself.
-/

namespace GoTree

/-- What sits in a slot, with the label of the slot. An item of a list is a part too: it is seen
through to its own slots. -/
inductive SlotPart where
  | node (label : String) (n : Node)
  | list (label : String) (p : Pool) (seg : Segment p)
  | item (label : String) (p : Pool) (x : p.Item)

/-- A value of each kind, to stand in an emptied slot. -/
def Kind.filler : (k : Kind) → k.Value
  | .stored _ => ⟨0⟩
  | .fieldList => {}
  | .ident => ⟨⟨0⟩, .none⟩
  | .basicLit => ⟨.int, ⟨0⟩⟩
  | .block => {}
  | .expandedBlock => {}
  | .spec => .valueSpec ⟨none, .empty, none, .empty, none⟩
  | .package => ⟨⟨0⟩, .empty⟩

namespace Slots

variable {α : Type}

/-- The present contents of the slots, in order. -/
def parts : Slots α → List SlotPart
  | done _ => []
  | node l k v next => .node l ⟨k, v⟩ :: (next v).parts
  | list l p seg next => .list l p seg :: (next seg).parts

/-- What is rebuilt when every slot is emptied: all of a construct that is not in its slots. -/
def blank : Slots α → α
  | done a => a
  | node _ k _ next => (next k.filler).blank
  | list _ _ _ next => (next .empty).blank

/-- Answering the slots in order with the contents in the list rebuilds the given value. -/
inductive Refills : Slots α → List SlotPart → α → Prop where
  | done (a : α) : Refills (.done a) [] a
  | node {l : String} {k : Kind} {v v' : k.Value} {next : k.Value → Slots α} {ps : List SlotPart}
      {a : α} (h : Refills (next v') ps a) :
      Refills (.node l k v next) (.node l ⟨k, v'⟩ :: ps) a
  | list {l : String} {p : Pool} {seg seg' : Segment p} {next : Segment p → Slots α}
      {ps : List SlotPart} {a : α} (h : Refills (next seg') ps a) :
      Refills (.list l p seg next) (.list l p seg' :: ps) a

/-- Answering with the present contents is rebuilding. -/
theorem refills_parts_iff {x : Slots α} {a : α} : x.Refills x.parts a ↔ a = x.rebuild := by
  induction x with
  | done b =>
    constructor
    · rintro ⟨⟩
      rfl
    · rintro rfl
      exact .done _
  | node l k v next ih =>
    constructor
    · rintro ⟨⟩
      next h => exact (ih v).mp h
    · rintro rfl
      exact .node ((ih v).mpr rfl)
  | list l p seg next ih =>
    constructor
    · rintro ⟨⟩
      next h => exact (ih seg).mp h
    · rintro rfl
      exact .list ((ih seg).mpr rfl)

/-! ### The law -/

/-- Whatever the slots are answered with, the contents of the later ones stay as they are, and
the value `y` rebuilt at the end has the answers as its parts, after the parts `qs` answered
before, and `b` as its blank. -/
def Tracks (slots : α → Slots α) (b : α) : Slots α → List SlotPart → Prop
  | done y, qs => (slots y).parts = qs ∧ (slots y).blank = b
  | node l k v next, qs => ∀ v', (next v').parts = (next v).parts ∧
      (next v').Tracks slots b (qs ++ [.node l ⟨k, v'⟩])
  | list l p seg next, qs => ∀ seg', (next seg').parts = (next seg).parts ∧
      (next seg').Tracks slots b (qs ++ [.list l p seg'])

/-- The law of a family of slots. -/
structure Lawful (slots : α → Slots α) : Prop where
  /-- A value is rebuilt from its own contents. -/
  rebuild : ∀ x, (slots x).rebuild = x
  /-- A refilled value has the new contents, and nothing else of it is new. -/
  tracks : ∀ x, (slots x).Tracks slots (slots x).blank []

theorem Tracks.of_refills {slots : α → Slots α} {b y : α} {x : Slots α} {qs ps : List SlotPart}
    (ht : x.Tracks slots b qs) (h : x.Refills ps y) :
    (slots y).parts = qs ++ ps ∧ (slots y).blank = b := by
  -- `qs` grows by one answer at each slot
  induction h generalizing qs with
  | done a => simpa [Tracks] using ht
  | node h ih => simpa using ih (ht _).2
  | list h ih => simpa using ih (ht _).2

namespace Lawful

variable {slots : α → Slots α} {x y : α} {ps : List SlotPart}

/-- A refilled value has exactly the parts it was refilled with. -/
theorem parts_eq (h : Lawful slots) (hr : (slots x).Refills ps y) : (slots y).parts = ps := by
  simpa using ((h.tracks x).of_refills hr).1

/-- Refilling keeps all that is not in a slot. -/
theorem blank_eq (h : Lawful slots) (hr : (slots x).Refills ps y) :
    (slots y).blank = (slots x).blank :=
  ((h.tracks x).of_refills hr).2

/-- Refilling with the present contents changes nothing. -/
theorem eq_of_refills_parts (h : Lawful slots) (hr : (slots x).Refills (slots x).parts y) :
    y = x := by
  rw [refills_parts_iff.mp hr, h.rebuild]

end Lawful

end Slots

open Slots (Lawful)

/-! ### Bodies -/

/-- What a node of a kind consists of. -/
abbrev Kind.Body : Kind → Type
  | .stored c => c.Payload
  | .fieldList => FieldList
  | .ident => IdentName
  | .basicLit => BasicLit
  | .block => Block
  | .expandedBlock => Block
  | .spec => Spec
  | .package => Package

/-- The slots of a body. -/
def Kind.bodySlots : (k : Kind) → k.Body → Slots k.Body
  | .stored c, x => c.slots x
  | .fieldList, x => FieldList.slots x
  | .ident, x => .done x
  | .basicLit, x => .done x
  | .block, x => Block.slots x
  | .expandedBlock, x => Block.slots x
  | .spec, x => Spec.slots x
  | .package, x => Package.slots x

namespace Node

/-- The body of a node as it stands in the store. Only a stored node can lack one. -/
def body? (s : Store) : (n : Node) → Option n.kind.Body
  | ⟨.stored _, id⟩ => s.get? id
  | ⟨.fieldList, v⟩ => some v
  | ⟨.ident, v⟩ => some v
  | ⟨.basicLit, v⟩ => some v
  | ⟨.block, v⟩ => some v
  | ⟨.expandedBlock, v⟩ => some v
  | ⟨.spec, v⟩ => some v
  | ⟨.package, v⟩ => some v

/-- Gives a node a new body: a stored node is overwritten, any other node is the new body. -/
def close : (n : Node) → n.kind.Body → StoreM Node
  | ⟨.stored _, id⟩, x => do
      StoreM.save id x
      return .stored id
  | ⟨.fieldList, _⟩, x => return ⟨.fieldList, x⟩
  | ⟨.ident, _⟩, x => return ⟨.ident, x⟩
  | ⟨.basicLit, _⟩, x => return ⟨.basicLit, x⟩
  | ⟨.block, _⟩, x => return ⟨.block, x⟩
  | ⟨.expandedBlock, _⟩, x => return ⟨.expandedBlock, x⟩
  | ⟨.spec, _⟩, x => return ⟨.spec, x⟩
  | ⟨.package, _⟩, x => return ⟨.package, x⟩

/-- A node without a body is an id that is not allocated. -/
theorem exists_of_body?_eq_none {s : Store} {n : Node} (h : n.body? s = none) :
    ∃ (c : Category) (id : Id c), n = .stored id ∧ s.get? id = none := by
  obtain ⟨k, v⟩ := n
  cases k with
  | stored c => exact ⟨c, v, rfl, h⟩
  | _ => cases h

/-- A node keeps its kind when it is closed. -/
theorem kind_of_close {n r : Node} {x : n.kind.Body} {s s' : Store}
    (h : n.close x s = .ok r s') : r.kind = n.kind := by
  obtain ⟨k, v⟩ := n
  cases k with
  | stored c =>
    simp only [close, StoreM.save, bind, EStateM.bind, pure, EStateM.pure] at h
    split at h
    · cases h
      rfl
    · cases h
  | _ =>
    cases h
    rfl

end Node

/-! ### All constructs are lawful -/

/-- The slots of every payload are lawful. -/
theorem Category.lawful (c : Category) : Lawful c.slots := by
  -- once the optional and alternative parts are split, the slots are a fixed sequence of requests,
  -- and every clause of the law is an equation by computation
  cases c <;> refine ⟨fun x => ?_, fun x => ?_⟩ <;> cases x <;>
    (try casesm* Option _, Results, ArrayLen, TypeConstraint, Callee, BranchStmt, ForKind,
      TypeSwitchGuard, GenDecl) <;>
    repeat' first | intro _ | constructor

/-- The slots of the body of every kind are lawful. -/
theorem Kind.lawful (k : Kind) : Lawful k.bodySlots := by
  cases k with
  | stored c => exact c.lawful
  | _ =>
    refine ⟨fun x => ?_, fun x => ?_⟩ <;> cases x <;>
      (try casesm* ImportSpec, ValueSpec, TypeSpec, Option _) <;>
      repeat' first | intro _ | constructor

/-- The slots of every list item are lawful, whatever the label of the list. -/
theorem Pool.lawful (p : Pool) (label : String) : Lawful (p.slots label) := by
  cases p <;> refine ⟨fun x => ?_, fun x => ?_⟩ <;> cases x <;>
    (try casesm* Option _, Key, Element) <;>
    repeat' first | intro _ | constructor

end GoTree
