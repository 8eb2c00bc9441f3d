import GoTree.Proofs.Rendering
import GoTree.Proofs.Writing

/-!
# Printed text is well bracketed

A word of brackets is **nested** when every bracket that is opened is closed by the bracket of its
pair, with a nested word in between (`Bracket.Nested`). `print_nested` says that the brackets of a
printed text are such a word, provided no name has brackets of its own.

Printing opens and closes brackets one by one, in strings that hold other text as well. That each
bracket meets its partner is what `Store.print_eq_text` says: the text is that of a document, where
a part in brackets puts one pair around what is nested by itself. Fixed words have no brackets
(`Word.plain`), line ends and indentation have none, and what is left is the names.
-/

namespace GoTree

namespace Bracket

/-- Properly nested words of brackets. -/
inductive Nested : List Char → Prop where
  | nil : Nested []
  /-- A pair of brackets around a nested word, and a nested word after it. -/
  | pair (b : Bracket) {u v : List Char} (hu : Nested u) (hv : Nested v) :
      Nested (b.opening :: (u ++ b.closing :: v))

theorem Nested.append {u v : List Char} (hu : Nested u) (hv : Nested v) : Nested (u ++ v) := by
  induction hu with
  | nil => exact hv
  | @pair b u w hu _ _ ih =>
    rw [List.cons_append, List.append_assoc, List.cons_append]
    exact .pair b hu ih

/-- The brackets among characters. -/
def bracketsOf (cs : List Char) : List Char :=
  cs.filter isBracket

theorem bracketsOf_append (cs ds : List Char) :
    bracketsOf (cs ++ ds) = bracketsOf cs ++ bracketsOf ds :=
  List.filter_append cs ds

private theorem bracketsOf_eq_nil {cs : List Char} (h : ∀ c ∈ cs, isBracket c = false) :
    bracketsOf cs = [] := by
  refine List.filter_eq_nil_iff.mpr fun c hc => ?_
  rw [h c hc]
  exact Bool.false_ne_true

private theorem bracketsOf_enclosed (b : Bracket) (cs : List Char) :
    bracketsOf (b.opening :: cs ++ [b.closing]) = b.opening :: (bracketsOf cs ++ [b.closing]) := by
  have hopen : bracketsOf [b.opening] = [b.opening] := by cases b <;> decide
  have hclose : bracketsOf [b.closing] = [b.closing] := by cases b <;> decide
  rw [← List.singleton_append, bracketsOf_append, bracketsOf_append, hopen, hclose]
  rfl

end Bracket

private theorem Word.isBracket_eq_false (w : Word) :
    ∀ c ∈ w.text.toList, Bracket.isBracket c = false := by
  intro c hc
  have hplain := List.all_eq_true.mp w.plain c hc
  simp only [Bool.not_eq_true', Bool.or_eq_false_iff] at hplain
  exact hplain.2

/-- The brackets of a document are nested, at any indentation. -/
theorem Doc.nested_chars {d : Doc}
    (hd : d.AllNames fun text => ∀ c ∈ text.toList, Bracket.isBracket c = false) (k : Nat) :
    Bracket.Nested (Bracket.bracketsOf (d.chars k)) := by
  induction d generalizing k with
  | empty => exact .nil
  | word w =>
    rw [chars, Bracket.bracketsOf_eq_nil w.isBracket_eq_false]
    exact .nil
  | name sym text =>
    rw [chars, Bracket.bracketsOf_eq_nil hd]
    exact .nil
  | line =>
    have hline : ∀ c ∈ '\n' :: List.replicate k '\t', Bracket.isBracket c = false := by
      refine List.forall_mem_cons.mpr ⟨by decide, fun c hc => ?_⟩
      rw [List.eq_of_mem_replicate hc]
      decide
    rw [chars, Bracket.bracketsOf_eq_nil hline]
    exact .nil
  | nest d ih => exact ih hd (k + 1)
  | enclosed b d ih =>
    rw [chars, Bracket.bracketsOf_enclosed]
    exact .pair b (ih hd k) .nil
  | append a b iha ihb =>
    rw [chars, Bracket.bracketsOf_append]
    exact (iha hd.1 k).append (ihb hd.2 k)

/-- **Brackets.** Let no string of the name table have a bracket in it. Then in every text that is
printed, of any node of any store, the round, square and curly brackets are properly nested. -/
theorem print_nested {s : Store} {names : NameTable} {depth : Nat} {n : Node} {text : String}
    (hn : ∀ sym name, names.resolve sym = .ok name → ∀ c ∈ name.toList, Bracket.isBracket c = false)
    (h : s.print names depth n = .ok text) :
    Bracket.Nested (text.toList.filter Bracket.isBracket) := by
  rw [s.print_eq_text] at h
  rcases hd : s.draft names depth n with e | d
  · rw [hd] at h
    cases h
  · rw [hd] at h
    cases h
    rw [Doc.toList_text]
    exact Doc.nested_chars (Store.allNames_draft hn hd) 0

/-- The function literal `func() map[f][]f { f(f[f]) }`. -/
def nestedCalls : Store where
  tables := { types := .ofNodes #[.named none ⟨⟨0⟩, .none⟩ .empty, .slice ⟨0⟩, .map ⟨0⟩ ⟨1⟩]
              signatures := .ofNodes #[⟨{}, some (.type ⟨2⟩)⟩]
              exprs := .ofNodes #[.ident ⟨⟨0⟩, .none⟩, .index ⟨0⟩ ⟨0, 1⟩,
                .call (.expr ⟨0⟩) none ⟨0, 1⟩ false, .funcLit ⟨0⟩ ⟨⟨0, 1⟩⟩]
              simpleStmts := .ofNodes #[.expr ⟨2⟩]
              stmts := .ofNodes #[.simple ⟨0⟩] }
  buffers := { exprOrTypes := #[.expr ⟨0⟩], exprs := #[⟨1⟩], stmts := #[⟨0⟩] }

/-- All three pairs, in types, expressions and statements. -/
theorem print_nested_calls :
    (∀ sym name, (NameTable.single "f").resolve sym = .ok name →
        ∀ c ∈ name.toList, Bracket.isBracket c = false) ∧
      nestedCalls.print (.single "f") 6 (.stored (⟨3⟩ : Id .expr)) =
        .ok "func() map[f][]f \x7b\n\tf(f[f])\n\x7d" ∧
      Bracket.Nested ['(', ')', '[', ']', '[', ']', '\x7b', '(', '[', ']', ')', '\x7d'] := by
  have hn : ∀ sym name, (NameTable.single "f").resolve sym = .ok name →
      ∀ c ∈ name.toList, Bracket.isBracket c = false := by
    intro sym name h
    rw [NameTable.eq_of_resolve_single h]
    exact List.forall_mem_singleton.mpr rfl
  have hprint : nestedCalls.print (.single "f") 6 (.stored (⟨3⟩ : Id .expr)) =
      .ok "func() map[f][]f \x7b\n\tf(f[f])\n\x7d" := rfl
  have hnested := print_nested hn hprint
  have hfilter : "func() map[f][]f \x7b\n\tf(f[f])\n\x7d".toList.filter Bracket.isBracket =
      ['(', ')', '[', ']', '[', ']', '\x7b', '(', '[', ']', ')', '\x7d'] := by decide +kernel
  rw [hfilter] at hnested
  exact ⟨hn, hprint, hnested⟩

end GoTree
