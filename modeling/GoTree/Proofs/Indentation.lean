import GoTree.Proofs.Rendering
import GoTree.Proofs.Writing

/-!
# Indentation is compositional

Printing keeps the indentation of its pen as a number that it changes on the way. Still a node is
printed in the same way at any indentation: `render_indented` says that a pen which starts at `k`
ends at `k`, and that what it has written is the printed text of the node with `k` tabs after each
line end, provided no name has a line end of its own. So the text of a block is put together from
the texts of its statements.

Printing writes a document (`Store.render_eq_draw`), and at `k` levels more a document adds the same
characters, with `k` tabs more after each line end (`Doc.chars_add`).
-/

namespace GoTree

/-! ### Tabs after line ends -/

/-- Characters with `k` tabs after each line end. -/
def indentChars (k : Nat) (cs : List Char) : List Char :=
  cs.flatMap fun c => if c = '\n' then '\n' :: List.replicate k '\t' else [c]

/-- A text with `k` tabs after each line end. -/
def indented (k : Nat) (s : String) : String :=
  String.ofList (indentChars k s.toList)

section Chars

variable {k : Nat} {cs ds : List Char}

private theorem indentChars_append :
    indentChars k (cs ++ ds) = indentChars k cs ++ indentChars k ds :=
  List.flatMap_append

private theorem indentChars_newline_cons :
    indentChars k ('\n' :: cs) = '\n' :: List.replicate k '\t' ++ indentChars k cs := by
  rw [indentChars, List.flatMap_cons, if_pos rfl]
  rfl

theorem indentChars_cons_of_ne {c : Char} (hc : c ≠ '\n') :
    indentChars k (c :: cs) = c :: indentChars k cs := by
  rw [indentChars, List.flatMap_cons, if_neg hc]
  rfl

private theorem indentChars_of_notMem (h : '\n' ∉ cs) : indentChars k cs = cs := by
  induction cs with
  | nil => rfl
  | cons c cs ih =>
    rw [List.mem_cons, not_or] at h
    rw [indentChars_cons_of_ne (Ne.symm h.1), ih h.2]

end Chars

private theorem Word.newline_notMem (w : Word) : '\n' ∉ w.text.toList := by
  intro h
  simpa using List.all_eq_true.mp w.plain '\n' h

private theorem Bracket.opening_ne_newline (b : Bracket) : b.opening ≠ '\n' := by
  cases b <;> decide

private theorem Bracket.closing_ne_newline (b : Bracket) : b.closing ≠ '\n' := by
  cases b <;> decide

/-- At `k` levels more, a document adds the same characters, with `k` tabs more after each line
end. -/
theorem Doc.chars_add {d : Doc} (hd : d.AllNames fun text => '\n' ∉ text.toList) (j k : Nat) :
    d.chars (j + k) = indentChars k (d.chars j) := by
  induction d generalizing j with
  | empty => rfl
  | word w => exact (indentChars_of_notMem w.newline_notMem).symm
  | name sym text => exact (indentChars_of_notMem hd).symm
  | line =>
    have htabs : '\n' ∉ List.replicate j '\t' := by simp
    rw [chars, chars, indentChars_newline_cons, indentChars_of_notMem htabs, List.cons_append,
      List.replicate_append_replicate, Nat.add_comm]
  | nest d ih =>
    rw [chars, chars, Nat.add_right_comm]
    exact ih hd (j + 1)
  | enclosed b d ih =>
    have hclose : indentChars k [b.closing] = [b.closing] :=
      indentChars_cons_of_ne b.closing_ne_newline
    rw [chars, chars, indentChars_append, indentChars_cons_of_ne b.opening_ne_newline, hclose,
      ih hd]
  | append a b iha ihb => rw [chars, chars, indentChars_append, iha hd.1, ihb hd.2]

/-- At indentation `k`, a document is written as its text with `k` tabs after each line end. -/
theorem Doc.write_eq_indented {d : Doc} (hd : d.AllNames fun text => '\n' ∉ text.toList) (k : Nat)
    (out : String) : d.write k out = out ++ indented k d.text := by
  have hk : d.chars k = indentChars k (d.chars 0) := by
    rw [← chars_add hd, Nat.zero_add]
  apply String.toList_inj.mp
  rw [toList_write, hk, String.toList_append, indented, String.toList_ofList, toList_text]

/-! ### Drafts -/

namespace Draft

variable {d e : Draft} {k : Nat}

/-- The text of a draft at an indentation. -/
def textAt (k : Nat) (d : Draft) : Except Fault String :=
  d.map fun a => a.write k ""

theorem textAt_line : textAt k line = .ok (Pen.tabs k "\n") :=
  rfl

private theorem textAt_nest : textAt k (nest d) = textAt (k + 1) d := by
  cases d <;> rfl

private theorem textAt_enclosed {b : Bracket} : textAt k (enclosed b d) =
    (textAt k d).map fun text => .singleton b.opening ++ text ++ .singleton b.closing := by
  cases d with
  | error f => rfl
  | ok a =>
    refine congrArg Except.ok (String.toList_inj.mp ?_)
    simp [Doc.toList_write, Doc.chars]

theorem textAt_andThen :
    textAt k (d >> e) = do return (← textAt k d) ++ (← textAt k e) := by
  cases d with
  | error f => rfl
  | ok a =>
    cases e with
    | error f => rfl
    | ok b =>
      refine congrArg Except.ok (String.toList_inj.mp ?_)
      rw [String.toList_append]
      simp only [Doc.toList_write]
      rfl

/-- Indentation can be added to the text afterwards. -/
private theorem textAt_eq_indented (hd : d.AllNames fun text => '\n' ∉ text.toList) :
    textAt k d = (textAt 0 d).map (indented k) := by
  cases d with
  | error f => rfl
  | ok a =>
    have hwrite := Doc.write_eq_indented (hd a rfl) k ""
    rw [String.empty_append] at hwrite
    exact congrArg Except.ok hwrite

end Draft

/-! ### Blocks -/

/-- Statements on lines of their own, one level deeper than what is around them. -/
def stmtLines (texts : List String) : String :=
  String.join (texts.map fun text => "\n\t" ++ indented 1 text)

/-- The lines of a block are made from the texts of its statements; a fault in one of them is the
fault of the block. -/
private theorem textAt_concat_line {f : Id .stmt → Draft}
    (hf : ∀ id, (f id).AllNames fun text => '\n' ∉ text.toList) (ids : List (Id .stmt)) :
    Draft.textAt 1 (Draft.concat (fun id => Draft.line >> f id) ids) =
      (ids.mapM fun id => Draft.textAt 0 (f id)).map stmtLines := by
  induction ids with
  | nil => rfl
  | cons id ids ih =>
    rw [Draft.concat, Draft.textAt_andThen, Draft.textAt_andThen, Draft.textAt_line,
      Draft.textAt_eq_indented (hf id), ih, List.mapM_cons]
    rcases Draft.textAt 0 (f id) with e | text
    · rfl
    · rcases ids.mapM fun id => Draft.textAt 0 (f id) with e | texts
      · rfl
      · refine congrArg Except.ok ?_
        rw [stmtLines, stmtLines, List.map_cons, String.join_cons]
        rfl

/-- A block with statements is drafted by drafting its statements. -/
private theorem textAt_block {s : Store} {names : NameTable} {depth : Nat} {stmts : Segment .stmts}
    {ids : Array (Id .stmt)}
    (hn : ∀ sym text, names.resolve sym = .ok text → '\n' ∉ text.toList)
    (hs : s.items stmts = .ok ids) (hne : ids ≠ #[]) :
    Draft.textAt 0 (Drafter.block ⟨s, names, s.draftPart names depth⟩ stmts) =
      (ids.toList.mapM fun id => Draft.textAt 0 (s.draftPart names depth (.stmt id))).map
        fun texts => "\x7b" ++ stmtLines texts ++ "\n\x7d" := by
  have hempty : ¬ids.isEmpty = true := by simpa using hne
  have hlines := textAt_concat_line (Store.writes_draftPart (s := s) hn depth).stmt ids.toList
  have hblock : Drafter.block ⟨s, names, s.draftPart names depth⟩ stmts =
      Draft.enclosed .curly (Draft.nest (Draft.concat (fun id => Draft.line >>
        Drafter.stmt ⟨s, names, s.draftPart names depth⟩ id) ids.toList) >> Draft.line) := by
    unfold Drafter.block
    rw [hs]
    exact if_neg hempty
  rw [hblock, Draft.textAt_enclosed, Draft.textAt_andThen, Draft.textAt_nest, hlines,
    Draft.textAt_line]
  change _ = Except.map _ (ids.toList.mapM fun id => Draft.textAt 0
    (Drafter.stmt ⟨s, names, s.draftPart names depth⟩ id))
  rcases ids.toList.mapM fun id => Draft.textAt 0
    (Drafter.stmt ⟨s, names, s.draftPart names depth⟩ id) with e | texts
  · rfl
  · refine congrArg Except.ok (String.toList_inj.mp ?_)
    simp [Bracket.opening, Bracket.closing, Pen.tabs]

/-- **Indentation.** Let no string of the name table have a line end in it. Then, whatever the store
and the depth,

* with any pen, a node is written exactly if it is printed at all, and with the same fault if not;
  the pen keeps its indentation, and what it adds to the text is the printed text of the node, with
  as many tabs after each line end as its indentation says;
* a block with statements is printed as the printed texts of its statements, each on a line of its
  own and one level deeper, between braces. -/
theorem render_indented {s : Store} {names : NameTable}
    (hn : ∀ sym text, names.resolve sym = .ok text → '\n' ∉ text.toList) (depth : Nat) :
    (∀ (n : Node) (pen : Pen), (s.render names depth n).run pen =
      (s.print names depth n).map fun text =>
        ((), ⟨pen.out ++ indented pen.indent text, pen.indent⟩)) ∧
    ∀ (b : Block) (ids : Array (Id .stmt)), s.items b.stmts = .ok ids → ids ≠ #[] →
      ∀ n ∈ [Node.block b, Node.expandedBlock b],
        s.print names depth n =
          (ids.toList.mapM fun id => s.print names depth (.stored id)).map fun texts =>
            "\x7b" ++ String.join (texts.map fun text => "\n\t" ++ indented 1 text) ++
              "\n\x7d" := by
  refine ⟨fun n pen => ?_, fun b ids hs hne n hmem => ?_⟩
  · rw [s.render_eq_draw, s.print_eq_text]
    rcases hd : s.draft names depth n with e | d
    · rfl
    · refine congrArg (fun out => Except.ok ((), { pen with out })) ?_
      exact Doc.write_eq_indented (Store.allNames_draft hn hd) pen.indent pen.out
  · simp only [s.print_eq_text]
    simp only [List.mem_cons, List.not_mem_nil, or_false] at hmem
    rcases hmem with rfl | rfl
    · exact textAt_block hn hs hne
    · exact textAt_block hn hs hne

/-- The statements `f: { f }` and `f`, the first of which has a label and a block. -/
def ladder : Store where
  tables := { exprs := .ofNodes #[.ident ⟨⟨0⟩, .none⟩]
              simpleStmts := .ofNodes #[.expr ⟨0⟩]
              stmts := .ofNodes #[.labeled ⟨⟨0⟩, .none⟩ ⟨1⟩, .block ⟨2, 1⟩, .simple ⟨0⟩] }
  buffers := { stmts := #[⟨0⟩, ⟨2⟩, ⟨2⟩] }

/-- Both statements in a block, at no indentation and at two levels. -/
theorem render_indented_ladder :
    let block : Block := ⟨⟨0, 2⟩⟩
    let names := NameTable.single "f"
    (∀ sym text, names.resolve sym = .ok text → '\n' ∉ text.toList) ∧
      ladder.items block.stmts = .ok #[⟨0⟩, ⟨2⟩] ∧
      ladder.print names 4 (.block block) =
        .ok "\x7b\n\tf:\n\t\x7b\n\t\tf\n\t\x7d\n\tf\n\x7d" ∧
      (ladder.render names 4 (.block block)).run ⟨"if f ", 2⟩ =
        .ok ((),
          ⟨"if f \x7b\n\t\t\tf:\n\t\t\t\x7b\n\t\t\t\tf\n\t\t\t\x7d\n\t\t\tf\n\t\t\x7d", 2⟩) := by
  intro block names
  have hn : ∀ sym text, names.resolve sym = .ok text → '\n' ∉ text.toList := by
    intro sym text h
    rw [NameTable.eq_of_resolve_single h]
    decide
  obtain ⟨hrender, hblock⟩ := render_indented (s := ladder) hn 4
  have hitems : ladder.items block.stmts = .ok #[⟨0⟩, ⟨2⟩] := rfl
  have hprint : ladder.print names 4 (.block block) =
      .ok "\x7b\n\tf:\n\t\x7b\n\t\tf\n\t\x7d\n\tf\n\x7d" := by
    obtain ⟨texts, htexts, hjoin⟩ : ∃ texts,
        [⟨0⟩, ⟨2⟩].mapM (fun id : Id .stmt => ladder.print names 4 (.stored id)) = .ok texts ∧
        "\x7b" ++ String.join (texts.map fun text => "\n\t" ++ indented 1 text) ++ "\n\x7d" =
          "\x7b\n\tf:\n\t\x7b\n\t\tf\n\t\x7d\n\tf\n\x7d" := ⟨_, rfl, by decide +kernel⟩
    rw [hblock block _ hitems (by decide) _ (.head _), htexts, ← hjoin]
    rfl
  have hout : "if f " ++ indented 2 "\x7b\n\tf:\n\t\x7b\n\t\tf\n\t\x7d\n\tf\n\x7d" =
      "if f \x7b\n\t\t\tf:\n\t\t\t\x7b\n\t\t\t\tf\n\t\t\t\x7d\n\t\t\tf\n\t\t\x7d" := by
    decide +kernel
  refine ⟨hn, hitems, hprint, ?_⟩
  rw [hrender, hprint, ← hout]
  rfl

end GoTree
