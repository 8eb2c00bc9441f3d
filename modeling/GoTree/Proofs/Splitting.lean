import GoTree.Proofs.AcyclicStores
import GoTree.Proofs.Splicing
import GoTree.Transform.Split

/-!
# Splitting declarations, one node at a time

`splitter` is the traversal that splits declarations. A statement is **simple** when it consists of
a simple statement, and **splittable** when it declares two names or more, each with a value of its
own. `splitDecl_cases` says what the splitter answers: simple statements are not descended into, and
the splittable ones among them are replaced by new declarations of one name each
(`Store.AddsDecls`).
-/

namespace GoTree

/-- The traversal that splits declarations. -/
def splitter : Transformer Unit where
  replace n := TransformM.onStore (splitDecl n)

/-! ### Simple statements and declarations -/

namespace Store

variable {p : Pool}

/-- A node is a statement that consists of a simple statement. -/
def IsSimple (s : Store) (n : Node) : Prop :=
  ∃ (id : Id .stmt) (simple : Id .simpleStmt), n = .stored id ∧ s.get? id = some (.simple simple)

/-- A statement is the short variable declaration with these lists. -/
def IsDecl (s : Store) (id : Id .stmt) (names : Segment .identNames) (values : Segment .exprs) :
    Prop :=
  ∃ simple : Id .simpleStmt, s.get? id = some (.simple simple) ∧
    s.get? simple = some (.shortVarDecl names values)

/-- A node is a declaration of at least two names with equally many values. -/
def Splittable (s : Store) (n : Node) : Prop :=
  ∃ id names values, n = .stored id ∧ s.IsDecl id names values ∧ 2 ≤ names.length ∧
    names.length = values.length

/-- A list lies in its buffer and holds exactly these items. -/
structure Holds (s : Store) (seg : Segment p) (xs : List p.Item) : Prop where
  stop_le : seg.stop ≤ (s.buffer p).size
  length_eq : xs.length = seg.length
  reads : s.Reads p seg.start.toNat xs

/-- A statement declares these names with these values. -/
def Declares (s : Store) (id : Id .stmt) (xs : List (IdentName × Id .expr)) : Prop :=
  ∃ names values, s.IsDecl id names values ∧ s.Holds names (xs.map Prod.fst) ∧
    s.Holds values (xs.map Prod.snd)

theorem Splittable.isSimple {s : Store} {n : Node} (h : s.Splittable n) : s.IsSimple n := by
  obtain ⟨id, names, values, rfl, ⟨simple, hid, -⟩, -⟩ := h
  exact ⟨id, simple, rfl, hid⟩

theorem IsSimple.body? {s : Store} {n : Node} (h : s.IsSimple n) : ∃ x, n.body? s = some x := by
  obtain ⟨id, simple, rfl, hid⟩ := h
  exact ⟨_, hid⟩

theorem IsSimple.resolves {s : Store} {n : Node} (h : s.IsSimple n) : n.Resolves s := by
  obtain ⟨id, simple, rfl, hid⟩ := h
  exact Node.resolves_stored (allocated_of_get? hid)

private theorem isSimple_of_isDecl {s : Store} {id : Id .stmt} {names : Segment .identNames}
    {values : Segment .exprs} (h : s.IsDecl id names values) : s.IsSimple (.stored id) := by
  obtain ⟨simple, hid, -⟩ := h
  exact ⟨id, simple, rfl, hid⟩

/-- A statement is one declaration at most. -/
theorem IsDecl.unique {s : Store} {id : Id .stmt} {names names' : Segment .identNames}
    {values values' : Segment .exprs} (h : s.IsDecl id names values)
    (h' : s.IsDecl id names' values') : names = names' ∧ values = values' := by
  obtain ⟨simple, hid, hsimple⟩ := h
  obtain ⟨simple', hid', hsimple'⟩ := h'
  cases hid.symm.trans hid'
  cases hsimple.symm.trans hsimple'
  exact ⟨rfl, rfl⟩

/-- A declaration of one name is not split again. -/
theorem Declares.not_splittable {s : Store} {id : Id .stmt} {x : IdentName × Id .expr}
    (h : s.Declares id [x]) : ¬s.Splittable (.stored id) := by
  obtain ⟨names, values, hd, hn, -⟩ := h
  rintro ⟨id', names', values', heq, hd', hlen, -⟩
  cases heq
  obtain ⟨rfl, rfl⟩ := hd.unique hd'
  have hone : 1 = names.length := hn.length_eq
  omega

theorem Declares.isSimple {s : Store} {id : Id .stmt} {xs : List (IdentName × Id .expr)}
    (h : s.Declares id xs) : s.IsSimple (.stored id) := by
  obtain ⟨names, values, hd, -⟩ := h
  exact isSimple_of_isDecl hd

/-- The items of a list that can be read. -/
private theorem holds_of_items {s : Store} {seg : Segment p} {xs : Array p.Item}
    (h : s.items seg = .ok xs) : s.Holds seg xs.toList := by
  have hextract := eq_extract_of_items h
  have hstop : seg.stop ≤ (s.buffer p).size := by
    unfold items at h
    split at h
    · cases h
    · next hf => exact (Segment.fault?_eq_none_iff.mp hf).2
  obtain ⟨ys, hlen, hys⟩ := exists_reads (s := s) (p := p) (k := seg.start.toNat)
    (n := seg.length) hstop
  have hxs : xs = ys.toArray := by rw [hextract, ← hys.extract_eq, hlen]; rfl
  subst hxs
  exact ⟨hstop, hlen, hys⟩

end Store

/-! ### What the splitter answers -/

section Answers

variable {s s' : Store} {n a : Node} {b : Bool}

theorem StoreM.read_eq_ok {α : Type} {f : Store → Except Fault α} {x : α}
    (h : StoreM.read f s = .ok x s') : f s = .ok x ∧ s' = s := by
  simp only [StoreM.read] at h
  split at h
  · next hf =>
    cases h
    exact ⟨hf, rfl⟩
  · cases h

theorem StoreM.load_eq_ok {c : Category} {id : Id c} {x : c.Payload}
    (h : StoreM.load id s = .ok x s') : s.get? id = some x ∧ s' = s := by
  obtain ⟨hx, rfl⟩ := StoreM.read_eq_ok h
  simp only [Store.get] at hx
  split at hx
  · next hget =>
    cases hx
    exact ⟨hget, rfl⟩
  · cases hx

theorem StoreM.load_of_get? {c : Category} {id : Id c} {x : c.Payload} (h : s.get? id = some x) :
    StoreM.load id s = .ok x s := by
  simp only [StoreM.load, StoreM.read, Store.get, h]

/-- The three answers: a node that is no simple statement is descended into, a simple statement is
kept as it is, and a splittable one is replaced. -/
theorem splitDecl_cases (h : splitDecl n s = .ok (a, b) s') :
    (¬s.IsSimple n ∧ a = n ∧ b = true ∧ s' = s) ∨
    (s.IsSimple n ∧ ¬s.Splittable n ∧ a = n ∧ b = false ∧ s' = s) ∨
    ∃ id names values, n = .stored id ∧ s.IsDecl id names values ∧ 2 ≤ names.length ∧
      names.length = values.length ∧ b = false ∧ splitPairs names values s = .ok a s' := by
  unfold splitDecl at h
  rcases hn : n.stmt? with _ | id
  · rw [hn] at h
    cases h
    refine .inl ⟨?_, rfl, rfl, rfl⟩
    rintro ⟨id, simple, rfl, -⟩
    exact Node.as?_eq_none_iff.mp hn rfl
  · rw [hn] at h
    obtain rfl := Node.as?_eq_some_iff.mp hn
    obtain ⟨x, s₁, hx, h⟩ := bind_eq_ok h
    obtain ⟨hget, rfl⟩ := StoreM.load_eq_ok hx
    cases x with
    | simple simple =>
      have hsimple : s₁.IsSimple (.stored id) := ⟨id, simple, rfl, hget⟩
      obtain ⟨y, s₂, hy, h⟩ := bind_eq_ok h
      obtain ⟨hget', rfl⟩ := StoreM.load_eq_ok hy
      cases y with
      | shortVarDecl names values =>
        have hdecl : s₂.IsDecl id names values := ⟨simple, hget, hget'⟩
        dsimp only at h
        split_ifs at h with htest
        · cases h
          refine .inr (.inl ⟨hsimple, ?_, rfl, rfl, rfl⟩)
          rintro ⟨id', names', values', heq, hd, hlen, hval⟩
          cases heq
          obtain ⟨rfl, rfl⟩ := hdecl.unique hd
          simp only [Bool.or_eq_true, decide_eq_true_eq, bne_iff_ne] at htest
          omega
        · simp only [Bool.or_eq_true, decide_eq_true_eq, bne_iff_ne] at htest
          obtain ⟨a', s₃, ha, h⟩ := bind_eq_ok h
          cases h
          exact .inr (.inr ⟨id, names, values, rfl, hdecl, by omega, by omega, rfl, ha⟩)
      | _ =>
        cases h
        refine .inr (.inl ⟨hsimple, ?_, rfl, rfl, rfl⟩)
        rintro ⟨id', names, values, heq, ⟨simple', hid, hd⟩, -⟩
        cases heq
        cases hget.symm.trans hid
        cases hget'.symm.trans hd
    | _ =>
      cases h
      refine .inl ⟨?_, rfl, rfl, rfl⟩
      rintro ⟨id', simple, heq, hid⟩
      cases heq
      cases hget.symm.trans hid

end Answers

/-! ### New declarations -/

/-- From `s` to `s'` the table of statements has grown by the statements `ids`. -/
structure Store.AddsStmts (s : Store) (ids : List (Id .stmt)) (s' : Store) : Prop where
  numbers : ids.map Id.index = List.range' (s.table .stmt).size ids.length
  size_eq : (s'.table .stmt).size = (s.table .stmt).size + ids.length

/-- From `s` to `s'` the statements `ids` were added, one declaration for each pair. -/
structure Store.AddsDecls (s : Store) (xs : List (IdentName × Id .expr))
    (ids : List (Id .stmt)) (s' : Store) : Prop where
  adds : s.Extends s'
  stmts : s.AddsStmts ids s'
  declares : List.Forall₂ (fun x id => s'.Declares id [x]) xs ids
  closed : s.Closed → (∀ x ∈ xs, (Node.stored x.2).Resolves s) → s'.Closed

section Decls

variable {s s₁ s' : Store} {p : Pool} {c : Category}

theorem Store.Extends.trans (h : s.Extends s₁) (h' : s₁.Extends s') : s.Extends s' :=
  ⟨h.grows.trans h'.grows, fun a ha => (h.same a ha).trans (h'.same a (h.grows.allocated ha))⟩

theorem Store.Extends.get? (h : s.Extends s') {id : Id c} {x : c.Payload}
    (hx : s.get? id = some x) : s'.get? id = some x :=
  (Store.get?_eq_of_sameAt (h.same _ (Store.allocated_of_get? hx))).trans hx

theorem Store.Extends.holds (h : s.Extends s') {seg : Segment p} {xs : List p.Item}
    (hx : s.Holds seg xs) : s'.Holds seg xs :=
  ⟨Nat.le_trans hx.stop_le (h.grows.buffer p), hx.length_eq,
    hx.reads.frame fun a ha => h.same a (hx.reads.allocated a ha)⟩

theorem Store.Extends.declares (h : s.Extends s') {id : Id .stmt}
    {xs : List (IdentName × Id .expr)} (hd : s.Declares id xs) : s'.Declares id xs := by
  obtain ⟨names, values, ⟨simple, hid, hsimple⟩, hn, hv⟩ := hd
  exact ⟨names, values, ⟨simple, h.get? hid, h.get? hsimple⟩, h.holds hn, h.holds hv⟩

theorem StoreM.extends_list {xs : Array p.Item} {seg : Segment p}
    (h : StoreM.list p xs s = .ok seg s') : s.Extends s' := by
  rw [StoreM.store_of_list.1 seg h]
  exact ⟨s.grows_append p xs, fun a => Store.sameAt_append⟩

theorem StoreM.holds_of_list {xs : List p.Item} {seg : Segment p}
    (h : StoreM.list p xs.toArray s = .ok seg s') : s'.Holds seg xs := by
  obtain ⟨-, hstop, hlen, hreads⟩ := StoreM.moves_list h
  exact ⟨hstop, hlen, hreads⟩

theorem StoreM.closed_list {xs : Array p.Item} {seg : Segment p} (hs : s.Closed)
    (h : StoreM.list p xs s = .ok seg s') (hx : ∀ x ∈ xs, s.ItemResolves p x) :
    s'.Closed ∧ seg.stop ≤ (s'.buffer p).size := by
  refine ⟨?_, StoreM.stop_le_of_list h⟩
  rw [StoreM.store_of_list.1 seg h]
  exact hs.append hx

theorem StoreM.get?_of_alloc {x : c.Payload} {id : Id c}
    (h : StoreM.alloc c x .none s = .ok id s') (hlt : (s.table c).size < wordSize) :
    s'.get? id = some x := by
  obtain ⟨hid, rfl⟩ := StoreM.alloc_eq_ok h hlt
  simp [Store.get?, Store.push, Table.push, hid, Table.size]

theorem Store.Closed.push (hs : s.Closed) {x : c.Payload} (hx : s.NodeResolves c x) (span : Span) :
    (s.push c x span).Closed := by
  refine hs.of_entries (s.grows_push c x span) (fun d i y hy => ?_) fun q i y hy => .inl hy
  by_cases hd : d = c
  · subst hd
    simp only [Store.push, table_modifyTable_self, Table.push, Array.getElem?_push] at hy
    split at hy
    · cases hy
      exact .inr hx
    · exact .inl hy
  · simp only [Store.push, table_modifyTable_of_ne s hd] at hy
    exact .inl hy

namespace Store.AddsStmts

variable {ids js : List (Id .stmt)}

theorem nil (h : (s'.table .stmt).size = (s.table .stmt).size) : s.AddsStmts [] s' :=
  ⟨rfl, h⟩

theorem append (h : s.AddsStmts ids s₁) (h' : s₁.AddsStmts js s') :
    s.AddsStmts (ids ++ js) s' where
  numbers := by
    rw [List.map_append, h.numbers, h'.numbers, h.size_eq, List.length_append,
      List.range'_append_1]
  size_eq := by rw [h'.size_eq, h.size_eq, List.length_append, Nat.add_assoc]

/-- What does not add statements may follow. -/
theorem later (h : s.AddsStmts ids s₁) (hs : (s'.table .stmt).size = (s₁.table .stmt).size) :
    s.AddsStmts ids s' :=
  ⟨h.numbers, hs.trans h.size_eq⟩

end Store.AddsStmts

namespace Store.AddsDecls

variable {xs ys : List (IdentName × Id .expr)} {ids js : List (Id .stmt)}

theorem nil (s : Store) : s.AddsDecls [] [] s where
  adds := .refl s
  stmts := .nil rfl
  declares := .nil
  closed hs _ := hs

theorem append (h : s.AddsDecls xs ids s₁) (h' : s₁.AddsDecls ys js s') :
    s.AddsDecls (xs ++ ys) (ids ++ js) s' where
  adds := h.adds.trans h'.adds
  stmts := h.stmts.append h'.stmts
  declares := List.rel_append (h.declares.imp fun _ _ hd => h'.adds.declares hd) h'.declares
  closed hs hxs := by
    rw [List.forall_mem_append] at hxs
    exact h'.closed (h.closed hs hxs.1) fun x hx => (hxs.2 x hx).mono h.adds.grows

theorem exists_declares (h : s.AddsDecls xs ids s') : ∀ id ∈ ids, ∃ x, s'.Declares id [x] := by
  have hd := h.declares
  clear h
  induction hd with
  | nil => exact List.forall_mem_nil _
  | cons hx _ ih => exact List.forall_mem_cons.mpr ⟨⟨_, hx⟩, ih⟩

/-- The new statements are collected in a list. -/
private theorem list (h : s.AddsDecls xs ids s₁) {seg : Segment .stmts}
    (hlist : StoreM.list .stmts ids.toArray s₁ = .ok seg s') : s.AddsDecls xs ids s' where
  adds := h.adds.trans (StoreM.extends_list hlist)
  stmts := h.stmts.later (by rw [StoreM.store_of_list.1 _ hlist]; rfl)
  declares := h.declares.imp fun _ _ hd => (StoreM.extends_list hlist).declares hd
  closed hs hxs := by
    refine (StoreM.closed_list (h.closed hs hxs) hlist fun id hid => ?_).1
    obtain ⟨x, hx⟩ := h.exists_declares id (by simpa using hid)
    exact Store.itemResolves_stmt.mpr hx.isSimple.resolves

end Store.AddsDecls

/-- A declaration of one name is four entries at the ends of tables and buffers. -/
theorem singleDecl_eq_ok {x : IdentName × Id .expr} {id : Id .stmt}
    (h : singleDecl x s = .ok id s') (hc : s'.Counted) : s.AddsDecls [x] [id] s' := by
  obtain ⟨names, s₁, hnames, h⟩ := bind_eq_ok h
  obtain ⟨values, s₂, hvalues, h⟩ := bind_eq_ok h
  obtain ⟨simple, s₃, hsimple, hid⟩ := bind_eq_ok h
  have he₁ := StoreM.extends_list hnames
  have he₂ := StoreM.extends_list hvalues
  have hs₃ : s₃ = s₂.push .simpleStmt (.shortVarDecl names values) .none := by
    cases hsimple
    rfl
  have hs' : s' = s₃.push .stmt (.simple simple) .none := by
    cases hid
    rfl
  have he₃ : s₂.Extends s₃ := hs₃ ▸ s₂.extends_push _ _ _
  have he₄ : s₃.Extends s' := hs' ▸ s₃.extends_push _ _ _
  have htable : s₃.table .stmt = s.table .stmt := by
    rw [hs₃, StoreM.store_of_list.1 _ hvalues, StoreM.store_of_list.1 _ hnames]
    rfl
  have hcount : (s₃.table .stmt).size < wordSize := (hc.of_grows he₄.grows).tables .stmt
  have hcount' : (s₂.table .simpleStmt).size < wordSize :=
    (hc.of_grows (he₃.trans he₄).grows).tables .simpleStmt
  have hget : s₃.get? simple = some (.shortVarDecl names values) :=
    StoreM.get?_of_alloc hsimple hcount'
  refine ⟨he₁.trans (he₂.trans (he₃.trans he₄)), ⟨?_, ?_⟩, ?_, fun hs hx => ?_⟩
  · simp [(StoreM.alloc_eq_ok hid hcount).1, htable]
  · rw [hs', Store.push, Store.table_modifyTable_self, Table.size_push, htable]
    rfl
  · refine .cons ⟨names, values, ⟨simple, ?_, ?_⟩, ?_, ?_⟩ .nil
    · exact StoreM.get?_of_alloc hid hcount
    · exact he₄.get? hget
    · exact (he₂.trans (he₃.trans he₄)).holds (StoreM.holds_of_list hnames)
    · exact (he₃.trans he₄).holds (StoreM.holds_of_list hvalues)
  · have hname : ∀ y ∈ #[x.1], s.ItemResolves .identNames y := by
      simp only [Array.mem_singleton, forall_eq]
      refine List.forall_mem_singleton.mpr (SlotPart.Passes.node ⟨_, rfl⟩ (List.forall_mem_nil _))
    have hvalue : ∀ y ∈ #[x.2], s₁.ItemResolves .exprs y := by
      simp only [Array.mem_singleton, forall_eq]
      refine List.forall_mem_singleton.mpr ?_
      exact ((hx x List.mem_cons_self).mono he₁.grows).part
    obtain ⟨hc₁, hstop₁⟩ := StoreM.closed_list hs hnames hname
    obtain ⟨hc₂, hstop₂⟩ := StoreM.closed_list hc₁ hvalues hvalue
    have hc₃ : s₃.Closed := by
      rw [hs₃]
      refine hc₂.push ⟨?_, by rintro seg ⟨⟩⟩ .none
      have hnames₂ := Nat.le_trans hstop₁ (he₂.grows.buffer .identNames)
      exact List.forall_mem_cons.mpr ⟨.list hnames₂, List.forall_mem_singleton.mpr (.list hstop₂)⟩
    rw [hs']
    refine hc₃.push ⟨List.forall_mem_singleton.mpr ?_, by rintro seg ⟨⟩⟩ .none
    exact (Node.resolves_stored (Store.allocated_of_get? hget)).part

theorem mapM_singleDecl_eq_ok {xs : List (IdentName × Id .expr)} {ids : List (Id .stmt)}
    (h : xs.mapM singleDecl s = .ok ids s') (hc : s'.Counted) : s.AddsDecls xs ids s' := by
  induction xs generalizing s ids with
  | nil =>
    cases h
    exact .nil _
  | cons x xs ih =>
    rw [List.mapM_cons] at h
    obtain ⟨id, s₁, hid, h⟩ := bind_eq_ok h
    obtain ⟨js, s₂, hjs, h⟩ := bind_eq_ok h
    cases h
    have hrest := ih hjs
    exact (singleDecl_eq_ok hid (hc.of_grows hrest.adds.grows)).append hrest

/-- A splittable statement is replaced by an expanded block of one declaration for each name. -/
theorem splitPairs_eq_ok {id : Id .stmt} {names : Segment .identNames} {values : Segment .exprs}
    {a : Node} (hd : s.IsDecl id names values) (hlen : names.length = values.length)
    (h : splitPairs names values s = .ok a s') (hc : s'.Counted) :
    ∃ xs ids seg, s.Declares id xs ∧ s.AddsDecls xs ids s' ∧ a = .expandedBlock ⟨seg⟩ ∧
      s'.Holds seg ids := by
  obtain ⟨ns, s₁, hread, h₁⟩ := bind_eq_ok h
  obtain ⟨hns, rfl⟩ := StoreM.read_eq_ok hread
  obtain ⟨vs, s₂, hread', h₂⟩ := bind_eq_ok h₁
  obtain ⟨hvs, rfl⟩ := StoreM.read_eq_ok hread'
  obtain ⟨ids, s₃, hids, h₃⟩ := bind_eq_ok h₂
  obtain ⟨seg, s₄, hseg, h₄⟩ := bind_eq_ok h₃
  cases h₄
  have hns' := Store.holds_of_items hns
  have hvs' := Store.holds_of_items hvs
  have hadds := mapM_singleDecl_eq_ok hids (hc.of_grows (StoreM.extends_list hseg).grows)
  have hzip : ns.toList.length = vs.toList.length := by
    rw [hns'.length_eq, hvs'.length_eq, hlen]
  refine ⟨_, ids, seg, ⟨names, values, hd, ?_, ?_⟩, hadds.list hseg, rfl,
    StoreM.holds_of_list hseg⟩
  · rwa [List.map_fst_zip (Nat.le_of_eq hzip)]
  · rwa [List.map_snd_zip (Nat.le_of_eq hzip.symm)]

end Decls

/-- The statement `id` is split into the statements `ids`, which are new and stand in the new list
`seg`. -/
structure Store.SplitsDecl (s : Store) (id : Id .stmt) (ids : List (Id .stmt))
    (seg : Segment .stmts) (s' : Store) : Prop where
  splittable : s.Splittable (.stored id)
  decls : ∃ xs, s.Declares id xs ∧ s.AddsDecls xs ids s'
  holds : s'.Holds seg ids

section Splitter

variable {s s' : Store} {n a : Node} {b : Bool} {c c' : Context Unit}

theorem Store.Holds.resolves {p : Pool} {seg : Segment p} {xs : List p.Item} (h : s.Holds seg xs)
    (hs : s.Closed) : ∀ x ∈ xs, s.ItemResolves p x := by
  intro x hx
  obtain ⟨i, -, hi⟩ := h.reads.exists_cell hx
  exact hs.cell hi

namespace Store.SplitsDecl

variable {id : Id .stmt} {ids : List (Id .stmt)} {seg : Segment .stmts}

theorem adds (h : s.SplitsDecl id ids seg s') : s.Extends s' := by
  obtain ⟨xs, -, hadds⟩ := h.decls
  exact hadds.adds

theorem closed (h : s.SplitsDecl id ids seg s') (hs : s.Closed) : s'.Closed := by
  obtain ⟨xs, ⟨names, values, -, -, hvalues⟩, hadds⟩ := h.decls
  refine hadds.closed hs fun x hx => ?_
  exact (List.forall_mem_singleton.mp (hvalues.resolves hs x.2 (List.mem_map_of_mem hx))).node

end Store.SplitsDecl

/-- What the splitter answers. -/
theorem splitter_cases (h : splitter.replace n c = .ok (a, b) c') (hc : c'.store.Counted) :
    (¬c.store.IsSimple n ∧ a = n ∧ b = true ∧ c' = c) ∨
    (c.store.IsSimple n ∧ ¬c.store.Splittable n ∧ a = n ∧ b = false ∧ c' = c) ∨
    ∃ id ids seg, n = .stored id ∧ a = .expandedBlock ⟨seg⟩ ∧ b = false ∧
      c.store.SplitsDecl id ids seg c'.store := by
  obtain ⟨s, q⟩ := c
  obtain ⟨s', q'⟩ := c'
  have hs : splitDecl n s = .ok (a, b) s' := by
    rcases hx : splitDecl n s with ⟨x, s₁⟩ | ⟨e, s₁⟩ <;>
      simp only [splitter, TransformM.onStore, hx] at h <;> cases h
    rfl
  rcases splitDecl_cases hs with ⟨hn, rfl, rfl, rfl⟩ | ⟨hn, hsplit, rfl, rfl, rfl⟩ |
    ⟨id, names, values, rfl, hd, htwo, hlen, rfl, hpairs⟩
  · exact .inl ⟨hn, rfl, rfl, rfl⟩
  · exact .inr (.inl ⟨hn, hsplit, rfl, rfl, rfl⟩)
  · obtain ⟨xs, ids, seg, hxs, hadds, rfl, hholds⟩ := splitPairs_eq_ok hd hlen hpairs hc
    exact .inr (.inr ⟨id, ids, seg, rfl, rfl, rfl,
      ⟨id, names, values, rfl, hd, htwo, hlen⟩, ⟨xs, hxs, hadds⟩, hholds⟩)

theorem splitter_replace_of_not_isSimple {x : n.kind.Body} (hn : ¬s.IsSimple n)
    (hx : n.body? s = some x) : splitter.replace n ⟨s, ()⟩ = .ok (n, true) ⟨s, ()⟩ := by
  have hdecl : splitDecl n s = .ok (n, true) s := by
    unfold splitDecl
    rcases hid : n.stmt? with _ | id
    · rfl
    · obtain rfl := Node.as?_eq_some_iff.mp hid
      have hload : StoreM.load (c := .stmt) id s = .ok x s := StoreM.load_of_get? hx
      simp only [bind, EStateM.bind, hload]
      cases x with
      | simple simple => exact absurd ⟨id, simple, rfl, hx⟩ hn
      | _ => rfl
  simp only [splitter, TransformM.onStore, hdecl]

/-- In a closed store, a simple statement that is not splittable is kept as it is. -/
theorem splitter_replace_of_isSimple (hs : s.Closed) (hn : s.IsSimple n)
    (hsplit : ¬s.Splittable n) : splitter.replace n ⟨s, ()⟩ = .ok (n, false) ⟨s, ()⟩ := by
  obtain ⟨id, simple, rfl, hid⟩ := hn
  obtain ⟨y, hy⟩ := (List.forall_mem_singleton.mp (hs.node hid).parts).head
  have hload : StoreM.load (c := .stmt) id s = .ok (.simple simple) s := StoreM.load_of_get? hid
  have hload' : StoreM.load (c := .simpleStmt) simple s = .ok y s := StoreM.load_of_get? hy
  have hdecl : splitDecl (.stored id) s = .ok (.stored id, false) s := by
    unfold splitDecl
    simp only [Node.stmt?, Node.as?_mk, bind, EStateM.bind, hload, hload']
    cases y with
    | shortVarDecl names values =>
      dsimp only
      rw [if_pos]
      · rfl
      · by_contra htest
        simp only [Bool.or_eq_true, decide_eq_true_eq, bne_iff_ne] at htest
        exact hsplit ⟨id, names, values, rfl, ⟨simple, hid, hy⟩, by omega, by omega⟩
    | _ => rfl
  simp only [splitter, TransformM.onStore, hdecl]

/-- An action that overwrites nothing, whether or not it faults. -/
def StoreM.Adds {α : Type} (x : StoreM α) : Prop :=
  ∀ s s', (∃ a, x s = .ok a s') ∨ (∃ e, x s = .error e s') → s.Extends s'

namespace StoreM.Adds

variable {α β : Type}

theorem pure (x : α) : Adds (pure x : StoreM α) := by
  rintro s s' (⟨a, ⟨⟩⟩ | ⟨e, ⟨⟩⟩)
  exact .refl s

theorem bind {x : StoreM α} {f : α → StoreM β} (hx : x.Adds) (hf : ∀ a, (f a).Adds) :
    Adds (x >>= f) := by
  intro s s' h
  rcases hr : x s with ⟨a, s₁⟩ | ⟨e, s₁⟩ <;> simp only [Bind.bind, EStateM.bind, hr] at h
  · exact (hx s s₁ (.inl ⟨a, hr⟩)).trans (hf a s₁ s' h)
  · rcases h with ⟨b, ⟨⟩⟩ | ⟨e', ⟨⟩⟩
    exact hx s s' (.inr ⟨_, hr⟩)

theorem read (f : Store → Except Fault α) : (StoreM.read f).Adds := by
  rintro s s' h
  simp only [StoreM.read] at h
  split at h <;> rcases h with ⟨a, ⟨⟩⟩ | ⟨e, ⟨⟩⟩ <;> exact .refl s

private theorem alloc (c : Category) (x : c.Payload) : (StoreM.alloc c x).Adds := by
  rintro s s' (⟨a, ⟨⟩⟩ | ⟨e, ⟨⟩⟩)
  exact s.extends_push c x .none

theorem list (p : Pool) (xs : Array p.Item) : (StoreM.list p xs).Adds := by
  rintro s s' h
  have hs : s' = s.append p xs := by
    rcases h with ⟨seg, h⟩ | ⟨e, h⟩
    · exact StoreM.store_of_list.1 seg h
    · exact StoreM.store_of_list.2 e h
  rw [hs]
  exact ⟨s.grows_append p xs, fun a => Store.sameAt_append⟩

private theorem mapM {f : α → StoreM β} (hf : ∀ a, (f a).Adds) (xs : List α) :
    Adds (xs.mapM f) := by
  induction xs with
  | nil => exact .pure []
  | cons x xs ih =>
    rw [List.mapM_cons]
    exact (hf x).bind fun b => ih.bind fun bs => .pure (b :: bs)

end StoreM.Adds

private theorem adds_singleDecl (x : IdentName × Id .expr) : (singleDecl x).Adds :=
  (StoreM.Adds.list _ _).bind fun _ => (StoreM.Adds.list _ _).bind fun _ =>
    (StoreM.Adds.alloc _ _).bind fun _ => StoreM.Adds.alloc _ _

private theorem adds_splitPairs (names : Segment .identNames) (values : Segment .exprs) :
    (splitPairs names values).Adds :=
  (StoreM.Adds.read _).bind fun _ => (StoreM.Adds.read _).bind fun _ =>
    (StoreM.Adds.mapM adds_singleDecl _).bind fun _ =>
      (StoreM.Adds.list _ _).bind fun _ => .pure _

theorem adds_splitDecl (n : Node) : (splitDecl n).Adds := by
  unfold splitDecl
  cases n.stmt? with
  | none => exact .pure _
  | some id =>
    refine (StoreM.Adds.read _).bind fun x => ?_
    cases x with
    | simple simple =>
      refine (StoreM.Adds.read _).bind fun y => ?_
      cases y with
      | shortVarDecl names values =>
        dsimp only
        split_ifs
        · exact .pure _
        · exact (adds_splitPairs names values).bind fun a => .pure _
      | _ => exact .pure _
    | _ => exact .pure _

theorem splitter_appends : splitter.Appends where
  replace n c := by
    obtain ⟨s, q⟩ := c
    rcases hx : splitDecl n s with ⟨x, s'⟩ | ⟨e, s'⟩ <;>
      simp only [TransformM.storeAfter, splitter, TransformM.onStore, hx]
    · exact adds_splitDecl n s s' (.inl ⟨x, hx⟩)
    · exact adds_splitDecl n s s' (.inr ⟨e, hx⟩)
  leave c := .refl c.store

/-- The splitter goes on below the node that it was given, and only if that is no simple
statement. -/
theorem splitter_goesOn (h : splitter.replace n c = .ok (a, true) c') :
    ¬c.store.IsSimple n ∧ a = n ∧ c' = c := by
  obtain ⟨s, q⟩ := c
  rcases hx : splitDecl n s with ⟨⟨a', b'⟩, s₁⟩ | ⟨e, s₁⟩ <;>
    simp only [splitter, TransformM.onStore, hx] at h <;> cases h
  rcases splitDecl_cases hx with ⟨hn, rfl, -, rfl⟩ | ⟨-, -, -, ⟨⟩, -⟩ | ⟨-, -, -, -, -, -, -, ⟨⟩, -⟩
  exact ⟨hn, rfl, rfl⟩

theorem splitter_goesOnInPlace : splitter.GoesOnInPlace :=
  fun h => (splitter_goesOn h).2.1

/-- An answer that the splitter does not go on with is the node that it was given, or a block. -/
theorem splitter_stays (h : splitter.replace n c = .ok (a, false) c') :
    a = n ∨ n.kind = .stored .stmt ∧ a.kind = .expandedBlock := by
  obtain ⟨s, q⟩ := c
  rcases hx : splitDecl n s with ⟨⟨a', b'⟩, s₁⟩ | ⟨e, s₁⟩ <;>
    simp only [splitter, TransformM.onStore, hx] at h <;> cases h
  rcases splitDecl_cases hx with ⟨-, -, ⟨⟩, -⟩ | ⟨-, -, rfl, -, -⟩ |
    ⟨id, names, values, rfl, -, -, -, -, hpairs⟩
  · exact .inl rfl
  · obtain ⟨ns, s₁, -, h₁⟩ := bind_eq_ok hpairs
    obtain ⟨vs, s₂, -, h₂⟩ := bind_eq_ok h₁
    obtain ⟨ids, s₃, -, h₃⟩ := bind_eq_ok h₂
    obtain ⟨seg, s₄, -, h₄⟩ := bind_eq_ok h₃
    cases h₄
    exact .inr ⟨rfl, rfl⟩

end Splitter

end GoTree
