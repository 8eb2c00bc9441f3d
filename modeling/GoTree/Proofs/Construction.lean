import GoTree.Builder
import GoTree.Proofs.AcyclicStores
import Mathlib.Data.List.Basic

/-!
# Trees made step by step

A tree is made by **calls**: strings are interned, nodes are allocated, lists and expanded blocks
are added, and the functions of `GoTree.Builder` do several of these at once. `Builds made b` says
that from an empty builder, a sequence of calls has returned the values `made` and led to the
builder `b`, where a call may be given only what was returned before it: all handles mentioned in
its arguments are mentioned in `made`, or are empty lists.

A builder is **sound** when all handles in its store resolve and its store can be dated. What a call
returns mentions handles that resolve, and it leaves a sound builder, since whatever it adds refers
to what was there before (`Call.makes`). So a builder is sound at any time, and everything that was
ever returned can be traversed and printed (`Builds.traversable`).
-/

namespace GoTree

/-! ### Names -/

namespace NameTable

/-- A string that has been interned stands for itself, and nothing is forgotten. -/
private theorem knows_intern (t : NameTable) (text : String) :
    (t.intern text).2.Knows (t.intern text).1 ∧
      ∀ sym, t.Knows sym → (t.intern text).2.Knows sym := by
  unfold intern
  split
  · next sym h =>
    refine ⟨⟨text, ?_⟩, fun _ => id⟩
    simpa using List.find?_some h
  · refine ⟨?_, ?_⟩
    · have hi : (t.add text).1.index < (t.add text).2.strings.size := by
        simp only [add, Symbol.index, Array.size_push, Nat.toUInt32_eq, UInt32.toNat_ofNat']
        exact Nat.lt_succ_of_le (Nat.mod_le _ _)
      exact ⟨_, Array.getElem?_eq_getElem hi⟩
    · rintro sym ⟨text', h⟩
      obtain ⟨hi, h⟩ := Array.getElem?_eq_some_iff.mp h
      exact ⟨text', by simp [string?, add, Array.getElem?_push_lt hi, h]⟩

end NameTable

/-! ### Additions to a store -/

namespace Store

variable {s : Store} {a : Address} {v : Value}

private theorem value?_push {c : Category} {x : c.Payload} {span : Span}
    (h : (s.push c x span).value? a = some v) : s.value? a = some v ∨ v = .payload c x := by
  cases a with
  | cell p i => exact .inl h
  | node d i =>
    by_cases hd : d = c
    · subst hd
      simp only [value?, push, table_modifyTable_self, Table.push, Array.getElem?_push] at h
      split at h
      · exact .inr (Option.some.inj h).symm
      · exact .inl h
    · simp only [value?, push, table_modifyTable_of_ne s hd] at h
      exact .inl h

private theorem value?_append {p : Pool} {xs : Array p.Item}
    (h : (s.append p xs).value? a = some v) :
    s.value? a = some v ∨ ∃ x ∈ xs, v = .item p x := by
  cases a with
  | node c i => exact .inl h
  | cell q i =>
    by_cases hq : q = p
    · subst hq
      simp only [value?, append, buffer_modifyBuffer_self, Array.getElem?_append] at h
      split at h
      · exact .inl h
      · obtain ⟨x, hx, rfl⟩ := Option.map_eq_some_iff.mp h
        exact .inr ⟨x, Array.mem_of_getElem? hx, rfl⟩
    · simp only [value?, append, buffer_modifyBuffer_of_ne s hq] at h
      exact .inl h

end Store

/-! ### Sound builders -/

/-- A handle resolves in the store and the names of a builder. -/
abbrev Builder.Resolves (b : Builder) : Handle → Prop :=
  Handle.Resolves b.store b.names

/-- Nothing of a builder is lost in another one. -/
structure Builder.Grows (b b' : Builder) : Prop where
  store : b.store.Grows b'.store
  names : ∀ sym, b.names.Knows sym → b'.names.Knows sym

/-- All handles of a builder resolve, and no address can reach itself. -/
structure Builder.Sound (b : Builder) : Prop where
  store : b.store.Sound b.names
  dated : ∃ date now, b.store.DatedBy date now

namespace Builder

variable {b b' b'' : Builder} {v : Value}

theorem Grows.refl (b : Builder) : b.Grows b :=
  ⟨.refl _, fun _ => id⟩

theorem Grows.trans (h : b.Grows b') (h' : b'.Grows b'') : b.Grows b'' :=
  ⟨h.store.trans h'.store, fun sym hs => h'.names sym (h.names sym hs)⟩

private theorem Grows.resolves (h : b.Grows b') {k : Handle} (hk : b.Resolves k) :
    b'.Resolves k := by
  cases k with
  | id c i => exact Store.Grows.allocated h.store (a := .node c i.index) hk
  | list p seg => exact Nat.le_trans hk (h.store.buffer p)
  | symbol sym => exact h.names sym hk

theorem Grows.all (h : b.Grows b') (hv : v.All b.Resolves) : v.All b'.Resolves :=
  hv.imp fun _ => h.resolves

/-- An empty list resolves anywhere. -/
theorem all_empty (b : Builder) {p : Pool} : (Value.list p .empty).All b.Resolves :=
  Value.all_list.mpr (Nat.zero_le _)

/-- The builder that nothing has been made with. -/
theorem sound_empty (hash : String → UInt64) : Builder.Sound ⟨{}, { hash }⟩ := by
  have hv : ∀ a, ¬({} : Store).Allocated a := by
    intro a
    cases a with
    | node c i => cases c <;> exact Nat.not_lt_zero i
    | cell p i => cases p <;> exact Nat.not_lt_zero i
  refine ⟨fun a v h => absurd (Store.allocated_of_value? h) (hv a), fun _ => 0, 0, ?_, ?_⟩
  · exact fun a ha => absurd ha (hv a)
  · rintro a b ⟨v, -, h, -⟩
    exact absurd (Store.allocated_of_value? h) (hv a)

/-- A builder stays sound when it is extended by values whose handles resolve before. -/
theorem Sound.extend (hb : b.Sound) (he : b.store.Extends b'.store)
    (hn : ∀ sym, b.names.Knows sym → b'.names.Knows sym)
    (hv : ∀ a v, b'.store.value? a = some v → b.store.value? a = some v ∨ v.All b.Resolves) :
    b'.Sound := by
  have hall : ∀ a v, b'.store.value? a = some v → v.All b.Resolves := by
    intro a v h
    rcases hv a v h with h | h
    · exact hb.store a v h
    · exact h
  obtain ⟨date, now, hd⟩ := hb.dated
  refine ⟨fun a v h => ?_, ?_⟩
  · exact Grows.all ⟨he.grows, hn⟩ (hall a v h)
  · obtain ⟨date', hd'⟩ := hd.extend he fun a a' hr => by
      obtain ⟨v, k, h, hm, hc⟩ := hr
      exact (hall a v h k hm).allocated hc
    exact ⟨date', now + 1, hd'⟩

end Builder

/-! ### What an action makes -/

namespace BuildM

/-- In the builder `b`, an action that succeeds leaves a sound builder from which nothing is lost,
and what it returns has the property `Q` there. -/
def Ensures {α : Type} (Q : Builder → α → Prop) (x : BuildM α) (b : Builder) : Prop :=
  ∀ a b', x b = .ok a b' → b'.Sound ∧ b.Grows b' ∧ Q b' a

/-- What an action returns, seen as a value, mentions handles that resolve. -/
abbrev Makes {α : Type} (value : α → Value) : BuildM α → Builder → Prop :=
  Ensures fun b a => (value a).All b.Resolves

variable {α β : Type} {Q : Builder → α → Prop} {R : Builder → β → Prop} {b : Builder}

theorem Ensures.pure {a : α} (hb : b.Sound) (ha : Q b a) : Ensures Q (pure a) b := by
  rintro _ _ ⟨⟩
  exact ⟨hb, .refl b, ha⟩

theorem Ensures.bind {x : BuildM α} {f : α → BuildM β} (hx : Ensures Q x b)
    (hf : ∀ a b', b'.Sound → b.Grows b' → Q b' a → Ensures R (f a) b') :
    Ensures R (x >>= f) b := by
  intro c b₂ h
  change EStateM.bind x f b = _ at h
  simp only [EStateM.bind] at h
  split at h
  · next a b₁ h₁ =>
    obtain ⟨hs₁, hg₁, ha⟩ := hx a b₁ h₁
    obtain ⟨hs₂, hg₂, hc⟩ := hf a b₁ hs₁ hg₁ ha c b₂ h
    exact ⟨hs₂, hg₁.trans hg₂, hc⟩
  · cases h

/-- Only what is returned changes. -/
theorem Ensures.map {x : BuildM α} {f : α → β} (hx : Ensures Q x b)
    (hf : ∀ a b', Q b' a → R b' (f a)) : Ensures R (x >>= fun a => Pure.pure (f a)) b :=
  hx.bind fun a b' hb' _ ha => .pure hb' (hf a b' ha)

theorem Makes.mapM {value : β → Value} {f : α → BuildM β} (hb : b.Sound)
    (hf : ∀ a b', b'.Sound → Makes value (f a) b') (as : List α) :
    Ensures (fun b' ys => ∀ y ∈ ys, (value y).All b'.Resolves) (as.mapM f) b := by
  induction as generalizing b with
  | nil =>
    rw [List.mapM_nil]
    exact .pure hb (List.forall_mem_nil _)
  | cons a as ih =>
    rw [List.mapM_cons]
    refine (hf a b hb).bind fun y b₁ hb₁ _ hy => (ih hb₁).bind fun ys b₂ hb₂ hg₂ hys => ?_
    exact .pure hb₂ (List.forall_mem_cons.mpr ⟨hg₂.all hy, hys⟩)

private theorem Makes.optionMapM {value : β → Value} {f : α → BuildM β} (hb : b.Sound)
    (hf : ∀ a b', b'.Sound → Makes value (f a) b') (o : Option α) :
    Ensures (fun b' o' => ∀ y ∈ o', (value y).All b'.Resolves) (o.mapM f) b := by
  cases o with
  | none =>
    refine .pure hb ?_
    rintro y ⟨⟩
  | some a =>
    refine (hf a b hb).map fun y b' hy => ?_
    rintro _ ⟨⟩
    exact hy

end BuildM

/-! ### Values -/

/-- An id as a value. -/
abbrev Value.stored {c : Category} (id : Id c) : Value :=
  .node (.stored id)

/-- The values in the results of a signature. -/
def Results.values : Results → List Value
  | .params fields => [.node ⟨.fieldList, fields⟩]
  | .type typ => [.stored typ]

section Values

variable {K : Handle → Prop} {l : String}

theorem Value.All.part {n : Node} (h : (Value.node n).All K) : (SlotPart.node l n).All K :=
  (all_node.mp h).relabel l

theorem Value.All.listPart {p : Pool} {seg : Segment p} (h : (Value.list p seg).All K) :
    (SlotPart.list l p seg).All K :=
  SlotPart.all_list.mpr (all_list.mp h)

/-- An item that is one node. -/
private theorem Value.all_item_of_parts {p : Pool} {x : p.Item} {n : Node}
    (hp : (p.slots "" x).parts = [.node "" n]) (h : (Value.node n).All K) :
    (Value.item p x).All K := by
  rw [all_item, SlotPart.all_item, hp, List.forall_mem_singleton]
  exact all_node.mp h

/-- A node all of whose handles are in its slots. -/
theorem Value.all_node_of_parts {n : Node} (hn : n.handle? = none)
    (hp : (n.kind.slots n.value).parts.Forall (SlotPart.All K)) : (Value.node n).All K := by
  refine all_node.mpr (SlotPart.all_node.mpr ⟨?_, List.forall_iff_forall_mem.mp hp⟩)
  rw [hn]
  rintro h ⟨⟩

/-- A payload all of whose handles are in its slots. -/
theorem Value.all_payload_of_parts {c : Category} {x : c.Payload} (hs : c.symbol? x = none)
    (ha : c.aside x = none) (hp : (c.slots x).parts.Forall (SlotPart.All K)) :
    (Value.payload c x).All K := by
  refine all_payload.mpr ⟨List.forall_iff_forall_mem.mp hp, ?_, ?_⟩
  · rw [hs]
    rintro sym ⟨⟩
  · rw [ha]
    rintro seg ⟨⟩

end Values

/-! ### The primitives -/

namespace BuildM

variable {b : Builder}

theorem onStore_eq_ok {α : Type} {x : StoreM α} {a : α} {b' : Builder}
    (h : onStore x b = .ok a b') : ∃ s, x b.store = .ok a s ∧ b' = ⟨s, b.names⟩ := by
  simp only [onStore] at h
  split at h
  · next hx =>
    cases h
    exact ⟨_, hx, rfl⟩
  · cases h

theorem makes_intern (hb : b.Sound) (text : String) : Makes .symbol (intern text) b := by
  rintro _ _ ⟨⟩
  obtain ⟨hsym, hnames⟩ := NameTable.knows_intern b.names text
  refine ⟨hb.extend (.refl _) hnames fun a v h => .inl h, ⟨.refl _, hnames⟩, ?_⟩
  exact Value.all_symbol.mpr hsym

theorem makes_onStore_alloc (hb : b.Sound) {c : Category} {x : c.Payload} (span : Span)
    (hx : (Value.payload c x).All b.Resolves) :
    Makes .stored (onStore (StoreM.alloc c x span)) b := by
  rintro id b' h
  obtain ⟨s, hs, rfl⟩ := onStore_eq_ok h
  cases hs
  have he := b.store.extends_push c x span
  refine ⟨hb.extend he (fun _ => id) fun a v h => ?_, ⟨he.grows, fun _ => id⟩, ?_⟩
  · rcases Store.value?_push h with h | rfl
    · exact .inl h
    · exact .inr hx
  · refine Value.all_node.mpr (SlotPart.all_stored.mpr ?_)
    simp only [Builder.Resolves, Handle.Resolves, Store.Allocated, Id.index, Store.push,
      Store.table_modifyTable_self, Table.size_push, Nat.toUInt32_eq, UInt32.toNat_ofNat']
    exact Nat.lt_succ_of_le (Nat.mod_le _ _)

theorem makes_alloc (hb : b.Sound) {c : Category} {x : c.Payload}
    (hx : (Value.payload c x).All b.Resolves) :
    Makes .stored (alloc c x) b :=
  makes_onStore_alloc hb .none hx

theorem makes_onStore_list (hb : b.Sound) {p : Pool} {xs : Array p.Item}
    (hx : ∀ x ∈ xs, (Value.item p x).All b.Resolves) :
    Makes (.list p) (onStore (StoreM.list p xs)) b := by
  rintro seg b' h
  obtain ⟨s, hs, rfl⟩ := onStore_eq_ok h
  have he : b.store.Extends s := by
    rw [StoreM.store_of_list.1 seg hs]
    exact ⟨b.store.grows_append p xs, fun a => Store.sameAt_append⟩
  refine ⟨hb.extend he (fun _ => id) fun a v h => ?_, ⟨he.grows, fun _ => id⟩, ?_⟩
  · rw [StoreM.store_of_list.1 seg hs] at h
    rcases Store.value?_append h with h | ⟨x, hmem, rfl⟩
    · exact .inl h
    · exact .inr (hx x hmem)
  · exact Value.all_list.mpr (StoreM.stop_le_of_list hs)

theorem makes_list (hb : b.Sound) {p : Pool} {xs : List p.Item}
    (hx : ∀ x ∈ xs, (Value.item p x).All b.Resolves) : Makes (.list p) (list p xs) b :=
  makes_onStore_list hb fun x hmem => hx x (List.mem_toArray.mp hmem)

/-! ### Names, literals and simple statements -/

/-- A list of items that are single nodes. -/
theorem makes_nodes (hb : b.Sound) {p : Pool} {xs : List p.Item} {node : p.Item → Node}
    (hp : ∀ x, (p.slots "" x).parts = [.node "" (node x)])
    (hx : ∀ x ∈ xs, (Value.node (node x)).All b.Resolves) : Makes (.list p) (list p xs) b :=
  makes_list hb fun x hmem => Value.all_item_of_parts (hp x) (hx x hmem)

theorem makes_ident (hb : b.Sound) (name : String) :
    Makes (fun x => .node (.ident x)) (ident name) b :=
  (makes_intern hb name).map fun _ _ hs =>
    Value.all_node.mpr (SlotPart.all_ident.mpr (Value.all_symbol.mp hs))

theorem makes_idents (hb : b.Sound) (names : List String) :
    Makes (.list .identNames) (idents names) b :=
  (Makes.mapM hb (fun name _ hb' => makes_ident hb' name) names).bind
    fun _ _ hb' _ hxs => makes_nodes hb' (fun _ => rfl) hxs

theorem makes_lit (hb : b.Sound) (kind : LiteralKind) (text : String) :
    Makes (fun x => .node ⟨.basicLit, x⟩) (lit kind text) b :=
  (makes_intern hb text).map fun _ _ hs =>
    Value.all_node.mpr (SlotPart.all_basicLit.mpr (Value.all_symbol.mp hs))

/-- A node all of whose handles are in its slots. -/
theorem makes_alloc_of_parts (hb : b.Sound) {c : Category} {x : c.Payload}
    (hs : c.symbol? x = none) (ha : c.aside x = none)
    (hp : (c.slots x).parts.Forall (SlotPart.All b.Resolves)) :
    Makes .stored (alloc c x) b :=
  makes_alloc hb (Value.all_payload_of_parts hs ha hp)

theorem makes_litExpr (hb : b.Sound) (kind : LiteralKind) (text : String) :
    Makes .stored (do expr (.basicLit (← lit kind text))) b := by
  refine (makes_lit hb kind text).bind fun x b' hb' _ hx => makes_alloc hb' ?_
  refine Value.all_payload.mpr ⟨List.forall_mem_nil _, ?_, by rintro seg ⟨⟩⟩
  rintro sym ⟨⟩
  exact SlotPart.all_basicLit.mp (Value.all_node.mp hx)

theorem makes_simpleStmt (hb : b.Sound) {x : SimpleStmt}
    (hx : (Value.payload .simpleStmt x).All b.Resolves) :
    Makes .stored (simpleStmt x) b :=
  (makes_alloc hb hx).bind fun _ _ hb' _ hid => makes_alloc_of_parts hb' rfl rfl hid.part

/-! ### The functions of a builder -/

section Functions

variable {sig : Id .signature} {body : Block}

theorem makes_name (hb : b.Sound) (text : String) : Makes .stored (name text) b := by
  refine (makes_ident hb text).bind fun x b' hb' _ hx => makes_alloc hb' ?_
  refine Value.all_payload.mpr ⟨List.forall_mem_nil _, ?_, by rintro seg ⟨⟩⟩
  rintro sym ⟨⟩
  exact SlotPart.all_ident.mp (Value.all_node.mp hx)

theorem makes_selector (hb : b.Sound) {x : Id .expr} (hx : (Value.stored x).All b.Resolves)
    (sel : String) : Makes .stored (selector x sel) b :=
  (makes_ident hb sel).bind fun _ _ hb' hg hsel =>
    makes_alloc_of_parts hb' rfl rfl ⟨(hg.all hx).part, hsel.part⟩

theorem makes_call (hb : b.Sound) {fn : Id .expr} {args : List (Id .expr)}
    (hfn : (Value.stored fn).All b.Resolves) (hargs : ∀ x ∈ args, (Value.stored x).All b.Resolves) :
    Makes .stored (call fn args) b :=
  (makes_nodes hb (fun _ => rfl) hargs).bind fun _ _ hb' hg hseg =>
    makes_alloc_of_parts hb' rfl rfl ⟨(hg.all hfn).part, hseg.listPart⟩

theorem makes_namedType (hb : b.Sound) (text : String) : Makes .stored (namedType text) b :=
  (makes_ident hb text).bind fun _ b' hb' _ hx =>
    makes_alloc_of_parts hb' rfl rfl ⟨hx.part, b'.all_empty.listPart⟩

theorem makes_field (hb : b.Sound) (names : List String) {typ : Id .type}
    (ht : (Value.stored typ).All b.Resolves) : Makes .stored (field names typ) b :=
  (makes_idents hb names).bind fun _ _ hb' hg hseg =>
    makes_alloc_of_parts hb' rfl rfl ⟨hseg.listPart, (hg.all ht).part⟩

theorem makes_fieldList (hb : b.Sound) {fields : List (Id .field)}
    (h : ∀ x ∈ fields, (Value.stored x).All b.Resolves) :
    Makes (fun x => .node ⟨.fieldList, x⟩) (fieldList fields) b :=
  (makes_nodes hb (fun _ => rfl) h).map fun _ _ hseg =>
    Value.all_node_of_parts rfl hseg.listPart

theorem makes_signature (hb : b.Sound) {params : FieldList} {results : Option Results}
    (hp : (Value.node ⟨.fieldList, params⟩).All b.Resolves)
    (hr : ∀ v ∈ results.toList.flatMap Results.values, v.All b.Resolves) :
    Makes .stored (signature params results) b := by
  refine makes_alloc_of_parts hb rfl rfl ?_
  cases results with
  | none => exact hp.part
  | some r =>
    cases r with
    | params fields => exact ⟨hp.part, (hr _ (.head _)).part⟩
    | type typ => exact ⟨hp.part, (hr _ (.head _)).part⟩

theorem makes_emptySignature (hb : b.Sound) : Makes .stored emptySignature b :=
  makes_signature hb (Value.all_node_of_parts rfl b.all_empty.listPart) (List.forall_mem_nil _)

theorem makes_shortVarDecl (hb : b.Sound) (names : List String) {values : List (Id .expr)}
    (h : ∀ x ∈ values, (Value.stored x).All b.Resolves) :
    Makes .stored (shortVarDecl names values) b := by
  refine (makes_idents hb names).bind fun _ b₁ hb₁ hg₁ hnames => ?_
  have hvalues : ∀ x ∈ values, (Value.stored x).All b₁.Resolves := fun x hx => hg₁.all (h x hx)
  refine (makes_nodes hb₁ (fun _ => rfl) hvalues).bind fun _ b₂ hb₂ hg₂ hseg => ?_
  exact makes_simpleStmt hb₂
    (Value.all_payload_of_parts rfl rfl ⟨(hg₂.all hnames).listPart, hseg.listPart⟩)

theorem makes_assign (hb : b.Sound) {lhs rhs : List (Id .expr)} (op : AssignOp)
    (hl : ∀ x ∈ lhs, (Value.stored x).All b.Resolves)
    (hr : ∀ x ∈ rhs, (Value.stored x).All b.Resolves) : Makes .stored (assign lhs op rhs) b := by
  refine (makes_nodes hb (fun _ => rfl) hl).bind fun _ b₁ hb₁ hg₁ hleft => ?_
  have hr₁ : ∀ x ∈ rhs, (Value.stored x).All b₁.Resolves := fun x hx => hg₁.all (hr x hx)
  refine (makes_nodes hb₁ (fun _ => rfl) hr₁).bind fun _ b₂ hb₂ hg₂ hright => ?_
  exact makes_simpleStmt hb₂
    (Value.all_payload_of_parts rfl rfl ⟨(hg₂.all hleft).listPart, hright.listPart⟩)

theorem makes_exprStmt (hb : b.Sound) {x : Id .expr} (hx : (Value.stored x).All b.Resolves) :
    Makes .stored (exprStmt x) b :=
  makes_simpleStmt hb (Value.all_payload_of_parts rfl rfl hx.part)

theorem makes_ret (hb : b.Sound) {results : List (Id .expr)}
    (h : ∀ x ∈ results, (Value.stored x).All b.Resolves) : Makes .stored (ret results) b :=
  (makes_nodes hb (fun _ => rfl) h).bind fun _ _ hb' _ hseg =>
    makes_alloc_of_parts hb' rfl rfl hseg.listPart

theorem makes_block (hb : b.Sound) {stmts : List (Id .stmt)}
    (h : ∀ x ∈ stmts, (Value.stored x).All b.Resolves) :
    Makes (fun x => .node (.block x)) (block stmts) b :=
  (makes_nodes hb (fun _ => rfl) h).map fun _ _ hseg => Value.all_node_of_parts rfl hseg.listPart

theorem makes_expand (hb : b.Sound) {stmts : List (Id .stmt)}
    (h : ∀ x ∈ stmts, (Value.stored x).All b.Resolves) :
    Makes .node (onStore (Node.expand stmts.toArray)) b := by
  intro n b' hn
  obtain ⟨s, hs, rfl⟩ := onStore_eq_ok hn
  simp only [Node.expand, bind, EStateM.bind, pure, EStateM.pure] at hs
  split at hs
  · next seg s' hseg =>
    cases hs
    have hok : list .stmts stmts b = .ok seg ⟨s, b.names⟩ := by simp only [list, onStore, hseg]
    obtain ⟨hb', hg, hall⟩ := makes_nodes hb (fun _ => rfl) h seg _ hok
    exact ⟨hb', hg, Value.all_node_of_parts rfl hall.listPart⟩
  · cases hs

theorem makes_blockStmt (hb : b.Sound) {stmts : List (Id .stmt)}
    (h : ∀ x ∈ stmts, (Value.stored x).All b.Resolves) : Makes .stored (blockStmt stmts) b :=
  (makes_nodes hb (fun _ => rfl) h).bind fun _ _ hb' _ hseg =>
    makes_alloc_of_parts hb' rfl rfl hseg.listPart

theorem makes_ifStmt (hb : b.Sound) {cond : Id .expr} {elseStmt : Option (Id .stmt)}
    (hc : (Value.stored cond).All b.Resolves) (ht : (Value.node (.block body)).All b.Resolves)
    (he : ∀ x ∈ elseStmt, (Value.stored x).All b.Resolves) :
    Makes .stored (ifStmt cond body elseStmt) b := by
  refine makes_alloc_of_parts hb rfl rfl ?_
  cases elseStmt with
  | none => exact ⟨hc.part, ht.part⟩
  | some x => exact ⟨hc.part, ht.part, (he x rfl).part⟩

theorem makes_rangeStmt (hb : b.Sound) {key value : Option (Id .expr)} {x : Id .expr}
    (hx : (Value.stored x).All b.Resolves) (hbody : (Value.node (.block body)).All b.Resolves)
    (hk : ∀ x ∈ key, (Value.stored x).All b.Resolves)
    (hv : ∀ x ∈ value, (Value.stored x).All b.Resolves) :
    Makes .stored (rangeStmt key value x body) b := by
  refine makes_alloc_of_parts hb rfl rfl ?_
  cases key with
  | none =>
    cases value with
    | none => exact ⟨hx.part, hbody.part⟩
    | some v => exact ⟨(hv v rfl).part, hx.part, hbody.part⟩
  | some k =>
    cases value with
    | none => exact ⟨(hk k rfl).part, hx.part, hbody.part⟩
    | some v => exact ⟨(hk k rfl).part, (hv v rfl).part, hx.part, hbody.part⟩

theorem makes_labeled (hb : b.Sound) (label : String) {x : Id .stmt}
    (hx : (Value.stored x).All b.Resolves) : Makes .stored (labeled label x) b :=
  (makes_ident hb label).bind fun _ _ hb' hg hlabel =>
    makes_alloc_of_parts hb' rfl rfl ⟨hlabel.part, (hg.all hx).part⟩

theorem makes_lineComment (hb : b.Sound) (text : String) : Makes .stored (lineComment text) b := by
  refine (makes_intern hb text).bind fun sym b' hb' _ hs => makes_alloc hb' ?_
  refine Value.all_payload.mpr ⟨List.forall_mem_nil _, ?_, by rintro seg ⟨⟩⟩
  rintro _ ⟨⟩
  exact Value.all_symbol.mp hs

theorem makes_commentGroup (hb : b.Sound) (lines : List String) :
    Makes .stored (commentGroup lines) b :=
  (Makes.mapM hb (fun line _ hb' => makes_lineComment hb' line) lines).bind
    fun _ _ hb₁ _ hids => (makes_nodes hb₁ (fun _ => rfl) hids).bind
      fun _ _ hb₂ _ hseg => makes_alloc_of_parts hb₂ rfl rfl hseg.listPart

theorem makes_importSpec (hb : b.Sound) (text : Option String) (path : String) :
    Makes (fun x => .node ⟨.spec, x⟩) (importSpec text path) b := by
  have hname := Makes.optionMapM hb (fun text b' hb' => makes_ident hb' text) text
  refine hname.bind fun name b₁ hb₁ _ hx => ?_
  refine (makes_lit hb₁ .string _).bind fun _ _ hb₂ hg₂ hpath => .pure hb₂ ?_
  refine Value.all_node_of_parts rfl ?_
  cases name with
  | none => exact hpath.part
  | some x => exact ⟨(hg₂.all (hx x rfl)).part, hpath.part⟩

theorem makes_valueSpec (hb : b.Sound) (names : List String) {typ : Option (Id .type)}
    {values : List (Id .expr)} (ht : ∀ x ∈ typ, (Value.stored x).All b.Resolves)
    (hv : ∀ x ∈ values, (Value.stored x).All b.Resolves) :
    Makes (fun x => .node ⟨.spec, x⟩) (valueSpec names typ values) b := by
  refine (makes_idents hb names).bind fun _ b₁ hb₁ hg₁ hnames => ?_
  have hv₁ : ∀ x ∈ values, (Value.stored x).All b₁.Resolves := fun x hx => hg₁.all (hv x hx)
  refine (makes_nodes hb₁ (fun _ => rfl) hv₁).bind fun _ b₂ hb₂ hg₂ hseg => .pure hb₂ ?_
  refine Value.all_node_of_parts rfl ?_
  have hnames₂ := hg₂.all hnames
  cases typ with
  | none => exact ⟨hnames₂.listPart, hseg.listPart⟩
  | some t => exact ⟨hnames₂.listPart, ((hg₁.trans hg₂).all (ht t rfl)).part, hseg.listPart⟩

theorem makes_genDecl (hb : b.Sound) (kind : DeclKind) {specs : List Spec}
    (h : ∀ x ∈ specs, (Value.node ⟨.spec, x⟩).All b.Resolves) :
    Makes .stored (genDecl kind specs) b :=
  (makes_nodes hb (fun _ => rfl) h).bind fun _ _ hb' _ hseg =>
    makes_alloc_of_parts hb' rfl rfl hseg.listPart

theorem makes_funcDecl (hb : b.Sound) (text : String) {body : Option Block}
    (hs : (Value.stored sig).All b.Resolves)
    (hbody : ∀ x ∈ body, (Value.node (.block x)).All b.Resolves) :
    Makes .stored (funcDecl text sig body) b := by
  refine (makes_ident hb text).bind fun _ b' hb' hg hx => makes_alloc_of_parts hb' rfl rfl ?_
  cases body with
  | none => exact ⟨hx.part, (hg.all hs).part⟩
  | some y => exact ⟨hx.part, (hg.all hs).part, (hg.all (hbody y rfl)).part⟩

theorem makes_file (hb : b.Sound) (text : String) {decls : List TopLevelDecl}
    (h : ∀ x ∈ decls, (Value.item .topDecls x).All b.Resolves) :
    Makes .stored (file text decls) b := by
  refine (makes_ident hb text).bind fun _ b₁ hb₁ hg₁ hx => ?_
  have h₁ : ∀ x ∈ decls, (Value.item .topDecls x).All b₁.Resolves := fun x hx => hg₁.all (h x hx)
  refine (makes_list hb₁ h₁).bind fun _ b₂ hb₂ hg₂ hseg => makes_alloc hb₂ ?_
  -- the comments of the file are in no slot
  refine Value.all_payload.mpr ⟨List.forall_iff_forall_mem.mp ?_, by rintro sym ⟨⟩, ?_⟩
  · exact ⟨(hg₂.all hx).part, hseg.listPart⟩
  · rintro seg ⟨⟩
    exact Value.all_list.mp b₂.all_empty

theorem makes_package (hb : b.Sound) (text : String) {files : List (Id .file)}
    (h : ∀ x ∈ files, (Value.stored x).All b.Resolves) :
    Makes (fun x => .node ⟨.package, x⟩) (package text files) b := by
  refine (makes_intern hb text).bind fun sym b₁ hb₁ hg₁ hs => ?_
  have h₁ : ∀ x ∈ files, (Value.stored x).All b₁.Resolves := fun x hx => hg₁.all (h x hx)
  refine (makes_nodes hb₁ (fun _ => rfl) h₁).bind fun _ b₂ hb₂ hg₂ hseg => .pure hb₂ ?_
  refine Value.all_node.mpr (SlotPart.all_node.mpr ⟨?_, ?_⟩)
  · rintro _ ⟨⟩
    exact Value.all_symbol.mp (hg₂.all hs)
  · exact List.forall_mem_singleton.mpr hseg.listPart

end Functions

end BuildM

/-! ### Calls -/

/-- A call that makes something. The first four add to the names, the tables and the buffers
themselves, the others are those of a builder. -/
inductive Call where
  | intern (text : String)
  | alloc (c : Category) (x : c.Payload) (span : Span)
  | list (p : Pool) (items : List p.Item)
  | expand (stmts : List (Id .stmt))
  | ident (name : String)
  | lit (kind : LiteralKind) (text : String)
  | expr (x : Expr)
  | name (name : String)
  | int (text : String)
  | string (text : String)
  | selector (x : Id .expr) (sel : String)
  | call (fn : Id .expr) (args : List (Id .expr))
  | binary (left : Id .expr) (op : BinaryOp) (right : Id .expr)
  | funcLit (sig : Id .signature) (body : Block)
  | typ (t : TypeExpr)
  | namedType (name : String)
  | field (names : List String) (typ : Id .type)
  | fieldList (fields : List (Id .field))
  | signature (params : FieldList) (results : Option Results)
  | emptySignature
  | stmt (s : Stmt)
  | simple (s : SimpleStmt)
  | simpleStmt (s : SimpleStmt)
  | shortVarDecl (names : List String) (values : List (Id .expr))
  | assign (lhs : List (Id .expr)) (op : AssignOp) (rhs : List (Id .expr))
  | exprStmt (x : Id .expr)
  | ret (results : List (Id .expr))
  | block (stmts : List (Id .stmt))
  | blockStmt (stmts : List (Id .stmt))
  | ifStmt (cond : Id .expr) (thenBlock : Block) (elseStmt : Option (Id .stmt))
  | rangeStmt (key value : Option (Id .expr)) (x : Id .expr) (body : Block)
  | labeled (label : String) (s : Id .stmt)
  | commentGroup (lines : List String)
  | importSpec (name : Option String) (path : String)
  | valueSpec (names : List String) (typ : Option (Id .type)) (values : List (Id .expr))
  | genDecl (kind : DeclKind) (specs : List Spec)
  | funcDecl (name : String) (signature : Id .signature) (body : Option Block)
  | file (package : String) (decls : List TopLevelDecl)
  | package (name : String) (files : List (Id .file))

namespace Call

/-- The arguments of a call, apart from texts and marks. -/
def args : Call → List Value
  | alloc c x _ => [.payload c x]
  | list p items => items.map (.item p)
  | expand stmts => stmts.map .stored
  | expr x => [.payload .expr x]
  | selector x _ => [.stored x]
  | call fn args => .stored fn :: args.map .stored
  | binary left _ right => [.stored left, .stored right]
  | funcLit sig body => [.stored sig, .node (.block body)]
  | typ t => [.payload .type t]
  | field _ t => [.stored t]
  | fieldList fields => fields.map .stored
  | signature params results =>
      .node ⟨.fieldList, params⟩ :: results.toList.flatMap Results.values
  | stmt s => [.payload .stmt s]
  | simple s => [.payload .simpleStmt s]
  | simpleStmt s => [.payload .simpleStmt s]
  | shortVarDecl _ values => values.map .stored
  | assign lhs _ rhs => lhs.map .stored ++ rhs.map .stored
  | exprStmt x => [.stored x]
  | ret results => results.map .stored
  | block stmts => stmts.map .stored
  | blockStmt stmts => stmts.map .stored
  | ifStmt cond thenBlock elseStmt =>
      .stored cond :: .node (.block thenBlock) :: elseStmt.toList.map .stored
  | rangeStmt key value x body =>
      .stored x :: .node (.block body) :: (key.toList ++ value.toList).map .stored
  | labeled _ s => [.stored s]
  | valueSpec _ t values => t.toList.map .stored ++ values.map .stored
  | genDecl _ specs => specs.map fun x => .node ⟨.spec, x⟩
  | funcDecl _ sig body => .stored sig :: body.toList.map fun x => .node (.block x)
  | file _ decls => decls.map (.item .topDecls)
  | package _ files => files.map .stored
  | intern _ | ident _ | lit .. | name _ | int _ | string _ | namedType _ | emptySignature
  | commentGroup _ | importSpec .. => []

/-- Carries out a call. -/
def run : Call → BuildM Value
  | intern text => do return .symbol (← BuildM.intern text)
  | alloc c x span => do return .stored (← BuildM.onStore (StoreM.alloc c x span))
  | list p items => do return .list p (← BuildM.list p items)
  | expand stmts => do return .node (← BuildM.onStore (Node.expand stmts.toArray))
  | ident text => do return .node (.ident (← BuildM.ident text))
  | lit kind text => do return .node ⟨.basicLit, ← BuildM.lit kind text⟩
  | expr x => do return .stored (← BuildM.expr x)
  | name text => do return .stored (← BuildM.name text)
  | int text => do return .stored (← BuildM.int text)
  | string text => do return .stored (← BuildM.string text)
  | selector x sel => do return .stored (← BuildM.selector x sel)
  | call fn args => do return .stored (← BuildM.call fn args)
  | binary left op right => do return .stored (← BuildM.binary left op right)
  | funcLit sig body => do return .stored (← BuildM.funcLit sig body)
  | typ t => do return .stored (← BuildM.typ t)
  | namedType text => do return .stored (← BuildM.namedType text)
  | field names t => do return .stored (← BuildM.field names t)
  | fieldList fields => do return .node ⟨.fieldList, ← BuildM.fieldList fields⟩
  | signature params results => do return .stored (← BuildM.signature params results)
  | emptySignature => do return .stored (← BuildM.emptySignature)
  | stmt s => do return .stored (← BuildM.stmt s)
  | simple s => do return .stored (← BuildM.simple s)
  | simpleStmt s => do return .stored (← BuildM.simpleStmt s)
  | shortVarDecl names values => do return .stored (← BuildM.shortVarDecl names values)
  | assign lhs op rhs => do return .stored (← BuildM.assign lhs op rhs)
  | exprStmt x => do return .stored (← BuildM.exprStmt x)
  | ret results => do return .stored (← BuildM.ret results)
  | block stmts => do return .node (.block (← BuildM.block stmts))
  | blockStmt stmts => do return .stored (← BuildM.blockStmt stmts)
  | ifStmt cond thenBlock elseStmt => do
      return .stored (← BuildM.ifStmt cond thenBlock elseStmt)
  | rangeStmt key value x body => do return .stored (← BuildM.rangeStmt key value x body)
  | labeled label s => do return .stored (← BuildM.labeled label s)
  | commentGroup lines => do return .stored (← BuildM.commentGroup lines)
  | importSpec text path => do return .node ⟨.spec, ← BuildM.importSpec text path⟩
  | valueSpec names t values => do return .node ⟨.spec, ← BuildM.valueSpec names t values⟩
  | genDecl kind specs => do return .stored (← BuildM.genDecl kind specs)
  | funcDecl text sig body => do return .stored (← BuildM.funcDecl text sig body)
  | file text decls => do return .stored (← BuildM.file text decls)
  | package text files => do return .node ⟨.package, ← BuildM.package text files⟩

/-- What is returned is a value. -/
theorem makes_value {α : Type} {value : α → Value} {x : BuildM α} {b : Builder}
    (h : x.Makes value b) : BuildM.Makes id (x >>= fun a => pure (value a)) b :=
  h.map fun _ _ ha => ha

open BuildM in
/-- A call whose arguments resolve leaves a sound builder and returns what resolves. -/
theorem makes (k : Call) {b : Builder} (hb : b.Sound) (hk : ∀ v ∈ k.args, v.All b.Resolves) :
    Makes id k.run b := by
  have hmap : ∀ {α : Type} {value : α → Value} {xs : List α},
      (∀ v ∈ xs.map value, v.All b.Resolves) → ∀ x ∈ xs, (value x).All b.Resolves :=
    fun h x hx => h _ (List.mem_map_of_mem hx)
  have hopt : ∀ {α : Type} {value : α → Value} {o : Option α},
      (∀ v ∈ o.toList.map value, v.All b.Resolves) → ∀ x ∈ o, (value x).All b.Resolves :=
    fun h x hx => hmap h x (Option.mem_toList.mpr hx)
  cases k with
  | intern text => exact makes_value (makes_intern hb text)
  | alloc c x span =>
    exact makes_value (makes_onStore_alloc hb span (hk _ (.head _)))
  | list p items => exact makes_value (makes_list hb (hmap hk))
  | expand stmts => exact makes_value (makes_expand hb (hmap hk))
  | ident text => exact makes_value (makes_ident hb text)
  | lit kind text => exact makes_value (makes_lit hb kind text)
  | expr x => exact makes_value (makes_alloc hb (hk _ (.head _)))
  | name text => exact makes_value (makes_name hb text)
  | int text => exact makes_value (makes_litExpr hb .int text)
  | string text => exact makes_value (makes_litExpr hb .string _)
  | selector x sel => exact makes_value (makes_selector hb (hk _ (.head _)) sel)
  | call fn args =>
    obtain ⟨hfn, hargs⟩ := List.forall_mem_cons.mp hk
    exact makes_value (makes_call hb hfn (hmap hargs))
  | binary left op right =>
    obtain ⟨hl, hr⟩ := List.forall_mem_cons.mp hk
    exact makes_value (makes_alloc_of_parts hb rfl rfl ⟨hl.part, (hr _ (.head _)).part⟩)
  | funcLit sig body =>
    obtain ⟨hs, hbody⟩ := List.forall_mem_cons.mp hk
    exact makes_value (makes_alloc_of_parts hb rfl rfl ⟨hs.part, (hbody _ (.head _)).part⟩)
  | typ t => exact makes_value (makes_alloc hb (hk _ (.head _)))
  | namedType text => exact makes_value (makes_namedType hb text)
  | field names t => exact makes_value (makes_field hb names (hk _ (.head _)))
  | fieldList fields => exact makes_value (makes_fieldList hb (hmap hk))
  | signature params results =>
    obtain ⟨hp, hr⟩ := List.forall_mem_cons.mp hk
    exact makes_value (makes_signature hb hp hr)
  | emptySignature => exact makes_value (makes_emptySignature hb)
  | stmt s => exact makes_value (makes_alloc hb (hk _ (.head _)))
  | simple s => exact makes_value (makes_alloc hb (hk _ (.head _)))
  | simpleStmt s => exact makes_value (makes_simpleStmt hb (hk _ (.head _)))
  | shortVarDecl names values => exact makes_value (makes_shortVarDecl hb names (hmap hk))
  | assign lhs op rhs =>
    obtain ⟨hl, hr⟩ := List.forall_mem_append.mp hk
    exact makes_value (makes_assign hb op (hmap hl) (hmap hr))
  | exprStmt x => exact makes_value (makes_exprStmt hb (hk _ (.head _)))
  | ret results => exact makes_value (makes_ret hb (hmap hk))
  | block stmts => exact makes_value (makes_block hb (hmap hk))
  | blockStmt stmts => exact makes_value (makes_blockStmt hb (hmap hk))
  | ifStmt cond thenBlock elseStmt =>
    obtain ⟨hc, hrest⟩ := List.forall_mem_cons.mp hk
    obtain ⟨ht, he⟩ := List.forall_mem_cons.mp hrest
    exact makes_value (makes_ifStmt hb hc ht (hopt he))
  | rangeStmt key value x body =>
    obtain ⟨hx, hrest⟩ := List.forall_mem_cons.mp hk
    obtain ⟨hbody, hrest⟩ := List.forall_mem_cons.mp hrest
    rw [List.map_append] at hrest
    obtain ⟨hkey, hvalue⟩ := List.forall_mem_append.mp hrest
    exact makes_value (makes_rangeStmt hb hx hbody (hopt hkey) (hopt hvalue))
  | labeled label s => exact makes_value (makes_labeled hb label (hk _ (.head _)))
  | commentGroup lines => exact makes_value (makes_commentGroup hb lines)
  | importSpec text path => exact makes_value (makes_importSpec hb text path)
  | valueSpec names t values =>
    obtain ⟨ht, hv⟩ := List.forall_mem_append.mp hk
    exact makes_value (makes_valueSpec hb names (hopt ht) (hmap hv))
  | genDecl kind specs => exact makes_value (makes_genDecl hb kind (hmap hk))
  | funcDecl text sig body =>
    obtain ⟨hs, hbody⟩ := List.forall_mem_cons.mp hk
    exact makes_value (makes_funcDecl hb text hs (hopt hbody))
  | file text decls => exact makes_value (makes_file hb text (hmap hk))
  | package text files => exact makes_value (makes_package hb text (hmap hk))

end Call

/-! ### Sequences of calls -/

/-- A handle that may be used after `made` has been returned. -/
def Handle.Known (made : List Value) (h : Handle) : Prop :=
  (∃ p, h = .list p .empty) ∨ ∃ v ∈ made, v.Mentions h

/-- A sequence of calls, starting with nothing but a hash function, has returned `made`, the latest
value first, and has led to a builder. All calls have succeeded, and their arguments mention only
what was returned before them. -/
inductive Builds : List Value → Builder → Prop where
  | start (hash : String → UInt64) : Builds [] ⟨{}, { hash }⟩
  | call {made : List Value} {b b' : Builder} {v : Value} (h : Builds made b) (k : Call)
      (hk : ∀ u ∈ k.args, u.All (Handle.Known made)) (hr : k.run b = .ok v b') :
      Builds (v :: made) b'

/-- A builder is sound at any time, and so is all that has been returned. -/
theorem Builds.sound {made : List Value} {b : Builder} (h : Builds made b) :
    b.Sound ∧ ∀ v ∈ made, v.All b.Resolves := by
  induction h with
  | start hash => exact ⟨Builder.sound_empty hash, List.forall_mem_nil _⟩
  | @call made b b' v h k hk hr ih =>
    obtain ⟨hb, hmade⟩ := ih
    have hargs : ∀ u ∈ k.args, u.All b.Resolves := by
      refine fun u hu => (hk u hu).imp ?_
      rintro _ (⟨p, rfl⟩ | ⟨w, hw, hm⟩)
      · exact Nat.zero_le _
      · exact hmade w hw _ hm
    obtain ⟨hb', hg, hv⟩ := k.makes hb hargs v b' hr
    exact ⟨hb', List.forall_mem_cons.mpr ⟨hv, fun w hw => hg.all (hmade w hw)⟩⟩

/-- **Construction.** Take any sequence of calls that starts with nothing and in which every call is
given only what earlier calls have returned. If no buffer has outgrown 32 bits, then

* every id and every list in the store resolves;
* no address of the store reaches itself;
* every node that any of the calls has returned can be traversed, which changes nothing, and
  printed: from some depth on, the traversal that keeps everything returns the node and the store
  as they are, and printing returns a text. -/
theorem Builds.traversable {made : List Value} {b : Builder} (h : Builds made b)
    (hs : b.store.Small) :
    b.store.Closed ∧
    (∀ a, ¬Relation.TransGen b.store.Refers a a) ∧
    ∀ n, .node n ∈ made → ∃ D, ∀ depth, D ≤ depth →
      (keepAll.run depth n b.store ()).result = .ok n ∧
      (keepAll.run depth n b.store ()).store = b.store ∧
      ∃ text, b.store.print b.names depth n = .ok text := by
  obtain ⟨hb, hmade⟩ := h.sound
  obtain ⟨date, now, hd⟩ := hb.dated
  refine ⟨hb.store.closed, hd.not_transGen_refers, fun n hn => ?_⟩
  exact hb.store.exists_depth hd hs (hmade _ hn)

/-- The only name is `f`. -/
def oneName : NameTable :=
  (({} : NameTable).add "f").2

private theorem run_intern_f :
    (Call.intern "f").run ⟨{}, {}⟩ = .ok (.symbol ⟨0⟩) ⟨{}, oneName⟩ := by
  have h : ({} : NameTable).find? "f" = none := by simp [NameTable.find?, NameTable.bucket]
  simp only [Call.run, BuildM.intern, NameTable.intern, h, bind, EStateM.bind]
  rfl

/-- The statement `f(f, f)`, twice in one block, with a single node for each `f`. -/
def sharedCall : Builder where
  store :=
    { tables :=
        { exprs := .ofNodes #[.ident ⟨⟨0⟩, .none⟩, .call (.expr ⟨0⟩) none ⟨0, 2⟩ false]
          simpleStmts := .ofNodes #[.expr ⟨1⟩]
          stmts := .ofNodes #[.simple ⟨0⟩] }
      buffers := { exprs := #[⟨0⟩, ⟨0⟩], stmts := #[⟨0⟩, ⟨0⟩] } }
  names := oneName

/-- What the calls have returned. -/
def sharedMade : List Value :=
  [.node (.block ⟨⟨0, 2⟩⟩), .stored (⟨0⟩ : Id .stmt), .stored (⟨1⟩ : Id .expr),
    .stored (⟨0⟩ : Id .expr), .symbol ⟨0⟩]

private theorem builds_sharedCall : Builds sharedMade sharedCall := by
  have known : ∀ {made : List Value} {c : Category} {id : Id c}, .stored id ∈ made →
      (Value.stored id).All (Handle.Known made) := fun h _ hm => .inr ⟨_, h, hm⟩
  refine .call (.call (.call (.call (.call (.start _) (.intern "f") (List.forall_mem_nil _)
    run_intern_f) (.expr (.ident ⟨⟨0⟩, .none⟩)) ?_ rfl) (.call ⟨0⟩ [⟨0⟩, ⟨0⟩]) ?_ rfl)
    (.exprStmt ⟨1⟩) ?_ rfl) (.block [⟨0⟩, ⟨0⟩]) ?_ rfl
  · refine List.forall_mem_singleton.mpr (Value.all_payload.mpr
      ⟨List.forall_mem_nil _, ?_, by rintro seg ⟨⟩⟩)
    rintro sym ⟨⟩
    exact .inr ⟨_, .head _, .symbol _⟩
  · exact List.forall_iff_forall_mem.mp
      ⟨known (.head _), known (.head _), known (.head _)⟩
  · exact List.forall_mem_singleton.mpr (known (.head _))
  · exact List.forall_iff_forall_mem.mp ⟨known (.head _), known (.head _)⟩

/-- Five calls make the block, which is traversed and printed. -/
theorem traversable_sharedCall :
    let block : Node := .block ⟨⟨0, 2⟩⟩
    (Builds sharedMade sharedCall ∧ sharedCall.store.Small ∧ .node block ∈ sharedMade) ∧
      sharedCall.store.Closed ∧ (∀ a, ¬Relation.TransGen sharedCall.store.Refers a a) ∧
      (∃ D, ∀ depth, D ≤ depth →
        (keepAll.run depth block sharedCall.store ()).result = .ok block ∧
        (keepAll.run depth block sharedCall.store ()).store = sharedCall.store ∧
        ∃ text, sharedCall.store.print sharedCall.names depth block = .ok text) ∧
      sharedCall.store.print sharedCall.names 9 block =
        .ok "\x7b\n\tf(f, f)\n\tf(f, f)\n\x7d" := by
  intro block
  have hs : sharedCall.store.Small := by
    intro p
    cases p <;> decide
  have hmem : Value.node block ∈ sharedMade := .head _
  obtain ⟨hclosed, hacyclic, hnode⟩ := builds_sharedCall.traversable hs
  exact ⟨⟨builds_sharedCall, hs, hmem⟩, hclosed, hacyclic, hnode block hmem, by rfl⟩

end GoTree
