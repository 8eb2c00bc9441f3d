import GoTree.Profile.Template
import GoTree.Proofs.Construction
import GoTree.Proofs.Splitting

/-!
# The template in its store

What `Profile.template` leaves in the store: a block whose statements are by turns a declaration of
two names with two literals (`Store.IsPair`) and the call of a name with a name (`Store.IsCall`).
Nothing is overwritten while it is built, so each statement, once made, is there to the end
(`Store.Extends`).

Building and splitting stop early for one reason only, that a table or a buffer has become too long
for the words that count it. `FailsFull` says so of an action, and it passes from the parts of an
action to the whole, since the store at the fault is the store at the end.
-/

namespace GoTree

/-! ### Actions that fail in a full store only -/

section FailsFull

variable {τ α β : Type} {store : τ → Store}

/-- When the action faults, the store is too long to be counted in words. -/
def FailsFull (store : τ → Store) (x : EStateM Fault τ α) : Prop :=
  ∀ t e t', x t = .error e t' → ¬(store t').Counted

namespace FailsFull

theorem pure (a : α) : FailsFull store (pure a) := by
  rintro t e t' ⟨⟩

theorem bind {x : EStateM Fault τ α} {f : α → EStateM Fault τ β} (hx : FailsFull store x)
    (hf : ∀ a, FailsFull store (f a)) : FailsFull store (x >>= f) := by
  intro t e t' h
  rcases hr : x t with ⟨a, t₁⟩ | ⟨e₁, t₁⟩ <;> simp only [Bind.bind, EStateM.bind, hr] at h
  · exact hf a t₁ e t' h
  · cases h
    exact hx t _ _ hr

theorem mapM {f : α → EStateM Fault τ β} (hf : ∀ a, FailsFull store (f a)) (xs : List α) :
    FailsFull store (xs.mapM f) := by
  induction xs with
  | nil => exact .pure []
  | cons x xs ih =>
    rw [List.mapM_cons]
    exact (hf x).bind fun b => ih.bind fun bs => .pure (b :: bs)

theorem list (p : Pool) (xs : Array p.Item) : FailsFull id (StoreM.list p xs) :=
  fun _ _ _ h hc => StoreM.list_ne_error hc.buffers h

theorem alloc (c : Category) (x : c.Payload) : FailsFull id (StoreM.alloc c x) := by
  rintro s e s' ⟨⟩

theorem onStore {x : StoreM α} (hx : FailsFull id x) :
    FailsFull Builder.store (BuildM.onStore x) := by
  intro b e b' h
  simp only [BuildM.onStore] at h
  split at h
  · cases h
  · next hr =>
    cases h
    exact hx _ _ _ hr

theorem intern (text : String) : FailsFull Builder.store (BuildM.intern text) := by
  rintro b e b' ⟨⟩

end FailsFull

theorem failsFull_singleDecl (x : IdentName × Id .expr) : FailsFull id (singleDecl x) :=
  (FailsFull.list _ _).bind fun _ => (FailsFull.list _ _).bind fun _ =>
    (FailsFull.alloc _ _).bind fun _ => .alloc _ _

theorem failsFull_expand (stmts : Array (Id .stmt)) : FailsFull id (Node.expand stmts) :=
  (FailsFull.list _ _).bind fun _ => .pure _

open BuildM

theorem failsFull_ident (name : String) : FailsFull Builder.store (ident name) :=
  (FailsFull.intern name).bind fun _ => .pure _

private theorem failsFull_int (text : String) : FailsFull Builder.store (int text) :=
  ((FailsFull.intern text).bind fun _ => .pure _).bind fun _ => .onStore (.alloc _ _)

private theorem failsFull_name (name : String) : FailsFull Builder.store (BuildM.name name) :=
  (failsFull_ident name).bind fun _ => .onStore (.alloc _ _)

theorem failsFull_simpleStmt (x : SimpleStmt) : FailsFull Builder.store (simpleStmt x) :=
  (FailsFull.onStore (.alloc _ _)).bind fun _ => .onStore (.alloc _ _)

private theorem failsFull_shortVarDecl (names : List String) (values : List (Id .expr)) :
    FailsFull Builder.store (shortVarDecl names values) :=
  ((FailsFull.mapM failsFull_ident names).bind fun _ => .onStore (.list _ _)).bind fun _ =>
    (FailsFull.onStore (.list _ _)).bind fun _ => failsFull_simpleStmt _

private theorem failsFull_call (fn : Id .expr) (args : List (Id .expr)) :
    FailsFull Builder.store (call fn args) :=
  (FailsFull.onStore (.list _ _)).bind fun _ => .onStore (.alloc _ _)

private theorem Profile.failsFull_templateStmt (i : Nat) :
    FailsFull Builder.store (templateStmt i) := by
  unfold templateStmt
  split
  · exact (failsFull_int _).bind fun _ => (failsFull_int _).bind fun _ =>
      failsFull_shortVarDecl _ _
  · exact (failsFull_name _).bind fun _ => (failsFull_name _).bind fun _ =>
      (failsFull_call _ _).bind fun _ => failsFull_simpleStmt _

private theorem Profile.failsFull_templateStmts (n i : Nat) (stmts : Array (Id .stmt)) :
    FailsFull Builder.store (templateStmts n i stmts) := by
  induction n generalizing i stmts with
  | zero => exact .pure stmts
  | succ n ih => exact (failsFull_templateStmt i).bind fun _ => ih _ _

/-- The template can be built unless the store is full. -/
theorem Profile.failsFull_template (n : Nat) : FailsFull Builder.store (template n) :=
  (failsFull_templateStmts n 0 #[]).bind fun _ =>
    (FailsFull.onStore (.list _ _)).bind fun _ => .pure _

end FailsFull

/-! ### The statements of the template -/

namespace Store

/-- A statement declares two names with two literals. -/
def IsPair (s : Store) (id : Id .stmt) : Prop :=
  ∃ a b x y lit lit', s.Declares id [(a, x), (b, y)] ∧ s.get? x = some (.basicLit lit) ∧
    s.get? y = some (.basicLit lit')

/-- A statement calls a name with a name. -/
def IsCall (s : Store) (id : Id .stmt) : Prop :=
  ∃ (simple : Id .simpleStmt) (x fn arg : Id .expr) (args : Segment .exprs) (f a : IdentName),
    s.get? id = some (.simple simple) ∧ s.get? simple = some (.expr x) ∧
    s.get? x = some (.call (.expr fn) none args false) ∧ s.Holds args [arg] ∧
    s.get? fn = some (.ident f) ∧ s.get? arg = some (.ident a)

/-- A statement is what stands at position `i` of the template. -/
def IsTemplateStmt (s : Store) (i : Nat) (id : Id .stmt) : Prop :=
  if i % 2 = 0 then s.IsPair id else s.IsCall id

variable {s s' : Store} {i : Nat} {id : Id .stmt}

private theorem Extends.isPair (h : s.Extends s') (hid : s.IsPair id) : s'.IsPair id := by
  obtain ⟨a, b, x, y, lit, lit', hd, hx, hy⟩ := hid
  exact ⟨a, b, x, y, lit, lit', h.declares hd, h.get? hx, h.get? hy⟩

theorem Extends.isCall (h : s.Extends s') (hid : s.IsCall id) : s'.IsCall id := by
  obtain ⟨simple, x, fn, arg, args, f, a, hid, hsimple, hx, hargs, hfn, harg⟩ := hid
  exact ⟨simple, x, fn, arg, args, f, a, h.get? hid, h.get? hsimple, h.get? hx, h.holds hargs,
    h.get? hfn, h.get? harg⟩

theorem Extends.isTemplateStmt (h : s.Extends s') (hid : s.IsTemplateStmt i id) :
    s'.IsTemplateStmt i id := by
  unfold IsTemplateStmt at hid ⊢
  split
  · next hi => exact h.isPair (by rwa [if_pos hi] at hid)
  · next hi => exact h.isCall (by rwa [if_neg hi] at hid)

end Store

/-! ### What is built -/

theorem length_of_mapM_eq_ok {ε τ α β : Type} {f : α → EStateM ε τ β} {xs : List α} {ys : List β}
    {t t' : τ} (h : xs.mapM f t = .ok ys t') : ys.length = xs.length := by
  induction xs generalizing t ys with
  | nil =>
    cases h
    rfl
  | cons x xs ih =>
    rw [List.mapM_cons] at h
    obtain ⟨y, t₁, -, h⟩ := bind_eq_ok h
    obtain ⟨zs, t₂, hzs, h⟩ := bind_eq_ok h
    cases h
    exact congrArg (· + 1) (ih hzs)

section Built

variable {b b₁ b' : Builder}

namespace BuildM

theorem alloc_eq_ok {c : Category} {x : c.Payload} {id : Id c} (h : alloc c x b = .ok id b') :
    b.store.Extends b'.store ∧ (b'.store.Counted → b'.store.get? id = some x) := by
  obtain ⟨s, hs, rfl⟩ := onStore_eq_ok h
  have he : b.store.Extends s := by
    cases hs
    exact b.store.extends_push c x .none
  exact ⟨he, fun hc => StoreM.get?_of_alloc hs ((hc.of_grows he.grows).tables c)⟩

theorem list_eq_ok {p : Pool} {xs : List p.Item} {seg : Segment p}
    (h : list p xs b = .ok seg b') : b.store.Extends b'.store ∧ b'.store.Holds seg xs := by
  obtain ⟨s, hs, rfl⟩ := onStore_eq_ok h
  exact ⟨StoreM.extends_list hs, StoreM.holds_of_list hs⟩

theorem int_eq_ok {text : String} {id : Id .expr} (h : int text b = .ok id b') :
    b.store.Extends b'.store ∧
      (b'.store.Counted → ∃ lit, b'.store.get? id = some (.basicLit lit)) := by
  obtain ⟨lit, b₁, hlit, h⟩ := bind_eq_ok h
  cases hlit
  obtain ⟨he, hget⟩ := alloc_eq_ok h
  exact ⟨he, fun hc => ⟨_, hget hc⟩⟩

theorem name_eq_ok {text : String} {id : Id .expr} (h : BuildM.name text b = .ok id b') :
    b.store.Extends b'.store ∧
      (b'.store.Counted → ∃ x, b'.store.get? id = some (.ident x)) := by
  obtain ⟨x, b₁, hx, h⟩ := bind_eq_ok h
  cases hx
  obtain ⟨he, hget⟩ := alloc_eq_ok h
  exact ⟨he, fun hc => ⟨_, hget hc⟩⟩

/-- Interning names leaves the store alone. -/
private theorem store_of_mapM_ident {names : List String} {xs : List IdentName}
    (h : names.mapM ident b = .ok xs b') : b'.store = b.store := by
  induction names generalizing b xs with
  | nil =>
    cases h
    rfl
  | cons name names ih =>
    rw [List.mapM_cons] at h
    obtain ⟨x, b₁, hx, h⟩ := bind_eq_ok h
    obtain ⟨ys, b₂, hys, h⟩ := bind_eq_ok h
    cases h
    have hstore : b₁.store = b.store := by
      cases hx
      rfl
    exact (ih hys).trans hstore

theorem idents_eq_ok {names : List String} {seg : Segment .identNames}
    (h : idents names b = .ok seg b') :
    b.store.Extends b'.store ∧ ∃ xs, xs.length = names.length ∧ b'.store.Holds seg xs := by
  obtain ⟨xs, b₁, hxs, h⟩ := bind_eq_ok h
  rw [← store_of_mapM_ident hxs]
  obtain ⟨he, hholds⟩ := list_eq_ok h
  exact ⟨he, xs, length_of_mapM_eq_ok hxs, hholds⟩

theorem simpleStmt_eq_ok {x : SimpleStmt} {id : Id .stmt} (h : simpleStmt x b = .ok id b') :
    b.store.Extends b'.store ∧ (b'.store.Counted → ∃ simple : Id .simpleStmt,
      b'.store.get? id = some (.simple simple) ∧ b'.store.get? simple = some x) := by
  obtain ⟨simple, b₁, hsimple, h⟩ := bind_eq_ok h
  obtain ⟨he₁, hget₁⟩ := alloc_eq_ok hsimple
  obtain ⟨he₂, hget₂⟩ := alloc_eq_ok h
  refine ⟨he₁.trans he₂, fun hc => ⟨simple, hget₂ hc, ?_⟩⟩
  exact he₂.get? (hget₁ (hc.of_grows he₂.grows))

/-- A declaration of two names. -/
theorem shortVarDecl_eq_ok {name name' : String} {x y : Id .expr} {id : Id .stmt}
    (h : shortVarDecl [name, name'] [x, y] b = .ok id b') :
    b.store.Extends b'.store ∧
      (b'.store.Counted → ∃ a a', b'.store.Declares id [(a, x), (a', y)]) := by
  obtain ⟨names, b₁, hnames, h⟩ := bind_eq_ok h
  obtain ⟨values, b₂, hvalues, h⟩ := bind_eq_ok h
  obtain ⟨he₁, xs, hlen, hholds⟩ := idents_eq_ok hnames
  obtain ⟨he₂, hholds'⟩ := list_eq_ok hvalues
  obtain ⟨he₃, hstmt⟩ := simpleStmt_eq_ok h
  obtain ⟨a, a', rfl⟩ := List.length_eq_two.mp hlen
  refine ⟨he₁.trans (he₂.trans he₃), fun hc => ?_⟩
  exact ⟨a, a', names, values, hstmt hc, (he₂.trans he₃).holds hholds, he₃.holds hholds'⟩

/-- A call with one argument. -/
theorem call_eq_ok {fn arg id : Id .expr} (h : call fn [arg] b = .ok id b') :
    b.store.Extends b'.store ∧ (b'.store.Counted → ∃ args,
      b'.store.get? id = some (.call (.expr fn) none args false) ∧ b'.store.Holds args [arg]) := by
  obtain ⟨args, b₁, hargs, h⟩ := bind_eq_ok h
  obtain ⟨he₁, hholds⟩ := list_eq_ok hargs
  obtain ⟨he₂, hget⟩ := alloc_eq_ok h
  exact ⟨he₁.trans he₂, fun hc => ⟨args, hget hc, he₂.holds hholds⟩⟩

end BuildM

open BuildM

namespace Profile

theorem templateStmt_eq_ok {i : Nat} {id : Id .stmt} (h : templateStmt i b = .ok id b') :
    b.store.Extends b'.store ∧ (b'.store.Counted → b'.store.IsTemplateStmt i id) := by
  unfold templateStmt at h
  unfold Store.IsTemplateStmt
  split at h
  · next hi =>
    obtain ⟨x, b₁, hx, h⟩ := bind_eq_ok h
    obtain ⟨y, b₂, hy, h⟩ := bind_eq_ok h
    obtain ⟨he₁, hx⟩ := int_eq_ok hx
    obtain ⟨he₂, hy⟩ := int_eq_ok hy
    obtain ⟨he₃, hdecl⟩ := shortVarDecl_eq_ok h
    refine ⟨he₁.trans (he₂.trans he₃), fun hc => ?_⟩
    obtain ⟨lit, hx⟩ := hx (hc.of_grows (he₂.trans he₃).grows)
    obtain ⟨lit', hy⟩ := hy (hc.of_grows he₃.grows)
    obtain ⟨a, a', hdecl⟩ := hdecl hc
    rw [if_pos hi]
    exact ⟨a, a', x, y, lit, lit', hdecl, (he₂.trans he₃).get? hx, he₃.get? hy⟩
  · next hi =>
    obtain ⟨fn, b₁, hfn, h⟩ := bind_eq_ok h
    obtain ⟨arg, b₂, harg, h⟩ := bind_eq_ok h
    obtain ⟨x, b₃, hx, h⟩ := bind_eq_ok h
    obtain ⟨he₁, hfn⟩ := name_eq_ok hfn
    obtain ⟨he₂, harg⟩ := name_eq_ok harg
    obtain ⟨he₃, hx⟩ := call_eq_ok hx
    obtain ⟨he₄, hstmt⟩ := simpleStmt_eq_ok h
    have he₃₄ := he₃.trans he₄
    refine ⟨he₁.trans (he₂.trans he₃₄), fun hc => ?_⟩
    obtain ⟨f, hfn⟩ := hfn (hc.of_grows (he₂.trans he₃₄).grows)
    obtain ⟨a, harg⟩ := harg (hc.of_grows he₃₄.grows)
    obtain ⟨args, hx, hargs⟩ := hx (hc.of_grows he₄.grows)
    obtain ⟨simple, hid, hsimple⟩ := hstmt hc
    rw [if_neg hi]
    exact ⟨simple, x, fn, arg, args, f, a, hid, hsimple, he₄.get? hx, he₄.holds hargs,
      (he₂.trans he₃₄).get? hfn, he₃₄.get? harg⟩

theorem templateStmts_eq_ok {n i : Nat} {stmts stmts' : Array (Id .stmt)}
    (h : templateStmts n i stmts b = .ok stmts' b') :
    b.store.Extends b'.store ∧ ∃ ids, stmts' = stmts ++ ids.toArray ∧
      (b'.store.Counted → List.Forall₂ b'.store.IsTemplateStmt (List.range' i n) ids) := by
  induction n generalizing b i stmts with
  | zero =>
    cases h
    exact ⟨.refl _, [], by simp, fun _ => .nil⟩
  | succ n ih =>
    obtain ⟨id, b₁, hid, h⟩ := bind_eq_ok h
    obtain ⟨he₁, hstmt⟩ := templateStmt_eq_ok hid
    obtain ⟨he₂, ids, rfl, hids⟩ := ih h
    refine ⟨he₁.trans he₂, id :: ids, by simp, fun hc => ?_⟩
    exact .cons (he₂.isTemplateStmt (hstmt (hc.of_grows he₂.grows))) (hids hc)

/-- The template is a block of its statements. -/
theorem template_eq_ok {n : Nat} {root : Node} (h : template n b = .ok root b')
    (hc : b'.store.Counted) : ∃ seg ids, root = .block ⟨seg⟩ ∧ b'.store.Holds seg ids ∧
      List.Forall₂ b'.store.IsTemplateStmt (List.range n) ids := by
  obtain ⟨stmts, b₁, hstmts, h⟩ := bind_eq_ok h
  obtain ⟨seg, b₂, hseg, h⟩ := bind_eq_ok h
  cases h
  obtain ⟨-, ids, rfl, hids⟩ := templateStmts_eq_ok hstmts
  rw [Array.empty_append] at hseg
  obtain ⟨he, hholds⟩ := list_eq_ok hseg
  refine ⟨seg, ids, rfl, hholds, ?_⟩
  rw [List.range_eq_range']
  exact (hids (hc.of_grows he.grows)).imp fun _ _ => he.isTemplateStmt

end Profile

end Built

end GoTree
