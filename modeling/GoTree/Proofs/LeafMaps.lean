import GoTree.Proofs.Edits

/-!
# Mapping the leaves of a tree

A `LeafMap` is a function on identifiers together with a function on literals. Its transformer
answers an identifier or a literal with its image and every other node with itself, and always goes
on. On a tree-shaped root the run of this transformer is known in full (`LeafMap.leaf_runs`): every
identifier and every literal that sits in a slot of the tree is mapped exactly once, wherever the
slot is (in an entry, in a cell of a list, in a specification in such a cell, or at the root
itself), and nothing else of the store is touched. The names in identifier expressions and the texts
in literal expressions are no slots, so they stay. Two runs in a row are one run of the composed
map.

What becomes of an entry is said by `Slots.mapNodes`: all its slots with one node are answered by
the map, and its list handles stay. The store after the run is given address by address
(`LeafMap.Maps`), which determines it (`LeafMap.Maps.unique`).
-/

namespace GoTree

/-! ### Answering all slots with one node -/

/-- What is rebuilt when every slot with one node is answered by `f` and every list is kept. -/
def Slots.mapNodes {α : Type} (f : (k : Kind) → k.Value → k.Value) : Slots α → α
  | done a => a
  | node _ k v next => (next (f k v)).mapNodes f
  | list _ _ seg next => (next seg).mapNodes f

/-- A function on identifiers and a function on literals. -/
structure LeafMap where
  name : IdentName → IdentName
  lit : BasicLit → BasicLit

namespace LeafMap

variable (M N : LeafMap)

/-- `M` first, then `N`. -/
def andThen : LeafMap :=
  ⟨N.name ∘ M.name, N.lit ∘ M.lit⟩

/-- Maps an identifier or a literal; any other value stays. -/
def leaf : (k : Kind) → k.Value → k.Value
  | .ident, x => M.name x
  | .basicLit, x => M.lit x
  | _, x => x

/-- Maps what sits in a slot. Of the values that are no leaves, only a specification has leaves in
slots of its own. -/
def value : (k : Kind) → k.Value → k.Value
  | .spec, x => (Spec.slots x).mapNodes M.leaf
  | k, x => M.leaf k x

def node (n : Node) : Node :=
  ⟨n.kind, M.value n.kind n.value⟩

/-- Maps the slots of an entry. -/
def payload (c : Category) (x : c.Payload) : c.Payload :=
  (c.slots x).mapNodes M.value

/-- Maps the slots of an item of a list. -/
def item (p : Pool) (x : p.Item) : p.Item :=
  (p.slots "" x).mapNodes M.value

def part : SlotPart → SlotPart
  | .node l n => .node l (M.node n)
  | .list l p seg => .list l p seg
  | .item l p x => .item l p (M.item p x)

/-- Maps a leaf, or the slots of what is no leaf. -/
def body : (k : Kind) → k.Body → k.Body
  | .ident, x => M.name x
  | .basicLit, x => M.lit x
  | .stored c, x => M.payload c x
  | .fieldList, x => x
  | .block, x => x
  | .expandedBlock, x => x
  | .spec, x => (Spec.slots x).mapNodes M.leaf
  | .package, x => x

/-- Answers each leaf with its image and every other node with itself, and goes on. -/
def transformer : Transformer Unit where
  replace := fun n c => .ok (⟨n.kind, M.leaf n.kind n.value⟩, true) c

/-- From `s` to `s'` the slots at the addresses `fp` are mapped, and nothing else changes. -/
structure Maps (fp : Multiset Address) (s s' : Store) : Prop where
  sizes : s.SameSizes s'
  node : ∀ c i, Address.node c i ∈ fp →
    (s'.table c).nodes[i]? = (s.table c).nodes[i]?.map (M.payload c)
  cell : ∀ p i, Address.cell p i ∈ fp → (s'.buffer p)[i]? = (s.buffer p)[i]?.map (M.item p)
  outside : ∀ a, a ∉ fp → s.SameAt s' a

end LeafMap

/-! ### Laws of the constructs -/

namespace LeafMap

variable {M N : LeafMap} {α : Type}

theorem refills_mapNodes {x : Slots α} (hx : x.Steady) :
    x.Refills (x.parts.map M.part) (x.mapNodes M.value) := by
  induction x with
  | done a => exact .done a
  | node l k v next ih =>
    obtain ⟨hparts, hnext⟩ := hx (M.value k v)
    have h := ih _ hnext
    rw [hparts] at h
    exact .node h
  | list l p seg next ih => exact .list (ih seg (hx seg).2)

theorem mapNodes_spec (M : LeafMap) (x : Spec) :
    (Spec.slots x).mapNodes M.value = (Spec.slots x).mapNodes M.leaf := by
  rcases x with ⟨_ | _, _ | _, _, _ | _⟩ | ⟨_ | _, _, _ | _, _, _ | _⟩ |
    ⟨_ | _, _, _ | _, _, _, _ | _⟩ <;> rfl

theorem mapNodes_relabel (M : LeafMap) (p : Pool) (l : String) (x : p.Item) :
    (p.slots l x).mapNodes M.value = M.item p x := by
  cases p <;> rfl

private theorem payload_andThen (M N : LeafMap) (c : Category) (x : c.Payload) :
    (M.andThen N).payload c x = N.payload c (M.payload c x) := by
  cases c <;> cases x <;>
    (try casesm* Option _, Results, ArrayLen, TypeConstraint, Callee, BranchStmt, ForKind,
      TypeSwitchGuard, GenDecl) <;> rfl

theorem leaf_andThen (M N : LeafMap) (x : Spec) :
    (Spec.slots x).mapNodes (M.andThen N).leaf =
      (Spec.slots ((Spec.slots x).mapNodes M.leaf)).mapNodes N.leaf := by
  rcases x with ⟨_ | _, _ | _, _, _ | _⟩ | ⟨_ | _, _, _ | _, _, _ | _⟩ |
    ⟨_ | _, _, _ | _, _, _, _ | _⟩ <;> rfl

private theorem value_andThen (M N : LeafMap) (k : Kind) (x : k.Value) :
    (M.andThen N).value k x = N.value k (M.value k x) := by
  cases k with
  | spec => exact leaf_andThen M N x
  | _ => rfl

private theorem item_andThen (M N : LeafMap) (p : Pool) (x : p.Item) :
    (M.andThen N).item p x = N.item p (M.item p x) := by
  cases p with
  | specs => exact leaf_andThen M N x
  | _ => cases x <;> (try casesm* Option _, Key, Element) <;> rfl

/-! ### Mapped stores -/

namespace Maps

variable {s s₁ s₂ s' : Store} {fp gp : Multiset Address}

theorem refl (s : Store) : M.Maps 0 s s where
  sizes := .refl s
  node _ _ h := absurd h (Multiset.notMem_zero _)
  cell _ _ h := absurd h (Multiset.notMem_zero _)
  outside a _ := .refl s a

/-- The store that is mapped to is determined. -/
theorem unique (h₁ : M.Maps fp s s₁) (h₂ : M.Maps fp s s₂) : s₁ = s₂ := by
  refine (h₂.sizes.symm.trans h₁.sizes).eq_of_sameAt fun a => ?_
  by_cases ha : a ∈ fp
  · cases a with
    | node c i => exact (h₁.node c i ha).trans (h₂.node c i ha).symm
    | cell p i => exact (h₁.cell p i ha).trans (h₂.cell p i ha).symm
  · exact (h₂.outside a ha).symm.trans (h₁.outside a ha)

private theorem changesOnly (h : M.Maps fp s s') : s.ChangesOnly fp s' :=
  ⟨h.sizes.grows, fun a _ ha => h.outside a ha⟩

/-- An entry on which the map has no effect stays, whether or not it is mapped. -/
private theorem get?_eq (h : M.Maps fp s s') {c : Category} {id : Id c} {x : c.Payload}
    (hx : s.get? id = some x) (hfix : M.payload c x = x) : s'.get? id = some x := by
  by_cases ha : Address.node c id.index ∈ fp
  · rw [Store.get?] at hx ⊢
    rw [h.node c _ ha, hx, Option.map_some, hfix]
  · exact Eq.trans (h.outside _ ha) hx

/-- Mapping one part of a footprint and then the other. -/
theorem seq (h : M.Maps fp s s₁) (h' : M.Maps gp s₁ s') (hn : (fp + gp).Nodup) :
    M.Maps (fp + gp) s s' := by
  have hd := (Multiset.nodup_add.mp hn).2.2
  refine ⟨h.sizes.trans h'.sizes, fun c i ha => ?_, fun p i ha => ?_, fun a ha => ?_⟩
  · rcases Multiset.mem_add.mp ha with ha | ha
    · exact Eq.trans (h'.outside _ (Multiset.disjoint_left.mp hd ha)) (h.node c i ha)
    · rw [h'.node c i ha, h.outside _ (Multiset.disjoint_right.mp hd ha)]
  · rcases Multiset.mem_add.mp ha with ha | ha
    · exact Eq.trans (h'.outside _ (Multiset.disjoint_left.mp hd ha)) (h.cell p i ha)
    · rw [h'.cell p i ha, h.outside _ (Multiset.disjoint_right.mp hd ha)]
  · rw [Multiset.mem_add, not_or] at ha
    exact (h.outside a ha.1).trans (h'.outside a ha.2)

/-- Mapping twice is mapping by the composition. -/
theorem comp (h : M.Maps fp s s₁) (h' : N.Maps fp s₁ s') : (M.andThen N).Maps fp s s' := by
  refine ⟨h.sizes.trans h'.sizes, fun c i ha => ?_, fun p i ha => ?_,
    fun a ha => (h.outside a ha).trans (h'.outside a ha)⟩
  · rw [h'.node c i ha, h.node c i ha, Option.map_map, funext (payload_andThen M N c)]
    rfl
  · rw [h'.cell p i ha, h.cell p i ha, Option.map_map, funext (item_andThen M N p)]
    rfl

theorem put {c : Category} {id : Id c} {x : c.Payload} (hx : s.get? id = some x) :
    M.Maps {.node c id.index} s (s.put id (M.payload c x)) := by
  have he := IsEdit.put id (M.payload c x)
  refine ⟨he.sizes s, fun c' i ha => ?_, fun p i ha => ?_, fun a ha => he.outside ha⟩
  · cases Multiset.mem_singleton.mp ha
    have hget := Store.get?_put_self (Store.allocated_of_get? hx) (M.payload c x)
    exact Eq.trans hget (congrArg (Option.map (M.payload c)) hx).symm
  · cases Multiset.mem_singleton.mp ha

theorem putItem {p : Pool} {seg : Segment p} {i : Nat} {x : p.Item}
    (hx : (s.buffer p)[seg.start.toNat + i]? = some x) :
    M.Maps {.cell p (seg.start.toNat + i)} s (s.putItem seg i (M.item p x)) := by
  have he := IsEdit.putItem seg i (M.item p x)
  refine ⟨he.sizes s, fun c i ha => ?_, fun p' j ha => ?_, fun a ha => he.outside ha⟩
  · cases Multiset.mem_singleton.mp ha
  · cases Multiset.mem_singleton.mp ha
    rw [hx]
    exact Store.getElem?_putItem_self (Store.allocated_of_getElem? hx) _

end Maps

/-! ### What a run maps -/

/-- The transformer of a leaf map reads nothing at all. -/
private theorem transformer_readsBelow (M : LeafMap) :
    M.transformer.ReadsBelow fun _ n => (⟨n.kind, M.leaf n.kind n.value⟩, true) where
  replace _ _ := ⟨(), rfl⟩
  leave _ := ⟨(), rfl⟩
  below _ _ _ := rfl
  kind _ := rfl
  goesOn := by
    rintro s ⟨k, v⟩ T fp - -
    cases k with
    | ident => exact .inr (.inl rfl)
    | basicLit => exact .inr (.inr rfl)
    | _ => exact .inl rfl

end LeafMap

/-- What a task yields is mapped, and a statement list keeps its handle. -/
def Task.Mapped (M : LeafMap) : (k : Task) → k.Result → Prop
  | visit _ n, r => r = M.node n
  | parts ps, qs => qs = ps.map M.part
  | items .., _ => True
  | stmts .., res => res = none

/-- A task that has collected nothing on the side. -/
def Task.InPlace : Task → Prop
  | stmts _ _ _ _ out => out = none
  | _ => True

namespace LeafMap

variable {M N : LeafMap} {d : Nat} {c c' c₁ : Context Unit} {w : List Mark} {os : List Outline}
  {s s₁ s' : Store} {fp gp : Multiset Address}

/-- A node that is no leaf is closed when its parts have been mapped. -/
theorem Maps.close {n r : Node} {x y : n.kind.Body} (hm : M.Maps gp s s₁) (hl : ¬n.IsLeaf)
    (hx : n.body? s = some x)
    (hy : (n.kind.bodySlots x).Refills ((n.kind.bodySlots x).parts.map M.part) y)
    (hc : n.close y s₁ = .ok r s') (hn : (n.footprint + gp).Nodup) :
    M.Maps (n.footprint + gp) s s' ∧ r = M.node n := by
  obtain rfl := hy.unique (refills_mapNodes ((Kind.lawful _).steady x))
  obtain ⟨k, v⟩ := n
  have hinline : Node.footprint ⟨k, v⟩ = 0 → M.Maps (Node.footprint ⟨k, v⟩ + gp) s s₁ := by
    intro h0
    rwa [h0, zero_add]
  cases k with
  | stored b =>
    have hv : Address.node b v.index ∉ gp :=
      Multiset.disjoint_left.mp (Multiset.nodup_add.mp hn).2.2 (Multiset.mem_singleton_self _)
    have hx₁ : s₁.get? v = some x := Eq.trans (hm.outside _ hv) hx
    have hc' := (Node.close_stored v _ s₁).symm.trans hc
    split_ifs at hc'
    cases hc'
    rw [add_comm] at hn ⊢
    exact ⟨hm.seq (.put hx₁) hn, rfl⟩
  | ident => exact absurd (.inl rfl) hl
  | basicLit => exact absurd (.inr rfl) hl
  | spec =>
    cases hx
    cases hc
    exact ⟨hinline rfl, congrArg (Node.mk .spec) (mapNodes_spec M v)⟩
  | _ =>
    cases hx
    cases hc
    exact ⟨hinline rfl, rfl⟩

/-- An item is written back when its parts have been mapped. -/
private theorem Maps.setItem {l : String} {p : Pool} {seg : Segment p} {i : Nat} {x y : p.Item}
    (hm : M.Maps gp s s₁) (hx : s.item seg i = .ok x)
    (hy : (p.slots l x).Refills ((p.slots l x).parts.map M.part) y)
    (hs : StoreM.setItem seg i y s₁ = .ok () s')
    (hn : ({.cell p (seg.start.toNat + i)} + gp : Multiset Address).Nodup) :
    M.Maps ({.cell p (seg.start.toNat + i)} + gp) s s' := by
  obtain rfl := hy.unique (refills_mapNodes ((p.lawful l).steady x))
  have hcell : Address.cell p (seg.start.toNat + i) ∉ gp :=
    Multiset.disjoint_left.mp (Multiset.nodup_add.mp hn).2.2 (Multiset.mem_singleton_self _)
  have hx₁ : (s₁.buffer p)[seg.start.toNat + i]? = some x :=
    Eq.trans (hm.outside _ hcell) (Store.getElem?_of_item hx)
  rw [(StoreM.setItem_eq_ok hs).2, mapNodes_relabel, add_comm]
  rw [add_comm] at hn
  exact hm.seq (.putItem hx₁) hn

private theorem leaf_of_not_isLeaf {n : Node} (hl : ¬n.IsLeaf) :
    (⟨n.kind, M.leaf n.kind n.value⟩ : Node) = n := by
  obtain ⟨k, v⟩ := n
  cases k with
  | ident => exact absurd (.inl rfl) hl
  | basicLit => exact absurd (.inr rfl) hl
  | _ => rfl

/-- A leaf stands on no address. -/
private theorem footprint_of_isLeaf {l : String} {n : Node} (hl : n.IsLeaf)
    (ho : Outlines s [.node l n] os fp) : fp = 0 := by
  obtain ⟨k, v⟩ := n
  obtain ⟨x, us, gp, hx, hu, rfl, rfl⟩ := ho.exists_of_node
  rcases hl with rfl | rfl <;>
  · cases hu
    rfl

/-- The visit of a leaf yields its image and leaves the store alone. -/
private theorem visit_leaf {n a r : Node} {x y : a.kind.Body} {ps : List SlotPart} (hl : n.IsLeaf)
    (ha : a = ⟨n.kind, M.leaf n.kind n.value⟩) (hx : a.body? c.store = some x)
    (hw : Completes M.transformer d (.parts (a.kind.bodySlots x).parts) c w ps c₁)
    (hy : (a.kind.bodySlots x).Refills ps y) (hc : a.close y c₁.store = .ok r s) :
    s = c.store ∧ r = M.node n := by
  obtain ⟨k, v⟩ := n
  rcases hl with rfl | rfl <;>
  · subst ha
    cases hx
    cases hw
    cases hy
    cases hc
    exact ⟨rfl, rfl⟩

/-- A completed task maps what it takes up, once. -/
theorem maps_of_completes {k : Task} {r : k.Result} (h : Completes M.transformer d k c w r c')
    (hk : k.InPlace) (ho : k.Outlined c.store os fp) (hn : fp.Nodup) :
    M.Maps fp c.store c'.store ∧ k.Mapped M r := by
  induction h generalizing os fp with
  | stay hr => cases hr
  | @down d o n a r x y c c₁ c₂ c₃ s w ps hr hx hw hy hc hl ih =>
    obtain ⟨ha, rfl⟩ : a = ⟨n.kind, M.leaf n.kind n.value⟩ ∧ c₁ = c := by
      cases hr
      exact ⟨rfl, rfl⟩
    cases hl
    obtain ⟨l, ho⟩ := ho
    by_cases hleaf : n.IsLeaf
    · obtain ⟨rfl, rfl⟩ := visit_leaf hleaf ha hx hw hy hc
      obtain rfl := footprint_of_isLeaf hleaf ho
      exact ⟨.refl _, rfl⟩
    · obtain rfl := ha.trans (leaf_of_not_isLeaf hleaf)
      obtain ⟨x', us, gp, hx', hu, rfl, rfl⟩ := ho.exists_of_node
      obtain rfl := Option.some.inj (hx.symm.trans hx')
      obtain ⟨hm, rfl⟩ := ih trivial hu (Multiset.nodup_add.mp hn).2.1
      exact hm.close hleaf hx hy hc hn
  | nil =>
    cases ho
    exact ⟨.refl _, rfl⟩
  | node hv hk hw ihv ihw =>
    obtain ⟨o, us, fp₁, fp₂, rfl, rfl, h₁, h₂⟩ := Outlines.exists_of_cons ho
    obtain ⟨hn₁, hn₂, -⟩ := Multiset.nodup_add.mp hn
    obtain ⟨hm₁, rfl⟩ := ihv trivial ⟨_, h₁⟩ hn₁
    obtain ⟨hm₂, rfl⟩ := ihw trivial (hm₁.changesOnly.outlines h₂ hn) hn₂
    exact ⟨hm₁.seq hm₂ hn, rfl⟩
  | list hp hs hi hw ihi ihw =>
    obtain ⟨us, vs, fp₁, fp₂, rfl, rfl, h₁, h₂⟩ := Outlines.exists_of_list_cons ho
    obtain ⟨hn₁, hn₂, -⟩ := Multiset.nodup_add.mp hn
    obtain ⟨hm₁, -⟩ := ihi trivial h₁ hn₁
    obtain ⟨hm₂, rfl⟩ := ihw trivial (hm₁.changesOnly.outlines h₂ hn) hn₂
    exact ⟨hm₁.seq hm₂ hn, rfl⟩
  | stmts hs hi hc hw ihi ihw =>
    obtain ⟨us, vs, fp₁, fp₂, rfl, rfl, h₁, h₂⟩ := Outlines.exists_of_list_cons ho
    obtain ⟨hn₁, hn₂, -⟩ := Multiset.nodup_add.mp hn
    obtain ⟨hm₁, rfl⟩ := ihi rfl h₁ hn₁
    cases hc
    obtain ⟨hm₂, rfl⟩ := ihw trivial (hm₁.changesOnly.outlines h₂ hn) hn₂
    exact ⟨hm₁.seq hm₂ hn, rfl⟩
  | itemsDone =>
    obtain ⟨xs, gp, hl, -, ho, rfl⟩ := ho
    obtain rfl := List.eq_nil_of_length_eq_zero hl
    cases ho
    exact ⟨.refl _, trivial⟩
  | itemsNext hx hv hy hs hw ihv ihw =>
    obtain ⟨us, vs, fp₁, fp₂, rfl, rfl, h₁, h₂⟩ := ItemsOutlined.exists_of_succ ho hx
    obtain ⟨hn₁, hn₂, -⟩ := Multiset.nodup_add.mp hn
    obtain ⟨hm, rfl⟩ := ihv trivial h₁ (Multiset.nodup_add.mp hn₁).2.1
    have hm₁ := hm.setItem hx hy hs hn₁
    obtain ⟨hm₂, -⟩ := ihw trivial (hm₁.changesOnly.itemsOutlined h₂ hn) hn₂
    exact ⟨hm₁.seq hm₂ hn, trivial⟩
  | stmtsDone =>
    obtain ⟨xs, gp, hl, -, ho, rfl⟩ := ho
    obtain rfl := List.eq_nil_of_length_eq_zero hl
    cases ho
    exact ⟨.refl _, hk⟩
  | stmtsNext hx hv ha hw ihv ihw =>
    obtain rfl := hk
    obtain ⟨us, vs, fp₁, fp₂, rfl, rfl, h₁, h₂⟩ := ItemsOutlined.exists_of_succ ho hx
    obtain ⟨hn₁, hn₂, -⟩ := Multiset.nodup_add.mp hn
    obtain ⟨hm, rfl⟩ := ihv trivial ⟨_, h₁⟩ (Multiset.nodup_add.mp hn₁).2.1
    cases ha with
    | write hs =>
      have hm₁ := hm.setItem (l := "") hx (.node (.done _)) hs hn₁
      obtain ⟨hm₂, hres⟩ := ihw rfl (hm₁.changesOnly.itemsOutlined h₂ hn) hn₂
      exact ⟨hm₁.seq hm₂ hn, hres⟩

/-! ### The tree after the run -/

private theorem parts_body (M : LeafMap) (k : Kind) (x : k.Body) :
    (k.bodySlots (M.body k x)).parts = (k.bodySlots x).parts.map M.part := by
  cases k with
  | stored c => exact c.lawful.parts_eq (refills_mapNodes (c.lawful.steady x))
  | spec =>
    have h := refills_mapNodes (M := M) ((Kind.lawful .spec).steady x)
    rw [show (Kind.spec.bodySlots x).mapNodes M.value = M.body .spec x from mapNodes_spec M x] at h
    exact (Kind.lawful .spec).parts_eq h
  | _ => rfl

private theorem parts_item (M : LeafMap) (l : String) (p : Pool) (x : p.Item) :
    (p.slots l (M.item p x)).parts = (p.slots l x).parts.map M.part := by
  rw [← mapNodes_relabel M p l x]
  exact (p.lawful l).parts_eq (refills_mapNodes ((p.lawful l).steady x))

private theorem footprint_node (M : LeafMap) (n : Node) : (M.node n).footprint = n.footprint := by
  obtain ⟨k, v⟩ := n
  cases k <;> rfl

private theorem Maps.body? (hm : M.Maps fp s s') {n : Node} (hn : n.footprint ⊆ fp)
    {x : n.kind.Body} (hx : n.body? s = some x) : (M.node n).body? s' = some (M.body n.kind x) := by
  obtain ⟨k, v⟩ := n
  cases k with
  | stored c =>
    refine Eq.trans (hm.node c v.index (hn (Multiset.mem_singleton_self _))) ?_
    exact congrArg (Option.map (M.payload c)) hx
  | _ =>
    cases hx
    rfl

private theorem Maps.reads (hm : M.Maps fp s s') {p : Pool} {k : Nat} {xs : List p.Item}
    (hx : s.Reads p k xs) (hsub : cells p k xs.length ⊆ fp) :
    s'.Reads p k (xs.map (M.item p)) := by
  induction xs generalizing k with
  | nil => trivial
  | cons x xs ih =>
    rw [List.length_cons, cells] at hsub
    refine ⟨?_, ih hx.2 fun a ha => hsub (Multiset.mem_add.mpr (.inr ha))⟩
    have hcell : Address.cell p k ∈ fp :=
      hsub (Multiset.mem_add.mpr (.inl (Multiset.mem_singleton_self _)))
    rw [hm.cell p k hcell, hx.1]
    rfl

/-- A mapped tree is a tree again, and it stands on the same addresses. -/
private theorem Maps.exists_unfolds (hm : M.Maps fp s s') {ps : List SlotPart} {ts : List Tree}
    (hu : Unfolds s ps ts gp) (hsub : gp ⊆ fp) : ∃ ts', Unfolds s' (ps.map M.part) ts' gp := by
  induction hu with
  | nil => exact ⟨[], .nil⟩
  | @node l n x ps us ts fp₁ fp₂ hx hu ht ihu iht =>
    obtain ⟨us', hu'⟩ := ihu fun a ha => hsub (by simp [ha])
    obtain ⟨ts', ht'⟩ := iht fun a ha => hsub (by simp [ha])
    rw [← parts_body] at hu'
    rw [← footprint_node M n]
    exact ⟨_, .node (n := M.node n) (hm.body? (fun a ha => hsub (by simp [ha])) hx) hu' ht'⟩
  | @list l p seg xs ps us ts fp₁ fp₂ hs hl hx hu ht ihu iht =>
    obtain ⟨us', hu'⟩ := ihu fun a ha => hsub (by simp [ha])
    obtain ⟨ts', ht'⟩ := iht fun a ha => hsub (by simp [ha])
    have hx' := hm.reads hx fun a ha => hsub (by simp [← hl, ha])
    rw [List.map_map, show M.part ∘ SlotPart.item l p = SlotPart.item l p ∘ M.item p from rfl,
      ← List.map_map] at hu'
    exact ⟨_, .list (Nat.le_trans hs (hm.sizes.grows.buffer p)) (by rw [List.length_map, hl]) hx'
      hu' ht'⟩
  | @item l p x ps us ts fp₁ fp₂ hu ht ihu iht =>
    obtain ⟨us', hu'⟩ := ihu fun a ha => hsub (by simp [ha])
    obtain ⟨ts', ht'⟩ := iht fun a ha => hsub (by simp [ha])
    rw [← parts_item] at hu'
    exact ⟨_, .item hu' ht'⟩

private theorem exists_run (M : LeafMap) {store : Store} {root : Node} {T : Tree}
    (hT : Unfolds store [.node "" root] [T] fp) (hf : Walkable fp) :
    ∃ D, ∀ depth, D ≤ depth →
      (M.transformer.run depth root store ()).result = .ok (M.node root) ∧
        M.Maps fp store (M.transformer.run depth root store ()).store := by
  obtain ⟨D, e, r, -, hrun⟩ := M.transformer_readsBelow.exists_edit hT hf
  obtain ⟨os, ho⟩ := hT.exists_outlines
  refine ⟨D, fun depth hdepth => ?_⟩
  obtain ⟨hr, -⟩ := hrun depth hdepth store (.refl _ _) ()
  obtain ⟨w, hw⟩ := M.transformer.exists_history depth root store ()
  obtain ⟨hm, rfl⟩ := maps_of_completes (hw.completes hr) trivial ⟨_, ho⟩ hf.nodup
  exact ⟨hr, hm⟩

/-- **Leaf maps apply once, and they fuse.** Take a tree-shaped root whose lists end within 32 bits,
and a depth that suffices. The run of a leaf map returns the mapped root, and it maps the slots at
the footprint of the tree and nothing else; identifier expressions and literal expressions stay.
Running `M` and then `N` on what `M` returns gives the store and the root that the composed map
gives at once. -/
theorem leaf_runs (M N : LeafMap) {store : Store} {root : Node} {T : Tree} {fp : Multiset Address}
    (hT : store.TreeShaped root T fp)
    (hw : ∀ p i, Address.cell p i ∈ fp → i + 1 < wordSize) :
    ∃ D, ∀ depth, D ≤ depth →
      let out := M.transformer.run depth root store ()
      let again := N.transformer.run depth (M.node root) out.store ()
      let once := (M.andThen N).transformer.run depth root store ()
      (out.result = .ok (M.node root) ∧ M.Maps fp store out.store) ∧
        (∀ (id : Id .expr) (n : IdentName), store.get? id = some (.ident n) →
          out.store.get? id = some (.ident n)) ∧
        (∀ (id : Id .expr) (l : BasicLit), store.get? id = some (.basicLit l) →
          out.store.get? id = some (.basicLit l)) ∧
        once.result = .ok ((M.andThen N).node root) ∧ again.result = once.result ∧
        again.store = once.store := by
  have hf : Walkable fp := ⟨hT.2, hw⟩
  obtain ⟨D₁, hrun₁⟩ := M.exists_run hT.1 hf
  obtain ⟨D₂, hrun₂⟩ := (M.andThen N).exists_run hT.1 hf
  -- the store after the first run is the same at every depth that suffices
  obtain ⟨-, hm⟩ := hrun₁ D₁ (Nat.le_refl _)
  obtain ⟨ts, hts⟩ := hm.exists_unfolds hT.1 (Multiset.Subset.refl fp)
  obtain ⟨T', us, _, _, rfl, -, -, hnil⟩ := hts.exists_of_cons
  obtain ⟨rfl, -⟩ := hnil.eq_of_nil
  obtain ⟨D₃, hrun₃⟩ := N.exists_run hts hf
  refine ⟨max D₁ (max D₂ D₃), fun depth hdepth => ?_⟩
  rw [Nat.max_le, Nat.max_le] at hdepth
  intro out again once
  obtain ⟨hr₁, hm₁⟩ := hrun₁ depth hdepth.1
  obtain ⟨hr₂, hm₂⟩ := hrun₂ depth hdepth.2.1
  obtain ⟨hr₃, hm₃⟩ := hrun₃ depth hdepth.2.2
  have hs := hm.unique hm₁
  rw [hs] at hr₃ hm₃
  refine ⟨⟨hr₁, hm₁⟩, fun id n hx => hm₁.get?_eq hx rfl, fun id l hx => hm₁.get?_eq hx rfl, hr₂, ?_,
    (hm₁.comp hm₃).unique hm₂⟩
  rw [hr₂]
  refine Eq.trans hr₃ (congrArg _ ?_)
  exact congrArg (Node.mk root.kind) (value_andThen M N root.kind root.value).symm

/-! ### Maps that are not idempotent -/

/-- Adds to the symbols of identifiers. -/
def shift (k : UInt32) : LeafMap where
  name x := { x with sym := ⟨x.sym.raw + k⟩ }
  lit x := { x with value := ⟨x.value.raw + 10 * k⟩ }

/-- Doubles the symbols of identifiers and of literals. -/
def double : LeafMap where
  name x := { x with sym := ⟨2 * x.sym.raw⟩ }
  lit x := { x with value := ⟨2 * x.value.raw⟩ }

end LeafMap

/-- A labelled declaration of an import and of two variables. The symbols are those of the label, of
the imported name and its path, of the variables, and of their values. -/
def labelled (label name path x y a b : UInt32) : Store where
  tables :=
    { stmts := .ofNodes #[.labeled ⟨⟨label⟩, .none⟩ ⟨1⟩, .decl ⟨0⟩]
      decls := .ofNodes #[.gen ⟨none, .vars, true, ⟨0, 2⟩⟩]
      exprs := .ofNodes #[.ident ⟨⟨a⟩, .none⟩, .basicLit ⟨.int, ⟨b⟩⟩] }
  buffers :=
    { specs := #[.importSpec ⟨none, some ⟨⟨name⟩, .none⟩, ⟨.string, ⟨path⟩⟩, none⟩,
        .valueSpec ⟨none, ⟨0, 2⟩, none, ⟨0, 2⟩, none⟩]
      identNames := #[⟨⟨x⟩, .none⟩, ⟨⟨y⟩, .none⟩]
      exprs := #[⟨0⟩, ⟨1⟩] }

private theorem labelled_treeShaped :
    ∃ T fp, (labelled 1 2 3 4 5 6 7).TreeShaped (.stored (⟨0⟩ : Id .stmt)) T fp ∧
      ∀ p i, Address.cell p i ∈ fp → i + 1 < wordSize := by
  have hspecs : (labelled 1 2 3 4 5 6 7).Reads .specs 0
      [.importSpec ⟨none, some ⟨⟨2⟩, .none⟩, ⟨.string, ⟨3⟩⟩, none⟩,
        .valueSpec ⟨none, ⟨0, 2⟩, none, ⟨0, 2⟩, none⟩] := ⟨rfl, rfl, trivial⟩
  have hnames : (labelled 1 2 3 4 5 6 7).Reads .identNames 0 [⟨⟨4⟩, .none⟩, ⟨⟨5⟩, .none⟩] :=
    ⟨rfl, rfl, trivial⟩
  have hvalues : (labelled 1 2 3 4 5 6 7).Reads .exprs 0 [⟨0⟩, ⟨1⟩] := ⟨rfl, rfl, trivial⟩
  refine ⟨_, _, ⟨.node rfl (.node rfl .nil (.node rfl (.node rfl (.list (by decide) rfl hspecs
    (.item (.node rfl (.node rfl .nil (.node rfl .nil .nil)) .nil) (.item (.node rfl
      (.list (by decide) rfl hnames (.item (.node rfl .nil .nil) (.item (.node rfl .nil .nil) .nil))
        (.list (by decide) rfl hvalues (.item (.node rfl .nil .nil) (.item (.node rfl .nil .nil)
          .nil)) .nil)) .nil) .nil)) .nil) .nil) .nil)) .nil, by decide⟩, fun p i hi => ?_⟩
  have hi : i < 2 := by
    simp [Node.footprint, cells, Segment.length] at hi
    omega
  exact Nat.lt_of_le_of_lt hi (by decide)

/-- Every leaf in a slot is mapped once by each run. The name and the literal that are values stay,
since they are expressions. -/
theorem leaf_runs_labelled :
    let store := labelled 1 2 3 4 5 6 7
    let root : Node := .stored (⟨0⟩ : Id .stmt)
    let out := (LeafMap.shift 1).transformer.run 9 root store ()
    (out.store = labelled 2 3 13 5 6 6 7 ∧
      (LeafMap.double.transformer.run 9 root out.store ()).store = labelled 4 6 26 10 12 6 7) ∧
      ∃ T fp, (store.TreeShaped root T fp ∧
        ∀ p i, Address.cell p i ∈ fp → i + 1 < wordSize) ∧
      ∃ D, ∀ depth, D ≤ depth →
        let out := (LeafMap.shift 1).transformer.run depth root store ()
        let again := LeafMap.double.transformer.run depth root out.store ()
        (LeafMap.shift 1).Maps fp store out.store ∧
          again.store =
            (((LeafMap.shift 1).andThen .double).transformer.run depth root store ()).store := by
  intro store root out
  obtain ⟨T, fp, hT, hw⟩ := labelled_treeShaped
  obtain ⟨D, hrun⟩ := LeafMap.leaf_runs (.shift 1) .double hT hw
  refine ⟨⟨by decide +kernel, by decide +kernel⟩, T, fp, ⟨hT, hw⟩, D, fun depth hdepth => ?_⟩
  obtain ⟨⟨-, hm⟩, -, -, -, -, hs⟩ := hrun depth hdepth
  exact ⟨hm, hs⟩

end GoTree
