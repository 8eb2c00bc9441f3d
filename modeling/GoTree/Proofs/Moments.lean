import GoTree.Proofs.Execution
import GoTree.Proofs.KindDiscipline
import GoTree.Proofs.StoreLaws

/-!
# Moments of a traversal

A history says what happens in a traversal, but not what the store holds meanwhile. A **moment** is
one point of a traversal together with its context: the transformer is called, the transformer is
told, an id that is to be descended into is looked up, a list is taken up. `Occurs t d k c m` says
that the task `k`, started in the context `c`, comes to the moment `m`; its rules follow those of
`Completes` and name what has to be done before.

The moments of a run tell all that its transformer takes part in: a run depends only on what the
transformer does at them (`Transformer.run_congr`).

The traversal tests handles at two moments. A list, or an expanded block that is to be spliced, is
tested when it is taken up, and an id when it is looked up. `Moment.Dangles` is what these tests
look for, and a run stops with a violation of handles exactly when it comes to a moment that dangles
(`Transformer.result_eq_violation_iff`).
-/

namespace GoTree

variable {σ : Type}

/-- A point of a traversal at which handles are tested or the transformer takes part. -/
inductive Moment (σ : Type) where
  /-- The transformer is given a node. -/
  | call (n : Node) (c : Context σ)
  /-- The transformer is told that the children of a node are done. -/
  | leave (c : Context σ)
  /-- An id that is to be descended into is looked up. -/
  | lookUp {b : Category} (id : Id b) (c : Context σ)
  /-- A list in a slot, or in an expanded block that is to be spliced, is taken up. -/
  | takeUp (label : String) {p : Pool} (seg : Segment p) (c : Context σ)

/-- What the transformer and the traversal act on at a moment. -/
def Moment.context : Moment σ → Context σ
  | call _ c => c
  | leave c => c
  | lookUp _ c => c
  | takeUp _ _ c => c

/-- A task comes to a moment. -/
inductive Occurs (t : Transformer σ) : Nat → Task → Context σ → Moment σ → Prop where
  | call {d : Nat} {o : Origin} {n : Node} {c : Context σ} :
      Occurs t d (.visit o n) c (.call n c)
  | lookUp {d : Nat} {o : Origin} {n : Node} {b : Category} {id : Id b} {c c₁ : Context σ}
      (hr : t.replace n c = .ok (.stored id, true) c₁) :
      Occurs t d (.visit o n) c (.lookUp id c₁)
  | inner {d : Nat} {o : Origin} {n a : Node} {x : a.kind.Body} {c c₁ : Context σ} {m : Moment σ}
      (hr : t.replace n c = .ok (a, true) c₁) (hx : a.body? c₁.store = some x)
      (h : Occurs t d (.parts (a.kind.bodySlots x).parts) c₁ m) : Occurs t d (.visit o n) c m
  | leave {d : Nat} {o : Origin} {n a r : Node} {x y : a.kind.Body} {c c₁ c₂ : Context σ}
      {s : Store} {w : List Mark} {ps : List SlotPart}
      (hr : t.replace n c = .ok (a, true) c₁) (hx : a.body? c₁.store = some x)
      (hw : Completes t d (.parts (a.kind.bodySlots x).parts) c₁ w ps c₂)
      (hy : (a.kind.bodySlots x).Refills ps y) (hc : a.close y c₂.store = .ok r s) :
      Occurs t d (.visit o n) c (.leave ⟨s, c₂.state⟩)
  | node {d : Nat} {l : String} {n : Node} {ps : List SlotPart} {c : Context σ} {m : Moment σ}
      (h : Occurs t d (.visit (.slot l) n) c m) : Occurs t (d + 1) (.parts (.node l n :: ps)) c m
  | takeUp {d : Nat} {l : String} {p : Pool} {seg : Segment p} {ps : List SlotPart}
      {c : Context σ} : Occurs t (d + 1) (.parts (.list l p seg :: ps)) c (.takeUp l seg c)
  | list {d : Nat} {l : String} {p : Pool} {seg : Segment p} {ps : List SlotPart} {c : Context σ}
      {m : Moment σ} (hp : p ≠ .stmts) (hs : seg.stop ≤ (c.store.buffer p).size)
      (h : Occurs t d (.items l p seg seg.length 0) c m) :
      Occurs t (d + 1) (.parts (.list l p seg :: ps)) c m
  | stmts {d : Nat} {l : String} {seg : Segment .stmts} {ps : List SlotPart} {c : Context σ}
      {m : Moment σ} (hs : seg.stop ≤ (c.store.buffer .stmts).size)
      (h : Occurs t d (.stmts l seg seg.length 0 none) c m) :
      Occurs t (d + 1) (.parts (.list l .stmts seg :: ps)) c m
  | rest {d : Nat} {p q : SlotPart} {ps : List SlotPart} {c c₁ : Context σ} {u : List Mark}
      {m : Moment σ} (hv : Completes t (d + 1) (.parts [p]) c u [q] c₁)
      (h : Occurs t (d + 1) (.parts ps) c₁ m) : Occurs t (d + 1) (.parts (p :: ps)) c m
  | item {d : Nat} {l : String} {p : Pool} {seg : Segment p} {n i : Nat} {x : p.Item}
      {c : Context σ} {m : Moment σ} (hx : c.store.item seg i = .ok x)
      (h : Occurs t d (.parts (p.slots l x).parts) c m) :
      Occurs t d (.items l p seg (n + 1) i) c m
  | itemsRest {d : Nat} {l : String} {p : Pool} {seg : Segment p} {n i : Nat} {x y : p.Item}
      {qs : List SlotPart} {c c₁ : Context σ} {s : Store} {u : List Mark} {m : Moment σ}
      (hx : c.store.item seg i = .ok x)
      (hv : Completes t d (.parts (p.slots l x).parts) c u qs c₁)
      (hy : (p.slots l x).Refills qs y) (hs : StoreM.setItem seg i y c₁.store = .ok () s)
      (h : Occurs t d (.items l p seg n (i + 1)) ⟨s, c₁.state⟩ m) :
      Occurs t d (.items l p seg (n + 1) i) c m
  | stmt {d : Nat} {l : String} {seg : Segment .stmts} {n i : Nat} {x : Id .stmt}
      {out : Option (Array (Id .stmt))} {c : Context σ} {m : Moment σ}
      (hx : c.store.item seg i = .ok x) (h : Occurs t d (.visit (.item l) (.stored x)) c m) :
      Occurs t d (.stmts l seg (n + 1) i out) c m
  /-- An expanded block was answered for an item of a statement list. -/
  | block {d : Nat} {l : String} {seg : Segment .stmts} {n i : Nat} {x : Id .stmt} {b : Block}
      {out : Option (Array (Id .stmt))} {c c₁ : Context σ} {u : List Mark}
      (hx : c.store.item seg i = .ok x)
      (hv : Completes t d (.visit (.item l) (.stored x)) c u (.expandedBlock b) c₁) :
      Occurs t d (.stmts l seg (n + 1) i out) c (.takeUp l b.stmts c₁)
  | stmtsRest {d : Nat} {l : String} {seg : Segment .stmts} {n i : Nat} {x : Id .stmt} {r : Node}
      {out out' : Option (Array (Id .stmt))} {c c₁ : Context σ} {s : Store} {u v : List Mark}
      {m : Moment σ} (hx : c.store.item seg i = .ok x)
      (hv : Completes t d (.visit (.item l) (.stored x)) c u r c₁)
      (ht : Takes l seg i c₁.store out r v out' s)
      (h : Occurs t d (.stmts l seg n (i + 1) out') ⟨s, c₁.state⟩ m) :
      Occurs t d (.stmts l seg (n + 1) i out) c m

/-- Two transformers do the same at a moment. -/
def Moment.Same (t t' : Transformer σ) : Moment σ → Prop
  | call n c => t'.replace n c = t.replace n c
  | leave c => t'.leave c = t.leave c
  | lookUp _ _ => True
  | takeUp _ _ _ => True

/-- At a moment a handle does not resolve: the cells of the list do not all lie in its buffer, the
end being computed in unbounded arithmetic, or the id is not below the size of its table. -/
inductive Moment.Dangles : Moment σ → Violation → Prop where
  | list {l : String} {p : Pool} {seg : Segment p} {c : Context σ}
      (h : (c.store.buffer p).size < seg.start.toNat + seg.len.toNat) :
      Dangles (.takeUp l seg c) (.danglingList l seg.start seg.len)
  | node {b : Category} {id : Id b} {c : Context σ} (h : (c.store.table b).size ≤ id.index) :
      Dangles (.lookUp id c) (.danglingNode b.name id.raw)

theorem Store.get?_eq_none_iff {s : Store} {b : Category} {id : Id b} :
    s.get? id = none ↔ (s.table b).size ≤ id.index :=
  Array.getElem?_eq_none_iff

section Rules

variable {t : Transformer σ} {d : Nat} {k : Task} {c c' : Context σ} {w : List Mark} {m : Moment σ}
  {v : Violation} {e : Abort}

/-- The moments of the first part are moments of the parts. -/
theorem Occurs.of_first {p : SlotPart} {ps : List SlotPart} (h : Occurs t d (.parts [p]) c m) :
    Occurs t d (.parts (p :: ps)) c m := by
  cases h with
  | node h => exact .node h
  | takeUp => exact .takeUp
  | list hp hs h => exact .list hp hs h
  | stmts hs h => exact .stmts hs h
  | rest hv h => cases h

/-- A task that comes to a moment that dangles stops there. -/
private theorem Occurs.aborts (h : Occurs t d k c m) (hm : m.Dangles v) :
    ∃ w, Aborts t d k c w (.violation v) m.context := by
  induction h with
  | call => cases hm
  | lookUp hr =>
    cases hm with
    | node h => exact ⟨_, .danglingNode hr (Store.get?_eq_none_iff.mpr h)⟩
  | inner hr hx _ ih =>
    obtain ⟨w, hw⟩ := ih hm
    exact ⟨_, .inner hr hx hw⟩
  | leave => cases hm
  | node _ ih =>
    obtain ⟨w, hw⟩ := ih hm
    exact ⟨w, .node hw⟩
  | takeUp =>
    cases hm with
    | list h => exact ⟨_, .danglingList h⟩
  | list hp hs _ ih =>
    obtain ⟨w, hw⟩ := ih hm
    exact ⟨w, .list hp hs hw⟩
  | stmts hs _ ih =>
    obtain ⟨w, hw⟩ := ih hm
    exact ⟨w, .stmts hs hw⟩
  | rest hv _ ih =>
    obtain ⟨w, hw⟩ := ih hm
    exact ⟨_, .rest hv hw⟩
  | item hx _ ih =>
    obtain ⟨w, hw⟩ := ih hm
    exact ⟨w, .item hx hw⟩
  | itemsRest hx hv hy hs _ ih =>
    obtain ⟨w, hw⟩ := ih hm
    exact ⟨_, .itemsRest hx hv hy hs hw⟩
  | stmt hx _ ih =>
    obtain ⟨w, hw⟩ := ih hm
    exact ⟨w, .stmt hx hw⟩
  | block hx hv =>
    cases hm with
    | list h => exact ⟨_, .refused hx hv (.dangling h)⟩
  | stmtsRest hx hv ht _ ih =>
    obtain ⟨w, hw⟩ := ih hm
    exact ⟨_, .stmtsRest hx hv ht hw⟩

/-- An answer for an item of a statement list that is refused for a reason other than its kind is an
expanded block that dangles. -/
private theorem Refuses.dangles {l : String} {seg : Segment .stmts} {i : Nat} {c : Context σ}
    {s : Store} {out : Option (Array (Id .stmt))} {r : Node}
    (h : Refuses l seg i c.store out r w (.violation v) s) (hv : v.isOfKind = false) :
    ∃ b, r = .expandedBlock b ∧ (Moment.takeUp l b.stmts c).Dangles v ∧ s = c.store := by
  cases h with
  | mismatch hs hb =>
    rw [isOfKind_ofAnswer] at hv
    cases hv
  | dangling hb => exact ⟨_, rfl, .list hb, rfl⟩

/-- A task that stops with a violation of handles has come to a moment that dangles. -/
theorem Aborts.exists_dangles (h : Aborts t d k c w e c') (he : e = .violation v)
    (hv : v.isOfKind = false) : ∃ m, Occurs t d k c m ∧ m.Dangles v ∧ m.context = c' := by
  induction h with
  | halt | close | leave | deep | settle | itemRead | itemWrite | stmtRead => cases he
  | danglingNode hr hx =>
    cases he
    exact ⟨_, .lookUp hr, .node (Store.get?_eq_none_iff.mp hx), rfl⟩
  | inner hr hx _ ih =>
    obtain ⟨m, hm, hd⟩ := ih he
    exact ⟨m, .inner hr hx hm, hd⟩
  | node _ ih =>
    obtain ⟨m, hm, hd⟩ := ih he
    exact ⟨m, .node hm, hd⟩
  | mismatch _ _ =>
    cases he
    rw [isOfKind_ofAnswer] at hv
    cases hv
  | danglingList hs =>
    cases he
    exact ⟨_, .takeUp, .list hs, rfl⟩
  | list hp hs _ ih =>
    obtain ⟨m, hm, hd⟩ := ih he
    exact ⟨m, .list hp hs hm, hd⟩
  | stmts hs _ ih =>
    obtain ⟨m, hm, hd⟩ := ih he
    exact ⟨m, .stmts hs hm, hd⟩
  | rest hv _ ih =>
    obtain ⟨m, hm, hd⟩ := ih he
    exact ⟨m, .rest hv hm, hd⟩
  | item hx _ ih =>
    obtain ⟨m, hm, hd⟩ := ih he
    exact ⟨m, .item hx hm, hd⟩
  | itemsRest hx hv hy hs _ ih =>
    obtain ⟨m, hm, hd⟩ := ih he
    exact ⟨m, .itemsRest hx hv hy hs hm, hd⟩
  | stmt hx _ ih =>
    obtain ⟨m, hm, hd⟩ := ih he
    exact ⟨m, .stmt hx hm, hd⟩
  | refused hx hc ht =>
    subst he
    obtain ⟨b, rfl, hd, rfl⟩ := ht.dangles hv
    exact ⟨_, .block hx hc, hd, rfl⟩
  | stmtsRest hx hv ht _ ih =>
    obtain ⟨m, hm, hd⟩ := ih he
    exact ⟨m, .stmtsRest hx hv ht hm, hd⟩

/-! ### A run depends on its moments only -/

variable {t' : Transformer σ}

theorem Completes.congr {r : k.Result} (h : Completes t d k c w r c')
    (hm : ∀ m, Occurs t d k c m → m.Same t t') : Completes t' d k c w r c' := by
  induction h with
  | stay hr => exact .stay ((hm _ .call).trans hr)
  | down hr hx hw hy hc hl ih =>
    have hr' := (hm _ .call).trans hr
    have hl' := (hm _ (.leave hr hx hw hy hc)).trans hl
    exact .down hr' hx (ih fun m h => hm m (.inner hr hx h)) hy hc hl'
  | nil => exact .nil
  | node hv hk hw ihv ihw =>
    -- a moment of the rest comes after the first part by itself
    have hv' := ihv fun m h => hm m (.node h)
    exact .node hv' hk (ihw fun m h => hm m (.rest (.node hv hk .nil) h))
  | list hp hs hi hw ihi ihw =>
    have hi' := ihi fun m h => hm m (.list hp hs h)
    exact .list hp hs hi' (ihw fun m h => hm m (.rest (.list hp hs hi .nil) h))
  | stmts hs hi hc hw ihi ihw =>
    have hi' := ihi fun m h => hm m (.stmts hs h)
    exact .stmts hs hi' hc (ihw fun m h => hm m (.rest (.stmts hs hi hc .nil) h))
  | itemsDone => exact .itemsDone
  | itemsNext hx hv hy hs hw ihv ihw =>
    have hv' := ihv fun m h => hm m (.item hx h)
    exact .itemsNext hx hv' hy hs (ihw fun m h => hm m (.itemsRest hx hv hy hs h))
  | stmtsDone => exact .stmtsDone
  | stmtsNext hx hv ha hw ihv ihw =>
    have hv' := ihv fun m h => hm m (.stmt hx h)
    exact .stmtsNext hx hv' ha (ihw fun m h => hm m (.stmtsRest hx hv ha h))

theorem Aborts.congr (h : Aborts t d k c w e c') (hm : ∀ m, Occurs t d k c m → m.Same t t') :
    Aborts t' d k c w e c' := by
  induction h with
  | halt hr => exact .halt ((hm _ .call).trans hr)
  | danglingNode hr hx => exact .danglingNode ((hm _ .call).trans hr) hx
  | inner hr hx _ ih =>
    exact .inner ((hm _ .call).trans hr) hx (ih fun m h => hm m (.inner hr hx h))
  | close hr hx hw hy hc =>
    have hw' := hw.congr fun m h => hm m (.inner hr hx h)
    exact .close ((hm _ .call).trans hr) hx hw' hy hc
  | leave hr hx hw hy hc hl =>
    have hw' := hw.congr fun m h => hm m (.inner hr hx h)
    have hl' := (hm _ (.leave hr hx hw hy hc)).trans hl
    exact .leave ((hm _ .call).trans hr) hx hw' hy hc hl'
  | deep => exact .deep
  | node _ ih => exact .node (ih fun m h => hm m (.node h))
  | mismatch hv hk => exact .mismatch (hv.congr fun m h => hm m (.node h)) hk
  | danglingList hs => exact .danglingList hs
  | list hp hs _ ih => exact .list hp hs (ih fun m h => hm m (.list hp hs h))
  | stmts hs _ ih => exact .stmts hs (ih fun m h => hm m (.stmts hs h))
  | settle hs hi hc => exact .settle hs (hi.congr fun m h => hm m (.stmts hs h)) hc
  | rest hv _ ih =>
    have hv' := hv.congr fun m h => hm m h.of_first
    exact .rest hv' (ih fun m h => hm m (.rest hv h))
  | itemRead hx => exact .itemRead hx
  | item hx _ ih => exact .item hx (ih fun m h => hm m (.item hx h))
  | itemWrite hx hv hy hs => exact .itemWrite hx (hv.congr fun m h => hm m (.item hx h)) hy hs
  | itemsRest hx hv hy hs _ ih =>
    have hv' := hv.congr fun m h => hm m (.item hx h)
    exact .itemsRest hx hv' hy hs (ih fun m h => hm m (.itemsRest hx hv hy hs h))
  | stmtRead hx => exact .stmtRead hx
  | stmt hx _ ih => exact .stmt hx (ih fun m h => hm m (.stmt hx h))
  | refused hx hv ha => exact .refused hx (hv.congr fun m h => hm m (.stmt hx h)) ha
  | stmtsRest hx hv ha _ ih =>
    have hv' := hv.congr fun m h => hm m (.stmt hx h)
    exact .stmtsRest hx hv' ha (ih fun m h => hm m (.stmtsRest hx hv ha h))

end Rules

/-- A run is the same for a transformer that does the same at every moment of it. -/
theorem Transformer.run_congr {t t' : Transformer σ} {depth : Nat} {root : Node} {store : Store}
    {state : σ}
    (hm : ∀ m, Occurs t depth (.visit .root root) ⟨store, state⟩ m → m.Same t t') :
    t'.run depth root store state = t.run depth root store state := by
  obtain ⟨w, hw⟩ := t.exists_history depth root store state
  rcases hres : (t.run depth root store state).result with e | r
  · have ha := hw.aborts hres
    rw [ha.run_eq, (ha.congr hm).run_eq]
  · have hc := hw.completes hres
    rw [hc.run_eq, (hc.congr hm).run_eq]

/-- A run stops with a violation of handles exactly when it comes to a moment that dangles. -/
theorem Transformer.result_eq_violation_iff {t : Transformer σ} {depth : Nat} {root : Node}
    {store : Store} {state : σ} {v : Violation} (hv : v.isOfKind = false) :
    (t.run depth root store state).result = .error (.violation v) ↔
      ∃ m, Occurs t depth (.visit .root root) ⟨store, state⟩ m ∧ m.Dangles v := by
  constructor
  · intro hres
    obtain ⟨w, hw⟩ := t.exists_history depth root store state
    obtain ⟨m, hm, hd, -⟩ := (hw.aborts hres).exists_dangles rfl hv
    exact ⟨m, hm, hd⟩
  · rintro ⟨m, hm, hd⟩
    obtain ⟨w, hw⟩ := hm.aborts hd
    rw [hw.run_eq]

end GoTree
