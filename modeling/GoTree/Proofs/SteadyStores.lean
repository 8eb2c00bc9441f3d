import GoTree.Proofs.Splitting

/-!
# What splitting leaves alone

A run of the splitter overwrites little of what was in the store before. `Completes.steady` says
what stays: every cell of every buffer, every simple statement, and for each statement whether it is
simple. Cells and simple statements are written back as they were read, because no statement list is
in a slot of theirs (`SlotPart.Plain`); all that a run changes are the handles of statement lists.
-/

namespace GoTree

/-! ### Parts that hold no statement list -/

/-- A part that is no statement list and no block. -/
def SlotPart.Plain : SlotPart → Prop
  | .node _ n => n.kind ≠ .block ∧ n.kind ≠ .expandedBlock
  | .list _ p _ => p ≠ .stmts
  | .item .. => True

/-- There are blocks in stored nodes only. -/
private theorem Kind.plain_parts {k : Kind} (hs : ∀ c, k ≠ .stored c) (hb : k ≠ .block)
    (he : k ≠ .expandedBlock) (x : k.Body) : ∀ q ∈ (k.bodySlots x).parts, q.Plain := by
  cases k with
  | stored c => exact absurd rfl (hs c)
  | block => exact absurd rfl hb
  | expandedBlock => exact absurd rfl he
  | spec =>
    cases x <;> casesm* ImportSpec, ValueSpec, TypeSpec, Option _ <;>
      repeat' first
        | exact List.forall_mem_nil _
        | refine List.forall_mem_cons.mpr ⟨⟨nofun, nofun⟩, ?_⟩
        | refine List.forall_mem_cons.mpr ⟨nofun, ?_⟩
  | ident | basicLit => exact List.forall_mem_nil _
  | fieldList | package => exact List.forall_mem_singleton.mpr nofun

private theorem Pool.plain_parts (p : Pool) (l : String) (x : p.Item) :
    ∀ q ∈ (p.slots l x).parts, q.Plain := by
  cases p <;> cases x <;> (try casesm* Option _, Key, Element) <;>
    repeat' first
      | exact List.forall_mem_nil _
      | refine List.forall_mem_cons.mpr ⟨⟨nofun, nofun⟩, ?_⟩
      | refine List.forall_mem_cons.mpr ⟨nofun, ?_⟩

private theorem SimpleStmt.plain_parts (x : SimpleStmt) :
    ∀ q ∈ (Category.slots .simpleStmt x).parts, q.Plain := by
  cases x <;>
    repeat' first
      | exact List.forall_mem_nil _
      | refine List.forall_mem_cons.mpr ⟨⟨nofun, nofun⟩, ?_⟩
      | refine List.forall_mem_cons.mpr ⟨nofun, ?_⟩

/-! ### Steady stores -/

/-- From `s` to `s'` cells, simple statements and which statements are simple stay as they are. -/
structure Store.Steady (s s' : Store) : Prop where
  grows : s.Grows s'
  cell : ∀ p i, s.Allocated (.cell p i) → s.SameAt s' (.cell p i)
  simple : ∀ i, s.Allocated (.node .simpleStmt i) → s.SameAt s' (.node .simpleStmt i)
  stmt : ∀ (id : Id .stmt) (x : Id .simpleStmt), s.Allocated (.node .stmt id.index) →
    (s'.get? id = some (.simple x) ↔ s.get? id = some (.simple x))

namespace Store

variable {s s₁ s' : Store} {p : Pool} {c : Category} {n : Node}

theorem Extends.steady (h : s.Extends s') : s.Steady s' where
  grows := h.grows
  cell _ _ ha := h.same _ ha
  simple _ ha := h.same _ ha
  stmt id x ha := by rw [get?_eq_of_sameAt (h.same _ ha)]

namespace Steady

theorem trans (h : s.Steady s₁) (h' : s₁.Steady s') : s.Steady s' where
  grows := h.grows.trans h'.grows
  cell p i ha := (h.cell p i ha).trans (h'.cell p i (h.grows.allocated ha))
  simple i ha := (h.simple i ha).trans (h'.simple i (h.grows.allocated ha))
  stmt id x ha := (h'.stmt id x (h.grows.allocated ha)).trans (h.stmt id x ha)

theorem isSimple_iff (h : s.Steady s') {x : n.kind.Body} (hx : n.body? s = some x) :
    s'.IsSimple n ↔ s.IsSimple n := by
  constructor
  · rintro ⟨id, simple, rfl, hid⟩
    exact ⟨id, simple, rfl, (h.stmt id simple (allocated_of_get? hx)).mp hid⟩
  · rintro ⟨id, simple, rfl, hid⟩
    exact ⟨id, simple, rfl, (h.stmt id simple (allocated_of_get? hx)).mpr hid⟩

theorem reads (h : s.Steady s') {k : Nat} {xs : List p.Item} (hx : s.Reads p k xs) :
    s'.Reads p k xs := by
  refine hx.frame fun a ha => ?_
  obtain ⟨i, -, -, rfl⟩ := mem_cells.mp ha
  exact h.cell p i (hx.allocated _ ha)

theorem holds (h : s.Steady s') {seg : Segment p} {xs : List p.Item} (hx : s.Holds seg xs) :
    s'.Holds seg xs :=
  ⟨Nat.le_trans hx.stop_le (h.grows.buffer p), hx.length_eq, h.reads hx.reads⟩

theorem getElem?_eq (h : s.Steady s') {i : Nat} {x : p.Item} (hx : (s.buffer p)[i]? = some x) :
    (s'.buffer p)[i]? = some x :=
  Eq.trans (h.cell p i (allocated_of_getElem? hx)) hx

theorem isDecl (h : s.Steady s') {id : Id .stmt} {names : Segment .identNames}
    {values : Segment .exprs} (hd : s.IsDecl id names values) : s'.IsDecl id names values := by
  obtain ⟨simple, hid, hsimple⟩ := hd
  have hget : s'.get? simple = s.get? simple :=
    get?_eq_of_sameAt (h.simple _ (allocated_of_get? hsimple))
  exact ⟨simple, (h.stmt id simple (allocated_of_get? hid)).mpr hid, hget.trans hsimple⟩

theorem declares (h : s.Steady s') {id : Id .stmt} {xs : List (IdentName × Id .expr)}
    (hd : s.Declares id xs) : s'.Declares id xs := by
  obtain ⟨names, values, hd, hn, hv⟩ := hd
  exact ⟨names, values, h.isDecl hd, h.holds hn, h.holds hv⟩

/-- In a closed store, what a simple statement is made of is in use. -/
theorem isDecl_iff (h : s.Steady s') (hs : s.Closed) {id : Id .stmt}
    (hn : s.IsSimple (.stored id)) {names : Segment .identNames} {values : Segment .exprs} :
    s'.IsDecl id names values ↔ s.IsDecl id names values := by
  refine ⟨?_, h.isDecl⟩
  rintro ⟨x, hx, hx'⟩
  obtain ⟨_, simple, ⟨⟩, hid⟩ := hn
  cases hx.symm.trans ((h.stmt id simple (allocated_of_get? hid)).mpr hid)
  obtain ⟨y, hy⟩ := (List.forall_mem_singleton.mp (hs.node hid).parts).head
  have hget : s'.get? x = s.get? x := get?_eq_of_sameAt (h.simple _ (allocated_of_get? hy))
  exact ⟨x, hid, hget.symm.trans hx'⟩

theorem splittable_iff (h : s.Steady s') (hs : s.Closed) (hn : s.IsSimple n) :
    s'.Splittable n ↔ s.Splittable n := by
  constructor
  · rintro ⟨id, names, values, rfl, hd, htwo, hlen⟩
    exact ⟨id, names, values, rfl, (h.isDecl_iff hs hn).mp hd, htwo, hlen⟩
  · rintro ⟨id, names, values, rfl, hd, htwo, hlen⟩
    exact ⟨id, names, values, rfl, h.isDecl hd, htwo, hlen⟩

private theorem holds_iff (h : s.Steady s') {seg : Segment p} (hb : seg.stop ≤ (s.buffer p).size)
    {xs : List p.Item} : s'.Holds seg xs ↔ s.Holds seg xs := by
  refine ⟨fun hx => ?_, h.holds⟩
  obtain ⟨ys, hlen, hys⟩ := exists_reads hb
  obtain rfl := hx.reads.unique (h.reads hys) (hx.length_eq.trans hlen.symm)
  exact ⟨hb, hlen, hys⟩

theorem declares_iff (h : s.Steady s') (hs : s.Closed) {id : Id .stmt}
    (hn : s.IsSimple (.stored id)) {xs : List (IdentName × Id .expr)} :
    s'.Declares id xs ↔ s.Declares id xs := by
  refine ⟨?_, h.declares⟩
  rintro ⟨names, values, hd, hnames, hvalues⟩
  obtain ⟨x, hid, hx⟩ := (h.isDecl_iff hs hn).mp hd
  obtain ⟨hb, hb'⟩ := List.forall_mem_cons.mp (hs.node hx).parts
  have hb' := List.forall_mem_singleton.mp hb'
  exact ⟨names, values, ⟨x, hid, hx⟩, (h.holds_iff hb.segment).mp hnames,
    (h.holds_iff hb'.segment).mp hvalues⟩

end Steady

/-- Overwriting a node that is no statement and no simple statement. -/
private theorem steady_put {id : Id c} (hc : c ≠ .simpleStmt) (hc' : c ≠ .stmt) (x : c.Payload) :
    s.Steady (s.put id x) where
  grows := s.grows_put id x
  cell _ _ _ := sameAt_put nofun
  simple i _ := sameAt_put (by simpa using fun h => absurd h.symm hc)
  stmt id' y _ := by
    rw [get?_eq_of_sameAt (sameAt_put (by simpa using fun h => absurd h.symm hc'))]

/-- Overwriting a statement that is not simple by another one. -/
private theorem steady_put_stmt {id : Id .stmt} {x : Stmt} (ha : s.Allocated (.node .stmt id.index))
    (hold : ∀ y, s.get? id ≠ some (.simple y)) (hx : ∀ y, x ≠ .simple y) :
    s.Steady (s.put id x) where
  grows := s.grows_put id x
  cell _ _ _ := sameAt_put nofun
  simple _ _ := sameAt_put nofun
  stmt id' y _ := by
    by_cases heq : id' = id
    · subst heq
      rw [get?_put_self ha]
      constructor
      · intro h
        exact absurd (Option.some.inj h) (hx y)
      · intro h
        exact absurd h (hold y)
    · rw [get?_eq_of_sameAt (sameAt_put fun h => heq (Id.index_injective ?_))]
      injection h

end Store

/-! ### Along the rules -/

/-- A statement that was rebuilt as a simple one was simple. -/
private theorem Stmt.exists_simple_of_refills {x : Stmt} {ps : List SlotPart} {y : Id .simpleStmt}
    (h : (Category.slots .stmt x).Refills ps (.simple y)) : ∃ z, x = .simple z := by
  have hblank := (Category.lawful .stmt).blank_eq h
  cases x with
  | simple z => exact ⟨z, rfl⟩
  | _ =>
    (try casesm* Option _, BranchStmt, ForKind, TypeSwitchGuard) <;> cases hblank

/-- Parts are replaced, the plain ones by themselves. -/
def Task.KeepsPlain : (k : Task) → k.Result → Prop
  | visit _ n, r => n.kind ≠ .block → n.kind ≠ .expandedBlock → r.kind = n.kind → r = n
  | parts ps, qs => List.Forall₂ (fun p q => p.Plain → q = p) ps qs
  | items .., _ => True
  | stmts .., _ => True

section Rules

variable {s s' : Store} {n r : Node} {ps qs : List SlotPart}

theorem eq_of_forall₂_plain (h : List.Forall₂ (fun p q => SlotPart.Plain p → q = p) ps qs)
    (hp : ∀ p ∈ ps, p.Plain) : qs = ps := by
  induction h with
  | nil => rfl
  | cons hq _ ih =>
    obtain ⟨hp, hps⟩ := List.forall_mem_cons.mp hp
    rw [hq hp, ih hps]

theorem Segment.extends_settle {seg seg' : Segment .stmts} {out : Option (Array (Id .stmt))}
    (h : seg.settle out s = .ok seg' s') : s.Extends s' := by
  have hc := Segment.changesOnly_settle h
  exact ⟨hc.grows, fun a ha => hc.same a ha (Multiset.notMem_zero a)⟩

/-- Closing a node that was not simple when it was read in `s₀`. -/
theorem Node.steady_close {s₀ : Store} {x y : n.kind.Body} (hn : ¬s₀.IsSimple n)
    (hx : n.body? s₀ = some x) (hs : s₀.Steady s) (hy : (n.kind.bodySlots x).Refills qs y)
    (hq : List.Forall₂ (fun p q => SlotPart.Plain p → q = p) (n.kind.bodySlots x).parts qs)
    (hc : n.close y s = .ok r s') :
    s.Steady s' ∧ (n.kind ≠ .block → n.kind ≠ .expandedBlock → r = n) := by
  obtain ⟨k, v⟩ := n
  cases k with
  | stored c =>
    rw [close_stored] at hc
    split_ifs at hc with ha
    cases hc
    refine ⟨?_, fun _ _ => rfl⟩
    by_cases hc : c = .simpleStmt
    · -- a simple statement is written back as it was read
      subst hc
      obtain rfl := eq_of_forall₂_plain hq (SimpleStmt.plain_parts x)
      obtain rfl := (Kind.lawful _).eq_of_refills_parts hy
      have hget : s.get? v = some y := Eq.trans (hs.simple _ (Store.allocated_of_get? hx)) hx
      rw [Store.put_of_get? hget]
      exact (Store.Extends.refl s).steady
    · by_cases hc' : c = .stmt
      · subst hc'
        refine Store.steady_put_stmt ha (fun z hz => hn ?_) fun z hz => hn ?_
        · exact ⟨v, z, rfl, (hs.stmt v z (Store.allocated_of_get? hx)).mp hz⟩
        · subst hz
          obtain ⟨z', rfl⟩ := Stmt.exists_simple_of_refills hy
          exact ⟨v, z', rfl, hx⟩
      · exact Store.steady_put hc hc' y
  | block =>
    cases hc
    exact ⟨(Store.Extends.refl s).steady, fun hb _ => absurd rfl hb⟩
  | expandedBlock =>
    cases hc
    exact ⟨(Store.Extends.refl s).steady, fun _ he => absurd rfl he⟩
  | _ =>
    obtain rfl := eq_of_forall₂_plain hq
      (Kind.plain_parts (by rintro c ⟨⟩) (by rintro ⟨⟩) (by rintro ⟨⟩) x)
    obtain rfl := (Kind.lawful _).eq_of_refills_parts hy
    cases hx
    cases hc
    exact ⟨(Store.Extends.refl s).steady, fun _ _ => rfl⟩

/-- An item is written back as it was read in `s₀`. -/
theorem StoreM.eq_of_setItem {s₀ : Store} {l : String} {p : Pool} {seg : Segment p} {i : Nat}
    {x y : p.Item} (hx : s₀.item seg i = .ok x) (hs : s₀.Steady s)
    (hq : List.Forall₂ (fun p q => SlotPart.Plain p → q = p) (p.slots l x).parts qs)
    (hy : (p.slots l x).Refills qs y) (h : StoreM.setItem seg i y s = .ok () s') :
    qs = (p.slots l x).parts ∧ y = x ∧ s' = s := by
  obtain rfl := eq_of_forall₂_plain hq (p.plain_parts l x)
  obtain rfl := (p.lawful l).eq_of_refills_parts hy
  obtain ⟨-, rfl⟩ := StoreM.setItem_eq_ok h
  exact ⟨rfl, rfl, Store.putItem_of_getElem? (hs.getElem?_eq (Store.getElem?_of_item hx))⟩

/-- A statement that is taken in the place of one that was read in `s₀` is the same. -/
theorem Takes.store_eq {s₀ : Store} {l : String} {seg : Segment .stmts} {i : Nat} {x : Id .stmt}
    {v : List Mark} {out out' : Option (Array (Id .stmt))} (hx : s₀.item seg i = .ok x)
    (hs : s₀.Steady s) (hk : (Task.visit (.item l) (.stored x)).KeepsPlain r)
    (h : Takes l seg i s out r v out' s') : s' = s := by
  cases h with
  | write hw =>
    cases hk nofun nofun rfl
    obtain ⟨-, rfl⟩ := StoreM.setItem_eq_ok hw
    exact Store.putItem_of_getElem? (hs.getElem?_eq (Store.getElem?_of_item hx))
  | push | splice => rfl

/-- **What splitting leaves alone.** -/
theorem Completes.steady {d : Nat} {k : Task} {c c' : Context Unit} {w : List Mark} {r : k.Result}
    (h : Completes splitter d k c w r c') : c.store.Steady c'.store ∧ k.KeepsPlain r := by
  induction h with
  | stay hr =>
    refine ⟨(splitter_appends.of_replace hr).steady, fun _ he hk => ?_⟩
    rcases splitter_stays hr with rfl | ⟨-, hblock⟩
    · rfl
    · exact absurd (hk.symm.trans hblock) he
  | down hr hx hw hy hc hl ih =>
    obtain ⟨hn, rfl, rfl⟩ := splitter_goesOn hr
    obtain ⟨hs, hq⟩ := ih
    obtain ⟨hs', hkeep⟩ := Node.steady_close hn hx hs hy hq hc
    cases hl
    exact ⟨hs.trans hs', fun hb he _ => hkeep hb he⟩
  | nil => exact ⟨(Store.Extends.refl _).steady, .nil⟩
  | node hv hk hw ihv ihw =>
    refine ⟨ihv.1.trans ihw.1, .cons (fun hp => ?_) ihw.2⟩
    rw [ihv.2 hp.1 hp.2 hk]
  | list hp hs hi hw ihi ihw => exact ⟨ihi.1.trans ihw.1, .cons (fun _ => rfl) ihw.2⟩
  | stmts hs hi hc hw ihi ihw =>
    refine ⟨ihi.1.trans (Store.Steady.trans ?_ ihw.1), .cons (fun hp => absurd rfl hp) ihw.2⟩
    exact (Segment.extends_settle hc).steady
  | itemsDone => exact ⟨(Store.Extends.refl _).steady, trivial⟩
  | itemsNext hx hv hy hs hw ihv ihw =>
    obtain ⟨-, -, rfl⟩ := StoreM.eq_of_setItem hx ihv.1 ihv.2 hy hs
    exact ⟨ihv.1.trans ihw.1, trivial⟩
  | stmtsDone => exact ⟨(Store.Extends.refl _).steady, trivial⟩
  | stmtsNext hx hv ht hw ihv ihw =>
    obtain rfl := ht.store_eq hx ihv.1 ihv.2
    exact ⟨ihv.1.trans ihw.1, trivial⟩

end Rules

end GoTree
