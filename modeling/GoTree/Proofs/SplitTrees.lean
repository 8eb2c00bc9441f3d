import GoTree.Proofs.Resplitting

/-!
# Splitting a tree

Where nothing is shared, a run of the splitter can be described by what was there before and what is
there afterwards. `SplitInto s s' ps qs fs` says that the parts `ps` of the store `s` are the parts
`qs` of the store `s'` with every splittable declaration divided, and that `fs` are the statements
that are new, from left to right: the items of a statement list are kept or divided one by one, in
order, all other parts are what they were, and below a simple statement nothing is touched.

A task sees the store of a moment, with what was done before it, and other tasks follow. What it
takes up stands in every moment as it stood in `s` until the task begins, and from its end on it
stays as it is in `s'` (`Around`), since no other task writes to the same addresses.
-/

namespace GoTree

/-! ### Divided declarations -/

/-- A node unfolds to the same tree in two stores. -/
def Store.KeepsTree (s s' : Store) (n : Node) : Prop :=
  ∃ T fp, Unfolds s [.node "" n] [T] fp ∧ Unfolds s' [.node "" n] [T] fp

/-- The splittable statement `id` of `s` is divided: the statements `ids` of `s'` declare its names
one by one, each with its value. -/
structure Store.Divides (s s' : Store) (id : Id .stmt) (ids : List (Id .stmt)) : Prop where
  splittable : s.Splittable (.stored id)
  declares : ∃ xs, s.Declares id xs ∧ List.Forall₂ (fun x i => s'.Declares i [x]) xs ids
  tree : s.KeepsTree s' (.stored id)

/-- The parts `ps` of `s` are the parts `qs` of `s'` with every declaration divided that can be, by
the new statements `fs`. -/
inductive SplitInto (s s' : Store) : List SlotPart → List SlotPart → List (Id .stmt) → Prop where
  | nil : SplitInto s s' [] [] []
  /-- A simple statement that is not splittable is kept, with all that is below it. -/
  | simple {l : String} {n : Node} {ps qs : List SlotPart} {gs : List (Id .stmt)}
      (hn : s.IsSimple n) (hp : ¬s.Splittable n) (hT : s.KeepsTree s' n)
      (ht : SplitInto s s' ps qs gs) : SplitInto s s' (.node l n :: ps) (.node l n :: qs) gs
  /-- Any other node is kept apart from what is in its slots. A block is nothing but its list. -/
  | node {l : String} {n r : Node} {x : n.kind.Body} {y : r.kind.Body} {ps qs : List SlotPart}
      {fs gs : List (Id .stmt)} (hn : ¬s.IsSimple n) (hx : n.body? s = some x)
      (hy : r.body? s' = some y) (hr : n.kind ≠ .block → n.kind ≠ .expandedBlock → r = n)
      (hl : Label.node r.kind (r.kind.bodySlots y).blank = .node n.kind (n.kind.bodySlots x).blank)
      (hq : SplitInto s s' (n.kind.bodySlots x).parts (r.kind.bodySlots y).parts fs)
      (ht : SplitInto s s' ps qs gs) :
      SplitInto s s' (.node l n :: ps) (.node l r :: qs) (fs ++ gs)
  | list {l : String} {p : Pool} {seg : Segment p} {xs : List p.Item} {ps qs : List SlotPart}
      {fs gs : List (Id .stmt)} (hp : p ≠ .stmts) (hx : s.Holds seg xs) (hy : s'.Holds seg xs)
      (hq : SplitInto s s' (xs.map (.item l p)) (xs.map (.item l p)) fs)
      (ht : SplitInto s s' ps qs gs) :
      SplitInto s s' (.list l p seg :: ps) (.list l p seg :: qs) (fs ++ gs)
  /-- A statement list with something to divide gets a new handle. -/
  | stmts {l : String} {seg seg' : Segment .stmts} {xs ys : List (Id .stmt)}
      {ps qs : List SlotPart} {fs gs : List (Id .stmt)} (hx : s.Holds seg xs)
      (hy : s'.Holds seg' ys) (hseg : (∀ x ∈ xs, ¬s.Splittable (.stored x)) → seg' = seg)
      (hq : SplitInto s s' (xs.map (.item l .stmts)) (ys.map (.item l .stmts)) fs)
      (ht : SplitInto s s' ps qs gs) :
      SplitInto s s' (.list l .stmts seg :: ps) (.list l .stmts seg' :: qs) (fs ++ gs)
  | item {l : String} {p : Pool} {x : p.Item} {ps qs : List SlotPart} {fs gs : List (Id .stmt)}
      (hp : p ≠ .stmts) (hq : SplitInto s s' (p.slots l x).parts (p.slots l x).parts fs)
      (ht : SplitInto s s' ps qs gs) :
      SplitInto s s' (.item l p x :: ps) (.item l p x :: qs) (fs ++ gs)
  /-- A statement of a list that is not divided keeps its id. -/
  | kept {l : String} {id : Id .stmt} {ps qs : List SlotPart} {fs gs : List (Id .stmt)}
      (hq : SplitInto s s' [.node l (.stored id)] [.node l (.stored id)] fs)
      (ht : SplitInto s s' ps qs gs) :
      SplitInto s s' (.item l .stmts id :: ps) (.item l .stmts id :: qs) (fs ++ gs)
  /-- The new statements take the place of the one that is divided. -/
  | divided {l : String} {id : Id .stmt} {ps qs : List SlotPart} {fs gs : List (Id .stmt)}
      (hd : s.Divides s' id fs) (ht : SplitInto s s' ps qs gs) :
      SplitInto s s' (.item l .stmts id :: ps) (fs.map (.item l .stmts) ++ qs) (fs ++ gs)

theorem SplitInto.append {s s' : Store} {ps qs ps' qs' : List SlotPart} {fs gs : List (Id .stmt)}
    (h : SplitInto s s' ps qs fs) (h' : SplitInto s s' ps' qs' gs) :
    SplitInto s s' (ps ++ ps') (qs ++ qs') (fs ++ gs) := by
  induction h with
  | nil => exact h'
  | simple hn hp hT _ ih => exact .simple hn hp hT ih
  | node hn hx hy hr hl hq _ _ ih => simpa using SplitInto.node hn hx hy hr hl hq ih
  | list hp hx hy hq _ _ ih => simpa using SplitInto.list hp hx hy hq ih
  | stmts hx hy hseg hq _ _ ih => simpa using SplitInto.stmts hx hy hseg hq ih
  | item hp hq _ _ ih => simpa using SplitInto.item hp hq ih
  | kept hq _ _ ih => simpa using SplitInto.kept hq ih
  | divided hd _ ih => simpa using SplitInto.divided hd ih

/-! ### Moments of a run -/

/-- A task goes from `c` to `c'` while a run goes from `s` to `s'`: at the addresses `fp`, nothing
was done before the task and nothing is done after it. -/
structure Around (s c c' : Store) (fp : Multiset Address) (s' : Store) : Prop where
  before : s.Steady c
  start : ∀ a ∈ fp, s.SameAt c a
  after : c'.Steady s'
  finish : ∀ a ∈ fp, c'.SameAt s' a

private theorem Task.Outlined.allocated {s : Store} {k : Task} {os : List Outline}
    {fp : Multiset Address} (h : k.Outlined s os fp) : ∀ a ∈ fp, s.Allocated a := by
  have hitems : ∀ {l p} {seg : Segment p} {n i}, ItemsOutlined s l p seg n i os fp →
      ∀ a ∈ fp, s.Allocated a := by
    rintro l p seg n i ⟨xs, gp, rfl, hr, ho, rfl⟩ a ha
    rcases Multiset.mem_add.mp ha with ha | ha
    · exact hr.allocated a ha
    · exact ho.allocated a ha
  cases k with
  | visit o n =>
    obtain ⟨l, h⟩ := h
    exact h.allocated
  | parts ps => exact Outlines.allocated h
  | items => exact hitems h
  | stmts => exact hitems h

/-- What a task takes up depends on the footprint alone. -/
private theorem Task.Outlined.frame {s s' : Store} {k : Task} {os : List Outline}
    {fp : Multiset Address}
    (h : k.Outlined s os fp) (hg : s.Grows s') (hs : ∀ a ∈ fp, s.SameAt s' a) :
    k.Outlined s' os fp := by
  have hitems : ∀ {l p} {seg : Segment p} {n i}, ItemsOutlined s l p seg n i os fp →
      ItemsOutlined s' l p seg n i os fp := by
    rintro l p seg n i ⟨xs, gp, rfl, hr, ho, rfl⟩
    refine ⟨xs, gp, rfl, hr.frame fun a ha => ?_, ho.frame hg fun a ha => ?_, rfl⟩
    · exact hs a (Multiset.mem_add.mpr (.inl ha))
    · exact hs a (Multiset.mem_add.mpr (.inr ha))
  cases k with
  | visit o n =>
    obtain ⟨l, h⟩ := h
    exact ⟨l, h.frame hg hs⟩
  | parts ps => exact Outlines.frame h hg hs
  | items => exact hitems h
  | stmts => exact hitems h

namespace Around

variable {s c c₁ c₂ c' s' : Store} {fp gp : Multiset Address}

theorem mono (h : Around s c c' fp s') (hsub : gp ⊆ fp) : Around s c c' gp s' :=
  ⟨h.before, fun a ha => h.start a (hsub ha), h.after, fun a ha => h.finish a (hsub ha)⟩

/-- A task that is followed by what writes elsewhere. -/
theorem first (h : Around s c c' (fp + gp) s') (hn : (fp + gp).Nodup)
    (ha : ∀ a ∈ fp, s.Allocated a) (hst : c.Steady c₁) (hst' : c₁.Steady c')
    (hc : c₁.ChangesOnly gp c') : Around s c c₁ fp s' := by
  have hsub : fp ⊆ fp + gp := Multiset.subset_of_le (Multiset.le_add_right fp gp)
  refine ⟨h.before, fun a hf => h.start a (hsub hf), hst'.trans h.after, fun a hf => ?_⟩
  refine Store.SameAt.trans (hc.same a ?_ fun hg => ?_) (h.finish a (hsub hf))
  · exact hst.grows.allocated (h.before.grows.allocated (ha a hf))
  · exact Multiset.disjoint_left.mp (Multiset.nodup_add.mp hn).2.2 hf hg

/-- A task that comes after what writes elsewhere. -/
private theorem second (h : Around s c c' (fp + gp) s') (hn : (fp + gp).Nodup)
    (ha : ∀ a ∈ gp, s.Allocated a) (hst : c.Steady c₁) (hc : c.ChangesOnly fp c₁) :
    Around s c₁ c' gp s' := by
  have hsub : gp ⊆ fp + gp := Multiset.subset_of_le (Multiset.le_add_left gp fp)
  refine ⟨h.before.trans hst, fun a hg => ?_, h.after, fun a hg => h.finish a (hsub hg)⟩
  refine Store.SameAt.trans (h.start a (hsub hg)) ?_
  exact hc.sameAt hn (fun b hb => h.before.grows.allocated (ha b hb)) a hg

end Around

section Outlined

variable {s c : Store} {l : String} {p : Pool} {seg : Segment p} {os : List Outline}
  {fp : Multiset Address}

private theorem Outlines.stop_le {ps : List SlotPart} (h : Outlines s (.list l p seg :: ps) os fp) :
    seg.stop ≤ (s.buffer p).size := by
  cases h with
  | list hs => exact hs

/-- An item that is read later is the one that the outlines of a list begin with. -/
private theorem ItemsOutlined.exists_of_steady {n i : Nat} {x : p.Item}
    (h : ItemsOutlined s l p seg (n + 1) i os fp) (hst : s.Steady c)
    (hx : c.item seg i = .ok x) :
    ∃ us vs fp₁ fp₂, fp = {.cell p (seg.start.toNat + i)} + (fp₁ + fp₂) ∧
      (s.buffer p)[seg.start.toNat + i]? = some x ∧ Outlines s (p.slots l x).parts us fp₁ ∧
      ItemsOutlined s l p seg n (i + 1) vs fp₂ := by
  have hx' : (s.buffer p)[seg.start.toNat + i]? = some x := by
    obtain ⟨xs, -, hlen, hr, -⟩ := h
    obtain _ | ⟨x', xs⟩ := xs
    · cases hlen
    cases (hst.getElem?_eq hr.1).symm.trans (Store.getElem?_of_item hx)
    exact hr.1
  obtain ⟨us, vs, fp₁, fp₂, -, hfp, h₁, h₂⟩ := h.exists_of_cell hx'
  exact ⟨us, vs, fp₁, fp₂, hfp.trans (add_assoc _ _ _), hx', h₁, h₂⟩

end Outlined

section Tasks

variable {s s' : Store} {d d' : Nat} {c c₁ c' : Context Unit} {k k' : Task} {u w : List Mark}
  {res : k.Result} {res' : k'.Result} {os os' : List Outline} {fp gp : Multiset Address}

theorem Completes.changesOnly (h : Completes splitter d k c w res c') (ho : k.Outlined s os fp)
    (hn : fp.Nodup) (ha : s.Steady c.store) (hs : ∀ a ∈ fp, s.SameAt c.store a) :
    c.store.ChangesOnly fp c'.store :=
  (h.singly splitter_appends splitter_goesOnInPlace (ho.frame ha.grows hs) hn).1

/-- Two tasks after one another, with an addition to the store in between. -/
private theorem Around.tasks {st : Store} (hst : c₁.store.Extends st)
    (h : Completes splitter d k c u res c₁)
    (h' : Completes splitter d' k' ⟨st, c₁.state⟩ w res' c') (ho : k.Outlined s os fp)
    (ho' : k'.Outlined s os' gp) (hn : (fp + gp).Nodup)
    (ha : Around s c.store c'.store (fp + gp) s') :
    Around s c.store c₁.store fp s' ∧ Around s st c'.store gp s' := by
  obtain ⟨hn₁, hn₂, -⟩ := Multiset.nodup_add.mp hn
  have hsub : fp ⊆ fp + gp := Multiset.subset_of_le (Multiset.le_add_right fp gp)
  have hc := h.changesOnly ho hn₁ ha.before fun a hf => ha.start a (hsub hf)
  have hc' := hc.seq (hst.changesOnly 0)
  rw [add_zero] at hc'
  have ha' := ha.second hn ho'.allocated (h.steady.1.trans hst.steady) hc'
  have hc₂ := (hst.changesOnly gp).trans (h'.changesOnly ho' hn₂ ha'.before ha'.start)
  exact ⟨ha.first hn ho.allocated h.steady.1 (hst.steady.trans h'.steady.1) hc₂, ha'⟩

/-- A simple statement that a task has left as it was. -/
private theorem Around.keepsTree {c c' : Store} {l : String} {n : Node} (h : Around s c c' fp s')
    (he : c.Extends c') (ho : Outlines s [.node l n] os fp) : s.KeepsTree s' n := by
  obtain ⟨ts, hts⟩ := ho.exists_unfolds
  obtain ⟨T, us, fp, gp, rfl, rfl, hT, hnil⟩ := hts.exists_of_cons
  obtain ⟨rfl, rfl⟩ := hnil.eq_of_nil
  have hg := h.before.grows.trans (he.grows.trans h.after.grows)
  refine ⟨T, fp, hT.relabel "", (hT.relabel "").frame hg fun a ha => ?_⟩
  have ha' : a ∈ fp + 0 := by rwa [add_zero]
  have hc := he.same a (h.before.grows.allocated (hT.allocated a ha))
  exact ((h.start a ha').trans hc).trans (h.finish a ha')

end Tasks

/-! ### Along the rules -/

/-- What a task yields is what it took up, split. The result of a visit may be the block of the new
declarations. -/
def Task.SplitInto (s c c' s' : Store) : (k : Task) → k.Result → List (Id .stmt) → Prop
  | visit _ n, r, fs =>
    (r.kind = n.kind ∧ ∀ l, GoTree.SplitInto s s' [.node l n] [.node l r] fs) ∨
      ∃ id seg, n = .stored id ∧ r = .expandedBlock ⟨seg⟩ ∧ c'.Holds seg fs ∧ s.Divides s' id fs
  | parts ps, qs, fs => GoTree.SplitInto s s' ps qs fs
  | items l p seg n i, _, fs => p ≠ .stmts → ∀ xs, s.Reads p (seg.start.toNat + i) xs →
      xs.length = n → GoTree.SplitInto s s' (xs.map (.item l p)) (xs.map (.item l p)) fs
  | stmts l seg n i out, res, fs => ∀ zs xs, Stands c seg i out zs →
      s.Reads .stmts (seg.start.toNat + i) xs → xs.length = n →
      ∃ ys, Stands c' seg (i + n) res (zs ++ ys) ∧
        GoTree.SplitInto s s' (xs.map (.item l .stmts)) (ys.map (.item l .stmts)) fs ∧
        (out = none → (∀ x ∈ xs, ¬s.Splittable (.stored x)) → res = none)

section Rules

variable {s s' : Store} {c c' : Context Unit} {os : List Outline} {fp : Multiset Address}

/-- An answer that is not descended into. -/
private theorem splitInto_stay {o : Origin} {n a : Node}
    (hr : splitter.replace n c = .ok (a, false) c')
    (hc : c'.store.Counted) (hs : s.Closed) (ho : (Task.visit o n).Outlined s os fp)
    (ha : Around s c.store c'.store fp s') :
    ∃ fs, c.store.AddsStmts fs c'.store ∧
      (Task.visit o n).SplitInto s c.store c'.store s' a fs := by
  obtain ⟨l, ho⟩ := ho
  obtain ⟨x, us, gp, hx, -⟩ := ho.exists_of_node
  have hT := ha.keepsTree (splitter_appends.of_replace hr) ho
  rcases splitter_cases hr hc with ⟨-, -, ⟨⟩, -⟩ | ⟨hn, hp, rfl, -, rfl⟩ |
    ⟨id, ids, seg, rfl, rfl, -, hsplit⟩
  · have hn' := (ha.before.isSimple_iff hx).mp hn
    have hp' := mt (ha.before.splittable_iff hs hn').mpr hp
    exact ⟨[], .nil rfl, .inl ⟨rfl, fun l => .simple hn' hp' hT .nil⟩⟩
  · obtain ⟨xs, hxs, hadds⟩ := hsplit.decls
    have hn' := (ha.before.isSimple_iff hx).mp hsplit.splittable.isSimple
    refine ⟨ids, hadds.stmts, .inr ⟨id, seg, rfl, rfl, hsplit.holds, ?_, ⟨xs, ?_, ?_⟩, hT⟩⟩
    · exact (ha.before.splittable_iff hs hn').mp hsplit.splittable
    · exact (ha.before.declares_iff hs hn').mp hxs
    · exact hadds.declares.imp fun _ _ hd => ha.after.declares hd

private theorem Node.footprint_of_close {n r : Node} {y : n.kind.Body}
    (h : n.close y s = .ok r s') :
    r.footprint = n.footprint := by
  obtain ⟨k, v⟩ := n
  cases k with
  | stored b =>
    rw [close_stored] at h
    split_ifs at h
    cases h
    rfl
  | _ =>
    cases h
    rfl

private theorem Node.size_table_of_close {n r : Node} {y : n.kind.Body} (h : n.close y s = .ok r s')
    (b : Category) : (s'.table b).size = (s.table b).size := by
  obtain ⟨k, v⟩ := n
  cases k with
  | stored b' =>
    obtain ⟨-, rfl⟩ := close_stored_eq_ok h
    exact Store.size_table_put s v y b
  | _ =>
    cases h
    rfl

private theorem Segment.size_table_of_settle {seg seg' : Segment .stmts}
    {out : Option (Array (Id .stmt))} (h : seg.settle out s = .ok seg' s') (b : Category) :
    (s'.table b).size = (s.table b).size := by
  cases out with
  | none =>
    cases h
    rfl
  | some out =>
    rw [StoreM.store_of_list.1 seg' h]
    rfl

/-- A node is closed with what its slots were split into, and stays so until the end. -/
theorem SplitInto.close {n r : Node} {x y : n.kind.Body} {c c' : Store} {qs : List SlotPart}
    {fs : List (Id .stmt)} {l : String} (hq : SplitInto s s' (n.kind.bodySlots x).parts qs fs)
    (hn : ¬s.IsSimple n) (hx : n.body? s = some x)
    (hr : n.kind ≠ .block → n.kind ≠ .expandedBlock → r = n)
    (hy : (n.kind.bodySlots x).Refills qs y) (hc : n.close y c = .ok r c')
    (hs : ∀ a ∈ n.footprint, c'.SameAt s' a) : SplitInto s s' [.node l n] [.node l r] fs := by
  obtain ⟨z, hz, hparts, hlabel⟩ := Node.exists_body?_of_close hc
  rw [(Kind.lawful _).parts_eq hy] at hparts
  rw [(Kind.lawful _).blank_eq hy] at hlabel
  have hz' : r.body? s' = some z := by
    rw [← Node.footprint_of_close hc] at hs
    exact (Node.body?_frame hs).trans hz
  subst hparts
  simpa using SplitInto.node hn hx hz' hr hlabel hq .nil

/-- What the answer for a statement contributes to its list. -/
private theorem Takes.exists_splitInto {c c' : Store} {l : String} {seg : Segment .stmts} {i : Nat}
    {x : Id .stmt} {r : Node} {v : List Mark} {out out' : Option (Array (Id .stmt))}
    {zs fs : List (Id .stmt)} (h : Takes l seg i c' out r v out' c') (hz : Stands c' seg i out zs)
    (hi : i ≤ seg.length) (hm : c'.Small) (hk : (Task.visit (.item l) (.stored x)).KeepsPlain r)
    (hr : (Task.visit (.item l) (.stored x)).SplitInto s c c' s' r fs) :
    ∃ ids, Stands c' seg (i + 1) out' (zs ++ ids) ∧
      SplitInto s s' [.item l .stmts x] (ids.map (.item l .stmts)) fs ∧
      (out = none → ¬s.Splittable (.stored x) → out' = none) := by
  rcases hr with ⟨hkind, hr⟩ | ⟨id, seg', ⟨⟩, rfl, hholds, hdiv⟩
  · cases hk nofun nofun hkind
    refine ⟨[x], h.stands_stored hz, by simpa using SplitInto.kept (hr l) .nil, fun hout _ => ?_⟩
    subst hout
    cases h
    rfl
  · refine ⟨fs, h.stands_block hz hi (hholds.items_eq hm), ?_,
      fun _ hx => absurd hdiv.splittable hx⟩
    simpa using SplitInto.divided hdiv .nil

/-- **What a run splits.** -/
theorem Completes.splitInto {d : Nat} {k : Task} {w : List Mark} {r : k.Result}
    (h : Completes splitter d k c w r c') (hc : c'.store.Counted) (hs : s.Closed)
    (ho : k.Outlined s os fp) (hn : fp.Nodup) (ha : Around s c.store c'.store fp s') :
    ∃ fs, c.store.AddsStmts fs c'.store ∧ k.SplitInto s c.store c'.store s' r fs := by
  induction h generalizing os fp with
  | stay hr => exact splitInto_stay hr hc hs ho ha
  | @down d o n a r x y c c₁ c₂ c₃ st w ps hr hx hw hy hclose hl ih =>
    obtain ⟨hsimple, rfl, rfl⟩ := splitter_goesOn hr
    cases hl
    obtain ⟨hst, hplain⟩ := hw.steady
    obtain ⟨hst', hkeep⟩ := Node.steady_close hsimple hx hst hy hplain hclose
    obtain ⟨l, ho⟩ := ho
    obtain ⟨x', us, gp, hx', hu, rfl, rfl⟩ := ho.exists_of_node
    have hsub : a.footprint ⊆ a.footprint + gp :=
      Multiset.subset_of_le (Multiset.le_add_right _ gp)
    obtain rfl : x' = x := by
      have hsame : a.body? c₁.store = a.body? s :=
        Node.body?_frame fun b hb => ha.start b (hsub hb)
      exact Option.some.inj (hx'.symm.trans (hsame.symm.trans hx))
    have ha' := Around.first (add_comm a.footprint gp ▸ ha) (add_comm a.footprint gp ▸ hn)
      hu.allocated hst hst' (Node.changesOnly_close hclose)
    obtain ⟨fs, hfs, hq⟩ := ih (hc.of_grows hst'.grows) hu (Multiset.nodup_add.mp hn).2.1 ha'
    refine ⟨fs, hfs.later (Node.size_table_of_close hclose _),
      .inl ⟨Node.kind_of_close hclose, fun l => ?_⟩⟩
    exact hq.close (mt (ha.before.isSimple_iff hx').mpr hsimple) hx' hkeep hy hclose
      fun b hb => ha.finish b (hsub hb)
  | nil => exact ⟨[], .nil rfl, .nil⟩
  | node hv hk hw ihv ihw =>
    obtain ⟨o, us, fp₁, fp₂, rfl, rfl, h₁, h₂⟩ := Outlines.exists_of_cons ho
    obtain ⟨hn₁, hn₂, -⟩ := Multiset.nodup_add.mp hn
    obtain ⟨ha₁, ha₂⟩ := Around.tasks (.refl _) hv hw ⟨_, h₁⟩ h₂ hn ha
    obtain ⟨fs, hfs, hr⟩ := ihv (hc.of_grows hw.steady.1.grows) ⟨_, h₁⟩ hn₁ ha₁
    obtain ⟨gs, hgs, hqs⟩ := ihw hc h₂ hn₂ ha₂
    refine ⟨fs ++ gs, hfs.append hgs, ?_⟩
    rcases hr with ⟨-, hr⟩ | ⟨id, seg, rfl, rfl, -⟩
    · exact (hr _).append hqs
    · cases hk
  | @list d l p seg ps qs c c₁ c₂ u w hp hb hi hw ihi ihw =>
    obtain ⟨us, vs, fp₁, fp₂, rfl, rfl, h₁, h₂⟩ := Outlines.exists_of_list_cons ho
    obtain ⟨hn₁, hn₂, -⟩ := Multiset.nodup_add.mp hn
    obtain ⟨ha₁, ha₂⟩ := Around.tasks (.refl _) hi hw h₁ h₂ hn ha
    obtain ⟨fs, hfs, hitems⟩ := ihi (hc.of_grows hw.steady.1.grows) h₁ hn₁ ha₁
    obtain ⟨gs, hgs, hqs⟩ := ihw hc h₂ hn₂ ha₂
    have hb' : seg.stop ≤ (s.buffer p).size := Outlines.stop_le ho
    obtain ⟨xs, hlen, hxs⟩ := Store.exists_reads hb'
    have hx : s.Holds seg xs := ⟨hb', hlen, hxs⟩
    have hst := ha₁.before.trans (hi.steady.1.trans ha₁.after)
    exact ⟨fs ++ gs, hfs.append hgs, .list hp hx (hst.holds hx) (hitems hp xs hxs hlen) hqs⟩
  | @stmts d l seg seg' ps qs c c₁ c₂ st u w out hb hi hsettle hw ihi ihw =>
    obtain ⟨us, vs, fp₁, fp₂, rfl, rfl, h₁, h₂⟩ := Outlines.exists_of_list_cons ho
    obtain ⟨hn₁, hn₂, -⟩ := Multiset.nodup_add.mp hn
    have hext := Segment.extends_settle hsettle
    obtain ⟨ha₁, ha₂⟩ := Around.tasks hext hi hw h₁ h₂ hn ha
    have hg := hext.grows.trans hw.steady.1.grows
    obtain ⟨fs, hfs, hstmts⟩ := ihi (hc.of_grows hg) h₁ hn₁ ha₁
    obtain ⟨gs, hgs, hqs⟩ := ihw hc h₂ hn₂ ha₂
    have hb' : seg.stop ≤ (s.buffer .stmts).size := Outlines.stop_le ho
    obtain ⟨xs, hlen, hxs⟩ := Store.exists_reads hb'
    obtain ⟨ys, hz, hys, hnone⟩ := hstmts [] xs (.inPlace rfl trivial) hxs hlen
    rw [List.nil_append, Nat.zero_add] at hz
    have hy := hz.holds_of_settle (Nat.le_trans hb (hi.steady.1.grows.buffer .stmts)) hsettle
    have hfs' := hfs.later (Segment.size_table_of_settle hsettle .stmt)
    refine ⟨fs ++ gs, hfs'.append hgs,
      .stmts ⟨hb', hlen, hxs⟩ ((hw.steady.1.trans ha₂.after).holds hy) (fun hsplit => ?_) hys hqs⟩
    obtain rfl := hnone rfl hsplit
    cases hsettle
    rfl
  | itemsDone =>
    refine ⟨[], .nil rfl, fun _ xs _ hlen => ?_⟩
    obtain rfl := List.eq_nil_of_length_eq_zero hlen
    exact .nil
  | @itemsNext d l p seg n i x y qs c c₁ c₂ st u w hx hv hy hset hw ihv ihw =>
    obtain ⟨hst, hplain⟩ := hv.steady
    obtain ⟨rfl, rfl, rfl⟩ := StoreM.eq_of_setItem hx hst hplain hy hset
    obtain ⟨us, vs, fp₁, fp₂, rfl, hcell, h₁, h₂⟩ := ItemsOutlined.exists_of_steady ho ha.before hx
    have hn' := (Multiset.nodup_add.mp hn).2.1
    have ha' := ha.mono (Multiset.subset_of_le (Multiset.le_add_left (fp₁ + fp₂) _))
    obtain ⟨hn₁, hn₂, -⟩ := Multiset.nodup_add.mp hn'
    obtain ⟨ha₁, ha₂⟩ := Around.tasks (.refl _) hv hw h₁ h₂ hn' ha'
    obtain ⟨fs, hfs, hq⟩ := ihv (hc.of_grows hw.steady.1.grows) h₁ hn₁ ha₁
    obtain ⟨gs, hgs, hitems⟩ := ihw hc h₂ hn₂ ha₂
    refine ⟨fs ++ gs, hfs.append hgs, fun hp xs hxs hlen => ?_⟩
    obtain _ | ⟨x', xs⟩ := xs
    · cases hlen
    cases hcell.symm.trans hxs.1
    exact .item hp hq (hitems hp xs hxs.2 (Nat.succ.inj hlen))
  | stmtsDone =>
    refine ⟨[], .nil rfl, fun zs xs hz _ hlen => ⟨[], ?_, ?_, fun hnone _ => hnone⟩⟩
    · simpa using hz
    · obtain rfl := List.eq_nil_of_length_eq_zero hlen
      exact .nil
  | @stmtsNext d l seg n i x r out out' res c c₁ c₂ st u v w hx hv ht hw ihv ihw =>
    obtain ⟨hst, hplain⟩ := hv.steady
    obtain rfl := ht.store_eq hx hst hplain
    obtain ⟨us, vs, fp₁, fp₂, rfl, hcell, h₁, h₂⟩ := ItemsOutlined.exists_of_steady ho ha.before hx
    have hn' := (Multiset.nodup_add.mp hn).2.1
    have ha' := ha.mono (Multiset.subset_of_le (Multiset.le_add_left (fp₁ + fp₂) _))
    obtain ⟨hn₁, hn₂, -⟩ := Multiset.nodup_add.mp hn'
    obtain ⟨ha₁, ha₂⟩ := Around.tasks (.refl _) hv hw ⟨l, h₁⟩ h₂ hn' ha'
    have hc₁ := hc.of_grows hw.steady.1.grows
    obtain ⟨fs, hfs, hr⟩ := ihv hc₁ ⟨l, h₁⟩ hn₁ ha₁
    obtain ⟨gs, hgs, hrest⟩ := ihw hc h₂ hn₂ ha₂
    refine ⟨fs ++ gs, hfs.append hgs, fun zs xs hz hxs hlen => ?_⟩
    obtain _ | ⟨x', xs⟩ := xs
    · cases hlen
    cases hcell.symm.trans hxs.1
    have hi := Nat.le_of_lt (Store.lt_length_of_item hx)
    obtain ⟨ids, hids, hsplit, hnone⟩ :=
      ht.exists_splitInto (hz.steady hst) hi hc₁.buffers hplain hr
    obtain ⟨ys, hys, hsplit', hnone'⟩ := hrest (zs ++ ids) xs hids hxs.2 (Nat.succ.inj hlen)
    refine ⟨ids ++ ys, ?_, ?_, fun hout hall => ?_⟩
    · rwa [← List.append_assoc, show i + (n + 1) = i + 1 + n by omega]
    · rw [List.map_append]
      exact hsplit.append hsplit'
    · obtain ⟨hx', hxs'⟩ := List.forall_mem_cons.mp hall
      exact hnone' (hnone hout hx') hxs'

end Rules

/-! ### The law -/

/-- **Splitting is correct and idempotent.** In a closed store, a second run, on what a completed
run returns, returns the same and changes nothing; nodes and lists may be shared. If nothing is
shared below the root, the run divides every splittable declaration in the statement lists that it
comes to, and does nothing else. It comes to all of them but those below simple statements. -/
theorem split_run {store : Store} {depth : Nat} {root r : Node} (hs : store.Closed)
    (hr : (splitter.run depth root store ()).result = .ok r)
    (hc : (splitter.run depth root store ()).store.Counted) :
    let out := splitter.run depth root store ()
    (∀ depth', depth ≤ depth' → 0 < depth' →
      (splitter.run depth' r out.store ()).result = .ok r ∧
        (splitter.run depth' r out.store ()).store = out.store) ∧
      ∀ T fp, store.TreeShaped root T fp →
        store.ChangesOnly fp out.store ∧ ∃ fs, store.AddsStmts fs out.store ∧
          ((r.kind = root.kind ∧ SplitInto store out.store [.node "" root] [.node "" r] fs) ∨
            ∃ id seg, root = .stored id ∧ r = .expandedBlock ⟨seg⟩ ∧ out.store.Holds seg fs ∧
              store.Divides out.store id fs) := by
  intro out
  obtain ⟨w, hw⟩ := splitter.exists_history depth root store ()
  have h := hw.completes hr
  refine ⟨fun depth' hd hpos => h.run_again hc hs hd hpos, ?_⟩
  rintro T fp ⟨hT, hn⟩
  obtain ⟨os, ho⟩ := hT.exists_outlines
  have hstart : store.Steady store := (Store.Extends.refl store).steady
  have ha : Around store store out.store fp out.store :=
    ⟨hstart, fun a _ => .refl _ a, (Store.Extends.refl _).steady, fun a _ => .refl _ a⟩
  obtain ⟨fs, hfs, hsplit⟩ := h.splitInto hc hs ⟨"", ho⟩ hn ha
  have hchange := h.changesOnly (k := .visit .root root) ⟨"", ho⟩ hn hstart fun a _ => .refl _ a
  refine ⟨hchange, fs, hfs, ?_⟩
  rcases hsplit with ⟨hk, hsplit⟩ | hblock
  · exact .inl ⟨hk, hsplit ""⟩
  · exact .inr hblock

/-- A block of the declaration `a, b := x, y`, of a block of `c, d := z, u`, and of
`e, f := v`, which is not splittable. -/
def terrace : Store where
  tables :=
    { stmts := .ofNodes #[.block ⟨0, 3⟩, .simple ⟨0⟩, .block ⟨3, 1⟩, .simple ⟨1⟩, .simple ⟨2⟩]
      simpleStmts := .ofNodes #[.shortVarDecl ⟨0, 2⟩ ⟨0, 2⟩, .shortVarDecl ⟨2, 2⟩ ⟨2, 2⟩,
        .shortVarDecl ⟨4, 2⟩ ⟨4, 1⟩]
      exprs := .ofNodes #[.bad, .bad, .bad, .bad, .bad] }
  buffers :=
    { stmts := #[⟨1⟩, ⟨2⟩, ⟨4⟩, ⟨3⟩]
      identNames := #[⟨⟨0⟩, .none⟩, ⟨⟨1⟩, .none⟩, ⟨⟨2⟩, .none⟩, ⟨⟨3⟩, .none⟩, ⟨⟨4⟩, .none⟩,
        ⟨⟨5⟩, .none⟩]
      exprs := #[⟨0⟩, ⟨1⟩, ⟨2⟩, ⟨3⟩, ⟨4⟩] }

private theorem terrace_closed : terrace.Closed where
  node := by
    intro c i x hx
    obtain ⟨hi, rfl⟩ := Array.getElem?_eq_some_iff.mp hx
    cases c with
    | stmt =>
      have hsimple : ∀ id : Id .simpleStmt, id.index < 3 → (Node.stored id).Resolves terrace :=
        fun _ h => Node.resolves_stored h
      refine ⟨?_, by rintro seg ⟨⟩⟩
      match i, hi with
      | 0, _ | 2, _ => exact List.forall_mem_singleton.mpr (SlotPart.Passes.list (by decide))
      | 1, _ => exact List.forall_mem_singleton.mpr (hsimple ⟨0⟩ (by decide)).part
      | 3, _ => exact List.forall_mem_singleton.mpr (hsimple ⟨1⟩ (by decide)).part
      | 4, _ => exact List.forall_mem_singleton.mpr (hsimple ⟨2⟩ (by decide)).part
    | simpleStmt =>
      refine ⟨?_, by rintro seg ⟨⟩⟩
      match i, hi with
      | 0, _ | 1, _ | 2, _ =>
        exact List.forall_mem_cons.mpr ⟨SlotPart.Passes.list (by decide),
          List.forall_mem_singleton.mpr (SlotPart.Passes.list (by decide))⟩
    | expr =>
      refine ⟨?_, by rintro seg ⟨⟩⟩
      match i, hi with
      | 0, _ | 1, _ | 2, _ | 3, _ | 4, _ => rintro q ⟨⟩
    | _ => exact absurd hi (Nat.not_lt_zero i)
  cell := by
    intro p i x hx
    have hmem := Array.mem_of_getElem? hx
    cases p with
    | stmts =>
      have hids : ∀ id ∈ terrace.buffer .stmts, id.index < 5 := by decide
      exact Store.itemResolves_stmt.mpr (Node.resolves_stored (hids x hmem))
    | exprs =>
      have hids : ∀ id ∈ terrace.buffer .exprs, id.index < 5 := by decide
      refine List.forall_mem_singleton.mpr ?_
      exact (Node.resolves_stored (s := terrace) (hids x hmem)).part
    | identNames =>
      exact List.forall_mem_singleton.mpr (SlotPart.Passes.node ⟨_, rfl⟩ (List.forall_mem_nil _))
    | _ => exact absurd hmem (Array.not_mem_empty x)

private theorem terrace_treeShaped :
    ∃ T fp, terrace.TreeShaped (.stored (⟨0⟩ : Id .stmt)) T fp := by
  have hr₀ : terrace.Reads .stmts 0 [⟨1⟩, ⟨2⟩, ⟨4⟩] := ⟨rfl, rfl, rfl, trivial⟩
  have hr₃ : terrace.Reads .stmts 3 [⟨3⟩] := ⟨rfl, trivial⟩
  have hn₀ : terrace.Reads .identNames 0 [⟨⟨0⟩, .none⟩, ⟨⟨1⟩, .none⟩] := ⟨rfl, rfl, trivial⟩
  have hn₂ : terrace.Reads .identNames 2 [⟨⟨2⟩, .none⟩, ⟨⟨3⟩, .none⟩] := ⟨rfl, rfl, trivial⟩
  have hn₄ : terrace.Reads .identNames 4 [⟨⟨4⟩, .none⟩, ⟨⟨5⟩, .none⟩] := ⟨rfl, rfl, trivial⟩
  have hv₀ : terrace.Reads .exprs 0 [⟨0⟩, ⟨1⟩] := ⟨rfl, rfl, trivial⟩
  have hv₂ : terrace.Reads .exprs 2 [⟨2⟩, ⟨3⟩] := ⟨rfl, rfl, trivial⟩
  have hv₄ : terrace.Reads .exprs 4 [⟨4⟩] := ⟨rfl, trivial⟩
  refine ⟨_, _, .node rfl (.list (by decide) rfl hr₀
    (.item (.node rfl (.node rfl
      (.list (by decide) rfl hn₀ (.item (.node rfl .nil .nil) (.item (.node rfl .nil .nil) .nil))
        (.list (by decide) rfl hv₀ (.item (.node rfl .nil .nil) (.item (.node rfl .nil .nil) .nil))
          .nil)) .nil) .nil)
    (.item (.node rfl (.list (by decide) rfl hr₃ (.item (.node rfl (.node rfl
      (.list (by decide) rfl hn₂ (.item (.node rfl .nil .nil) (.item (.node rfl .nil .nil) .nil))
        (.list (by decide) rfl hv₂ (.item (.node rfl .nil .nil) (.item (.node rfl .nil .nil) .nil))
          .nil)) .nil) .nil) .nil) .nil) .nil)
    (.item (.node rfl (.node rfl
      (.list (by decide) rfl hn₄ (.item (.node rfl .nil .nil) (.item (.node rfl .nil .nil) .nil))
        (.list (by decide) rfl hv₄ (.item (.node rfl .nil .nil) .nil) .nil)) .nil) .nil) .nil)))
    .nil) .nil, ?_⟩
  decide

/-- What the run leaves of it. The list of the outer block is `5, 6, 2, 4` now, that of the inner
one `7, 8`, and the cells that they had are as they were. -/
private theorem store_run_terrace :
    (splitter.run 9 (.stored (⟨0⟩ : Id .stmt)) terrace ()).store =
      { tables :=
          { stmts := .ofNodes #[.block ⟨10, 4⟩, .simple ⟨0⟩, .block ⟨8, 2⟩, .simple ⟨1⟩,
              .simple ⟨2⟩, .simple ⟨3⟩, .simple ⟨4⟩, .simple ⟨5⟩, .simple ⟨6⟩]
            simpleStmts := .ofNodes #[.shortVarDecl ⟨0, 2⟩ ⟨0, 2⟩, .shortVarDecl ⟨2, 2⟩ ⟨2, 2⟩,
              .shortVarDecl ⟨4, 2⟩ ⟨4, 1⟩, .shortVarDecl ⟨6, 1⟩ ⟨5, 1⟩,
              .shortVarDecl ⟨7, 1⟩ ⟨6, 1⟩, .shortVarDecl ⟨8, 1⟩ ⟨7, 1⟩,
              .shortVarDecl ⟨9, 1⟩ ⟨8, 1⟩]
            exprs := .ofNodes #[.bad, .bad, .bad, .bad, .bad] }
        buffers :=
          { stmts := #[⟨1⟩, ⟨2⟩, ⟨4⟩, ⟨3⟩, ⟨5⟩, ⟨6⟩, ⟨7⟩, ⟨8⟩, ⟨7⟩, ⟨8⟩, ⟨5⟩, ⟨6⟩, ⟨2⟩, ⟨4⟩]
            identNames := #[⟨⟨0⟩, .none⟩, ⟨⟨1⟩, .none⟩, ⟨⟨2⟩, .none⟩, ⟨⟨3⟩, .none⟩,
              ⟨⟨4⟩, .none⟩, ⟨⟨5⟩, .none⟩, ⟨⟨0⟩, .none⟩, ⟨⟨1⟩, .none⟩, ⟨⟨2⟩, .none⟩,
              ⟨⟨3⟩, .none⟩]
            exprs := #[⟨0⟩, ⟨1⟩, ⟨2⟩, ⟨3⟩, ⟨4⟩, ⟨0⟩, ⟨1⟩, ⟨2⟩, ⟨3⟩] } } := by
  decide +kernel

/-- Statements 5 and 6 stand for the declaration in the outer block, 7 and 8 for the one in the
inner block. Statement 4 is kept. -/
theorem split_run_terrace :
    let root : Node := .stored (⟨0⟩ : Id .stmt)
    let out := splitter.run 9 root terrace ()
    (terrace.Closed ∧ out.result = .ok root ∧ out.store.Counted) ∧
      (splitter.run 9 root out.store ()).result = .ok root ∧
      (splitter.run 9 root out.store ()).store = out.store ∧
      ∃ T fp, terrace.TreeShaped root T fp ∧ terrace.ChangesOnly fp out.store ∧
        terrace.AddsStmts [⟨5⟩, ⟨6⟩, ⟨7⟩, ⟨8⟩] out.store ∧
        SplitInto terrace out.store [.node "" root] [.node "" root] [⟨5⟩, ⟨6⟩, ⟨7⟩, ⟨8⟩] := by
  intro root out
  have hr : out.result = .ok root := by decide +kernel
  have hc : out.store.Counted := by
    simp only [out, root, store_run_terrace]
    refine ⟨fun c => ?_, fun p => ?_⟩
    · cases c <;> decide
    · cases p <;> decide
  obtain ⟨hagain, htree⟩ := split_run terrace_closed hr hc
  obtain ⟨hr', hs'⟩ := hagain 9 (Nat.le_refl 9) (by decide)
  obtain ⟨T, fp, hT⟩ := terrace_treeShaped
  obtain ⟨hchange, fs, hfs, hsplit⟩ := htree T fp hT
  obtain rfl : fs = [⟨5⟩, ⟨6⟩, ⟨7⟩, ⟨8⟩] := by
    have hsize := hfs.size_eq
    rw [store_run_terrace] at hsize
    have hlen : 9 = 5 + fs.length := hsize
    have hnumbers := hfs.numbers
    rw [show fs.length = 4 by omega] at hnumbers
    exact List.map_injective_iff.mpr Id.index_injective hnumbers
  refine ⟨⟨terrace_closed, hr, hc⟩, hr', hs', T, fp, hT, hchange, hfs, ?_⟩
  rcases hsplit with ⟨-, hsplit⟩ | ⟨id, seg, -, heq, -⟩
  · exact hsplit
  · cases (congrArg Node.kind heq : Kind.stored .stmt = .expandedBlock)

end GoTree
