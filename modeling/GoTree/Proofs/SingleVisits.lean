import GoTree.Proofs.Changes
import GoTree.Proofs.Outline

/-!
# Every place is visited at most once

A transformer can make a tree cyclic while it is traversed, and statement lists keep growing, so
nothing in the store gets smaller along a run. What ends the run is the tree that was there at the
start. Take a transformer that only **adds** to the store, and that **goes on in place**: where it
goes on to the children of its answer, the answer is the node that it was given. Replacements may
point anywhere, since they are not descended into.

`Transformer.single_visits` says that from a tree-shaped root such a run ends, and that its calls
are made at places of the outline of the root, each at most once. What carries the proof is that a
task changes only what its own outline stands on (`Store.ChangesOnly`): what is still to be visited
is at every point as it was at the start.
-/

namespace GoTree

variable {σ : Type}

/-- A transformer that goes on below the very node that it was given, or not at all. -/
def Transformer.GoesOnInPlace (t : Transformer σ) : Prop :=
  ∀ {n a : Node} {c c' : Context σ}, t.replace n c = .ok (a, true) c' → a = n

/-! ### Completed tasks -/

theorem Store.ChangesOnly.outlines {s s' : Store} {fp gp : Multiset Address} {ps : List SlotPart}
    {os : List Outline} (h : s.ChangesOnly fp s') (ho : Outlines s ps os gp)
    (hn : (fp + gp).Nodup) : Outlines s' ps os gp :=
  ho.frame h.grows (h.sameAt hn ho.allocated)

/-- In the store `s`, the `n` items of a list from item `i` on have outlines. -/
def ItemsOutlined (s : Store) (l : String) (p : Pool) (seg : Segment p) (n i : Nat)
    (os : List Outline) (fp : Multiset Address) : Prop :=
  ∃ xs gp, xs.length = n ∧ s.Reads p (seg.start.toNat + i) xs ∧
    Outlines s (xs.map (.item l p)) os gp ∧ fp = cells p (seg.start.toNat + i) n + gp

/-- In the store `s`, what a task takes up has outlines. -/
def Task.Outlined (s : Store) : Task → List Outline → Multiset Address → Prop
  | visit _ n, os, fp => ∃ l, Outlines s [.node l n] os fp
  | parts ps, os, fp => Outlines s ps os fp
  | items l p seg n i, os, fp => ItemsOutlined s l p seg n i os fp
  | stmts l seg n i _, os, fp => ItemsOutlined s l .stmts seg n i os fp

section Outlined

variable {s s' : Store} {l : String} {p : Pool} {seg : Segment p} {n i : Nat} {x : p.Item}
  {os : List Outline} {fp gp : Multiset Address}

/-- The items of a list that is taken up, and the parts after the list. -/
theorem Outlines.exists_of_list_cons {ps : List SlotPart}
    (h : Outlines s (.list l p seg :: ps) os fp) :
    ∃ us vs fp₁ fp₂, os = .group us :: vs ∧ fp = fp₁ + fp₂ ∧
      ItemsOutlined s l p seg seg.length 0 us fp₁ ∧ Outlines s ps vs fp₂ := by
  cases h with
  | @list l p seg xs ps us vs fp gp hs hl hx hu ht =>
    exact ⟨us, vs, _, gp, rfl, rfl, ⟨xs, fp, hl, hx, hu, rfl⟩, ht⟩

/-- The next item and the rest of a list: each stands on addresses of its own, and the cell of the
item is free of both. -/
theorem ItemsOutlined.exists_of_cell (h : ItemsOutlined s l p seg (n + 1) i os fp)
    (hx : (s.buffer p)[seg.start.toNat + i]? = some x) :
    ∃ us vs fp₁ fp₂, os = .group us :: vs ∧
      fp = {.cell p (seg.start.toNat + i)} + fp₁ + fp₂ ∧
      Outlines s (p.slots l x).parts us fp₁ ∧ ItemsOutlined s l p seg n (i + 1) vs fp₂ := by
  obtain ⟨xs, gp, hl, hr, ho, rfl⟩ := h
  obtain _ | ⟨x', xs⟩ := xs
  · cases hl
  obtain rfl : x' = x := Option.some.inj (hr.1.symm.trans hx)
  obtain ⟨o, vs, fp₁, fp₂, rfl, rfl, h₁, h₂⟩ := ho.exists_of_cons
  obtain ⟨us, hu, ho⟩ := h₁.exists_of_item
  cases ho
  refine ⟨us, vs, fp₁, _, rfl, ?_, hu, xs, fp₂, Nat.succ.inj hl, hr.2, h₂, rfl⟩
  rw [cells, Nat.add_assoc, add_add_add_comm]

theorem ItemsOutlined.exists_of_succ (h : ItemsOutlined s l p seg (n + 1) i os fp)
    (hx : s.item seg i = .ok x) :
    ∃ us vs fp₁ fp₂, os = .group us :: vs ∧
      fp = {.cell p (seg.start.toNat + i)} + fp₁ + fp₂ ∧
      Outlines s (p.slots l x).parts us fp₁ ∧ ItemsOutlined s l p seg n (i + 1) vs fp₂ :=
  h.exists_of_cell (Store.getElem?_of_item hx)

/-- The rest of a list stays as it is while a step changes something else. -/
theorem Store.ChangesOnly.itemsOutlined (h : s.ChangesOnly fp s')
    (ho : ItemsOutlined s l p seg n i os gp) (hn : (fp + gp).Nodup) :
    ItemsOutlined s' l p seg n i os gp := by
  obtain ⟨xs, hp, rfl, hr, ho, rfl⟩ := ho
  refine ⟨xs, hp, rfl, h.reads hr ?_, h.outlines ho ?_, rfl⟩
  · exact nodup_of_eq_add hp hn (by abel)
  · exact nodup_of_eq_add (cells p (seg.start.toNat + i) xs.length) hn (by abel)

end Outlined

section Rules

variable {t : Transformer σ} {d : Nat} {k : Task} {c c' : Context σ} {w : List Mark}
  {os : List Outline} {fp : Multiset Address}

/-- An answer that is descended into has the outline that the node had before the transformer was
called: it is the node, and the transformer has overwritten nothing. -/
theorem Outlines.of_answer (ht : t.Appends) (hp : t.GoesOnInPlace) {l : String} {n a : Node}
    {x : a.kind.Body} {c₁ : Context σ} (ho : Outlines c.store [.node l n] os fp)
    (hr : t.replace n c = .ok (a, true) c₁) (hx : a.body? c₁.store = some x) :
    a = n ∧ ∃ us gp, os = [.node a us] ∧ fp = a.footprint + gp ∧
      Outlines c₁.store (a.kind.bodySlots x).parts us gp := by
  obtain rfl := hp hr
  have he := ht.of_replace hr
  have ho₁ := ho.frame he.grows fun b hb => he.same b (ho.allocated b hb)
  obtain ⟨x', us, gp, hx', hu, rfl, rfl⟩ := ho₁.exists_of_node
  obtain rfl : x = x' := Option.some.inj (hx.symm.trans hx')
  exact ⟨rfl, us, gp, rfl, rfl, hu⟩

/-- A completed task calls the transformer at places of its outlines, and it changes nothing but
what the outlines stand on. -/
theorem Completes.singly (ht : t.Appends) (hp : t.GoesOnInPlace) {r : k.Result}
    (h : Completes t d k c w r c') (ho : k.Outlined c.store os fp) (hn : fp.Nodup) :
    c.store.ChangesOnly fp c'.store ∧ Spells os (spell w) := by
  induction h generalizing os fp with
  | @stay d o n a c c' hr =>
    obtain ⟨l, ho⟩ := ho
    obtain ⟨x, us, gp, -, -, rfl, rfl⟩ := ho.exists_of_node
    refine ⟨(ht.of_replace hr).changesOnly _, ?_⟩
    simpa using Spells.stay a .nil
  | @down d o n a r x y c c₁ c₂ c₃ s w ps hr hx hw hy hc hl ih =>
    obtain ⟨l, ho⟩ := ho
    obtain ⟨rfl, us, gp, rfl, rfl, hu⟩ := ho.of_answer ht hp hr hx
    obtain ⟨hgp, hsp⟩ := ih hu (Multiset.nodup_add.mp hn).2.1
    have hend := hgp.seq ((Node.changesOnly_close hc).seq ((ht.of_leave hl).changesOnly 0))
    rw [add_zero, add_comm] at hend
    refine ⟨((ht.of_replace hr).changesOnly _).trans hend, ?_⟩
    simpa using Spells.down hsp .nil
  | nil =>
    cases ho
    exact ⟨.refl _ _, .nil⟩
  | node hv hk hw ihv ihw =>
    obtain ⟨o, us, fp₁, fp₂, rfl, rfl, h₁, h₂⟩ := Outlines.exists_of_cons ho
    obtain ⟨hn₁, hn₂, -⟩ := Multiset.nodup_add.mp hn
    obtain ⟨hc₁, hs₁⟩ := ihv ⟨_, h₁⟩ hn₁
    obtain ⟨hc₂, hs₂⟩ := ihw (hc₁.outlines h₂ hn) hn₂
    rw [spell_append]
    exact ⟨hc₁.seq hc₂, hs₁.cons hs₂⟩
  | list hp hs hi hw ihi ihw =>
    obtain ⟨us, vs, fp₁, fp₂, rfl, rfl, h₁, h₂⟩ := Outlines.exists_of_list_cons ho
    obtain ⟨hn₁, hn₂, -⟩ := Multiset.nodup_add.mp hn
    obtain ⟨hc₁, hs₁⟩ := ihi h₁ hn₁
    obtain ⟨hc₂, hs₂⟩ := ihw (hc₁.outlines h₂ hn) hn₂
    rw [spell_append]
    exact ⟨hc₁.seq hc₂, .group hs₁ hs₂⟩
  | stmts hs hi hc hw ihi ihw =>
    obtain ⟨us, vs, fp₁, fp₂, rfl, rfl, h₁, h₂⟩ := Outlines.exists_of_list_cons ho
    obtain ⟨hn₁, hn₂, -⟩ := Multiset.nodup_add.mp hn
    obtain ⟨hc₁, hs₁⟩ := ihi h₁ hn₁
    have hc₁' := hc₁.seq (Segment.changesOnly_settle hc)
    rw [add_zero] at hc₁'
    obtain ⟨hc₂, hs₂⟩ := ihw (hc₁'.outlines h₂ hn) hn₂
    rw [spell_append]
    exact ⟨hc₁'.seq hc₂, .group hs₁ hs₂⟩
  | itemsDone =>
    obtain ⟨xs, gp, hl, -, ho, rfl⟩ := ho
    obtain rfl := List.eq_nil_of_length_eq_zero hl
    cases ho
    exact ⟨.refl _ _, .nil⟩
  | itemsNext hx hv hy hs hw ihv ihw =>
    obtain ⟨us, vs, fp₁, fp₂, rfl, rfl, h₁, h₂⟩ := ItemsOutlined.exists_of_succ ho hx
    obtain ⟨hn₁, hn₂, -⟩ := Multiset.nodup_add.mp hn
    obtain ⟨hc₁, hs₁⟩ := ihv h₁ (Multiset.nodup_add.mp hn₁).2.1
    have hc₁' := hc₁.seq (StoreM.moves_setItem hs).1.changesOnly
    rw [add_comm] at hc₁'
    obtain ⟨hc₂, hs₂⟩ := ihw (hc₁'.itemsOutlined h₂ hn) hn₂
    rw [spell_append]
    exact ⟨hc₁'.seq hc₂, .group hs₁ hs₂⟩
  | stmtsDone =>
    obtain ⟨xs, gp, hl, -, ho, rfl⟩ := ho
    obtain rfl := List.eq_nil_of_length_eq_zero hl
    cases ho
    exact ⟨.refl _ _, .nil⟩
  | stmtsNext hx hv ha hw ihv ihw =>
    obtain ⟨us, vs, fp₁, fp₂, rfl, rfl, h₁, h₂⟩ := ItemsOutlined.exists_of_succ ho hx
    obtain ⟨hn₁, hn₂, -⟩ := Multiset.nodup_add.mp hn
    obtain ⟨hc₁, hs₁⟩ := ihv ⟨_, h₁⟩ (Multiset.nodup_add.mp hn₁).2.1
    have hc₁' := hc₁.seq ha.changesOnly
    rw [add_comm] at hc₁'
    obtain ⟨hc₂, hs₂⟩ := ihw (hc₁'.itemsOutlined h₂ hn) hn₂
    rw [spell_append, spell_append, ha.spell_eq, List.append_nil]
    exact ⟨hc₁'.seq hc₂, .group hs₁ hs₂⟩

/-! ### Tasks that stop early -/

/-- A completed task is completed at every larger depth. -/
theorem Completes.mono {r : k.Result} (h : Completes t d k c w r c') {e : Nat} (he : d ≤ e) :
    Completes t e k c w r c' := by
  induction h generalizing e with
  | stay hr => exact .stay hr
  | down hr hx hw hy hc hl ih => exact .down hr hx (ih he) hy hc hl
  | nil =>
    obtain ⟨e, rfl⟩ := Nat.exists_eq_add_of_lt he
    exact .nil
  | node hv hk hw ihv ihw =>
    obtain ⟨e, rfl⟩ := Nat.exists_eq_add_of_lt he
    exact .node (ihv (by omega)) hk (ihw he)
  | list hp hs hi hw ihi ihw =>
    obtain ⟨e, rfl⟩ := Nat.exists_eq_add_of_lt he
    exact .list hp hs (ihi (by omega)) (ihw he)
  | stmts hs hi hc hw ihi ihw =>
    obtain ⟨e, rfl⟩ := Nat.exists_eq_add_of_lt he
    exact .stmts hs (ihi (by omega)) hc (ihw he)
  | itemsDone => exact .itemsDone
  | itemsNext hx hv hy hs hw ihv ihw => exact .itemsNext hx (ihv he) hy hs (ihw he)
  | stmtsDone => exact .stmtsDone
  | stmtsNext hx hv ha hw ihv ihw => exact .stmtsNext hx (ihv he) ha (ihw he)

/-- The depth `d` suffices for what a task takes up. -/
def Task.Suffices (d : Nat) (os : List Outline) : Task → Prop
  | parts _ => Outline.heightAll os ≤ d
  | _ => Outline.heightAll os ≤ d + 1

theorem Segment.itemFault?_ne_tooDeep {p : Pool} {seg : Segment p} {size i : Nat} :
    seg.itemFault? size i ≠ some .tooDeep := by
  unfold itemFault? fault?
  intro h
  split at h
  · next hf =>
    cases h
    split at hf
    · cases hf
    · split at hf
      · cases hf
      · split at hf <;> cases hf
  · split at h <;> cases h

private theorem Store.items_ne_tooDeep {s : Store} {p : Pool} {seg : Segment p} :
    s.items seg ≠ .error .tooDeep := by
  unfold items
  split
  · next e hf =>
    rintro ⟨⟩
    have hf' : seg.itemFault? (s.buffer p).size 0 = some .tooDeep := by
      rw [Segment.itemFault?, hf]
    exact Segment.itemFault?_ne_tooDeep hf'
  · rintro ⟨⟩

private theorem Store.item_ne_tooDeep {s : Store} {p : Pool} {seg : Segment p} {i : Nat} :
    s.item seg i ≠ .error .tooDeep := by
  unfold item
  split
  · next e hf =>
    rintro ⟨⟩
    exact Segment.itemFault?_ne_tooDeep hf
  · split <;> rintro ⟨⟩

theorem StoreM.setItem_ne_tooDeep {s s' : Store} {p : Pool} {seg : Segment p} {i : Nat}
    {x : p.Item} : StoreM.setItem seg i x s ≠ .error .tooDeep s' := by
  simp only [setItem]
  split
  · next e hf =>
    rintro ⟨⟩
    exact Segment.itemFault?_ne_tooDeep hf
  · rintro ⟨⟩

private theorem Segment.settle_ne_tooDeep {s s' : Store} {seg : Segment .stmts}
    {out : Option (Array (Id .stmt))} : seg.settle out s ≠ .error .tooDeep s' := by
  cases out with
  | none => rintro ⟨⟩
  | some out =>
    simp only [settle, StoreM.list]
    split
    · rintro ⟨⟩
    · split
      · rintro ⟨⟩
      · split <;> rintro ⟨⟩

/-- Refusing an answer has nothing to do with the depth. -/
private theorem Refuses.ne_tooDeep {l : String} {seg : Segment .stmts} {i : Nat} {s s' : Store}
    {r : Node}
    {out : Option (Array (Id .stmt))} {err : Abort} (h : Refuses l seg i s out r w err s') :
    err ≠ .fault .tooDeep := by
  cases h with
  | write he =>
    rintro ⟨⟩
    exact StoreM.setItem_ne_tooDeep he
  | mismatch => rintro ⟨⟩
  | dangling => rintro ⟨⟩
  | block hb hn =>
    rintro ⟨⟩
    exact Store.items_ne_tooDeep hn
  | collect hb hn ho =>
    rintro ⟨⟩
    exact Store.items_ne_tooDeep ho

/-- What is shown of a task that stops early: it has called the transformer at places of the
outlines `os`, it stops in the same way at every larger depth, and if it reports the depth, it is
the transformer who did so. -/
structure StopsSingly (t : Transformer σ) (d : Nat) (k : Task) (c : Context σ) (w : List Mark)
    (err : Abort) (c' : Context σ) (os : List Outline) : Prop where
  word : Spells.Begins os (spell w)
  deeper : ∀ e, d ≤ e → Aborts t e k c w err c'
  cause : err = .fault .tooDeep → ∃ m, Occurs t d k c m ∧ m.Faults t

/-- The first or the next part of a task stops, and so does the task, which may be at a larger
depth. -/
private theorem StopsSingly.lift {err : Abort} (h : StopsSingly t d k c w err c' os) {k' : Task}
    {c₀ : Context σ} {w' : List Mark} {os' : List Outline} (j : Nat)
    (hw : Spells.Begins os (spell w) → Spells.Begins os' (spell w'))
    (ha : ∀ e, d ≤ e → Aborts t e k c w err c' → Aborts t (e + j) k' c₀ w' err c')
    (hm : ∀ m, Occurs t d k c m → Occurs t (d + j) k' c₀ m) :
    StopsSingly t (d + j) k' c₀ w' err c' os' where
  word := hw h.word
  deeper e he := by
    obtain ⟨i, rfl⟩ := Nat.exists_eq_add_of_le he
    rw [show d + j + i = d + i + j by omega]
    exact ha _ (by omega) (h.deeper _ (by omega))
  cause herr := by
    obtain ⟨m, hmo, hf⟩ := h.cause herr
    exact ⟨m, hm m hmo, hf⟩

/-- Tasks stop early in this way, with a depth that suffices for their outlines. -/
theorem Aborts.singly (ht : t.Appends) (hp : t.GoesOnInPlace) {err : Abort}
    (h : Aborts t d k c w err c') (ho : k.Outlined c.store os fp) (hn : fp.Nodup)
    (hd : k.Suffices d os) : StopsSingly t d k c w err c' os := by
  induction h generalizing os fp with
  | @halt d o n e c c' hr =>
    obtain ⟨l, ho⟩ := ho
    obtain ⟨x, us, gp, -, -, rfl, rfl⟩ := ho.exists_of_node
    exact ⟨.call n us, fun _ _ => .halt hr, fun _ => ⟨_, .call, _, _, hr⟩⟩
  | danglingNode hr hx =>
    -- the answer is the node that was given, and that one has a body
    obtain rfl := hp hr
    obtain ⟨l, ho⟩ := ho
    obtain ⟨x, us, gp, hx', -, rfl, rfl⟩ := ho.exists_of_node
    have hsame := (ht.of_replace hr).same _ (Store.allocated_of_get? hx')
    rw [Store.get?_eq_of_sameAt hsame] at hx
    cases hx.symm.trans hx'
  | inner hr hx hw ih =>
    obtain ⟨l, ho⟩ := ho
    obtain ⟨rfl, us, gp, rfl, rfl, hu⟩ := ho.of_answer ht hp hr hx
    have hd' := Nat.le_of_succ_le_succ (Outline.heightAll_cons_le_iff.mp hd).1
    exact (ih hu (Multiset.nodup_add.mp hn).2.1 hd').lift 0 (by simpa using .down)
      (fun _ _ h => .inner hr hx h) (fun _ h => .inner hr hx h)
  | close hr hx hw hy hc =>
    obtain ⟨l, ho⟩ := ho
    obtain ⟨rfl, us, gp, rfl, rfl, hu⟩ := ho.of_answer ht hp hr hx
    have hc' := (hw.singly ht hp hu (Multiset.nodup_add.mp hn).2.1).1
    exact absurd hc (Node.close_ne_error hx hc'.grows)
  | leave hr hx hw hy hc hl =>
    obtain ⟨l, ho⟩ := ho
    obtain ⟨rfl, us, gp, rfl, rfl, hu⟩ := ho.of_answer ht hp hr hx
    have hsp := (hw.singly ht hp hu (Multiset.nodup_add.mp hn).2.1).2
    refine ⟨?_, fun e he => .leave hr hx (hw.mono he) hy hc hl,
      fun _ => ⟨_, .leave hr hx hw hy hc, _, _, hl⟩⟩
    simpa using (Spells.down hsp .nil).begins
  | deep =>
    have hpos := Outline.one_le_heightAll os
    have hzero : Outline.heightAll os ≤ 0 := hd
    omega
  | node hv ih =>
    obtain ⟨o, us, fp₁, fp₂, rfl, rfl, h₁, -⟩ := Outlines.exists_of_cons ho
    have hd' := Outline.heightAll_singleton_le hd
    exact (ih ⟨_, h₁⟩ (Multiset.nodup_add.mp hn).1 hd').lift 1 (.cons · us)
      (fun _ _ h => .node h) (fun _ h => .node h)
  | mismatch hv hk =>
    obtain ⟨o, us, fp₁, fp₂, rfl, rfl, h₁, -⟩ := Outlines.exists_of_cons ho
    have hsp := (hv.singly ht hp ⟨_, h₁⟩ (Multiset.nodup_add.mp hn).1).2
    refine ⟨by simpa using hsp.begins.cons us, fun e he => ?_, fun herr => by cases herr⟩
    obtain ⟨e, rfl⟩ := Nat.exists_eq_add_of_lt he
    exact .mismatch (hv.mono (by omega)) hk
  | danglingList hs =>
    refine ⟨by simpa using Spells.begins_nil os, fun e he => ?_, fun herr => by cases herr⟩
    obtain ⟨e, rfl⟩ := Nat.exists_eq_add_of_lt he
    exact .danglingList hs
  | list hp' hs hi ih =>
    obtain ⟨us, vs, fp₁, fp₂, rfl, rfl, h₁, -⟩ := Outlines.exists_of_list_cons ho
    have hd' := Nat.le_of_succ_le_succ (Outline.heightAll_cons_le_iff.mp hd).1
    exact (ih h₁ (Multiset.nodup_add.mp hn).1 (Nat.le_succ_of_le hd')).lift 1 (.group · vs)
      (fun _ _ h => .list hp' hs h) (fun _ h => .list hp' hs h)
  | stmts hs hi ih =>
    obtain ⟨us, vs, fp₁, fp₂, rfl, rfl, h₁, -⟩ := Outlines.exists_of_list_cons ho
    have hd' := Nat.le_of_succ_le_succ (Outline.heightAll_cons_le_iff.mp hd).1
    exact (ih h₁ (Multiset.nodup_add.mp hn).1 (Nat.le_succ_of_le hd')).lift 1 (.group · vs)
      (fun _ _ h => .stmts hs h) (fun _ h => .stmts hs h)
  | settle hs hi hc =>
    obtain ⟨us, vs, fp₁, fp₂, rfl, rfl, h₁, -⟩ := Outlines.exists_of_list_cons ho
    have hsp := (hi.singly ht hp h₁ (Multiset.nodup_add.mp hn).1).2
    refine ⟨hsp.begins.group vs, fun e he => ?_, ?_⟩
    · obtain ⟨e, rfl⟩ := Nat.exists_eq_add_of_lt he
      exact .settle hs (hi.mono (by omega)) hc
    · rintro ⟨⟩
      exact absurd hc Segment.settle_ne_tooDeep
  | @rest d _ _ _ _ _ _ u w _ hv hw ih =>
    obtain ⟨o, us, fp₁, fp₂, rfl, rfl, h₁, h₂⟩ := Outlines.exists_of_cons ho
    obtain ⟨hn₁, hn₂, -⟩ := Multiset.nodup_add.mp hn
    obtain ⟨hc₁, hs₁⟩ := hv.singly ht hp h₁ hn₁
    refine (ih (hc₁.outlines h₂ hn) hn₂ (Outline.heightAll_cons_le_iff.mp hd).2).lift 0
      (fun hb => ?_) (fun e he h => ?_) (fun _ h => .rest hv h)
    · rw [spell_append]
      exact .append hs₁ hb
    · have hv' := hv.mono he
      obtain ⟨e, rfl⟩ := Nat.exists_eq_add_of_lt he
      exact .rest hv' h
  | itemRead hx =>
    refine ⟨Spells.begins_nil os, fun _ _ => .itemRead hx, ?_⟩
    rintro ⟨⟩
    exact absurd hx Store.item_ne_tooDeep
  | item hx hv ih =>
    obtain ⟨us, vs, fp₁, fp₂, rfl, rfl, h₁, -⟩ := ItemsOutlined.exists_of_succ ho hx
    have hn₁ := (Multiset.nodup_add.mp (Multiset.nodup_add.mp hn).1).2.1
    have hd' := Nat.le_of_succ_le_succ (Outline.heightAll_cons_le_iff.mp hd).1
    exact (ih h₁ hn₁ hd').lift 0 (.group · vs) (fun _ _ h => .item hx h) (fun _ h => .item hx h)
  | itemWrite hx hv hy hs =>
    obtain ⟨us, vs, fp₁, fp₂, rfl, rfl, h₁, -⟩ := ItemsOutlined.exists_of_succ ho hx
    have hn₁ := (Multiset.nodup_add.mp (Multiset.nodup_add.mp hn).1).2.1
    have hsp := (hv.singly ht hp h₁ hn₁).2
    refine ⟨hsp.begins.group vs, fun e he => .itemWrite hx (hv.mono he) hy hs, ?_⟩
    rintro ⟨⟩
    exact absurd hs StoreM.setItem_ne_tooDeep
  | itemsRest hx hv hy hs hw ih =>
    obtain ⟨us, vs, fp₁, fp₂, rfl, rfl, h₁, h₂⟩ := ItemsOutlined.exists_of_succ ho hx
    obtain ⟨hn₁, hn₂, -⟩ := Multiset.nodup_add.mp hn
    obtain ⟨hc₁, hs₁⟩ := hv.singly ht hp h₁ (Multiset.nodup_add.mp hn₁).2.1
    have hc₁' := hc₁.seq (StoreM.moves_setItem hs).1.changesOnly
    rw [add_comm] at hc₁'
    refine (ih (hc₁'.itemsOutlined h₂ hn) hn₂ (Outline.heightAll_cons_le_iff.mp hd).2).lift 0
      (fun hb => ?_) (fun e he h => .itemsRest hx (hv.mono he) hy hs h)
      (fun _ h => .itemsRest hx hv hy hs h)
    rw [spell_append]
    exact .group_append hs₁ hb
  | stmtRead hx =>
    refine ⟨Spells.begins_nil os, fun _ _ => .stmtRead hx, ?_⟩
    rintro ⟨⟩
    exact absurd hx Store.item_ne_tooDeep
  | stmt hx hv ih =>
    obtain ⟨us, vs, fp₁, fp₂, rfl, rfl, h₁, -⟩ := ItemsOutlined.exists_of_succ ho hx
    have hn₁ := (Multiset.nodup_add.mp (Multiset.nodup_add.mp hn).1).2.1
    have hd' := Nat.le_of_succ_le_succ (Outline.heightAll_cons_le_iff.mp hd).1
    exact (ih ⟨_, h₁⟩ hn₁ (Nat.le_succ_of_le hd')).lift 0 (.group · vs) (fun _ _ h => .stmt hx h)
      (fun _ h => .stmt hx h)
  | refused hx hv ha =>
    obtain ⟨us, vs, fp₁, fp₂, rfl, rfl, h₁, -⟩ := ItemsOutlined.exists_of_succ ho hx
    have hn₁ := (Multiset.nodup_add.mp (Multiset.nodup_add.mp hn).1).2.1
    have hsp := (hv.singly ht hp ⟨_, h₁⟩ hn₁).2
    refine ⟨?_, fun e he => .refused hx (hv.mono he) ha, fun herr => absurd herr ha.ne_tooDeep⟩
    rw [spell_append, ha.spell_eq, List.append_nil]
    exact hsp.begins.group vs
  | stmtsRest hx hv ha hw ih =>
    obtain ⟨us, vs, fp₁, fp₂, rfl, rfl, h₁, h₂⟩ := ItemsOutlined.exists_of_succ ho hx
    obtain ⟨hn₁, hn₂, -⟩ := Multiset.nodup_add.mp hn
    obtain ⟨hc₁, hs₁⟩ := hv.singly ht hp ⟨_, h₁⟩ (Multiset.nodup_add.mp hn₁).2.1
    have hc₁' := hc₁.seq ha.changesOnly
    rw [add_comm] at hc₁'
    refine (ih (hc₁'.itemsOutlined h₂ hn) hn₂ (Outline.heightAll_cons_le_iff.mp hd).2).lift 0
      (fun hb => ?_) (fun e he h => .stmtsRest hx (hv.mono he) ha h)
      (fun _ h => .stmtsRest hx hv ha h)
    rw [spell_append, spell_append, ha.spell_eq, List.append_nil]
    exact .group_append hs₁ hb

end Rules

section Run

variable {t : Transformer σ} {root : Node} {store : Store} {state : σ} {us : List Outline}
  {fp : Multiset Address}

/-- Every depth from the height of the outline on gives the same outcome. -/
theorem Transformer.run_eq_of_height_le (ht : t.Appends) (hp : t.GoesOnInPlace)
    (ho : Outlines store [.node "" root] [.node root us] fp) (hn : fp.Nodup) {d e : Nat}
    (hd : (Outline.node root us).height ≤ d) (he : d ≤ e) :
    t.run e root store state = t.run d root store state := by
  have hs : (Task.visit .root root).Suffices d [.node root us] :=
    Outline.heightAll_cons_le_iff.mpr ⟨Nat.succ_le_succ hd, Nat.le_add_left 1 d⟩
  obtain ⟨w, hw⟩ := t.exists_history d root store state
  rcases hres : (t.run d root store state).result with err | r
  · have ha := hw.aborts hres
    rw [ha.run_eq, ((ha.singly ht hp ⟨_, ho⟩ hn hs).deeper e he).run_eq]
  · have hc := hw.completes hres
    rw [hc.run_eq, (hc.mono he).run_eq]

end Run

/-- **Termination and single visits.** Take a tree-shaped root and a transformer that only adds to
the store and goes on in place. Then the run ends, with an outcome on which the bound on its nesting
has no influence: every depth from the height of the outline on gives the same outcome, and the
depth is reported only if the transformer does so. The calls are made at places of the outline of
the root, as it was at the start: each at most once, and on the node that stood there. So there are
at most as many calls as the outline has nodes. -/
theorem Transformer.single_visits {t : Transformer σ} (ht : t.Appends) (hp : t.GoesOnInPlace)
    {root : Node} {store : Store} {T : Tree} {fp : Multiset Address}
    (hT : store.TreeShaped root T fp) (state : σ) :
    ∃ O, Outlines store [.node "" root] [O] fp ∧ ∀ depth, O.height ≤ depth →
      let out := t.run depth root store state
      out = t.run O.height root store state ∧
      (out.result = .error (.fault .tooDeep) →
        ∃ m, Occurs t depth (.visit .root root) ⟨store, state⟩ m ∧ m.Faults t) ∧
      (match out.result with
        | .ok _ => Spells [O] (callbacks out.trace)
        | .error _ => Spells.Begins [O] (callbacks out.trace)) ∧
      out.visited.Sublist O.preorder ∧ out.visited.length ≤ O.preorder.length := by
  obtain ⟨hu, hn⟩ := hT
  obtain ⟨os, ho⟩ := hu.exists_outlines
  obtain ⟨x, us, gp, -, -, rfl, rfl⟩ := ho.exists_of_node
  refine ⟨.node root us, ho, fun depth hdepth => ?_⟩
  intro out
  have heq : out = t.run (Outline.node root us).height root store state :=
    Transformer.run_eq_of_height_le ht hp ho hn (Nat.le_refl _) hdepth
  have hd : (Task.visit .root root).Suffices depth [.node root us] :=
    Outline.heightAll_cons_le_iff.mpr ⟨Nat.succ_le_succ hdepth, Nat.le_add_left 1 depth⟩
  obtain ⟨w, hw⟩ := t.exists_history depth root store state
  have hword : callbacks out.trace = spell w := by
    rw [hw.trace_eq, callbacks_start_append]
  have hvisited : Spells.Begins [.node root us] (spell w) →
      out.visited.Sublist (Outline.node root us).preorder := by
    intro hb
    have hs := hb.sublist_preorder
    rw [← hword, filterMap_given?_callbacks] at hs
    rw [Outline.preorderAll, Outline.preorderAll, List.append_nil] at hs
    exact hs
  rw [hword]
  rcases hres : out.result with err | r
  · have hs := (hw.aborts hres).singly ht hp ⟨_, ho⟩ hn hd
    have hsub := hvisited hs.word
    refine ⟨heq, fun herr => hs.cause ?_, hs.word, hsub, hsub.length_le⟩
    cases herr
    rfl
  · have hs := ((hw.completes hres).singly ht hp ⟨_, ho⟩ hn).2
    have hsub := hvisited hs.begins
    refine ⟨heq, ?_, hs, hsub, hsub.length_le⟩
    rintro ⟨⟩

/-! ### A block that comes to contain itself -/

/-- Goes on in place, with two exceptions: statement 2 is answered by the statements in the first
two cells, and statement 3 by a new block with the same two cells. -/
def pointBack : Transformer Unit where
  replace := fun n c =>
    if n = .stored (⟨2⟩ : Id .stmt) then .ok (.expandedBlock ⟨0, 2⟩, false) c
    else if n = .stored (⟨3⟩ : Id .stmt) then
      let id : Id .stmt := ⟨(c.store.table .stmt).size.toUInt32⟩
      .ok (.stored id, false) ⟨c.store.push .stmt (.block ⟨0, 2⟩) .none, ()⟩
    else .ok (n, true) c

theorem Store.extends_push (s : Store) (c : Category) (x : c.Payload) (span : Span) :
    s.Extends (s.push c x span) := by
  refine ⟨⟨fun d => ?_, fun p => Nat.le_refl _⟩, fun a ha => ?_⟩
  · by_cases h : d = c
    · subst h
      simp [push]
    · exact Nat.le_of_eq (congrArg Table.size (table_modifyTable_of_ne s h _).symm)
  · cases a with
    | cell p i => rfl
    | node d i =>
      by_cases h : d = c
      · subst h
        have hi : i < (s.table d).nodes.size := ha
        simp [SameAt, push, Table.push, Array.getElem?_push_lt, hi]
      · simp [SameAt, push, table_modifyTable_of_ne s h]

theorem pointBack_appends : pointBack.Appends where
  replace n c := by
    rw [TransformM.storeAfter, pointBack]
    dsimp only
    split_ifs
    · exact .refl _
    · exact c.store.extends_push .stmt (.block ⟨0, 2⟩) .none
    · exact .refl _
  leave c := .refl c.store

private theorem pointBack_goesOnInPlace : pointBack.GoesOnInPlace := by
  intro n a c c' h
  simp only [pointBack] at h
  split_ifs at h
  · cases h
  · cases h
  · cases h
    rfl

/-- The inner block gets a block that contains it, and the outer one two copies of the inner one:
no unfolding of the result is finite. Still there are four calls, one for each statement. -/
theorem single_visits_pointBack :
    let out := pointBack.run 9 (.stored (⟨0⟩ : Id .stmt)) hedge ()
    pointBack.Appends ∧ pointBack.GoesOnInPlace ∧
      out.store.table .stmt =
        .ofNodes #[.block ⟨3, 3⟩, .block ⟨2, 1⟩, .bad, .bad, .block ⟨0, 2⟩] ∧
      out.store.buffer .stmts = #[⟨1⟩, ⟨2⟩, ⟨4⟩, ⟨1⟩, ⟨1⟩, ⟨2⟩] ∧
      out.visited = [.stored (⟨0⟩ : Id .stmt), .stored (⟨1⟩ : Id .stmt), .stored (⟨3⟩ : Id .stmt),
        .stored (⟨2⟩ : Id .stmt)] ∧
      ∃ O T fp, hedge.TreeShaped (.stored (⟨0⟩ : Id .stmt)) T fp ∧
        Outlines hedge [.node "" (.stored (⟨0⟩ : Id .stmt))] [O] fp ∧
        ∀ depth, O.height ≤ depth →
          pointBack.run depth (.stored (⟨0⟩ : Id .stmt)) hedge () =
            pointBack.run O.height (.stored (⟨0⟩ : Id .stmt)) hedge () ∧
          (pointBack.run depth (.stored (⟨0⟩ : Id .stmt)) hedge ()).visited.Sublist O.preorder := by
  intro out
  obtain ⟨T, fp, hT⟩ := hedge_treeShaped
  obtain ⟨O, hO, hrun⟩ :=
    Transformer.single_visits pointBack_appends pointBack_goesOnInPlace hT ()
  refine ⟨pointBack_appends, pointBack_goesOnInPlace, by decide, by decide, by decide, O, T, fp, hT,
    hO, fun depth hdepth => ?_⟩
  obtain ⟨heq, -, -, hsub, -⟩ := hrun depth hdepth
  exact ⟨heq, hsub⟩

end GoTree
