import GoTree.Proofs.SteadyStores

/-!
# Splitting twice

A second run of the splitter finds nothing to split, even where nodes and lists are shared. The
traversal comes upon a shared node several times, each time after it has been rewritten, so there is
no tree to do an induction on. What can be said of a part at every moment is how far the traversal
goes down from it: it **spans** at most `h` levels, and it ends at simple statements
(`SlotPart.Spans`). A part is **still** if none of these is splittable.

Whatever a run does to a store, the number of levels that a part spans stays the same, and a part
that is still remains so (`Store.Evolves`). The two belong together: that no rewritten node turns up
below itself is a consequence of the first. The result of a completed run is still
(`Completes.settles`), and the splitter leaves a part that is still as it is
(`SlotPart.Still.rests`).
-/

namespace GoTree

/-! ### Levels -/

/-- The traversal goes down at most `h` levels from a part, and `P` holds of every simple statement
that it meets. Nothing below a simple statement is traversed. -/
inductive SlotPart.Spans (s : Store) (P : Node → Prop) : Nat → SlotPart → Prop where
  | simple {h : Nat} {l : String} {n : Node} (hn : s.IsSimple n) (hp : P n) :
      Spans s P h (.node l n)
  | node {h : Nat} {l : String} {n : Node} {x : n.kind.Body} (hn : ¬s.IsSimple n)
      (hx : n.body? s = some x) (hq : ∀ q ∈ (n.kind.bodySlots x).parts, Spans s P h q) :
      Spans s P (h + 1) (.node l n)
  | list {h : Nat} {l : String} {p : Pool} {seg : Segment p} {xs : List p.Item}
      (hx : s.Holds seg xs) (hq : ∀ x ∈ xs, Spans s P h (.item l p x)) :
      Spans s P h (.list l p seg)
  | stmt {h : Nat} {l : String} {id : Id .stmt} (hv : Spans s P h (.node l (.stored id))) :
      Spans s P h (.item l .stmts id)
  | item {h : Nat} {l : String} {p : Pool} {x : p.Item} (hp : p ≠ .stmts)
      (hq : ∀ q ∈ (p.slots l x).parts, Spans s P h q) : Spans s P (h + 1) (.item l p x)

/-- The traversal goes down at most `h` levels. -/
def SlotPart.Fits (s : Store) (h : Nat) (q : SlotPart) : Prop :=
  q.Spans s (fun _ => True) h

/-- The traversal goes down at most `h` levels and meets nothing to split. -/
def SlotPart.Still (s : Store) (h : Nat) (q : SlotPart) : Prop :=
  q.Spans s (fun n => ¬s.Splittable n) h

namespace SlotPart.Spans

variable {s : Store} {P P' : Node → Prop} {h h' d : Nat} {l : String} {n : Node} {p : Pool}
  {q : SlotPart}

theorem node_of_isSimple (hn : s.IsSimple n) : (SlotPart.node l n).Spans s P h ↔ P n := by
  constructor
  · intro hq
    cases hq with
    | simple _ hp => exact hp
    | node hn' => exact absurd hn hn'
  · exact .simple hn

theorem node_of_not_isSimple {x : n.kind.Body} (hn : ¬s.IsSimple n) (hx : n.body? s = some x) :
    (SlotPart.node l n).Spans s P h ↔
      ∃ e, h = e + 1 ∧ ∀ q ∈ (n.kind.bodySlots x).parts, q.Spans s P e := by
  constructor
  · intro hq
    cases hq with
    | simple hn' => exact absurd hn' hn
    | node _ hx' hq =>
      cases hx.symm.trans hx'
      exact ⟨_, rfl, hq⟩
  · rintro ⟨e, rfl, hq⟩
    exact .node hn hx hq

theorem list_of_holds {seg : Segment p} {xs : List p.Item} (hx : s.Holds seg xs) :
    (SlotPart.list l p seg).Spans s P h ↔ ∀ x ∈ xs, (SlotPart.item l p x).Spans s P h := by
  constructor
  · intro hq
    cases hq with
    | list hx' hq => rwa [hx.reads.unique hx'.reads (hx.length_eq.trans hx'.length_eq.symm)]
  · exact .list hx

theorem item_stmt {id : Id .stmt} :
    (SlotPart.item l .stmts id).Spans s P h ↔ (SlotPart.node l (.stored id)).Spans s P h := by
  constructor
  · intro hq
    cases hq with
    | stmt hv => exact hv
    | item hp => exact absurd rfl hp
  · exact .stmt

theorem item_of_ne {x : p.Item} (hp : p ≠ .stmts) : (SlotPart.item l p x).Spans s P h ↔
    ∃ e, h = e + 1 ∧ ∀ q ∈ (p.slots l x).parts, q.Spans s P e := by
  constructor
  · intro hq
    cases hq with
    | stmt => exact absurd rfl hp
    | item _ hq => exact ⟨_, rfl, hq⟩
  · rintro ⟨e, rfl, hq⟩
    exact .item hp hq

theorem imp (hq : q.Spans s P h) (hP : ∀ n, P n → P' n) : q.Spans s P' h := by
  induction hq with
  | simple hn hp => exact .simple hn (hP _ hp)
  | node hn hx _ ih => exact .node hn hx ih
  | list hx _ ih => exact .list hx ih
  | stmt _ ih => exact .stmt ih
  | item hp _ ih => exact .item hp ih

/-- Two spans of one part have the property of the one and the levels of the other. -/
private theorem trade (hq : q.Spans s P h) (hd : q.Spans s P' d) : q.Spans s P' h := by
  induction hq generalizing d with
  | simple hn _ => exact .simple hn ((node_of_isSimple hn).mp hd)
  | node hn hx _ ih =>
    obtain ⟨e, rfl, he⟩ := (node_of_not_isSimple hn hx).mp hd
    exact .node hn hx fun q hq => ih q hq (he q hq)
  | list hx _ ih => exact .list hx fun x hmem => ih x hmem ((list_of_holds hx).mp hd x hmem)
  | stmt _ ih => exact .stmt (ih (item_stmt.mp hd))
  | item hp _ ih =>
    obtain ⟨e, rfl, he⟩ := (item_of_ne hp).mp hd
    exact .item hp fun q hq => ih q hq (he q hq)

end SlotPart.Spans

private theorem SlotPart.Still.fits {s : Store} {h : Nat} {q : SlotPart} (hq : q.Still s h) :
    q.Fits s h :=
  hq.imp fun _ _ => trivial

/-! ### Evolution -/

/-- From `s` to `s'` every part goes down as many levels as before, and what was still is still. -/
structure Store.Evolves (s s' : Store) : Prop where
  steady : s.Steady s'
  fits : ∀ q : SlotPart, q.Resolves s → ∀ h, q.Fits s' h ↔ q.Fits s h
  still : ∀ q : SlotPart, q.Resolves s → ∀ h, q.Still s h → q.Still s' h

/-- In the store `s`, the parts `qs` can stand in the place of the parts `ps`. -/
structure Store.Exchanges (s : Store) (ps qs : List SlotPart) : Prop where
  resolves : ∀ q ∈ qs, q.Resolves s
  fits : ∀ h, (∀ q ∈ qs, q.Fits s h) ↔ ∀ p ∈ ps, p.Fits s h
  still : ∀ h, (∀ p ∈ ps, p.Still s h) → ∀ q ∈ qs, q.Still s h

namespace Store

variable {s s₁ s' : Store} {n : Node} {ps qs : List SlotPart}

theorem Exchanges.refl (h : ∀ q ∈ ps, q.Resolves s) : s.Exchanges ps ps :=
  ⟨h, fun _ => Iff.rfl, fun _ => id⟩

/-- It is enough that the new parts are still within some number of levels. -/
private theorem Exchanges.of_still (hr : ∀ q ∈ qs, q.Resolves s)
    (hf : ∀ h, (∀ q ∈ qs, q.Fits s h) ↔ ∀ p ∈ ps, p.Fits s h) {d : Nat}
    (hd : ∀ q ∈ qs, q.Still s d) : s.Exchanges ps qs := by
  refine ⟨hr, hf, fun h hps q hq => ?_⟩
  have hfits := (hf h).mpr fun p hp => (hps p hp).fits
  exact (hfits q hq).trade (hd q hq)

namespace Evolves

theorem trans (h : s.Evolves s₁) (h' : s₁.Evolves s') : s.Evolves s' where
  steady := h.steady.trans h'.steady
  fits q hq e := (h'.fits q (hq.mono h.steady.grows) e).trans (h.fits q hq e)
  still q hq e hs := h'.still q (hq.mono h.steady.grows) e (h.still q hq e hs)

end Evolves

/-! ### Exchanged bodies -/

/-- From `s` to `s'` a part goes down `h` levels if it did before, and is still if it was. -/
def Carries (s s' : Store) (h : Nat) (q : SlotPart) : Prop :=
  (q.Fits s' h ↔ q.Fits s h) ∧ (q.Still s h → q.Still s' h)

namespace Carries

variable {h : Nat} {l : String} {p : Pool}

private theorem node_of_isSimple (hs : s.Closed) (hst : s.Steady s') (hn : s.IsSimple n) :
    s.Carries s' h (.node l n) := by
  obtain ⟨x, hx⟩ := hn.body?
  have hn' := (hst.isSimple_iff hx).mpr hn
  simp only [Carries, SlotPart.Fits, SlotPart.Still, SlotPart.Spans.node_of_isSimple hn,
    SlotPart.Spans.node_of_isSimple hn', hst.splittable_iff hs hn, true_and, imp_self]

private theorem node_of_not_isSimple {x y : n.kind.Body} (hst : s.Steady s') (hn : ¬s.IsSimple n)
    (hx : n.body? s = some x) (hy : n.body? s' = some y)
    (hxy : s.Exchanges (n.kind.bodySlots x).parts (n.kind.bodySlots y).parts)
    (ih : ∀ e < h, ∀ q ∈ (n.kind.bodySlots y).parts, s.Carries s' e q) :
    s.Carries s' h (.node l n) := by
  have hn' := mt (hst.isSimple_iff hx).mp hn
  simp only [Carries, SlotPart.Fits, SlotPart.Still, SlotPart.Spans.node_of_not_isSimple hn hx,
    SlotPart.Spans.node_of_not_isSimple hn' hy]
  constructor
  · refine exists_congr fun e => and_congr_right fun he => ?_
    exact (forall₂_congr fun q hq => (ih e (by omega) q hq).1).trans (hxy.fits e)
  · rintro ⟨e, rfl, hparts⟩
    exact ⟨e, rfl, fun q hq => (ih e (by omega) q hq).2 (hxy.still e hparts q hq)⟩

private theorem item_of_ne {x : p.Item} (hp : p ≠ .stmts)
    (ih : ∀ e < h, ∀ q ∈ (p.slots l x).parts, s.Carries s' e q) :
    s.Carries s' h (.item l p x) := by
  simp only [Carries, SlotPart.Fits, SlotPart.Still, SlotPart.Spans.item_of_ne hp]
  constructor
  · refine exists_congr fun e => and_congr_right fun he => ?_
    exact forall₂_congr fun q hq => (ih e (by omega) q hq).1
  · rintro ⟨e, rfl, hparts⟩
    exact ⟨e, rfl, fun q hq => (ih e (by omega) q hq).2 (hparts q hq)⟩

private theorem list {seg : Segment p} {xs : List p.Item} (hst : s.Steady s') (hx : s.Holds seg xs)
    (hitem : ∀ x ∈ xs, s.Carries s' h (.item l p x)) : s.Carries s' h (.list l p seg) := by
  simp only [Carries, SlotPart.Fits, SlotPart.Still, SlotPart.Spans.list_of_holds hx,
    SlotPart.Spans.list_of_holds (hst.holds hx)]
  constructor
  · exact forall₂_congr fun x hmem => (hitem x hmem).1
  · exact fun hall x hmem => (hitem x hmem).2 (hall x hmem)

end Carries

/-- A store evolves if the bodies of its nodes are exchanged. -/
theorem Evolves.of_bodies (hs : s.Closed) (hst : s.Steady s')
    (hb : ∀ (n : Node) (x y : n.kind.Body), n.Resolves s → ¬s.IsSimple n → n.body? s = some x →
      n.body? s' = some y → s.Exchanges (n.kind.bodySlots x).parts (n.kind.bodySlots y).parts) :
    s.Evolves s' := by
  have key : ∀ h, ∀ q : SlotPart, q.Resolves s → s.Carries s' h q := by
    intro h
    -- from a node or an item to its parts there is one level less
    induction h using Nat.strongRecOn with
    | ind h ih =>
      have hnode : ∀ l n, n.Resolves s → s.Carries s' h (.node l n) := by
        intro l n hn
        by_cases hsimple : s.IsSimple n
        · exact .node_of_isSimple hs hst hsimple
        · obtain ⟨x, hx⟩ := hn.head
          obtain ⟨y, hy⟩ := n.exists_body?_of_grows hst.grows hx
          have hxy := hb n x y hn hsimple hx hy
          exact .node_of_not_isSimple hst hsimple hx hy hxy
            fun e he q hq => ih e he q (hxy.resolves q hq)
      have hitem : ∀ l p (x : p.Item), (∀ q ∈ (p.slots l x).parts, q.Resolves s) →
          s.Carries s' h (.item l p x) := by
        intro l p x hparts
        by_cases hp : p = .stmts
        · subst hp
          simp only [Carries, SlotPart.Fits, SlotPart.Still, SlotPart.Spans.item_stmt]
          exact hnode l (.stored x) (List.forall_mem_singleton.mp hparts).node
        · exact .item_of_ne hp fun e he q hq => ih e he q (hparts q hq)
      intro q hq
      cases q with
      | node l n => exact hnode l n hq.node
      | item l p x =>
        cases hq with
        | item hi => exact hitem l p x hi
      | list l p seg =>
        obtain ⟨xs, hlen, hxs⟩ := exists_reads hq.segment
        have hx : s.Holds seg xs := ⟨hq.segment, hlen, hxs⟩
        exact .list hst hx fun x hmem =>
          hitem l p x (SlotPart.Passes.relabel_item (hx.resolves hs x hmem) l)
  exact ⟨hst, fun q hq h => (key h q hq).1, fun q hq h => (key h q hq).2⟩

/-- A store to which something is added evolves. -/
theorem Extends.evolves (he : s.Extends s') (hs : s.Closed) : s.Evolves s' := by
  refine .of_bodies hs he.steady fun n x y hn _ hx hy => ?_
  have hsame : n.body? s' = n.body? s :=
    Node.body?_frame fun a ha => he.same a (Node.allocated_footprint hx a ha)
  obtain rfl : x = y := Option.some.inj (hx.symm.trans (hsame.symm.trans hy))
  exact .refl (hs.body hn hx)

end Store

/-! ### Settled parts -/

/-- From `s` to `s'` the parts `ps` were replaced by the parts `qs`, which are still and go down as
many levels. -/
structure Settles (s s' : Store) (d : Nat) (ps qs : List SlotPart) : Prop where
  resolves : ∀ q ∈ qs, q.Resolves s'
  still : ∀ q ∈ qs, q.Still s' d
  fits : (∀ p ∈ ps, p.Resolves s) → ∀ h, (∀ q ∈ qs, q.Fits s' h) ↔ ∀ p ∈ ps, p.Fits s h

namespace Settles

variable {s s₁ s' : Store} {d : Nat} {ps qs ps' qs' : List SlotPart}

theorem nil (s s' : Store) (d : Nat) : Settles s s' d [] [] :=
  ⟨List.forall_mem_nil _, List.forall_mem_nil _,
    fun _ _ => iff_of_true (List.forall_mem_nil _) (List.forall_mem_nil _)⟩

theorem append (h : Settles s s' d ps qs) (h' : Settles s s' d ps' qs') :
    Settles s s' d (ps ++ ps') (qs ++ qs') where
  resolves := List.forall_mem_append.mpr ⟨h.resolves, h'.resolves⟩
  still := List.forall_mem_append.mpr ⟨h.still, h'.still⟩
  fits hr e := by
    obtain ⟨hr, hr'⟩ := List.forall_mem_append.mp hr
    rw [List.forall_mem_append, List.forall_mem_append, h.fits hr e, h'.fits hr' e]

/-- What is settled stays so. -/
theorem later (h : Settles s s₁ d ps qs) (he : s₁.Evolves s') : Settles s s' d ps qs where
  resolves q hq := (h.resolves q hq).mono he.steady.grows
  still q hq := he.still q (h.resolves q hq) d (h.still q hq)
  fits hr e := (forall₂_congr fun q hq => he.fits q (h.resolves q hq) e).trans (h.fits hr e)

/-- What waits while something else is done. -/
private theorem earlier (he : s.Evolves s₁) (h : Settles s₁ s' d ps qs) : Settles s s' d ps qs where
  resolves := h.resolves
  still := h.still
  fits hr e := (h.fits (SlotPart.Resolves.mono_all hr he.steady.grows) e).trans
    (forall₂_congr fun p hp => he.fits p (hr p hp) e)

end Settles

section Nodes

variable {s s₁ s₂ : Store} {n r : Node} {x y : n.kind.Body} {qs : List SlotPart} {d : Nat}
  {l : String}

/-- Simple statements that are not splittable stand in the place of a simple statement. -/
private theorem Settles.of_isSimple {ids : List (Id .stmt)} (hn : s.IsSimple n)
    (hids : ∀ id ∈ ids, s₁.IsSimple (.stored id) ∧ ¬s₁.Splittable (.stored id)) :
    Settles s s₁ d [.node l n] (ids.map (.item l .stmts)) := by
  refine ⟨?_, ?_, fun _ h => iff_of_true ?_ ?_⟩
  · refine List.forall_mem_map.mpr fun id hid => .item (List.forall_mem_singleton.mpr ?_)
    exact (hids id hid).1.resolves.part
  · exact List.forall_mem_map.mpr fun id hid => .stmt (.simple (hids id hid).1 (hids id hid).2)
  · exact List.forall_mem_map.mpr fun id hid => .stmt (.simple (hids id hid).1 trivial)
  · exact List.forall_mem_singleton.mpr (.simple hn trivial)

/-- A statement is an item of a statement list. -/
private theorem Settles.stmt {id : Id .stmt} (h : Settles s s₁ d [.node l (.stored id)] qs) :
    Settles s s₁ d [.item l .stmts id] qs := by
  refine ⟨h.resolves, h.still, fun hr e => ?_⟩
  have hr' : (SlotPart.node l (.stored id)).Resolves s := by
    cases List.forall_mem_singleton.mp hr with
    | item hi => exact List.forall_mem_singleton.mp hi
  have hf := h.fits (List.forall_mem_singleton.mpr hr') e
  simp only [List.forall_mem_singleton, SlotPart.Fits, SlotPart.Spans.item_stmt] at hf ⊢
  exact hf

private theorem Settles.of_stmt {ps : List SlotPart} {id : Id .stmt}
    (h : Settles s s₁ d ps [.node l (.stored id)]) : Settles s s₁ d ps [.item l .stmts id] := by
  refine ⟨List.forall_mem_singleton.mpr (.item h.resolves),
    List.forall_mem_singleton.mpr (.stmt (List.forall_mem_singleton.mp h.still)), fun hr e => ?_⟩
  have hf := h.fits hr e
  simp only [List.forall_mem_singleton, SlotPart.Fits, SlotPart.Spans.item_stmt] at hf ⊢
  exact hf

/-- A node that is closed has the body that it was closed with. -/
theorem Node.exists_body?_of_close (hc : n.close y s = .ok r s₁) :
    ∃ z, r.body? s₁ = some z ∧ (r.kind.bodySlots z).parts = (n.kind.bodySlots y).parts ∧
      Label.node r.kind (r.kind.bodySlots z).blank = .node n.kind (n.kind.bodySlots y).blank := by
  obtain ⟨k, v⟩ := n
  cases k with
  | stored c =>
    rw [close_stored] at hc
    split_ifs at hc with ha
    cases hc
    exact ⟨y, Store.get?_put_self ha y, rfl, rfl⟩
  | _ =>
    cases hc
    exact ⟨y, rfl, rfl, rfl⟩

private theorem Node.not_isSimple_of_close (hn : ¬s.IsSimple n) (hx : n.body? s = some x)
    (hst : s.Steady s₁) (hc : n.close y s = .ok r s₁) : ¬s₁.IsSimple r := by
  obtain ⟨k, v⟩ := n
  cases k with
  | stored c =>
    rw [close_stored] at hc
    split_ifs at hc
    cases hc
    exact mt (hst.isSimple_iff hx).mp hn
  | _ =>
    cases hc
    rintro ⟨id, simple, heq, -⟩
    cases heq

private theorem Node.eq_stored_of_mem_footprint {c : Category} {id : Id c}
    (h : .node c id.index ∈ n.footprint) : n = .stored id := by
  obtain ⟨k, v⟩ := n
  cases k with
  | stored b =>
    injection Multiset.mem_singleton.mp h with hc hi
    subst hc
    rw [Id.index_injective hi]
  | _ => exact absurd h (Multiset.notMem_zero _)

/-- A node that is closed is exchanged for itself: its body was read in `s`, and its parts were
settled since. -/
private theorem Node.evolves_close (hs : s.Closed) (hn : ¬s.IsSimple n) (hx : n.body? s = some x)
    (he : s.Evolves s₁) (hs₁ : s₁.Closed) (hq : Settles s s₁ d (n.kind.bodySlots x).parts qs)
    (hy : (n.kind.bodySlots x).Refills qs y) (hst : s₁.Steady s₂)
    (hc : n.close y s₁ = .ok r s₂) : s₁.Evolves s₂ := by
  obtain ⟨k, v⟩ := n
  cases k with
  | stored c =>
    obtain ⟨ha, rfl⟩ := close_stored_eq_ok hc
    have hres : (Node.stored v).Resolves s := Node.resolves_stored (Store.allocated_of_get? hx)
    refine .of_bodies hs₁ hst fun m x' y' hm hsimple hx' hy' => ?_
    by_cases hm' : m = .stored v
    · subst hm'
      cases (Store.get?_put_self ha y).symm.trans hy'
      rw [(Kind.lawful _).parts_eq hy]
      refine .of_still hq.resolves (fun h => ?_) hq.still
      -- the node as it stands in `s₁` goes down as far as it did in `s`
      have hnode := he.fits (.node "" (.stored v)) hres.part (h + 1)
      simp only [SlotPart.Fits, SlotPart.Spans.node_of_not_isSimple hsimple hx',
        SlotPart.Spans.node_of_not_isSimple hn hx, Nat.add_right_cancel_iff,
        exists_eq_left'] at hnode
      exact (hq.fits (hs.body hres hx) h).trans hnode.symm
    · have hsame : m.body? (s₁.put v y) = m.body? s₁ := Node.body?_frame fun a ha' =>
        Store.sameAt_put fun heq => hm' (Node.eq_stored_of_mem_footprint (heq ▸ ha'))
      cases hx'.symm.trans (hsame.symm.trans hy')
      exact .refl (hs₁.body hm hx')
  | _ =>
    cases hc
    exact (Store.Extends.refl s₁).evolves hs₁

theorem Settles.close (hn : ¬s.IsSimple n) (hx : n.body? s = some x) (hs : s.Closed)
    (hq : Settles s s₁ d (n.kind.bodySlots x).parts qs) (he : s₁.Evolves s₂)
    (hres : r.Resolves s₂) (hsimple : ¬s₂.IsSimple r) {z : r.kind.Body}
    (hz : r.body? s₂ = some z) (hparts : (r.kind.bodySlots z).parts = qs) :
    Settles s s₂ (d + 1) [.node l n] [.node l r] := by
  have hq' := hq.later he
  rw [← hparts] at hq'
  refine ⟨List.forall_mem_singleton.mpr hres.part, List.forall_mem_singleton.mpr ?_,
    fun hr h => ?_⟩
  · exact .node hsimple hz hq'.still
  · have hn' := (List.forall_mem_singleton.mp hr).node
    rw [List.forall_mem_singleton, List.forall_mem_singleton, SlotPart.Fits, SlotPart.Fits,
      SlotPart.Spans.node_of_not_isSimple hn hx, SlotPart.Spans.node_of_not_isSimple hsimple hz]
    exact exists_congr fun e => and_congr_right fun _ => hq'.fits (hs.body hn' hx) e

end Nodes

/-! ### Along the rules -/

/-- What a task yields is settled. -/
def Task.Settles (s s' : Store) (d : Nat) : (k : Task) → k.Result → Prop
  | visit _ n, r =>
    (r.kind = n.kind ∧ ∀ l, GoTree.Settles s s' d [.node l n] [.node l r]) ∨
      ∃ seg ids, s.Splittable n ∧ r = .expandedBlock ⟨seg⟩ ∧ s'.Holds seg ids ∧
        ∀ l e, GoTree.Settles s s' e [.node l n] (ids.map (.item l .stmts))
  | parts ps, qs => GoTree.Settles s s' (d - 1) ps qs
  | items l p seg n i, _ => ∀ xs, s.Reads p (seg.start.toNat + i) xs → xs.length = n →
      p ≠ .stmts → ∀ x ∈ xs, (SlotPart.item l p x).Still s' d
  | stmts l seg n i out, res => ∀ zs xs, Stands s seg i out zs →
      s.Reads .stmts (seg.start.toNat + i) xs → xs.length = n →
      ∃ ys, Stands s' seg (i + n) res (zs ++ ys) ∧
        GoTree.Settles s s' d (xs.map (.item l .stmts)) (ys.map (.item l .stmts))

section Rules

variable {d : Nat} {c c₁ c' : Context Unit}

/-- An answer that is not descended into. -/
private theorem settles_stay {o : Origin} {n a : Node}
    (hr : splitter.replace n c = .ok (a, false) c')
    (hc : c'.store.Counted) (hs : c.store.Closed) : c'.store.Closed ∧
      c.store.Evolves c'.store ∧ (Task.visit o n).Settles c.store c'.store d a := by
  rcases splitter_cases hr hc with ⟨-, -, ⟨⟩, -⟩ | ⟨hn, hp, rfl, -, rfl⟩ |
    ⟨id, ids, seg, rfl, rfl, -, hsplit⟩
  · refine ⟨hs, (Store.Extends.refl _).evolves hs, .inl ⟨rfl, fun l => ?_⟩⟩
    refine ⟨?_, ?_, fun _ _ => Iff.rfl⟩
    · exact List.forall_mem_singleton.mpr hn.resolves.part
    · exact List.forall_mem_singleton.mpr (.simple hn hp)
  · obtain ⟨xs, -, hadds⟩ := hsplit.decls
    refine ⟨hsplit.closed hs, hsplit.adds.evolves hs, .inr ⟨seg, ids, hsplit.splittable, rfl,
      hsplit.holds, fun l e => .of_isSimple hsplit.splittable.isSimple fun id hid => ?_⟩⟩
    obtain ⟨x, hx⟩ := hadds.exists_declares id hid
    exact ⟨hx.isSimple, hx.not_splittable⟩

theorem Store.Holds.items_eq {s : Store} {p : Pool} {seg : Segment p} {xs : List p.Item}
    (h : s.Holds seg xs) (hm : s.Small) : s.items seg = .ok xs.toArray := by
  rw [hm.items_eq h.stop_le, ← h.reads.extract_eq, h.length_eq]
  rfl

theorem Stands.steady {s s' : Store} {seg : Segment .stmts} {i : Nat}
    {out : Option (Array (Id .stmt))} {zs : List (Id .stmt)} (h : Stands s seg i out zs)
    (hst : s.Steady s') : Stands s' seg i out zs := by
  cases h with
  | inPlace hl hr => exact .inPlace hl (hst.reads hr)
  | aside => exact .aside zs

private theorem Stands.collectedResolves {s : Store} {seg : Segment .stmts} {i : Nat} {l : String}
    {out : Option (Array (Id .stmt))} {zs : List (Id .stmt)} (h : Stands s seg i out zs)
    (hz : ∀ z ∈ zs, (SlotPart.item l .stmts z).Resolves s) : CollectedResolves s out := by
  cases h with
  | inPlace => exact .none
  | aside =>
    refine .some fun z hmem => Store.itemResolves_stmt.mpr ?_
    cases hz z (by simpa using hmem) with
    | item hi => exact SlotPart.Resolves.node (List.forall_mem_singleton.mp hi)

/-- The contents of a statement list that stand when it is settled are those of its handle. -/
theorem Stands.holds_of_settle {s s' : Store} {seg seg' : Segment .stmts}
    {out : Option (Array (Id .stmt))} {zs : List (Id .stmt)} (h : Stands s seg seg.length out zs)
    (hb : seg.stop ≤ (s.buffer .stmts).size) (hc : seg.settle out s = .ok seg' s') :
    s'.Holds seg' zs := by
  cases h with
  | inPlace hl hr =>
    cases hc
    exact ⟨hb, hl, hr⟩
  | aside => exact StoreM.holds_of_list hc

/-- **The result of splitting is still.** -/
theorem Completes.settles {k : Task} {w : List Mark} {r : k.Result}
    (h : Completes splitter d k c w r c') (hc : c'.store.Counted) (hs : c.store.Closed) :
    c'.store.Closed ∧ c.store.Evolves c'.store ∧ k.Settles c.store c'.store d r := by
  induction h with
  | stay hr => exact settles_stay hr hc hs
  | @down d o n a r x y c c₁ c₂ c₃ s w ps hr hx hw hy hclose hl ih =>
    obtain ⟨hn, rfl, rfl⟩ := splitter_goesOn hr
    cases hl
    obtain ⟨hst, hplain⟩ := hw.steady
    obtain ⟨hst', -⟩ := Node.steady_close hn hx hst hy hplain hclose
    obtain ⟨hs₂, he, hq⟩ := ih (hc.of_grows hst'.grows) hs
    obtain ⟨e, rfl⟩ := Nat.exists_eq_add_one.mpr hw.depth_pos
    have he' := Node.evolves_close hs hn hx he hs₂ hq hy hst' hclose
    obtain ⟨hs₃, hres⟩ := Node.closed_close hs hx hst.grows hs₂ hq.resolves hy hclose
    obtain ⟨x₂, hx₂⟩ := a.exists_body?_of_grows hst.grows hx
    have hsimple := Node.not_isSimple_of_close (mt (hst.isSimple_iff hx).mp hn) hx₂ hst' hclose
    obtain ⟨z, hz, hparts, -⟩ := Node.exists_body?_of_close hclose
    rw [(Kind.lawful _).parts_eq hy] at hparts
    refine ⟨hs₃, he.trans he', .inl ⟨Node.kind_of_close hclose, fun l => ?_⟩⟩
    exact hq.close hn hx hs he' hres hsimple hz hparts
  | nil => exact ⟨hs, (Store.Extends.refl _).evolves hs, .nil _ _ _⟩
  | node hv hk hw ihv ihw =>
    obtain ⟨hs₁, he₁, hr⟩ := ihv (hc.of_grows hw.steady.1.grows) hs
    obtain ⟨hs₂, he₂, hqs⟩ := ihw hc hs₁
    refine ⟨hs₂, he₁.trans he₂, ?_⟩
    rcases hr with ⟨-, hr⟩ | ⟨seg, ids, ⟨id, -, -, rfl, -⟩, rfl, -⟩
    · exact ((hr _).later he₂).append (hqs.earlier he₁)
    · cases hk
  | @list d l p seg ps qs c c₁ c₂ u w hp hb hi hw ihi ihw =>
    obtain ⟨hs₁, he₁, hitems⟩ := ihi (hc.of_grows hw.steady.1.grows) hs
    obtain ⟨hs₂, he₂, hqs⟩ := ihw hc hs₁
    obtain ⟨xs, hlen, hxs⟩ := Store.exists_reads hb
    have hx : c.store.Holds seg xs := ⟨hb, hlen, hxs⟩
    have hlist : GoTree.Settles c.store c₁.store d [.list l p seg] [.list l p seg] := by
      have hres : (SlotPart.list l p seg).Resolves c.store := .list hb
      refine ⟨?_, ?_, fun _ h => ?_⟩
      · exact List.forall_mem_singleton.mpr (hres.mono he₁.steady.grows)
      · exact List.forall_mem_singleton.mpr (.list (he₁.steady.holds hx) (hitems xs hxs hlen hp))
      · rw [List.forall_mem_singleton, List.forall_mem_singleton]
        exact he₁.fits _ hres h
    exact ⟨hs₂, he₁.trans he₂, (hlist.later he₂).append (hqs.earlier he₁)⟩
  | @stmts d l seg seg' ps qs c c₁ c₂ s u w out hb hi hsettle hw ihi ihw =>
    have hext := Segment.extends_settle hsettle
    have hg := hext.grows.trans hw.steady.1.grows
    obtain ⟨hs₁, he₁, hstmts⟩ := ihi (hc.of_grows hg) hs
    obtain ⟨xs, hlen, hxs⟩ := Store.exists_reads hb
    have hx : c.store.Holds seg xs := ⟨hb, hlen, hxs⟩
    obtain ⟨ys, hz, hys⟩ := hstmts [] xs (.inPlace rfl trivial) hxs hlen
    rw [List.nil_append, Nat.zero_add] at hz
    have hb₁ := Nat.le_trans hb (he₁.steady.grows.buffer .stmts)
    have hy := hz.holds_of_settle hb₁ hsettle
    have hys' := hys.later (hext.evolves hs₁)
    have hlist : GoTree.Settles c.store s d [.list l .stmts seg] [.list l .stmts seg'] := by
      refine ⟨List.forall_mem_singleton.mpr (.list hy.stop_le), ?_, fun _ h => ?_⟩
      · exact List.forall_mem_singleton.mpr (.list hy (List.forall_mem_map.mp hys'.still))
      · have hres : ∀ p ∈ xs.map (SlotPart.item l .stmts), p.Resolves c.store :=
          List.forall_mem_map.mpr fun x hmem =>
            .item (SlotPart.Passes.relabel_item (hx.resolves hs x hmem) l)
        rw [List.forall_mem_singleton, List.forall_mem_singleton, SlotPart.Fits, SlotPart.Fits,
          SlotPart.Spans.list_of_holds hx, SlotPart.Spans.list_of_holds hy]
        exact List.forall_mem_map.symm.trans ((hys'.fits hres h).trans List.forall_mem_map)
    have hout := hz.collectedResolves fun y hy => hys.resolves _ (List.mem_map_of_mem hy)
    obtain ⟨hs', -⟩ := Segment.closed_settle hsettle hs₁ hout hb₁
    obtain ⟨hs₂, he₂, hqs⟩ := ihw hc hs'
    have he := he₁.trans (hext.evolves hs₁)
    exact ⟨hs₂, he.trans he₂, (hlist.later he₂).append (hqs.earlier he)⟩
  | itemsDone =>
    refine ⟨hs, (Store.Extends.refl _).evolves hs, fun xs _ hlen _ => ?_⟩
    obtain rfl := List.eq_nil_of_length_eq_zero hlen
    exact List.forall_mem_nil _
  | itemsNext hx hv hy hset hw ihv ihw =>
    obtain ⟨hst, hplain⟩ := hv.steady
    obtain ⟨rfl, rfl, rfl⟩ := StoreM.eq_of_setItem hx hst hplain hy hset
    obtain ⟨hs₁, he₁, hq⟩ := ihv (hc.of_grows hw.steady.1.grows) hs
    obtain ⟨hs₂, he₂, hitems⟩ := ihw hc hs₁
    refine ⟨hs₂, he₁.trans he₂, fun xs hxs hlen hp => ?_⟩
    obtain _ | ⟨x', xs⟩ := xs
    · cases hlen
    cases (Store.getElem?_of_item hx).symm.trans hxs.1
    obtain ⟨e, rfl⟩ := Nat.exists_eq_add_one.mpr hv.depth_pos
    refine List.forall_mem_cons.mpr ⟨.item hp (hq.later he₂).still, ?_⟩
    exact hitems xs (hst.reads hxs.2) (Nat.succ.inj hlen) hp
  | stmtsDone =>
    refine ⟨hs, (Store.Extends.refl _).evolves hs, fun zs xs hz _ hlen => ⟨[], ?_, ?_⟩⟩
    · simpa using hz
    · obtain rfl := List.eq_nil_of_length_eq_zero hlen
      exact .nil _ _ _
  | @stmtsNext d l seg n i x r out out' res c c₁ c₂ s u v w hx hv ht hw ihv ihw =>
    obtain ⟨hst, hplain⟩ := hv.steady
    obtain rfl := ht.store_eq hx hst hplain
    have hc₁ := hc.of_grows hw.steady.1.grows
    obtain ⟨hs₁, he₁, hr⟩ := ihv hc₁ hs
    obtain ⟨hs₂, he₂, hrest⟩ := ihw hc hs₁
    refine ⟨hs₂, he₁.trans he₂, fun zs xs hz hxs hlen => ?_⟩
    obtain _ | ⟨x', xs⟩ := xs
    · cases hlen
    cases (Store.getElem?_of_item hx).symm.trans hxs.1
    have hz₁ := hz.steady hst
    -- the contents of the answer
    obtain ⟨ids, hids, hstands⟩ : ∃ ids : List (Id .stmt),
        GoTree.Settles c.store c₁.store d [.item l .stmts x] (ids.map (.item l .stmts)) ∧
          Stands c₁.store seg (i + 1) out' (zs ++ ids) := by
      rcases hr with ⟨hk, hr⟩ | ⟨seg', ids, -, rfl, hholds, hr⟩
      · cases hplain nofun nofun hk
        exact ⟨[x], (hr l).stmt.of_stmt, ht.stands_stored hz₁⟩
      · have hi := Nat.le_of_lt (Store.lt_length_of_item hx)
        exact ⟨ids, (hr l d).stmt, ht.stands_block hz₁ hi (hholds.items_eq hc₁.buffers)⟩
    obtain ⟨ys, hys, hrest⟩ := hrest (zs ++ ids) xs hstands (hst.reads hxs.2) (Nat.succ.inj hlen)
    refine ⟨ids ++ ys, ?_, ?_⟩
    · rwa [← List.append_assoc, show i + (n + 1) = i + 1 + n by omega]
    · rw [List.map_append]
      exact (hids.later he₂).append (hrest.earlier he₁)

end Rules

/-! ### The second run -/

section SecondRun

variable {s : Store} {d : Nat}

/-- The splitter goes through a part within depth `d`, and nothing changes. An item of a statement
list is visited by itself. -/
def SlotPart.Rests (s : Store) (d : Nat) : SlotPart → Prop
  | .node _ n => ∀ o, ∃ w, Completes splitter d (.visit o n) ⟨s, ()⟩ w n ⟨s, ()⟩
  | .list l p seg => ∃ w, Completes splitter (d + 1) (.parts [.list l p seg]) ⟨s, ()⟩ w
      [.list l p seg] ⟨s, ()⟩
  | .item l p x =>
    (p ≠ .stmts → ∃ w, Completes splitter d (.parts (p.slots l x).parts) ⟨s, ()⟩ w
      (p.slots l x).parts ⟨s, ()⟩) ∧
    ∀ id : Id .stmt, SlotPart.item l p x = .item l .stmts id → ∀ o, ∃ w,
      Completes splitter d (.visit o (.stored id)) ⟨s, ()⟩ w (.stored id) ⟨s, ()⟩

private theorem completes_of_rests {α : Type} {x : Slots α} (h : ∀ q ∈ x.parts, q.Rests s d) :
    ∃ w, Completes splitter (d + 1) (.parts x.parts) ⟨s, ()⟩ w x.parts ⟨s, ()⟩ := by
  refine completes_parts fun q hq => ?_
  have hslot := Slots.isSlot_of_mem_parts hq
  have hr := h q hq
  cases q with
  | node l n =>
    obtain ⟨u, hu⟩ := hr (.slot l)
    exact ⟨u ++ [], .node hu rfl .nil⟩
  | list => exact hr
  | item => exact absurd hslot id

/-- The splitter leaves alone what is still. -/
theorem SlotPart.Still.rests {q : SlotPart} (h : q.Still s d) (hs : s.Closed) (hm : s.Small) :
    q.Rests s d := by
  induction h with
  | simple hn hp => exact fun o => ⟨_, .stay (splitter_replace_of_isSimple hs hn hp)⟩
  | node hn hx _ ih =>
    obtain ⟨w, hw⟩ := completes_of_rests ih
    exact completes_visit (splitter_replace_of_not_isSimple hn hx) rfl hx hw
  | @list h l p seg xs hx _ ih =>
    by_cases hp : p = .stmts
    · subst hp
      obtain ⟨w, hw⟩ := completes_stmts hm hx.stop_le (Nat.zero_add _) hx.length_eq hx.reads
        fun x hmem => (ih x hmem).2 x rfl (.item l)
      exact ⟨w ++ [], .stmts hx.stop_le hw rfl .nil⟩
    · obtain ⟨w, hw⟩ := completes_items hm hx.stop_le (Nat.zero_add _) hx.length_eq hx.reads
        fun x hmem => (ih x hmem).1 hp
      exact ⟨w ++ [], .list hp hx.stop_le hw .nil⟩
  | stmt _ ih =>
    refine ⟨fun hp => absurd rfl hp, ?_⟩
    rintro id ⟨⟩
    exact ih
  | item hp _ ih =>
    refine ⟨fun _ => completes_of_rests ih, ?_⟩
    rintro id ⟨⟩
    exact absurd rfl hp

/-- **Splitting is idempotent.** The result of a run, be it a node of the tree or the declarations
that the root was split into, is what the next run finds and leaves. -/
theorem Completes.run_again {o : Origin} {root r : Node} {c c' : Context Unit} {w : List Mark}
    (h : Completes splitter d (.visit o root) c w r c') (hc : c'.store.Counted)
    (hs : c.store.Closed) {depth : Nat} (hd : d ≤ depth) (hpos : 0 < depth) :
    (splitter.run depth r c'.store ()).result = .ok r ∧
      (splitter.run depth r c'.store ()).store = c'.store := by
  obtain ⟨hs', -, hr⟩ := h.settles hc hs
  obtain ⟨e, he, hstill⟩ : ∃ e ≤ depth, (SlotPart.node "" r).Still c'.store e := by
    rcases hr with ⟨-, hr⟩ | ⟨seg, ids, -, rfl, hholds, hr⟩
    · exact ⟨d, hd, List.forall_mem_singleton.mp (hr "").still⟩
    · have hitems := List.forall_mem_map.mp (hr "Block.stmts" 0).still
      have hblock : ¬c'.store.IsSimple (.expandedBlock ⟨seg⟩) := by
        rintro ⟨id, simple, ⟨⟩, -⟩
      refine ⟨1, hpos, .node (x := (⟨seg⟩ : Block)) hblock rfl ?_⟩
      exact List.forall_mem_singleton.mpr (.list hholds hitems)
  obtain ⟨w', hw'⟩ := (hstill.rests hs' hc.buffers) .root
  rw [(hw'.mono he).run_eq]
  exact ⟨rfl, rfl⟩

end SecondRun

end GoTree
