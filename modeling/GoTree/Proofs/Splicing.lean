import GoTree.Proofs.Edits
import GoTree.Proofs.StableHandles

/-!
# Splicing

The loop over a statement list keeps the new contents in one of two places: in the cells of the list
as long as every answer was a statement, and on the side from the first expanded block on. This
module says what the two come to: the list that stands afterwards is one flat map over the visits.

`Transformer.stmtVisits` lists the visits that the loop makes, with the traversal before and after
each of them, and `StmtVisit.contents` is what a visit contributes: the statement that it resulted
in, or the statements of the expanded block as they stand when it ends. `splice_law` assumes of the
visits only that they leave the cells of the list alone; they may append to the buffer, splice lists
of their own and change anything else.

The loop is taken apart once, into the rules of `StmtLoop`, and every part of the law is an
induction over these rules.
-/

namespace GoTree

open Transformer

variable {σ : Type}

/-! ### Visits -/

/-- A visit to an item of a statement list. -/
structure StmtVisit (σ : Type) where
  given : Id .stmt
  before : WalkState σ
  result : Node
  after : WalkState σ

namespace StmtVisit

/-- The visit resulted in an expanded block. -/
def expands (v : StmtVisit σ) : Bool :=
  v.result.kind = .expandedBlock

/-- What stands in the place of the item: one statement, or the contents of the expanded block at
the end of the visit. -/
def contents (v : StmtVisit σ) : List (Id .stmt) :=
  match v.result with
  | ⟨.stored .stmt, id⟩ => [id]
  | ⟨.expandedBlock, b⟩ =>
    ((v.after.context.store.buffer .stmts).extract b.stmts.start.toNat b.stmts.stop).toList
  | _ => []

/-- What the loop records when it takes the result of item `i`. -/
def events (v : StmtVisit σ) (slot : String) (i : Nat) : Array Event :=
  if v.expands then #[.splice slot i v.contents.length] else #[]

/-- The visit leaves the cells of a list alone. -/
def Keeps (v : StmtVisit σ) (seg : Segment .stmts) : Prop :=
  ∀ a ∈ seg.footprint, v.before.context.store.SameAt v.after.context.store a

end StmtVisit

/-- What the loop over a list does by itself between two visits: it adds events and changes nothing
but cells of the list; nothing is pushed. -/
structure Passes (seg : Segment .stmts) (es : Array Event) (w w' : WalkState σ) : Prop where
  trace : w'.trace = w.trace ++ es
  state : w'.context.state = w.context.state
  changes : w.context.store.ChangesOnly seg.footprint w'.context.store
  sizes : w.context.store.SameSizes w'.context.store

/-- Visits to the items from `i` on follow one another, from `w` to `w'`, and the loop does nothing
in between but take their results, with one event for each expansion. -/
def Linked (slot : String) (seg : Segment .stmts) : Nat → WalkState σ → List (StmtVisit σ) →
    WalkState σ → Prop
  | _, w, [], w' => w' = w
  | i, w, v :: vs, w' => v.before = w ∧
      ∃ w₁, Passes seg (v.events slot i) v.after w₁ ∧ Linked slot seg (i + 1) w₁ vs w'

section Loop

variable (t : Transformer σ) (walk : {α : Type} → Slots α → Walk σ α) (slot : String)
  (seg : Segment .stmts)

/-- The visits of the loop over a statement list, up to the first step that fails. -/
def Transformer.stmtVisits : (n i : Nat) → Option (Array (Id .stmt)) → WalkState σ →
    List (StmtVisit σ)
  | 0, _, _, _ => []
  | n + 1, i, out, w =>
    match (Walk.onStore (StoreM.item seg i) : Walk σ (Id .stmt)) w with
    | .error _ _ => []
    | .ok x w =>
      match t.visit walk (.stored x) w with
      | .error _ _ => []
      | .ok r w₁ => ⟨x, w, r, w₁⟩ ::
        match (spliceAnswer slot seg i out r : Walk σ _) w₁ with
        | .error _ _ => []
        | .ok out' w₂ => stmtVisits n (i + 1) out' w₂

/-- The loop over `n` items of a statement list from item `i` on, with its visits: it starts with
the contents `out` and ends with `res`. -/
inductive StmtLoop : Nat → Nat → Option (Array (Id .stmt)) → WalkState σ → List (StmtVisit σ) →
    Option (Array (Id .stmt)) → WalkState σ → Prop where
  | done {i : Nat} {out : Option (Array (Id .stmt))} {w : WalkState σ} :
      StmtLoop 0 i out w [] out w
  | next {n i : Nat} {x : Id .stmt} {r : Node} {out out' res : Option (Array (Id .stmt))}
      {w w₁ w' : WalkState σ} {s : Store} {u : List Mark} {vs : List (StmtVisit σ)}
      (hx : w.context.store.item seg i = .ok x) (hv : t.visit walk (.stored x) w = .ok r w₁)
      (ht : Takes slot seg i w₁.context.store out r u out' s)
      (hl : StmtLoop n (i + 1) out' ⟨⟨s, w₁.context.state⟩, w₁.trace ++ traceOf u⟩ vs res w') :
      StmtLoop (n + 1) i out w (⟨x, w, r, w₁⟩ :: vs) res w'

end Loop

section Inversion

variable {α β : Type} {t : Transformer σ} {walk : {α : Type} → Slots α → Walk σ α} {slot : String}
  {seg : Segment .stmts} {n i : Nat} {out res : Option (Array (Id .stmt))} {w w' : WalkState σ}

/-- A computation that returns goes through its first step. -/
theorem bind_eq_ok {ε τ : Type} {x : EStateM ε τ α} {f : α → EStateM ε τ β} {b : β} {q q' : τ}
    (h : (x >>= f) q = .ok b q') : ∃ a q₁, x q = .ok a q₁ ∧ f a q₁ = .ok b q' := by
  change EStateM.bind x f q = _ at h
  unfold EStateM.bind at h
  split at h
  · next a q₁ hx => exact ⟨a, q₁, hx, h⟩
  · cases h

theorem Walk.onStore_eq_ok {x : StoreM α} {a : α} (h : (Walk.onStore x : Walk σ α) w = .ok a w') :
    ∃ s, x w.context.store = .ok a s ∧ w' = ⟨⟨s, w.context.state⟩, w.trace⟩ := by
  obtain ⟨⟨store, state⟩, trace⟩ := w
  rcases hx : x store with ⟨a', s⟩ | ⟨e, s⟩ <;>
    simp only [Walk.onStore, Walk.lift, TransformM.onStore, hx] at h <;> cases h
  exact ⟨s, rfl, rfl⟩

/-- Reading an item leaves the traversal as it is. -/
theorem Walk.item_eq_ok {x : Id .stmt}
    (h : (Walk.onStore (StoreM.item seg i) : Walk σ (Id .stmt)) w = .ok x w') :
    w.context.store.item seg i = .ok x ∧ w' = w := by
  obtain ⟨s, hx, rfl⟩ := Walk.onStore_eq_ok h
  rcases hi : w.context.store.item seg i with e | y <;>
    simp only [StoreM.item, StoreM.read, hi] at hx <;> cases hx
  exact ⟨rfl, rfl⟩

/-- An answer that the loop takes is taken by the rules. -/
private theorem takes_of_spliceAnswer {r : Node}
    (h : (spliceAnswer slot seg i out r : Walk σ _) w = .ok res w') :
    ∃ s u, Takes slot seg i w.context.store out r u res s ∧
      w' = ⟨⟨s, w.context.state⟩, w.trace ++ traceOf u⟩ := by
  rcases spliceAnswer_follows slot seg i out r w.context with
    ⟨u, out', _, ⟨s, ht, rfl⟩, hrun⟩ | ⟨u, e, _, -, hrun⟩
  · have hw := h.symm.trans (hrun w.trace)
    cases hw
    exact ⟨s, u, ht, rfl⟩
  · cases h.symm.trans (hrun w.trace)

theorem Walk.checkList_eq_ok {p : Pool} {seg : Segment p}
    (h : (Walk.checkList slot seg : Walk σ Unit) w = .ok () w') : w' = w := by
  obtain ⟨size, w₁, hsize, h⟩ := bind_eq_ok h
  cases hsize
  split at h
  · cases h
  · cases h
    rfl

/-- A loop that returns makes the visits that are listed. -/
private theorem stmtLoop_of_walkStmts (h : t.walkStmts walk slot seg n i out w = .ok res w') :
    StmtLoop t walk slot seg n i out w (t.stmtVisits walk slot seg n i out w) res w' := by
  induction n generalizing i out w with
  | zero =>
    cases h
    exact .done
  | succ n ih =>
    obtain ⟨x, w₀, hx, h⟩ := bind_eq_ok h
    obtain ⟨r, w₁, hv, h⟩ := bind_eq_ok h
    obtain ⟨out', w₂, ha, h⟩ := bind_eq_ok h
    simp only [stmtVisits, hx, hv, ha]
    obtain ⟨hx, rfl⟩ := Walk.item_eq_ok hx
    obtain ⟨s, u, ht, rfl⟩ := takes_of_spliceAnswer ha
    exact .next hx hv ht (ih h)

/-- A statement list that is done: its loop, and the handle that is settled after it. -/
private theorem stmtLoop_of_listSlot {seg' : Segment .stmts}
    (h : t.listSlot walk slot .stmts seg w = .ok seg' w') :
    ∃ out w₁ s, StmtLoop t walk slot seg seg.length 0 none w
        (t.stmtVisits walk slot seg seg.length 0 none w) out w₁ ∧
      seg.settle out w₁.context.store = .ok seg' s ∧
      w' = ⟨⟨s, w₁.context.state⟩, w₁.trace⟩ := by
  simp only [listSlot] at h
  obtain ⟨_, w₀, hcheck, hrest⟩ := bind_eq_ok h
  obtain rfl := Walk.checkList_eq_ok hcheck
  obtain ⟨out, w₁, hloop, hend⟩ := bind_eq_ok hrest
  have hsettle : (Walk.onStore (seg.settle out) : Walk σ _) w₁ = .ok seg' w' := by
    cases out <;> exact hend
  obtain ⟨s, hs, rfl⟩ := Walk.onStore_eq_ok hsettle
  exact ⟨out, w₁, s, stmtLoop_of_walkStmts hloop, hs, rfl⟩

end Inversion

/-! ### What the loop does -/

section Takes

variable {slot : String} {seg : Segment .stmts} {i : Nat} {out out' : Option (Array (Id .stmt))}
  {s s' : Store} {u : List Mark} {zs : List (Id .stmt)}

/-- A statement that is taken follows the contents before it. -/
theorem Takes.stands_stored {id : Id .stmt} (h : Takes slot seg i s out (.stored id) u out' s')
    (hz : Stands s seg i out zs) : Stands s' seg (i + 1) out' (zs ++ [id]) := by
  cases h with
  | write hs =>
    obtain ⟨hm, hc⟩ := StoreM.moves_setItem hs
    cases hz with
    | inPlace hl hr =>
      refine .inPlace (by simp [hl]) (.append (hr.frame fun a ha => ?_) ?_)
      · obtain ⟨j, hj, hj', rfl⟩ := mem_cells.mp ha
        refine hm.same _ (hr.allocated _ ha) ?_
        rw [Multiset.mem_singleton, Address.cell.injEq]
        rintro ⟨-, h⟩
        have hji : j = seg.start.toNat + i := by simpa using h
        omega
      · rw [hl]
        exact ⟨hc, trivial⟩
  | push o id =>
    cases hz
    simpa using Stands.aside _

/-- So do the statements of an expanded block. -/
theorem Takes.stands_block {b : Block} {ids : List (Id .stmt)}
    (h : Takes slot seg i s out (.expandedBlock b) u out' s') (hz : Stands s seg i out zs)
    (hi : i ≤ seg.length) (hids : s.items b.stmts = .ok ids.toArray) :
    Stands s' seg (i + 1) out' (zs ++ ids) := by
  cases h with
  | splice hb hnew ho =>
    obtain rfl := ho.eq_toArray hz hi
    cases hnew.symm.trans hids
    rw [List.append_toArray]
    exact .aside _

end Takes

namespace StmtLoop

variable {t : Transformer σ} {walk : {α : Type} → Slots α → Walk σ α} {slot : String}
  {seg : Segment .stmts} {n i : Nat} {out res : Option (Array (Id .stmt))} {w w' : WalkState σ}
  {vs : List (StmtVisit σ)}

/-- Every visit is a visit of the traversal, and its result is a statement or an expanded block. -/
private theorem genuine (h : StmtLoop t walk slot seg n i out w vs res w') : ∀ v ∈ vs,
    t.visit walk (.stored v.given) v.before = .ok v.result v.after ∧
      (v.result.kind = .stored .stmt ∨ v.result.kind = .expandedBlock) := by
  induction h with
  | done => simp
  | @next n i x r out out' res w w₁ w' s u vs hx hv ht hl ih =>
    intro v hmem
    rcases List.mem_cons.mp hmem with rfl | hmem
    · refine ⟨hv, ?_⟩
      cases ht with
      | write => exact .inl rfl
      | push => exact .inl rfl
      | splice => exact .inr rfl
    · exact ih v hmem

/-- Between the visits the loop only takes results. -/
private theorem linked (h : StmtLoop t walk slot seg n i out w vs res w')
    (hn : i + n = seg.length) :
    Linked slot seg i w vs w' := by
  induction h with
  | done => rfl
  | @next n i x r out out' res w w₁ w' s u vs hx hv ht hl ih =>
    refine ⟨rfl, ⟨⟨s, w₁.context.state⟩, w₁.trace ++ traceOf u⟩, ⟨?_, rfl, ?_, ?_⟩, ih (by omega)⟩
    · cases ht with
      | write => rfl
      | push => rfl
      | @splice _ old new b hb hnew ho =>
        have hlen : (StmtVisit.mk x w (.expandedBlock b) w₁).contents.length = new.size := by
          rw [StmtVisit.contents, Array.length_toList, Store.eq_extract_of_items hnew]
        have hexpands : (StmtVisit.mk x w (.expandedBlock b) w₁).expands = true := rfl
        rw [StmtVisit.events, if_pos hexpands, hlen]
        rfl
    · refine ht.changesOnly.mono fun a ha => ?_
      rw [Multiset.mem_singleton.mp ha]
      exact mem_cells.mpr ⟨_, Nat.le_add_right _ _, by omega, rfl⟩
    · cases ht with
      | write hs =>
        obtain ⟨-, rfl⟩ := StoreM.setItem_eq_ok hs
        exact ⟨fun c => rfl, fun c => rfl, Store.size_buffer_putItem _ seg i _⟩
      | push => exact .refl _
      | splice => exact .refl _

/-- Contents are on the side exactly after an expansion. -/
private theorem res_eq_none_iff (h : StmtLoop t walk slot seg n i out w vs res w') :
    res = none ↔ out = none ∧ ∀ v ∈ vs, v.expands = false := by
  induction h with
  | done => simp
  | @next n i x r out out' res w w₁ w' s u vs hx hv ht hl ih =>
    rw [ih, List.forall_mem_cons]
    cases ht with
    | write => simp [StmtVisit.expands]
    | push => simp
    | splice => simp [StmtVisit.expands]

/-- The visits are those of the items in order, and the cells of the list keep what was in them, but
for the results that were written before the first expansion. -/
private theorem left_behind (h : StmtLoop t walk slot seg n i out w vs res w')
    (hkeep : ∀ v ∈ vs, v.Keeps seg) {ys : List (Id .stmt)}
    (hr : w.context.store.Reads .stmts seg.start.toNat ys) (hl : ys.length = seg.length)
    (hn : i + n = ys.length) :
    vs.map StmtVisit.given = ys.drop i ∧
      (out = none → w'.context.store.Reads .stmts seg.start.toNat
        (ys.take i ++ ((vs.takeWhile (!·.expands)).flatMap StmtVisit.contents ++
          ys.drop (i + (vs.takeWhile (!·.expands)).length)))) ∧
      (out ≠ none → w'.context.store.Reads .stmts seg.start.toNat ys) := by
  induction h generalizing ys with
  | done => simpa [← hn] using hr
  | @next n i x r out out' res w w₁ w' s u vs hx hv ht hl' ih =>
    have hi : i < ys.length := by omega
    have hx' : ys[i]? = some x := by
      rw [← hr.getElem?_eq hi]
      exact Store.getElem?_of_item hx
    have hdrop : ys.drop i = x :: ys.drop (i + 1) := by
      rw [List.drop_eq_getElem_cons hi, (List.getElem?_eq_some_iff.mp hx').2]
    -- the visit leaves the cells alone, so only the answer can change one
    have hr₁ : w₁.context.store.Reads .stmts seg.start.toNat ys := by
      refine hr.frame ?_
      rw [hl]
      exact (hkeep _ (List.mem_cons_self ..))
    have hkeep' : ∀ v ∈ vs, v.Keeps seg := fun v h => hkeep v (List.mem_cons_of_mem _ h)
    rw [List.map_cons, hdrop]
    cases ht with
    | @write id s hs =>
      obtain ⟨-, rfl⟩ := StoreM.setItem_eq_ok hs
      obtain ⟨hgiven, hnone, -⟩ := ih hkeep' (hr₁.putItem hi id) (by simpa using hl)
        (by simp; omega)
      have htake : (ys.set i id).take (i + 1) = ys.take i ++ [id] := by
        rw [List.take_set, List.take_add_one, List.getElem?_eq_getElem hi, Option.toList_some,
          List.set_append_right _ _ (by simp)]
        simp [Nat.min_eq_left (Nat.le_of_lt hi)]
      have hset : ∀ k, (ys.set i id).drop (i + 1 + k) = ys.drop (i + (k + 1)) := by
        intro k
        rw [List.drop_set_of_lt (by omega), show i + 1 + k = i + (k + 1) by omega]
      refine ⟨by rw [hgiven]; exact congrArg _ (hset 0), fun _ => ?_, fun h => absurd rfl h⟩
      have hw := hnone rfl
      rw [htake, hset] at hw
      simpa [List.takeWhile_cons, StmtVisit.expands, StmtVisit.contents] using hw
    | push o id =>
      obtain ⟨hgiven, -, hsome⟩ := ih hkeep' hr₁ hl (by omega)
      exact ⟨by rw [hgiven], fun h => absurd h (by simp), fun _ => hsome (by simp)⟩
    | splice hb hnew ho =>
      obtain ⟨hgiven, -, hsome⟩ := ih hkeep' hr₁ hl (by omega)
      refine ⟨by rw [hgiven], fun _ => ?_, fun _ => hsome (by simp)⟩
      simpa [List.takeWhile_cons, StmtVisit.expands] using hsome (by simp)

/-- The contents so far stand where they belong: in the cells of the list before the first
expansion, on the side afterwards. -/
private theorem stands (h : StmtLoop t walk slot seg n i out w vs res w')
    (hkeep : ∀ v ∈ vs, v.Keeps seg) (hn : i + n = seg.length) {zs : List (Id .stmt)}
    (hz : Stands w.context.store seg i out zs) :
    Stands w'.context.store seg (i + n) res (zs ++ vs.flatMap StmtVisit.contents) := by
  induction h generalizing zs with
  | done => simpa using hz
  | @next n i x r out out' res w w₁ w' s u vs hx hv ht hl' ih =>
    have hi : i < seg.length := by omega
    have hz₁ : Stands w₁.context.store seg i out zs := by
      cases hz with
      | aside => exact .aside zs
      | inPlace hl hr =>
        refine .inPlace hl (hr.frame fun a ha => hkeep _ (List.mem_cons_self ..) a ?_)
        obtain ⟨j, hj, hj', rfl⟩ := mem_cells.mp ha
        exact mem_cells.mpr ⟨j, hj, by omega, rfl⟩
    have hkeep' : ∀ v ∈ vs, v.Keeps seg := fun v h => hkeep v (List.mem_cons_of_mem _ h)
    have hstep : Stands s seg (i + 1) out' (zs ++ (StmtVisit.mk x w r w₁).contents) := by
      have ht' := ht
      cases ht with
      | write | push => exact ht'.stands_stored hz₁
      | splice hb hnew ho =>
        refine ht'.stands_block hz₁ (Nat.le_of_lt hi) ?_
        rw [hnew, Store.eq_extract_of_items hnew, StmtVisit.contents, Array.toArray_toList]
    rw [List.flatMap_cons, ← List.append_assoc, show i + (n + 1) = i + 1 + n by omega]
    exact ih hkeep' (by omega) hstep

end StmtLoop

/-! ### The law -/

/-- A visit that does not expand contributes one statement. -/
private theorem StmtVisit.length_contents {v : StmtVisit σ} (h : v.result.kind = .stored .stmt) :
    v.contents.length = 1 := by
  obtain ⟨given, before, ⟨k, x⟩, after⟩ := v
  cases h
  rfl

/-- The length of the new contents: each expansion counts for the statements it brings, less the one
that it replaces. -/
private theorem length_contents_eq {vs : List (StmtVisit σ)}
    (h : ∀ v ∈ vs, v.result.kind = .stored .stmt ∨ v.result.kind = .expandedBlock) :
    ((vs.flatMap StmtVisit.contents).length : Int) =
      vs.length +
        ((vs.filter StmtVisit.expands).map fun v => (v.contents.length : Int) - 1).sum := by
  induction vs with
  | nil => rfl
  | cons v vs ih =>
    rw [List.forall_mem_cons] at h
    have ih := ih h.2
    rcases h.1 with hv | hv
    · have hexpands : v.expands = false := by simp [StmtVisit.expands, hv]
      rw [List.flatMap_cons, List.length_append, StmtVisit.length_contents hv,
        List.filter_cons_of_neg (by simp [hexpands]), List.length_cons]
      push_cast
      omega
    · have hexpands : v.expands = true := by simp [StmtVisit.expands, hv]
      rw [List.flatMap_cons, List.length_append, List.filter_cons_of_pos hexpands, List.map_cons,
        List.sum_cons, List.length_cons]
      push_cast
      omega

/-- **The splice law.** A statement list whose cells are left alone by the visits to its items, and
whose slot completes: the items are visited once each and in order, and the list that stands
afterwards is the flat map of what the visits contribute. Without an expansion it stands in the old
cells. Otherwise it is a new list at the end of the buffer, and the old cells hold the results
before the first expansion and the original items from there on. -/
theorem splice_law {t : Transformer σ} {walk : {α : Type} → Slots α → Walk σ α} {slot : String}
    {seg seg' : Segment .stmts} {w w' : WalkState σ} {xs : List (Id .stmt)}
    (hlen : xs.length = seg.length) (hxs : w.context.store.Reads .stmts seg.start.toNat xs)
    (hkeep : ∀ v ∈ t.stmtVisits walk slot seg seg.length 0 none w, v.Keeps seg)
    (hslot : t.listSlot walk slot .stmts seg w = .ok seg' w') :
    let vs := t.stmtVisits walk slot seg seg.length 0 none w
    let early := vs.takeWhile (!·.expands)
    let new := vs.flatMap StmtVisit.contents
    ∃ w₁,
      -- the visits, and what happens between them
      vs.map StmtVisit.given = xs ∧
      (∀ v ∈ vs, t.visit walk (.stored v.given) v.before = .ok v.result v.after ∧
        (v.result.kind = .stored .stmt ∨ v.result.kind = .expandedBlock)) ∧
      Linked slot seg 0 w vs w₁ ∧
      -- the list that stands afterwards
      seg'.length = new.length ∧ w'.context.store.Reads .stmts seg'.start.toNat new ∧
      (seg'.length : Int) =
        seg.length +
          ((vs.filter StmtVisit.expands).map fun v => (v.contents.length : Int) - 1).sum ∧
      -- the old cells
      w'.context.store.Reads .stmts seg.start.toNat
        (early.flatMap StmtVisit.contents ++ xs.drop early.length) ∧
      -- what the loop does at its end
      ((∀ v ∈ vs, v.expands = false) → seg' = seg ∧ w' = w₁) ∧
      ((∃ v ∈ vs, v.expands = true) →
        w' = ⟨⟨w₁.context.store.append .stmts new.toArray, w₁.context.state⟩, w₁.trace⟩ ∧
        (new = [] → seg' = .empty) ∧
        (new ≠ [] → seg'.start.toNat = (w₁.context.store.buffer .stmts).size)) := by
  intro vs early new
  obtain ⟨out, w₁, s, hloop, hsettle, rfl⟩ := stmtLoop_of_listSlot hslot
  have hgenuine := hloop.genuine
  obtain ⟨hgiven, hleft, -⟩ := hloop.left_behind hkeep hxs hlen (by omega)
  have hstands : Stands w₁.context.store seg (0 + seg.length) out ([] ++ new) :=
    hloop.stands hkeep (by omega) (.inPlace rfl trivial)
  have hnew : (new.length : Int) =
      seg.length +
        ((vs.filter StmtVisit.expands).map fun v => (v.contents.length : Int) - 1).sum := by
    have hcount : vs.length = seg.length := by
      rw [← hlen, ← List.length_map, hgiven, List.drop_zero]
    rw [length_contents_eq fun v hv => (hgenuine v hv).2, hcount]
  have hold : w₁.context.store.Reads .stmts seg.start.toNat
      (early.flatMap StmtVisit.contents ++ xs.drop early.length) := by
    simpa using hleft rfl
  refine ⟨w₁, hgiven, hgenuine, hloop.linked (by omega), ?_⟩
  rw [List.nil_append, Nat.zero_add] at hstands
  cases hstands with
  | inPlace hl hr =>
    -- no expansion: the results are in the cells of the list
    cases hsettle
    have hnone := (hloop.res_eq_none_iff.mp rfl).2
    refine ⟨hl.symm, hr, by rw [← hnew, hl], hold, fun _ => ⟨rfl, rfl⟩, ?_⟩
    rintro ⟨v, hv, hexpands⟩
    exact absurd hexpands (by simp [hnone v hv])
  | aside =>
    obtain ⟨-, hstop, hlen', hreads⟩ := StoreM.moves_list hsettle
    obtain ⟨rfl, hempty, hstart⟩ := StoreM.list_eq_ok hsettle
    have hsome : ¬∀ v ∈ vs, v.expands = false := fun h => by
      cases hloop.res_eq_none_iff.mpr ⟨rfl, h⟩
    refine ⟨hlen'.symm, hreads, by rw [← hnew, hlen'], ?_, fun h => absurd h hsome, ?_⟩
    · exact hold.frame fun a ha => Store.sameAt_append (hold.allocated a ha)
    · exact fun _ => ⟨rfl, hempty, hstart⟩

/-- Four statements in a list and two more beside it. -/
def sixStmts : Store where
  tables := { stmts := .ofNodes #[.bad, .bad, .bad, .bad, .bad, .bad] }
  buffers := { stmts := #[⟨0⟩, ⟨1⟩, ⟨2⟩, ⟨3⟩, ⟨4⟩, ⟨5⟩] }

/-- Keeps statement 0 and those beside the list, replaces 1, deletes 2 and expands 3. -/
def mixer : Transformer Unit where
  replace n := pure <| match n with
    | ⟨.stored .stmt, ⟨1⟩⟩ => (.stored (⟨4⟩ : Id .stmt), false)
    | ⟨.stored .stmt, ⟨2⟩⟩ => (.expandedBlock ⟨.empty⟩, false)
    | ⟨.stored .stmt, ⟨3⟩⟩ => (.expandedBlock ⟨⟨4, 2⟩⟩, false)
    | n => (n, true)

/-- The traversal after the four answers: the new contents follow the old buffer, and the old cells
have been written up to the first expansion. -/
def mixed : WalkState Unit where
  context := ⟨{ sixStmts with buffers :=
    { stmts := #[⟨0⟩, ⟨4⟩, ⟨2⟩, ⟨3⟩, ⟨4⟩, ⟨5⟩, ⟨0⟩, ⟨4⟩, ⟨4⟩, ⟨5⟩] } }, ()⟩
  trace := #[.call (.stored (⟨0⟩ : Id .stmt)), .answer (.stored (⟨0⟩ : Id .stmt)) true, .leave,
    .call (.stored (⟨1⟩ : Id .stmt)), .answer (.stored (⟨4⟩ : Id .stmt)) false,
    .call (.stored (⟨2⟩ : Id .stmt)), .answer (.expandedBlock ⟨.empty⟩) false,
    .splice "stmts" 2 0,
    .call (.stored (⟨3⟩ : Id .stmt)), .answer (.expandedBlock ⟨⟨4, 2⟩⟩) false,
    .splice "stmts" 3 2]

private theorem listSlot_mixer :
    mixer.listSlot (mixer.walk 1) "stmts" .stmts ⟨0, 4⟩ ⟨⟨sixStmts, ()⟩, #[]⟩ =
      .ok ⟨6, 4⟩ mixed :=
  rfl

/-- Keeping, replacing, deleting and expanding in one list. -/
theorem splice_law_mixer :
    let w : WalkState Unit := ⟨⟨sixStmts, ()⟩, #[]⟩
    let seg : Segment .stmts := ⟨0, 4⟩
    let vs := mixer.stmtVisits (mixer.walk 1) "stmts" seg seg.length 0 none w
    w.context.store.Reads .stmts 0 [⟨0⟩, ⟨1⟩, ⟨2⟩, ⟨3⟩] ∧ (∀ v ∈ vs, v.Keeps seg) ∧
      mixer.listSlot (mixer.walk 1) "stmts" .stmts seg w = .ok ⟨6, 4⟩ mixed ∧
      vs.map StmtVisit.given = [⟨0⟩, ⟨1⟩, ⟨2⟩, ⟨3⟩] ∧
      vs.flatMap StmtVisit.contents = [⟨0⟩, ⟨4⟩, ⟨4⟩, ⟨5⟩] ∧
      mixed.context.store.Reads .stmts 6 (vs.flatMap StmtVisit.contents) := by
  intro w seg vs
  have hsame : vs.all fun v => v.after.context.store = v.before.context.store := by decide
  have hkeep : ∀ v ∈ vs, v.Keeps seg := by
    intro v hv a _
    have h : v.after.context.store = v.before.context.store := by
      simpa using List.all_eq_true.mp hsame v hv
    rw [h]
    exact .refl _ a
  have hxs : w.context.store.Reads .stmts 0 [⟨0⟩, ⟨1⟩, ⟨2⟩, ⟨3⟩] := ⟨rfl, rfl, rfl, rfl, trivial⟩
  have hcontents : vs.flatMap StmtVisit.contents = [⟨0⟩, ⟨4⟩, ⟨4⟩, ⟨5⟩] := by decide
  obtain ⟨w₁, hgiven, -, -, -, hnew, -, -, -, -⟩ := splice_law rfl hxs hkeep listSlot_mixer
  exact ⟨hxs, hkeep, listSlot_mixer, hgiven, hcontents, hnew⟩

end GoTree
