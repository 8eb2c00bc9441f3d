import GoTree.Proofs.AbortedRuns
import Mathlib.Data.List.Pairwise

/-!
# Stable handles

A store is built by four kinds of access: allocating a node, overwriting one, adding a list,
overwriting an item. A **log** records them, newest first, each with the handle it returned, and
`Reached log s` says that the log leads from the empty store to `s`. From the log alone one can tell
what every handle stands for: `logNode?` is the node stored last under an id, `logItems` the items
of a list as they were added, with the writes through this very handle.

`handles_stable` says that the store agrees with its log. Ids are dealt out in order, the lists of a
buffer tile it in the order in which they were added, and no access through one handle is seen
through another. The tables and the buffers are independent of each other, so there are two
invariants, `RecordsNodes` for each table and `RecordsLists` for each buffer, and one lemma for each
kind of access.
-/

namespace GoTree

/-- Every table and every buffer can be counted in a word. -/
structure Store.Counted (s : Store) : Prop where
  tables : ∀ c, (s.table c).size < wordSize
  buffers : s.Small

theorem Store.Counted.of_grows {s s' : Store} (h : s'.Counted) (hg : s.Grows s') :
    s.Counted :=
  ⟨fun c => Nat.lt_of_le_of_lt (hg.table c) (h.tables c),
    fun p => Nat.lt_of_le_of_lt (hg.buffer p) (h.buffers p)⟩

/-- Different ids of a category have different indices. -/
theorem Id.index_injective {c : Category} : Function.Injective (Id.index (c := c)) := by
  rintro ⟨a⟩ ⟨b⟩ h
  exact congrArg Id.mk (UInt32.toNat_inj.mp h)

/-! ### Logs -/

section Families

variable {ι : Type} [DecidableEq ι] {F G : ι → Type} {i j : ι}

/-- A member of a family, seen as one at index `i`. -/
def member? (i : ι) (x : F j) : Option (F i) :=
  if h : j = i then some (h ▸ x) else none

@[simp]
theorem member?_self (x : F i) : member? i x = some x :=
  dif_pos rfl

private theorem member?_of_ne (h : j ≠ i) (x : F j) : member? i x = none :=
  dif_neg h

/-- What is kept with a handle `x'`, if that is the handle `x`. -/
def keptWith? [∀ i, DecidableEq (F i)] (x : F i) (x' : F j) (y : G j) : Option (G i) :=
  if h : j = i then if h ▸ x' = x then some (h ▸ y) else none else none

@[simp]
theorem keptWith?_self [∀ i, DecidableEq (F i)] (x : F i) (y : G i) :
    keptWith? x x y = some y := by
  simp [keptWith?]

@[simp]
theorem keptWith?_of_ne [∀ i, DecidableEq (F i)] {x x' : F i} (h : x' ≠ x) (y : G i) :
    keptWith? x x' y = none := by
  simp [keptWith?, h]

private theorem keptWith?_of_index_ne [∀ i, DecidableEq (F i)] (h : j ≠ i) (x : F i) (x' : F j)
    (y : G j) : keptWith? x x' y = none :=
  dif_neg h

end Families

/-- An access that succeeded, with the handle it returned. -/
inductive Access where
  | alloc (c : Category) (node : c.Payload) (span : Span) (id : Id c)
  | save (c : Category) (id : Id c) (node : c.Payload)
  | list (p : Pool) (xs : List p.Item) (seg : Segment p)
  | setItem (p : Pool) (seg : Segment p) (i : Nat) (x : p.Item)

namespace Access

variable {c : Category} {p : Pool}

/-- The id that an access dealt out in a category. -/
def id? (c : Category) : Access → Option (Id c)
  | alloc _ _ _ id => member? c id
  | _ => none

/-- The node that an access stored under an id. -/
def node? (id : Id c) : Access → Option c.Payload
  | alloc _ node _ id' => keptWith? id id' node
  | save _ id' node => keptWith? id id' node
  | _ => none

/-- The list that an access added to a buffer. -/
def segment? (p : Pool) : Access → Option (Segment p)
  | list _ _ seg => member? p seg
  | _ => none

/-- The items of a list after an access, which changes them only through their own handle. -/
def update (seg : Segment p) (old : List p.Item) : Access → List p.Item
  | list _ xs seg' => (keptWith? (G := fun q => List q.Item) seg seg' xs).getD old
  | setItem _ seg' i x => (keptWith? (G := Pool.Item) seg seg' x).elim old (old.set i ·)
  | _ => old

end Access

/-- The ids that were dealt out in a category, in order. -/
def dealtIds (c : Category) (log : List Access) : List (Id c) :=
  (log.filterMap (·.id? c)).reverse

/-- The node that was stored last under an id. -/
def logNode? {c : Category} (id : Id c) (log : List Access) : Option c.Payload :=
  log.findSome? (·.node? id)

/-- The lists that were added to a buffer, in order. -/
def addedLists (p : Pool) (log : List Access) : List (Segment p) :=
  (log.filterMap (·.segment? p)).reverse

/-- The items of a list: those that were added, with the writes through its handle. -/
def logItems {p : Pool} (seg : Segment p) (log : List Access) : List p.Item :=
  log.foldr (fun a old => a.update seg old) []

/-- A log leads from the empty store to a store. Nodes are overwritten wherever they are allocated;
items are overwritten through handles that the log has returned. -/
inductive Reached : List Access → Store → Prop where
  | nil : Reached [] {}
  | alloc {log : List Access} {s s' : Store} {c : Category} {node : c.Payload} {span : Span}
      {id : Id c} (h : Reached log s) (hs : StoreM.alloc c node span s = .ok id s') :
      Reached (.alloc c node span id :: log) s'
  | save {log : List Access} {s s' : Store} {c : Category} {id : Id c} {node : c.Payload}
      (h : Reached log s) (hs : StoreM.save id node s = .ok () s') :
      Reached (.save c id node :: log) s'
  | list {log : List Access} {s s' : Store} {p : Pool} {xs : List p.Item} {seg : Segment p}
      (h : Reached log s) (hs : StoreM.list p xs.toArray s = .ok seg s') :
      Reached (.list p xs seg :: log) s'
  | setItem {log : List Access} {s s' : Store} {p : Pool} {seg : Segment p} {i : Nat} {x : p.Item}
      (h : Reached log s) (hseg : seg ∈ addedLists p log)
      (hs : StoreM.setItem seg i x s = .ok () s') : Reached (.setItem p seg i x :: log) s'

section Logs

variable {log : List Access} {a : Access} {c : Category} {p : Pool}

theorem dealtIds_cons : dealtIds c (a :: log) = dealtIds c log ++ (a.id? c).toList := by
  cases h : a.id? c <;> simp [dealtIds, h]

theorem logNode?_cons (id : Id c) : logNode? id (a :: log) = (a.node? id).or (logNode? id log) := by
  cases h : a.node? id <;> simp [logNode?, h]

theorem addedLists_cons : addedLists p (a :: log) = addedLists p log ++ (a.segment? p).toList := by
  cases h : a.segment? p <;> simp [addedLists, h]

theorem logItems_cons (seg : Segment p) :
    logItems seg (a :: log) = a.update seg (logItems seg log) :=
  rfl

end Logs

/-! ### Tables -/

section Nodes

variable {log : List Access} {a : Access} {c : Category} {s s' : Store}

/-- The table of a category holds what the log has stored in it. -/
structure RecordsNodes (log : List Access) (s : Store) (c : Category) : Prop where
  ids : (dealtIds c log).map Id.index = List.range (s.table c).size
  node : ∀ id : Id c, s.get? id = logNode? id log
  span : ∀ node span id, .alloc c node span id ∈ log →
    (s.table c).spans[id.index]? = some span

/-- An access that has nothing to do with a table. -/
private theorem RecordsNodes.frame (h : RecordsNodes log s c) (ht : s'.table c = s.table c)
    (hid : a.id? c = none) (hnode : ∀ id : Id c, a.node? id = none) :
    RecordsNodes (a :: log) s' c where
  ids := by simpa [dealtIds_cons, hid, ht] using h.ids
  node id := by rw [logNode?_cons, hnode, Option.none_or, ← h.node, Store.get?, ht, Store.get?]
  span node span id hmem := by
    rcases List.mem_cons.mp hmem with rfl | hmem
    · simp [Access.id?] at hid
    · rw [ht]
      exact h.span node span id hmem

theorem StoreM.alloc_eq_ok {node : c.Payload} {span : Span} {id : Id c}
    (hs : StoreM.alloc c node span s = .ok id s') (hlt : (s.table c).size < wordSize) :
    id.index = (s.table c).size ∧ s' = s.push c node span := by
  cases hs
  exact ⟨UInt32.toNat_ofNat_of_lt' hlt, rfl⟩

/-- A node that is allocated gets the next id, and all ids before it keep what they have. -/
private theorem RecordsNodes.alloc (h : RecordsNodes log s c) {node : c.Payload} {span : Span}
    {id : Id c} (hs : StoreM.alloc c node span s = .ok id s') (hlt : (s.table c).size < wordSize) :
    RecordsNodes (.alloc c node span id :: log) s' c := by
  obtain ⟨hid, rfl⟩ := StoreM.alloc_eq_ok hs hlt
  have htable : (s.push c node span).table c = (s.table c).push node span := by simp [Store.push]
  refine ⟨?_, ?_, ?_⟩
  · rw [dealtIds_cons, htable, Table.size_push, List.range_succ, List.map_append, h.ids]
    simp [Access.id?, hid]
  · intro id'
    rw [logNode?_cons, Access.node?, Store.get?, htable, Table.nodes_push, Array.getElem?_push]
    by_cases heq : id = id'
    · subst heq
      simp [hid, Table.size]
    · have hne : id'.index ≠ (s.table c).nodes.size := fun h' =>
        heq (Id.index_injective (hid.trans h'.symm))
      rw [if_neg hne, keptWith?_of_ne heq, Option.none_or]
      exact h.node id'
  · intro node' span' id' hmem
    rw [htable, Table.spans_push, Array.getElem?_push]
    rcases List.mem_cons.mp hmem with heq | hmem
    · cases heq
      rw [if_pos (hid.trans (s.table c).size_spans.symm)]
    · have hold := h.span node' span' id' hmem
      obtain ⟨hi, -⟩ := Array.getElem?_eq_some_iff.mp hold
      rw [if_neg (Nat.ne_of_lt hi), hold]

/-- A node that is overwritten keeps its span, and no other node changes. -/
private theorem RecordsNodes.save (h : RecordsNodes log s c) {id : Id c} {node : c.Payload}
    (hs : StoreM.save id node s = .ok () s') : RecordsNodes (.save c id node :: log) s' c := by
  obtain ⟨halloc, rfl⟩ := StoreM.save_eq_ok hs
  have hspans : ((s.put id node).table c).spans = (s.table c).spans := by simp [Store.put]
  have hsize : ((s.put id node).table c).size = (s.table c).size := by simp [Store.put]
  refine ⟨?_, ?_, ?_⟩
  · rw [dealtIds_cons, hsize, ← h.ids]
    simp [Access.id?]
  · intro id'
    rw [logNode?_cons, Access.node?]
    by_cases heq : id = id'
    · subst heq
      rw [keptWith?_self, Option.some_or, Store.get?_put_self halloc]
    · have hne : Address.node c id'.index ≠ .node c id.index := fun h' => by
        injection h' with _ h'
        exact heq (Id.index_injective h'.symm)
      rw [keptWith?_of_ne heq, Option.none_or, ← h.node]
      exact Store.get?_eq_of_sameAt (Store.sameAt_put hne)
  · intro node' span' id' hmem
    rw [hspans]
    refine h.span node' span' id' ?_
    simpa using hmem

end Nodes

/-! ### Buffers -/

section Lists

variable {log : List Access} {a : Access} {p : Pool} {s s' : Store} {seg seg' : Segment p}

/-- The positions of a list in its buffer. -/
def Segment.positions (seg : Segment p) : List Nat :=
  List.range' seg.start.toNat seg.length

/-- The buffer of a pool is tiled by the lists of the log, and each holds its items. -/
structure RecordsLists (log : List Access) (s : Store) (p : Pool) : Prop where
  tiles : (addedLists p log).flatMap Segment.positions = List.range (s.buffer p).size
  stop_le : ∀ seg ∈ addedLists p log, seg.stop ≤ (s.buffer p).size
  length_eq : ∀ seg ∈ addedLists p log, (logItems seg log).length = seg.length
  reads : ∀ seg ∈ addedLists p log, s.Reads p seg.start.toNat (logItems seg log)

/-- An access that has nothing to do with a buffer. -/
private theorem RecordsLists.frame (h : RecordsLists log s p) (hb : s'.buffer p = s.buffer p)
    (hseg : a.segment? p = none)
    (hupdate : ∀ (seg : Segment p) old, a.update seg old = old) : RecordsLists (a :: log) s' p := by
  have hlists : addedLists p (a :: log) = addedLists p log := by simp [addedLists_cons, hseg]
  refine ⟨?_, ?_, ?_, ?_⟩
  · rw [hlists, hb, h.tiles]
  · rw [hlists, hb]
    exact h.stop_le
  · intro seg hmem
    rw [logItems_cons, hupdate]
    exact h.length_eq seg (hlists ▸ hmem)
  · intro seg hmem
    rw [logItems_cons, hupdate]
    refine (h.reads seg (hlists ▸ hmem)).frame fun addr ha => ?_
    obtain ⟨i, -, -, rfl⟩ := mem_cells.mp ha
    exact congrArg (·[i]?) hb

/-- Different lists of a log have no position in common. -/
private theorem RecordsLists.disjoint (h : RecordsLists log s p) (hseg : seg ∈ addedLists p log)
    (hseg' : seg' ∈ addedLists p log) (hne : seg ≠ seg') :
    seg.positions.Disjoint seg'.positions := by
  have hnodup : ((addedLists p log).flatMap Segment.positions).Nodup :=
    h.tiles ▸ List.nodup_range
  have hsymm : Std.Symm (Function.onFun List.Disjoint (Segment.positions (p := p))) :=
    ⟨fun _ _ h => h.symm⟩
  exact (List.nodup_flatMap.mp hnodup).2.forall hseg hseg' hne

/-- A new list starts where the buffer ended, unless it is empty. -/
theorem StoreM.list_eq_ok {xs : List p.Item} (hs : StoreM.list p xs.toArray s = .ok seg s') :
    s' = s.append p xs.toArray ∧ (xs = [] → seg = .empty) ∧
      (xs ≠ [] → seg.start.toNat = (s.buffer p).size) := by
  refine ⟨StoreM.store_of_list.1 seg hs, ?_⟩
  simp only [StoreM.list] at hs
  split_ifs at hs with hstart hlen h0
  · cases hs
    exact ⟨fun _ => rfl, fun hxs => absurd (by simpa using h0) hxs⟩
  · cases hs
    refine ⟨fun hxs => absurd (by simp [hxs]) h0, fun _ => ?_⟩
    exact UInt32.toNat_ofNat_of_lt' (Nat.lt_of_not_le hstart)

/-- A list that is added takes the cells that follow, and all lists before it stay as they are. -/
private theorem RecordsLists.list (h : RecordsLists log s p) {xs : List p.Item}
    (hs : StoreM.list p xs.toArray s = .ok seg s') : RecordsLists (.list p xs seg :: log) s' p := by
  obtain ⟨hmoves, hstop, hlen, hreads⟩ := StoreM.moves_list hs
  obtain ⟨hs', -, hstart⟩ := StoreM.list_eq_ok hs
  have hsize : (s'.buffer p).size = (s.buffer p).size + xs.length := by
    simp [hs', Store.size_buffer_append]
  have hlists : addedLists p (.list p xs seg :: log) = addedLists p log ++ [seg] := by
    simp [addedLists_cons, Access.segment?]
  -- the new entry speaks about its own handle only
  have hself : logItems seg (.list p xs seg :: log) = xs := by simp [logItems_cons, Access.update]
  have hother : ∀ seg' ≠ seg, logItems seg' (.list p xs seg :: log) = logItems seg' log := by
    intro seg' hne
    rw [logItems_cons, Access.update, keptWith?_of_ne hne.symm, Option.getD_none]
  have hmem : ∀ seg' ∈ addedLists p (.list p xs seg :: log), seg' = seg ∨
      seg' ≠ seg ∧ seg' ∈ addedLists p log := by
    intro seg' h'
    rw [hlists, List.mem_append, List.mem_singleton] at h'
    tauto
  refine ⟨?_, ?_, ?_, ?_⟩
  · rw [hlists, List.flatMap_append, h.tiles, hsize, List.range_add]
    by_cases hxs : xs = []
    · simp [hxs, Segment.positions, ← hlen]
    · simp [Segment.positions, hstart hxs, ← hlen, List.range'_eq_map_range]
  · intro seg' h'
    rcases hmem seg' h' with rfl | ⟨-, h'⟩
    · exact hstop
    · rw [hsize]
      exact Nat.le_add_right_of_le (h.stop_le seg' h')
  · intro seg' h'
    rcases hmem seg' h' with rfl | ⟨hne, h'⟩
    · rw [hself, hlen]
    · rw [hother seg' hne, h.length_eq seg' h']
  · intro seg' h'
    rcases hmem seg' h' with rfl | ⟨hne, h'⟩
    · rwa [hself]
    · rw [hother seg' hne, hs']
      have hold := h.reads seg' h'
      exact hold.frame fun addr ha => Store.sameAt_append (hold.allocated addr ha)

/-- Reading, cell by cell. -/
private theorem Store.reads_iff {k : Nat} {xs : List p.Item} :
    s.Reads p k xs ↔ ∀ j < xs.length, (s.buffer p)[k + j]? = xs[j]? := by
  refine ⟨fun h j hj => h.getElem?_eq hj, fun h => ?_⟩
  induction xs generalizing k with
  | nil => trivial
  | cons x xs ih =>
    refine ⟨h 0 (Nat.zero_lt_succ _), ih fun j hj => ?_⟩
    have hj' := h (j + 1) (Nat.succ_lt_succ hj)
    rwa [show k + (j + 1) = k + 1 + j by omega] at hj'

/-- The items of a list after one of them was overwritten. -/
theorem Store.Reads.putItem {xs : List p.Item} {i : Nat} (h : s.Reads p seg.start.toNat xs)
    (hi : i < xs.length) (x : p.Item) :
    (s.putItem seg i x).Reads p seg.start.toNat (xs.set i x) := by
  rw [reads_iff]
  intro j hj
  rw [List.length_set] at hj
  by_cases hij : i = j
  · subst hij
    rw [List.getElem?_set_self hi]
    exact getElem?_putItem_self (h.allocated _ (mem_cells.mpr ⟨_, by omega, by omega, rfl⟩)) x
  · have hne : Address.cell p (seg.start.toNat + j) ≠ .cell p (seg.start.toNat + i) := fun h' => by
      injection h' with _ h'
      omega
    rw [List.getElem?_set_ne hij, ← h.getElem?_eq hj]
    exact sameAt_putItem hne

/-- An item that is overwritten is seen through its own handle only: no other list has its cell. -/
private theorem RecordsLists.setItem (h : RecordsLists log s p) {i : Nat} {x : p.Item}
    (hseg : seg ∈ addedLists p log) (hs : StoreM.setItem seg i x s = .ok () s') :
    RecordsLists (.setItem p seg i x :: log) s' p := by
  have hi : i < seg.length := StoreM.lt_length_of_setItem hs
  obtain ⟨-, rfl⟩ := StoreM.setItem_eq_ok hs
  have hsize : ((s.putItem seg i x).buffer p).size = (s.buffer p).size := by simp [Store.putItem]
  have hlists : addedLists p (.setItem p seg i x :: log) = addedLists p log := by
    simp [addedLists_cons, Access.segment?]
  have hself : logItems seg (.setItem p seg i x :: log) = (logItems seg log).set i x := by
    simp [logItems_cons, Access.update]
  have hother : ∀ seg' ≠ seg, logItems seg' (.setItem p seg i x :: log) = logItems seg' log := by
    intro seg' hne
    rw [logItems_cons, Access.update, keptWith?_of_ne hne.symm, Option.elim_none]
  refine ⟨?_, ?_, ?_, ?_⟩
  · rw [hlists, hsize, h.tiles]
  · rw [hlists, hsize]
    exact h.stop_le
  · intro seg' h'
    rw [hlists] at h'
    by_cases heq : seg' = seg
    · rw [heq, hself, List.length_set, h.length_eq seg hseg]
    · rw [hother seg' heq, h.length_eq seg' h']
  · intro seg' h'
    rw [hlists] at h'
    by_cases heq : seg' = seg
    · rw [heq, hself]
      exact (h.reads seg hseg).putItem (h.length_eq seg hseg ▸ hi) x
    · rw [hother seg' heq]
      refine (h.reads seg' h').frame fun addr ha => Store.sameAt_putItem ?_
      rw [h.length_eq seg' h'] at ha
      rintro rfl
      obtain ⟨j, hj, hj', hcell⟩ := mem_cells.mp ha
      injection hcell with _ hcell
      refine h.disjoint hseg h' (Ne.symm heq) (a := seg.start.toNat + i) ?_ ?_
      · exact List.mem_range'_1.mpr ⟨by omega, by omega⟩
      · exact List.mem_range'_1.mpr ⟨by omega, by omega⟩

end Lists

/-! ### Whole logs -/

section Runs

variable {log : List Access} {s s' : Store}

theorem Store.grows_push (s : Store) (c : Category) (node : c.Payload) (span : Span) :
    s.Grows (s.push c node span) :=
  (s.extends_push c node span).1

/-- A store holds what its log says. Sizes never decrease, so the bound at the end is a bound for
every access before. -/
theorem Reached.records (h : Reached log s) (hs : s.Counted) :
    (∀ c, RecordsNodes log s c) ∧ ∀ p, RecordsLists log s p := by
  induction h with
  | nil =>
    refine ⟨fun c => ?_, fun p => ?_⟩
    · have hnodes : (({} : Store).table c).nodes = #[] := by cases c <;> rfl
      constructor <;> simp [dealtIds, logNode?, Store.get?, Table.size, hnodes]
    · have hbuffer : ({} : Store).buffer p = #[] := by cases p <;> rfl
      constructor <;> simp [addedLists, hbuffer]
  | @alloc log s s' c node span id h' hstep ih =>
    cases hstep
    have hs₀ := hs.of_grows (s.grows_push c node span)
    obtain ⟨hnodes, hlists⟩ := ih hs₀
    refine ⟨fun d => ?_, fun p => (hlists p).frame rfl rfl fun _ _ => rfl⟩
    by_cases hd : d = c
    · subst hd
      exact (hnodes d).alloc rfl (hs₀.tables d)
    · exact (hnodes d).frame (Store.table_modifyTable_of_ne s hd _) (member?_of_ne (Ne.symm hd) _)
        fun id' => keptWith?_of_index_ne (Ne.symm hd) id' _ _
  | @save log s s' c id node h' hstep ih =>
    have hstep' := hstep
    obtain ⟨-, rfl⟩ := StoreM.save_eq_ok hstep'
    obtain ⟨hnodes, hlists⟩ := ih (hs.of_grows (s.grows_put id node))
    refine ⟨fun d => ?_, fun p => (hlists p).frame rfl rfl fun _ _ => rfl⟩
    by_cases hd : d = c
    · subst hd
      exact (hnodes d).save hstep
    · exact (hnodes d).frame (Store.table_modifyTable_of_ne s hd _) rfl
        fun id' => keptWith?_of_index_ne (Ne.symm hd) id' _ _
  | @list log s s' p xs seg h' hstep ih =>
    have hs' := (StoreM.list_eq_ok hstep).1
    obtain ⟨hnodes, hlists⟩ := ih (hs.of_grows (hs' ▸ s.grows_append p _))
    refine ⟨fun c => (hnodes c).frame (by rw [hs']; rfl) rfl fun _ => rfl, fun q => ?_⟩
    by_cases hq : q = p
    · subst hq
      exact (hlists q).list hstep
    · refine (hlists q).frame ?_ (member?_of_ne (Ne.symm hq) _) fun seg' old => ?_
      · rw [hs']
        exact Store.buffer_modifyBuffer_of_ne s hq _
      · rw [Access.update, keptWith?_of_index_ne (Ne.symm hq), Option.getD_none]
  | @setItem log s s' p seg i x h' hseg hstep ih =>
    have hs' := (StoreM.setItem_eq_ok hstep).2
    obtain ⟨hnodes, hlists⟩ := ih (hs.of_grows (hs' ▸ s.grows_putItem seg i x))
    refine ⟨fun c => (hnodes c).frame (by rw [hs']; rfl) rfl fun _ => rfl, fun q => ?_⟩
    by_cases hq : q = p
    · subst hq
      exact (hlists q).setItem hseg hstep
    · refine (hlists q).frame ?_ rfl fun seg' old => ?_
      · rw [hs']
        exact Store.buffer_modifyBuffer_of_ne s hq _
      · rw [Access.update, keptWith?_of_index_ne (Ne.symm hq), Option.elim_none]

/-- The ids that are allocated are those that were dealt out. -/
theorem RecordsNodes.mem_dealtIds {c : Category} (h : RecordsNodes log s c) {id : Id c} :
    id ∈ dealtIds c log ↔ id.index < (s.table c).size := by
  rw [← List.mem_range, ← h.ids]
  exact (List.mem_map_of_injective Id.index_injective).symm

/-- Reading, overwriting or locating a node fails when the id was never dealt out, and then the
store stays as it is. -/
private theorem RecordsNodes.fails {c : Category} (h : RecordsNodes log s c) {id : Id c}
    (hid : id ∉ dealtIds c log) (node : c.Payload) :
    StoreM.load id s = .error (.indexOutOfBounds (s.table c).size id.index) s ∧
      StoreM.save id node s = .error (.indexOutOfBounds (s.table c).size id.index) s ∧
      s.span id = .error (.indexOutOfBounds (s.table c).size id.index) := by
  have hlt : ¬id.index < (s.table c).size := fun hlt => hid (h.mem_dealtIds.mpr hlt)
  have hnode : s.get? id = none := Array.getElem?_eq_none (Nat.le_of_not_lt hlt)
  have hspan : (s.table c).spans[id.index]? = none := by
    rw [Array.getElem?_eq_none_iff, (s.table c).size_spans]
    exact Nat.le_of_not_lt hlt
  refine ⟨?_, ?_, ?_⟩
  · simp only [StoreM.load, StoreM.read, Store.get, hnode]
  · simp only [StoreM.save, if_neg hlt]
  · simp only [Store.span, hspan, (s.table c).size_spans]
    rfl

/-- An access past the end of a list fails and leaves the store as it is. -/
private theorem RecordsLists.fails {p : Pool} (h : RecordsLists log s p) (hs : s.Small)
    {seg : Segment p} (hseg : seg ∈ addedLists p log) {i : Nat} (hi : seg.length ≤ i) (x : p.Item) :
    StoreM.item seg i s = .error (.indexOutOfBounds seg.length i) s ∧
      StoreM.setItem seg i x s = .error (.indexOutOfBounds seg.length i) s := by
  have hfault : seg.itemFault? (s.buffer p).size i = some (.indexOutOfBounds seg.length i) := by
    rw [Segment.itemFault?, hs.fault?_eq_none (h.stop_le seg hseg)]
    exact if_neg (Nat.not_lt.mpr hi)
  constructor
  · simp only [StoreM.item, StoreM.read, Store.item, hfault]
  · simp only [StoreM.setItem, hfault]

private theorem RecordsLists.items_eq {p : Pool} (h : RecordsLists log s p) (hs : s.Small)
    {seg : Segment p} (hseg : seg ∈ addedLists p log) :
    s.items seg = .ok (logItems seg log).toArray := by
  rw [hs.items_eq (h.stop_le seg hseg), ← (h.reads seg hseg).extract_eq, h.length_eq seg hseg]
  rfl

/-- A list for which there is room is added; without items it changes nothing. -/
private theorem Store.Counted.exists_list (hs : s.Counted) (p : Pool) (xs : List p.Item)
    (hroom : (s.buffer p).size + xs.length < wordSize) :
    ∃ seg, StoreM.list p xs.toArray s = .ok seg (s.append p xs.toArray) ∧
      (xs = [] → seg = .empty) := by
  have hstart : ¬wordSize ≤ (s.buffer p).size := Nat.not_le.mpr (hs.buffers p)
  have hlen : ¬wordSize ≤ xs.length := by omega
  simp only [StoreM.list, List.size_toArray, hstart, hlen, if_false]
  split
  · exact ⟨_, rfl, fun _ => rfl⟩
  · next hne => exact ⟨_, rfl, fun hxs => absurd (by rw [hxs]; rfl) hne⟩

private theorem Store.append_empty (s : Store) (p : Pool) : s.append p #[] = s := by
  refine Store.ext_read (fun c => rfl) fun q => ?_
  by_cases hq : q = p
  · subst hq
    simp [append]
  · exact buffer_modifyBuffer_of_ne s hq _

end Runs

/-- **Handles are stable and never alias.** After any log of accesses, as long as tables and buffers
are counted in words, the store is what the log says: ids are dealt out in order and keep their
nodes and spans, the lists of a buffer tile it and keep their items but for the writes through their
own handles. Every handle that was returned can be used, and an access that fails leaves the store
as it is. -/
theorem handles_stable {log : List Access} {s : Store} (h : Reached log s) (hs : s.Counted) :
    -- ids
    (∀ c, (dealtIds c log).map Id.index = List.range (s.table c).size ∧
      (s.table c).spans.size = (s.table c).nodes.size) ∧
    (∀ c (id : Id c), s.get? id = logNode? id log) ∧
    (∀ c node span id, .alloc c node span id ∈ log → s.span id = .ok span) ∧
    -- lists
    (∀ p, (addedLists p log).flatMap Segment.positions = List.range (s.buffer p).size ∧
      (addedLists p log).Pairwise fun seg seg' => seg.positions.Disjoint seg'.positions) ∧
    (∀ p, ∀ seg ∈ addedLists p log, s.items seg = .ok (logItems seg log).toArray) ∧
    (∀ p, StoreM.list p #[] s = .ok .empty s) ∧
    -- accesses that succeed
    (∀ c node span, ∃ id, StoreM.alloc c node span s = .ok id (s.push c node span)) ∧
    (∀ c, ∀ id ∈ dealtIds c log, ∀ node, StoreM.save id node s = .ok () (s.put id node)) ∧
    (∀ p (xs : List p.Item), (s.buffer p).size + xs.length < wordSize →
      ∃ seg, StoreM.list p xs.toArray s = .ok seg (s.append p xs.toArray)) ∧
    (∀ p, ∀ seg ∈ addedLists p log, ∀ i < seg.length, ∀ x,
      StoreM.setItem seg i x s = .ok () (s.putItem seg i x)) ∧
    -- accesses that fail
    (∀ c, ∀ id ∉ dealtIds c log, ∀ node,
      StoreM.load id s = .error (.indexOutOfBounds (s.table c).size id.index) s ∧
      StoreM.save id node s = .error (.indexOutOfBounds (s.table c).size id.index) s ∧
      s.span id = .error (.indexOutOfBounds (s.table c).size id.index)) ∧
    ∀ p, ∀ seg ∈ addedLists p log, ∀ i, seg.length ≤ i → ∀ x,
      StoreM.item seg i s = .error (.indexOutOfBounds seg.length i) s ∧
      StoreM.setItem seg i x s = .error (.indexOutOfBounds seg.length i) s := by
  obtain ⟨hnodes, hlists⟩ := h.records hs
  refine ⟨?_, ?_, ?_, ?_, ?_, ?_, ?_, ?_, ?_, ?_, ?_, ?_⟩
  · intro c
    exact ⟨(hnodes c).ids, (s.table c).size_spans⟩
  · intro c id
    exact (hnodes c).node id
  · intro c node span id hmem
    simp only [Store.span, (hnodes c).span node span id hmem]
  · intro p
    have hnodup : ((addedLists p log).flatMap Segment.positions).Nodup :=
      (hlists p).tiles ▸ List.nodup_range
    exact ⟨(hlists p).tiles, (List.nodup_flatMap.mp hnodup).2⟩
  · intro p seg hseg
    exact (hlists p).items_eq hs.buffers hseg
  · intro p
    obtain ⟨seg, hlist, hempty⟩ := hs.exists_list p [] (hs.buffers p)
    rw [hempty rfl, Store.append_empty] at hlist
    exact hlist
  · intro c node span
    exact ⟨_, rfl⟩
  · intro c id hid node
    exact if_pos ((hnodes c).mem_dealtIds.mp hid)
  · intro p xs hroom
    obtain ⟨seg, hlist, -⟩ := hs.exists_list p xs hroom
    exact ⟨seg, hlist⟩
  · intro p seg hseg i hi x
    exact hs.buffers.setItem_eq ((hlists p).stop_le seg hseg) hi x
  · intro c id hid node
    exact (hnodes c).fails hid node
  · intro p seg hseg i hi x
    exact (hlists p).fails hs.buffers hseg hi x

/-- Two lists with an empty one between them, a write through each kind of handle, and what the
handles stand for then. -/
theorem handles_stable_interleaved :
    let log : List Access :=
      [.save .expr ⟨0⟩ (.paren ⟨1⟩), .setItem .exprs ⟨0, 2⟩ 1 ⟨1⟩, .list .exprs [⟨1⟩] ⟨2, 1⟩,
        .list .exprs [] .empty, .alloc .expr .bad ⟨3, 4⟩ ⟨1⟩, .list .exprs [⟨0⟩, ⟨0⟩] ⟨0, 2⟩,
        .alloc .expr .bad ⟨1, 9⟩ ⟨0⟩]
    ∃ s, Reached log s ∧ s.Counted ∧ s.get? (⟨0⟩ : Id .expr) = some (.paren ⟨1⟩) ∧
      s.span (⟨0⟩ : Id .expr) = .ok ⟨1, 9⟩ ∧
      s.items (⟨0, 2⟩ : Segment .exprs) = .ok #[⟨0⟩, ⟨1⟩] ∧
      s.items (⟨2, 1⟩ : Segment .exprs) = .ok #[⟨1⟩] ∧
      StoreM.setItem (⟨2, 1⟩ : Segment .exprs) 1 ⟨0⟩ s = .error (.indexOutOfBounds 1 1) s := by
  intro log
  obtain ⟨s, h, hs⟩ : ∃ s, Reached log s ∧ s.Counted := by
    refine ⟨_, .save (.setItem (.list (.list (.alloc (.list (.alloc .nil rfl) rfl) rfl) rfl) rfl)
      (by decide) rfl) rfl, ?_⟩
    exact ⟨fun c => by cases c <;> decide, fun p => by cases p <;> decide⟩
  obtain ⟨-, hnode, hspan, -, hitems, -, -, -, -, -, -, hfail⟩ := handles_stable h hs
  refine ⟨s, h, hs, hnode .expr ⟨0⟩, hspan .expr .bad ⟨1, 9⟩ ⟨0⟩ (by simp [log]), ?_, ?_, ?_⟩
  · exact hitems .exprs ⟨0, 2⟩ (by decide)
  · exact hitems .exprs ⟨2, 1⟩ (by decide)
  · exact (hfail .exprs ⟨2, 1⟩ (by decide) 1 (by decide) ⟨0⟩).2

end GoTree
