import GoTree.Proofs.Changes
import GoTree.Proofs.Ledger

/-!
# Where the contents of a store come from

Let a transformer append to the store and overwrite nothing. Then the traversal alone overwrites,
and it does so at the few addresses that its configuration tells (`Config.writes`,
`Step.changesOnly`): the entry of the node that is closed, or the cell of the item that is done.
Everything else holds what it came into use with. `Enters s₀ log a x` says that the address `a`
**came into use** with the content `x`: it held `x` in the store `s₀` from which the run started, or
it was not in use then, and the deed of the run that brought it into use put `x` there.

By `Steps.untouched`, this is so at every point of a run for every address that no node was written
back to and that is in no list that was taken up.
-/

namespace GoTree

variable {σ : Type}

/-! ### Contents -/

/-- What stands at an address. -/
def Address.Content : Address → Type
  | node c _ => c.Payload
  | cell p _ => p.Item

namespace Store

/-- The content of an address, if it is in use. -/
def read (s : Store) : (a : Address) → Option a.Content
  | .node c i => (s.table c).nodes[i]?
  | .cell p i => (s.buffer p)[i]?

variable {s s' : Store} {a : Address}

theorem SameAt.read_eq (h : s.SameAt s' a) : s'.read a = s.read a := by
  cases a <;> exact h

private theorem allocated_of_read {x : a.Content} (h : s.read a = some x) : s.Allocated a := by
  cases a <;> exact (Array.getElem?_eq_some_iff.mp h).1

theorem read_eq_none_iff : s.read a = none ↔ ¬s.Allocated a := by
  cases a <;> exact Array.getElem?_eq_none_iff.trans Nat.not_lt.symm

end Store

/-- The store before and after a deed, for the deeds that may bring addresses into use. -/
def Deed.stores : Deed → Option (Store × Store)
  | call _ _ _ s s' => some (s, s')
  | leave s s' => some (s, s')
  | fill _ _ _ _ s s' => some (s, s')
  | _ => none

/-- In a run from the store `s₀`, an address came into use with a content. -/
def Enters (s₀ : Store) (log : List Deed) (a : Address) (x : a.Content) : Prop :=
  s₀.read a = some x ∨
    s₀.read a = none ∧
      ∃ d ∈ log, ∃ s s', d.stores = some (s, s') ∧ s.read a = none ∧ s'.read a = some x

theorem Enters.mono {s₀ : Store} {log log' : List Deed} {a : Address} {x : a.Content}
    (h : Enters s₀ log a x) (hl : ∀ d ∈ log, d ∈ log') : Enters s₀ log' a x := by
  rcases h with h | ⟨h₀, d, hd, h⟩
  · exact .inl h
  · exact .inr ⟨h₀, d, hl d hd, h⟩

/-! ### What a step overwrites -/

/-- The address that an owner is written back to. -/
def Owner.place : Owner → Multiset Address
  | node a _ => a.footprint
  | item _ p seg _ i _ => {.cell p (seg.start.toNat + i)}

/-- The addresses that the next step may overwrite. -/
def Config.writes (cfg : Config σ) : Multiset Address :=
  match cfg.focus, cfg.stack with
  | .parts w [] _, _ => w.place
  | .result _, .stmt _ seg _ i _ _ :: _ => {.cell .stmts (seg.start.toNat + i)}
  | _, _ => 0

/-- A node was written back to an entry, or a cell is in a list that was taken up. -/
def Touched (log : List Deed) : Address → Prop
  | .node c i => .node c i ∈ saves log
  | .cell p i => Walked log p i

theorem Touched.mono {log log' : List Deed} {a : Address} (h : Touched log a)
    (hl : ∀ d ∈ log, d ∈ log') : Touched log' a := by
  cases a with
  | node c i =>
    obtain ⟨d, hd, ha⟩ := mem_saves_iff.mp h
    exact mem_saves_iff.mpr ⟨d, hl d hd, ha⟩
  | cell p i =>
    obtain ⟨seg, hseg, hi⟩ := h
    exact ⟨seg, hl _ hseg, hi⟩

theorem Node.exists_of_mem_footprint {n : Node} {a : Address} (h : a ∈ n.footprint) :
    ∃ c i, a = .node c i := by
  obtain ⟨k, v⟩ := n
  cases k with
  | stored c => exact ⟨c, v.index, Multiset.mem_singleton.mp h⟩
  | _ => exact absurd h (Multiset.notMem_zero a)

section Steps

variable {t : Transformer σ} {D : Nat} {cfg cfg' : Config σ} {log u : List Deed} {s₀ : Store}

theorem Step.changesOnly (ht : t.Appends) (h : Step t D cfg u cfg') :
    cfg.context.store.ChangesOnly cfg.writes cfg'.context.store := by
  cases h with
  | call hr => exact (ht.of_replace hr).changesOnly _
  | leave hl => exact (ht.of_leave hl).changesOnly _
  | close hd hy hc => exact Node.changesOnly_close hc
  | write hd hy hs => exact (StoreM.moves_setItem hs).1.changesOnly
  | take ht => exact ht.changesOnly
  | settle hc => exact Segment.changesOnly_settle hc
  | _ => exact .refl _ _

/-- What is overwritten counts as touched after the step. -/
theorem Step.touched (h : Step t D cfg u cfg') (ha : cfg.Accounted log) {a : Address}
    (hw : a ∈ cfg.writes) : Touched (log ++ u) a := by
  cases h with
  | close =>
    obtain ⟨c, i, rfl⟩ := Node.exists_of_mem_footprint hw
    rw [Touched, saves_append, Multiset.mem_add]
    exact .inr (by simpa [Config.writes, Owner.place] using hw)
  | write hd hy hs =>
    obtain rfl := Multiset.mem_singleton.mp hw
    have htake := (ha.listed.owners _ List.mem_cons_self).2
    exact .of_take (List.mem_append_left _ htake) (StoreM.lt_length_of_setItem hs)
  | take ht =>
    obtain rfl := Multiset.mem_singleton.mp hw
    have htake := ha.take_mem List.mem_cons_self
    have hcount := (ha.counted _ List.mem_cons_self).2
    refine .of_take (List.mem_append_left _ htake) ?_
    dsimp only at hcount ⊢
    omega
  | _ => exact absurd hw (Multiset.notMem_zero a)

private theorem Node.read_close {n r : Node} {y : n.kind.Body} {s s' : Store} {a : Address}
    (h : n.close y s = .ok r s') (ha : s.read a = none) : s'.read a = none := by
  obtain ⟨k, v⟩ := n
  cases k with
  | stored c =>
    obtain ⟨hv, rfl⟩ := close_stored_eq_ok h
    have hne : a ≠ .node c v.index := by
      rintro rfl
      exact Store.read_eq_none_iff.mp ha hv
    rwa [(Store.sameAt_put hne).read_eq]
  | _ =>
    cases h
    exact ha

private theorem StoreM.read_setItem {p : Pool} {seg : Segment p} {i : Nat} {x : p.Item}
    {s s' : Store} {a : Address} (h : StoreM.setItem seg i x s = .ok () s') (ha : s.read a = none) :
    s'.read a = none := by
  obtain ⟨hi, rfl⟩ := StoreM.setItem_eq_ok h
  have hne : a ≠ .cell p (seg.start.toNat + i) := by
    rintro rfl
    exact Store.read_eq_none_iff.mp ha hi
  rwa [(Store.sameAt_putItem hne).read_eq]

/-- A step that brings addresses into use logs the stores. -/
theorem Step.stores_mem_or (h : Step t D cfg u cfg') :
    (∃ d ∈ u, d.stores = some (cfg.context.store, cfg'.context.store)) ∨
      ∀ a, cfg.context.store.read a = none → cfg'.context.store.read a = none := by
  cases h with
  | call | leave | settle => exact .inl ⟨_, List.mem_singleton_self _, rfl⟩
  | close hd hy hc => exact .inr fun a ha => Node.read_close hc ha
  | write hd hy hs => exact .inr fun a ha => StoreM.read_setItem hs ha
  | take ht =>
    cases ht with
    | write hs => exact .inr fun a ha => StoreM.read_setItem hs ha
    | _ => exact .inr fun a ha => ha
  | _ => exact .inr fun a ha => ha

/-- An address that a step does not overwrite holds after the step what it held before, or it came
into use by the step. -/
theorem Step.enters (ht : t.Appends) (h : Step t D cfg u cfg')
    (hg : s₀.Grows cfg.context.store) {a : Address} {x : a.Content} (hw : a ∉ cfg.writes)
    (hx : cfg'.context.store.read a = some x) :
    cfg.context.store.read a = some x ∨ Enters s₀ (log ++ u) a x := by
  rcases hread : cfg.context.store.read a with - | y
  · have h₀ : s₀.read a = none :=
      Store.read_eq_none_iff.mpr fun ha => Store.read_eq_none_iff.mp hread (hg.allocated ha)
    rcases h.stores_mem_or with ⟨d, hd, hs⟩ | hnone
    · exact .inr (.inr ⟨h₀, d, List.mem_append_right log hd, _, _, hs, hread, hx⟩)
    · cases (hnone a hread).symm.trans hx
  · have hsame := (h.changesOnly ht).same a (Store.allocated_of_read hread) hw
    rw [hsame.read_eq, hread] at hx
    exact .inl hx

/-- The store has grown, and what was not touched holds what it came into use with. -/
structure Config.Untouched (s₀ : Store) (log : List Deed) (cfg : Config σ) : Prop where
  grows : s₀.Grows cfg.context.store
  enters : ∀ (a : Address) (x : a.Content), ¬Touched log a →
    cfg.context.store.read a = some x → Enters s₀ log a x

theorem Config.Untouched.step (hi : cfg.Untouched s₀ log) (ht : t.Appends)
    (h : Step t D cfg u cfg') (ha : cfg.Accounted log) : cfg'.Untouched s₀ (log ++ u) := by
  refine ⟨hi.grows.trans (h.changesOnly ht).grows, fun a x htouch hx => ?_⟩
  have hl : ∀ d ∈ log, d ∈ log ++ u := fun d hd => List.mem_append_left u hd
  rcases h.enters ht hi.grows (fun hw => htouch (h.touched ha hw)) hx with hx | he
  · exact (hi.enters a x (fun hb => htouch (hb.mono hl)) hx).mono hl
  · exact he

theorem Steps.untouched (ht : t.Appends) (h : Steps t D cfg u cfg') (ha : cfg.Accounted [])
    (hi : cfg.Untouched s₀ []) : cfg'.Untouched s₀ u := by
  induction h with
  | refl => exact hi
  | tail h hs ih => exact ih.step ht hs (h.accounted ha)

end Steps

end GoTree
