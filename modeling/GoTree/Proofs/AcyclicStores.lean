import GoTree.Proofs.Closedness
import GoTree.Proofs.Edits
import GoTree.Proofs.SurfaceOrder
import Mathlib.Logic.Relation

/-!
# Stores without cycles

What stands at an address of a store **mentions** handles: ids, lists and symbols, in its slots, in
the values inside its slots, and beside them. An address **refers** to another one if it mentions a
handle that covers the other. The categories and pools have independent numberings, so no index says
which of two addresses is older. A store is **dated** when its addresses can be given dates such
that every reference goes back in time.

In a dated store no address reaches itself (`Store.DatedBy.not_transGen_refers`). If all handles
resolve too, everything unfolds to a finite tree (`Store.Sound.exists_unfolds`), although parts of
it may be shared, and so some depth suffices for the traversal that keeps everything and for
printing (`Store.Sound.exists_depth`).
-/

namespace GoTree

/-! ### Handles -/

/-- A reference of a tree to something else. -/
inductive Handle where
  | id (c : Category) (id : Id c)
  | list (p : Pool) (seg : Segment p)
  | symbol (sym : Symbol)

/-- The addresses that a handle stands for. -/
inductive Handle.Covers : Handle → Address → Prop where
  | id {c : Category} (id : Id c) : Covers (.id c id) (.node c id.index)
  | list {p : Pool} {seg : Segment p} {i : Nat} (hi : i < seg.length) :
      Covers (.list p seg) (.cell p (seg.start.toNat + i))

/-- The symbol in a payload that is a leaf. -/
def Category.symbol? : (c : Category) → c.Payload → Option Symbol
  | .comment, x => some (Comment.text x)
  | .expr, .ident name => some name.sym
  | .expr, .basicLit lit => some lit.value
  | _, _ => none

/-- The handle that a node is, or that it holds outside of its slots. -/
def Node.handle? : Node → Option Handle
  | ⟨.stored c, id⟩ => some (.id c id)
  | ⟨.ident, name⟩ => some (.symbol name.sym)
  | ⟨.basicLit, lit⟩ => some (.symbol lit.value)
  | ⟨.package, x⟩ => some (.symbol x.name)
  | _ => none

/-- A part mentions a handle, by itself or in a value inside it. -/
inductive SlotPart.Mentions : SlotPart → Handle → Prop where
  | node (l : String) {n : Node} {h : Handle} (hn : n.handle? = some h) : Mentions (.node l n) h
  | list (l : String) {p : Pool} (seg : Segment p) : Mentions (.list l p seg) (.list p seg)
  | inside {l : String} {n : Node} {q : SlotPart} {h : Handle}
      (hq : q ∈ (n.kind.slots n.value).parts) (hm : Mentions q h) : Mentions (.node l n) h
  | item {l : String} {p : Pool} {x : p.Item} {q : SlotPart} {h : Handle}
      (hq : q ∈ (p.slots l x).parts) (hm : Mentions q h) : Mentions (.item l p x) h

/-- What is passed around when a tree is made, and what stands in a store. -/
inductive Value where
  | symbol (sym : Symbol)
  | list (p : Pool) (seg : Segment p)
  | node (n : Node)
  | payload (c : Category) (x : c.Payload)
  | item (p : Pool) (x : p.Item)

/-- A value mentions a handle. -/
inductive Value.Mentions : Value → Handle → Prop where
  | symbol (sym : Symbol) : Mentions (.symbol sym) (.symbol sym)
  | list {p : Pool} (seg : Segment p) : Mentions (.list p seg) (.list p seg)
  | node {n : Node} {h : Handle} (hm : (SlotPart.node "" n).Mentions h) : Mentions (.node n) h
  | slot {c : Category} {x : c.Payload} {q : SlotPart} {h : Handle} (hq : q ∈ (c.slots x).parts)
      (hm : q.Mentions h) : Mentions (.payload c x) h
  | leaf {c : Category} {x : c.Payload} {sym : Symbol} (hs : c.symbol? x = some sym) :
      Mentions (.payload c x) (.symbol sym)
  | aside {c : Category} {x : c.Payload} {seg : Segment .commentGroups} (hs : seg ∈ c.aside x) :
      Mentions (.payload c x) (.list .commentGroups seg)
  | item {p : Pool} {x : p.Item} {h : Handle} (hm : (SlotPart.item "" p x).Mentions h) :
      Mentions (.item p x) h

/-- All handles that a part mentions have a property. -/
def SlotPart.All (K : Handle → Prop) (q : SlotPart) : Prop :=
  ∀ h, q.Mentions h → K h

/-- All handles that a value mentions have a property. -/
def Value.All (K : Handle → Prop) (v : Value) : Prop :=
  ∀ h, v.Mentions h → K h

/-! ### Parts inside parts -/

/-- How deep the values inside a part can be nested. -/
def SlotPart.rank : SlotPart → Nat
  | .list .. => 0
  | .node _ ⟨.spec, _⟩ => 2
  | .node .. => 1
  | .item .. => 3

/-- There are lists in a value, and single nodes in a specification, but no specifications. -/
private theorem SlotPart.rank_lt_of_mem {l : String} {n : Node} :
    ∀ q ∈ (n.kind.slots n.value).parts, q.rank < (SlotPart.node l n).rank := by
  obtain ⟨k, v⟩ := n
  cases k with
  | spec =>
    cases v <;> casesm* ImportSpec, ValueSpec, TypeSpec, Option _ <;>
      repeat' first
        | exact List.forall_mem_nil _
        | refine List.forall_mem_cons.mpr ⟨Nat.one_lt_two, ?_⟩
        | refine List.forall_mem_cons.mpr ⟨Nat.two_pos, ?_⟩
  | stored | ident | basicLit => exact List.forall_mem_nil _
  | fieldList | block | expandedBlock | package => exact List.forall_mem_singleton.mpr Nat.one_pos

private theorem SlotPart.rank_lt_of_isSlot {l : String} {p : Pool} {x : p.Item} {q : SlotPart}
    (h : q.IsSlot) : q.rank < (SlotPart.item l p x).rank := by
  unfold rank
  split <;> first | decide | exact absurd h id

/-- Induction on the values inside a part. -/
theorem SlotPart.inside_induction {C : SlotPart → Prop}
    (node : ∀ l (n : Node), (∀ q ∈ (n.kind.slots n.value).parts, C q) → C (.node l n))
    (list : ∀ l p seg, C (.list l p seg))
    (item : ∀ l p x, (∀ q ∈ (p.slots l x).parts, C q) → C (.item l p x)) (q : SlotPart) : C q := by
  induction hr : q.rank using Nat.strongRecOn generalizing q with
  | ind r ih =>
    subst hr
    cases q with
    | node l n => exact node l n fun q hq => ih _ (rank_lt_of_mem q hq) q rfl
    | list l p seg => exact list l p seg
    | item l p x =>
      exact item l p x fun q hq => ih _ (rank_lt_of_isSlot (Slots.isSlot_of_mem_parts hq)) q rfl

/-! ### The handles of a part -/

section Parts

variable {K K' : Handle → Prop} {l l' : String} {n : Node} {p : Pool} {q : SlotPart}

theorem SlotPart.All.imp (h : q.All K) (hK : ∀ h, K h → K' h) : q.All K' :=
  fun k hm => hK k (h k hm)

theorem SlotPart.All.inside (h : (SlotPart.node l n).All K) :
    ∀ q ∈ (n.kind.slots n.value).parts, q.All K :=
  fun _ hq k hm => h k (.inside hq hm)

theorem SlotPart.all_node : (SlotPart.node l n).All K ↔
    (∀ h ∈ n.handle?, K h) ∧ ∀ q ∈ (n.kind.slots n.value).parts, q.All K := by
  constructor
  · intro h
    exact ⟨fun k hk => h k (.node l hk), h.inside⟩
  · rintro ⟨hn, hi⟩ k ⟨⟩
    · next hk => exact hn k hk
    · next hq hm => exact hi _ hq k hm

/-- A node without parts inside it mentions one handle. -/
theorem SlotPart.all_node_of_handle? {h : Handle} (hn : n.handle? = some h)
    (hi : (n.kind.slots n.value).parts = []) : (SlotPart.node l n).All K ↔ K h := by
  rw [all_node, hn, hi]
  simp

theorem SlotPart.all_stored {c : Category} {id : Id c} :
    (SlotPart.node l (.stored id)).All K ↔ K (.id c id) :=
  all_node_of_handle? rfl rfl

theorem SlotPart.all_ident {x : IdentName} :
    (SlotPart.node l (.ident x)).All K ↔ K (.symbol x.sym) :=
  all_node_of_handle? rfl rfl

theorem SlotPart.all_basicLit {x : BasicLit} :
    (SlotPart.node l ⟨.basicLit, x⟩).All K ↔ K (.symbol x.value) :=
  all_node_of_handle? rfl rfl

theorem SlotPart.all_list {seg : Segment p} :
    (SlotPart.list l p seg).All K ↔ K (.list p seg) := by
  constructor
  · intro h
    exact h _ (.list l seg)
  · rintro h _ ⟨⟩
    exact h

theorem SlotPart.all_item {x : p.Item} :
    (SlotPart.item l p x).All K ↔ ∀ q ∈ (p.slots l x).parts, q.All K := by
  constructor
  · intro h q hq k hm
    exact h k (.item hq hm)
  · rintro h k ⟨⟩
    next hq hm => exact h _ hq k hm

theorem SlotPart.All.relabel (h : (SlotPart.node l n).All K) (l' : String) :
    (SlotPart.node l' n).All K :=
  all_node.mpr (all_node.mp h)

private theorem SlotPart.All.relabel_item {x : p.Item} (h : (SlotPart.item l p x).All K)
    (l' : String) :
    (SlotPart.item l' p x).All K := by
  rw [all_item] at h ⊢
  rcases p.parts_slots_relabel l l' x with ⟨n, hl, hl'⟩ | heq
  · rw [hl, List.forall_mem_singleton] at h
    rw [hl', List.forall_mem_singleton]
    exact h.relabel l'
  · rwa [heq]

/-- What holds of all handles of a part is a property of the parts inside it. -/
theorem SlotPart.All.passes {P : Node → Prop} {L : (p : Pool) → Segment p → Prop} (h : q.All K)
    (hP : ∀ n, (SlotPart.node "" n).All K → P n) (hL : ∀ p seg, K (.list p seg) → L p seg) :
    q.Passes P L := by
  induction q using inside_induction with
  | node l n ih => exact .node (hP n (h.relabel "")) fun q hq => ih q hq (h.inside q hq)
  | list l p seg => exact .list (hL p seg (all_list.mp h))
  | item l p x ih => exact .item fun q hq => ih q hq (all_item.mp h q hq)

end Parts

/-! ### The handles of a value -/

section Values

variable {K K' : Handle → Prop}

theorem Value.All.imp {v : Value} (h : v.All K) (hK : ∀ h, K h → K' h) : v.All K' :=
  fun k hm => hK k (h k hm)

theorem Value.all_symbol {sym : Symbol} : (Value.symbol sym).All K ↔ K (.symbol sym) := by
  constructor
  · intro h
    exact h _ (.symbol sym)
  · rintro h _ ⟨⟩
    exact h

theorem Value.all_list {p : Pool} {seg : Segment p} :
    (Value.list p seg).All K ↔ K (.list p seg) := by
  constructor
  · intro h
    exact h _ (.list seg)
  · rintro h _ ⟨⟩
    exact h

theorem Value.all_node {n : Node} : (Value.node n).All K ↔ (SlotPart.node "" n).All K := by
  constructor
  · intro h k hm
    exact h k (.node hm)
  · rintro h k ⟨⟩
    next hm => exact h k hm

theorem Value.all_item {p : Pool} {x : p.Item} :
    (Value.item p x).All K ↔ (SlotPart.item "" p x).All K := by
  constructor
  · intro h k hm
    exact h k (.item hm)
  · rintro h k ⟨⟩
    next hm => exact h k hm

theorem Value.all_payload {c : Category} {x : c.Payload} :
    (Value.payload c x).All K ↔ (∀ q ∈ (c.slots x).parts, q.All K) ∧
      (∀ sym ∈ c.symbol? x, K (.symbol sym)) ∧ ∀ seg ∈ c.aside x, K (.list _ seg) := by
  constructor
  · intro h
    exact ⟨fun q hq k hm => h k (.slot hq hm), fun sym hs => h _ (.leaf hs),
      fun seg hs => h _ (.aside hs)⟩
  · rintro ⟨hp, hs, ha⟩ k ⟨⟩
    · next hq hm => exact hp _ hq k hm
    · next h => exact hs _ h
    · next h => exact ha _ h

end Values

/-! ### References -/

namespace Store

/-- What stands at an address. -/
def value? (s : Store) : Address → Option Value
  | .node c i => (s.table c).nodes[i]?.map (.payload c)
  | .cell p i => (s.buffer p)[i]?.map (.item p)

/-- What stands at the address `a` mentions a handle of the address `b`. -/
def Refers (s : Store) (a b : Address) : Prop :=
  ∃ v h, s.value? a = some v ∧ v.Mentions h ∧ h.Covers b

private theorem value?_eq_of_sameAt {s s' : Store} {a : Address} (h : s.SameAt s' a) :
    s'.value? a = s.value? a := by
  cases a with
  | node c i => exact congrArg (Option.map (Value.payload c)) h
  | cell p i => exact congrArg (Option.map (Value.item p)) h

theorem allocated_of_value? {s : Store} {a : Address} {v : Value} (h : s.value? a = some v) :
    s.Allocated a := by
  cases a with
  | node c i =>
    obtain ⟨x, hx, -⟩ := Option.map_eq_some_iff.mp h
    exact (Array.getElem?_eq_some_iff.mp hx).1
  | cell p i =>
    obtain ⟨x, hx, -⟩ := Option.map_eq_some_iff.mp h
    exact (Array.getElem?_eq_some_iff.mp hx).1

theorem value?_of_get? {s : Store} {c : Category} {id : Id c} {x : c.Payload}
    (h : s.get? id = some x) : s.value? (.node c id.index) = some (.payload c x) :=
  congrArg (Option.map (Value.payload c)) h

theorem value?_of_getElem? {s : Store} {p : Pool} {i : Nat} {x : p.Item}
    (h : (s.buffer p)[i]? = some x) : s.value? (.cell p i) = some (.item p x) :=
  congrArg (Option.map (Value.item p)) h

end Store

/-! ### Sound stores -/

/-- A handle resolves: an id is allocated, a list ends in its buffer, and a symbol stands for a
string. -/
def Handle.Resolves (s : Store) (names : NameTable) : Handle → Prop
  | .id c i => s.Allocated (.node c i.index)
  | .list p seg => seg.stop ≤ (s.buffer p).size
  | .symbol sym => names.Knows sym

/-- All handles in a store resolve. -/
def Store.Sound (s : Store) (names : NameTable) : Prop :=
  ∀ a v, s.value? a = some v → v.All (Handle.Resolves s names)

section Sound

variable {s : Store} {names : NameTable} {n : Node} {q : SlotPart}

theorem Handle.Resolves.allocated {h : Handle} (hr : h.Resolves s names) {a : Address}
    (hc : h.Covers a) : s.Allocated a := by
  cases hc with
  | id id => exact hr
  | @list p seg i hi =>
    simp only [Handle.Resolves, Segment.stop, Segment.length, Store.Allocated] at hr hi ⊢
    omega

theorem SlotPart.All.resolves (h : q.All (Handle.Resolves s names)) : q.Resolves s := by
  refine h.passes (fun n hn => ?_) fun p seg hr => hr
  obtain ⟨k, v⟩ := n
  cases k with
  | stored c => exact (Node.resolves_stored (all_stored.mp hn)).head
  | _ => exact ⟨v, rfl⟩

/-- The symbol of a stored leaf is in its payload. -/
private theorem Node.symbol?_stored {c : Category} {id : Id c} {sym : Symbol}
    (h : (Node.stored id).symbol? s = some sym) :
    ∃ x, s.get? id = some x ∧ c.symbol? x = some sym := by
  cases c with
  | comment =>
    obtain ⟨x, hx, htext⟩ := Option.map_eq_some_iff.mp h
    exact ⟨x, hx, congrArg some htext⟩
  | expr =>
    simp only [Node.symbol?] at h
    split at h
    · next hx => exact ⟨_, hx, h⟩
    · next hx => exact ⟨_, hx, h⟩
    · cases h
  | _ => cases h

theorem Store.Sound.interned_part (hs : s.Sound names) (h : q.All (Handle.Resolves s names)) :
    q.Interned s names := by
  refine h.passes (fun n hn sym hsym => ?_) fun _ _ _ => trivial
  obtain ⟨k, v⟩ := n
  cases k with
  | stored c =>
    obtain ⟨x, hx, hleaf⟩ := Node.symbol?_stored hsym
    exact (Value.all_payload.mp (hs _ _ (value?_of_get? hx))).2.1 sym hleaf
  | ident =>
    cases hsym
    exact SlotPart.all_ident.mp hn
  | basicLit =>
    cases hsym
    exact SlotPart.all_basicLit.mp hn
  | _ => cases hsym

theorem Store.Sound.closed (hs : s.Sound names) : s.Closed where
  node {c i x} hx := by
    have hv : s.value? (.node c i) = some (.payload c x) := congrArg (Option.map _) hx
    obtain ⟨hp, -, ha⟩ := Value.all_payload.mp (hs _ _ hv)
    exact ⟨fun q hq => (hp q hq).resolves, ha⟩
  cell hx q hq :=
    (SlotPart.all_item.mp (Value.all_item.mp (hs _ _ (value?_of_getElem? hx))) q hq).resolves

theorem Store.Sound.interned (hs : s.Sound names) : s.Interned names where
  node {c i x} hx := by
    have hv : s.value? (.node c i) = some (.payload c x) := congrArg (Option.map _) hx
    exact fun q hq => hs.interned_part ((Value.all_payload.mp (hs _ _ hv)).1 q hq)
  cell hx q hq :=
    hs.interned_part
      (SlotPart.all_item.mp (Value.all_item.mp (hs _ _ (value?_of_getElem? hx))) q hq)

end Sound

/-! ### Dated stores -/

/-- The addresses of a store have dates, and every reference goes back in time. -/
structure Store.DatedBy (s : Store) (date : Address → Nat) (now : Nat) : Prop where
  past : ∀ a, s.Allocated a → date a < now
  back : ∀ a b, s.Refers a b → date b < date a

/-- No address reaches itself. -/
theorem Store.DatedBy.not_transGen_refers {s : Store} {date : Address → Nat} {now : Nat}
    (h : s.DatedBy date now) (a : Address) : ¬Relation.TransGen s.Refers a a := by
  intro ha
  have hlt : ∀ b, Relation.TransGen s.Refers a b → date b < date a := by
    intro b hb
    induction hb with
    | single hr => exact h.back _ _ hr
    | tail _ hr ih => exact Nat.lt_trans (h.back _ _ hr) ih
  exact Nat.lt_irrefl _ (hlt a ha)

/-- What is added now, and refers to older addresses only, keeps a store dated. -/
theorem Store.DatedBy.extend {s s' : Store} {date : Address → Nat} {now : Nat}
    (h : s.DatedBy date now) (he : s.Extends s') (hold : ∀ a b, s'.Refers a b → s.Allocated b) :
    ∃ date', s'.DatedBy date' (now + 1) := by
  classical
  refine ⟨fun a => if s.Allocated a then date a else now, fun a _ => ?_, fun a b hr => ?_⟩
  · split
    · next ha => exact Nat.lt_succ_of_lt (h.past a ha)
    · exact Nat.lt_succ_self now
  · have hb := hold a b hr
    rw [if_pos hb]
    split
    · next ha =>
      obtain ⟨v, k, hv, hm, hc⟩ := hr
      rw [value?_eq_of_sameAt (he.same a ha)] at hv
      exact h.back a b ⟨v, k, hv, hm, hc⟩
    · exact h.past b hb

/-! ### Finite trees -/

section Finite

variable {s : Store} {names : NameTable} {date : Address → Nat} {now : Nat}

/-- Parts that unfold one by one unfold together. -/
theorem Unfolds.exists_of_forall {ps : List SlotPart}
    (h : ∀ q ∈ ps, ∃ T fp, Unfolds s [q] [T] fp) : ∃ ts fp, Unfolds s ps ts fp := by
  induction ps with
  | nil => exact ⟨[], 0, .nil⟩
  | cons q ps ih =>
    obtain ⟨hq, hps⟩ := List.forall_mem_cons.mp h
    obtain ⟨T, fp, hT⟩ := hq
    obtain ⟨ts, gp, hts⟩ := ih hps
    exact ⟨[T] ++ ts, fp + gp, hT.append hts⟩

/-- A stretch of cells in use is read. -/
theorem Store.exists_reads {p : Pool} {k n : Nat} (h : k + n ≤ (s.buffer p).size) :
    ∃ xs, xs.length = n ∧ s.Reads p k xs := by
  induction n generalizing k with
  | zero => exact ⟨[], rfl, trivial⟩
  | succ n ih =>
    obtain ⟨xs, hlen, hxs⟩ := ih (k := k + 1) (by omega)
    have hk : k < (s.buffer p).size := by omega
    exact ⟨(s.buffer p)[k] :: xs, by rw [List.length_cons, hlen], Array.getElem?_eq_getElem hk, hxs⟩

theorem Store.Reads.exists_cell {p : Pool} {k : Nat} {xs : List p.Item} (h : s.Reads p k xs)
    {x : p.Item} (hx : x ∈ xs) : ∃ i < xs.length, (s.buffer p)[k + i]? = some x := by
  obtain ⟨i, hi, rfl⟩ := List.getElem_of_mem hx
  exact ⟨i, hi, (h.getElem?_eq hi).trans (List.getElem?_eq_getElem hi)⟩

/-- A handle resolves, and what it stands for is older than a date. -/
def Handle.Before (s : Store) (names : NameTable) (date : Address → Nat) (t : Nat) (h : Handle) :
    Prop :=
  h.Resolves s names ∧ ∀ a, h.Covers a → date a < t

/-- Whatever stands at an address mentions what is older than the address. -/
private theorem Store.Sound.all_before (hs : s.Sound names) (hd : s.DatedBy date now) {a : Address}
    {v : Value} (hv : s.value? a = some v) : v.All (Handle.Before s names date (date a)) :=
  fun h hm => ⟨hs a v hv h hm, fun b hc => hd.back a b ⟨v, h, hv, hm, hc⟩⟩

/-- A node unfolds if the parts of its body do. -/
private theorem Unfolds.exists_of_body? {l : String} {n : Node} {x : n.kind.Body}
    (hx : n.body? s = some x) (h : ∀ q ∈ (n.kind.bodySlots x).parts, ∃ T fp, Unfolds s [q] [T] fp) :
    ∃ T fp, Unfolds s [.node l n] [T] fp := by
  obtain ⟨ts, fp, hts⟩ := exists_of_forall h
  exact ⟨_, _, .node hx hts .nil⟩

/-- **Finiteness.** In a dated store, parts whose handles resolve unfold to trees. -/
theorem Store.Sound.exists_unfolds (hs : s.Sound names) (hd : s.DatedBy date now) {q : SlotPart}
    (hq : q.All (Handle.Resolves s names)) : ∃ T fp, Unfolds s [q] [T] fp := by
  have hold : ∀ {a v}, s.value? a = some v → v.All (Handle.Before s names date (date a)) :=
    hs.all_before hd
  replace hq : q.All (Handle.Before s names date now) :=
    hq.imp fun h hr => ⟨hr, fun a hc => hd.past a (hr.allocated hc)⟩
  clear hd
  -- what is in the store is older than the handle it is found by, the rest is inside of the part
  induction now using Nat.strongRecOn generalizing q with
  | ind t ih =>
    induction q using SlotPart.inside_induction with
    | node l n inner =>
      obtain ⟨k, v⟩ := n
      cases k with
      | stored c =>
        obtain ⟨ha, ht⟩ := SlotPart.all_stored.mp hq
        have hx : s.get? v = some (s.table c).nodes[v.index] := Array.getElem?_eq_getElem ha
        have hp := (Value.all_payload.mp (hold (Store.value?_of_get? hx))).1
        exact Unfolds.exists_of_body? hx fun q' hq' => ih _ (ht _ (.id v)) (hp q' hq')
      | _ => exact Unfolds.exists_of_body? rfl fun q' hq' => inner q' hq' (hq.inside q' hq')
    | list l p seg =>
      obtain ⟨hr, ht⟩ := SlotPart.all_list.mp hq
      obtain ⟨xs, hlen, hxs⟩ := Store.exists_reads hr
      have hitems : ∀ q' ∈ xs.map (SlotPart.item l p), ∃ T fp, Unfolds s [q'] [T] fp := by
        intro q' hq'
        obtain ⟨x, hmem, rfl⟩ := List.mem_map.mp hq'
        obtain ⟨i, hi, hx⟩ := hxs.exists_cell hmem
        have hx' := Value.all_item.mp (hold (Store.value?_of_getElem? hx))
        exact ih _ (ht _ (.list (Nat.lt_of_lt_of_eq hi hlen))) (hx'.relabel_item l)
      obtain ⟨ts, fp, hts⟩ := Unfolds.exists_of_forall hitems
      exact ⟨_, _, .list hr hlen hxs hts .nil⟩
    | item l p x inner =>
      obtain ⟨ts, fp, hts⟩ := Unfolds.exists_of_forall fun q' hq' =>
        inner q' hq' (SlotPart.all_item.mp hq q' hq')
      exact ⟨_, _, .item hts .nil⟩

end Finite

/-! ### Depth enough -/

section Depth

variable {σ : Type} {q : σ} {s : Store} {d e : Nat} {l : String}

/-- A slot is walked through by `keepAll` within depth `d`, and nothing changes. A node may be found
anywhere. -/
def SlotPart.Kept (s : Store) (d : Nat) : SlotPart → Prop
  | .node _ n => ∀ o, ∃ w, Completes keepAll d (.visit o n) ⟨s, ()⟩ w n ⟨s, ()⟩
  | .list l p seg => ∃ w, Completes keepAll (d + 1) (.parts [.list l p seg]) ⟨s, ()⟩ w
      [.list l p seg] ⟨s, ()⟩
  | .item .. => False

theorem SlotPart.Kept.mono {q : SlotPart} (h : q.Kept s d) (he : d ≤ e) : q.Kept s e := by
  cases q with
  | node l n =>
    intro o
    obtain ⟨w, hw⟩ := h o
    exact ⟨w, hw.mono he⟩
  | list l p seg =>
    obtain ⟨w, hw⟩ := h
    exact ⟨w, hw.mono (Nat.succ_le_succ he)⟩
  | item => exact h

/-- Parts that are walked through unchanged one by one are walked through together. -/
theorem completes_parts {t : Transformer σ} {ps : List SlotPart}
    (h : ∀ p ∈ ps, ∃ w, Completes t (d + 1) (.parts [p]) ⟨s, q⟩ w [p] ⟨s, q⟩) :
    ∃ w, Completes t (d + 1) (.parts ps) ⟨s, q⟩ w ps ⟨s, q⟩ := by
  induction ps with
  | nil => exact ⟨[], .nil⟩
  | cons p ps ih =>
    obtain ⟨⟨u, hu⟩, hps⟩ := List.forall_mem_cons.mp h
    obtain ⟨w, hw⟩ := ih hps
    exact ⟨u ++ w, Transformer.completes_cons hu hw⟩

theorem completes_of_kept {ps : List SlotPart} (h : ∀ q ∈ ps, q.Kept s d) :
    ∃ w, Completes keepAll (d + 1) (.parts ps) ⟨s, ()⟩ w ps ⟨s, ()⟩ := by
  refine completes_parts fun q hq => ?_
  have hk := h q hq
  cases q with
  | node l n =>
    obtain ⟨u, hu⟩ := hk (.slot l)
    exact ⟨u ++ [], .node hu rfl .nil⟩
  | list l p seg => exact hk
  | item => exact absurd hk id

/-- A node whose parts are walked through unchanged is so too, if the transformer goes on with
it. -/
theorem completes_visit {t : Transformer σ} {n : Node} {x : n.kind.Body} {w : List Mark}
    (hr : t.replace n ⟨s, q⟩ = .ok (n, true) ⟨s, q⟩) (hl : t.leave ⟨s, q⟩ = .ok () ⟨s, q⟩)
    (hx : n.body? s = some x)
    (hw : Completes t d (.parts (n.kind.bodySlots x).parts) ⟨s, q⟩ w (n.kind.bodySlots x).parts
      ⟨s, q⟩) (o : Origin) : ∃ w, Completes t d (.visit o n) ⟨s, q⟩ w n ⟨s, q⟩ := by
  have hy : (n.kind.bodySlots x).Refills (n.kind.bodySlots x).parts x :=
    Slots.refills_parts_iff.mpr (n.kind.lawful.rebuild x).symm
  rcases hc : n.close x s with ⟨r, s'⟩ | ⟨f, s'⟩
  · obtain ⟨rfl, rfl⟩ := n.close_of_body? hx hc
    exact ⟨_, .down hr hx hw hy hc hl⟩
  · exact absurd hc (Node.close_ne_error hx (.refl s))

/-- A node whose parts are kept is kept. -/
private theorem kept_node {n : Node} {x : n.kind.Body} (hx : n.body? s = some x)
    (h : ∀ q ∈ (n.kind.bodySlots x).parts, q.Kept s d) : (SlotPart.node l n).Kept s (d + 1) := by
  obtain ⟨w, hw⟩ := completes_of_kept h
  exact completes_visit rfl rfl hx hw

/-- The first of the items that are left is read, and it can be written back. -/
theorem Store.Small.item_and_setItem (hm : s.Small) {p : Pool} {seg : Segment p} {n i : Nat}
    {x : p.Item} (hs : seg.stop ≤ (s.buffer p).size) (hi : i + (n + 1) = seg.length)
    (hx : (s.buffer p)[seg.start.toNat + i]? = some x) :
    s.item seg i = .ok x ∧ StoreM.setItem seg i x s = .ok () s := by
  have hlt : i < seg.length := by omega
  refine ⟨Store.item_eq_ok (hm.fault?_eq_none hs) hlt hx, ?_⟩
  rw [hm.setItem_eq hs hlt, Store.putItem_of_getElem? hx]

/-- Items whose slots are walked through unchanged are. -/
theorem completes_items {t : Transformer σ} (hm : s.Small) {p : Pool} {seg : Segment p} {n i : Nat}
    {xs : List p.Item} (hs : seg.stop ≤ (s.buffer p).size) (hi : i + n = seg.length)
    (hl : xs.length = n) (hx : s.Reads p (seg.start.toNat + i) xs)
    (h : ∀ x ∈ xs, ∃ w, Completes t d (.parts (p.slots l x).parts) ⟨s, q⟩ w (p.slots l x).parts
      ⟨s, q⟩) : ∃ w, Completes t d (.items l p seg n i) ⟨s, q⟩ w () ⟨s, q⟩ := by
  induction xs generalizing n i with
  | nil =>
    subst hl
    exact ⟨[], .itemsDone⟩
  | cons x xs ih =>
    subst hl
    obtain ⟨⟨u, hu⟩, hrest⟩ := List.forall_mem_cons.mp h
    obtain ⟨hread, hwrite⟩ := hm.item_and_setItem hs hi hx.1
    obtain ⟨w, hw⟩ := ih (i := i + 1) (by rw [← hi, List.length_cons]; omega) rfl hx.2 hrest
    exact ⟨u ++ w, .itemsNext hread hu
      (Slots.refills_parts_iff.mpr ((p.lawful l).rebuild x).symm) hwrite hw⟩

/-- The same for statements, each of which is visited by itself. -/
theorem completes_stmts {t : Transformer σ} (hm : s.Small) {seg : Segment .stmts} {n i : Nat}
    {xs : List (Id .stmt)} (hs : seg.stop ≤ (s.buffer .stmts).size) (hi : i + n = seg.length)
    (hl : xs.length = n) (hx : s.Reads .stmts (seg.start.toNat + i) xs)
    (h : ∀ x ∈ xs, ∃ w, Completes t d (.visit (.item l) (.stored x)) ⟨s, q⟩ w (.stored x)
      ⟨s, q⟩) : ∃ w, Completes t d (.stmts l seg n i none) ⟨s, q⟩ w none ⟨s, q⟩ := by
  induction xs generalizing n i with
  | nil =>
    subst hl
    exact ⟨[], .stmtsDone⟩
  | cons x xs ih =>
    subst hl
    obtain ⟨⟨u, hu⟩, hrest⟩ := List.forall_mem_cons.mp h
    obtain ⟨hread, hwrite⟩ := hm.item_and_setItem hs hi hx.1
    obtain ⟨w, hw⟩ := ih (i := i + 1) (by rw [← hi, List.length_cons]; omega) rfl hx.2 hrest
    exact ⟨u ++ [] ++ w, .stmtsNext hread hu (.write hwrite) hw⟩

/-- A list whose items are kept is kept. -/
private theorem kept_list (hm : s.Small) {p : Pool} {seg : Segment p} {xs : List p.Item}
    (hs : seg.stop ≤ (s.buffer p).size) (hl : xs.length = seg.length)
    (hx : s.Reads p seg.start.toNat xs)
    (h : ∀ x ∈ xs, ∀ q ∈ (p.slots l x).parts, q.Kept s d) :
    (SlotPart.list l p seg).Kept s (d + 1) := by
  by_cases hp : p = .stmts
  · subst hp
    obtain ⟨w, hw⟩ := completes_stmts hm hs (Nat.zero_add _) hl hx fun x hmem =>
      (List.forall_mem_singleton.mp (h x hmem)) (.item l)
    exact ⟨w ++ [], .stmts hs (hw.mono (Nat.le_succ d)) rfl .nil⟩
  · obtain ⟨w, hw⟩ := completes_items hm hs (Nat.zero_add _) hl hx fun x hmem =>
      completes_of_kept (h x hmem)
    exact ⟨w ++ [], .list hp hs hw .nil⟩

/-- The slots that a part shows: an item is seen through to its own. -/
def SlotPart.slots : SlotPart → List SlotPart
  | .item l p x => (p.slots l x).parts
  | q => [q]

/-- Finitely many slots are kept within one depth. -/
private theorem exists_kept_cons {q : SlotPart} {ps : List SlotPart}
    (hq : ∀ q' ∈ q.slots, q'.Kept s d) (hps : ∃ d, ∀ q ∈ ps, ∀ q' ∈ q.slots, q'.Kept s d) :
    ∃ d, ∀ q' ∈ q :: ps, ∀ q'' ∈ q'.slots, q''.Kept s d := by
  obtain ⟨e, hps⟩ := hps
  refine ⟨max d e, List.forall_mem_cons.mpr ⟨fun q' hq' => ?_, fun r hr q' hq' => ?_⟩⟩
  · exact (hq q' hq').mono (Nat.le_max_left d e)
  · exact (hps r hr q' hq').mono (Nat.le_max_right d e)

private theorem SlotPart.forall_slots_of_parts {α : Type} {x : Slots α}
    (h : ∀ q ∈ x.parts, ∀ q' ∈ q.slots, q'.Kept s d) : ∀ q ∈ x.parts, q.Kept s d := by
  intro q hq
  have hslot := Slots.isSlot_of_mem_parts hq
  cases q with
  | node => exact h _ hq _ (.head _)
  | list => exact h _ hq _ (.head _)
  | item => exact absurd hslot id

/-- What unfolds is kept. -/
private theorem Unfolds.exists_kept {ps : List SlotPart} {ts : List Tree} {fp : Multiset Address}
    (h : Unfolds s ps ts fp) (hm : s.Small) : ∃ d, ∀ q ∈ ps, ∀ q' ∈ q.slots, q'.Kept s d := by
  induction h with
  | nil => exact ⟨0, List.forall_mem_nil _⟩
  | @node l n x ps us ts fp gp hx _ _ ihu iht =>
    obtain ⟨d, hd⟩ := ihu
    have hk := kept_node (l := l) hx (SlotPart.forall_slots_of_parts hd)
    exact exists_kept_cons (List.forall_mem_singleton.mpr hk) iht
  | @list l p seg xs ps us ts fp gp hs hl hx _ _ ihu iht =>
    obtain ⟨d, hd⟩ := ihu
    have hk := kept_list (l := l) hm hs hl hx fun x hmem => hd _ (List.mem_map_of_mem hmem)
    exact exists_kept_cons (List.forall_mem_singleton.mpr hk) iht
  | item _ _ ihu iht =>
    obtain ⟨d, hd⟩ := ihu
    exact exists_kept_cons (SlotPart.forall_slots_of_parts hd) iht

/-- What unfolds is walked through, and nothing changes. -/
theorem Unfolds.exists_run_keepAll {n : Node} {T : Tree} {fp : Multiset Address}
    (h : Unfolds s [.node "" n] [T] fp) (hm : s.Small) :
    ∃ D, ∀ depth, D ≤ depth → (keepAll.run depth n s ()).result = .ok n ∧
      (keepAll.run depth n s ()).store = s := by
  obtain ⟨D, hD⟩ := h.exists_kept hm
  obtain ⟨w, hw⟩ := hD _ (.head _) _ (.head _) .root
  refine ⟨D, fun depth hdepth => ?_⟩
  rw [(hw.mono hdepth).run_eq]
  exact ⟨rfl, rfl⟩

end Depth

/-- **Sound and dated stores.** A node whose handles resolve is walked through by the traversal that
keeps everything and is printed, through any depth that is enough. -/
theorem Store.Sound.exists_depth {s : Store} {names : NameTable} {date : Address → Nat} {now : Nat}
    (hs : s.Sound names) (hd : s.DatedBy date now) (hm : s.Small) {n : Node}
    (hn : (Value.node n).All (Handle.Resolves s names)) :
    ∃ D, ∀ depth, D ≤ depth → (keepAll.run depth n s ()).result = .ok n ∧
      (keepAll.run depth n s ()).store = s ∧ ∃ text, s.print names depth n = .ok text := by
  rw [Value.all_node] at hn
  obtain ⟨T, fp, hT⟩ := hs.exists_unfolds hd hn
  obtain ⟨D, hD⟩ := hT.exists_run_keepAll hm
  refine ⟨D + 1, fun depth hdepth => ?_⟩
  obtain ⟨hr, hstore⟩ := hD depth (Nat.le_of_succ_le hdepth)
  refine ⟨hr, hstore, ?_⟩
  rcases hs.closed.print hn.resolves hs.interned (hs.interned_part hn) hm depth with hok | hdeep
  · exact hok
  · -- the depth of the traversal bounds that of printing
    have ha := agrees_draft names (hD D (Nat.le_refl D)).1 depth
    rw [Store.print_eq_text] at hdeep
    rcases hdraft : s.draft names depth n with e | doc
    · rw [hdraft] at ha hdeep
      cases hdeep
      cases ha with
      | deep h => exact absurd hdepth h
      | range h => exact absurd hm h
    · rw [hdraft] at hdeep
      cases hdeep

end GoTree
