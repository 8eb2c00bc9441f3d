import GoTree.Proofs.Bounds
import GoTree.Proofs.IdentityWalk
import GoTree.Proofs.PrintedParts
import GoTree.Proofs.Rendering

/-!
# Surface order

The slots of a construct stand in surface order, so a traversal should meet the names of a node in
the order in which they are printed. Traversal and printer are two functions over every construct,
and what relates them here are their rules: `Walks.agrees` compares a walk and a scan of the same
parts. Printing passes over some of the parts, hence a scan is given a sublist of the parts of the
walk; the names it prints are a sublist of the names that are met, and all of them if nothing is
passed over.

Two results follow. `print_surface_order` is about the order of names, which are those of the
document that printing writes (`Store.render_eq_draw`). `print_of_walk` is about faults: where the
traversal that keeps everything returns, every handle that printing follows was tested before, and
the depth of the traversal is depth enough.
-/

namespace GoTree

/-! ### Scans against walks -/

/-- A scan agrees with the symbols that are met: it prints a sublist of them, and all if the parts
are printed whole; its only fault is a symbol that stands for no string, if the depth is enough and
the buffers are small. -/
inductive Agrees (whole enough small : Prop) : Scan → List Symbol → Prop where
  | ok {K L : List Symbol} (h : K.Sublist L) (hw : whole → K = L) :
      Agrees whole enough small (.ok K) L
  | unknown {L : List Symbol} : Agrees whole enough small (.error .invalidSymbol) L
  | deep {L : List Symbol} (h : ¬enough) : Agrees whole enough small (.error .tooDeep) L
  | range {L : List Symbol} {e : Fault} (h : ¬small) : Agrees whole enough small (.error e) L

namespace Agrees

variable {whole whole' enough enough' small : Prop} {r r' : Scan} {K L M : List Symbol}

theorem imp (h : Agrees whole enough small r L) (hw : whole' → whole) (he : enough' → enough) :
    Agrees whole' enough' small r L := by
  cases h with
  | ok h h' => exact .ok h fun w => h' (hw w)
  | unknown => exact .unknown
  | deep h => exact .deep fun e => h (he e)
  | range h => exact .range h

theorem nil (hw : whole → L = []) : Agrees whole enough small (.ok []) L :=
  .ok L.nil_sublist fun w => (hw w).symm

theorem seq (h : Agrees whole enough small r L) (h' : Agrees whole enough small r' M) :
    Agrees whole enough small (r.seq r') (L ++ M) := by
  cases h with
  | ok h hw =>
    cases h' with
    | ok h' hw' => exact .ok (h.append h') fun w => by rw [hw w, hw' w]
    | unknown => exact .unknown
    | deep h => exact .deep h
    | range h => exact .range h
  | unknown => exact .unknown
  | deep h => exact .deep h
  | range h => exact .range h

/-- Nothing of the first part is printed. -/
private theorem skip (h : Agrees whole enough small r M) (hw : ¬whole') :
    Agrees whole' enough small r (L ++ M) := by
  cases h with
  | ok h _ => exact .ok (h.trans (List.sublist_append_right _ _)) fun w => absurd w hw
  | unknown => exact .unknown
  | deep h => exact .deep h
  | range h => exact .range h

end Agrees

/-- Every node that is met in the parts of a list is printed whole. -/
def PrintsWhole (s : Store) (b : Bool) (ps : List SlotPart) : Prop :=
  ∀ b' m, Met s b ps b' m → ∀ x, m.body? s = some x → m.kind.shown b' x = x

/-- The symbols of nodes, in order. -/
def symbolsOf (s : Store) (ns : List Node) : List Symbol :=
  ns.filterMap (Node.symbol? s)

private theorem symbolsOf_append (s : Store) (ns ms : List Node) :
    symbolsOf s (ns ++ ms) = symbolsOf s ns ++ symbolsOf s ms :=
  List.filterMap_append

private theorem symbolsOf_cons (s : Store) (n : Node) (ns : List Node) :
    symbolsOf s (n :: ns) = (n.symbol? s).toList ++ symbolsOf s ns := by
  rw [symbolsOf, List.filterMap_cons]
  cases n.symbol? s <;> rfl

section Agree

variable {s : Store} {names : NameTable} {D d : Nat} {b : Bool} {r : Scan} {ns : List Node}

/-- A node is scanned. `ih` is about the parts of its body, of which some are printed. -/
private theorem agrees_node {e : Nat} {l : String} {n : Node} {x : n.kind.Body}
    (h : Scans s names D b [.node l n] r) (hd : e + (SlotPart.node l n).levels ≤ d)
    (hx : n.body? s = some x)
    (ih : ∀ (D : Nat) (b : Bool) (qs : List SlotPart) (r : Scan),
      qs.Sublist (n.kind.bodySlots x).parts → Scans s names D b qs r →
      Agrees (qs = (n.kind.bodySlots x).parts ∧ PrintsWhole s b (n.kind.bodySlots x).parts) (e ≤ D)
        s.Small r (symbolsOf s ns)) :
    Agrees (PrintsWhole s b [.node l n]) (d ≤ D) s.Small r (symbolsOf s (n :: ns)) := by
  rw [symbolsOf_cons]
  cases h with
  | node hD hx' hn h =>
    cases hx.symm.trans hx'
    refine .seq (.ok (.refl _) fun _ => rfl) ?_
    have hsub := n.kind.parts_shown_sublist b x
    refine (ih _ _ _ _ hsub h).imp (fun hw => ⟨?_, ?_⟩) fun h => by omega
    · rw [hw b n .here x hx]
    · exact fun b' m hm => hw b' m (.inner hx hm)
  | unknown => exact .unknown
  | dangling hx' => cases hx.symm.trans hx'
  | deep hD => exact .deep (by omega)

/-- A list is scanned. -/
private theorem agrees_list {e : Nat} {l : String} {p : Pool} {seg : Segment p} {xs : List p.Item}
    (h : Scans s names D b [.list l p seg] r) (hd : e + (SlotPart.list l p seg).levels ≤ d)
    (hs : seg.stop ≤ (s.buffer p).size) (hl : xs.length = seg.length)
    (hx : s.Reads p seg.start.toNat xs) (hw : Walks s e (xs.map (.item l p)) ns)
    (ih : ∀ (D : Nat) (r : Scan), Scans s names D b (xs.map (.item l p)) r →
      Agrees (PrintsWhole s b (xs.map (.item l p))) (e ≤ D) s.Small r (symbolsOf s ns)) :
    Agrees (PrintsWhole s b [.list l p seg]) (d ≤ D) s.Small r (symbolsOf s ns) := by
  cases h with
  | list hD hys h =>
    have hxs := hx.extract_eq
    rw [hl] at hxs
    rw [Store.eq_extract_of_items hys, show seg.stop = seg.start.toNat + seg.length from rfl, hxs]
      at h
    refine (ih _ r h).imp (fun hw b' m hm => hw b' m (.list hl hx hm)) fun h => by omega
  | range he =>
    refine .range fun hm => ?_
    rw [hm.items_eq hs] at he
    cases he
  | skip he =>
    -- printing did not look at the handle, but the walk met nothing in the list either
    have hlen : seg.length = 0 := congrArg UInt32.toNat (eq_of_beq he)
    rw [hlen] at hl
    obtain rfl := List.eq_nil_of_length_eq_zero hl
    cases hw
    exact .nil fun _ => rfl
  | deep hD => exact .deep (by omega)

/-- **Scans agree with walks.** A scan of some of the parts that are walked through prints a sublist
of the symbols that are met. -/
theorem Walks.agrees {ps : List SlotPart} (h : Walks s d ps ns) :
    ∀ (D : Nat) (b : Bool) (qs : List SlotPart) (r : Scan), qs.Sublist ps →
      Scans s names D b qs r →
      Agrees (qs = ps ∧ PrintsWhole s b ps) (d ≤ D) s.Small r (symbolsOf s ns) := by
  induction h with
  | nil =>
    intro D b qs r hq hr
    obtain rfl := List.eq_nil_of_sublist_nil hq
    cases hr
    exact .nil fun _ => rfl
  | @cons d q q' ps ns ms _ _ ih ih' =>
    intro D b qs r hq hr
    rw [symbolsOf_append]
    cases hq with
    | cons _ hq =>
      -- the first part is passed over
      refine (ih' D b qs r hq hr).skip ?_
      rintro ⟨rfl, -⟩
      exact absurd hq.length_le (by simp)
    | cons_cons _ hq =>
      obtain ⟨r₁, r₂, h₁, h₂, rfl⟩ := hr.exists_of_cons
      refine .seq ((ih D b _ r₁ (.refl _) h₁).imp ?_ id) ((ih' D b _ r₂ hq h₂).imp ?_ id)
      · exact fun hw => ⟨rfl, fun b' m hm => hw.2 b' m hm.of_first⟩
      · exact fun hw => ⟨(List.cons.inj hw.1).2, fun b' m hm => hw.2 b' m (.rest hm)⟩
  | node hd hx _ ih =>
    intro D b qs r hq hr
    rcases List.sublist_singleton.mp hq with rfl | rfl
    · cases hr
      exact .nil fun hw => absurd hw.1 (by simp)
    · exact (agrees_node hr hd hx ih).imp And.right id
  | list hd hs hl hx hw ih =>
    intro D b qs r hq hr
    rcases List.sublist_singleton.mp hq with rfl | rfl
    · cases hr
      exact .nil fun hw => absurd hw.1 (by simp)
    · refine (agrees_list hr hd hs hl hx hw fun D r hr => ?_).imp And.right id
      exact (ih D b _ r (.refl _) hr).imp (fun hw => ⟨rfl, hw⟩) id
  | item _ ih =>
    intro D b qs r hq hr
    rcases List.sublist_singleton.mp hq with rfl | rfl
    · cases hr
      exact .nil fun hw => absurd hw.1 (by simp)
    · cases hr with
      | item hr =>
        refine (ih D b _ r (.refl _) hr).imp (fun hw => ⟨rfl, fun b' m hm => ?_⟩) id
        exact hw.2 b' m (.item hm)
      | deep hD => exact absurd hD (Nat.not_lt_zero _)

end Agree

/-- The comparison at a root. -/
theorem agrees_draft {depth : Nat} {root r : Node} {s : Store} (names : NameTable)
    (hr : (keepAll.run depth root s ()).result = .ok r) (D : Nat) :
    Agrees (PrintsWhole s false [.node "" root]) (depth < D) s.Small (s.draft names D root).scan
      (symbolsOf s (keepAll.run depth root s ()).visited) :=
  ((walks_of_run hr "").agrees D false _ _ (.refl _) (s.scans_draft names D "" root)).imp
    (fun hw => ⟨rfl, hw⟩) id

/-! ### The order of names -/

/-- No part that printing passes over is met below a root: no header of a range loop has a value
without a key, and no field outside of a struct has a comment above it. -/
structure Store.ShowsAll (s : Store) (root : Node) : Prop where
  range : ∀ (b : Bool) (id : Id .stmt) (value x : Id .expr) (define : Bool) (body : Block),
    Met s false [.node "" root] b (.stored id) →
    s.get? id ≠ some (Stmt.forStmt (.range none (some value) define x) body)
  doc : ∀ (id : Id .field) (x : Field), Met s false [.node "" root] false (.stored id) →
    s.get? id = some x → x.doc = none

private theorem Store.ShowsAll.printsWhole {s : Store} {root : Node} (h : s.ShowsAll root) :
    PrintsWhole s false [.node "" root] := by
  intro b m hm x hx
  obtain ⟨k, v⟩ := m
  cases k with
  | stored c =>
    cases c with
    | field =>
      cases b with
      | true => rfl
      | false =>
        obtain ⟨doc, names, variadic, typ, tag, comment⟩ := x
        obtain rfl : doc = none := h.doc v _ hm hx
        rfl
    | stmt =>
      cases x with
      | forStmt kind body =>
        cases kind with
        | range key value define x =>
          cases key with
          | some key => rfl
          | none =>
            cases value with
            | none => rfl
            | some value => exact absurd hx (h.range b v value x define body hm)
        | _ => rfl
      | _ => rfl
    | _ => rfl
  | _ => rfl

/-- **Surface order.** Take any store, names and root such that the traversal that keeps everything
returns and printing the root succeeds. The symbols of the names that are printed, in the order in
which they are written, are a sublist of the symbols that the traversal meets, in the order in which
it meets them. They are all of these symbols if nothing is met that printing passes over. What is
met are the nodes that the traversal visits, each at the places where it is found. -/
theorem print_surface_order {depth D : Nat} {root r : Node} {store : Store} {names : NameTable}
    {text : String} (hr : (keepAll.run depth root store ()).result = .ok r)
    (hp : store.print names D root = .ok text) :
    let visited := (keepAll.run depth root store ()).visited
    (∀ n, n ∈ visited ↔ ∃ b, Met store false [.node "" root] b n) ∧
    ∃ doc, store.draft names D root = .ok doc ∧ doc.text = text ∧
      doc.symbols.Sublist (symbolsOf store visited) ∧
      (store.ShowsAll root → doc.symbols = symbolsOf store visited) := by
  intro visited
  refine ⟨(walks_of_run hr "").mem_iff false, ?_⟩
  have ha := agrees_draft names hr D
  rw [Store.print_eq_text] at hp
  rcases hd : store.draft names D root with e | doc
  · rw [hd] at hp
    cases hp
  · rw [hd] at hp ha
    cases hp
    cases ha with
    | ok h hw => exact ⟨doc, rfl, rfl, h, fun hall => hw hall.printsWhole⟩

/-- A loop over a range: `for key, value := range xs`. -/
def rangeLoop (key value : Option (Id .expr)) : Store where
  tables := { exprs := .ofNodes #[.ident ⟨⟨0⟩, .none⟩, .ident ⟨⟨1⟩, .none⟩]
              stmts := .ofNodes #[.forStmt (.range key value true ⟨1⟩) {}] }

def rangeLoopNames : NameTable where
  strings := #["i", "xs"]

private theorem rangeLoop_showsAll (key : Option (Id .expr)) :
    (rangeLoop key none).ShowsAll (.stored (⟨0⟩ : Id .stmt)) where
  range := by
    intro b id value x define body _ hget
    obtain ⟨hi, hget⟩ := Array.getElem?_eq_some_iff.mp hget
    have hi : id.index < 1 := hi
    have h0 : id.index = 0 := by omega
    simp [rangeLoop, Store.table, Tables.get, h0] at hget
  doc := by
    intro id x _ hget
    obtain ⟨hi, -⟩ := Array.getElem?_eq_some_iff.mp hget
    exact absurd hi (Nat.not_lt_zero _)

/-- With a key and without a value, both names are printed in the order in which they are met. -/
theorem print_surface_order_rangeLoop :
    let store := rangeLoop (some ⟨0⟩) none
    let root : Node := .stored (⟨0⟩ : Id .stmt)
    ((keepAll.run 3 root store ()).result = .ok root ∧
      store.print rangeLoopNames 3 root = .ok "for i := range xs \x7b\x7d" ∧ store.ShowsAll root) ∧
      symbolsOf store (keepAll.run 3 root store ()).visited = [⟨0⟩, ⟨1⟩] ∧
      ∃ doc, store.draft rangeLoopNames 3 root = .ok doc ∧ doc.symbols = [⟨0⟩, ⟨1⟩] := by
  intro store root
  have hr : (keepAll.run 3 root store ()).result = .ok root := rfl
  have hp : store.print rangeLoopNames 3 root = .ok "for i := range xs \x7b\x7d" := rfl
  have hm : symbolsOf store (keepAll.run 3 root store ()).visited = [⟨0⟩, ⟨1⟩] := by
    decide +kernel
  obtain ⟨-, doc, hdoc, -, -, heq⟩ := print_surface_order hr hp
  exact ⟨⟨hr, hp, rangeLoop_showsAll _⟩, hm, doc, hdoc, (heq (rangeLoop_showsAll _)).trans hm⟩

/-- With a value and without a key, only the name of the range is printed. -/
example :
    let store := rangeLoop none (some ⟨0⟩)
    let root : Node := .stored (⟨0⟩ : Id .stmt)
    symbolsOf store (keepAll.run 3 root store ()).visited = [⟨0⟩, ⟨1⟩] ∧
      (store.draft rangeLoopNames 3 root).scan = .ok [⟨1⟩] :=
  ⟨rfl, rfl⟩

/-! ### Printing what has been walked through -/

private theorem keepAll_not_faults (m : Moment Unit) : ¬m.Faults keepAll := by
  cases m with
  | call | leave =>
    rintro ⟨e, c', h⟩
    cases h
  | lookUp | takeUp => exact id

private theorem keepAll_noShrink (m : Moment Unit) : m.NoShrink keepAll := by
  cases m <;> exact .refl _

/-- In a small store the traversal that keeps everything returns, if it ends without a violation. -/
theorem exists_result_keepAll {depth : Nat} {root : Node} {store : Store} (hs : store.Small)
    (hd : (keepAll.run depth root store ()).result ≠ .error (.fault .tooDeep))
    (hv : ∀ v, (keepAll.run depth root store ()).result ≠ .error (.violation v)) :
    ∃ r, (keepAll.run depth root store ()).result = .ok r := by
  obtain ⟨w, hw⟩ := keepAll.exists_history depth root store ()
  rcases hres : (keepAll.run depth root store ()).result with e | r
  · cases e with
    | violation v => exact absurd hres (hv v)
    | fault f =>
      have ha := hw.aborts hres
      have hsame : (keepAll.run depth root store ()).store = store := ha.kept keepAll_observes
      have hf : f = .tooDeep := by
        refine ha.eq_tooDeep (fun m _ => ⟨keepAll_not_faults m, keepAll_noShrink m⟩) trivial ?_ rfl
        rwa [hsame]
      rw [hf] at hres
      exact absurd hres hd
  · exact ⟨r, rfl⟩

/-- **Certification.** Take any store without a buffer that has outgrown 32 bits, any names and any
root. If the traversal that keeps everything ends without a violation, then printing the root
returns or meets a symbol that stands for no string. It meets no other fault, and the depth of the
traversal bounds the depth of printing. -/
theorem print_of_walk {depth : Nat} {root : Node} {store : Store} (hs : store.Small)
    (hd : (keepAll.run depth root store ()).result ≠ .error (.fault .tooDeep))
    (hv : ∀ v, (keepAll.run depth root store ()).result ≠ .error (.violation v))
    (names : NameTable) (D : Nat) :
    (∃ text, store.print names D root = .ok text) ∨
      store.print names D root = .error .invalidSymbol ∨
      (store.print names D root = .error .tooDeep ∧ D ≤ depth) := by
  obtain ⟨r, hr⟩ := exists_result_keepAll hs hd hv
  have ha := agrees_draft names hr D
  rw [Store.print_eq_text]
  rcases hdr : store.draft names D root with e | doc
  · rw [hdr] at ha
    cases ha with
    | unknown => exact .inr (.inl rfl)
    | deep h => exact .inr (.inr ⟨rfl, Nat.le_of_not_lt h⟩)
    | range h => exact absurd hs h
  · exact .inl ⟨doc.text, rfl⟩

/-- The loop is printed, or the name of its range is not known. -/
theorem print_of_walk_rangeLoop :
    let store := rangeLoop none (some ⟨0⟩)
    let root : Node := .stored (⟨0⟩ : Id .stmt)
    (store.Small ∧ (keepAll.run 3 root store ()).result ≠ .error (.fault .tooDeep) ∧
      ∀ v, (keepAll.run 3 root store ()).result ≠ .error (.violation v)) ∧
      store.print { strings := #["i"] } 4 root = .error .invalidSymbol ∧
      ∀ names D, 3 < D → (∃ text, store.print names D root = .ok text) ∨
        store.print names D root = .error .invalidSymbol := by
  intro store root
  have hs : store.Small := by
    intro p
    cases p <;> decide
  have hd : (keepAll.run 3 root store ()).result ≠ .error (.fault .tooDeep) := by rintro ⟨⟩
  have hv : ∀ v, (keepAll.run 3 root store ()).result ≠ .error (.violation v) := by rintro v ⟨⟩
  have hu : store.print { strings := #["i"] } 4 root = .error .invalidSymbol := rfl
  refine ⟨⟨hs, hd, hv⟩, hu, fun names D hD => ?_⟩
  rcases print_of_walk hs hd hv names D with h | h | ⟨-, h⟩
  · exact .inl h
  · exact .inr h
  · omega

end GoTree
