import GoTree.Proofs.Counting
import GoTree.Proofs.Templates

/-!
# The checksum of a profiling run

A profiling run combines the number of nodes that a traversal of the template sees with the length
of the block that results. Both have a closed form (`Profile.checksum_closed_form`).

* A traversal that keeps everything sees each node of the template once, so it is enough to know the
  outlines of the statements: six nodes for a declaration and five for a call.
* A traversal that splits declarations sees the block and its statements and nothing below them.
  From the first statement on, which is a declaration, the new contents of the block are collected
  on the side, two statements for a declaration and one for a call.

A splitting traversal adds to the store as it goes and may find a table or a buffer too long. There
is no need to follow the sizes: `EndsOrFills` says that a task either ends as expected or leaves a
store that is too long, and the loop over the statements is an induction with this alternative in
its conclusion. The theorem supposes that it does not happen (`Profile.Fits`).
-/

namespace GoTree

/-! ### Counting the template -/

section Outlines

variable {s : Store} {i : Nat} {id : Id .stmt}

/-- A declaration of two names has six nodes. -/
private theorem Store.IsPair.exists_outlines (h : s.IsPair id) (l : String) : ∃ us fp,
    Outlines s [.node l (.stored id)] us fp ∧ (Outline.preorderAll us).length = 6 ∧
      Outline.heightAll us ≤ 7 := by
  obtain ⟨a, b, x, y, lit, lit', ⟨names, values, ⟨simple, hid, hsimple⟩, hn, hv⟩, hx, hy⟩ := h
  exact ⟨_, _,
    .node hid (.node hsimple
      (.list hn.stop_le hn.length_eq hn.reads
        (.item (.node rfl .nil .nil) (.item (.node rfl .nil .nil) .nil))
        (.list hv.stop_le hv.length_eq hv.reads
          (.item (.node hx .nil .nil) (.item (.node hy .nil .nil) .nil)) .nil)) .nil) .nil,
    rfl, by simp [Outline.height, Outline.heightAll]⟩

/-- The call of a name with a name has five. -/
private theorem Store.IsCall.exists_outlines (h : s.IsCall id) (l : String) : ∃ us fp,
    Outlines s [.node l (.stored id)] us fp ∧ (Outline.preorderAll us).length = 5 ∧
      Outline.heightAll us ≤ 7 := by
  obtain ⟨simple, x, fn, arg, args, f, a, hid, hsimple, hx, ha, hfn, harg⟩ := h
  exact ⟨_, _,
    .node hid (.node hsimple (.node hx
      (.node hfn .nil
        (.list ha.stop_le ha.length_eq ha.reads (.item (.node harg .nil .nil) .nil) .nil))
      .nil) .nil) .nil,
    rfl, by simp [Outline.height, Outline.heightAll]⟩

private theorem Store.IsTemplateStmt.exists_outlines (h : s.IsTemplateStmt i id) (l : String) :
    ∃ us fp, Outlines s [.node l (.stored id)] us fp ∧
      (Outline.preorderAll us).length = 5 + (i + 1) % 2 ∧ Outline.heightAll us ≤ 7 := by
  unfold Store.IsTemplateStmt at h
  split at h
  · next hi =>
    obtain ⟨us, fp, hus, hlen, hheight⟩ := h.exists_outlines l
    exact ⟨us, fp, hus, by omega, hheight⟩
  · next hi =>
    obtain ⟨us, fp, hus, hlen, hheight⟩ := h.exists_outlines l
    exact ⟨us, fp, hus, by omega, hheight⟩

end Outlines

namespace Profile

/-- How many of `n` statements from statement `i` on declare two names. -/
def pairs (i n : Nat) : Nat :=
  (n + (i + 1) % 2) / 2

theorem pairs_succ (i n : Nat) : pairs i (n + 1) = (i + 1) % 2 + pairs (i + 1) n := by
  unfold pairs
  omega

section Identity

variable {s : Store} {n i : Nat} {ids : List (Id .stmt)}

/-- The statements have five nodes each, and the declarations one more. -/
private theorem exists_outlines_stmts (l : String)
    (h : List.Forall₂ s.IsTemplateStmt (List.range' i n) ids) : ∃ os fp,
    Outlines s (ids.map (.item l .stmts)) os fp ∧
      (Outline.preorderAll os).length = 5 * n + pairs i n ∧ Outline.heightAll os ≤ 8 := by
  induction n generalizing i ids with
  | zero =>
    cases h
    exact ⟨[], 0, .nil, by simp [Outline.preorderAll, pairs], by decide⟩
  | succ n ih =>
    rw [List.range'_succ] at h
    obtain ⟨id, ids, hid, hids, rfl⟩ := List.forall₂_cons_left_iff.mp h
    obtain ⟨us, fp, hus, hlen, hheight⟩ := hid.exists_outlines l
    obtain ⟨os, gp, hos, hlen', hheight'⟩ := ih hids
    refine ⟨_, _, .item hus hos, ?_, ?_⟩
    · rw [Outline.preorderAll, Outline.preorder, List.length_append, hlen, hlen', pairs_succ]
      omega
    · exact Outline.heightAll_cons_le_iff.mpr ⟨Nat.succ_le_succ hheight, hheight'⟩

/-- The counter sees the block and all its statements with what is below them. -/
private theorem run_counter_template {seg : Segment .stmts} (hm : s.Small) (hseg : s.Holds seg ids)
    (hids : List.Forall₂ s.IsTemplateStmt (List.range n) ids) {depth : Nat} (hd : 9 ≤ depth) :
    let out := (counter true).run depth (.block ⟨seg⟩) s 0
    out.result = .ok (.block ⟨seg⟩) ∧ out.store = s ∧ out.state = 1 + 5 * n + pairs 0 n := by
  rw [List.range_eq_range'] at hids
  obtain ⟨os, fp, hos, hlen, hheight⟩ := exists_outlines_stmts "Block.stmts" hids
  have hblock : Outlines s [.node "" (.block ⟨seg⟩)] [.node (.block ⟨seg⟩) [.group os]] _ :=
    .node rfl (.list hseg.stop_le hseg.length_eq hseg.reads hos .nil) .nil
  have hd' : (Outline.node (.block ⟨seg⟩) [.group os]).height ≤ depth := by
    refine Nat.le_trans (Outline.heightAll_cons_le_iff.mpr ⟨?_, ?_⟩) hd
    · exact Nat.succ_le_succ hheight
    · decide
  obtain ⟨hresult, hstore, hstate⟩ := hblock.run_counter hm hd' 0
  refine ⟨hresult, hstore, hstate.trans ?_⟩
  simp only [Outline.preorder, Outline.preorderAll, List.append_nil, List.length_cons, hlen]
  omega

end Identity

end Profile

/-! ### Splitting the template -/

section Splitting

variable {s₀ s s' : Store} {id : Id .stmt}

theorem Store.Holds.items_of_stop_lt {p : Pool} {seg : Segment p} {xs : List p.Item}
    (h : s.Holds seg xs) (hlt : seg.stop < wordSize) : s.items seg = .ok xs.toArray := by
  rw [Store.items, Segment.fault?_eq_none_iff.mpr ⟨hlt, h.stop_le⟩, ← h.reads.extract_eq,
    h.length_eq]
  rfl

/-- A declaration of two names is split in two, unless the store is full. -/
private theorem splitDecl_of_isPair (h : s₀.IsPair id) (hm : s₀.Small) (he : s₀.Extends s) :
    (∃ seg ids s', splitDecl (.stored id) s = .ok (.expandedBlock ⟨seg⟩, false) s' ∧
      s.Extends s' ∧ s'.Holds seg ids ∧ ids.length = 2) ∨
    ∃ e s', splitDecl (.stored id) s = .error e s' ∧ ¬s'.Counted := by
  obtain ⟨a, b, x, y, -, -, ⟨names, values, ⟨simple, hid, hsimple⟩, hn, hv⟩, -, -⟩ := h
  have hlen : names.length = 2 := hn.length_eq.symm
  have hlen' : values.length = 2 := hv.length_eq.symm
  have hnames := (he.holds hn).items_of_stop_lt (Nat.lt_of_le_of_lt hn.stop_le (hm _))
  have hvalues := (he.holds hv).items_of_stop_lt (Nat.lt_of_le_of_lt hv.stop_le (hm _))
  have hload : StoreM.load (c := .stmt) id s = .ok (.simple simple) s :=
    StoreM.load_of_get? (he.get? hid)
  have hload' : StoreM.load (c := .simpleStmt) simple s = .ok (.shortVarDecl names values) s :=
    StoreM.load_of_get? (he.get? hsimple)
  have hsplit : splitDecl (.stored id) s =
      (splitPairs names values >>= fun node => pure (node, false)) s := by
    unfold splitDecl
    simp only [Node.stmt?, Node.as?_mk, bind, EStateM.bind, hload, hload', hlen, hlen']
    rfl
  have hpairs : splitPairs names values s = ([(a, x), (b, y)].mapM singleDecl >>= fun singles =>
      Node.expand singles.toArray) s := by
    unfold splitPairs
    simp only [bind, EStateM.bind, StoreM.items, StoreM.read, hnames, hvalues]
    rfl
  rcases hr : splitPairs names values s with ⟨node, s'⟩ | ⟨e, s'⟩ <;>
    simp only [bind, EStateM.bind, hr] at hsplit
  · have hadds := adds_splitDecl (.stored id) s s' (.inl ⟨_, hsplit⟩)
    obtain ⟨ids, s₁, hids, hnode⟩ := bind_eq_ok (hpairs.symm.trans hr)
    obtain ⟨seg, s₂, hseg, hnode⟩ := bind_eq_ok hnode
    cases hnode
    exact .inl ⟨seg, ids, _, hsplit, hadds, StoreM.holds_of_list hseg, length_of_mapM_eq_ok hids⟩
  · refine .inr ⟨e, s', hsplit, ?_⟩
    exact (FailsFull.mapM failsFull_singleDecl _).bind (fun _ => failsFull_expand _) s e s'
      (hpairs.symm.trans hr)

/-- A call is kept. -/
private theorem splitDecl_of_isCall (h : s.IsCall id) :
    splitDecl (.stored id) s = .ok (.stored id, false) s := by
  obtain ⟨simple, x, -, -, -, -, -, hid, hsimple, -⟩ := h
  have hload : StoreM.load (c := .stmt) id s = .ok (.simple simple) s := StoreM.load_of_get? hid
  have hload' : StoreM.load (c := .simpleStmt) simple s = .ok (.expr x) s :=
    StoreM.load_of_get? hsimple
  unfold splitDecl
  simp only [Node.stmt?, Node.as?_mk, bind, EStateM.bind, hload, hload']
  rfl

/-- The items of an old list are read in a longer store. -/
theorem Store.Extends.item_eq (he : s₀.Extends s) (hm : s₀.Small) {p : Pool} {seg : Segment p}
    {i : Nat} {x : p.Item} (hs : seg.stop ≤ (s₀.buffer p).size) (hi : i < seg.length)
    (hx : (s₀.buffer p)[seg.start.toNat + i]? = some x) : s.item seg i = .ok x := by
  have hf := Segment.fault?_eq_none_mono (he.grows.buffer p) (hm.fault?_eq_none hs)
  have hsame : (s.buffer p)[seg.start.toNat + i]? = _ :=
    he.same (.cell p _) (Store.allocated_of_getElem? hx)
  exact Store.item_eq_ok hf hi (hsame.trans hx)

end Splitting

namespace Profile

/-- Whatever the depth, the task ends as `P` says, or the store gets too long. -/
def EndsOrFills (k : Task) (c : Context Nat) (P : k.Result → Context Nat → Prop) : Prop :=
  (∃ w r c', (∀ d, Completes (counter false) d k c w r c') ∧ P r c') ∨
    ∃ w e c', (∀ d, Aborts (counter false) d k c w e c') ∧ ¬c'.store.Counted

theorem EndsOrFills.imp {k : Task} {c : Context Nat} {P Q : k.Result → Context Nat → Prop}
    (h : EndsOrFills k c P) (hPQ : ∀ r c', P r c' → Q r c') : EndsOrFills k c Q := by
  rcases h with ⟨w, r, c', hw, hP⟩ | hfull
  · exact .inl ⟨w, r, c', hw, hPQ r c' hP⟩
  · exact .inr hfull

section Split

variable {s₀ s s' : Store} {q n i : Nat} {l : String} {seg : Segment .stmts}
  {out : Option (Array (Id .stmt))}

/-- A node is counted before it is split. -/
theorem counter_replace (m : Node) : (counter false).replace m ⟨s, q⟩ =
    TransformM.onStore (splitDecl m) ⟨s, q + 1⟩ :=
  rfl

theorem replace_of_splitDecl {m : Node} {r : Node × Bool} (h : splitDecl m s = .ok r s') :
    (counter false).replace m ⟨s, q⟩ = .ok r ⟨s', q + 1⟩ := by
  rw [counter_replace, TransformM.onStore, h]

private theorem replace_of_splitDecl_error {m : Node} {e : Fault}
    (h : splitDecl m s = .error e s') :
    (counter false).replace m ⟨s, q⟩ = .error e ⟨s', q + 1⟩ := by
  rw [counter_replace, TransformM.onStore, h]

/-- A statement that is answered and taken, and then the others. -/
theorem EndsOrFills.next {x : Id .stmt} {a : Node} {v : List Mark}
    {out' : Option (Array (Id .stmt))} {P : Option (Array (Id .stmt)) → Context Nat → Prop}
    (hx : s.item seg i = .ok x) (hs : splitDecl (.stored x) s = .ok (a, false) s')
    (ht : Takes l seg i s' out a v out' s')
    (h : EndsOrFills (.stmts l seg n (i + 1) out') ⟨s', q + 1⟩ P) :
    EndsOrFills (.stmts l seg (n + 1) i out) ⟨s, q⟩ P := by
  have hvisit : ∀ d, Completes (counter false) d (.visit (.item l) (.stored x)) ⟨s, q⟩ _ a
      ⟨s', q + 1⟩ := fun d => .stay (replace_of_splitDecl hs)
  rcases h with ⟨w, r, c', hw, hP⟩ | ⟨w, e, c', hw, hfull⟩
  · exact .inl ⟨_, r, c', fun d => .stmtsNext hx (hvisit d) ht (hw d), hP⟩
  · exact .inr ⟨_, e, c', fun d => .stmtsRest hx (hvisit d) ht (hw d), hfull⟩

/-- A declaration of two names puts two statements in its place. -/
theorem EndsOrFills.pair {x : Id .stmt} {old : Array (Id .stmt)}
    {P : Option (Array (Id .stmt)) → Context Nat → Prop} (hm : s₀.Small) (he : s₀.Extends s)
    (hx : s.item seg i = .ok x) (hpair : s₀.IsPair x)
    (hold : ∀ s', s₀.Extends s' → Collected seg i s' out old)
    (h : ∀ s' new, s₀.Extends s' → new.size = old.size + 2 →
      EndsOrFills (.stmts l seg n (i + 1) (some new)) ⟨s', q + 1⟩ P) :
    EndsOrFills (.stmts l seg (n + 1) i out) ⟨s, q⟩ P := by
  rcases splitDecl_of_isPair hpair hm he with ⟨block, ids, s', hs, he', hblock, hlen⟩ |
    ⟨e, s', hs, hfull⟩
  · by_cases hlt : block.stop < wordSize
    · have hitems := hblock.items_of_stop_lt hlt
      have hnew := h s' (old ++ ids.toArray) (he.trans he') (by simp [hlen])
      exact .next hx hs (.splice hblock.stop_le hitems (hold s' (he.trans he'))) hnew
    · -- the new statements lie beyond what a word can count
      have hitems : s'.items block = .error .addOverflow := by
        rw [Store.items, Segment.fault?, if_pos (Nat.le_of_not_lt hlt)]
      refine .inr ⟨_, _, _, fun d => .refused hx (.stay (replace_of_splitDecl hs))
        (.block hblock.stop_le hitems), fun hc => hlt ?_⟩
      exact Nat.lt_of_le_of_lt hblock.stop_le (hc.buffers .stmts)
  · exact .inr ⟨_, _, _, fun d => .stmt hx (.halt (replace_of_splitDecl_error hs)), hfull⟩

/-- The statements of the template once there has been a splice: each is seen, and the calls put
one statement in their place and the declarations two. -/
private theorem endsOrFills_stmts (hm : s₀.Small) (he : s₀.Extends s)
    (hs : seg.stop ≤ (s₀.buffer .stmts).size) (hi : i + n = seg.length) {ids : List (Id .stmt)}
    (hx : s₀.Reads .stmts (seg.start.toNat + i) ids)
    (hids : List.Forall₂ s₀.IsTemplateStmt (List.range' i n) ids) (out : Array (Id .stmt)) :
    EndsOrFills (.stmts l seg n i (some out)) ⟨s, q⟩ fun res c' => c'.state = q + n ∧
      ∃ new, res = some new ∧ new.size = out.size + n + pairs i n := by
  induction n generalizing s q i ids out with
  | zero => exact .inl ⟨[], some out, _, fun _ => .stmtsDone, rfl, out, rfl, by simp [pairs]⟩
  | succ n ih =>
    rw [List.range'_succ] at hids
    obtain ⟨id, ids, hid, htail, rfl⟩ := List.forall₂_cons_left_iff.mp hids
    have hread := he.item_eq hm hs (by omega) hx.1
    -- after one statement, the others with what has been collected by then
    have hrest : ∀ s' (new : Array (Id .stmt)), s₀.Extends s' →
        new.size = out.size + 1 + (i + 1) % 2 →
        EndsOrFills (.stmts l seg n (i + 1) (some new)) ⟨s', q + 1⟩ fun res c' =>
          c'.state = q + (n + 1) ∧
            ∃ new, res = some new ∧ new.size = out.size + (n + 1) + pairs i (n + 1) := by
      intro s' new he' hnew
      refine (ih he' (by omega) hx.2 htail new).imp ?_
      rintro res c' ⟨hstate, new', rfl, hsize⟩
      refine ⟨by omega, new', rfl, ?_⟩
      rw [pairs_succ]
      omega
    unfold Store.IsTemplateStmt at hid
    split at hid
    · next hi =>
      refine .pair hm he hread hid (fun s' _ => .aside out) fun s' new he' hnew => ?_
      exact hrest s' new he' (by omega)
    · next hi =>
      have hkept := splitDecl_of_isCall (he.isCall hid)
      refine .next hread hkept (.push out id) (hrest s _ he ?_)
      rw [Array.size_push]
      omega

/-- All statements of the template: the first one is a declaration, so that a splice comes before
anything else. -/
private theorem endsOrFills_template (hm : s₀.Small) {ids : List (Id .stmt)}
    (hseg : s₀.Holds seg ids) (hids : List.Forall₂ s₀.IsTemplateStmt (List.range n) ids) :
    EndsOrFills (.stmts l seg seg.length 0 none) ⟨s₀, q⟩ fun res c' =>
      c'.state = q + n ∧ res.elim seg.length Array.size = n + pairs 0 n := by
  have hlen : seg.length = n := by
    rw [← hseg.length_eq, ← hids.length_eq, List.length_range]
  rw [hlen]
  cases n with
  | zero => exact .inl ⟨[], none, _, fun _ => .stmtsDone, rfl, rfl⟩
  | succ n =>
    rw [List.range_eq_range', List.range'_succ] at hids
    obtain ⟨id, ids, hid, htail, rfl⟩ := List.forall₂_cons_left_iff.mp hids
    have hread : s₀.item seg 0 = .ok id :=
      (Store.Extends.refl s₀).item_eq hm hseg.stop_le (by omega) hseg.reads.1
    have hlt : seg.stop < wordSize := Nat.lt_of_le_of_lt hseg.stop_le (hm .stmts)
    -- nothing has been collected in front of it
    have hnone : ∀ s', s₀.Extends s' → Collected seg 0 s' none #[] := fun s' he =>
      .inPlace ((he.holds hseg).items_of_stop_lt hlt)
    refine .pair hm (.refl s₀) hread hid hnone fun s' new he hnew => ?_
    refine (endsOrFills_stmts hm he hseg.stop_le (by omega) hseg.reads.2 htail new).imp ?_
    rintro res c' ⟨hstate, new', rfl, hsize⟩
    refine ⟨by omega, ?_⟩
    simp only [Option.elim, hsize, hnew, Array.size_empty, pairs_succ, Nat.zero_add]
    omega

/-- The length of a statement list when its last item is done. -/
private theorem length_of_settle {seg' : Segment .stmts} (h : seg.settle out s = .ok seg' s') :
    seg'.length = out.elim seg.length Array.size := by
  cases out with
  | none =>
    cases h
    rfl
  | some out =>
    have hholds : s'.Holds seg' out.toList := StoreM.holds_of_list h
    exact hholds.length_eq.symm

/-- Splitting the template sees the block and its statements, and the block that results has two
statements in the place of each declaration; or else the store gets too long. -/
private theorem run_split_template (hm : s₀.Small) {ids : List (Id .stmt)} (hseg : s₀.Holds seg ids)
    (hids : List.Forall₂ s₀.IsTemplateStmt (List.range n) ids) :
    (∃ seg' : Segment .stmts, seg'.length = n + pairs 0 n ∧ ∀ depth,
      let out := (counter false).run (depth + 1) (.block ⟨seg⟩) s₀ 0
      out.result = .ok (.block ⟨seg'⟩) ∧ out.state = n + 1) ∨
    ∀ depth, ¬((counter false).run (depth + 1) (.block ⟨seg⟩) s₀ 0).store.Counted := by
  have hr : (counter false).replace (.block ⟨seg⟩) ⟨s₀, 0⟩ = .ok (.block ⟨seg⟩, true) ⟨s₀, 1⟩ :=
    replace_of_splitDecl rfl
  rcases endsOrFills_template (q := 1) (l := "Block.stmts") hm hseg hids with
    ⟨w, res, c', hw, hstate, hsize⟩ | ⟨w, e, c', hw, hfull⟩
  · rcases hs : seg.settle res c'.store with ⟨seg', s'⟩ | ⟨e, s'⟩
    · refine .inl ⟨seg', (length_of_settle hs).trans hsize, fun depth => ?_⟩
      have hdone : Completes (counter false) (depth + 1) (.visit .root (.block ⟨seg⟩)) ⟨s₀, 0⟩ _
          (.block ⟨seg'⟩) ⟨s', c'.state⟩ :=
        .down hr rfl (.stmts hseg.stop_le (hw depth) hs .nil) (.list (.done (Block.mk seg'))) rfl
          rfl
      rw [hdone.run_eq]
      exact ⟨rfl, hstate.trans (Nat.add_comm 1 n)⟩
    · refine .inr fun depth hc => ?_
      rw [(Aborts.inner (o := .root) hr rfl (.settle hseg.stop_le (hw depth) hs)).run_eq] at hc
      exact Segment.settle_ne_error hc.buffers hs
  · refine .inr fun depth hc => ?_
    rw [(Aborts.inner (o := .root) hr rfl (.stmts hseg.stop_le (hw depth))).run_eq] at hc
    exact hfull hc

end Split

/-! ### Checksums -/

/-- The checksum in unbounded arithmetic. -/
private theorem toNat_checksum {visits : Nat} (hv : visits < 2 ^ 64) (seg : Segment .stmts) :
    (checksum visits (.block ⟨seg⟩)).toNat =
      visits ^^^ (seg.length * 0xA24BAED4963EE407 % 2 ^ 64) := by
  have hword : seg.length < wordSize := seg.len.toNat_lt
  have hlen : seg.length < UInt64.size := Nat.lt_trans hword (by decide)
  have hsum : checksum visits (.block ⟨seg⟩) =
      visits.toUInt64 ^^^ (seg.length.toUInt64 * lengthFactor) := rfl
  have hfactor : lengthFactor.toNat = 0xA24BAED4963EE407 := rfl
  rw [hsum, UInt64.toNat_xor, UInt64.toNat_mul, hfactor, Nat.toUInt64_eq, Nat.toUInt64_eq,
    UInt64.toNat_ofNat_of_lt' hv, UInt64.toNat_ofNat_of_lt' hlen]

/-- Equal checksums cancel in pairs. -/
theorem accumulate_eq {depth : Nat} {store : Store} {root : Node} {identity : Bool} {sum : UInt64}
    (h : once depth store root identity = .ok sum) (k : Nat) (acc : UInt64) :
    accumulate depth store root identity k acc =
      .ok (if k % 2 = 0 then acc else acc ^^^ sum) := by
  induction k generalizing acc with
  | zero => rfl
  | succ k ih =>
    rw [accumulate, h]
    refine (ih _).trans (congrArg Except.ok ?_)
    rcases Nat.mod_two_eq_zero_or_one k with hk | hk
    · rw [if_pos hk, if_neg (by omega)]
    · rw [if_neg (by omega), if_pos (by omega), UInt64.xor_assoc, UInt64.xor_self, UInt64.xor_zero]

theorem accumulate_zero {depth : Nat} {store : Store} {root : Node} {identity : Bool}
    {sum : UInt64} (h : once depth store root identity = .ok sum) (k : Nat) :
    accumulate depth store root identity k 0 = .ok (if k % 2 = 0 then 0 else sum) := by
  rw [accumulate_eq h, UInt64.zero_xor]

/-- The store when the template with `n` statements has been built, or cannot be. -/
def builtStore (n : Nat) : Store :=
  match template n {} with
  | .ok _ b => b.store
  | .error _ b => b.store

/-- The store when its declarations have been split, too, or cannot be. -/
def splitStore (n : Nat) : Store :=
  match template n {} with
  | .ok root b => ((counter false).run wordSize root b.store 0).store
  | .error _ b => b.store

/-- All tables and buffers can be counted in a word to the end. -/
structure Fits (n : Nat) : Prop where
  built : (builtStore n).Counted
  split : (splitStore n).Counted

/-- The template that fits is a block of its statements. -/
theorem Fits.exists_template {n : Nat} (h : Fits n) : ∃ seg b ids,
    template n {} = .ok (.block ⟨seg⟩) b ∧ b.store.Counted ∧ b.store.Holds seg ids ∧
      List.Forall₂ b.store.IsTemplateStmt (List.range n) ids := by
  have hc := h.built
  unfold builtStore at hc
  split at hc
  · next root b hb =>
    obtain ⟨seg, ids, rfl, hseg, hids⟩ := template_eq_ok hb hc
    exact ⟨seg, b, ids, hb, hc, hseg, hids⟩
  · next e b hb => exact absurd hc (failsFull_template n _ _ _ hb)

private theorem once_eq {depth visits : Nat} {s : Store} {root r : Node} {identity : Bool}
    (hr : ((counter identity).run depth root s 0).result = .ok r)
    (hv : ((counter identity).run depth root s 0).state = visits) :
    once depth s root identity = .ok (checksum visits r) := by
  rw [once, hr, hv]
  rfl

/-- One traversal of the template. -/
private theorem Fits.exists_once {n : Nat} (h : Fits n) {root : Node} {b : Builder}
    (hb : template n {} = .ok root b) (identity : Bool) : ∃ sum : UInt64,
    sum.toNat = (if identity then
        (1 + 5 * n + (n + 1) / 2) ^^^ (n * 0xA24BAED4963EE407 % 2 ^ 64)
      else (n + 1) ^^^ ((n + (n + 1) / 2) * 0xA24BAED4963EE407 % 2 ^ 64)) ∧
    ∀ depth, 9 ≤ depth → once depth b.store root identity = .ok sum := by
  obtain ⟨seg, b', ids, hb', hc, hseg, hids⟩ := h.exists_template
  cases hb.symm.trans hb'
  have hlen : seg.length = n := by
    rw [← hseg.length_eq, ← hids.length_eq, List.length_range]
  have hn : n < wordSize := hlen ▸ seg.len.toNat_lt
  have hword : 7 * wordSize < 2 ^ 64 := by decide
  have hpairs : pairs 0 n = (n + 1) / 2 := rfl
  cases identity with
  | true =>
    refine ⟨checksum (1 + 5 * n + pairs 0 n) (.block ⟨seg⟩), ?_, fun depth hd => ?_⟩
    · rw [toNat_checksum (by omega), hlen, hpairs]
      rfl
    · obtain ⟨hresult, -, hstate⟩ := run_counter_template hc.buffers hseg hids hd
      exact once_eq hresult hstate
  | false =>
    rcases run_split_template hc.buffers hseg hids with ⟨seg', hlen', hrun⟩ | hfull
    · refine ⟨checksum (n + 1) (.block ⟨seg'⟩), ?_, fun depth hd => ?_⟩
      · rw [toNat_checksum (by omega), hlen', hpairs]
        rfl
      · obtain ⟨d, rfl⟩ : ∃ d, depth = d + 1 := ⟨depth - 1, by omega⟩
        exact once_eq (hrun d).1 (hrun d).2
    · have hsplit := h.split
      rw [splitStore, hb] at hsplit
      exact absurd hsplit (hfull (wordSize - 1))

/-- What a run reports if every traversal has the same checksum. -/
theorem run_eq {clock : Nat → Nat} {options : Options} {root : Node} {b : Builder} {duration : Nat}
    {sum : UInt64} (hb : template options.items {} = .ok root b)
    (hd : nanoseconds options.seconds = .ok duration)
    (hsum : once wordSize b.store root options.identity = .ok sum) :
    ∃ report, run clock options = .ok report ∧
      report.iters = repetitions (fun i => clock i < duration) options.limit 0 ∧
      report.checksum = if report.iters % 2 = 0 then 0 else sum := by
  have htemplate : Template.ofItems options.items = .ok ⟨root, b⟩ := by
    rw [Template.ofItems, hb]
  unfold run
  simp only [htemplate, hd, accumulate_zero hsum, bind, Except.bind, Except.mapError]
  exact ⟨_, rfl, rfl, rfl⟩

/-- **The checksums of the template.** One traversal of the template with `n` statements, `c` of
which declare two names, sees `1 + 5 * n + c` nodes if it keeps everything, and `n + 1` if it splits
declarations; the block that results has `n` or `n + c` statements. The template itself stays as it
is, so the checksums of several traversals cancel in pairs. -/
theorem checksum_closed_form {n : Nat} (h : Fits n) :
    ∃ root b, template n {} = .ok root b ∧ ∀ identity, ∃ sum : UInt64,
      -- one traversal
      sum.toNat = (if identity then
          (1 + 5 * n + (n + 1) / 2) ^^^ (n * 0xA24BAED4963EE407 % 2 ^ 64)
        else (n + 1) ^^^ ((n + (n + 1) / 2) * 0xA24BAED4963EE407 % 2 ^ 64)) ∧
      (∀ depth, 9 ≤ depth → once depth b.store root identity = .ok sum ∧
        -- any number of traversals
        ∀ k, accumulate depth b.store root identity k 0 = .ok (if k % 2 = 0 then 0 else sum)) ∧
      -- whole runs
      ∀ clock options duration, options.items = n → options.identity = identity →
        nanoseconds options.seconds = .ok duration → ∃ report, run clock options = .ok report ∧
          report.iters = repetitions (fun i => clock i < duration) options.limit 0 ∧
          report.checksum = if report.iters % 2 = 0 then 0 else sum := by
  obtain ⟨seg, b, -, hb, -⟩ := h.exists_template
  refine ⟨_, b, hb, fun identity => ?_⟩
  obtain ⟨sum, hsum, honce⟩ := h.exists_once hb identity
  refine ⟨sum, hsum, fun depth hd => ⟨honce depth hd, accumulate_zero (honce depth hd)⟩, ?_⟩
  rintro clock options duration rfl rfl hduration
  exact run_eq hb hduration (honce wordSize (by decide))

/-- A declaration, a call and a declaration. -/
theorem checksum_closed_form_three :
    Fits 3 ∧ ∃ root b, template 3 {} = .ok root b ∧
      (∃ sum : UInt64, sum.toNat = 4 ^^^ (5 * 0xA24BAED4963EE407 % 2 ^ 64) ∧
        once 9 b.store root false = .ok sum) ∧
      ∃ sum : UInt64, sum.toNat = 18 ^^^ (3 * 0xA24BAED4963EE407 % 2 ^ 64) ∧
        once 9 b.store root true = .ok sum := by
  have hfits : Fits 3 :=
    ⟨⟨fun c => by cases c <;> decide +kernel, fun p => by cases p <;> decide +kernel⟩,
      ⟨fun c => by cases c <;> decide +kernel, fun p => by cases p <;> decide +kernel⟩⟩
  obtain ⟨root, b, hb, hsums⟩ := checksum_closed_form hfits
  obtain ⟨split, hsplit, honce, -⟩ := hsums false
  obtain ⟨keep, hkeep, honce', -⟩ := hsums true
  exact ⟨hfits, root, b, hb, ⟨split, hsplit, (honce 9 (Nat.le_refl 9)).1⟩,
    keep, hkeep, (honce' 9 (Nat.le_refl 9)).1⟩

end Profile

end GoTree
