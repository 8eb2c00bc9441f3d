import GoTree.Proofs.Determinism
import GoTree.Proofs.Origins
import GoTree.Proofs.SingleVisits

/-!
# What an aborted run leaves behind

A run that stops at a violation stops with nodes half done: some of their parts are visited, others
are not. None of this shows in the store. A node is rebuilt from a copy, and the copy is written
back when its last part is done, so in the store a node is always **whole**: it is as it came into
use, or it is completely rebuilt. `Transformer.aborted_run` says so of every run that stops at a
violation, for a transformer that only appends, provided that no node was descended into twice.

Statement lists are the exception, for they are rewritten in place, cell by cell, until the first
splice. `Loop.Holds` says what the cells of a list in progress hold: the results of the visits up to
the first splice, and from there on what they came into use with. No list has been added for it yet.
This supposes that the statement lists of the run do not overlap.
-/

namespace GoTree

variable {σ : Type}

/-! ### Nodes -/

/-- A node stands in the store as it was opened. -/
def Owner.Stands (s : Store) : Owner → Prop
  | node a x => a.body? s = some x
  | item .. => True

/-- In a run from the store `s₀`, an open node stands as it was opened, and a node that was written
back stands as it was written. -/
structure Config.Whole (s₀ : Store) (log : List Deed) (cfg : Config σ) : Prop where
  opened : ∀ w ∈ cfg.owners, w.Stands cfg.context.store
  saved : ∀ {c : Category} {id : Id c} {x y : c.Payload} {qs : List SlotPart},
    .save (.stored id) x qs y ∈ log →
      Enters s₀ log (.node c id.index) x ∧ cfg.context.store.get? id = some y

private theorem Owner.Stands.allocated {w : Owner} {s : Store} (h : w.Stands s) :
    ∀ a ∈ w.footprint, s.Allocated a := by
  cases w with
  | node n x => exact Node.allocated_footprint h
  | item => exact fun a ha => absurd ha (Multiset.notMem_zero a)

private theorem Owner.Stands.frame {w : Owner} {s s' : Store} (h : w.Stands s)
    (hs : ∀ a ∈ w.footprint, s.SameAt s' a) : w.Stands s' := by
  cases w with
  | node n x => exact (Node.body?_frame hs).trans h
  | item => trivial

section Nodes

variable {t : Transformer σ} {D : Nat} {cfg cfg' : Config σ} {log u : List Deed} {s₀ : Store}
  {a : Address}

private theorem Config.exists_of_mem_opens (h : a ∈ cfg.opens) : ∃ c i, a = .node c i := by
  obtain ⟨w, -, ha⟩ := mem_opens_iff.mp h
  cases w with
  | node => exact Node.exists_of_mem_footprint ha
  | item => exact absurd ha (Multiset.notMem_zero a)

/-- An entry that is overwritten is that of an open node. -/
private theorem Config.mem_opens_of_mem_writes {c : Category} {i : Nat}
    (h : .node c i ∈ cfg.writes) :
    .node c i ∈ cfg.opens := by
  unfold writes at h
  split at h
  · next w qs hf =>
    have hw : w ∈ cfg.owners := by
      rw [owners, hf]
      exact List.mem_cons_self
    refine mem_opens_iff.mpr ⟨w, hw, ?_⟩
    cases w with
    | node => exact h
    | item => cases Multiset.mem_singleton.mp h
  · cases Multiset.mem_singleton.mp h
  · exact absurd h (Multiset.notMem_zero _)

/-- A node that stays open is not overwritten. -/
theorem Step.not_mem_writes (h : Step t D cfg u cfg') (hn : cfg.opens.Nodup)
    (ha : a ∈ cfg'.opens) : a ∉ cfg.writes := by
  intro hw
  obtain ⟨c, i, rfl⟩ := Config.exists_of_mem_opens ha
  cases h with
  | close =>
    rw [Config.opens, Config.owners, Focus.owners, List.singleton_append, List.map_cons,
      List.sum_cons] at hn
    exact Multiset.disjoint_left.mp (Multiset.nodup_add.mp hn).2.2 hw ha
  | write | take => cases Multiset.mem_singleton.mp hw
  | _ => exact absurd hw (Multiset.notMem_zero _)

/-- An owner was one before the step, or it has just been opened. -/
theorem Step.mem_owners_or (h : Step t D cfg u cfg') {w : Owner} (hw : w ∈ cfg'.owners) :
    w ∈ cfg.owners ∨ w.Stands cfg'.context.store := by
  cases h with
  | down hx =>
    rcases List.mem_cons.mp hw with rfl | hw
    · exact .inr hx
    · exact .inl hw
  | item =>
    rcases List.mem_cons.mp hw with rfl | hw
    · exact .inr trivial
    · exact .inl hw
  | close | write => exact .inl (List.mem_cons_of_mem _ hw)
  | _ => exact .inl hw

/-- What is open was not written back, if no node was descended into twice. -/
theorem Config.Accounted.not_mem_saves (ha : cfg.Accounted log) (hn : (descents log).Nodup)
    (h : a ∈ cfg.opens) : a ∉ saves log := by
  rw [ha.nodes] at hn
  exact Multiset.disjoint_left.mp (Multiset.nodup_add.mp hn).2.2 (Multiset.mem_add.mpr (.inr h))

private theorem Config.Accounted.nodup_opens (ha : cfg.Accounted log) (hn : (descents log).Nodup) :
    cfg.opens.Nodup := by
  rw [ha.nodes] at hn
  exact (Multiset.nodup_add.mp (Multiset.nodup_add.mp hn).1).2.1

/-- An open node holds what it came into use with. -/
theorem Config.Whole.enters (hi : cfg.Whole s₀ log) (hu : cfg.Untouched s₀ log)
    (ha : cfg.Accounted log) (hn : (descents log).Nodup) {c : Category} {id : Id c} {x : c.Payload}
    (hw : .node (.stored id) x ∈ cfg.owners) : Enters s₀ log (.node c id.index) x := by
  have hopen : .node c id.index ∈ cfg.opens :=
    mem_opens_iff.mpr ⟨_, hw, Multiset.mem_singleton_self _⟩
  exact hu.enters (.node c id.index) x (ha.not_mem_saves hn hopen) (hi.opened _ hw)

theorem Config.Whole.step (hi : cfg.Whole s₀ log) (hu : cfg.Untouched s₀ log) (ht : t.Appends)
    (h : Step t D cfg u cfg') (ha : cfg.Accounted log) (hn : (descents log).Nodup) :
    cfg'.Whole s₀ (log ++ u) := by
  have hl : ∀ d ∈ log, d ∈ log ++ u := fun d hd => List.mem_append_left u hd
  have hsame := (h.changesOnly ht).same
  refine ⟨fun w hw => ?_, fun {c id x y qs} hs => ?_⟩
  · rcases h.mem_owners_or hw with hold | hnew
    · have hstands := hi.opened w hold
      refine hstands.frame fun a haw => hsame a (hstands.allocated a haw) ?_
      exact h.not_mem_writes (ha.nodup_opens hn) (Config.mem_opens_iff.mpr ⟨w, hw, haw⟩)
    · exact hnew
  · rcases List.mem_append.mp hs with hs | hs
    · -- the node was written back earlier, so it is not open now
      obtain ⟨hx, hy⟩ := hi.saved hs
      have hmem : .node c id.index ∈ saves log :=
        mem_saves_iff.mpr ⟨_, hs, Multiset.mem_singleton_self _⟩
      have hfree : Address.node c id.index ∉ cfg.writes := fun hw =>
        ha.not_mem_saves hn (Config.mem_opens_of_mem_writes hw) hmem
      refine ⟨hx.mono hl, ?_⟩
      rw [Store.get?_eq_of_sameAt (hsame _ (Store.allocated_of_get? hy) hfree), hy]
    · obtain ⟨hf, -, r, hc⟩ := h.of_save hs
      have hw : .node (.stored id) x ∈ cfg.owners := by
        rw [Config.owners, hf]
        exact List.mem_cons_self
      obtain ⟨halloc, hput⟩ := Node.close_stored_eq_ok hc
      refine ⟨(hi.enters hu ha hn hw).mono hl, ?_⟩
      rw [hput]
      exact Store.get?_put_self halloc y

end Nodes

/-! ### Statement lists -/

/-- The cells of a list. -/
def Segment.footprint {p : Pool} (seg : Segment p) : Multiset Address :=
  cells p seg.start.toNat seg.length

/-- Two lists have no cell in common. -/
def Segment.Apart {p : Pool} (seg seg' : Segment p) : Prop :=
  Disjoint seg.footprint seg'.footprint

/-- The statements before the first node that is no statement. -/
def leadingStmts : List Node → List (Id .stmt)
  | ⟨.stored .stmt, id⟩ :: rs => id :: leadingStmts rs
  | _ => []

/-- What the cells of a statement list in progress hold: the results before the first splice, and
from there on what they came into use with. -/
structure Loop.Holds (s₀ : Store) (log : List Deed) (s : Store) (L : Loop) : Prop where
  inside : L.seg.stop ≤ (s.buffer .stmts).size
  collects : L.out = none ↔ (leadingStmts L.results).length = L.results.length
  before : s.Reads .stmts L.seg.start.toNat (leadingStmts L.results)
  rest : ∀ {j : Nat} {x : Id .stmt}, (leadingStmts L.results).length ≤ j → j < L.seg.length →
    (s.buffer .stmts)[L.seg.start.toNat + j]? = some x →
      Enters s₀ log (.cell .stmts (L.seg.start.toNat + j)) x

theorem length_leadingStmts_le (rs : List Node) : (leadingStmts rs).length ≤ rs.length := by
  fun_induction leadingStmts rs with
  | case1 id rs ih => exact Nat.succ_le_succ ih
  | case2 => exact Nat.zero_le _

/-- After the first splice, no more statements lead. -/
private theorem leadingStmts_append_of_lt {rs : List Node}
    (h : (leadingStmts rs).length < rs.length)
    (r : Node) : leadingStmts (rs ++ [r]) = leadingStmts rs := by
  fun_induction leadingStmts rs with
  | case1 id rs ih =>
    rw [List.cons_append, leadingStmts, ih (Nat.lt_of_succ_lt_succ h)]
  | case2 rs hne =>
    cases rs with
    | nil => cases h
    | cons n rs =>
      obtain ⟨k, v⟩ := n
      rw [List.cons_append, leadingStmts]
      rintro id rs' heq
      cases heq
      exact hne _ _ rfl

private theorem leadingStmts_append {rs : List Node} (h : (leadingStmts rs).length = rs.length)
    (rs' : List Node) : leadingStmts (rs ++ rs') = leadingStmts rs ++ leadingStmts rs' := by
  fun_induction leadingStmts rs with
  | case1 id rs ih => rw [List.cons_append, leadingStmts, ih (Nat.succ.inj h), List.cons_append]
  | case2 rs =>
    obtain rfl := List.eq_nil_of_length_eq_zero h.symm
    rfl

theorem Segment.mem_footprint {p : Pool} {seg : Segment p} {j : Nat} (h : j < seg.length) :
    .cell p (seg.start.toNat + j) ∈ seg.footprint :=
  mem_cells.mpr ⟨_, Nat.le_add_right _ _, Nat.add_lt_add_left h _, rfl⟩

namespace Loop.Holds

variable {s₀ s s' : Store} {log log' : List Deed} {L : Loop} {fp : Multiset Address}

/-- The cells of a list are in use. -/
private theorem allocated (h : L.Holds s₀ log s) {a : Address} (ha : a ∈ L.seg.footprint) :
    s.Allocated a := by
  obtain ⟨i, -, hi, rfl⟩ := mem_cells.mp ha
  exact Nat.lt_of_lt_of_le hi h.inside

/-- A list in progress holds the same as long as none of its cells is overwritten. -/
private theorem frame (h : L.Holds s₀ log s) (hL : L.Counted) (hl : ∀ d ∈ log, d ∈ log')
    (hc : s.ChangesOnly fp s') (hfp : ∀ a ∈ L.seg.footprint, a ∉ fp) : L.Holds s₀ log' s' := by
  have hsame : ∀ a ∈ L.seg.footprint, s.SameAt s' a := fun a ha =>
    hc.same a (h.allocated ha) (hfp a ha)
  have hlen : (leadingStmts L.results).length ≤ L.seg.length := by
    have := length_leadingStmts_le L.results
    have := hL.1
    have := hL.2
    omega
  refine ⟨Nat.le_trans h.inside (hc.grows.buffer .stmts), h.collects, ?_, fun hj hj' hx => ?_⟩
  · refine h.before.frame fun a ha => hsame a ?_
    obtain ⟨i, hi, hi', rfl⟩ := mem_cells.mp ha
    exact mem_cells.mpr ⟨i, hi, by omega, rfl⟩
  · have heq : (s'.buffer .stmts)[_]? = (s.buffer .stmts)[_]? := hsame _ (Segment.mem_footprint hj')
    rw [heq] at hx
    exact (h.rest hj hj' hx).mono hl

/-- A list that is taken up holds what its cells came into use with. -/
theorem start {seg : Segment .stmts} (hs : seg.stop ≤ (s.buffer .stmts).size)
    (he : ∀ (j : Nat) (x : Id .stmt), j < seg.length →
      (s.buffer .stmts)[seg.start.toNat + j]? = some x →
        Enters s₀ log (.cell .stmts (seg.start.toNat + j)) x) :
    Loop.Holds s₀ log s ⟨seg, 0, seg.length, none, []⟩ :=
  ⟨hs, iff_of_true rfl rfl, trivial, fun _ hj hx => he _ _ hj hx⟩

/-- A result that is collected, since it is a splice or comes after one, changes no cell. -/
private theorem collect {seg : Segment .stmts} {n i : Nat} {out : Option (Array (Id .stmt))}
    {rs : List Node} {r : Node} (h : Loop.Holds s₀ log s ⟨seg, i, n + 1, out, rs⟩)
    (hl : ∀ d ∈ log, d ∈ log') (hr : leadingStmts (rs ++ [r]) = leadingStmts rs)
    (new : Array (Id .stmt)) : Loop.Holds s₀ log' s ⟨seg, i + 1, n, some new, rs ++ [r]⟩ := by
  obtain ⟨hin, -, hbefore, hrest⟩ := h
  dsimp only at hin hbefore hrest
  rw [← hr] at hbefore hrest
  refine ⟨hin, ?_, hbefore, fun hj hj' hx => (hrest hj hj' hx).mono hl⟩
  have hle := length_leadingStmts_le rs
  refine iff_of_false (Option.some_ne_none _) fun heq => ?_
  dsimp only at heq
  rw [hr, List.length_append, List.length_singleton] at heq
  omega

/-- The result for an item is taken: before the first splice it is written to the cell of the item,
and later it is collected. -/
private theorem take {l : String} {seg : Segment .stmts} {n i : Nat}
    {out out' : Option (Array (Id .stmt))} {rs : List Node} {r : Node} {v : List Mark}
    (h : Loop.Holds s₀ log s ⟨seg, i, n + 1, out, rs⟩)
    (hL : Loop.Counted ⟨seg, i, n + 1, out, rs⟩) (hl : ∀ d ∈ log, d ∈ log')
    (ht : Takes l seg i s out r v out' s') :
    Loop.Holds s₀ log' s' ⟨seg, i + 1, n, out', rs ++ [r]⟩ := by
  cases ht with
  | @write id s' hs =>
    obtain ⟨hin, hcol, hbefore, hrest⟩ := h
    obtain ⟨hrs, hlen⟩ := hL
    dsimp only at hin hcol hbefore hrest hrs hlen
    -- nothing is collected yet, so all results so far lead, and the new one goes into the next cell
    have hall := hcol.mp rfl
    have hlead : leadingStmts (rs ++ [.stored id]) = leadingStmts rs ++ [id] :=
      leadingStmts_append hall _
    obtain ⟨hmoves, hcell⟩ := StoreM.moves_setItem hs
    have hsame : ∀ j, j ≠ i → s.SameAt s' (.cell .stmts (seg.start.toNat + j)) := by
      intro j hj
      rw [(StoreM.setItem_eq_ok hs).2]
      refine Store.sameAt_putItem fun heq => hj ?_
      injection heq with _ heq
      exact Nat.add_left_cancel heq
    refine ⟨Nat.le_trans hin (hmoves.grows.buffer .stmts), ?_, ?_, ?_⟩
    · simp [hlead, hall]
    · dsimp only
      rw [hlead]
      refine (hbefore.frame fun a ha => ?_).append ⟨?_, trivial⟩
      · obtain ⟨k, hk, hk', rfl⟩ := mem_cells.mp ha
        have := hsame (k - seg.start.toNat) (by omega)
        rwa [Nat.add_sub_cancel' hk] at this
      · rwa [hall, hrs]
    · intro j x hj hj' hx
      dsimp only at hj hj' hx
      rw [hlead, List.length_append, hall, hrs, List.length_singleton] at hj
      have heq : (s'.buffer .stmts)[_]? = (s.buffer .stmts)[_]? := hsame j (by omega)
      rw [heq] at hx
      exact (hrest (by omega) hj' hx).mono hl
  | push out id =>
    have hlt : (leadingStmts rs).length < rs.length :=
      Nat.lt_of_le_of_ne (length_leadingStmts_le rs) fun heq => by cases h.collects.mpr heq
    exact h.collect hl (leadingStmts_append_of_lt hlt _) _
  | @splice _ old new b hb hn ho =>
    refine h.collect hl ?_ _
    rcases Nat.lt_or_eq_of_le (length_leadingStmts_le rs) with hlt | heq
    · exact leadingStmts_append_of_lt hlt _
    · exact (leadingStmts_append heq _).trans (List.append_nil _)

end Loop.Holds

section Loops

variable {t : Transformer σ} {D : Nat} {cfg cfg' : Config σ} {log u : List Deed} {s₀ : Store}

theorem Segment.Apart.symm {p : Pool} {seg seg' : Segment p} (h : seg.Apart seg') :
    seg'.Apart seg :=
  Disjoint.symm h

/-- A list with an item is not apart from itself. -/
private theorem Segment.length_eq_zero_of_apart {p : Pool} {seg : Segment p} (h : seg.Apart seg) :
    seg.length = 0 := by
  by_contra hne
  have hmem : .cell p (seg.start.toNat + 0) ∈ seg.footprint :=
    mem_footprint (Nat.pos_of_ne_zero hne)
  exact Multiset.disjoint_left.mp h hmem hmem

/-- If the lists that were taken up are apart, then so are those in progress and those that are
settled. -/
theorem Config.Accounted.pairwise_apart (ha : cfg.Accounted log)
    (hd : (takenLists log).Pairwise Segment.Apart) :
    (cfg.loops.map Loop.seg ++ settledLists log).Pairwise Segment.Apart :=
  (ha.taken.pairwise_iff fun h => h.symm).mp hd

/-- No cell of a list that is apart from all lists before it is in one of these. -/
private theorem not_walked_of_apart {seg : Segment .stmts} {j : Nat} (hj : j < seg.length)
    (hd : ∀ seg' ∈ takenLists log, seg'.Apart seg) : ¬Walked log .stmts (seg.start.toNat + j) := by
  rintro ⟨seg', htake, hlo, hhi⟩
  have hmem : seg' ∈ takenLists log :=
    List.mem_flatMap.mpr ⟨_, htake, List.mem_singleton_self _⟩
  have hcell : .cell .stmts (seg.start.toNat + j) ∈ seg'.footprint :=
    mem_cells.mpr ⟨_, hlo, hhi, rfl⟩
  exact Multiset.disjoint_left.mp (hd seg' hmem) hcell (Segment.mem_footprint hj)

theorem Step.loops_hold (ht : t.Appends) (h : Step t D cfg u cfg') (ha : cfg.Accounted log)
    (hu : cfg.Untouched s₀ log) (hd : (takenLists (log ++ u)).Pairwise Segment.Apart)
    (hi : ∀ L ∈ cfg.loops, L.Holds s₀ log cfg.context.store) :
    ∀ L ∈ cfg'.loops, L.Holds s₀ (log ++ u) cfg'.context.store := by
  have hl : ∀ d ∈ log, d ∈ log ++ u := fun d hd => List.mem_append_left u hd
  have hkeep : ∀ L ∈ cfg.loops, (∀ a ∈ L.seg.footprint, a ∉ cfg.writes) →
      L.Holds s₀ (log ++ u) cfg'.context.store := fun L hL hfp =>
    (hi L hL).frame (ha.counted L hL) hl (h.changesOnly ht) hfp
  rw [takenLists_append, List.pairwise_append] at hd
  obtain ⟨hold, -, hnew⟩ := hd
  have hapart := (List.pairwise_append.mp (ha.pairwise_apart hold)).1
  cases h with
  | @stmts w l seg ps qs st c hd hs =>
    refine List.forall_mem_cons.mpr ⟨.start hs fun j x hj hx => ?_, fun L hL => ?_⟩
    · have hfree : ¬Walked log .stmts (seg.start.toNat + j) :=
        not_walked_of_apart hj fun seg' hseg' => hnew seg' hseg' seg (List.mem_singleton_self _)
      exact (hu.enters (.cell .stmts (seg.start.toNat + j)) x hfree hx).mono hl
    · exact hkeep L hL fun a _ => Multiset.notMem_zero a
  | @take l seg n i r out out' rs v st c s htakes =>
    -- the cell that is written belongs to the innermost list, from which the others are apart
    have hcount := ha.counted _ List.mem_cons_self
    refine List.forall_mem_cons.mpr
      ⟨(hi _ List.mem_cons_self).take hcount hl htakes, fun L hL => ?_⟩
    refine hkeep L (List.mem_cons_of_mem _ hL) fun a haL hw => ?_
    obtain rfl := Multiset.mem_singleton.mp hw
    have hcell : .cell .stmts (seg.start.toNat + i) ∈ seg.footprint := by
      refine Segment.mem_footprint ?_
      have hlen := hcount.2
      dsimp only at hlen
      omega
    have hL' : seg.Apart L.seg := (List.pairwise_cons.mp hapart).1 _ (List.mem_map_of_mem hL)
    exact Multiset.disjoint_left.mp hL' hcell haL
  | settle =>
    exact fun L hL => hkeep L (List.mem_cons_of_mem _ hL) fun a _ => Multiset.notMem_zero a
  | close =>
    refine fun L hL => hkeep L hL fun a haL hw => ?_
    obtain ⟨c, i, rfl⟩ := Node.exists_of_mem_footprint hw
    obtain ⟨j, -, -, heq⟩ := mem_cells.mp haL
    cases heq
  | write =>
    refine fun L hL => hkeep L hL fun a haL hw => ?_
    obtain ⟨j, -, -, rfl⟩ := mem_cells.mp haL
    cases Multiset.mem_singleton.mp hw
    exact (ha.listed.owners _ List.mem_cons_self).1 rfl
  | _ => exact fun L hL => hkeep L hL fun a _ => Multiset.notMem_zero a

end Loops

/-! ### Runs -/

section Runs

variable {t : Transformer σ} {D : Nat} {cfg cfg' : Config σ} {log u : List Deed} {s₀ : Store}

theorem Steps.whole (ht : t.Appends) (h : Steps t D cfg u cfg') (ha : cfg.Accounted [])
    (hu : cfg.Untouched s₀ []) (hi : cfg.Whole s₀ []) (hn : (descents u).Nodup) :
    cfg'.Whole s₀ u := by
  induction h with
  | refl => exact hi
  | tail h hs ih =>
    rw [descents_append] at hn
    have hn' := (Multiset.nodup_add.mp hn).1
    exact (ih hn').step (h.untouched ht ha hu) ht hs (h.accounted ha) hn'

theorem Steps.loops_hold (ht : t.Appends) (h : Steps t D cfg u cfg') (ha : cfg.Accounted [])
    (hu : cfg.Untouched s₀ []) (hloops : cfg.loops = [])
    (hd : (takenLists u).Pairwise Segment.Apart) :
    ∀ L ∈ cfg'.loops, L.Holds s₀ u cfg'.context.store := by
  induction h with
  | refl =>
    rw [hloops]
    exact fun L hL => absurd hL List.not_mem_nil
  | tail h hs ih =>
    have hd' := hd
    rw [takenLists_append, List.pairwise_append] at hd'
    exact hs.loops_hold ht (h.accounted ha) (h.untouched ht ha hu) hd (ih hd'.1)

variable {v : Violation} {es : List Event} {c' : Context σ}

/-- A violation ends the run at once. -/
theorem Concludes.context_eq (h : Concludes t D cfg (.error (.violation v)) es c') :
    c' = cfg.context := by
  cases h with
  | refused ht => cases ht <;> rfl
  | _ => rfl

/-- A node that was to be opened when the run was aborted is not in the store. -/
theorem Concludes.read_pending (h : Concludes t D cfg (.error (.violation v)) es c') {a : Address}
    (ha : a ∈ cfg.pending) : cfg.context.store.read a = none := by
  cases h with
  | danglingNode hx =>
    obtain rfl := Multiset.mem_singleton.mp ha
    exact hx
  | _ => exact absurd ha (Multiset.notMem_zero a)

/-- A list in progress when the run was aborted has an item that is not done. -/
theorem Concludes.left_pos (h : Concludes t D cfg (.error (.violation v)) es c') {L : Loop}
    (hL : L ∈ cfg.loops) : 0 < L.left := by
  have hfocus : cfg.focus.loops = [] := by cases h <;> rfl
  rw [Config.loops, hfocus, List.nil_append] at hL
  obtain ⟨f, -, hL⟩ := List.mem_flatMap.mp hL
  cases f with
  | stmt =>
    obtain rfl := List.mem_singleton.mp hL
    exact Nat.succ_pos _
  | _ => cases hL

end Runs

/-- What a run from the store `s₀`, broken off in a configuration, has left in the store `s`. -/
structure Config.Remains (s₀ : Store) (log : List Deed) (cfg : Config σ) (s : Store) : Prop where
  /-- A node that was descended into is open, was written back, or was not there. -/
  descended : ∀ a ∈ descents log, a ∈ cfg.opens ∨ a ∈ saves log ∨ s.read a = none
  /-- An open node holds what it came into use with. -/
  opened : ∀ {c : Category} {id : Id c} {x : c.Payload}, .node (.stored id) x ∈ cfg.owners →
    .node c id.index ∉ saves log ∧ s.get? id = some x ∧ Enters s₀ log (.node c id.index) x
  /-- A node that was written back holds what it came into use with, each of its parts replaced by
  what the part was done with. -/
  saved : ∀ {c : Category} {id : Id c} {x y : c.Payload} {qs : List SlotPart},
    .save (.stored id) x qs y ∈ log → Enters s₀ log (.node c id.index) x ∧
      (Owner.node (.stored id) x).Replaced log (c.slots x).parts qs ∧ (c.slots x).Refills qs y ∧
      s.get? id = some y
  /-- Every other entry holds what it came into use with. -/
  other : ∀ {c : Category} {i : Nat} {x : c.Payload}, .node c i ∉ saves log →
    (s.table c).nodes[i]? = some x → Enters s₀ log (.node c i) x
  /-- A statement list in progress has not been settled, and its cells hold the results before the
  first splice and after them what they came into use with. -/
  lists : (takenLists log).Pairwise Segment.Apart → ∀ seg ∈ cfg.lists, seg ∉ settledLists log ∧
    ∃ L ∈ cfg.loops, L.seg = seg ∧ L.Counted ∧ L.Holds s₀ log s

/-- **No node is left half done by an abort.** Let a transformer append only, let the run stop at a
violation, and let no node have been descended into twice. Then every node that is open holds what
it came into use with, every node that was written back is completely rebuilt, all others are as
they were, and the statement lists in progress are rewritten up to their first splice. -/
theorem Transformer.aborted_run {t : Transformer σ} (ht : t.Appends) {depth : Nat} {root : Node}
    {store : Store} {state : σ} {v : Violation}
    (hv : (t.run depth root store state).result = .error (.violation v))
    (hn : (t.run depth root store state).descended.Nodup) :
    ∃ log cfg, t.EndsIn depth root store state log cfg ∧
      cfg.Remains store log (t.run depth root store state).store := by
  obtain ⟨log, cfg, hend⟩ := t.exists_endsIn depth root store state
  refine ⟨log, cfg, hend, ?_⟩
  obtain ⟨es, hc, -⟩ := hend.concludes
  rw [hv] at hc
  rw [hend.descended_eq] at hn
  have haccount := Config.accounted_visit root ⟨store, state⟩
  have hstart : Config.Untouched store [] (⟨.visit root, [], ⟨store, state⟩⟩ : Config σ) :=
    ⟨.refl store, fun a x _ hx => .inl hx⟩
  have ha := hend.reaches.accounted haccount
  have hu := Steps.untouched ht hend.reaches haccount hstart
  have hw := Steps.whole ht hend.reaches haccount hstart
    ⟨fun w hw => absurd hw List.not_mem_nil, fun hs => absurd hs List.not_mem_nil⟩ hn
  have hstore : (t.run depth root store state).store = cfg.context.store :=
    congrArg Context.store hc.context_eq
  rw [hstore]
  refine ⟨fun a hmem => ?_, fun hx => ?_, fun hs => ?_, fun hs hx => hu.enters _ _ hs hx,
    fun hd seg hseg => ?_⟩
  · rw [ha.nodes, Multiset.mem_add, Multiset.mem_add] at hmem
    rcases hmem with (hp | ho) | hs
    · exact .inr (.inr (hc.read_pending hp))
    · exact .inl ho
    · exact .inr (.inl hs)
  · have hopen := Config.mem_opens_iff.mpr ⟨_, hx, Multiset.mem_singleton_self _⟩
    exact ⟨ha.not_mem_saves hn hopen, hw.opened _ hx, hw.enters hu ha hn hx⟩
  · obtain ⟨hx, hy⟩ := hw.saved hs
    obtain ⟨hrefill, hreplaced⟩ := ha.filled.saved hs
    exact ⟨hx, hreplaced, hrefill, hy⟩
  · have hloops := Steps.loops_hold ht hend.reaches haccount hstart rfl hd
    rw [← ha.loops] at hseg
    obtain ⟨L, hL, rfl⟩ := List.mem_map.mp hseg
    have hcount := ha.counted L hL
    refine ⟨fun hset => ?_, L, hL, rfl, hcount, hloops L hL⟩
    -- a list that is settled and in progress would be apart from itself, hence empty
    have hapart := (List.pairwise_append.mp (ha.pairwise_apart hd)).2.2
    have hzero := Segment.length_eq_zero_of_apart (hapart _ (List.mem_map_of_mem hL) _ hset)
    have hpos := hc.left_pos hL
    have hlen := hcount.2
    omega

/-! ### A list that breaks off -/

/-- A block whose third statement is not there; the first is a block of one statement. -/
def cliff : Store where
  tables := { stmts := .ofNodes #[.block ⟨0, 3⟩, .block ⟨3, 1⟩, .bad, .bad] }
  buffers := { stmts := #[⟨1⟩, ⟨2⟩, ⟨9⟩, ⟨3⟩] }

/-- The inner block is done, the second statement is spliced, and at the third the run ends. -/
private theorem cliff_reaches :
    ∃ log cfg, pointBack.Reaches 9 (.stored (⟨0⟩ : Id .stmt)) cliff () log cfg ∧
      takenLists log = [⟨0, 3⟩, ⟨3, 1⟩] ∧ cfg.lists = [⟨0, 3⟩] ∧
      ∃ res es c', Concludes pointBack 9 cfg res es c' := by
  have hstart : pointBack.Reaches 9 (.stored (⟨0⟩ : Id .stmt)) cliff () [] _ := .refl _
  have houter := (((hstart.tail (.call rfl)).tail (.down (x := Stmt.block ⟨0, 3⟩) rfl)).tail
    (.stmts (by decide) (by decide))).tail (.stmt (x := ⟨1⟩) rfl)
  have hinner := ((((houter.tail (.call rfl)).tail (.down (x := Stmt.block ⟨3, 1⟩) rfl)).tail
    (.stmts (by decide) (by decide))).tail (.stmt (x := ⟨3⟩) rfl)).tail (.call rfl)
  have hclose := (((((hinner.tail .stay).tail (.take (.write rfl))).tail (.settle rfl)).tail
    (.close (by decide) (.list (.done _)) rfl)).tail (.leave rfl)).tail (.take (.write rfl))
  have hsplice := (((hclose.tail (.stmt (x := ⟨2⟩) rfl)).tail (.call rfl)).tail .stay).tail
    (.take (.splice (by decide) rfl (.inPlace rfl)))
  have hlast := (hsplice.tail (.stmt (x := ⟨9⟩) rfl)).tail (.call rfl)
  exact ⟨_, _, hlast, rfl, rfl, _, _, _, .danglingNode rfl⟩

/-- The outer block is open and has its old list, of which nothing is changed; the inner one was
written back, and its only cell has the new statement. -/
theorem aborted_run_cliff :
    let out := pointBack.run 9 (.stored (⟨0⟩ : Id .stmt)) cliff ()
    pointBack.Appends ∧
      out.result = .error (.violation (.danglingNode Category.stmt.name 9)) ∧
      out.descended.Nodup ∧
      (out.store.table .stmt).nodes =
        #[.block ⟨0, 3⟩, .block ⟨3, 1⟩, .bad, .bad, .block ⟨0, 2⟩] ∧
      out.store.buffer .stmts = #[⟨1⟩, ⟨2⟩, ⟨9⟩, ⟨4⟩] ∧
      ∃ log cfg, pointBack.EndsIn 9 (.stored (⟨0⟩ : Id .stmt)) cliff () log cfg ∧
        cfg.Remains cliff log out.store ∧ (takenLists log).Pairwise Segment.Apart ∧
        cfg.lists = [⟨0, 3⟩] := by
  intro out
  have hv : out.result = .error (.violation (.danglingNode Category.stmt.name 9)) := by decide
  have hn : out.descended.Nodup := by decide
  refine ⟨pointBack_appends, hv, hn, by decide, by decide, ?_⟩
  obtain ⟨log, cfg, hend, hrem⟩ := Transformer.aborted_run pointBack_appends hv (by exact hn)
  obtain ⟨log', cfg', hreach, htaken, hlists, res, es, c', hc⟩ := cliff_reaches
  obtain ⟨es', hstop⟩ := hend.concludes
  obtain ⟨rfl, rfl⟩ := Steps.end_unique hreach hc hend.reaches hstop.1
  refine ⟨log', cfg', hend, hrem, ?_, hlists⟩
  have hdisj : (Segment.footprint (⟨0, 3⟩ : Segment .stmts) +
      Segment.footprint (⟨3, 1⟩ : Segment .stmts)).Nodup := by decide
  rw [htaken]
  exact List.pairwise_pair.mpr (Multiset.nodup_add.mp hdisj).2.2

end GoTree
