import GoTree.Proofs.Changes
import GoTree.Proofs.Determinism
import GoTree.Proofs.Ledger

/-!
# Edits of open nodes

A node is **open** from the moment it is descended into until it is written back. In between the
traversal works on a copy of it, and what stands in the store is not looked at. So a transformer may
write to the entries of open nodes whatever it likes: it is overwritten when the node is closed, and
until then nobody sees it.

`Transformer.open_edits` compares two runs. The two transformers give the same answers and make the
same edits, except that one of them (or both) may also overwrite the entries of nodes that are open
at that moment, and neither heeds what stands in these entries. Then the runs have the same trace
and the same result, and the stores differ at most in the entries of nodes that are open at the end;
so not at all if the run returns. This supposes that no node is descended into while it is open,
which would read the entry again.

The proof runs the two machines in lockstep: their configurations have the same focus and the same
stack, and their stores agree off the open nodes.
-/

namespace GoTree

variable {σ τ : Type}

/-! ### Stores that agree -/

/-- Two stores differ in the payloads of the entries `E` at most. -/
structure Store.AgreeOff (E : Multiset Address) (s s' : Store) : Prop where
  size : ∀ c, (s'.table c).size = (s.table c).size
  spans : ∀ c, (s'.table c).spans = (s.table c).spans
  buffer : ∀ p, s'.buffer p = s.buffer p
  entry : ∀ c i, .node c i ∉ E → s.SameAt s' (.node c i)

/-- Two actions ended alike: with the same value or the same fault, and in related states. -/
def EndAlike {ε ς ς' α : Type} (P : ς → ς' → Prop) :
    EStateM.Result ε ς α → EStateM.Result ε ς' α → Prop
  | .ok a c, .ok b c' => a = b ∧ P c c'
  | .error e c, .error e' c' => e = e' ∧ P c c'
  | _, _ => False

section EndAlike

variable {ε ς ς' α : Type} {P : ς → ς' → Prop} {x : EStateM.Result ε ς α}
  {y : EStateM.Result ε ς' α} {c : ς}

theorem EndAlike.of_ok {a : α} (h : EndAlike P x y) (hx : x = .ok a c) :
    ∃ c', y = .ok a c' ∧ P c c' := by
  subst hx
  cases y with
  | ok b c' =>
    obtain ⟨rfl, hP⟩ := h
    exact ⟨c', rfl, hP⟩
  | error => exact h.elim

theorem EndAlike.of_error {e : ε} (h : EndAlike P x y) (hx : x = .error e c) :
    ∃ c', y = .error e c' ∧ P c c' := by
  subst hx
  cases y with
  | ok => exact h.elim
  | error e' c' =>
    obtain ⟨rfl, hP⟩ := h
    exact ⟨c', rfl, hP⟩

end EndAlike

namespace Store.AgreeOff

variable {s s' s₁ : Store} {E E' : Multiset Address} {c : Category} {p : Pool}

theorem refl (E : Multiset Address) (s : Store) : s.AgreeOff E s :=
  ⟨fun _ => rfl, fun _ => rfl, fun _ => rfl, fun _ _ _ => rfl⟩

theorem mono (h : s.AgreeOff E s') (hE : E ⊆ E') : s.AgreeOff E' s' :=
  { h with entry := fun c i hi => h.entry c i fun he => hi (hE he) }

/-- Stores that agree everywhere are equal. -/
private theorem eq_of_zero (h : s.AgreeOff 0 s') : s' = s := by
  refine Store.ext_read (fun c => ?_) h.buffer
  have hnodes : (s'.table c).nodes = (s.table c).nodes :=
    Array.ext_getElem? fun i => h.entry c i (Multiset.notMem_zero _)
  exact Table.ext hnodes (h.spans c)

theorem body?_eq {n : Node} (h : s.AgreeOff E s') (hn : Disjoint n.footprint E) :
    n.body? s' = n.body? s := by
  obtain ⟨k, v⟩ := n
  cases k with
  | stored c =>
    have hmem := Multiset.disjoint_left.mp hn (Multiset.mem_singleton_self _)
    exact h.entry c v.index hmem
  | _ => rfl

theorem items_eq (h : s.AgreeOff E s') (seg : Segment p) : s'.items seg = s.items seg := by
  rw [Store.items, Store.items, h.buffer p]

theorem item_eq (h : s.AgreeOff E s') (seg : Segment p) (i : Nat) :
    s'.item seg i = s.item seg i := by
  rw [Store.item, Store.item, h.buffer p]

/-! Edits that are made to both stores. -/

theorem modifyBuffer (h : s.AgreeOff E s') (p : Pool) (f : Array p.Item → Array p.Item) :
    (s.modifyBuffer p f).AgreeOff E (s'.modifyBuffer p f) := by
  refine ⟨h.size, h.spans, fun q => ?_, h.entry⟩
  by_cases hq : q = p
  · subst hq
    rw [buffer_modifyBuffer_self, buffer_modifyBuffer_self, h.buffer q]
  · rw [buffer_modifyBuffer_of_ne _ hq, buffer_modifyBuffer_of_ne _ hq, h.buffer q]

theorem symm (h : s.AgreeOff E s') : s'.AgreeOff E s :=
  ⟨fun c => (h.size c).symm, fun c => (h.spans c).symm, fun p => (h.buffer p).symm,
    fun c i hi => Eq.symm (h.entry c i hi)⟩

/-- An entry in `E` may be overwritten in one of the stores. -/
theorem put_right (h : s.AgreeOff E s') {id : Id c} (he : .node c id.index ∈ E) (x : c.Payload) :
    s.AgreeOff E (s'.put id x) := by
  refine ⟨fun d => (s'.size_table_put id x d).trans (h.size d),
    fun d => (s'.spans_table_put id x d).trans (h.spans d), h.buffer, fun d i hi => ?_⟩
  refine (h.entry d i hi).trans (sameAt_put fun heq => hi ?_)
  rwa [heq]

/-- An entry that is overwritten in both stores is the same from then on. -/
theorem put {id : Id c} (h : s.AgreeOff ({.node c id.index} + E) s')
    (ha : s.Allocated (.node c id.index)) (x : c.Payload) :
    (s.put id x).AgreeOff E (s'.put id x) := by
  have he : Address.node c id.index ∈ {Address.node c id.index} + E :=
    Multiset.mem_add.mpr (.inl (Multiset.mem_singleton_self _))
  have hboth := ((h.put_right he x).symm.put_right he x).symm
  refine { hboth with entry := fun d i hi => ?_ }
  by_cases heq : Address.node d i = .node c id.index
  · cases heq
    have ha' : s'.Allocated (.node c id.index) := by
      simp only [Store.Allocated] at ha ⊢
      rwa [h.size c]
    exact Eq.trans (get?_put_self ha' x) (get?_put_self ha x).symm
  · refine hboth.entry d i fun hmem => ?_
    rcases Multiset.mem_add.mp hmem with hmem | hmem
    · exact heq (Multiset.mem_singleton.mp hmem)
    · exact hi hmem

/-- A node is closed alike in both stores, and its entry is the same from then on. -/
theorem close {n r : Node} {y : n.kind.Body} (h : s.AgreeOff (n.footprint + E) s')
    (hc : n.close y s = .ok r s₁) : ∃ s₁', n.close y s' = .ok r s₁' ∧ s₁.AgreeOff E s₁' := by
  obtain ⟨k, v⟩ := n
  cases k with
  | stored c =>
    have hc' := Node.close_stored v y s'
    rw [h.size c] at hc'
    change (Node.stored v).close y s = .ok r s₁ at hc
    rw [Node.close_stored] at hc
    split_ifs at hc hc' with ha
    cases hc
    exact ⟨_, hc', h.put ha y⟩
  | _ =>
    cases hc
    have hzero : s.AgreeOff (0 + E) s' := h
    rw [zero_add] at hzero
    exact ⟨_, rfl, hzero⟩

private theorem close_error {n : Node} {y : n.kind.Body} {e : Fault} (h : s.AgreeOff E s')
    (hc : n.close y s = .error e s₁) : n.close y s' = .error e s' := by
  obtain ⟨k, v⟩ := n
  cases k with
  | stored c =>
    have hc' := Node.close_stored v y s'
    rw [h.size c] at hc'
    change (Node.stored v).close y s = .error e s₁ at hc
    rw [Node.close_stored] at hc
    split_ifs at hc hc' with ha
    cases hc
    exact hc'
  | _ => cases hc

theorem setItem (h : s.AgreeOff E s') (seg : Segment p) (i : Nat) (x : p.Item) :
    EndAlike (Store.AgreeOff E) (StoreM.setItem seg i x s) (StoreM.setItem seg i x s') := by
  unfold StoreM.setItem
  rw [h.buffer p]
  split
  · exact ⟨rfl, h⟩
  · exact ⟨rfl, h.modifyBuffer p _⟩

theorem settle (h : s.AgreeOff E s') (seg : Segment .stmts) (out : Option (Array (Id .stmt))) :
    EndAlike (Store.AgreeOff E) (seg.settle out s) (seg.settle out s') := by
  cases out with
  | none => exact ⟨rfl, h⟩
  | some out =>
    have happend := h.modifyBuffer .stmts (· ++ out)
    simp only [Segment.settle, StoreM.list]
    rw [h.buffer .stmts]
    split_ifs
    · exact ⟨rfl, happend⟩
    · exact ⟨rfl, happend⟩
    · exact ⟨rfl, happend⟩
    · exact ⟨rfl, happend⟩

end Store.AgreeOff

section Answers

variable {l : String} {seg : Segment .stmts} {i : Nat} {s s' s₁ : Store} {r : Node}
  {out out' : Option (Array (Id .stmt))} {v : List Mark} {e : Abort} {E : Multiset Address}

private theorem Collected.alike {old : Array (Id .stmt)} (h : Collected seg i s out old)
    (hs : s.AgreeOff E s') : Collected seg i s' out old := by
  cases h with
  | aside => exact .aside _
  | inPlace hx => exact .inPlace ((hs.items_eq seg).trans hx)

/-- A result for an item is taken alike in both stores. -/
private theorem Takes.alike (h : Takes l seg i s out r v out' s₁) (hs : s.AgreeOff E s') :
    ∃ s₁', Takes l seg i s' out r v out' s₁' ∧ s₁.AgreeOff E s₁' := by
  cases h with
  | write hw =>
    obtain ⟨s₁', hw', hs'⟩ := (hs.setItem seg i _).of_ok hw
    exact ⟨s₁', .write hw', hs'⟩
  | push => exact ⟨s', .push _ _, hs⟩
  | @splice _ old new b hb hn ho =>
    refine ⟨s', .splice ?_ ((hs.items_eq b.stmts).trans hn) (ho.alike hs), hs⟩
    rwa [hs.buffer]

private theorem Refuses.alike (h : Refuses l seg i s out r v e s₁) (hs : s.AgreeOff E s') :
    ∃ s₁', Refuses l seg i s' out r v e s₁' ∧ s₁.AgreeOff E s₁' := by
  cases h with
  | write hw =>
    obtain ⟨s₁', hw', hs'⟩ := (hs.setItem seg i _).of_error hw
    exact ⟨s₁', .write hw', hs'⟩
  | mismatch hk hb => exact ⟨s', .mismatch hk hb, hs⟩
  | dangling hb => exact ⟨s', .dangling (by rwa [hs.buffer]), hs⟩
  | @block _ b e hb hn =>
    exact ⟨s', .block (by rwa [hs.buffer]) ((hs.items_eq b.stmts).trans hn), hs⟩
  | @collect b new e hb hn ho =>
    exact ⟨s', .collect (by rwa [hs.buffer]) ((hs.items_eq b.stmts).trans hn)
      ((hs.items_eq seg).trans ho), hs⟩

end Answers

/-! ### Lockstep -/

/-- Contexts that differ in the payloads of the entries `E` at most, the states being related. -/
def Context.AgreeOff (E : Multiset Address) (Q : σ → τ → Prop) (c : Context σ) (c' : Context τ) :
    Prop :=
  c.store.AgreeOff E c'.store ∧ Q c.state c'.state

/-- Where the transformer `R` is asked, `R'` does the same in every context that agrees off the open
nodes: it gives the same answer and makes the same edits, except to open nodes. -/
def Config.Alike (R : Transformer σ) (R' : Transformer τ) (Q : σ → τ → Prop) (cfg : Config σ) :
    Prop :=
  match cfg.focus with
  | .visit n => ∀ c', cfg.context.AgreeOff cfg.opens Q c' →
      EndAlike (Context.AgreeOff cfg.opens Q) (R.replace n cfg.context) (R'.replace n c')
  | .leave _ => ∀ c', cfg.context.AgreeOff cfg.opens Q c' →
      EndAlike (Context.AgreeOff cfg.opens Q) (R.leave cfg.context) (R'.leave c')
  | _ => True

/-- What is descended into is not open. -/
def Config.Fresh (cfg : Config σ) : Prop :=
  Disjoint cfg.pending cfg.opens

/-- Two machines are at the same point, in contexts that agree off the open nodes. -/
structure Config.Lockstep (Q : σ → τ → Prop) (cfg : Config σ) (cfg' : Config τ) : Prop where
  focus : cfg'.focus = cfg.focus
  stack : cfg'.stack = cfg.stack
  context : cfg.context.AgreeOff cfg.opens Q cfg'.context

section Lockstep

variable {R : Transformer σ} {R' : Transformer τ} {Q : σ → τ → Prop} {D : Nat}
  {cfg cfg₁ : Config σ} {cfg' : Config τ} {u : List Deed}

/-- The second machine follows a step of the first, and the trace shows the same. -/
theorem Step.lockstep (h : Step R D cfg u cfg₁) (hl : cfg.Lockstep Q cfg')
    (ha : cfg.Alike R R' Q) (hf : cfg.Fresh) :
    ∃ u' cfg₁', Step R' D cfg' u' cfg₁' ∧ u'.flatMap Deed.events = u.flatMap Deed.events ∧
      cfg₁.Lockstep Q cfg₁' := by
  obtain ⟨f, st, c'⟩ := cfg'
  obtain ⟨rfl, rfl, hs, hq⟩ := hl
  -- apart from the transformers, only two rules use an entry: `down` reads one that is not open,
  -- and `close` overwrites one that is, in both stores by the same body
  cases h with
  | call hr =>
    obtain ⟨c₁, hr', hc⟩ := (ha c' ⟨hs, hq⟩).of_ok hr
    exact ⟨_, _, .call hr', rfl, rfl, rfl, hc⟩
  | stay => exact ⟨_, _, .stay, rfl, rfl, rfl, hs, hq⟩
  | down hx =>
    have hx' := (hs.body?_eq hf).trans hx
    refine ⟨_, _, .down hx', rfl, rfl, rfl, hs.mono ?_, hq⟩
    exact Multiset.subset_of_le (Multiset.le_add_left _ _)
  | slot hd => exact ⟨_, _, .slot hd, rfl, rfl, rfl, hs, hq⟩
  | list hd hp hb => exact ⟨_, _, .list hd hp (by rwa [hs.buffer]), rfl, rfl, rfl, hs, hq⟩
  | stmts hd hb => exact ⟨_, _, .stmts hd (by rwa [hs.buffer]), rfl, rfl, rfl, hs, hq⟩
  | close hd hy hc =>
    obtain ⟨s₁, hc', hs'⟩ := hs.close hc
    exact ⟨_, _, .close hd hy hc', rfl, rfl, rfl, hs', hq⟩
  | leave hl =>
    obtain ⟨c₁, hl', hc⟩ := (ha c' ⟨hs, hq⟩).of_ok hl
    exact ⟨_, _, .leave hl', rfl, rfl, rfl, hc⟩
  | fill hk => exact ⟨_, _, .fill hk, rfl, rfl, rfl, hs, hq⟩
  | item hx =>
    refine ⟨_, _, .item ((hs.item_eq _ _).trans hx), rfl, rfl, rfl, hs.mono ?_, hq⟩
    exact Multiset.subset_of_le (Multiset.le_add_left _ _)
  | write hd hy hw =>
    obtain ⟨s₁, hw', hs'⟩ := (hs.setItem _ _ _).of_ok hw
    refine ⟨_, _, .write hd hy hw', rfl, rfl, rfl, ?_, hq⟩
    simpa [Config.opens, Config.owners] using hs'
  | itemsDone => exact ⟨_, _, .itemsDone, rfl, rfl, rfl, hs, hq⟩
  | stmt hx => exact ⟨_, _, .stmt ((hs.item_eq _ _).trans hx), rfl, rfl, rfl, hs, hq⟩
  | take ht =>
    obtain ⟨s₁, ht', hs'⟩ := ht.alike hs
    exact ⟨_, _, .take ht', rfl, rfl, rfl, hs', hq⟩
  | settle hc =>
    obtain ⟨s₁, hc', hs'⟩ := (hs.settle _ _).of_ok hc
    exact ⟨_, _, .settle hc', rfl, rfl, rfl, hs', hq⟩

/-- The second machine follows the first. -/
theorem Steps.lockstep (h : Steps R D cfg u cfg₁) (hl : cfg.Lockstep Q cfg')
    (ha : ∀ v cfg₂, Steps R D cfg v cfg₂ → cfg₂.Alike R R' Q)
    (hf : ∀ v cfg₂, Steps R D cfg v cfg₂ → cfg₂.Fresh) :
    ∃ u' cfg₁', Steps R' D cfg' u' cfg₁' ∧ u'.flatMap Deed.events = u.flatMap Deed.events ∧
      cfg₁.Lockstep Q cfg₁' := by
  induction h with
  | refl => exact ⟨[], cfg', .refl cfg', rfl, hl⟩
  | tail h hs ih =>
    obtain ⟨u', cfg₁', hsteps, hevents, hl'⟩ := ih
    obtain ⟨v', cfg₂', hstep, hevents', hl''⟩ := hs.lockstep hl' (ha _ _ h) (hf _ _ h)
    refine ⟨u' ++ v', cfg₂', .tail hsteps hstep, ?_, hl''⟩
    rw [List.flatMap_append, List.flatMap_append, hevents, hevents']

/-- If the first machine ends the run, then so does the second, with the same result. -/
theorem Concludes.lockstep {res : Except Abort Node} {es : List Event} {c₁ : Context σ}
    (h : Concludes R D cfg res es c₁) (hl : cfg.Lockstep Q cfg') (ha : cfg.Alike R R' Q)
    (hf : cfg.Fresh) :
    ∃ c₁', Concludes R' D cfg' res es c₁' ∧ c₁.AgreeOff cfg.opens Q c₁' := by
  obtain ⟨f, st, c'⟩ := cfg'
  obtain ⟨rfl, rfl, hs, hq⟩ := hl
  cases h with
  | returned => exact ⟨_, .returned, hs, hq⟩
  | halt hr =>
    obtain ⟨c₁', hr', hc⟩ := (ha c' ⟨hs, hq⟩).of_error hr
    exact ⟨c₁', .halt hr', hc⟩
  | danglingNode hx => exact ⟨_, .danglingNode ((hs.body?_eq (n := .stored _) hf).trans hx), hs, hq⟩
  | deep hd => exact ⟨_, .deep hd, hs, hq⟩
  | danglingList hd hb => exact ⟨_, .danglingList hd (by rwa [hs.buffer]), hs, hq⟩
  | close hd hy hc =>
    obtain rfl := Node.store_of_close_error hc
    exact ⟨_, .close hd hy (hs.close_error hc), hs, hq⟩
  | leave hl =>
    obtain ⟨c₁', hl', hc⟩ := (ha c' ⟨hs, hq⟩).of_error hl
    exact ⟨c₁', .leave hl', hc⟩
  | mismatch hk => exact ⟨_, .mismatch hk, hs, hq⟩
  | itemRead hx => exact ⟨_, .itemRead ((hs.item_eq _ _).trans hx), hs, hq⟩
  | itemWrite hd hy hw =>
    obtain ⟨s₁, hw', hs'⟩ := (hs.setItem _ _ _).of_error hw
    exact ⟨_, .itemWrite hd hy hw', hs', hq⟩
  | stmtRead hx => exact ⟨_, .stmtRead ((hs.item_eq _ _).trans hx), hs, hq⟩
  | refused ht =>
    obtain ⟨s₁, ht', hs'⟩ := ht.alike hs
    exact ⟨_, .refused ht', hs', hq⟩
  | settle hc =>
    obtain ⟨s₁, hc', hs'⟩ := (hs.settle _ _).of_error hc
    exact ⟨_, .settle hc', hs', hq⟩

end Lockstep

/-- If no node is descended into twice, then none is while it is open. -/
private theorem Transformer.Reaches.fresh {t : Transformer σ} {depth : Nat} {root : Node}
    {store : Store} {state : σ} {log : List Deed} {cfg : Config σ}
    (h : t.Reaches depth root store state log cfg)
    (hn : (t.run depth root store state).descended.Nodup) : cfg.Fresh := by
  obtain ⟨log', cfg', hend⟩ := t.exists_endsIn depth root store state
  obtain ⟨w, rfl⟩ := hend.exists_append h
  rw [hend.descended_eq, descents_append] at hn
  have haccount := Steps.accounted h (Config.accounted_visit root ⟨store, state⟩)
  have hlog := (Multiset.nodup_add.mp hn).1
  rw [haccount.nodes] at hlog
  exact (Multiset.nodup_add.mp (Multiset.nodup_add.mp hlog).1).2.2

/-- **Edits of open nodes do not show.** Let two transformers be alike wherever the first is asked
in its run, and let no node be descended into while it is open. Then the two runs have the same
trace and the same result, and their stores differ at most in the payloads of nodes that are open at
the end; a run that returns has none. -/
theorem Transformer.open_edits {R : Transformer σ} {R' : Transformer τ} {Q : σ → τ → Prop}
    {depth : Nat} {root : Node} {store : Store} {state : σ} {state' : τ} (hq : Q state state')
    (ha : ∀ log cfg, R.Reaches depth root store state log cfg → cfg.Alike R R' Q)
    (hf : ∀ log cfg, R.Reaches depth root store state log cfg → cfg.Fresh) :
    let out := R.run depth root store state
    let out' := R'.run depth root store state'
    out'.trace = out.trace ∧ out'.result = out.result ∧ Q out.state out'.state ∧
      (∀ r, out.result = .ok r → out'.store = out.store) ∧
      ∃ log cfg, R.EndsIn depth root store state log cfg ∧
        out.store.AgreeOff cfg.opens out'.store := by
  intro out out'
  obtain ⟨log, cfg, hend⟩ := R.exists_endsIn depth root store state
  obtain ⟨es, hc, htrace⟩ := hend.concludes
  have hstart : Config.Lockstep Q (⟨.visit root, [], ⟨store, state⟩⟩ : Config σ)
      ⟨.visit root, [], ⟨store, state'⟩⟩ := ⟨rfl, rfl, .refl 0 store, hq⟩
  obtain ⟨log', cfg', hreach, hevents, hl⟩ := Steps.lockstep hend.reaches hstart ha hf
  obtain ⟨c', hc', hs, hq'⟩ := hc.lockstep hl (ha _ _ hend.reaches) (hf _ _ hend.reaches)
  have hrun : out' = _ := Reaches.run_eq hreach hc'
  rw [hrun]
  refine ⟨?_, rfl, hq', fun r hr => ?_, log, cfg, hend, hs⟩
  · rw [htrace, hevents]
  · -- a run that returns has an empty stack, so no node is open
    have hzero : cfg.opens = 0 := by
      rw [show (R.run depth root store state).result = .ok r from hr] at hc
      cases hc
      rfl
    rw [hzero] at hs
    exact hs.eq_of_zero

/-! ### Blots -/

/-- Goes on below every node, and remembers the nodes that are not done. -/
def keeper : Transformer (List Node) where
  replace := fun n ⟨s, ns⟩ => .ok (n, true) ⟨s, n :: ns⟩
  leave := fun ⟨s, ns⟩ => .ok () ⟨s, ns.tail⟩

/-- Writes over a statement. -/
def Node.blot : Node → Store → Store
  | ⟨.stored .stmt, id⟩, s => s.put id .bad
  | _, s => s

/-- Does as `keeper` does, and whenever it is asked it writes over all statements that are open. -/
def blotter : Transformer (List Node) where
  replace := fun n ⟨s, ns⟩ => .ok (n, true) ⟨ns.foldr Node.blot s, n :: ns⟩
  leave := fun ⟨s, ns⟩ => .ok () ⟨ns.tail.foldr Node.blot s, ns.tail⟩

def Owner.node? : Owner → Option Node
  | node a _ => some a
  | item .. => none

/-- The nodes that are open, the innermost first. -/
def Config.openNodes (cfg : Config σ) : List Node :=
  cfg.owners.filterMap Owner.node?

/-- `keeper` remembers the open nodes, and the node that is opened next or was closed last. -/
def Config.Kept (cfg : Config (List Node)) : Prop :=
  match cfg.focus with
  | .answered a b => b = true ∧ cfg.context.state = a :: cfg.openNodes
  | .leave _ => cfg.context.state.tail = cfg.openNodes
  | _ => cfg.context.state = cfg.openNodes

theorem Config.Kept.step {D : Nat} {cfg cfg' : Config (List Node)} {u : List Deed}
    (hi : cfg.Kept) (h : Step keeper D cfg u cfg') : cfg'.Kept := by
  cases h with
  | call hr =>
    cases hr
    exact ⟨rfl, congrArg _ hi⟩
  | stay => exact absurd hi.1 Bool.false_ne_true
  | down => exact hi.2
  | close => exact congrArg List.tail hi
  | leave hl =>
    cases hl
    exact hi
  | _ => exact hi

private theorem keeper_kept {depth : Nat} {root : Node} {store : Store} {log : List Deed}
    {cfg : Config (List Node)} (h : keeper.Reaches depth root store [] log cfg) : cfg.Kept := by
  have hstart : Config.Kept ⟨.visit root, [], ⟨store, []⟩⟩ := rfl
  revert hstart
  induction h with
  | refl => exact id
  | tail _ hs ih => exact fun hstart => (ih hstart).step hs

private theorem Store.AgreeOff.blot {s s' : Store} {E : Multiset Address} (h : s.AgreeOff E s')
    {n : Node} (hn : ∀ a ∈ n.footprint, a ∈ E) : s.AgreeOff E (n.blot s') := by
  unfold Node.blot
  split
  · exact h.put_right (hn _ (Multiset.mem_singleton_self _)) _
  · exact h

private theorem Store.AgreeOff.blots {s s' : Store} {E : Multiset Address} (h : s.AgreeOff E s')
    {ns : List Node} (hn : ∀ n ∈ ns, ∀ a ∈ n.footprint, a ∈ E) :
    s.AgreeOff E (ns.foldr Node.blot s') := by
  induction ns with
  | nil => exact h
  | cons n ns ih =>
    obtain ⟨hn, hns⟩ := List.forall_mem_cons.mp hn
    exact (ih hns).blot hn

private theorem Config.mem_opens_of_openNodes {cfg : Config σ} :
    ∀ n ∈ cfg.openNodes, ∀ a ∈ n.footprint, a ∈ cfg.opens := by
  intro n hn a ha
  obtain ⟨w, hw, heq⟩ := List.mem_filterMap.mp hn
  refine mem_opens_iff.mpr ⟨w, hw, ?_⟩
  cases w with
  | node => cases heq; exact ha
  | item => cases heq

/-- `blotter` writes over open nodes only. -/
private theorem keeper_alike_blotter {cfg : Config (List Node)} (h : cfg.Kept) :
    cfg.Alike keeper blotter Eq := by
  obtain ⟨f, st, c⟩ := cfg
  cases f with
  | visit n =>
    rintro ⟨s', ns⟩ ⟨hs, rfl⟩
    refine ⟨rfl, hs.blots ?_, rfl⟩
    rw [show c.state = _ from h]
    exact Config.mem_opens_of_openNodes
  | leave r =>
    rintro ⟨s', ns⟩ ⟨hs, rfl⟩
    refine ⟨rfl, hs.blots ?_, rfl⟩
    rw [show c.state.tail = _ from h]
    exact Config.mem_opens_of_openNodes
  | _ => trivial

/-- A block with a block of one statement in it and a statement that is not there. -/
def ledge : Store where
  tables := { stmts := .ofNodes #[.block ⟨0, 2⟩, .block ⟨2, 1⟩, .bad] }
  buffers := { stmts := #[⟨1⟩, ⟨9⟩, ⟨2⟩] }

/-- The run on the inner block returns, and nothing of the blots is left. The run on the outer block
is aborted while it is open: the inner block is as it was, but the outer one is blotted. -/
theorem open_edits_ledge :
    let kept := fun i : UInt32 => keeper.run 9 (.stored (⟨i⟩ : Id .stmt)) ledge []
    let blotted := fun i : UInt32 => blotter.run 9 (.stored (⟨i⟩ : Id .stmt)) ledge []
    ((kept 1).result = .ok (.stored (⟨1⟩ : Id .stmt)) ∧ (blotted 1).trace = (kept 1).trace ∧
        (blotted 1).result = (kept 1).result ∧ (blotted 1).store = (kept 1).store) ∧
      (kept 0).result = .error (.violation (.danglingNode "statement" 9)) ∧
        (blotted 0).trace = (kept 0).trace ∧ (blotted 0).result = (kept 0).result ∧
        (kept 0).store = ledge ∧
        ((blotted 0).store.table .stmt).nodes = #[.bad, .block ⟨2, 1⟩, .bad] ∧
        ∃ log cfg, keeper.EndsIn 9 (.stored (⟨0⟩ : Id .stmt)) ledge [] log cfg ∧
          (kept 0).store.AgreeOff cfg.opens (blotted 0).store := by
  intro kept blotted
  have halike : ∀ i log cfg, keeper.Reaches 9 (.stored (⟨i⟩ : Id .stmt)) ledge [] log cfg →
      cfg.Alike keeper blotter Eq := fun i log cfg h => keeper_alike_blotter (keeper_kept h)
  have hnodup : (kept 0).descended.Nodup ∧ (kept 1).descended.Nodup := by decide
  have hempty : ([] : List Node) = [] := rfl
  obtain ⟨htrace, hresult, -, hstore, -⟩ :=
    Transformer.open_edits hempty (halike 1) fun log cfg h => h.fresh hnodup.2
  obtain ⟨htrace', hresult', -, -, hagree⟩ :=
    Transformer.open_edits hempty (halike 0) fun log cfg h => h.fresh hnodup.1
  have hr : (kept 1).result = .ok (.stored (⟨1⟩ : Id .stmt)) := by decide
  exact ⟨⟨hr, htrace, hresult, hstore _ hr⟩, by decide, htrace', hresult', by decide, by decide,
    hagree⟩

end GoTree
