import GoTree.Proofs.Machine

/-!
# Keeping account of a run

What a run has begun is under way or done. Two accounts say so, step by step. A stored node that was
descended into is **pending** (answered, and about to be opened), **open** (an owner), or **saved**
(written back), as often as it was descended into; and a statement list that was taken up is
**in progress** or **settled**. Each step of the machine moves an entry from one of these to the
next (`Step.descents_add`, `Step.taken_perm`).

The accounts are what makes "no node is descended into twice" and "no two statement lists overlap" a
statement about configurations: then an open node is open once and was not saved, and a list in
progress has no cell in common with another list.
-/

namespace GoTree

variable {σ : Type}

/-! ### Owners -/

/-- The address of an owner that is a stored node. -/
@[simp]
def Owner.footprint : Owner → Multiset Address
  | node a _ => a.footprint
  | item .. => 0

@[simp]
def Focus.owners : Focus → List Owner
  | parts w _ _ => [w]
  | _ => []

@[simp]
def Frame.owners : Frame → List Owner
  | slot w _ _ _ _ => [w]
  | list w _ _ _ _ _ => [w]
  | stmt .. => []

namespace Config

/-- What is to be rebuilt when its parts are done, the innermost first. -/
def owners (cfg : Config σ) : List Owner :=
  cfg.focus.owners ++ cfg.stack.flatMap Frame.owners

/-- The addresses of the nodes that are open. -/
def opens (cfg : Config σ) : Multiset Address :=
  (cfg.owners.map Owner.footprint).sum

/-- The address of a node that was answered and is to be opened. -/
def pending (cfg : Config σ) : Multiset Address :=
  match cfg.focus with
  | .answered a true => a.footprint
  | _ => 0

end Config

/-- The address of a node that is written back by a deed. -/
@[simp]
def Deed.saves : Deed → Multiset Address
  | save a _ _ _ => a.footprint
  | _ => 0

/-- The addresses of the nodes that were written back, with their multiplicities. -/
def saves (log : List Deed) : Multiset Address :=
  (log.map Deed.saves).sum

/-! ### Statement lists -/

/-- A statement list in progress. -/
structure Loop where
  seg : Segment .stmts
  /-- The items that are done. -/
  done : Nat
  /-- The items that are not done, with the one that is visited. -/
  left : Nat
  /-- What has been collected since the first splice. -/
  out : Option (Array (Id .stmt))
  /-- The results of the visits of the items that are done. -/
  results : List Node

@[simp]
def Focus.loops : Focus → List Loop
  | stmts _ seg n i out rs => [⟨seg, i, n, out, rs⟩]
  | _ => []

@[simp]
def Frame.loops : Frame → List Loop
  | stmt _ seg n i out rs => [⟨seg, i, n + 1, out, rs⟩]
  | _ => []

def Frame.lists : Frame → List (Segment .stmts)
  | list _ _ .stmts seg _ _ => [seg]
  | _ => []

namespace Config

/-- The statement lists whose items are being visited, the innermost first. -/
def loops (cfg : Config σ) : List Loop :=
  cfg.focus.loops ++ cfg.stack.flatMap Frame.loops

/-- The statement lists of slots that are not yet done, the innermost first. -/
def lists (cfg : Config σ) : List (Segment .stmts) :=
  cfg.stack.flatMap Frame.lists

end Config

def Deed.taken : Deed → List (Segment .stmts)
  | take .stmts seg => [seg]
  | _ => []

def Deed.settled : Deed → List (Segment .stmts)
  | fill _ _ (.list _ .stmts seg) _ _ _ => [seg]
  | _ => []

/-- The statement lists that were taken up. -/
def takenLists (log : List Deed) : List (Segment .stmts) :=
  log.flatMap Deed.taken

/-- The statement lists that were done. -/
def settledLists (log : List Deed) : List (Segment .stmts) :=
  log.flatMap Deed.settled

@[simp]
theorem saves_nil : saves [] = 0 :=
  rfl

@[simp]
theorem saves_singleton (d : Deed) : saves [d] = d.saves := by
  simp [saves]

@[simp]
theorem saves_append (u v : List Deed) : saves (u ++ v) = saves u + saves v := by
  simp [saves]

theorem takenLists_append (u v : List Deed) :
    takenLists (u ++ v) = takenLists u ++ takenLists v :=
  List.flatMap_append

private theorem settledLists_append (u v : List Deed) :
    settledLists (u ++ v) = settledLists u ++ settledLists v :=
  List.flatMap_append

theorem mem_saves_iff {log : List Deed} {a : Address} : a ∈ saves log ↔ ∃ d ∈ log, a ∈ d.saves := by
  induction log with
  | nil => simp [saves]
  | cons d log ih =>
    have hcons : saves (d :: log) = d.saves + saves log := rfl
    rw [hcons, Multiset.mem_add, ih]
    simp

/-- Every item that is done has a result, and every other is to be done. -/
def Loop.Counted (L : Loop) : Prop :=
  L.results.length = L.done ∧ L.done + L.left = L.seg.length

/-- A cell of a list that was taken up. -/
def Walked (log : List Deed) (p : Pool) (i : Nat) : Prop :=
  ∃ seg : Segment p, .take p seg ∈ log ∧ seg.start.toNat ≤ i ∧ i < seg.stop

theorem Walked.of_take {log : List Deed} {p : Pool} {seg : Segment p} {i : Nat}
    (h : .take p seg ∈ log) (hi : i < seg.length) : Walked log p (seg.start.toNat + i) :=
  ⟨seg, h, Nat.le_add_right _ _, Nat.add_lt_add_left hi _⟩

/-! ### Other lists -/

/-- An item belongs to a list that was taken up and is no statement list. -/
def Owner.Listed (log : List Deed) : Owner → Prop
  | item _ p seg _ _ _ => p ≠ .stmts ∧ .take p seg ∈ log
  | node _ _ => True

def Focus.Listed (log : List Deed) : Focus → Prop
  | items _ p seg _ _ => p ≠ .stmts ∧ .take p seg ∈ log
  | _ => True

/-- All items that are rebuilt, and all lists whose items are done one by one, belong to lists that
were taken up and are no statement lists. -/
structure Config.Listed (log : List Deed) (cfg : Config σ) : Prop where
  focus : cfg.focus.Listed log
  owners : ∀ w ∈ cfg.owners, w.Listed log

section Steps

variable {t : Transformer σ} {D : Nat} {cfg cfg' : Config σ} {log u : List Deed}

theorem Config.Listed.mono {log' : List Deed} (h : cfg.Listed log) (hl : ∀ d ∈ log, d ∈ log') :
    cfg.Listed log' := by
  refine ⟨?_, fun w hw => ?_⟩
  · have hf := h.focus
    revert hf
    cases cfg.focus with
    | items => exact fun hf => ⟨hf.1, hl _ hf.2⟩
    | _ => exact fun _ => trivial
  · have ho := h.owners w hw
    cases w with
    | item => exact ⟨ho.1, hl _ ho.2⟩
    | node => trivial

/-- A step keeps the owners, apart from the one that it opens or closes. -/
theorem Config.Listed.step (h : Step t D cfg u cfg') (hu : ∀ d ∈ u, d ∈ log)
    (hi : cfg.Listed log) : cfg'.Listed log := by
  obtain ⟨hfocus, howners⟩ := hi
  cases h with
  | list hd hp hs => exact ⟨⟨hp, hu _ (List.mem_singleton_self _)⟩, howners⟩
  | down => exact ⟨trivial, List.forall_mem_cons.mpr ⟨trivial, howners⟩⟩
  | item => exact ⟨trivial, List.forall_mem_cons.mpr ⟨hfocus, howners⟩⟩
  | close => exact ⟨trivial, fun w hw => howners w (List.mem_cons_of_mem _ hw)⟩
  | write =>
    obtain ⟨hw, howners⟩ := List.forall_mem_cons.mp howners
    exact ⟨hw, howners⟩
  | _ => exact ⟨trivial, howners⟩

/-- **The account of nodes.** A node that is descended into gets pending, then open, then saved. -/
theorem Step.descents_add (h : Step t D cfg u cfg') :
    descents u + (cfg.pending + cfg.opens) = cfg'.pending + cfg'.opens + saves u := by
  cases h with
  | @call n a b => cases b <;> simp [Config.pending, Config.opens, Config.owners]
  | take ht => cases ht <;> simp [Config.pending, Config.opens, Config.owners, Mark.deeds]
  | _ => simp [Config.pending, Config.opens, Config.owners, add_comm]

private theorem Deed.taken_of_ne {p : Pool} (hp : p ≠ .stmts) (seg : Segment p) :
    (Deed.take p seg).taken = [] := by
  cases p <;> first | rfl | exact absurd rfl hp

private theorem Deed.settled_of_ne {w : Owner} {k : Nat} {l : String} {p : Pool} {seg : Segment p}
    {q : SlotPart} {s s' : Store} (hp : p ≠ .stmts) :
    (Deed.fill w k (.list l p seg) q s s').settled = [] := by
  cases p <;> first | rfl | exact absurd rfl hp

private theorem Frame.lists_of_ne {w : Owner} {l : String} {p : Pool} {seg : Segment p}
    {ps qs : List SlotPart} (hp : p ≠ .stmts) : (Frame.list w l p seg ps qs).lists = [] := by
  cases p <;> first | rfl | exact absurd rfl hp

/-- **The account of statement lists.** A list that is taken up is in progress until it is
settled. -/
theorem Step.taken_perm (h : Step t D cfg u cfg') (hi : cfg.Listed log) :
    (takenLists u ++ cfg.loops.map Loop.seg).Perm (cfg'.loops.map Loop.seg ++ settledLists u) := by
  cases h with
  | list hd hp hs =>
    simp [takenLists, settledLists, Config.loops, Deed.taken_of_ne hp, Deed.settled]
  | itemsDone =>
    have hp := hi.focus.1
    simp [takenLists, settledLists, Config.loops, Deed.taken, Deed.settled_of_ne hp]
  | take ht =>
    cases ht <;>
      simp [takenLists, settledLists, Config.loops, Mark.deeds, Deed.taken, Deed.settled]
  | settle =>
    simp only [takenLists, settledLists, Config.loops, Deed.taken, Deed.settled, Focus.loops,
      Frame.loops, List.flatMap_cons, List.flatMap_nil, List.nil_append, List.append_nil,
      List.map_append]
    exact List.perm_append_comm
  | _ => simp [takenLists, settledLists, Config.loops, Deed.taken, Deed.settled]

/-- The items that are visited are those of the lists that are not done. -/
theorem Step.loops_eq (h : Step t D cfg u cfg') (hi : cfg.Listed log)
    (heq : cfg.loops.map Loop.seg = cfg.lists) :
    cfg'.loops.map Loop.seg = cfg'.lists := by
  simp only [Config.loops, Config.lists] at heq ⊢
  cases h with
  | list hd hp hs => simpa [Frame.lists_of_ne hp] using heq
  | itemsDone =>
    have hp := hi.focus.1
    simpa [Frame.lists_of_ne hp] using heq
  | _ => simpa [Frame.lists] using heq

theorem Step.counted (h : Step t D cfg u cfg') (hi : ∀ L ∈ cfg.loops, L.Counted) :
    ∀ L ∈ cfg'.loops, L.Counted := by
  cases h with
  | stmts => exact List.forall_mem_cons.mpr ⟨⟨rfl, Nat.zero_add _⟩, hi⟩
  | take =>
    obtain ⟨⟨hr, hl⟩, hi⟩ := List.forall_mem_cons.mp hi
    refine List.forall_mem_cons.mpr ⟨⟨?_, ?_⟩, hi⟩
    · simpa using hr
    · simp only at hl ⊢
      omega
  | settle => exact (List.forall_mem_cons.mp hi).2
  | _ => exact hi

/-! ### Parts -/

/-- Part `k` of an owner was replaced. -/
def Fills (log : List Deed) (w : Owner) (k : Nat) (p q : SlotPart) : Prop :=
  ∃ s s', .fill w k p q s s' ∈ log

/-- The parts `ps` of an owner, which are its first, were replaced by `qs`, each by the one in its
place. -/
structure Owner.Replaced (log : List Deed) (w : Owner) (ps qs : List SlotPart) : Prop where
  length : ps.length = qs.length
  fills : ∀ {k : Nat} {p q : SlotPart}, ps[k]? = some p → qs[k]? = some q → Fills log w k p q

/-- The parts of an owner before `ps` are done, and were replaced by `qs`. -/
def Owner.FilledUpTo (log : List Deed) (w : Owner) (ps qs : List SlotPart) : Prop :=
  ∃ rs, w.parts = rs ++ ps ∧ w.Replaced log rs qs

def Focus.Filled (log : List Deed) : Focus → Prop
  | parts w ps qs => w.FilledUpTo log ps qs
  | _ => True

def Frame.Filled (log : List Deed) : Frame → Prop
  | slot w l n ps qs => w.FilledUpTo log (.node l n :: ps) qs
  | list w l p seg ps qs => w.FilledUpTo log (.list l p seg :: ps) qs
  | stmt .. => True

/-- What an owner is rebuilt from is what its parts were replaced by. -/
structure Config.Filled (log : List Deed) (cfg : Config σ) : Prop where
  focus : cfg.focus.Filled log
  stack : ∀ f ∈ cfg.stack, f.Filled log
  saved : ∀ {a : Node} {x y : a.kind.Body} {qs : List SlotPart}, .save a x qs y ∈ log →
    (a.kind.bodySlots x).Refills qs y ∧
      (Owner.node a x).Replaced log (a.kind.bodySlots x).parts qs

/-- A step that saves a node closes it. -/
theorem Step.of_save {a : Node} {x y : a.kind.Body} {qs : List SlotPart}
    (h : Step t D cfg u cfg') (hs : .save a x qs y ∈ u) :
    cfg.focus = .parts (.node a x) [] qs ∧ (a.kind.bodySlots x).Refills qs y ∧
      ∃ r, a.close y cfg.context.store = .ok r cfg'.context.store := by
  cases h with
  | close hd hy hc =>
    cases List.mem_singleton.mp hs
    exact ⟨rfl, hy, _, hc⟩
  | take ht => cases ht <;> simp [Mark.deeds] at hs
  | _ => simp at hs

section Growth

variable {log' : List Deed} (hl : ∀ d ∈ log, d ∈ log')
include hl

theorem Owner.Replaced.mono {w : Owner} {ps qs : List SlotPart} (h : w.Replaced log ps qs) :
    w.Replaced log' ps qs := by
  refine ⟨h.length, fun hp hq => ?_⟩
  obtain ⟨s, s', hf⟩ := h.fills hp hq
  exact ⟨s, s', hl _ hf⟩

theorem Owner.FilledUpTo.mono {w : Owner} {ps qs : List SlotPart} (h : w.FilledUpTo log ps qs) :
    w.FilledUpTo log' ps qs := by
  obtain ⟨rs, heq, hrs⟩ := h
  exact ⟨rs, heq, hrs.mono hl⟩

theorem Focus.Filled.mono {f : Focus} (h : f.Filled log) : f.Filled log' := by
  cases f with
  | parts => exact Owner.FilledUpTo.mono hl h
  | _ => trivial

theorem Frame.Filled.mono {f : Frame} (h : f.Filled log) : f.Filled log' := by
  cases f with
  | slot | list => exact Owner.FilledUpTo.mono hl h
  | stmt => trivial

end Growth

/-- Nothing of an owner that was just opened is done. -/
private theorem Owner.filledUpTo_nil (log : List Deed) (w : Owner) : w.FilledUpTo log w.parts [] :=
  ⟨[], rfl, rfl, fun hp => absurd hp (by simp)⟩

/-- The next part of an owner is replaced. -/
private theorem Owner.FilledUpTo.snoc {w : Owner} {p q : SlotPart} {ps qs : List SlotPart}
    (h : w.FilledUpTo log (p :: ps) qs) (hf : Fills log w qs.length p q) :
    w.FilledUpTo log ps (qs ++ [q]) := by
  obtain ⟨rs, heq, hlen, hrs⟩ := h
  refine ⟨rs ++ [p], ?_, by simp [hlen], fun {k p' q'} hp hq => ?_⟩
  · rw [heq, List.append_assoc]
    rfl
  · rcases Nat.lt_trichotomy k qs.length with hk | rfl | hk
    · rw [List.getElem?_append_left (by omega)] at hp hq
      exact hrs hp hq
    · rw [List.getElem?_concat_length] at hq
      rw [← hlen, List.getElem?_concat_length] at hp
      cases hp
      cases hq
      exact hf
    · rw [List.getElem?_eq_none (by simp; omega)] at hq
      cases hq

theorem Config.Filled.step (hi : cfg.Filled log) (h : Step t D cfg u cfg') :
    cfg'.Filled (log ++ u) := by
  have hl : ∀ d ∈ log, d ∈ log ++ u := fun d hd => List.mem_append_left u hd
  have hfocus := hi.focus.mono hl
  have hstack : ∀ f ∈ cfg.stack, f.Filled (log ++ u) := fun f hf => (hi.stack f hf).mono hl
  have hfill : ∀ {w : Owner} {k : Nat} {p q : SlotPart} {s s' : Store}, .fill w k p q s s' ∈ u →
      Fills (log ++ u) w k p q := fun hd => ⟨_, _, List.mem_append_right log hd⟩
  have hsaved : ∀ {a : Node} {x y : a.kind.Body} {qs : List SlotPart}, .save a x qs y ∈ log ++ u →
      (a.kind.bodySlots x).Refills qs y ∧
        (Owner.node a x).Replaced (log ++ u) (a.kind.bodySlots x).parts qs := by
    intro a x y qs hd
    rcases List.mem_append.mp hd with hd | hd
    · obtain ⟨hy, hq⟩ := hi.saved hd
      exact ⟨hy, hq.mono hl⟩
    · -- the node is closed by this step, so none of its parts is left
      obtain ⟨hf, hy, -⟩ := h.of_save hd
      rw [hf] at hfocus
      obtain ⟨rs, heq, hrs⟩ := hfocus
      rw [List.append_nil] at heq
      refine ⟨hy, ?_⟩
      rwa [← heq] at hrs
  cases h with
  | call | stay | close | leave | write => exact ⟨trivial, hstack, hsaved⟩
  | down | item => exact ⟨Owner.filledUpTo_nil _ _, hstack, hsaved⟩
  | slot | list | stmts => exact ⟨trivial, List.forall_mem_cons.mpr ⟨hfocus, hstack⟩, hsaved⟩
  | stmt => exact ⟨trivial, List.forall_mem_cons.mpr ⟨trivial, hstack⟩, hsaved⟩
  | fill | itemsDone | settle =>
    obtain ⟨hframe, hstack⟩ := List.forall_mem_cons.mp hstack
    exact ⟨Owner.FilledUpTo.snoc hframe (hfill (List.mem_singleton_self _)), hstack, hsaved⟩
  | take => exact ⟨trivial, (List.forall_mem_cons.mp hstack).2, hsaved⟩

/-! ### Runs -/

/-- What is true of every configuration of a run. -/
structure Config.Accounted (log : List Deed) (cfg : Config σ) : Prop where
  listed : cfg.Listed log
  nodes : descents log = cfg.pending + cfg.opens + saves log
  taken : (takenLists log).Perm (cfg.loops.map Loop.seg ++ settledLists log)
  loops : cfg.loops.map Loop.seg = cfg.lists
  counted : ∀ L ∈ cfg.loops, L.Counted
  filled : cfg.Filled log

open scoped List in
theorem Config.Accounted.step (hi : cfg.Accounted log) (h : Step t D cfg u cfg') :
    cfg'.Accounted (log ++ u) where
  listed := (hi.listed.mono fun d hd => List.mem_append_left u hd).step h
    fun d hd => List.mem_append_right log hd
  nodes := by
    have hstep := h.descents_add
    rw [descents_append, saves_append, hi.nodes]
    calc cfg.pending + cfg.opens + saves log + descents u
        = descents u + (cfg.pending + cfg.opens) + saves log := by abel
      _ = cfg'.pending + cfg'.opens + saves u + saves log := by rw [hstep]
      _ = cfg'.pending + cfg'.opens + (saves log + saves u) := by abel
  taken := by
    have hstep := h.taken_perm hi.listed
    rw [takenLists_append, settledLists_append]
    calc takenLists log ++ takenLists u
        ~ cfg.loops.map Loop.seg ++ settledLists log ++ takenLists u := hi.taken.append_right _
      _ ~ takenLists u ++ cfg.loops.map Loop.seg ++ settledLists log := by
        rw [List.append_assoc (takenLists u)]
        exact List.perm_append_comm
      _ ~ cfg'.loops.map Loop.seg ++ settledLists u ++ settledLists log := hstep.append_right _
      _ ~ cfg'.loops.map Loop.seg ++ (settledLists log ++ settledLists u) := by
        rw [List.append_assoc]
        exact List.perm_append_comm.append_left _
  loops := h.loops_eq hi.listed hi.loops
  counted := h.counted hi.counted
  filled := hi.filled.step h

/-- Every configuration of a run is accounted for. -/
theorem Steps.accounted (h : Steps t D cfg u cfg') (hi : cfg.Accounted []) :
    cfg'.Accounted u := by
  induction h with
  | refl => exact hi
  | tail _ hs ih => exact ih.step hs

/-- Nothing is under way when a run starts. -/
theorem Config.accounted_visit (n : Node) (c : Context σ) :
    (⟨.visit n, [], c⟩ : Config σ).Accounted [] where
  listed := ⟨trivial, fun _ hw => absurd hw List.not_mem_nil⟩
  nodes := rfl
  taken := .nil
  loops := rfl
  counted := fun _ hL => absurd hL List.not_mem_nil
  filled := ⟨trivial, fun _ hf => absurd hf List.not_mem_nil, fun hd => absurd hd List.not_mem_nil⟩

end Steps

section Consequences

variable {cfg : Config σ} {log : List Deed}

theorem Config.mem_opens_iff {a : Address} : a ∈ cfg.opens ↔ ∃ w ∈ cfg.owners, a ∈ w.footprint := by
  rw [opens]
  induction cfg.owners with
  | nil => simp
  | cons w ws ih => simp [ih]

/-- An open node was descended into. -/
theorem Config.Accounted.mem_descents (h : cfg.Accounted log) {a : Address} (ha : a ∈ cfg.opens) :
    a ∈ descents log := by
  rw [h.nodes]
  exact Multiset.mem_add.mpr (.inl (Multiset.mem_add.mpr (.inr ha)))

/-- A statement list in progress was taken up. -/
theorem Config.Accounted.take_mem (h : cfg.Accounted log) {L : Loop} (hL : L ∈ cfg.loops) :
    .take .stmts L.seg ∈ log := by
  have hmem : L.seg ∈ takenLists log :=
    h.taken.mem_iff.mpr (List.mem_append_left _ (List.mem_map_of_mem hL))
  obtain ⟨d, hd, hseg⟩ := List.mem_flatMap.mp hmem
  unfold Deed.taken at hseg
  split at hseg
  · obtain rfl := List.mem_singleton.mp hseg
    exact hd
  · cases hseg

end Consequences

end GoTree
