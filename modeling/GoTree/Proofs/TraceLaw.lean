import GoTree.Proofs.Adequacy
import Mathlib.Logic.ExistsUnique

/-!
# The trace of a traversal

What a transformer sees of a traversal is a word of calls, answers and hooks. With `V(n)` for the
words of a visit of `n`, a completed traversal is a word of the grammar

* `V(n) = call n, answer a false`,
* `V(n) = call n, answer a true, V(c₁), …, V(cₖ), leave`,

where `c₁, …, cₖ` are the children of the answer `a`. Which nodes these are is settled while the
traversal runs, by the rules of `GoTree.Proofs.History`; `IsWord` and `Forest` are the shape that is
left of the rules when only the events are kept. `Transformer.trace_law` puts both together for all
transformers.

In a word each answer `true` is matched by one hook and each hook by one answer `true`
(`Balanced`). This is the theory of bracket words: a forest never falls below the **height** at
which it starts.
-/

namespace GoTree

/-! ### The grammar -/

/-- The events in which the transformer takes part. -/
def Event.isCallback : Event → Bool
  | call _ => true
  | answer _ _ => true
  | leave => true
  | _ => false

/-- The calls, answers and hooks of a trace. -/
def callbacks (trace : Array Event) : List Event :=
  trace.toList.filter Event.isCallback

/-- A sequence of words `V(c₁), …, V(cₖ)`. -/
inductive Forest : List Event → Prop where
  | nil : Forest []
  | stay (n a : Node) {w : List Event} (h : Forest w) : Forest (.call n :: .answer a false :: w)
  | down (n a : Node) {u w : List Event} (hu : Forest u) (hw : Forest w) :
      Forest (.call n :: .answer a true :: (u ++ .leave :: w))

/-- A word `V(n)`. -/
inductive IsWord (n : Node) : List Event → Prop where
  | stay (a : Node) : IsWord n [.call n, .answer a false]
  | down (a : Node) {u : List Event} (hu : Forest u) :
      IsWord n (.call n :: .answer a true :: (u ++ [.leave]))

/-- Hooks and answers `true` belong together one to one: what stands between the two is a
forest. -/
structure Balanced (w : List Event) : Prop where
  /-- An answer `true` has exactly one hook. -/
  closed : ∀ u a v, w = u ++ .answer a true :: v → ∃! m, Forest m ∧ m ++ [.leave] <+: v
  /-- A hook has exactly one answer `true`. -/
  opened : ∀ u v, w = u ++ .leave :: v → ∃! m, Forest m ∧ ∃ a, .answer a true :: m <:+ u

theorem Forest.append {u w : List Event} (hu : Forest u) (hw : Forest w) : Forest (u ++ w) := by
  induction hu with
  | nil => exact hw
  | stay n a h ih => exact .stay n a ih
  | down n a hu hv ihu ihv => simpa using Forest.down n a hu ihv

theorem IsWord.forest {n : Node} {w : List Event} (h : IsWord n w) : Forest w := by
  cases h with
  | stay a => exact .stay n a .nil
  | down a hu => exact .down n a hu .nil

/-! ### Heights -/

/-- How an event changes the number of answers that wait for their hook. -/
def Event.rise : Event → Int
  | answer _ true => 1
  | leave => -1
  | _ => 0

/-- How many answers wait for their hook at the end. -/
def height : List Event → Int
  | [] => 0
  | e :: w => e.rise + height w

@[simp]
theorem height_nil : height [] = 0 :=
  rfl

@[simp]
theorem height_cons (e : Event) (w : List Event) : height (e :: w) = e.rise + height w :=
  rfl

@[simp]
theorem height_append (u w : List Event) : height (u ++ w) = height u + height w := by
  induction u with
  | nil => simp
  | cons e u ih => rw [List.cons_append, height_cons, height_cons, ih, Int.add_assoc]

namespace Forest

variable {u v w m m' : List Event} {a : Node}

theorem height_eq (h : Forest w) : height w = 0 := by
  induction h with
  | nil => rfl
  | stay n a h ih => simp [ih, Event.rise]
  | down n a hu hw ihu ihw => simp [ihu, ihw, Event.rise]

/-- A forest never falls below the height at which it starts. -/
theorem height_nonneg_of_append (h : Forest w) (hw : w = u ++ v) : 0 ≤ height u := by
  induction h generalizing u v with
  | nil =>
    obtain ⟨rfl, -⟩ := List.append_eq_nil_iff.mp hw.symm
    simp
  | stay n a h ih =>
    match u, hw with
    | [], _ => simp
    | [_], hw =>
      cases hw
      simp [Event.rise]
    | _ :: _ :: u, hw =>
      cases hw
      simpa [Event.rise] using ih rfl
  | down n a hx hy ihx ihy =>
    match u, hw with
    | [], _ => simp
    | [_], hw =>
      cases hw
      simp [Event.rise]
    | _ :: _ :: u, hw =>
      simp only [List.cons_append, List.cons.injEq] at hw
      obtain ⟨rfl, rfl, hw⟩ := hw
      -- the word ends inside the children of this node or after them
      rcases List.append_eq_append_iff.mp hw with ⟨z, rfl, hz⟩ | ⟨z, rfl, hz⟩
      · have hx0 := hx.height_eq
        match z, hz with
        | [], _ => simp [Event.rise, hx0]
        | _ :: z, hz =>
          cases hz
          have := ihy rfl
          simp [Event.rise, hx0]
          omega
      · have := ihx rfl
        simp [Event.rise]
        omega

private theorem height_nonpos_of_suffix (h : Forest w) (hv : v <:+ w) : height v ≤ 0 := by
  obtain ⟨u, rfl⟩ := hv
  have h₁ := h.height_eq
  have h₂ := h.height_nonneg_of_append rfl
  rw [height_append] at h₁
  omega

/-! ### Matching -/

/-- An answer `true` in a forest is followed by a forest and its hook. -/
private theorem exists_close (h : Forest w) (hw : w = u ++ .answer a true :: v) :
    ∃ m, Forest m ∧ m ++ [.leave] <+: v := by
  induction h generalizing u v with
  | nil => simp at hw
  | stay n b h ih =>
    match u, hw with
    | _ :: _ :: u, hw =>
      cases hw
      exact ih rfl
  | @down n b x y hx hy ihx ihy =>
    match u, hw with
    | [_], hw =>
      cases hw
      exact ⟨x, hx, y, by simp⟩
    | _ :: _ :: u, hw =>
      simp only [List.cons_append, List.cons.injEq] at hw
      obtain ⟨-, -, hw⟩ := hw
      -- the answer is not that of `n`: it stands after the hook of `n`, or among its children
      rcases List.append_eq_append_iff.mp hw with ⟨z, rfl, hz⟩ | ⟨z, rfl, hz⟩
      · match z, hz with
        | _ :: z, hz =>
          cases hz
          exact ihy rfl
      · match z, hz with
        | _ :: z, hz =>
          cases hz
          obtain ⟨m, hm, hp⟩ := ihx rfl
          exact ⟨m, hm, hp.trans (List.prefix_append _ _)⟩

/-- A hook in a forest stands after an answer `true` and a forest. -/
private theorem exists_open (h : Forest w) (hw : w = u ++ .leave :: v) :
    ∃ m, Forest m ∧ ∃ a, .answer a true :: m <:+ u := by
  induction h generalizing u v with
  | nil => simp at hw
  | stay n b h ih =>
    match u, hw with
    | _ :: _ :: u, hw =>
      cases hw
      obtain ⟨m, hm, a, ha⟩ := ih rfl
      exact ⟨m, hm, a, ha.trans (List.suffix_append [_, _] u)⟩
  | @down n b x y hx hy ihx ihy =>
    match u, hw with
    | _ :: _ :: u, hw =>
      simp only [List.cons_append, List.cons.injEq] at hw
      obtain ⟨rfl, rfl, hw⟩ := hw
      -- the hook is that of `n` (both splits meet there), stands after it, or among the children
      rcases List.append_eq_append_iff.mp hw with ⟨z, rfl, hz⟩ | ⟨z, rfl, hz⟩
      · match z, hz with
        | [], _ => exact ⟨x, hx, b, by simp⟩
        | _ :: z, hz =>
          cases hz
          obtain ⟨m, hm, a, ha⟩ := ihy rfl
          refine ⟨m, hm, a, ha.trans ?_⟩
          exact ⟨.call n :: .answer b true :: (x ++ [.leave]), by simp⟩
      · match z, hz with
        | [], _ => exact ⟨u, by simpa using hx, b, by simp⟩
        | _ :: z, hz =>
          cases hz
          obtain ⟨m, hm, a, ha⟩ := ihx rfl
          exact ⟨m, hm, a, ha.trans (List.suffix_append [_, _] u)⟩

/-- The hook of an answer is the first at which the height falls below that of the answer. -/
private theorem eq_of_close (hm : Forest m) (hm' : Forest m') (h : m ++ [.leave] <+: v)
    (h' : m' ++ [.leave] <+: v) : m = m' := by
  -- a shorter match would end below the height at which the longer forest starts
  have key : ∀ {x y : List Event}, Forest x → Forest y → x ++ [.leave] <+: y ++ [.leave] →
      x = y := by
    intro x y hx hy hxy
    rcases List.prefix_concat_iff.mp hxy with heq | ⟨z, rfl⟩
    · exact List.append_cancel_right heq
    · have h₁ := hy.height_nonneg_of_append rfl
      have h₂ := hx.height_eq
      simp [Event.rise, h₂] at h₁
  rcases Nat.le_total (m ++ [Event.leave]).length (m' ++ [Event.leave]).length with hl | hl
  · exact key hm hm' (List.prefix_of_prefix_length_le h h' hl)
  · exact (key hm' hm (List.prefix_of_prefix_length_le h' h hl)).symm

/-- The answer of a hook is the last at which the height rises above that of the hook. -/
private theorem eq_of_open {a' : Node} (hm : Forest m) (hm' : Forest m')
    (h : .answer a true :: m <:+ u) (h' : .answer a' true :: m' <:+ u) : m = m' := by
  have key : ∀ {x y : List Event} {a b : Node}, Forest x → Forest y →
      .answer a true :: x <:+ .answer b true :: y → x = y := by
    intro x y a b hx hy hxy
    rcases List.suffix_cons_iff.mp hxy with heq | hs
    · cases heq
      rfl
    · have h₁ := hy.height_nonpos_of_suffix hs
      have h₂ := hx.height_eq
      simp [Event.rise, h₂] at h₁
  rcases Nat.le_total (Event.answer a true :: m).length (Event.answer a' true :: m').length with
    hl | hl
  · exact key hm hm' (List.suffix_of_suffix_length_le h h' hl)
  · exact (key hm' hm (List.suffix_of_suffix_length_le h' h hl)).symm

theorem balanced (h : Forest w) : Balanced w where
  closed u a v hw := by
    obtain ⟨m, hm, hp⟩ := h.exists_close hw
    exact ⟨m, ⟨hm, hp⟩, fun m' hm' => eq_of_close hm'.1 hm hm'.2 hp⟩
  opened u v hw := by
    obtain ⟨m, hm, a, hp⟩ := h.exists_open hw
    refine ⟨m, ⟨hm, a, hp⟩, ?_⟩
    rintro m' ⟨hm', a', hp'⟩
    exact eq_of_open hm' hm hp' hp

end Forest

/-! ### The word of a history -/

/-- The calls, answers and hooks of a history. -/
def spell (w : List Mark) : List Event :=
  callbacks (traceOf w)

@[simp]
theorem spell_nil : spell [] = [] :=
  rfl

theorem spell_cons (m : Mark) (w : List Mark) :
    spell (m :: w) = m.events.filter Event.isCallback ++ spell w := by
  simp [spell, callbacks, traceOf]

@[simp]
theorem spell_splice (l : String) (i n : Nat) (w : List Mark) :
    spell (.splice l i n :: w) = spell w :=
  spell_cons _ w

@[simp]
theorem spell_append (u w : List Mark) : spell (u ++ w) = spell u ++ spell w := by
  simp [spell, callbacks]

@[simp]
theorem spell_call (o : Origin) (n a : Node) (b : Bool) (w : List Mark) :
    spell (.call o n a b :: w) = .call n :: .answer a b :: spell w :=
  spell_cons _ w

@[simp]
theorem spell_halt (o : Origin) (n : Node) (w : List Mark) :
    spell (.halt o n :: w) = .call n :: spell w :=
  spell_cons _ w

@[simp]
theorem spell_leave (w : List Mark) : spell (.leave :: w) = .leave :: spell w :=
  spell_cons _ w

@[simp]
theorem spell_finish (o : Origin) (n r : Node) (w : List Mark) :
    spell (.finish o n r :: w) = spell w :=
  spell_cons _ w

@[simp]
theorem spell_violation (v : Violation) (w : List Mark) : spell (.violation v :: w) = spell w :=
  spell_cons _ w

theorem callbacks_start_append (k : Kind) (w : List Mark) :
    callbacks (#[.start k] ++ traceOf w) = spell w := by
  simp [spell, callbacks, Event.isCallback]

/-- The words of a task. -/
abbrev Task.Spells : Task → List Event → Prop
  | visit _ n, w => IsWord n w
  | _, w => Forest w

/-- The beginnings of words of a task. -/
def Task.Begins (k : Task) (w : List Event) : Prop :=
  ∃ rest, k.Spells (w ++ rest)

section Rules

variable {σ : Type} {t : Transformer σ} {d : Nat} {k : Task} {c c' : Context σ} {w : List Mark}
  {l : String} {seg : Segment .stmts} {i : Nat} {s s' : Store} {r : Node}
  {out out' : Option (Array (Id .stmt))} {e : Abort}

theorem Takes.spell_eq (h : Takes l seg i s out r w out' s') : spell w = [] := by
  cases h <;> simp

theorem Refuses.spell_eq (h : Refuses l seg i s out r w e s') : spell w = [] := by
  cases h <;> simp

/-- A task that is completed spells a word of its grammar. -/
theorem Completes.spells {r : k.Result} (h : Completes t d k c w r c') : k.Spells (spell w) := by
  induction h with
  | stay hr => simpa using IsWord.stay _
  | down hr hx hw hy hc hl ih =>
    simpa using IsWord.down _ ih
  | nil => exact .nil
  | node hv hk hw ihv ihw =>
    rw [spell_append]
    exact (IsWord.forest ihv).append ihw
  | list hp hs hi hw ihi ihw =>
    rw [spell_append]
    exact Forest.append ihi ihw
  | stmts hs hi hc hw ihi ihw =>
    rw [spell_append]
    exact Forest.append ihi ihw
  | itemsDone => exact .nil
  | itemsNext hx hv hy hs hw ihv ihw =>
    rw [spell_append]
    exact Forest.append ihv ihw
  | stmtsDone => exact .nil
  | stmtsNext hx hv ht hw ihv ihw =>
    rw [spell_append, spell_append, ht.spell_eq, List.append_nil]
    exact (IsWord.forest ihv).append ihw

private theorem IsWord.begins_forest {n : Node} {w : List Event}
    (h : ∃ rest, IsWord n (w ++ rest)) : ∃ rest, Forest (w ++ rest) := by
  obtain ⟨rest, h⟩ := h
  exact ⟨rest, h.forest⟩

/-- What comes before a beginning may be a whole forest. -/
private theorem Forest.begins_append {u w : List Event} (hu : Forest u)
    (hw : ∃ rest, Forest (w ++ rest)) : ∃ rest, Forest (u ++ w ++ rest) := by
  obtain ⟨rest, hw⟩ := hw
  rw [exists_congr fun rest => by rw [List.append_assoc]]
  exact ⟨rest, hu.append hw⟩

/-- A task that stops early spells the beginning of a word. -/
theorem Aborts.begins (h : Aborts t d k c w e c') : k.Begins (spell w) := by
  induction h with
  | @halt d o n e c c' hr =>
    refine ⟨[.answer n false], ?_⟩
    simpa using IsWord.stay n
  | danglingNode hr hx =>
    refine ⟨[.leave], ?_⟩
    simpa using IsWord.down _ .nil
  | inner hr hx hw ih =>
    obtain ⟨rest, ih⟩ := ih
    refine ⟨rest ++ [.leave], ?_⟩
    simpa using IsWord.down _ ih
  | close hr hx hw hy hc =>
    refine ⟨[.leave], ?_⟩
    simpa using IsWord.down _ hw.spells
  | leave hr hx hw hy hc hl =>
    refine ⟨[], ?_⟩
    simpa using IsWord.down _ hw.spells
  | deep => exact ⟨[], .nil⟩
  | node hv ih => exact IsWord.begins_forest ih
  | mismatch hv hk =>
    refine ⟨[], ?_⟩
    simpa using hv.spells.forest
  | danglingList hs =>
    refine ⟨[], ?_⟩
    simpa using Forest.nil
  | list hp hs hi ih => exact ih
  | stmts hs hi ih => exact ih
  | settle hs hi hc => exact ⟨[], by simpa using hi.spells⟩
  | rest hv hw ih =>
    rw [spell_append]
    exact Forest.begins_append hv.spells ih
  | itemRead hx => exact ⟨[], .nil⟩
  | item hx hv ih => exact ih
  | itemWrite hx hv hy hs => exact ⟨[], by simpa using hv.spells⟩
  | itemsRest hx hv hy hs hw ih =>
    rw [spell_append]
    exact Forest.begins_append hv.spells ih
  | stmtRead hx => exact ⟨[], .nil⟩
  | stmt hx hv ih => exact IsWord.begins_forest ih
  | refused hx hv ht =>
    rw [spell_append, ht.spell_eq]
    exact ⟨[], by simpa using hv.spells.forest⟩
  | stmtsRest hx hv ht hw ih =>
    rw [spell_append, spell_append, ht.spell_eq, List.append_nil]
    exact Forest.begins_append hv.spells.forest ih

end Rules

/-- **The trace law.** Every run of every transformer has a history by the rules, which say of each
call where its node was found: the parts of an answer are those of its body right after the answer,
and list items are read when their turn comes. The trace of a run that returns is a word `V(root)`,
in which each answer `true` is matched by exactly one later hook and each hook by one earlier
answer `true`, so that an answer `false` has none. The trace of an aborted run is the beginning of
such a word. -/
theorem Transformer.trace_law {σ : Type} (t : Transformer σ) (depth : Nat) (root : Node)
    (store : Store) (state : σ) :
    let out := t.run depth root store state
    ∃ w, t.IsHistory depth root store state w ∧
      match out.result with
      | .ok _ => IsWord root (callbacks out.trace) ∧ Balanced (callbacks out.trace)
      | .error _ => ∃ rest, IsWord root (callbacks out.trace ++ rest) := by
  intro out
  obtain ⟨w, hw⟩ := t.exists_history depth root store state
  refine ⟨w, hw, ?_⟩
  rw [hw.trace_eq, callbacks_start_append]
  rcases hres : out.result with e | r
  · exact (hw.aborts hres).begins
  · have hword : IsWord root (spell w) := (hw.completes hres).spells
    exact ⟨hword, hword.forest.balanced⟩

end GoTree
