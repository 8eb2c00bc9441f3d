import GoTree.Proofs.Machine

/-!
# The machine is deterministic

A configuration of the machine has at most one next configuration, and a configuration that ends the
run has none (`Step.unique`, `Concludes.not_step`, `Concludes.unique`). So of two runs from one
configuration one is the beginning of the other, and to know the outcome of a run it is enough to
follow the machine to some end (`Transformer.Reaches.run_eq`).
-/

namespace GoTree

variable {σ : Type}

section Answers

variable {l : String} {seg : Segment .stmts} {i : Nat} {s s' s'' : Store} {r : Node}
  {out out' out'' : Option (Array (Id .stmt))} {v w : List Mark} {e e' : Abort}

private theorem Collected.unique {old old' : Array (Id .stmt)} (h : Collected seg i s out old)
    (h' : Collected seg i s out old') : old = old' := by
  cases h with
  | aside =>
    cases h'
    rfl
  | inPlace hx =>
    cases h' with
    | inPlace hx' =>
      cases hx.symm.trans hx'
      rfl

private theorem Takes.unique (h : Takes l seg i s out r v out' s')
    (h' : Takes l seg i s out r w out'' s'') : v = w ∧ out' = out'' ∧ s' = s'' := by
  cases h with
  | write hs =>
    cases h' with
    | write hs' =>
      cases hs.symm.trans hs'
      exact ⟨rfl, rfl, rfl⟩
  | push =>
    cases h'
    exact ⟨rfl, rfl, rfl⟩
  | splice hb hn ho =>
    cases h' with
    | splice hb' hn' ho' =>
      cases hn.symm.trans hn'
      cases ho.unique ho'
      exact ⟨rfl, rfl, rfl⟩

private theorem Takes.not_refuses (h : Takes l seg i s out r v out' s')
    (h' : Refuses l seg i s out r w e s'') : False := by
  cases h with
  | write hs =>
    cases h' with
    | write hs' => cases hs.symm.trans hs'
    | mismatch hk => exact hk rfl
  | push =>
    cases h' with
    | mismatch hk => exact hk rfl
  | splice hb hn ho =>
    cases h' with
    | mismatch hs hk => exact hk rfl
    | dangling hb' => omega
    | block hb' hn' => cases hn.symm.trans hn'
    | collect hb' hn' ho' =>
      cases ho with
      | inPlace hx => cases hx.symm.trans ho'

private theorem Refuses.unique (h : Refuses l seg i s out r v e s')
    (h' : Refuses l seg i s out r w e' s'') : v = w ∧ e = e' ∧ s' = s'' := by
  cases h with
  | write hs =>
    cases h' with
    | write hs' =>
      cases hs.symm.trans hs'
      exact ⟨rfl, rfl, rfl⟩
    | mismatch hk => exact absurd rfl hk
  | mismatch hs hb =>
    cases h' with
    | mismatch => exact ⟨rfl, rfl, rfl⟩
    | write => exact absurd rfl hs
    | dangling | block | collect => exact absurd rfl hb
  | dangling hb =>
    cases h' with
    | mismatch hs hk => exact absurd rfl hk
    | dangling => exact ⟨rfl, rfl, rfl⟩
    | block hb' | collect hb' => omega
  | block hb hn =>
    cases h' with
    | mismatch hs hk => exact absurd rfl hk
    | dangling hb' => omega
    | block hb' hn' =>
      cases hn.symm.trans hn'
      exact ⟨rfl, rfl, rfl⟩
    | collect hb' hn' => cases hn.symm.trans hn'
  | collect hb hn ho =>
    cases h' with
    | mismatch hs hk => exact absurd rfl hk
    | dangling hb' => omega
    | block hb' hn' => cases hn.symm.trans hn'
    | collect hb' hn' ho' =>
      cases hn.symm.trans hn'
      cases ho.symm.trans ho'
      exact ⟨rfl, rfl, rfl⟩

end Answers

section Determinism

variable {t : Transformer σ} {D : Nat} {cfg cfg₁ cfg₂ : Config σ} {u v : List Deed}
  {res res' : Except Abort Node} {es es' : List Event} {c' c'' : Context σ}

theorem Step.unique (h : Step t D cfg u cfg₁) (h' : Step t D cfg v cfg₂) :
    u = v ∧ cfg₁ = cfg₂ := by
  -- the focus and the top of the stack pick the rule, and what the rule reads has one value
  cases h with
  | call hr =>
    cases h' with
    | call hr' =>
      cases hr.symm.trans hr'
      exact ⟨rfl, rfl⟩
  | stay =>
    cases h'
    exact ⟨rfl, rfl⟩
  | down hx =>
    cases h' with
    | down hx' =>
      cases hx.symm.trans hx'
      exact ⟨rfl, rfl⟩
  | slot =>
    cases h'
    exact ⟨rfl, rfl⟩
  | list hd hp =>
    cases h' with
    | list => exact ⟨rfl, rfl⟩
    | stmts => exact absurd rfl hp
  | stmts =>
    cases h' with
    | list hd hp => exact absurd rfl hp
    | stmts => exact ⟨rfl, rfl⟩
  | close hd hy hc =>
    cases h' with
    | close hd' hy' hc' =>
      obtain rfl := hy.unique hy'
      cases hc.symm.trans hc'
      exact ⟨rfl, rfl⟩
  | leave hl =>
    cases h' with
    | leave hl' =>
      cases hl.symm.trans hl'
      exact ⟨rfl, rfl⟩
  | fill =>
    cases h'
    exact ⟨rfl, rfl⟩
  | item hx =>
    cases h' with
    | item hx' =>
      cases hx.symm.trans hx'
      exact ⟨rfl, rfl⟩
  | write hd hy hs =>
    cases h' with
    | write hd' hy' hs' =>
      obtain rfl := hy.unique hy'
      cases hs.symm.trans hs'
      exact ⟨rfl, rfl⟩
  | itemsDone =>
    cases h'
    exact ⟨rfl, rfl⟩
  | stmt hx =>
    cases h' with
    | stmt hx' =>
      cases hx.symm.trans hx'
      exact ⟨rfl, rfl⟩
  | take ht =>
    cases h' with
    | take ht' =>
      obtain ⟨rfl, rfl, rfl⟩ := ht.unique ht'
      exact ⟨rfl, rfl⟩
  | settle hc =>
    cases h' with
    | settle hc' =>
      cases hc.symm.trans hc'
      exact ⟨rfl, rfl⟩

/-- A configuration that ends the run has no next one. -/
theorem Concludes.not_step (h : Concludes t D cfg res es c') (h' : Step t D cfg u cfg₁) :
    False := by
  cases h with
  | returned => cases h'
  | halt hr =>
    cases h' with
    | call hr' => cases hr.symm.trans hr'
  | danglingNode hx =>
    cases h' with
    | down hx' => cases hx.symm.trans hx'
  | deep hd => cases h' <;> omega
  | danglingList hd hs => cases h' <;> omega
  | close hd hy hc =>
    cases h' with
    | close hd' hy' hc' =>
      obtain rfl := hy.unique hy'
      cases hc.symm.trans hc'
  | leave hl =>
    cases h' with
    | leave hl' => cases hl.symm.trans hl'
  | mismatch hk =>
    cases h' with
    | fill hk' => exact hk hk'
  | itemRead hx =>
    cases h' with
    | item hx' => cases hx.symm.trans hx'
  | itemWrite hd hy hs =>
    cases h' with
    | write hd' hy' hs' =>
      obtain rfl := hy.unique hy'
      cases hs.symm.trans hs'
  | stmtRead hx =>
    cases h' with
    | stmt hx' => cases hx.symm.trans hx'
  | refused ht =>
    cases h' with
    | take ht' => exact ht'.not_refuses ht
  | settle hc =>
    cases h' with
    | settle hc' => cases hc.symm.trans hc'

theorem Concludes.unique (h : Concludes t D cfg res es c') (h' : Concludes t D cfg res' es' c'') :
    res = res' ∧ es = es' ∧ c' = c'' := by
  cases h with
  | returned =>
    cases h'
    exact ⟨rfl, rfl, rfl⟩
  | halt hr =>
    cases h' with
    | halt hr' =>
      cases hr.symm.trans hr'
      exact ⟨rfl, rfl, rfl⟩
  | danglingNode =>
    cases h'
    exact ⟨rfl, rfl, rfl⟩
  | deep hd =>
    cases h' with
    | deep => exact ⟨rfl, rfl, rfl⟩
    | danglingList hd' | close hd' | itemWrite hd' => omega
  | danglingList hd =>
    cases h' with
    | deep hd' => omega
    | danglingList => exact ⟨rfl, rfl, rfl⟩
  | close hd hy hc =>
    cases h' with
    | deep hd' => omega
    | close hd' hy' hc' =>
      obtain rfl := hy.unique hy'
      cases hc.symm.trans hc'
      exact ⟨rfl, rfl, rfl⟩
  | leave hl =>
    cases h' with
    | leave hl' =>
      cases hl.symm.trans hl'
      exact ⟨rfl, rfl, rfl⟩
  | mismatch =>
    cases h'
    exact ⟨rfl, rfl, rfl⟩
  | itemRead hx =>
    cases h' with
    | itemRead hx' =>
      cases hx.symm.trans hx'
      exact ⟨rfl, rfl, rfl⟩
  | itemWrite hd hy hs =>
    cases h' with
    | deep hd' => omega
    | itemWrite hd' hy' hs' =>
      obtain rfl := hy.unique hy'
      cases hs.symm.trans hs'
      exact ⟨rfl, rfl, rfl⟩
  | stmtRead hx =>
    cases h' with
    | stmtRead hx' =>
      cases hx.symm.trans hx'
      exact ⟨rfl, rfl, rfl⟩
  | refused ht =>
    cases h' with
    | refused ht' =>
      obtain ⟨rfl, rfl, rfl⟩ := ht.unique ht'
      exact ⟨rfl, rfl, rfl⟩
  | settle hc =>
    cases h' with
    | settle hc' =>
      cases hc.symm.trans hc'
      exact ⟨rfl, rfl, rfl⟩

/-- Steps are none, or a first one and others. -/
theorem Steps.eq_or_head (h : Steps t D cfg u cfg₁) :
    (u = [] ∧ cfg = cfg₁) ∨
      ∃ v w cfg₂, Step t D cfg v cfg₂ ∧ Steps t D cfg₂ w cfg₁ ∧ u = v ++ w := by
  induction h with
  | refl => exact .inl ⟨rfl, rfl⟩
  | @tail cfg₁ cfg' u v h hs ih =>
    rcases ih with ⟨rfl, rfl⟩ | ⟨v', w, cfg₂, hfirst, hrest, rfl⟩
    · exact .inr ⟨v, [], cfg', hs, .refl cfg', by simp⟩
    · exact .inr ⟨v', w ++ v, cfg₂, hfirst, .tail hrest hs, by simp⟩

/-- Of two runs from one configuration, one is the beginning of the other. -/
theorem Steps.linear (h : Steps t D cfg u cfg₁) (h' : Steps t D cfg v cfg₂) :
    (∃ w, Steps t D cfg₁ w cfg₂ ∧ v = u ++ w) ∨ ∃ w, Steps t D cfg₂ w cfg₁ ∧ u = v ++ w := by
  induction h with
  | refl => exact .inl ⟨v, h', rfl⟩
  | @tail cfg₁ cfg' u x h hs ih =>
    rcases ih with ⟨w, hw, rfl⟩ | ⟨w, hw, rfl⟩
    · rcases hw.eq_or_head with ⟨rfl, rfl⟩ | ⟨y, w, cfg₃, hy, hw, rfl⟩
      · exact .inr ⟨x, .single hs, by simp⟩
      · obtain ⟨rfl, rfl⟩ := hs.unique hy
        exact .inl ⟨w, hw, by simp⟩
    · exact .inr ⟨w ++ x, .tail hw hs, by simp⟩

/-- There is one end of a run. -/
theorem Steps.end_unique (h : Steps t D cfg u cfg₁) (hc : Concludes t D cfg₁ res es c')
    (h' : Steps t D cfg v cfg₂) (hc' : Concludes t D cfg₂ res' es' c'') : u = v ∧ cfg₁ = cfg₂ := by
  rcases h.linear h' with ⟨w, hw, rfl⟩ | ⟨w, hw, rfl⟩
  · rcases hw.eq_or_head with ⟨rfl, rfl⟩ | ⟨y, w, cfg₃, hy, -, -⟩
    · exact ⟨by simp, rfl⟩
    · exact (hc.not_step hy).elim
  · rcases hw.eq_or_head with ⟨rfl, rfl⟩ | ⟨y, w, cfg₃, hy, -, -⟩
    · exact ⟨by simp, rfl⟩
    · exact (hc'.not_step hy).elim

end Determinism

namespace Transformer

variable {t : Transformer σ} {depth : Nat} {root : Node} {store : Store} {state : σ}
  {log : List Deed} {cfg : Config σ}

/-- What the machine concludes is the outcome of the run. -/
theorem Reaches.run_eq (h : t.Reaches depth root store state log cfg)
    {res : Except Abort Node} {es : List Event} {c' : Context σ}
    (hc : Concludes t depth cfg res es c') :
    t.run depth root store state =
      ⟨res, c'.store, c'.state,
        #[.start root.kind] ++ (log.flatMap Deed.events ++ es).toArray⟩ := by
  obtain ⟨log', cfg', hend⟩ := t.exists_endsIn depth root store state
  obtain ⟨es', hc', htrace⟩ := hend.concludes
  obtain ⟨rfl, rfl⟩ := Steps.end_unique h hc hend.reaches hc'
  obtain ⟨hres, rfl, hctx⟩ := hc.unique hc'
  rw [hres, hctx, ← htrace]

/-- What was done on the way is the beginning of what is done in the whole run. -/
theorem EndsIn.exists_append {log' : List Deed} {cfg' : Config σ}
    (hend : t.EndsIn depth root store state log cfg)
    (h : t.Reaches depth root store state log' cfg') : ∃ w, log = log' ++ w := by
  rcases Steps.linear h hend.reaches with ⟨w, -, heq⟩ | ⟨w, hw, rfl⟩
  · exact ⟨w, heq⟩
  · rcases hw.eq_or_head with ⟨rfl, -⟩ | ⟨y, w, cfg₂, hy, -, -⟩
    · exact ⟨[], by simp⟩
    · obtain ⟨es, hc, -⟩ := hend.concludes
      exact (hc.not_step hy).elim

end Transformer

end GoTree
