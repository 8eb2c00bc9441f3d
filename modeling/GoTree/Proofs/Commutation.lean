import GoTree.Proofs.Edits

/-!
# Runs on disjoint trees commute

Two transformers are run one after the other, each on a tree of its own. What the first one stores
may point into the second tree, and the other way round, so after both runs the trees may be tied
together. Still the order does not matter: `Transformer.runs_commute` says that the final store and
the two answers are the same. Each run is an edit at the footprint of its tree
(`GoTree.Proofs.Edits`), and the edit that one run makes does not depend on whether the other was
made before.
-/

namespace GoTree

variable {σ τ : Type}

/-- **Commutation.** Take two tree-shaped roots that have no address in common, and two transformers
that read below. Both orders of the two runs return with the same answers and end in the same store,
whatever the states that the transformers are started with. The depth is any that suffices, and no
list of the trees ends beyond 32 bits. -/
theorem Transformer.runs_commute {F : Transformer σ} {G : Transformer τ}
    {f g : Store → Node → Node × Bool} (hF : F.ReadsBelow f) (hG : G.ReadsBelow g) {store : Store}
    {A B : Node} {T U : Tree} {fp gp : Multiset Address} (hA : store.TreeShaped A T fp)
    (hB : store.TreeShaped B U gp) (hd : Disjoint fp gp)
    (hw : ∀ p i, Address.cell p i ∈ fp + gp → i + 1 < wordSize) :
    ∃ D a b, ∀ depth, D ≤ depth → ∀ (q q' : σ) (r r' : τ),
      let outA := F.run depth A store q
      let outAB := G.run depth B outA.store r
      let outB := G.run depth B store r'
      let outBA := F.run depth A outB.store q'
      (outA.result = .ok a ∧ outAB.result = .ok b) ∧ (outB.result = .ok b ∧ outBA.result = .ok a) ∧
        outAB.store = outBA.store := by
  have hf : Walkable (fp + gp) := ⟨Multiset.nodup_add.mpr ⟨hA.2, hB.2, hd⟩, hw⟩
  obtain ⟨D₁, e₁, a, he₁, hrun₁⟩ := hF.exists_edit hA.1 hf.left
  obtain ⟨D₂, e₂, b, he₂, hrun₂⟩ := hG.exists_edit hB.1 hf.right
  refine ⟨max D₁ D₂, a, b, fun depth hdepth q q' r r' => ?_⟩
  intro outA outAB outB outBA
  have h₁ := hrun₁ depth (Nat.le_trans (Nat.le_max_left _ _) hdepth)
  have h₂ := hrun₂ depth (Nat.le_trans (Nat.le_max_right _ _) hdepth)
  obtain ⟨hA₁, hA₂⟩ := h₁ store (.refl _ _) q
  obtain ⟨hB₁, hB₂⟩ := h₂ store (.refl _ _) r'
  -- neither edit is seen by the other run
  obtain ⟨hAB₁, hAB₂⟩ := h₂ (e₁ store) ((Store.AlikeOn.refl _ _).edit he₁ hd) r
  obtain ⟨hBA₁, hBA₂⟩ := h₁ (e₂ store) ((Store.AlikeOn.refl _ _).edit he₂ hd.symm) q'
  rw [← hA₂] at hAB₁ hAB₂
  rw [← hB₂] at hBA₁ hBA₂
  refine ⟨⟨hA₁, hAB₁⟩, ⟨hB₁, hBA₁⟩, ?_⟩
  calc outAB.store = e₂ (e₁ store) := by rw [hAB₂, hA₂]
    _ = e₁ (e₂ store) := he₁.comm he₂ hd store
    _ = outBA.store := by rw [hBA₂, hB₂]

/-! ### Two blocks that come to contain each other -/

/-- A bad statement is answered by the statement `target`; every other node stays. -/
def mended (target : Id .stmt) (s : Store) : Node → Node × Bool
  | ⟨.stored .stmt, id⟩ =>
      if s.get? id = some .bad then (.stored target, false) else (.stored id, true)
  | n => (n, true)

def mend (target : Id .stmt) : Transformer Unit where
  replace := fun n c => .ok (mended target c.store n) c

private theorem mend_readsBelow (target : Id .stmt) : (mend target).ReadsBelow (mended target) where
  replace _ _ := ⟨(), rfl⟩
  leave _ := ⟨(), rfl⟩
  below := by
    intro s s' n T fp hu _ hsame
    obtain ⟨x, us, gp, -, -, -, rfl⟩ := hu.exists_of_node
    unfold mended
    split
    · next id _ =>
      have hid : Address.node .stmt id.index ∈ (Node.stored id).footprint + gp := by
        simp [Node.footprint]
      rw [Store.get?_eq_of_sameAt (hsame _ hid).1]
    · rfl
  kind := by
    intro s n T fp _
    unfold mended
    split
    · split_ifs <;> rfl
    · rfl
  goesOn := by
    intro s n T fp _ h
    unfold mended at h ⊢
    split at h
    · split_ifs at h ⊢
      exact .inl rfl
    · exact .inl rfl

/-- Two blocks, each with a bad statement. -/
def twoBlocks : Store where
  tables := { stmts := .ofNodes #[.block ⟨0, 2⟩, .block ⟨0, 0⟩, .bad, .block ⟨2, 1⟩, .bad] }
  buffers := { stmts := #[⟨1⟩, ⟨2⟩, ⟨4⟩] }

private theorem twoBlocks_treeShaped :
    ∃ T U fp gp, twoBlocks.TreeShaped (.stored (⟨0⟩ : Id .stmt)) T fp ∧
      twoBlocks.TreeShaped (.stored (⟨3⟩ : Id .stmt)) U gp ∧ Disjoint fp gp ∧
      ∀ p i, Address.cell p i ∈ fp + gp → i + 1 < wordSize := by
  have hr₀ : twoBlocks.Reads .stmts 0 [⟨1⟩, ⟨2⟩] := ⟨rfl, rfl, trivial⟩
  have hr₁ : twoBlocks.Reads .stmts 0 [] := trivial
  have hr₃ : twoBlocks.Reads .stmts 2 [⟨4⟩] := ⟨rfl, trivial⟩
  have hA : Unfolds twoBlocks [.node "" (.stored (⟨0⟩ : Id .stmt))] _ _ :=
    .node rfl (.list (by decide) rfl hr₀ (.item (.node rfl (.list (by decide) rfl hr₁ .nil .nil)
      .nil) (.item (.node rfl .nil .nil) .nil)) .nil) .nil
  have hB : Unfolds twoBlocks [.node "" (.stored (⟨3⟩ : Id .stmt))] _ _ :=
    .node rfl (.list (by decide) rfl hr₃ (.item (.node rfl .nil .nil) .nil) .nil) .nil
  refine ⟨_, _, _, _, ⟨hA, by decide⟩, ⟨hB, by decide⟩, ?_, ?_⟩
  · rw [Multiset.disjoint_left]
    decide
  · intro p i hi
    have hi : i < 3 := by
      simp [Node.footprint, cells, Segment.length] at hi
      omega
    exact Nat.lt_of_le_of_lt hi (by decide)

/-- After both runs each block contains the other one, whichever came first. -/
theorem runs_commute_twoBlocks :
    let A : Node := .stored (⟨0⟩ : Id .stmt)
    let B : Node := .stored (⟨3⟩ : Id .stmt)
    let outA := (mend ⟨3⟩).run 9 A twoBlocks ()
    ((mend ⟨0⟩).run 9 B outA.store ()).store.buffer .stmts = #[⟨1⟩, ⟨3⟩, ⟨0⟩] ∧
      ∃ T U fp gp, (twoBlocks.TreeShaped A T fp ∧ twoBlocks.TreeShaped B U gp ∧ Disjoint fp gp ∧
        ∀ p i, Address.cell p i ∈ fp + gp → i + 1 < wordSize) ∧
      ∃ D a b, ∀ depth, D ≤ depth →
        let outA := (mend ⟨3⟩).run depth A twoBlocks ()
        let outAB := (mend ⟨0⟩).run depth B outA.store ()
        let outB := (mend ⟨0⟩).run depth B twoBlocks ()
        let outBA := (mend ⟨3⟩).run depth A outB.store ()
        (outA.result = .ok a ∧ outAB.result = .ok b) ∧
          (outB.result = .ok b ∧ outBA.result = .ok a) ∧ outAB.store = outBA.store := by
  intro A B outA
  obtain ⟨T, U, fp, gp, hA, hB, hd, hw⟩ := twoBlocks_treeShaped
  obtain ⟨D, a, b, hrun⟩ := Transformer.runs_commute (mend_readsBelow ⟨3⟩) (mend_readsBelow ⟨0⟩)
    hA hB hd hw
  exact ⟨by decide, T, U, fp, gp, ⟨hA, hB, hd, hw⟩, D, a, b,
    fun depth hdepth => hrun depth hdepth () () () ()⟩

end GoTree
