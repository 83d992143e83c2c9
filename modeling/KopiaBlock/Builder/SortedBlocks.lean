import KopiaBlock.Builder.Info

/-!
# `sortedBlocks`: any iteration order, any comparison schedule

`sortedBlocks` ranges over the map, in an order Go leaves unspecified, and
sorts the result with `sort.Slice`, which is not stable and may interleave its
comparisons in any way. All the code relies on is `sort.Slice`'s contract: the
result is a permutation of its input with no adjacent pair out of order.
`SortedBlocks b allBlocks` says that `allBlocks` is one possible result.

The keys of a map are distinct, so such a result is strictly ascending and
unique (`sortedBlocks_unique`), and one exists for every builder: insertion
sort gives it (`sortedBlocks_spec`).
-/

namespace KopiaBlock.Builder

open KopiaBlock.Go

/-- The `less` function given to `sort.Slice`. -/
def blockLess (x y : Info) : Prop := stringLess x.blockID y.blockID

instance blockLess_decidable : DecidableRel blockLess := fun x y =>
  inferInstanceAs (Decidable (stringLess x.blockID y.blockID))

/-- `sort.Slice(x, less)` may return any permutation of `x` that
`sort.SliceIsSorted` accepts. -/
def SliceSorted (x result : List Info) : Prop :=
  result.Perm x ∧ result.Chain' fun a b => ¬ blockLess b a

/-- The results `sortedBlocks` can return: ranging over `b` yields its infos in
some order `iter`, which `sort.Slice` then sorts. -/
def SortedBlocks (b : PackIndexBuilder) (allBlocks : List Info) : Prop :=
  ∃ iter, iter.Perm b.infos ∧ SliceSorted iter allBlocks

private theorem not_blockLess_trans {x y z : Info} (h₁ : ¬ blockLess y x) (h₂ : ¬ blockLess z y) :
    ¬ blockLess z x := by
  intro h₃
  rcases stringLess_trichotomous x.blockID y.blockID with h | h | h
  · exact h₂ (stringLess_trans h₃ h)
  · exact h₂ (by unfold blockLess at *; rwa [← h])
  · exact h₁ h

instance blockLess_not_swap_isTrans : IsTrans Info fun a b => ¬ blockLess b a := ⟨fun _ _ _ => not_blockLess_trans⟩

instance blockLess_not_swap_isTotal : IsTotal Info fun a b => ¬ blockLess b a where
  total x y := by
    by_cases h : blockLess y x
    · exact .inr fun h' => stringLess_irrefl _ (stringLess_trans h h')
    · exact .inl h

instance blockLess_isAntisymm : IsAntisymm Info blockLess where
  antisymm _ _ h h' := absurd (stringLess_trans h h') (stringLess_irrefl _)

/-- A computable result of `sortedBlocks`. -/
def sortedBlocks (b : PackIndexBuilder) : List Info :=
  b.infos.insertionSort fun a b => ¬ blockLess b a

theorem sortedBlocks_spec (b : PackIndexBuilder) : SortedBlocks b (sortedBlocks b) :=
  ⟨b.infos, List.Perm.refl _, List.perm_insertionSort _ _,
    List.chain'_iff_pairwise.mpr (List.sorted_insertionSort _ _)⟩

/-- Every result of `sortedBlocks` lists the map's infos in strictly ascending
`BlockID` order. -/
theorem SortedBlocks.sorted {b : PackIndexBuilder} {l : List Info} (h : SortedBlocks b l) :
    l.Sorted blockLess := by
  obtain ⟨iter, hiter, hperm, hchain⟩ := h
  have hp := hperm.trans hiter
  have hnd : (l.map Info.blockID).Nodup := (hp.map Info.blockID).nodup_iff.mpr b.nodup
  have hpw := List.chain'_iff_pairwise.mp hchain
  refine (hpw.and (List.pairwise_map.mp hnd)).imp ?_
  · intro x y ⟨hxy, hne⟩
    rcases stringLess_trichotomous x.blockID y.blockID with h | h | h
    exacts [h, absurd h hne, absurd h hxy]

theorem SortedBlocks.perm {b : PackIndexBuilder} {l : List Info} (h : SortedBlocks b l) :
    l.Perm b.infos :=
  let ⟨_, hiter, hperm, _⟩ := h
  hperm.trans hiter

/-- **Every iteration order and comparison schedule give one list.** -/
theorem sortedBlocks_unique {b : PackIndexBuilder} {l : List Info} (h : SortedBlocks b l) :
    l = sortedBlocks b :=
  List.eq_of_perm_of_sorted (h.perm.trans (sortedBlocks_spec b).perm.symm) h.sorted
    (sortedBlocks_spec b).sorted

/-- Builders holding the same infos sort to the same list. -/
theorem sortedBlocks_eq_of_perm {b₁ b₂ : PackIndexBuilder} (h : b₁.infos.Perm b₂.infos) :
    sortedBlocks b₁ = sortedBlocks b₂ :=
  let ⟨iter, hiter, hsorted⟩ := sortedBlocks_spec b₁
  sortedBlocks_unique ⟨iter, hiter.trans h, hsorted⟩

end KopiaBlock.Builder
