import KopiaBlock.Builder.Build

/-!
# What `prepareExtraData` computes

The loop of `prepareExtraData` appends each non-empty pack file name the first
time it meets it and records where it put it. Its result is therefore the
first-occurrence deduplication (`List.eraseDups`) of the non-empty names, all
concatenated, with every name's offset the length of the names before it; the
key length is that of the first info, and the extra data starts right after
the header and the entries. `prepareExtraData_eq` states this closed form.
-/

namespace KopiaBlock.Builder

open KopiaBlock.Go

section EraseDups

variable {α : Type} [BEq α] [LawfulBEq α]

private theorem eraseDups_loop_eq (l bs : List α) :
    List.eraseDups.loop l bs =
      (l.foldl (fun acc a => if acc.elem a then acc else a :: acc) bs).reverse := by
  induction l generalizing bs with
  | nil => rfl
  | cons a l ih =>
    simp only [List.eraseDups.loop, List.foldl]
    split <;> simp_all

theorem eraseDups_append_singleton (l : List α) (a : α) :
    (l ++ [a]).eraseDups = if a ∈ l.eraseDups then l.eraseDups else l.eraseDups ++ [a] := by
  simp only [List.eraseDups, eraseDups_loop_eq, List.foldl_append, List.foldl_cons,
    List.foldl_nil]
  split_ifs <;> simp_all [List.elem_iff]

theorem mem_eraseDups (l : List α) (a : α) : a ∈ l.eraseDups ↔ a ∈ l := by
  induction l using List.reverseRecOn generalizing a with
  | nil => simp [List.eraseDups, List.eraseDups.loop]
  | append_singleton l b ih =>
    rw [eraseDups_append_singleton]
    split_ifs with h
    · rw [ih] at h ⊢
      simp only [List.mem_append, List.mem_singleton]
      exact ⟨Or.inl, fun h' => h'.elim id (· ▸ h)⟩
    · simp [ih]

theorem nodup_eraseDups (l : List α) : l.eraseDups.Nodup := by
  induction l using List.reverseRecOn with
  | nil => simp [List.eraseDups, List.eraseDups.loop]
  | append_singleton l b ih =>
    rw [eraseDups_append_singleton]
    split_ifs with h
    · exact ih
    · exact ih.append (List.nodup_singleton b) (by simpa using h)

end EraseDups

/-- The pack file names `prepareExtraData` stores, in the order it stores them:
the non-empty ones, each at its first occurrence. -/
def distinctPackFiles (l : List Info) : List (List UInt8) :=
  ((l.map Info.packFile).filter fun p => p ≠ []).eraseDups

/-- Where `p` starts in the concatenation of `ds`, when it is one of them. -/
def offsetOf : List (List UInt8) → List UInt8 → Option Nat
  | [], _ => none
  | d :: ds, p => if d = p then some 0 else (offsetOf ds p).map (d.length + ·)

theorem distinctPackFiles_append_singleton (l : List Info) (it : Info) :
    distinctPackFiles (l ++ [it]) =
      if it.packFile ≠ [] ∧ it.packFile ∉ distinctPackFiles l then
        distinctPackFiles l ++ [it.packFile]
      else distinctPackFiles l := by
  by_cases h : it.packFile = []
  · simp [distinctPackFiles, h]
  · simp only [distinctPackFiles, List.map_append, List.filter_append, List.map_cons,
      List.map_nil, List.filter_cons, h, ne_eq, not_false_eq_true, decide_True, if_true,
      List.filter_nil, eraseDups_append_singleton, true_and]
    split_ifs <;> rfl

theorem offsetOf_eq_none {ds : List (List UInt8)} {p : List UInt8} :
    offsetOf ds p = none ↔ p ∉ ds := by
  induction ds with
  | nil => simp [offsetOf]
  | cons d ds ih =>
    by_cases h : d = p
    · simp [offsetOf, h]
    · simp [offsetOf, h, ih, Ne.symm h]

theorem offsetOf_append_singleton (ds : List (List UInt8)) (q p : List UInt8) :
    offsetOf (ds ++ [q]) p =
      if p ∈ ds then offsetOf ds p else if q = p then some ds.flatten.length else none := by
  induction ds with
  | nil => simp [offsetOf]
  | cons d ds ih =>
    by_cases h : d = p
    · simp [offsetOf, h]
    · simp only [List.cons_append, offsetOf, h, if_false, List.mem_cons, Ne.symm h, false_or,
        List.append_eq]
      rw [ih]
      split_ifs <;> simp

/-- The name recorded at an offset is spelled there in the concatenation. -/
theorem offsetOf_spells {ds : List (List UInt8)} {p : List UInt8} {o : Nat}
    (h : offsetOf ds p = some o) :
    o + p.length ≤ ds.flatten.length ∧ (ds.flatten.drop o).take p.length = p := by
  induction ds generalizing o with
  | nil => simp [offsetOf] at h
  | cons d ds ih =>
    simp only [offsetOf] at h
    split_ifs at h with hd
    · subst hd
      obtain rfl := Option.some.inj h
      simp
    · obtain ⟨o', ho', rfl⟩ := Option.map_eq_some'.mp h
      obtain ⟨hle, hs⟩ := ih ho'
      simp only [List.flatten_cons, List.length_append]
      refine ⟨by omega, ?_⟩
      rwa [List.drop_append]

theorem mem_distinctPackFiles {l : List Info} {p : List UInt8} :
    p ∈ distinctPackFiles l ↔ p ≠ [] ∧ ∃ it ∈ l, it.packFile = p := by
  simp [distinctPackFiles, mem_eraseDups, and_comm]

theorem nodup_distinctPackFiles (l : List Info) : (distinctPackFiles l).Nodup :=
  nodup_eraseDups _

section

variable (contentIDToBytes : List UInt8 → List UInt8)

/-- The key length `prepareExtraData` records: the first info's, or `-1` for none. -/
def firstKeyLength : List Info → Int
  | [] => -1
  | it :: _ => (contentIDToBytes it.blockID).length

/-- The layout `prepareExtraData` leaves. -/
def expectedLayout (l : List Info) : IndexLayout where
  packFileOffsets p := (offsetOf (distinctPackFiles l) p).map UInt32.ofNat
  entryCount := l.length
  keyLength := firstKeyLength contentIDToBytes l
  entryLength := 20
  extraDataOffset := uint32OfInt (8 + l.length * (firstKeyLength contentIDToBytes l + 20))

/-- The invariant of `prepareExtraData`'s loop after the infos `seen`. -/
structure ExtraDataInv (n : Nat) (seen : List Info) (st : ExtraData) : Prop where
  extraData : st.extraData = (distinctPackFiles seen).flatten
  offsets : ∀ p, st.layout.packFileOffsets p = (offsetOf (distinctPackFiles seen) p).map UInt32.ofNat
  keyLength : st.layout.keyLength = firstKeyLength contentIDToBytes seen
  entryCount : st.layout.entryCount = n
  entryLength : st.layout.entryLength = 20

/-- The step lemma of `prepareExtraData`'s loop. -/
theorem prepareExtraDataStep_inv {n : Nat} {seen : List Info} {st : ExtraData}
    (h : ExtraDataInv contentIDToBytes n seen st) {it : Info} (hp : it.payload = []) :
    ∃ st', prepareExtraDataStep contentIDToBytes st seen.length it = .ok st' ∧
      ExtraDataInv contentIDToBytes n (seen ++ [it]) st' := by
  obtain ⟨hx, hoff, hk, hn, hl⟩ := h
  -- the layout once the first info has set the key length
  obtain ⟨L, hL, hLoff, hLk, hLn, hLl⟩ : ∃ L : IndexLayout,
      (if seen.length = 0 then
        { st.layout with keyLength := ((contentIDToBytes it.blockID).length : Int) }
        else st.layout) = L ∧
      L.packFileOffsets = st.layout.packFileOffsets ∧
      L.keyLength = firstKeyLength contentIDToBytes (seen ++ [it]) ∧
      L.entryCount = n ∧ L.entryLength = 20 := by
    cases seen <;> simp [hk, hn, hl, firstKeyLength]
  have hnone : L.packFileOffsets it.packFile = none ↔ it.packFile ∉ distinctPackFiles seen := by
    rw [hLoff, hoff, Option.map_eq_none', offsetOf_eq_none]
  simp only [prepareExtraDataStep, hL, hp, List.length_nil, gt_iff_lt, Nat.lt_irrefl, if_false,
    distinctPackFiles_append_singleton, hnone]
  refine ⟨_, rfl, ?_⟩
  split_ifs with hnew
  · have hds : distinctPackFiles (seen ++ [it]) = distinctPackFiles seen ++ [it.packFile] := by
      rw [distinctPackFiles_append_singleton, if_pos hnew]
    refine ⟨by simp [hx, hds], fun p => ?_, hLk, hLn, hLl⟩
    simp only [IndexLayout.assignOffset, hLoff, hoff, hds, offsetOf_append_singleton, hx]
    by_cases hpf : p = it.packFile
    · subst hpf; simp [hnew.2]
    · by_cases hmem : p ∈ distinctPackFiles seen
      · simp [hpf, hmem]
      · simp [hpf, hmem, Ne.symm hpf, offsetOf_eq_none.mpr hmem]
  · have hds : distinctPackFiles (seen ++ [it]) = distinctPackFiles seen := by
      rw [distinctPackFiles_append_singleton, if_neg hnew]
    exact ⟨hds ▸ hx, fun p => hds ▸ hLoff ▸ hoff p, hLk, hLn, hLl⟩

/-- A payload makes the step panic. -/
theorem prepareExtraDataStep_panic (st : ExtraData) (i : Nat) {it : Info} (hp : it.payload ≠ []) :
    prepareExtraDataStep contentIDToBytes st i it =
      .error "storing payloads in indexes is not supported" := by
  have : it.payload.length > 0 := List.length_pos.mpr hp
  simp [prepareExtraDataStep, this]

/-- The run lemma of `prepareExtraData`'s loop. -/
theorem prepareExtraDataLoop_inv {n : Nat} (rest : List Info) :
    ∀ {seen : List Info} {st : ExtraData}, ExtraDataInv contentIDToBytes n seen st →
      (∀ it ∈ rest, it.payload = []) →
      ∃ st', prepareExtraDataLoop contentIDToBytes seen.length rest st = .ok st' ∧
        ExtraDataInv contentIDToBytes n (seen ++ rest) st' := by
  induction rest with
  | nil => exact fun h _ => ⟨_, rfl, by simpa using h⟩
  | cons it rest ih =>
    intro seen st h hp
    obtain ⟨st₁, hst₁, h₁⟩ := prepareExtraDataStep_inv contentIDToBytes h (hp it (.head _))
    obtain ⟨st₂, hst₂, h₂⟩ := ih h₁ fun j hj => hp j (.tail _ hj)
    refine ⟨st₂, ?_, by simpa using h₂⟩
    simp only [prepareExtraDataLoop, hst₁, bind, Except.bind]
    simpa using hst₂

theorem prepareExtraDataLoop_panic {rest : List Info} (hp : ∃ it ∈ rest, it.payload ≠ []) :
    ∀ (i : Nat) (st : ExtraData), prepareExtraDataLoop contentIDToBytes i rest st =
      .error "storing payloads in indexes is not supported" := by
  induction rest with
  | nil => simp at hp
  | cons it rest ih =>
    intro i st
    by_cases h : it.payload = []
    · obtain ⟨st₁, hst₁⟩ : ∃ st₁, prepareExtraDataStep contentIDToBytes st i it = .ok st₁ :=
        ⟨_, by simp [prepareExtraDataStep, h]; rfl⟩
      simp only [prepareExtraDataLoop, hst₁, bind, Except.bind]
      exact ih (by simpa [h] using hp) (i + 1) st₁
    · simp [prepareExtraDataLoop, prepareExtraDataStep_panic contentIDToBytes st i h, bind,
        Except.bind]

/-- **`prepareExtraData` in closed form.** Without payloads it returns
`expectedLayout` and the distinct non-empty pack file names concatenated. -/
theorem prepareExtraData_eq {l : List Info} (hp : ∀ it ∈ l, it.payload = []) :
    prepareExtraData contentIDToBytes l (initialLayout l) =
      .ok (expectedLayout contentIDToBytes l, (distinctPackFiles l).flatten) := by
  have h₀ : ExtraDataInv contentIDToBytes l.length [] ⟨initialLayout l, []⟩ :=
    ⟨rfl, fun _ => rfl, rfl, rfl, rfl⟩
  obtain ⟨st, hst, hx, hoff, hk, hn, hl⟩ := prepareExtraDataLoop_inv contentIDToBytes l h₀ hp
  simp only [List.nil_append] at hx hoff hk
  simp only [prepareExtraData, List.length_nil] at hst ⊢
  simp only [hst, bind, Except.bind, pure, Except.pure, hx, hk, hn, hl]
  congr
  funext p
  exact hoff p

theorem prepareExtraData_panic {l : List Info} (hp : ∃ it ∈ l, it.payload ≠ []) (layout : IndexLayout) :
    prepareExtraData contentIDToBytes l layout =
      .error "storing payloads in indexes is not supported" := by
  simp [prepareExtraData, prepareExtraDataLoop_panic contentIDToBytes hp, bind, Except.bind]

end

end KopiaBlock.Builder
