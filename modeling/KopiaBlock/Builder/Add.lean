import KopiaBlock.Builder.Info

/-!
# What a run of `Add`s leaves in the builder

After any sequence of `Add`s from the empty builder, the info stored under a
`BlockID` is the one of greatest timestamp, and among several of that timestamp
the one added last: `Add` compares timestamps with `>=`, where its docstring
says it replaces the stored info "if the timestamp is greater", and it never
looks at `Deleted`. A tombstone therefore wins a tie only when it arrives second,
and two `Add`s commute exactly when they differ in `BlockID` or timestamp or are
equal.
-/

namespace KopiaBlock.Builder

namespace PackIndexBuilder

/-- `x` is, among the infos of `is` stored under `k`, one of greatest timestamp,
and every later one under `k` is strictly older: the last added of the newest. -/
structure LastNewest (is : List Info) (k : List UInt8) (x : Info) : Prop where
  key : x.blockID = k
  newest : ∀ i ∈ is, i.blockID = k → i.timestampSeconds.toInt ≤ x.timestampSeconds.toInt
  last : ∃ pre post, is = pre ++ x :: post ∧
    ∀ i ∈ post, i.blockID = k → i.timestampSeconds.toInt < x.timestampSeconds.toInt

/-- What the builder holds under `k` after `Add`ing `is` to the empty builder. -/
def Stores (is : List Info) (k : List UInt8) : Option Info → Prop
  | none => ∀ i ∈ is, i.blockID ≠ k
  | some x => LastNewest is k x

/-- An `Add` under another key leaves what is stored under `k` as it was. -/
private theorem stores_snoc_other {is : List Info} {k : List UInt8} {i : Info}
    (hi : i.blockID ≠ k) {r : Option Info} (h : Stores is k r) : Stores (is ++ [i]) k r := by
  cases r with
  | none =>
    simp only [Stores, List.mem_append, List.mem_singleton] at h ⊢
    rintro j (hj | rfl)
    exacts [h j hj, hi]
  | some x =>
    obtain ⟨hk, hnew, pre, post, rfl, hpost⟩ := h
    refine ⟨hk, ?_, pre, post ++ [i], by simp, ?_⟩ <;>
      simp only [List.mem_append, List.mem_singleton] <;> rintro j (hj | rfl) hjk
    exacts [hnew j (List.mem_append.mpr hj) hjk, absurd hjk hi, hpost j hj hjk, absurd hjk hi]

/-- An info added last, no older than any earlier one under its key, is stored. -/
private theorem lastNewest_snoc {is : List Info} {i : Info}
    (hnew : ∀ j ∈ is, j.blockID = i.blockID →
      j.timestampSeconds.toInt ≤ i.timestampSeconds.toInt) :
    LastNewest (is ++ [i]) i.blockID i := by
  refine ⟨rfl, ?_, is, [], by simp, by simp⟩
  simp only [List.mem_append, List.mem_singleton]
  rintro j (hj | rfl) hjk
  exacts [hnew j hj hjk, le_rfl]

/-- The step lemma: one more `Add` keeps `Stores`. -/
theorem stores_add {is : List Info} {k : List UInt8} {b : PackIndexBuilder}
    (h : Stores is k (b.get k)) (i : Info) : Stores (is ++ [i]) k ((b.add i).get k) := by
  rw [get_add]
  by_cases hk : i.blockID = k
  · subst hk
    cases hb : b.get i.blockID with
    | none =>
      rw [hb] at h
      simpa using lastNewest_snoc fun j hj hjk => absurd hjk (h j hj)
    | some x =>
      rw [hb] at h
      obtain ⟨hxk, hnew, pre, post, rfl, hpost⟩ := h
      by_cases hle : x.timestampSeconds.toInt ≤ i.timestampSeconds.toInt
      · simpa [hle] using lastNewest_snoc fun j hj hjk => (hnew j hj hjk).trans hle
      · simp only [true_and, Option.all_some, ge_iff_le, hle, decide_False]
        refine ⟨hxk, ?_, pre, post ++ [i], by simp, ?_⟩ <;>
          simp only [List.mem_append, List.mem_singleton] <;> rintro j (hj | rfl) hjk
        exacts [hnew j (List.mem_append.mpr hj) hjk, by omega, hpost j hj hjk, by omega]
  · simpa [hk] using stores_snoc_other hk h

/-- The run lemma: from the empty builder, every key stores what `Stores` says. -/
theorem stores_addAll (is : List Info) (k : List UInt8) :
    Stores is k ((empty.addAll is).get k) := by
  induction is using List.reverseRecOn with
  | nil => exact fun _ h => absurd h (List.not_mem_nil _)
  | append_singleton is i ih => simpa using stores_add ih i

/-- **The builder after a run of `Add`s.** The key `k` is present exactly when an
added info has `BlockID` `k`; what it holds is an added info with that `BlockID`,
of the greatest timestamp, and the last added among those of that timestamp. -/
theorem get_addAll_empty (is : List Info) (k : List UInt8) :
    ((empty.addAll is).get k = none ↔ ∀ i ∈ is, i.blockID ≠ k) ∧
    ∀ x, (empty.addAll is).get k = some x → x ∈ is ∧ LastNewest is k x := by
  have h := stores_addAll is k
  refine ⟨⟨fun hn => by simpa [hn, Stores] using h, fun hn => ?_⟩, fun x hx => ?_⟩
  · cases hb : (empty.addAll is).get k with
    | none => rfl
    | some x =>
      rw [hb] at h
      obtain ⟨hxk, -, pre, post, rfl, -⟩ := h
      exact absurd hxk (hn x (by simp))
  · rw [hx] at h
    refine ⟨?_, h⟩
    obtain ⟨-, -, pre, post, hs, -⟩ := h
    simp [hs]

/-- A tombstone and a live info of one `BlockID` and timestamp: `Add`'s `>=`
lets the second replace the first, so the builder keeps the live info when the
tombstone comes first and the tombstone when it comes second. Replacing only on
a greater timestamp, as the docstring says, would keep the tombstone added
first. -/
theorem tombstone_first_loses_tie :
    let t : Info := ⟨[1], 0, 5, [112], 0, true, [], 1⟩
    let live : Info := { t with deleted := false }
    live.blockID = t.blockID ∧ live.timestampSeconds = t.timestampSeconds ∧
      (((empty.add t).add live).get t.blockID).map Info.deleted = some false ∧
      (((empty.add live).add t).get t.blockID).map Info.deleted = some true := by
  decide

/-! ## Order of `Add`s -/

theorem Equiv.refl (b : PackIndexBuilder) : Equiv b b := fun _ => rfl

theorem Equiv.trans {b₁ b₂ b₃ : PackIndexBuilder} (h₁ : Equiv b₁ b₂) (h₂ : Equiv b₂ b₃) :
    Equiv b₁ b₃ := fun k => (h₁ k).trans (h₂ k)

/-- `Add` reads the map only through lookups, so it respects `Equiv`. -/
theorem Equiv.add {b₁ b₂ : PackIndexBuilder} (h : Equiv b₁ b₂) (i : Info) :
    Equiv (b₁.add i) (b₂.add i) := fun k => by simp only [get_add, h k]

/-- Builders with the same lookups hold the same infos, in some order. -/
theorem Equiv.perm {b₁ b₂ : PackIndexBuilder} (h : Equiv b₁ b₂) : b₁.infos.Perm b₂.infos := by
  refine (List.perm_ext_iff_of_nodup (List.Nodup.of_map _ b₁.nodup) (List.Nodup.of_map _ b₂.nodup)).mpr
    fun x => ?_
  have hmem : ∀ b : PackIndexBuilder, x ∈ b.infos ↔ b.get x.blockID = some x := fun b => by
    simp [get_eq_some]
  rw [hmem, h, hmem]

theorem Equiv.addAll {b₁ b₂ : PackIndexBuilder} (h : Equiv b₁ b₂) (is : List Info) :
    Equiv (b₁.addAll is) (b₂.addAll is) := by
  induction is generalizing b₁ b₂ with
  | nil => exact h
  | cons i is ih => exact ih (h.add i)

/-- Two `Add`s that differ in `BlockID` or in timestamp commute. -/
theorem add_add_comm {x y : Info}
    (hne : x.blockID ≠ y.blockID ∨ x.timestampSeconds.toInt ≠ y.timestampSeconds.toInt)
    (b : PackIndexBuilder) : Equiv ((b.add x).add y) ((b.add y).add x) := by
  intro k
  simp only [get_add]
  by_cases hx : x.blockID = k <;> by_cases hy : y.blockID = k
  · subst hx
    have hts := hne.resolve_left (by simp [hy])
    rcases lt_or_gt_of_ne hts with h | h <;> cases b.get x.blockID with
    | none => simp [hy, h.le, not_le.mpr h]
    | some o =>
      by_cases h1 : o.timestampSeconds.toInt ≤ x.timestampSeconds.toInt <;>
        by_cases h2 : o.timestampSeconds.toInt ≤ y.timestampSeconds.toInt <;>
        simp [hy, h1, h2, h.le, not_le.mpr h]
      all_goals omega
  all_goals simp [hx, hy]

/-- No two different infos of the list share both `BlockID` and timestamp. -/
def NoTie (is : List Info) : Prop :=
  ∀ x ∈ is, ∀ y ∈ is, x.blockID = y.blockID →
    x.timestampSeconds.toInt = y.timestampSeconds.toInt → x = y

/-- Without ties, the order of the `Add`s does not change the map. -/
theorem addAll_perm {is is' : List Info} (hp : is.Perm is') (hl : NoTie is)
    (b : PackIndexBuilder) : Equiv (b.addAll is) (b.addAll is') := by
  induction hp generalizing b with
  | nil => exact Equiv.refl b
  | cons i _ ih => exact ih (fun x hx y hy => hl x (.tail _ hx) y (.tail _ hy)) (b.add i)
  | swap x y is =>
    refine Equiv.addAll ?_ is
    by_cases hxy : x = y
    · subst hxy; exact Equiv.refl _
    · refine add_add_comm ?_ b
      by_contra hc
      push_neg at hc
      exact hxy (hl y (by simp) x (by simp) hc.1 hc.2).symm
  | trans h₁ _ ih₁ ih₂ =>
    exact (ih₁ hl b).trans (ih₂ (fun x hx y hy => hl x (h₁.mem_iff.mpr hx) y (h₁.mem_iff.mpr hy)) b)

/-- Two different infos of one `BlockID` and timestamp, added to the empty
builder in the two orders, leave different infos under that `BlockID`. -/
theorem add_tie_ne {x y : Info} (hk : x.blockID = y.blockID)
    (hts : x.timestampSeconds.toInt = y.timestampSeconds.toInt) (hxy : x ≠ y) :
    ((empty.add x).add y).get x.blockID ≠ ((empty.add y).add x).get x.blockID := by
  have h₁ : ((empty.add x).add y).get x.blockID = some y := by simp [get_add, hk, hts]
  have h₂ : ((empty.add y).add x).get x.blockID = some x := by simp [get_add, hk, hts]
  rw [h₁, h₂]
  exact fun h => hxy (Option.some.inj h).symm

/-- **When the order of `Add`s matters.** Two `Add`s commute on every builder
exactly when the infos differ in `BlockID` or timestamp or are equal; so a list
without ties gives the same map in every order, and two different infos of one
`BlockID` and timestamp leave different maps in the two orders. -/
theorem add_order_independent :
    (∀ x y : Info, (∀ b : PackIndexBuilder, Equiv ((b.add x).add y) ((b.add y).add x)) ↔
      (x.blockID ≠ y.blockID ∨
        x.timestampSeconds.toInt ≠ y.timestampSeconds.toInt ∨ x = y)) ∧
    (∀ is is' : List Info, is.Perm is' → NoTie is →
      ∀ b : PackIndexBuilder, Equiv (b.addAll is) (b.addAll is')) ∧
    ∀ x y : Info, x.blockID = y.blockID → x.timestampSeconds.toInt = y.timestampSeconds.toInt →
      x ≠ y → ((empty.add x).add y).get x.blockID ≠ ((empty.add y).add x).get x.blockID := by
  refine ⟨fun x y => ⟨fun h => ?_, fun h => ?_⟩, fun is is' hp hl b => addAll_perm hp hl b,
    fun x y hk hts hxy => add_tie_ne hk hts hxy⟩
  · by_contra hc
    push_neg at hc
    obtain ⟨hk, hts, hxy⟩ := hc
    exact add_tie_ne hk hts hxy (h empty x.blockID)
  · rcases h with h | h | rfl
    · exact add_add_comm (.inl h)
    · exact add_add_comm (.inr h)
    · exact fun _ => Equiv.refl _

/-- Two infos with one `BlockID` and one timestamp leave different maps in the two
orders: `Add` has no further tie-breaker. -/
theorem add_tie_order_dependent :
    ∃ x y : Info, ((empty.add x).add y).get x.blockID ≠ ((empty.add y).add x).get x.blockID :=
  let x : Info := ⟨[1], 10, 5, [112], 0, false, [], 1⟩
  ⟨x, { x with length := 20 }, by decide⟩

end PackIndexBuilder

end KopiaBlock.Builder
