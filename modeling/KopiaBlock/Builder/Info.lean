import KopiaBlock.Go.Bytes

/-!
# Block infos and the pack index builder

`packIndexBuilder` is a Go `map[string]*Info`. Its only writer is `Add`, which
stores each info under its own `BlockID`, so a builder is kept here as the list
of its infos with pairwise distinct `BlockID`s, an invariant the structure
carries. Lookups go through `get`; the list order is no part of the map, and
every statement about the map is made through `get` or up to permutation.

`Add` replaces the stored info when there is none or the new timestamp is not
smaller (`>=` on `int64`); `get_add` is its one-step specification.
-/

namespace KopiaBlock.Builder

open KopiaBlock.Go

/-- Modelled from the spec: `block.Info` is declared outside src/. The fields are
those `Add` and `Build` read, with the types the code gives them: `int64`
seconds, `uint32` offsets and lengths, a format-version byte, and Go strings and
byte slices as byte lists. -/
structure Info where
  blockID : List UInt8
  length : UInt32
  timestampSeconds : BitVec 64
  packFile : List UInt8
  packOffset : UInt32
  deleted : Bool
  payload : List UInt8
  formatVersion : UInt8
  deriving DecidableEq, Repr

/-- `packIndexBuilder`: the infos of the map, one per `BlockID`. -/
structure PackIndexBuilder where
  infos : List Info
  nodup : (infos.map Info.blockID).Nodup

namespace PackIndexBuilder

/-- The empty map, `packIndexBuilder{}`. -/
def empty : PackIndexBuilder := ⟨[], List.nodup_nil⟩

/-- Map lookup `b[k]`. -/
def get (b : PackIndexBuilder) (k : List UInt8) : Option Info :=
  b.infos.find? fun e => decide (e.blockID = k)

/-- Map assignment `b[i.BlockID] = &i`. -/
def set (b : PackIndexBuilder) (i : Info) : PackIndexBuilder where
  infos :=
    if (b.get i.blockID).isSome then b.infos.map fun e => if e.blockID = i.blockID then i else e
    else b.infos ++ [i]
  nodup := by
    split_ifs with h
    · have hk : ((b.infos.map fun e => if e.blockID = i.blockID then i else e).map Info.blockID)
          = b.infos.map Info.blockID := by
        simp only [List.map_map]
        congr 1
        funext e
        by_cases he : e.blockID = i.blockID <;> simp [he]
      exact hk ▸ b.nodup
    · have hi : i.blockID ∉ b.infos.map Info.blockID := by
        simpa [get, List.find?_eq_none] using h
      simpa [List.nodup_append, hi] using b.nodup

/-- `packIndexBuilder.Add`. -/
def add (b : PackIndexBuilder) (i : Info) : PackIndexBuilder :=
  if (b.get i.blockID).all fun old => i.timestampSeconds.toInt ≥ old.timestampSeconds.toInt then
    b.set i
  else b

/-- The builder after `Add`ing each info in turn to `b`. -/
def addAll (b : PackIndexBuilder) (is : List Info) : PackIndexBuilder := is.foldl add b

/-- Two builders hold the same map. -/
def Equiv (b₁ b₂ : PackIndexBuilder) : Prop := ∀ k, b₁.get k = b₂.get k

@[simp] theorem get_empty (k : List UInt8) : empty.get k = none := rfl

@[simp] theorem addAll_nil (b : PackIndexBuilder) : b.addAll [] = b := rfl

@[simp] theorem addAll_append_singleton (b : PackIndexBuilder) (is : List Info) (i : Info) :
    b.addAll (is ++ [i]) = (b.addAll is).add i := by
  simp [addAll]

theorem get_eq_some {b : PackIndexBuilder} {k : List UInt8} {x : Info} :
    b.get k = some x ↔ x ∈ b.infos ∧ x.blockID = k := by
  constructor
  · intro h
    exact ⟨List.mem_of_find?_eq_some h, by simpa using List.find?_some h⟩
  · rintro ⟨hx, rfl⟩
    have hs : (b.get x.blockID).isSome := by
      simpa [get, List.find?_isSome] using ⟨x, hx, rfl⟩
    obtain ⟨y, hy⟩ := Option.isSome_iff_exists.mp hs
    have ⟨hym, hyk⟩ : y ∈ b.infos ∧ y.blockID = x.blockID :=
      ⟨List.mem_of_find?_eq_some hy, by simpa using List.find?_some hy⟩
    have hxy : x = y := List.inj_on_of_nodup_map b.nodup hx hym hyk.symm
    rwa [← hxy] at hy

theorem get_eq_none {b : PackIndexBuilder} {k : List UInt8} :
    b.get k = none ↔ ∀ x ∈ b.infos, x.blockID ≠ k := by
  simp [get, List.find?_eq_none]

/-- The one-step specification of map assignment. -/
theorem get_set (b : PackIndexBuilder) (i : Info) (k : List UInt8) :
    (b.set i).get k = if i.blockID = k then some i else b.get k := by
  by_cases hk : i.blockID = k
  · subst hk
    rw [if_pos rfl, get_eq_some]
    refine ⟨?_, rfl⟩
    simp only [set]
    split_ifs with h
    · obtain ⟨y, hy⟩ := Option.isSome_iff_exists.mp h
      obtain ⟨hym, hyk⟩ := get_eq_some.mp hy
      exact List.mem_map.mpr ⟨y, hym, by simp [hyk]⟩
    · simp
  · rw [if_neg hk]
    cases hb : b.get k with
    | none =>
      rw [get_eq_none] at hb ⊢
      simp only [set]
      split_ifs
      · simp only [List.mem_map]
        rintro _ ⟨e, he, rfl⟩
        split_ifs <;> [exact hk; exact hb e he]
      · simp only [List.mem_append, List.mem_singleton]
        rintro x (hx | rfl)
        exacts [hb x hx, hk]
    | some x =>
      obtain ⟨hx, rfl⟩ := get_eq_some.mp hb
      have hxi : x.blockID ≠ i.blockID := Ne.symm hk
      rw [get_eq_some]
      refine ⟨?_, rfl⟩
      simp only [set]
      split_ifs
      · exact List.mem_map.mpr ⟨x, hx, by simp [hxi]⟩
      · simp [hx]

/-- The one-step specification of `Add`. -/
theorem get_add (b : PackIndexBuilder) (i : Info) (k : List UInt8) :
    (b.add i).get k =
      if i.blockID = k ∧ (b.get k).all fun old =>
          i.timestampSeconds.toInt ≥ old.timestampSeconds.toInt then some i
      else b.get k := by
  unfold add
  by_cases hk : i.blockID = k
  · subst hk
    split_ifs <;> simp_all [get_set]
  · split_ifs <;> simp_all [get_set]

end PackIndexBuilder

end KopiaBlock.Builder
