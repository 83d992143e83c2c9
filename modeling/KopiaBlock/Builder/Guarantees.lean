import KopiaBlock.Builder.Add
import KopiaBlock.Builder.Layout

/-!
# What a call of `Build` guarantees

The results of the builder's modules, assembled over every run. A run is fixed
by the order in which `sortedBlocks` ranges over the map and the comparisons
`sort.Slice` makes; `SortedBlocks b l` says that `l` is what such a run sorts.

* Every run writes the same bytes; for every builder `Build` accepts, they are
  the header, the keys and entries, and the first-occurrence deduplication of
  the pack file names (`buildSorted_deterministic`).
* `Build` returns `nil` exactly when no info carries a payload, no pack file
  name is empty and all keys have one length; no field is range-checked
  (`build_ok_iff`).
* Infos that fit the layout read back, under the layout of the spec, as the
  builder in ascending key order (`readIndex_buildSorted`); an empty builder
  records key length 255, the byte of `-1`.
* An error comes at the first info failing the checks. It leaves in an output
  that `bufio.NewWriter` wraps what the new writer had already passed on, which
  is nothing only while the bytes before the failing info fit its buffer; an
  output that already is a large enough `*bufio.Writer` has received all of
  them (`build_error_received`).
-/

namespace KopiaBlock.Builder

open KopiaBlock.Go

section

variable (contentIDToBytes : List UInt8 → List UInt8)

theorem entryOK_iff_common_key_length (l : List Info) :
    (∀ it ∈ l, EntryOK contentIDToBytes (expectedLayout contentIDToBytes l) it) ↔
      (∀ it ∈ l, it.packFile ≠ []) ∧ ∃ k, ∀ it ∈ l, (contentIDToBytes it.blockID).length = k := by
  constructor
  · intro h
    refine ⟨fun it hit => (h it hit).2, (firstKeyLength contentIDToBytes l).toNat, fun it hit => ?_⟩
    have := (h it hit).1
    simp only [expectedLayout] at this
    omega
  · rintro ⟨hpf, k, hk⟩ it hit
    refine ⟨?_, hpf it hit⟩
    simp [expectedLayout, firstKeyLength_of_keys contentIDToBytes hk, List.ne_nil_of_mem hit, hk it hit]

/-- `Build` returns `nil` exactly when no info carries a payload or an empty pack
file name and all keys have one length. Nothing else is checked. -/
theorem build_ok_iff (b : PackIndexBuilder) :
    (build contentIDToBytes b).result = .ok ↔
      (∀ it ∈ b.infos, it.payload = [] ∧ it.packFile ≠ []) ∧
        ∃ k, ∀ it ∈ b.infos, (contentIDToBytes it.blockID).length = k := by
  have hp := (sortedBlocks_spec b).perm
  have hmem : ∀ {P : Info → Prop}, (∀ it ∈ sortedBlocks b, P it) ↔ ∀ it ∈ b.infos, P it :=
    fun {_} => ⟨fun h it hit => h it (hp.mem_iff.mpr hit), fun h it hit => h it (hp.mem_iff.mp hit)⟩
  constructor
  · intro h
    obtain ⟨hpay, hok⟩ := ok_conditions_of_buildSorted contentIDToBytes h
    obtain ⟨hpf, k, hk⟩ := (entryOK_iff_common_key_length contentIDToBytes _).mp hok
    exact ⟨fun it hit => ⟨hmem.mp hpay it hit, hmem.mp hpf it hit⟩, k, hmem.mp hk⟩
  · rintro ⟨hpf, k, hk⟩
    have hok := (entryOK_iff_common_key_length contentIDToBytes (sortedBlocks b)).mpr
      ⟨hmem.mpr fun it hit => (hpf it hit).2, k, hmem.mpr hk⟩
    rw [build, buildSorted_of_ok contentIDToBytes (hmem.mpr fun it hit => (hpf it hit).1) hok]

/-- A live info at pack offset `2^31` is written without complaint and reads
back as a tombstone at offset 0. -/
theorem live_entry_reads_as_tombstone :
    let it : Info := ⟨[7], 1, 0, [112], 0x80000000, false, [], 1⟩
    let b : PackIndexBuilder := ⟨[it], List.nodup_singleton _⟩
    (build id b).result = .ok ∧
      (readIndex (build id b).received).map (fun r => r.2.map fun e => (e.deleted, e.packOffset)) =
        some [(true, 0)] := by
  decide

/-- **What an error leaves in the output.** When `Build` returns an error, the
sorted infos split at the first one failing `writeEntry`'s checks, all infos
before it passing them. An output that `bufio.NewWriter` wraps has received a
prefix of the header and of the keys and entries before the failing info, and
nothing exactly when these fit the 4096-byte buffer. An output that already is
a large enough `*bufio.Writer` gets the same error and has received all of them. -/
theorem build_error_received (b : PackIndexBuilder) {e : BuildError}
    (h : (build contentIDToBytes b).result = .error e) :
    ∃ pre it post, sortedBlocks b = pre ++ it :: post ∧
      (∀ x ∈ pre, EntryOK contentIDToBytes (expectedLayout contentIDToBytes (sortedBlocks b)) x) ∧
      ¬ EntryOK contentIDToBytes (expectedLayout contentIDToBytes (sortedBlocks b)) it ∧
      (build contentIDToBytes b).received <+: header (expectedLayout contentIDToBytes (sortedBlocks b)) ++
        (entryWrites contentIDToBytes (expectedLayout contentIDToBytes (sortedBlocks b)) pre).flatten ∧
      ((build contentIDToBytes b).received = [] ↔
        8 + pre.length * ((firstKeyLength contentIDToBytes (sortedBlocks b)).toNat + 20) ≤ defaultBufSize) ∧
      buildTo contentIDToBytes .bufioWriter b =
        ⟨.error e, header (expectedLayout contentIDToBytes (sortedBlocks b)) ++
          (entryWrites contentIDToBytes (expectedLayout contentIDToBytes (sortedBlocks b)) pre).flatten⟩ := by
  obtain ⟨pre, it, post, hl, hpre, hit, w, hw, hholds⟩ := buildSortedTo_eq_error contentIDToBytes h
  have hkeys : ∀ x ∈ pre, (contentIDToBytes x.blockID).length =
      (firstKeyLength contentIDToBytes (sortedBlocks b)).toNat := by
    intro x hx
    have := (hpre x hx).1
    simp only [expectedLayout] at this
    omega
  have hbuild : build contentIDToBytes b = ⟨.error e, w.out⟩ := hw .wrapped
  refine ⟨pre, it, post, hl, hpre, hit, hbuild ▸ ⟨w.buf, hholds.split⟩, ?_, ?_⟩
  · rw [hbuild, hholds.out_nil_iff, length_header_entryWrites contentIDToBytes hkeys]
  · rw [buildTo, hw .bufioWriter]
    exact congrArg (BuildOutcome.mk _) hholds.split

theorem build_error_received_third :
    let a : Info := ⟨[1], 3, 5, [112], 0, false, [], 1⟩
    let b : Info := ⟨[2], 4, 5, [112], 8, false, [], 1⟩
    let c : Info := ⟨[3], 0, 5, [], 0, false, [], 1⟩
    let bld := PackIndexBuilder.empty.addAll [c, a, b]
    let layout := expectedLayout id (sortedBlocks bld)
    ((build id bld).result = .error (.emptyPackBlockID [3]) ∧ (build id bld).received = [] ∧
      (buildTo id .bufioWriter bld).received.length = 8 + 2 * (1 + 20)) ∧
    ∃ pre it post, sortedBlocks bld = pre ++ it :: post ∧ (∀ x ∈ pre, EntryOK id layout x) ∧
      ¬ EntryOK id layout it ∧ (build id bld).received <+: header layout ++ (entryWrites id layout pre).flatten ∧
      ((build id bld).received = [] ↔
        8 + pre.length * ((firstKeyLength id (sortedBlocks bld)).toNat + 20) ≤ defaultBufSize) ∧
      buildTo id .bufioWriter bld = ⟨.error (.emptyPackBlockID [3]), header layout ++ (entryWrites id layout pre).flatten⟩ := by
  intro a b c bld layout
  refine ⟨⟨?h, by decide, by decide⟩, build_error_received id bld ?h⟩
  decide

/-- An error after more than 4096 bytes of valid header, key and entry leaves
part of the index in the output. -/
theorem error_after_partial_write :
    ∃ (b : PackIndexBuilder) (e : BuildError),
      (build id b).result = .error e ∧ (build id b).received ≠ [] := by
  let it₁ : Info := ⟨List.replicate 5000 0, 0, 0, [1], 0, false, [], 1⟩
  let it₂ : Info := ⟨List.replicate 5000 0 ++ [0], 0, 0, [], 0, false, [], 1⟩
  have hne : it₁.blockID ≠ it₂.blockID := fun h => by
    have := congrArg List.length h
    rw [List.length_append, List.length_replicate, List.length_singleton] at this
    omega
  let b : PackIndexBuilder :=
    ⟨[it₁, it₂], List.Nodup.cons (fun h => hne (List.mem_singleton.mp h)) (List.nodup_singleton _)⟩
  have hlt : blockLess it₁ it₂ := stringLess_append_right _ (List.cons_ne_nil _ _)
  have hs : SortedBlocks b [it₁, it₂] :=
    ⟨_, List.Perm.refl _, List.Perm.refl _,
      List.chain'_pair.mpr fun h => stringLess_irrefl _ (stringLess_trans h hlt)⟩
  obtain ⟨e, w, hb, hw⟩ := @buildSorted_of_not_ok id [it₁] [] it₂
    (by rintro x (_ | ⟨_, _ | ⟨_, h⟩⟩) <;> first | rfl | cases h)
    (fun x hx => by obtain rfl := List.mem_singleton.mp hx; exact ⟨rfl, List.cons_ne_nil _ _⟩)
    (fun h => h.2 rfl)
  have hlen := @length_header_entryWrites id 5000 (expectedLayout id ([it₁] ++ [it₂])) [it₁]
    (fun x hx => by obtain rfl := List.mem_singleton.mp hx; exact List.length_replicate _ _)
  have hbuild : build id b = ⟨.error e, w.out⟩ := by
    rw [build, ← sortedBlocks_unique hs]
    exact hb
  refine ⟨b, e, by rw [hbuild], fun h => ?_⟩
  rw [hbuild] at h
  have := hw.out_nil_iff.mp h
  rw [hlen] at this
  simp at this

/-- **Every run writes the same bytes.** Any two runs of `Build` on one builder
end alike and write the same bytes. For every builder `Build` accepts (no
payload, no empty pack file name, one key length), a run returns `nil` and
writes the header, the keys and entries, and then each distinct non-empty pack
file name once, in order of first occurrence among the sorted infos. -/
theorem buildSorted_deterministic {b : PackIndexBuilder} {l₁ l₂ : List Info}
    (h₁ : SortedBlocks b l₁) (h₂ : SortedBlocks b l₂) :
    buildSorted contentIDToBytes l₁ = buildSorted contentIDToBytes l₂ ∧
      (((∀ it ∈ b.infos, it.payload = [] ∧ it.packFile ≠ []) ∧
          ∃ k, ∀ it ∈ b.infos, (contentIDToBytes it.blockID).length = k) →
        buildSorted contentIDToBytes l₁ = ⟨.ok, header (expectedLayout contentIDToBytes l₁) ++
          (entryWrites contentIDToBytes (expectedLayout contentIDToBytes l₁) l₁).flatten ++
          (((l₁.map Info.packFile).filter fun p => p ≠ []).eraseDups).flatten⟩) ∧
      (distinctPackFiles l₁).Nodup ∧
      ∀ p, p ∈ distinctPackFiles l₁ ↔ p ≠ [] ∧ ∃ it ∈ b.infos, it.packFile = p := by
  have hmem : ∀ {P : Info → Prop}, (∀ it ∈ b.infos, P it) → ∀ it ∈ l₁, P it :=
    fun h it hit => h it (h₁.perm.subset hit)
  refine ⟨by rw [sortedBlocks_unique h₁, sortedBlocks_unique h₂], fun ⟨hpf, k, hk⟩ => ?_,
    nodup_distinctPackFiles l₁, fun p => ?_⟩
  · have hok := (entryOK_iff_common_key_length contentIDToBytes l₁).mpr
      ⟨hmem fun it hit => (hpf it hit).2, k, hmem hk⟩
    exact buildSorted_of_ok contentIDToBytes (hmem fun it hit => (hpf it hit).1) hok
  · simp only [mem_distinctPackFiles, h₁.perm.mem_iff]

theorem buildSorted_deterministic_three :
    let a : Info := ⟨[1], 3, 1000, [112], 64, false, [], 1⟩
    let b : Info := ⟨[2], 7, 1001, [113, 113], 0, true, [], 2⟩
    let c : Info := ⟨[3], 9, 1002, [112], 128, false, [], 1⟩
    let bld := PackIndexBuilder.empty.addAll [c, a, b]
    let l := sortedBlocks bld
    (SortedBlocks bld l ∧ SortedBlocks bld [a, b, c]) ∧
    (buildSorted id l = buildSorted id [a, b, c] ∧
      (((∀ it ∈ bld.infos, it.payload = [] ∧ it.packFile ≠ []) ∧
          ∃ k, ∀ it ∈ bld.infos, (id it.blockID).length = k) →
        buildSorted id l = ⟨.ok, header (expectedLayout id l) ++ (entryWrites id (expectedLayout id l) l).flatten ++
          (((l.map Info.packFile).filter fun p => p ≠ []).eraseDups).flatten⟩) ∧
      (distinctPackFiles l).Nodup ∧
      ∀ p, p ∈ distinctPackFiles l ↔ p ≠ [] ∧ ∃ it ∈ bld.infos, it.packFile = p) := by
  intro a b c bld l
  refine ⟨⟨?h₁, ?h₂⟩, buildSorted_deterministic id ?h₁ ?h₂⟩
  case h₁ => exact sortedBlocks_spec bld
  case h₂ => exact ⟨[b, a, c], by decide, by decide, List.chain'_cons.mpr ⟨by decide, List.chain'_pair.mpr (by decide)⟩⟩

/-- `Build` reads the builder only through its map. -/
theorem build_eq_of_equiv {b₁ b₂ : PackIndexBuilder} (h : b₁.Equiv b₂) :
    build contentIDToBytes b₁ = build contentIDToBytes b₂ := by
  rw [build, build, sortedBlocks_eq_of_perm h.perm]

/-- **The index does not depend on the order of the `Add`s.** Adding a list of
infos in which no two different infos share both `BlockID` and timestamp, in any
order, to any builder, makes `Build` end alike and write the same bytes. -/
theorem build_addAll_perm {is is' : List Info} (hp : is.Perm is') (hl : PackIndexBuilder.NoTie is)
    (b : PackIndexBuilder) : build contentIDToBytes (b.addAll is) = build contentIDToBytes (b.addAll is') :=
  build_eq_of_equiv contentIDToBytes (PackIndexBuilder.addAll_perm hp hl b)

theorem build_addAll_perm_pair :
    let x : Info := ⟨[1], 3, 5, [112], 0, false, [], 1⟩
    let y : Info := ⟨[2], 4, 5, [113], 8, true, [], 1⟩
    ([x, y].Perm [y, x] ∧ PackIndexBuilder.NoTie [x, y]) ∧
      build id (PackIndexBuilder.empty.addAll [x, y]) = build id (PackIndexBuilder.empty.addAll [y, x]) := by
  intro x y
  refine ⟨⟨?hp, ?hl⟩, build_addAll_perm id ?hp ?hl _⟩
  case hp => exact .swap _ _ _
  case hl => unfold PackIndexBuilder.NoTie; decide

/-- With no payload, `prepareExtraData` does not panic, so neither does `Build`. -/
theorem buildSorted_not_panic {l : List Info} (hp : ∀ it ∈ l, it.payload = []) (msg : String) :
    (buildSorted contentIDToBytes l).result ≠ .panic msg := by
  simp only [buildSorted, buildSortedTo, prepareExtraData_eq contentIDToBytes hp]
  split <;> simp

/-- **When `Build` panics.** `Build` panics exactly when some info carries a
payload, whatever else the infos hold, and then its output has received nothing. -/
theorem build_panic (b : PackIndexBuilder) :
    ((∃ msg, (build contentIDToBytes b).result = .panic msg) ↔ ∃ it ∈ b.infos, it.payload ≠ []) ∧
      ((∃ it ∈ b.infos, it.payload ≠ []) →
        build contentIDToBytes b = ⟨.panic "storing payloads in indexes is not supported", []⟩) := by
  have hmem := fun it => ((sortedBlocks_spec b).perm.mem_iff (a := it))
  have hpanic : (∃ it ∈ b.infos, it.payload ≠ []) →
      build contentIDToBytes b = ⟨.panic "storing payloads in indexes is not supported", []⟩ :=
    fun ⟨it, hit, hp⟩ => buildSorted_of_payload contentIDToBytes ⟨it, (hmem it).mpr hit, hp⟩
  refine ⟨⟨fun ⟨msg, h⟩ => ?_, fun h => ⟨_, by rw [hpanic h]⟩⟩, hpanic⟩
  by_contra hno
  push_neg at hno
  exact buildSorted_not_panic contentIDToBytes (fun it hit => hno it ((hmem it).mp hit)) msg h

end

end KopiaBlock.Builder
