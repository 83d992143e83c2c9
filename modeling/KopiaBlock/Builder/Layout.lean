import KopiaBlock.Builder.Output

/-!
# The index layout of the spec, and what `Build` writes

`readIndex` reads an index blob as section 4.1 of the spec lays it out: an
8-byte header (version, key length, entry length, entry count), then per entry
the key and a 20-byte body whose fields are split into timestamp, format
version and pack file name length, the pack file name's offset in the blob, the
tombstone bit and offset, and the length. It is written from the layout, not
from `Build`, and the round trip below compares the two.
-/

namespace KopiaBlock.Builder

open KopiaBlock.Go

/-- An index entry as the layout reads it. -/
structure IndexEntry where
  key : List UInt8
  timestampSeconds : Nat
  formatVersion : Nat
  packFile : List UInt8
  deleted : Bool
  packOffset : Nat
  packedLength : Nat
  deriving DecidableEq, Repr

/-- The header of an index blob. -/
structure IndexHeader where
  version : Nat
  keyLength : Nat
  entryLength : Nat
  entryCount : Nat
  deriving DecidableEq, Repr

/-- Reads the entry with key `key` and body `body` of the blob `blob`. -/
def readEntry (blob key body : List UInt8) : IndexEntry :=
  let timestampAndFlags := beNat (body.take 8)
  let packFileOffset := beNat ((body.drop 8).take 4)
  let packedOffset := beNat ((body.drop 12).take 4)
  { key
    timestampSeconds := timestampAndFlags / 2 ^ 16
    formatVersion := timestampAndFlags / 2 ^ 8 % 2 ^ 8
    packFile := (blob.drop packFileOffset).take (timestampAndFlags % 2 ^ 8)
    deleted := decide (2 ^ 31 ≤ packedOffset)
    packOffset := packedOffset % 2 ^ 31
    packedLength := beNat ((body.drop 16).take 4) }

/-- Reads `n` entries of key length `k` and body length `e` from `bytes`. -/
def readEntries (blob : List UInt8) (k e : Nat) : Nat → List UInt8 → List IndexEntry
  | 0, _ => []
  | n + 1, bytes =>
    readEntry blob (bytes.take k) ((bytes.drop k).take e) :: readEntries blob k e n (bytes.drop (k + e))

/-- Reads the header of a blob. -/
def readHeader (blob : List UInt8) : IndexHeader :=
  ⟨beNat (blob.take 1), beNat ((blob.drop 1).take 1), beNat ((blob.drop 2).take 2),
    beNat ((blob.drop 4).take 4)⟩

/-- Reads an index blob; `none` when it is shorter than its header announces. -/
def readIndex (blob : List UInt8) : Option (IndexHeader × List IndexEntry) :=
  let h := readHeader blob
  if 8 + h.entryCount * (h.keyLength + h.entryLength) ≤ blob.length then
    some (h, readEntries blob h.keyLength h.entryLength h.entryCount (blob.drop 8))
  else none

section

variable (contentIDToBytes : List UInt8 → List UInt8)

/-- The entry an info should read back as. -/
def Info.asEntry (it : Info) : IndexEntry :=
  ⟨contentIDToBytes it.blockID, it.timestampSeconds.toNat, it.formatVersion.toNat, it.packFile,
    it.deleted, it.packOffset.toNat, it.length.toNat⟩

/-- The conditions under which an info fits the layout with key length `k`. -/
structure Representable (k : Nat) (it : Info) : Prop where
  packFile_ne : it.packFile ≠ []
  payload_nil : it.payload = []
  key_length : (contentIDToBytes it.blockID).length = k
  packFile_length : it.packFile.length ≤ 255
  timestamp_nonneg : 0 ≤ it.timestampSeconds.toInt
  timestamp_lt : it.timestampSeconds.toInt < 2 ^ 48
  packOffset_lt : it.packOffset.toNat < 2 ^ 31

end

@[simp] theorem length_entryBytes (it : Info) (layout : IndexLayout) :
    (entryBytes it layout).length = 20 := by
  simp [entryBytes]

@[simp] theorem length_header (layout : IndexLayout) : (header layout).length = 8 := by
  simp [header]

theorem toNat_timestampSeconds {it : Info} (h₀ : 0 ≤ it.timestampSeconds.toInt)
    (h₁ : it.timestampSeconds.toInt < 2 ^ 48) : it.timestampSeconds.toNat < 2 ^ 48 := by
  rw [BitVec.toInt_eq_toNat_cond] at h₀ h₁
  split_ifs at h₀ h₁ <;> omega

/-- The packed `timestampAndFlags` word. -/
theorem toNat_timestampAndFlags (it : Info) (hts : it.timestampSeconds.toNat < 2 ^ 48)
    (hlen : it.packFile.length < 2 ^ 8) :
    (timestampAndFlags it).toNat =
      (it.timestampSeconds.toNat * 2 ^ 8 + it.formatVersion.toNat) * 2 ^ 8 + it.packFile.length := by
  have hfv : it.formatVersion.toNat < 2 ^ 8 := it.formatVersion.toNat_lt_size
  show ((it.timestampSeconds.toNat <<< 16) % 2 ^ 64 ||| (it.formatVersion.toNat <<< 8) % 2 ^ 64) |||
    it.packFile.length % 2 ^ 64 = _
  simp only [Nat.shiftLeft_eq]
  rw [Nat.mod_eq_of_lt (by omega), Nat.mod_eq_of_lt (by omega), Nat.mod_eq_of_lt (by omega),
    show it.timestampSeconds.toNat * 2 ^ 16 = it.timestampSeconds.toNat * 2 ^ 8 * 2 ^ 8 by omega,
    or_mul_two_pow, mul_two_pow_or _ hfv, mul_two_pow_or _ hlen]

/-- The packed offset word of an entry. -/
theorem toNat_packedOffset (it : Info) (h : it.packOffset.toNat < 2 ^ 31) :
    (packedOffset it).toNat = (if it.deleted then 2 ^ 31 else 0) + it.packOffset.toNat := by
  unfold packedOffset
  split_ifs
  · show it.packOffset.toNat ||| 2 ^ 31 = _
    rw [Nat.lor_comm, ← Nat.one_mul (2 ^ 31), mul_two_pow_or _ h]
  · simp

/-- The four fields of a 20-byte entry body. -/
private theorem body_fields {A B C D : List UInt8} (hA : A.length = 8) (hB : B.length = 4)
    (hC : C.length = 4) (hD : D.length = 4) :
    (A ++ B ++ C ++ D).take 8 = A ∧ ((A ++ B ++ C ++ D).drop 8).take 4 = B ∧
      ((A ++ B ++ C ++ D).drop 12).take 4 = C ∧ ((A ++ B ++ C ++ D).drop 16).take 4 = D := by
  simp only [List.append_assoc]
  refine ⟨List.take_left' hA, ?_, ?_, ?_⟩
  · rw [List.drop_left' hA, List.take_left' hB]
  · rw [show 12 = A.length + B.length by omega, ← List.drop_drop, List.drop_left, List.drop_left,
      List.take_left' hC]
  · rw [show 16 = A.length + B.length + C.length by omega, ← List.drop_drop, ← List.drop_drop,
      List.drop_left, List.drop_left, List.drop_left, List.take_of_length_le (by omega)]

/-- The body `formatEntry` writes reads back as the info it was written from,
given where the blob spells the pack file name. -/
theorem readEntry_entryBytes (contentIDToBytes : List UInt8 → List UInt8) {k : Nat}
    {blob : List UInt8} {it : Info} {layout : IndexLayout}
    (hrep : Representable contentIDToBytes k it)
    (hspell : (blob.drop (layout.extraDataOffset + (layout.packFileOffsets it.packFile).getD 0).toNat).take
      it.packFile.length = it.packFile) :
    readEntry blob (contentIDToBytes it.blockID) (entryBytes it layout) =
      Info.asEntry contentIDToBytes it := by
  have hts := toNat_timestampSeconds hrep.timestamp_nonneg hrep.timestamp_lt
  have htf := toNat_timestampAndFlags it hts (by have := hrep.packFile_length; omega)
  have hpo := toNat_packedOffset it hrep.packOffset_lt
  have hfv : it.formatVersion.toNat < 2 ^ 8 := it.formatVersion.toNat_lt_size
  have hlen : it.packFile.length % 2 ^ 8 = it.packFile.length := by
    have := hrep.packFile_length; omega
  obtain ⟨h₁, h₂, h₃, h₄⟩ := body_fields (length_putUint64 (timestampAndFlags it))
    (length_putUint32 (layout.extraDataOffset + (layout.packFileOffsets it.packFile).getD 0))
    (length_putUint32 (packedOffset it)) (length_putUint32 it.length)
  simp only [readEntry, entryBytes, h₁, h₂, h₃, h₄, beNat_putUint64, beNat_putUint32, htf, hpo,
    Info.asEntry, IndexEntry.mk.injEq]
  refine ⟨trivial, by omega, by omega, by rwa [Nat.add_mod, Nat.mul_mod_left, Nat.zero_add, Nat.mod_mod, hlen],
    ?_, ?_, trivial⟩ <;> have := hrep.packOffset_lt <;> cases it.deleted <;> simp <;> omega

/-- The header fields, read back. -/
theorem readHeader_header (layout : IndexLayout) (rest : List UInt8) :
    readHeader (header layout ++ rest) =
      ⟨1, (layout.keyLength % 256).toNat, (layout.entryLength % 65536).toNat,
        (layout.entryCount % 2 ^ 32 : Int).toNat⟩ := by
  have h₂ := length_putUint16 (uint16OfInt layout.entryLength)
  have h₄ := length_putUint32 (uint32OfInt layout.entryCount)
  have e : header layout ++ rest = [1, byteOfInt layout.keyLength] ++
      (putUint16 (uint16OfInt layout.entryLength) ++ (putUint32 (uint32OfInt layout.entryCount) ++ rest)) := by
    simp [header]
  have d₂ : ([1, byteOfInt layout.keyLength] ++ (putUint16 (uint16OfInt layout.entryLength) ++
      (putUint32 (uint32OfInt layout.entryCount) ++ rest))).drop 2 =
      putUint16 (uint16OfInt layout.entryLength) ++ (putUint32 (uint32OfInt layout.entryCount) ++ rest) :=
    List.drop_left' rfl
  have d₄ : ([1, byteOfInt layout.keyLength] ++ (putUint16 (uint16OfInt layout.entryLength) ++
      (putUint32 (uint32OfInt layout.entryCount) ++ rest))).drop 4 =
      putUint32 (uint32OfInt layout.entryCount) ++ rest := by
    rw [← List.append_assoc]; exact List.drop_left' (by simp [h₂])
  simp only [readHeader, e, IndexHeader.mk.injEq]
  refine ⟨rfl, by simp [beNat, toNat_byteOfInt], ?_, ?_⟩
  · rw [d₂, List.take_left' h₂, beNat_putUint16, toNat_uint16OfInt]
  · rw [d₄, List.take_left' h₄, beNat_putUint32, toNat_uint32OfInt]

theorem length_entryWrites_flatten (contentIDToBytes : List UInt8 → List UInt8) {k : Nat}
    {layout : IndexLayout} {l : List Info}
    (hk : ∀ it ∈ l, (contentIDToBytes it.blockID).length = k) :
    (entryWrites contentIDToBytes layout l).flatten.length = l.length * (k + 20) := by
  induction l with
  | nil => simp [entryWrites]
  | cons it l ih =>
    simp only [entryWrites, List.flatMap_cons, List.flatten_append, List.length_append] at ih ⊢
    simp [ih (fun x hx => hk x (.tail _ hx)), hk it (.head _)]
    ring

/-- The keys and entries `Build` writes read back as the infos, in order. -/
theorem readEntries_entryWrites (contentIDToBytes : List UInt8 → List UInt8) {k : Nat}
    {blob : List UInt8} {layout : IndexLayout} {l : List Info} (rest : List UInt8)
    (hrep : ∀ it ∈ l, Representable contentIDToBytes k it)
    (hspell : ∀ it ∈ l, (blob.drop (layout.extraDataOffset +
      (layout.packFileOffsets it.packFile).getD 0).toNat).take it.packFile.length = it.packFile) :
    readEntries blob k 20 l.length ((entryWrites contentIDToBytes layout l).flatten ++ rest) =
      l.map (Info.asEntry contentIDToBytes) := by
  induction l with
  | nil => rfl
  | cons it l ih =>
    have hkey := (hrep it (.head _)).key_length
    have e : (entryWrites contentIDToBytes layout (it :: l)).flatten ++ rest =
        contentIDToBytes it.blockID ++ (entryBytes it layout ++
          ((entryWrites contentIDToBytes layout l).flatten ++ rest)) := by
      simp [entryWrites]
    rw [List.length_cons, readEntries, e, List.take_left' hkey, List.drop_left' hkey,
      List.take_left' (length_entryBytes it layout), ← hkey, ← List.drop_drop, List.drop_left,
      List.drop_left' (length_entryBytes it layout), List.map_cons, hkey,
      readEntry_entryBytes contentIDToBytes (hrep it (.head _)) (hspell it (.head _)),
      ih (fun x hx => hrep x (.tail _ hx)) (fun x hx => hspell x (.tail _ hx))]

section

variable (contentIDToBytes : List UInt8 → List UInt8)

theorem firstKeyLength_of_keys {k : Nat} {l : List Info}
    (hk : ∀ it ∈ l, (contentIDToBytes it.blockID).length = k) :
    firstKeyLength contentIDToBytes l = if l = [] then -1 else (k : Int) := by
  cases l with
  | nil => rfl
  | cons it l => simp [firstKeyLength, hk it (.head _)]

/-- The header and the entries fill the first `8 + |l| * (k + 20)` bytes. -/
theorem length_header_entryWrites {k : Nat} {layout : IndexLayout} {l : List Info}
    (hk : ∀ it ∈ l, (contentIDToBytes it.blockID).length = k) :
    (header layout ++ (entryWrites contentIDToBytes layout l).flatten).length = 8 + l.length * (k + 20) := by
  rw [List.length_append, length_header, length_entryWrites_flatten contentIDToBytes hk]

/-- Where the layout says an entry's pack file name starts, the index spells it. -/
theorem indexBytes_spells_packFile {k : Nat} {l : List Info}
    (hk : ∀ it ∈ l, (contentIDToBytes it.blockID).length = k)
    (hsize : 8 + l.length * (k + 20) + (distinctPackFiles l).flatten.length < 2 ^ 32)
    {it : Info} (hit : it ∈ l) (hne : it.packFile ≠ []) :
    ((indexBytes contentIDToBytes l).drop ((expectedLayout contentIDToBytes l).extraDataOffset +
      ((expectedLayout contentIDToBytes l).packFileOffsets it.packFile).getD 0).toNat).take
        it.packFile.length = it.packFile := by
  have hmem : it.packFile ∈ distinctPackFiles l := mem_distinctPackFiles.mpr ⟨hne, it, hit, rfl⟩
  obtain ⟨o, ho⟩ := Option.ne_none_iff_exists'.mp (mt offsetOf_eq_none.mp (not_not.mpr hmem))
  obtain ⟨hle, hspell⟩ := offsetOf_spells ho
  have hpos : 0 < it.packFile.length := List.length_pos.mpr hne
  have hcast : (8 + (l.length : Int) * ((k : Int) + 20)) = ((8 + l.length * (k + 20) : Nat) : Int) := by
    push_cast; ring
  have hoff : ((expectedLayout contentIDToBytes l).extraDataOffset +
      ((expectedLayout contentIDToBytes l).packFileOffsets it.packFile).getD 0).toNat =
        (header (expectedLayout contentIDToBytes l) ++
          (entryWrites contentIDToBytes (expectedLayout contentIDToBytes l) l).flatten).length + o := by
    rw [length_header_entryWrites contentIDToBytes hk]
    simp only [expectedLayout, ho, Option.map_some', Option.getD_some,
      firstKeyLength_of_keys contentIDToBytes hk, List.ne_nil_of_mem hit, if_false, hcast]
    show ((uint32OfInt _).toNat + o % 2 ^ 32) % 2 ^ 32 = _
    rw [toNat_uint32OfInt]
    omega
  rw [hoff, indexBytes, List.drop_append, hspell]

/-- **Round trip.** The index `Build` writes for infos that fit the layout reads
back, under the layout of the spec, as its header and the infos in order. -/
theorem readIndex_indexBytes {k : Nat} {l : List Info}
    (hrep : ∀ it ∈ l, Representable contentIDToBytes k it) (hk : k < 256)
    (hsize : 8 + l.length * (k + 20) + (distinctPackFiles l).flatten.length < 2 ^ 32) :
    readIndex (indexBytes contentIDToBytes l) =
      some (⟨1, if l = [] then 255 else k, 20, l.length⟩, l.map (Info.asEntry contentIDToBytes)) := by
  have hkeys : ∀ it ∈ l, (contentIDToBytes it.blockID).length = k := fun it h => (hrep it h).key_length
  have e : indexBytes contentIDToBytes l = header (expectedLayout contentIDToBytes l) ++
      ((entryWrites contentIDToBytes (expectedLayout contentIDToBytes l) l).flatten ++
        (distinctPackFiles l).flatten) := List.append_assoc _ _ _
  have hlen : (indexBytes contentIDToBytes l).length =
      8 + l.length * (k + 20) + (distinctPackFiles l).flatten.length := by
    rw [indexBytes, List.length_append, length_header_entryWrites contentIDToBytes hkeys]
  have hcount : l.length < 2 ^ 32 := by
    have : l.length ≤ l.length * (k + 20) := Nat.le_mul_of_pos_right _ (by omega)
    omega
  have hhdr : readHeader (indexBytes contentIDToBytes l) = ⟨1, if l = [] then 255 else k, 20, l.length⟩ := by
    rw [e, readHeader_header]
    simp only [expectedLayout, firstKeyLength_of_keys contentIDToBytes hkeys, IndexHeader.mk.injEq]
    refine ⟨trivial, ?_, rfl, by omega⟩
    split_ifs <;> omega
  simp only [readIndex, hhdr]
  by_cases hl : l = []
  · subst hl
    rfl
  · have hfit : 8 + l.length * (k + 20) ≤ (indexBytes contentIDToBytes l).length := by omega
    have hdrop : (indexBytes contentIDToBytes l).drop 8 =
        (entryWrites contentIDToBytes (expectedLayout contentIDToBytes l) l).flatten ++
          (distinctPackFiles l).flatten := by
      rw [e]; exact List.drop_left' (length_header _)
    simp only [hl, if_false, if_pos hfit, hdrop]
    rw [readEntries_entryWrites contentIDToBytes _ hrep fun it h =>
      indexBytes_spells_packFile contentIDToBytes hkeys hsize h (hrep it h).packFile_ne]

end

end KopiaBlock.Builder
