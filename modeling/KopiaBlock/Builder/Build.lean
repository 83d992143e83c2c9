import KopiaBlock.Go.BufWriter
import KopiaBlock.Builder.SortedBlocks

/-!
# `packIndexBuilder.Build`

`Build` takes the sorted infos, lets `prepareExtraData` collect the distinct pack
file names and fill in the layout, and writes through a `bufio.Writer` the
8-byte header, one key and 20-byte entry per info, and the extra data, then
flushes. The destination accepts every write, so the only ways out are the two
errors of `writeEntry` and the panic of `prepareExtraData`. What the output has
received at that point is what the new buffered writer has passed on, or, when
`bufio.NewWriter` returned the output itself, everything written
(`Output.received`).

`contentIDToBytes` is declared outside src/ and is a parameter throughout.
-/

namespace KopiaBlock.Builder

open KopiaBlock.Go

/-- `indexLayout`. The map `packFileOffsets` is only ever looked up and assigned,
so it is kept as a function. -/
structure IndexLayout where
  packFileOffsets : List UInt8 → Option UInt32
  entryCount : Nat
  keyLength : Int
  entryLength : Int
  extraDataOffset : UInt32

/-- The errors `Build` returns over a destination that accepts every write. -/
inductive BuildError
  /-- `"unable to write entry: inconsistent key length: %v vs %v"` -/
  | inconsistentKeyLength (got : Nat) (want : Int)
  /-- `"unable to write entry: unable to format entry: empty pack block ID for %v"` -/
  | emptyPackBlockID (blockID : List UInt8)
  deriving DecidableEq, Repr

/-- How a call of `Build` ends. -/
inductive BuildResult
  /-- `Build` returns `nil`. -/
  | ok
  /-- `Build` returns an error. -/
  | error (e : BuildError)
  /-- `Build` panics with this message. -/
  | panic (msg : String)
  deriving DecidableEq, Repr

/-- A call of `Build`: how it ends, and the bytes its `output` has received. -/
structure BuildOutcome where
  result : BuildResult
  received : List UInt8
  deriving DecidableEq, Repr

section

variable (contentIDToBytes : List UInt8 → List UInt8)

/-- The layout `Build` starts from. -/
def initialLayout (allBlocks : List Info) : IndexLayout :=
  ⟨fun _ => none, allBlocks.length, -1, 20, 0⟩

/-- The state of `prepareExtraData`'s loop: the layout and the extra data so far. -/
structure ExtraData where
  layout : IndexLayout
  extraData : List UInt8

/-- The map assignment `layout.packFileOffsets[p] = off`. -/
def IndexLayout.assignOffset (layout : IndexLayout) (p : List UInt8) (off : UInt32) :
    IndexLayout :=
  { layout with packFileOffsets := fun q => if q = p then some off else layout.packFileOffsets q }

/-- One iteration of `prepareExtraData`'s loop, for the info at index `i`. -/
def prepareExtraDataStep (st : ExtraData) (i : Nat) (it : Info) : Except String ExtraData :=
  let layout := if i = 0 then { st.layout with keyLength := (contentIDToBytes it.blockID).length }
    else st.layout
  let st : ExtraData :=
    if it.packFile ≠ [] ∧ layout.packFileOffsets it.packFile = none then
      ⟨layout.assignOffset it.packFile (UInt32.ofNat st.extraData.length),
        st.extraData ++ it.packFile⟩
    else ⟨layout, st.extraData⟩
  if it.payload.length > 0 then .error "storing payloads in indexes is not supported"
  else .ok st

/-- The loop of `prepareExtraData`, from index `i` on. -/
def prepareExtraDataLoop : Nat → List Info → ExtraData → Except String ExtraData
  | _, [], st => .ok st
  | i, it :: rest, st => do
    let st ← prepareExtraDataStep contentIDToBytes st i it
    prepareExtraDataLoop (i + 1) rest st

/-- `prepareExtraData`: the filled-in layout and the extra data, or the panic. -/
def prepareExtraData (allBlocks : List Info) (layout : IndexLayout) :
    Except String (IndexLayout × List UInt8) := do
  let st ← prepareExtraDataLoop contentIDToBytes 0 allBlocks ⟨layout, []⟩
  let l := st.layout
  let extraDataOffset := uint32OfInt (8 + l.entryCount * (l.keyLength + l.entryLength))
  pure ({ l with extraDataOffset }, st.extraData)

/-- The 8-byte header. -/
def header (layout : IndexLayout) : List UInt8 :=
  [1, byteOfInt layout.keyLength] ++ putUint16 (uint16OfInt layout.entryLength) ++
    putUint32 (uint32OfInt layout.entryCount)

/-- `timestampAndFlags` of `formatEntry`: the timestamp shifted up 16 bits, the
format version and the pack file name's length or-ed in below it. -/
def timestampAndFlags (it : Info) : UInt64 :=
  let timestampAndFlags : UInt64 := (⟨it.timestampSeconds⟩ : UInt64) <<< 16
  let timestampAndFlags := timestampAndFlags ||| it.formatVersion.toUInt64 <<< 8
  timestampAndFlags ||| UInt64.ofNat it.packFile.length

/-- The word `formatEntry` puts in `entryPackedOffset`. -/
def packedOffset (it : Info) : UInt32 :=
  if it.deleted then it.packOffset ||| 0x80000000 else it.packOffset

/-- The 20 bytes `formatEntry` writes into `entry` once `it.PackFile` is known
to be non-empty. -/
def entryBytes (it : Info) (layout : IndexLayout) : List UInt8 :=
  putUint64 (timestampAndFlags it) ++
    putUint32 (layout.extraDataOffset + (layout.packFileOffsets it.packFile).getD 0) ++
    putUint32 (packedOffset it) ++ putUint32 it.length

/-- `formatEntry`. -/
def formatEntry (it : Info) (layout : IndexLayout) : Except BuildError (List UInt8) :=
  if it.packFile.length = 0 then .error (.emptyPackBlockID it.blockID)
  else .ok (entryBytes it layout)

/-- `writeEntry`: check the key length, format the entry, write key and entry. -/
def writeEntry (w : BufWriter) (it : Info) (layout : IndexLayout) : Except BuildError BufWriter :=
  let k := contentIDToBytes it.blockID
  if (k.length : Int) ≠ layout.keyLength then .error (.inconsistentKeyLength k.length layout.keyLength)
  else do
    let entry ← formatEntry it layout
    pure ((w.write k).write entry)

/-- The loop of `Build` over the sorted infos; an error comes with the writer as
it stood when the loop stopped. -/
def writeEntries (layout : IndexLayout) : List Info → BufWriter → Except (BuildError × BufWriter) BufWriter
  | [], w => .ok w
  | it :: rest, w =>
    match writeEntry contentIDToBytes w it layout with
    | .error e => .error (e, w)
    | .ok w' => writeEntries layout rest w'

/-- `Build(output)` on the infos `sortedBlocks` returned. -/
def buildSortedTo (output : Output) (allBlocks : List Info) : BuildOutcome :=
  match prepareExtraData contentIDToBytes allBlocks (initialLayout allBlocks) with
  | .error msg => ⟨.panic msg, []⟩
  | .ok (layout, extraData) =>
    match writeEntries contentIDToBytes layout allBlocks (BufWriter.new.write (header layout)) with
    | .error (e, w) => ⟨.error e, output.received w⟩
    | .ok w => ⟨.ok, output.received (w.write extraData).flush⟩

/-- `Build` on the infos `sortedBlocks` returned, writing to an output that
`bufio.NewWriter` wraps in a new writer. -/
def buildSorted (allBlocks : List Info) : BuildOutcome := buildSortedTo contentIDToBytes .wrapped allBlocks

/-- `packIndexBuilder.Build(output)`, on the computable result of `sortedBlocks`;
by `sortedBlocks_unique` every other result gives the same call. -/
def buildTo (output : Output) (b : PackIndexBuilder) : BuildOutcome :=
  buildSortedTo contentIDToBytes output (sortedBlocks b)

/-- `packIndexBuilder.Build` writing to an output that `bufio.NewWriter` wraps in
a new writer. -/
def build (b : PackIndexBuilder) : BuildOutcome := buildSorted contentIDToBytes (sortedBlocks b)

end

end KopiaBlock.Builder
