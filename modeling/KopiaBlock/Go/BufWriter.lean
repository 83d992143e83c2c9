import KopiaBlock.Go.Bytes

/-!
# `bufio.Writer` over a destination that accepts every write

`Build` writes the index through `bufio.NewWriter(output)`. Over a destination
that accepts every write, a `bufio.Writer` is two byte lists: what the
destination has received and what is still buffered. A write that does not fit
the free space of the 4096-byte buffer either goes straight to the destination
(empty buffer) or tops the buffer up and flushes it, after which the rest is
buffered or, when it alone exceeds the buffer, written through.

`Holds b written` is the invariant of every writer reached from `new`: what was
delivered followed by what is buffered is everything written, the buffer never
overflows, and the destination has received nothing exactly as long as no more
than a buffer's worth has been written.

`bufio.NewWriter` does not always make a new writer: when `output` already is a
`*bufio.Writer` whose buffer holds at least 4096 bytes it returns `output`
itself, which then takes every write at once (`Output`).
-/

namespace KopiaBlock.Go

/-- `bufio.defaultBufSize`. -/
def defaultBufSize : Nat := 4096

@[simp] theorem defaultBufSize_eq : defaultBufSize = 4096 := rfl

/-- A `bufio.Writer` whose destination accepts every write. -/
structure BufWriter where
  /-- Bytes the destination `io.Writer` has received. -/
  out : List UInt8
  /-- Bytes held in the buffer. -/
  buf : List UInt8
  deriving DecidableEq, Repr

namespace BufWriter

/-- `bufio.NewWriter`. -/
def new : BufWriter := ⟨[], []⟩

/-- `(*bufio.Writer).Available`. -/
def available (b : BufWriter) : Nat := defaultBufSize - b.buf.length

/-- `(*bufio.Writer).Write`. Over a destination that takes each write whole, the
loop `for len(p) > b.Available()` runs at most twice: a write into an empty
buffer goes straight through; otherwise the buffer is topped up and flushed and
the rest is buffered, or written through when it alone exceeds the buffer. -/
def write (b : BufWriter) (p : List UInt8) : BufWriter :=
  if p.length ≤ b.available then ⟨b.out, b.buf ++ p⟩
  else if b.buf = [] then ⟨b.out ++ p, []⟩
  else if (p.drop b.available).length ≤ defaultBufSize then
    ⟨b.out ++ b.buf ++ p.take b.available, p.drop b.available⟩
  else ⟨b.out ++ b.buf ++ p, []⟩

/-- `(*bufio.Writer).Flush`. -/
def flush (b : BufWriter) : BufWriter := ⟨b.out ++ b.buf, []⟩

/-- Everything written to the writer: what it passed on, then what it buffers. -/
def written (b : BufWriter) : List UInt8 := b.out ++ b.buf

/-- Several `Write` calls in turn. -/
def writeAll (b : BufWriter) (ps : List (List UInt8)) : BufWriter := ps.foldl write b

@[simp] theorem out_new : new.out = [] := rfl
@[simp] theorem buf_new : new.buf = [] := rfl
@[simp] theorem out_flush (b : BufWriter) : b.flush.out = b.out ++ b.buf := rfl
@[simp] theorem written_flush (b : BufWriter) : b.flush.written = b.out ++ b.buf := List.append_nil _
@[simp] theorem writeAll_nil (b : BufWriter) : b.writeAll [] = b := rfl
@[simp] theorem writeAll_cons (b : BufWriter) (p : List UInt8) (ps : List (List UInt8)) :
    b.writeAll (p :: ps) = (b.write p).writeAll ps := rfl
@[simp] theorem writeAll_append (b : BufWriter) (ps qs : List (List UInt8)) :
    b.writeAll (ps ++ qs) = (b.writeAll ps).writeAll qs := List.foldl_append _ _ _ _

/-- The invariant of a writer after `written` has gone through it. -/
structure Holds (b : BufWriter) (written : List UInt8) : Prop where
  split : b.out ++ b.buf = written
  buf_le : b.buf.length ≤ defaultBufSize
  out_nil_iff : b.out = [] ↔ written.length ≤ defaultBufSize

theorem holds_new : Holds new [] := ⟨rfl, by decide, by simp⟩

theorem out_prefix_write (b : BufWriter) (p : List UInt8) : b.out <+: (b.write p).out := by
  unfold write
  split_ifs <;> simp [List.append_assoc]

/-- Once the destination has received something, both sides of `out_nil_iff` are false. -/
private theorem nil_iff_of_overflow {out : List UInt8} {n : Nat} (hout : out ≠ [])
    (hn : 4096 < n) : out = [] ↔ n ≤ defaultBufSize :=
  iff_of_false hout (by simp; omega)

/-- One `Write` keeps the invariant. -/
theorem Holds.write {b : BufWriter} {written : List UInt8} (h : Holds b written)
    (p : List UInt8) : Holds (b.write p) (written ++ p) := by
  obtain ⟨out, buf⟩ := b
  obtain ⟨rfl, hle, hnil⟩ := h
  simp only [List.length_append] at hle hnil
  have hlen : (out ++ buf ++ p).length = out.length + buf.length + p.length := by
    simp [Nat.add_assoc]
  simp only [BufWriter.write, available, defaultBufSize_eq] at hle hnil ⊢
  split_ifs with h1 h2 h3
  · refine ⟨(List.append_assoc _ _ _).symm, by simp; omega, ?_⟩
    rw [hlen, defaultBufSize_eq]
    refine ⟨fun h0 => ?_, fun h0 => hnil.mpr (by omega)⟩
    obtain rfl : out = [] := h0
    simp at hnil ⊢
    omega
  · subst h2
    have hp : p ≠ [] := List.ne_nil_of_length_pos (by simp at h1; omega)
    exact ⟨by simp, by simp, nil_iff_of_overflow (by simp [hp]) (by simp at h1; omega)⟩
  · exact ⟨by simp [List.append_assoc], h3, nil_iff_of_overflow (by simp [h2]) (by omega)⟩
  · exact ⟨by simp, by simp, nil_iff_of_overflow (by simp [h2]) (by omega)⟩

theorem Holds.writeAll {b : BufWriter} {written : List UInt8} (h : Holds b written)
    (ps : List (List UInt8)) : Holds (b.writeAll ps) (written ++ ps.flatten) := by
  induction ps generalizing b written with
  | nil => simpa using h
  | cons p ps ih => simpa using ih (h.write p)

/-- After `Flush` the destination has received everything written. -/
theorem Holds.flush_out {b : BufWriter} {written : List UInt8} (h : Holds b written) :
    b.flush.out = written := h.split

end BufWriter

/-- The `output` handed to `bufio.NewWriter`. `NewWriterSize` returns `output`
itself when it already is a `*bufio.Writer` whose buffer holds at least
`defaultBufSize` bytes, and a new `Writer` over it otherwise. -/
inductive Output
  /-- Any other `io.Writer`: `NewWriter` wraps it in a new `Writer`. -/
  | wrapped
  /-- A `*bufio.Writer` with at least 4096 bytes of buffer: `NewWriter` returns it. -/
  | bufioWriter
  deriving DecidableEq, Repr

/-- What `output` has received from the writer `NewWriter(output)` returned,
once writes have brought a new `Writer` to `w`: what the new writer passed on,
or, when `NewWriter` returned `output` itself, every byte written to it. -/
def Output.received : Output → BufWriter → List UInt8
  | .wrapped, w => w.out
  | .bufioWriter, w => w.written

end KopiaBlock.Go
