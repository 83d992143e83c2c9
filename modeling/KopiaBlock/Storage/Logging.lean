import KopiaBlock.Cache.ExpireUnused

/-!
# The logging storage wrapper

`logging.NewWrapper` wraps a `storage.Storage`: each method calls the wrapped
storage, measures the time the call took, hands one line to a print function
and returns what the wrapped storage returned. The storage interface is given
by the calls the wrapper makes on it, over an explicit state of the wrapped
store; `ListBlocks` also reports the metadata it passed to the caller's
callback, since that is what the callback (and the wrapper's count) observes.
A printed line is kept as the print function called, its format and its
arguments: the text `printf` makes of them is the print function's business.
Clock readings are inputs, one at the start of a call and one when
`time.Since` is evaluated.

The wrapper is a pass-through (`run_fst`): over any sequence of calls it
returns the wrapped store's replies and leaves it in the wrapped store's
state. Its log has one line per call but `ConnectionInfo`, each to the sink and
with the prefix the options of `NewWrapper` set last (`newWrapper_printf`,
`newWrapper_logPrefix`), and never holds the bytes of a block of 20 bytes or
more.
-/

namespace KopiaBlock.Logging

open KopiaBlock.Cache (since)

/-- `storage.BlockMetadata`: the fields section 6 of the spec lists. -/
structure BlockMetadata where
  blockID : List UInt8
  length : Int
  timestamp : Int

/-- A `storage.Storage` over states `σ` of the store, with errors `ε` (`none`
is `nil`) and connection info `κ`. `listBlocks` returns the metadata it called
the callback with, in order. -/
structure Storage (σ ε κ : Type) where
  getBlock : σ → List UInt8 → Int → Int → (List UInt8 × Option ε) × σ
  putBlock : σ → List UInt8 → List UInt8 → Option ε × σ
  deleteBlock : σ → List UInt8 → Option ε × σ
  listBlocks : σ → List UInt8 → (BlockMetadata → Option ε) → (List BlockMetadata × Option ε) × σ
  close : σ → Option ε × σ
  connectionInfo : σ → κ

/-- The print function of a wrapper: `log.Debugf`, or one a caller gave `Output`. -/
inductive Sink (π : Type)
  | logDebugf
  | output (outputFunc : π)

/-- An argument handed to the print function. -/
inductive Arg (ε : Type)
  | str (s : List UInt8)
  | int (n : Int)
  | bytes (b : List UInt8)
  | err (e : Option ε)
  | dur (d : Int)

/-- One call of the print function. -/
structure Printed (π ε : Type) where
  sink : Sink π
  format : String
  args : List (Arg ε)

/-- `loggingStorage`; the field `prefix` is `logPrefix`. -/
structure LoggingStorage (σ ε κ π : Type) where
  base : Storage σ ε κ
  printf : Sink π
  logPrefix : String

variable {σ ε κ π : Type}

namespace LoggingStorage

variable (s : LoggingStorage σ ε κ π) (st : σ) (start now : Int)

/-- `s.printf(s.prefix+format, args...)`. -/
def printLine (format : String) (args : List (Arg ε)) : Printed π ε := ⟨s.printf, s.logPrefix ++ format, args⟩

/-- A printed line goes to the wrapper's sink and starts with its prefix. -/
def LineOf (p : Printed π ε) : Prop := p.sink = s.printf ∧ ∃ f, p.format = s.logPrefix ++ f

theorem lineOf_printLine (format : String) (args : List (Arg ε)) : s.LineOf (s.printLine format args) :=
  ⟨rfl, format, rfl⟩

/-- `(*loggingStorage).GetBlock`: a block shorter than 20 bytes is printed,
a longer one by its length. -/
def getBlock (id : List UInt8) (offset length : Int) : ((List UInt8 × Option ε) × σ) × Printed π ε :=
  let r := s.base.getBlock st id offset length
  let dt := since now start
  (r, if r.1.1.length < 20 then
      s.printLine "GetBlock(%q,%v,%v)=(%#v, %#v) took %v"
        [.str id, .int offset, .int length, .bytes r.1.1, .err r.1.2, .dur dt]
    else
      s.printLine "GetBlock(%q,%v,%v)=(\x7b%#v bytes\x7d, %#v) took %v"
        [.str id, .int offset, .int length, .int r.1.1.length, .err r.1.2, .dur dt])

/-- `(*loggingStorage).PutBlock`. -/
def putBlock (id data : List UInt8) : (Option ε × σ) × Printed π ε :=
  let r := s.base.putBlock st id data
  (r, s.printLine "PutBlock(%q,len=%v)=%#v took %v" [.str id, .int data.length, .err r.1, .dur (since now start)])

/-- `(*loggingStorage).DeleteBlock`. -/
def deleteBlock (id : List UInt8) : (Option ε × σ) × Printed π ε :=
  let r := s.base.deleteBlock st id
  (r, s.printLine "DeleteBlock(%q)=%#v took %v" [.str id, .err r.1, .dur (since now start)])

/-- `(*loggingStorage).ListBlocks`. The wrapper's callback counts its calls and
returns what `callback` returns, so the wrapped store sees `callback`, and the
count is the number of metadata it passed. -/
def listBlocks (idPrefix : List UInt8) (callback : BlockMetadata → Option ε) :
    ((List BlockMetadata × Option ε) × σ) × Printed π ε :=
  let r := s.base.listBlocks st idPrefix callback
  (r, s.printLine "ListBlocks(%q)=%v returned %v items and took %v"
    [.str idPrefix, .err r.1.2, .int r.1.1.length, .dur (since now start)])

/-- `(*loggingStorage).Close`. -/
def close : (Option ε × σ) × Printed π ε :=
  let r := s.base.close st
  (r, s.printLine "Close()=%#v took %v" [.err r.1, .dur (since now start)])

/-- `(*loggingStorage).ConnectionInfo`: forwarded, not logged. -/
def connectionInfo : κ := s.base.connectionInfo st

end LoggingStorage

/-- An option of `NewWrapper`. `Option` is a function on the unexported
`loggingStorage`, so the options a caller can build are `Output` and `Prefix`. -/
inductive WrapperOption (π : Type)
  | output (outputFunc : π)
  | setPrefix (p : String)

/-- What an option does to the wrapper. -/
def WrapperOption.apply (s : LoggingStorage σ ε κ π) : WrapperOption π → LoggingStorage σ ε κ π
  | .output outputFunc => { s with printf := .output outputFunc }
  | .setPrefix p => { s with logPrefix := p }

/-- The print function an option sets, if it is `Output`. -/
def WrapperOption.outputOf : WrapperOption π → Option (Sink π)
  | .output outputFunc => some (.output outputFunc)
  | .setPrefix _ => none

/-- The prefix an option sets, if it is `Prefix`. -/
def WrapperOption.prefixOf : WrapperOption π → Option String
  | .output _ => none
  | .setPrefix p => some p

/-- `logging.NewWrapper`: `log.Debugf` and no prefix, then the options in order. -/
def newWrapper (wrapped : Storage σ ε κ) (options : List (WrapperOption π)) : LoggingStorage σ ε κ π :=
  options.foldl WrapperOption.apply ⟨wrapped, .logDebugf, ""⟩

theorem foldl_apply_printf (s : LoggingStorage σ ε κ π) (options : List (WrapperOption π)) :
    (options.foldl WrapperOption.apply s).printf =
      ((options.filterMap WrapperOption.outputOf).getLast?).getD s.printf := by
  induction options generalizing s with
  | nil => rfl
  | cons o os ih => cases o <;> simp [ih, WrapperOption.apply, WrapperOption.outputOf, List.getLast?_cons]

theorem foldl_apply_logPrefix (s : LoggingStorage σ ε κ π) (options : List (WrapperOption π)) :
    (options.foldl WrapperOption.apply s).logPrefix =
      ((options.filterMap WrapperOption.prefixOf).getLast?).getD s.logPrefix := by
  induction options generalizing s with
  | nil => rfl
  | cons o os ih => cases o <;> simp [ih, WrapperOption.apply, WrapperOption.prefixOf, List.getLast?_cons]

theorem foldl_apply_base (s : LoggingStorage σ ε κ π) (options : List (WrapperOption π)) :
    (options.foldl WrapperOption.apply s).base = s.base := by
  induction options generalizing s with
  | nil => rfl
  | cons o os ih => cases o <;> exact ih _

/-- The last `Output` option sets the print function; `log.Debugf` without one. -/
theorem newWrapper_printf (wrapped : Storage σ ε κ) (options : List (WrapperOption π)) :
    (newWrapper wrapped options).printf =
      ((options.filterMap WrapperOption.outputOf).getLast?).getD .logDebugf :=
  foldl_apply_printf _ options

/-- The last `Prefix` option sets the prefix; none without one. -/
theorem newWrapper_logPrefix (wrapped : Storage σ ε κ) (options : List (WrapperOption π)) :
    (newWrapper wrapped options).logPrefix = ((options.filterMap WrapperOption.prefixOf).getLast?).getD "" :=
  foldl_apply_logPrefix _ options

theorem newWrapper_base (wrapped : Storage σ ε κ) (options : List (WrapperOption π)) :
    (newWrapper wrapped options).base = wrapped :=
  foldl_apply_base _ options

/-! ## Runs of calls -/

/-- A call on the storage interface. -/
inductive Call (ε : Type)
  | getBlock (id : List UInt8) (offset length : Int)
  | putBlock (id data : List UInt8)
  | deleteBlock (id : List UInt8)
  | listBlocks (idPrefix : List UInt8) (callback : BlockMetadata → Option ε)
  | close
  | connectionInfo

/-- What a call returns to its caller. -/
inductive Reply (ε κ : Type)
  | block (data : List UInt8) (err : Option ε)
  | done (err : Option ε)
  | listed (calledBack : List BlockMetadata) (err : Option ε)
  | info (c : κ)

/-- The calls the wrapper logs: all but `ConnectionInfo`. -/
def Call.logged : Call ε → Bool
  | .connectionInfo => false
  | _ => true

/-- A call on a store. -/
def Storage.call (b : Storage σ ε κ) (st : σ) : Call ε → Reply ε κ × σ
  | .getBlock id offset length => let r := b.getBlock st id offset length; (.block r.1.1 r.1.2, r.2)
  | .putBlock id data => let r := b.putBlock st id data; (.done r.1, r.2)
  | .deleteBlock id => let r := b.deleteBlock st id; (.done r.1, r.2)
  | .listBlocks idPrefix callback => let r := b.listBlocks st idPrefix callback; (.listed r.1.1 r.1.2, r.2)
  | .close => let r := b.close st; (.done r.1, r.2)
  | .connectionInfo => (.info (b.connectionInfo st), st)

/-- A sequence of calls on a store. -/
def Storage.run (b : Storage σ ε κ) : σ → List (Call ε) → List (Reply ε κ) × σ
  | st, [] => ([], st)
  | st, c :: cs => let r := b.call st c; let rest := b.run r.2 cs; (r.1 :: rest.1, rest.2)

namespace LoggingStorage

variable (s : LoggingStorage σ ε κ π)

/-- A call on the wrapper, with the clock at its start and when `time.Since` is read. -/
def call (st : σ) : Call ε → Int → Int → (Reply ε κ × σ) × List (Printed π ε)
  | .getBlock id offset length, start, now =>
    let r := s.getBlock st start now id offset length; ((.block r.1.1.1 r.1.1.2, r.1.2), [r.2])
  | .putBlock id data, start, now => let r := s.putBlock st start now id data; ((.done r.1.1, r.1.2), [r.2])
  | .deleteBlock id, start, now => let r := s.deleteBlock st start now id; ((.done r.1.1, r.1.2), [r.2])
  | .listBlocks idPrefix callback, start, now =>
    let r := s.listBlocks st start now idPrefix callback; ((.listed r.1.1.1 r.1.1.2, r.1.2), [r.2])
  | .close, start, now => let r := s.close st start now; ((.done r.1.1, r.1.2), [r.2])
  | .connectionInfo, _, _ => ((.info (s.connectionInfo st), st), [])

/-- A sequence of calls on the wrapper: the replies, the store's last state,
and the lines printed. -/
def run : σ → List (Call ε × Int × Int) → (List (Reply ε κ) × σ) × List (Printed π ε)
  | st, [] => (([], st), [])
  | st, (c, start, now) :: cs =>
    let r := s.call st c start now
    let rest := run r.1.2 cs
    ((r.1.1 :: rest.1.1, rest.1.2), r.2 ++ rest.2)

/-- A printed line holds no block of 20 bytes or more. -/
def NoLongBlock (p : Printed π ε) : Prop := ∀ b, Arg.bytes b ∈ p.args → b.length < 20

theorem call_fst (st : σ) (c : Call ε) (start now : Int) : (s.call st c start now).1 = s.base.call st c := by
  cases c <;> rfl

theorem length_call_snd (st : σ) (c : Call ε) (start now : Int) :
    (s.call st c start now).2.length = if c.logged then 1 else 0 := by
  cases c <;> rfl

theorem call_snd_lines (st : σ) (c : Call ε) (start now : Int) :
    ∀ p ∈ (s.call st c start now).2, s.LineOf p ∧ NoLongBlock p := by
  cases c with
  | getBlock id offset length =>
    simp only [call, getBlock, List.mem_singleton]
    rintro p rfl
    split_ifs with h
    · exact ⟨s.lineOf_printLine _ _, by simp [NoLongBlock, printLine, h]⟩
    · exact ⟨s.lineOf_printLine _ _, by simp [NoLongBlock, printLine]⟩
  | connectionInfo => simp [call]
  | _ =>
    simp only [call, List.mem_singleton]
    rintro p rfl
    exact ⟨s.lineOf_printLine _ _, by simp [NoLongBlock, printLine, putBlock, deleteBlock, listBlocks, close]⟩

/-- **Pass-through.** Over any sequence of calls the wrapper returns what the
wrapped store returns and leaves it in the same state. -/
theorem run_fst (st : σ) (calls : List (Call ε × Int × Int)) :
    (s.run st calls).1 = s.base.run st (calls.map Prod.fst) := by
  induction calls generalizing st with
  | nil => rfl
  | cons c cs ih =>
    obtain ⟨c, start, now⟩ := c
    simp only [run, Storage.run, List.map_cons, call_fst, ih]

theorem length_run_snd (st : σ) (calls : List (Call ε × Int × Int)) :
    (s.run st calls).2.length = (calls.map Prod.fst).countP Call.logged := by
  induction calls generalizing st with
  | nil => rfl
  | cons c cs ih =>
    obtain ⟨c, start, now⟩ := c
    simp only [run, List.length_append, length_call_snd, ih, List.map_cons, List.countP_cons]
    omega

theorem run_snd_lines (st : σ) (calls : List (Call ε × Int × Int)) :
    ∀ p ∈ (s.run st calls).2, s.LineOf p ∧ NoLongBlock p := by
  induction calls generalizing st with
  | nil => simp [run]
  | cons c cs ih =>
    obtain ⟨c, start, now⟩ := c
    simp only [run, List.mem_append]
    rintro p (hp | hp)
    exacts [s.call_snd_lines st c start now p hp, ih _ p hp]

end LoggingStorage

end KopiaBlock.Logging
