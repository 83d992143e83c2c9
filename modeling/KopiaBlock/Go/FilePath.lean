import KopiaBlock.Go.Bytes

/-!
# `filepath.Join` and `filepath.Clean` on Unix

The disk cache names every file it touches with `filepath.Join(c.dirname, name)`,
which joins with `/` and cleans the result: empty and `.` elements vanish, and
`..` removes the element before it, is dropped at the root of an absolute path,
or stays at the front of a relative one. A cleaned path is kept as its elements
and whether it is rooted; the cache directory is given in that form, and two
cleaned paths name the same file exactly when they are equal.

A name without `/` that is not `.` or `..` joins as one more element
(`join_flat`), so such names reach distinct paths (`join_flat_inj`). A name
ending in a suffix of three or more bytes ends, once joined, in an element with
that suffix (`join_append_getLast`), whatever `/` and `..` it holds before.
-/

namespace KopiaBlock.Go

/-- The separator `'/'`. -/
def separator : UInt8 := 0x2f

/-- The path element `"."`. -/
def dot : List UInt8 := [0x2e]

/-- The path element `".."`. -/
def dotDot : List UInt8 := [0x2e, 0x2e]

/-- The elements of a path between its separators, empty ones included. -/
def splitPath : List UInt8 → List (List UInt8)
  | [] => [[]]
  | c :: cs =>
    if c = separator then [] :: splitPath cs
    else match splitPath cs with
      | [] => [[c]]
      | e :: es => (c :: e) :: es

/-- A path in the form `filepath.Clean` leaves it. -/
structure CleanPath where
  rooted : Bool
  elems : List (List UInt8)
  deriving DecidableEq, Repr

/-- The scan of `filepath.Clean` over one element. -/
def cleanStep (rooted : Bool) (elems : List (List UInt8)) (e : List UInt8) : List (List UInt8) :=
  if e = [] ∨ e = dot then elems
  else if e = dotDot then
    match elems.getLast? with
    | some last => if last = dotDot then elems ++ [dotDot] else elems.dropLast
    | none => if rooted then [] else [dotDot]
  else elems ++ [e]

/-- `filepath.Join(dir, name)`, for a non-empty directory `dir` given by its
cleaned form: `Clean(dir + "/" + name)`. -/
def join (dir : CleanPath) (name : List UInt8) : CleanPath :=
  ⟨dir.rooted, (splitPath name).foldl (cleanStep dir.rooted) dir.elems⟩

/-- An element `Clean` keeps as it is. -/
def NormalElem (e : List UInt8) : Prop := e ≠ [] ∧ e ≠ dot ∧ e ≠ dotDot

theorem normalElem_of_length {e : List UInt8} (h : 3 ≤ e.length) : NormalElem e :=
  ⟨fun h' => by simp [h'] at h, fun h' => by simp [h', dot] at h, fun h' => by simp [h', dotDot] at h⟩

theorem cleanStep_normal {e : List UInt8} (h : NormalElem e) (rooted : Bool) (elems : List (List UInt8)) :
    cleanStep rooted elems e = elems ++ [e] := by
  simp [cleanStep, h.1, h.2.1, h.2.2]

theorem splitPath_of_not_mem {name : List UInt8} (h : separator ∉ name) : splitPath name = [name] := by
  induction name with
  | nil => rfl
  | cons c cs ih =>
    have hc : c ≠ separator := fun hc => h (hc ▸ List.mem_cons_self _ _)
    simp [splitPath, hc, ih fun h' => h (List.mem_cons_of_mem _ h')]

/-- Appending a name without separator extends the last element. -/
theorem splitPath_append {q : List UInt8} (hq : separator ∉ q) (p : List UInt8) :
    ∃ pre w, splitPath (p ++ q) = pre ++ [w ++ q] := by
  induction p with
  | nil => exact ⟨[], [], by simp [splitPath_of_not_mem hq]⟩
  | cons c cs ih =>
    obtain ⟨pre, w, h⟩ := ih
    by_cases hc : c = separator
    · exact ⟨[] :: pre, w, by simp [splitPath, hc, h]⟩
    · cases pre with
      | nil => exact ⟨[], c :: w, by simp [splitPath, hc, h]⟩
      | cons e es => exact ⟨(c :: e) :: es, w, by simp [splitPath, hc, h]⟩

/-- A name without separator, other than `.` and `..`, is one more element. -/
theorem join_flat (dir : CleanPath) {name : List UInt8} (hsep : separator ∉ name) (hn : NormalElem name) :
    join dir name = ⟨dir.rooted, dir.elems ++ [name]⟩ := by
  simp [join, splitPath_of_not_mem hsep, cleanStep_normal hn]

theorem join_flat_inj (dir : CleanPath) {a b : List UInt8} (ha : separator ∉ a) (ha' : NormalElem a)
    (hb : separator ∉ b) (hb' : NormalElem b) (h : join dir a = join dir b) : a = b := by
  rw [join_flat dir ha ha', join_flat dir hb hb'] at h
  simpa using h

/-- A joined name that ends in a suffix of at least three bytes ends in an
element with that suffix. -/
theorem join_append_getLast (dir : CleanPath) (p : List UInt8) {q : List UInt8} (hq : separator ∉ q)
    (hlen : 3 ≤ q.length) : ∃ w, (join dir (p ++ q)).elems.getLast? = some (w ++ q) := by
  obtain ⟨pre, w, h⟩ := splitPath_append hq p
  refine ⟨w, ?_⟩
  rw [join, h, List.foldl_append, List.foldl_cons, List.foldl_nil,
    cleanStep_normal (normalElem_of_length (by simp; omega))]
  simp

end KopiaBlock.Go
