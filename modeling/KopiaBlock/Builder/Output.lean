import KopiaBlock.Builder.ExtraData

/-!
# How a call of `Build` ends, and what its output receives

Each info the loop reaches either passes `writeEntry`'s two checks and adds two
writes, its key and its entry, or stops the loop with an error. So `Build`
returns `nil` exactly when no info carries a payload and every info passes the
checks, and then the destination holds the header, the keys and entries in
order, and the extra data. Otherwise it panics with nothing written, or
returns an error at the first failing info, with only what the buffered
writer has passed on from the bytes before it.
-/

namespace KopiaBlock.Builder

open KopiaBlock.Go

section

variable (contentIDToBytes : List UInt8 → List UInt8)

/-- The two checks of `writeEntry`: the key has the recorded length and the pack
file name is not empty. -/
def EntryOK (layout : IndexLayout) (it : Info) : Prop :=
  ((contentIDToBytes it.blockID).length : Int) = layout.keyLength ∧ it.packFile ≠ []

instance entryOK_decidable (layout : IndexLayout) (it : Info) :
    Decidable (EntryOK contentIDToBytes layout it) :=
  inferInstanceAs (Decidable (_ ∧ _))

/-- The writes `Build`'s loop issues for `l`: each key, then its entry. -/
def entryWrites (layout : IndexLayout) (l : List Info) : List (List UInt8) :=
  l.flatMap fun it => [contentIDToBytes it.blockID, entryBytes it layout]

theorem writeEntry_of_ok {layout : IndexLayout} {it : Info}
    (h : EntryOK contentIDToBytes layout it) (w : BufWriter) :
    writeEntry contentIDToBytes w it layout =
      .ok (w.writeAll [contentIDToBytes it.blockID, entryBytes it layout]) := by
  have hpf : it.packFile.length ≠ 0 := fun h0 => h.2 (List.length_eq_zero.mp h0)
  simp [writeEntry, h.1, formatEntry, hpf, bind, Except.bind, pure, Except.pure]

theorem writeEntry_of_not_ok {layout : IndexLayout} {it : Info}
    (h : ¬ EntryOK contentIDToBytes layout it) (w : BufWriter) :
    ∃ e, writeEntry contentIDToBytes w it layout = .error e := by
  unfold EntryOK at h
  by_cases hk : ((contentIDToBytes it.blockID).length : Int) = layout.keyLength
  · have hpf : it.packFile = [] := by simpa [hk] using h
    exact ⟨.emptyPackBlockID it.blockID, by simp [writeEntry, hk, formatEntry, hpf, bind, Except.bind]⟩
  · exact ⟨.inconsistentKeyLength (contentIDToBytes it.blockID).length layout.keyLength,
      by simp [writeEntry, hk]⟩

theorem writeEntries_ok {layout : IndexLayout} {l : List Info}
    (h : ∀ it ∈ l, EntryOK contentIDToBytes layout it) (w : BufWriter) :
    writeEntries contentIDToBytes layout l w = .ok (w.writeAll (entryWrites contentIDToBytes layout l)) := by
  induction l generalizing w with
  | nil => rfl
  | cons it l ih =>
    simp only [writeEntries, writeEntry_of_ok contentIDToBytes (h it (.head _)),
      ih (fun x hx => h x (.tail _ hx)), entryWrites, List.flatMap_cons, BufWriter.writeAll_append]

theorem writeEntries_error {layout : IndexLayout} {pre post : List Info} {it : Info}
    (hpre : ∀ x ∈ pre, EntryOK contentIDToBytes layout x) (hit : ¬ EntryOK contentIDToBytes layout it)
    (w : BufWriter) : ∃ e, writeEntries contentIDToBytes layout (pre ++ it :: post) w =
      .error (e, w.writeAll (entryWrites contentIDToBytes layout pre)) := by
  induction pre generalizing w with
  | nil =>
    obtain ⟨e, he⟩ := writeEntry_of_not_ok contentIDToBytes hit w
    exact ⟨e, by simp [writeEntries, he, entryWrites]⟩
  | cons x pre ih =>
    obtain ⟨e, he⟩ := ih (fun y hy => hpre y (.tail _ hy))
      (w.writeAll [contentIDToBytes x.blockID, entryBytes x layout])
    refine ⟨e, ?_⟩
    have hw : entryWrites contentIDToBytes layout (x :: pre) =
        [contentIDToBytes x.blockID, entryBytes x layout] ++ entryWrites contentIDToBytes layout pre :=
      rfl
    simp only [List.cons_append, writeEntries, writeEntry_of_ok contentIDToBytes (hpre x (.head _)),
      hw, BufWriter.writeAll_append]
    exact he

theorem entryOK_of_writeEntries {layout : IndexLayout} {l : List Info} {w w' : BufWriter}
    (h : writeEntries contentIDToBytes layout l w = .ok w') :
    ∀ it ∈ l, EntryOK contentIDToBytes layout it := by
  induction l generalizing w with
  | nil => simp
  | cons it l ih =>
    by_cases hit : EntryOK contentIDToBytes layout it
    · rw [writeEntries, writeEntry_of_ok contentIDToBytes hit] at h
      exact List.forall_mem_cons.mpr ⟨hit, ih h⟩
    · obtain ⟨e, he⟩ := writeEntry_of_not_ok contentIDToBytes hit w
      rw [writeEntries, he] at h
      cases h

/-- The loop stops with an error only at the first info failing the checks, and
then holds what the infos before it wrote. -/
theorem writeEntries_eq_error {layout : IndexLayout} {l : List Info} {w w' : BufWriter}
    {e : BuildError} (h : writeEntries contentIDToBytes layout l w = .error (e, w')) :
    ∃ pre it post, l = pre ++ it :: post ∧ (∀ x ∈ pre, EntryOK contentIDToBytes layout x) ∧
      ¬ EntryOK contentIDToBytes layout it ∧ w' = w.writeAll (entryWrites contentIDToBytes layout pre) := by
  induction l generalizing w with
  | nil => cases h
  | cons it l ih =>
    by_cases hit : EntryOK contentIDToBytes layout it
    · rw [writeEntries, writeEntry_of_ok contentIDToBytes hit] at h
      obtain ⟨pre, x, post, rfl, hpre, hx, rfl⟩ := ih h
      refine ⟨it :: pre, x, post, rfl, List.forall_mem_cons.mpr ⟨hit, hpre⟩, hx, ?_⟩
      simp only [entryWrites, List.flatMap_cons, BufWriter.writeAll_append]
    · obtain ⟨e', he⟩ := writeEntry_of_not_ok contentIDToBytes hit w
      rw [writeEntries, he] at h
      cases h
      exact ⟨[], it, l, rfl, by simp, hit, rfl⟩

/-- The bytes of a whole index: header, keys and entries, extra data. -/
def indexBytes (l : List Info) : List UInt8 :=
  let layout := expectedLayout contentIDToBytes l
  header layout ++ (entryWrites contentIDToBytes layout l).flatten ++ (distinctPackFiles l).flatten

/-- `Build` returns `nil` and the output holds the whole index, whichever
writer `bufio.NewWriter` returned. -/
theorem buildSortedTo_of_ok (output : Output) {l : List Info} (hp : ∀ it ∈ l, it.payload = [])
    (hok : ∀ it ∈ l, EntryOK contentIDToBytes (expectedLayout contentIDToBytes l) it) :
    buildSortedTo contentIDToBytes output l = ⟨.ok, indexBytes contentIDToBytes l⟩ := by
  simp only [buildSortedTo, prepareExtraData_eq contentIDToBytes hp, writeEntries_ok contentIDToBytes hok]
  have h := ((BufWriter.holds_new.write (header (expectedLayout contentIDToBytes l))).writeAll
    (entryWrites contentIDToBytes (expectedLayout contentIDToBytes l) l)).write
      (distinctPackFiles l).flatten
  simp only [List.nil_append] at h
  cases output <;> simp only [Output.received, BufWriter.out_flush, BufWriter.written_flush, h.split] <;> rfl

theorem buildSorted_of_ok {l : List Info} (hp : ∀ it ∈ l, it.payload = [])
    (hok : ∀ it ∈ l, EntryOK contentIDToBytes (expectedLayout contentIDToBytes l) it) :
    buildSorted contentIDToBytes l = ⟨.ok, indexBytes contentIDToBytes l⟩ :=
  buildSortedTo_of_ok contentIDToBytes .wrapped hp hok

/-- A payload makes `Build` panic before anything is written. -/
theorem buildSortedTo_of_payload (output : Output) {l : List Info} (hp : ∃ it ∈ l, it.payload ≠ []) :
    buildSortedTo contentIDToBytes output l =
      ⟨.panic "storing payloads in indexes is not supported", []⟩ := by
  simp only [buildSortedTo, prepareExtraData_panic contentIDToBytes hp]

theorem buildSorted_of_payload {l : List Info} (hp : ∃ it ∈ l, it.payload ≠ []) :
    buildSorted contentIDToBytes l = ⟨.panic "storing payloads in indexes is not supported", []⟩ :=
  buildSortedTo_of_payload contentIDToBytes .wrapped hp

/-- A call that returns `nil` met no payload and no info failing the checks. -/
theorem ok_conditions_of_buildSorted {l : List Info}
    (h : (buildSorted contentIDToBytes l).result = .ok) :
    (∀ it ∈ l, it.payload = []) ∧ ∀ it ∈ l, EntryOK contentIDToBytes (expectedLayout contentIDToBytes l) it := by
  by_cases hp : ∀ it ∈ l, it.payload = []
  · refine ⟨hp, ?_⟩
    revert h
    simp only [buildSorted, buildSortedTo, prepareExtraData_eq contentIDToBytes hp]
    split
    · intro h; cases h
    · intro _; exact entryOK_of_writeEntries contentIDToBytes (by assumption)
  · push_neg at hp
    rw [buildSorted_of_payload contentIDToBytes hp] at h
    cases h

/-- At the first info that fails `writeEntry`'s checks, `Build` returns an error,
and its output has received what the buffered writer passed on of the header and
the keys and entries before that info. -/
theorem buildSorted_of_not_ok {pre post : List Info} {it : Info}
    (hp : ∀ x ∈ pre ++ it :: post, x.payload = [])
    (hpre : ∀ x ∈ pre, EntryOK contentIDToBytes (expectedLayout contentIDToBytes (pre ++ it :: post)) x)
    (hit : ¬ EntryOK contentIDToBytes (expectedLayout contentIDToBytes (pre ++ it :: post)) it) :
    ∃ (e : BuildError) (w : BufWriter),
      buildSorted contentIDToBytes (pre ++ it :: post) = ⟨.error e, w.out⟩ ∧
      w.Holds (header (expectedLayout contentIDToBytes (pre ++ it :: post)) ++
        (entryWrites contentIDToBytes (expectedLayout contentIDToBytes (pre ++ it :: post)) pre).flatten) := by
  obtain ⟨e, he⟩ := @writeEntries_error contentIDToBytes _ _ post _ hpre hit
    (BufWriter.new.write (header (expectedLayout contentIDToBytes (pre ++ it :: post))))
  refine ⟨e, _, by simp only [buildSorted, buildSortedTo, prepareExtraData_eq contentIDToBytes hp, he]; rfl, ?_⟩
  simpa using (BufWriter.holds_new.write _).writeAll _

/-- A call that returns an error stopped at the first info failing the checks.
The writes before it brought a new writer to `w`, and every output has received
what it takes of them (`Output.received`): the error does not depend on the
output, and what was written does not either. -/
theorem buildSortedTo_eq_error {l : List Info} {e : BuildError}
    (h : (buildSorted contentIDToBytes l).result = .error e) :
    ∃ pre it post, l = pre ++ it :: post ∧
      (∀ x ∈ pre, EntryOK contentIDToBytes (expectedLayout contentIDToBytes l) x) ∧
      ¬ EntryOK contentIDToBytes (expectedLayout contentIDToBytes l) it ∧
      ∃ w : BufWriter, (∀ output, buildSortedTo contentIDToBytes output l = ⟨.error e, output.received w⟩) ∧
        w.Holds (header (expectedLayout contentIDToBytes l) ++
          (entryWrites contentIDToBytes (expectedLayout contentIDToBytes l) pre).flatten) := by
  by_cases hp : ∀ it ∈ l, it.payload = []
  · revert h
    simp only [buildSorted, buildSortedTo, prepareExtraData_eq contentIDToBytes hp]
    split
    · rename_i e' w hw
      rintro ⟨⟩
      obtain ⟨pre, it, post, hl, hpre, hit, rfl⟩ := writeEntries_eq_error contentIDToBytes hw
      exact ⟨pre, it, post, hl, hpre, hit, _, fun _ => rfl,
        by simpa using (BufWriter.holds_new.write _).writeAll _⟩
    · rintro ⟨⟩
  · push_neg at hp
    rw [buildSorted_of_payload contentIDToBytes hp] at h
    cases h

end

end KopiaBlock.Builder
