import KopiaBlock.Cache.Concurrent

/-!
# What the disk cache guarantees to processes that share it

* In every interleaving of any number of calls, an index file is absent or
  holds exactly the bytes of the calls that install it, and a call that returns
  `nil` has seen it so (`index_file_never_partial`). This needs the calls whose
  IDs name one file to carry the same bytes. IDs without `/` name distinct
  files (`sameDataPerPath_of_flat`); `./b` and `b` name the same one
  (`dotted_id_shares_index_file`).
* A mapped index holds the bytes every call installing it carries, when the
  directory starts with each index file absent or holding those bytes
  (`opened_index_complete`).
* A sweep visits the unused `.sndx` entries once each and removes those more
  than an hour old at their own reading of the clock, never the file of an ID
  in use; once it has listed the directory it returns `nil` whichever removes
  fail (`expire_removes_exactly`). One instant for the whole sweep would not
  describe it (`expire_not_one_instant`).
* A call that fails after creating its temp file leaves it behind
  (`leftover_temp_persists`, `write_failure_leaves_temp_file`).
* No two calls ever hold one temp file, and a call about to rename its temp
  file finds its whole data in it (`temp_file_private_and_complete`).
-/

namespace KopiaBlock.Cache

open KopiaBlock.Go

theorem indexBlockPath_flat (dirname : CleanPath) {indexBlockID : List UInt8} (h : separator ∉ indexBlockID) :
    indexBlockPath dirname indexBlockID = ⟨dirname.rooted, dirname.elems ++ [indexBlockID ++ simpleIndexSuffix]⟩ :=
  join_flat dirname (by simp only [List.mem_append, not_or]; exact ⟨h, by simp [simpleIndexSuffix, separator]⟩)
    (normalElem_of_length (by simp [simpleIndexSuffix]))

theorem indexBlockPath_inj (dirname : CleanPath) {a b : List UInt8} (ha : separator ∉ a) (hb : separator ∉ b)
    (h : indexBlockPath dirname a = indexBlockPath dirname b) : a = b := by
  rw [indexBlockPath_flat dirname ha, indexBlockPath_flat dirname hb] at h
  simpa using h

/-- With IDs free of `/`, calls for one ID carrying one content is enough. -/
theorem sameDataPerPath_of_flat {dirname : CleanPath} {calls : List Call}
    (hflat : ∀ indexBlockID data, Call.addBlockToCache indexBlockID data ∈ calls → separator ∉ indexBlockID)
    (hsame : ∀ indexBlockID data data', Call.addBlockToCache indexBlockID data ∈ calls →
      Call.addBlockToCache indexBlockID data' ∈ calls → data = data') :
    SameDataPerPath dirname calls := by
  intro a d b d' ha hb hp
  obtain rfl := indexBlockPath_inj dirname (hflat a d ha) (hflat b d' hb) hp
  exact hsame a d d' ha hb

theorem sameDataPerPath_of_flat_two :
    let calls : List Call := [.addBlockToCache [0x62] [1], .addBlockToCache [0x63] [2]]
    ((∀ indexBlockID data, Call.addBlockToCache indexBlockID data ∈ calls → separator ∉ indexBlockID) ∧
      ∀ indexBlockID data data', Call.addBlockToCache indexBlockID data ∈ calls →
        Call.addBlockToCache indexBlockID data' ∈ calls → data = data') ∧
    SameDataPerPath ⟨true, [[0x64]]⟩ calls := by
  intro calls
  refine ⟨⟨?hflat, ?hsame⟩, sameDataPerPath_of_flat ?hflat ?hsame⟩
  case hflat =>
    intro a d h
    simp only [calls, List.mem_cons, Call.addBlockToCache.injEq, List.not_mem_nil, or_false] at h
    rcases h with ⟨rfl, -⟩ | ⟨rfl, -⟩ <;> decide
  case hsame =>
    intro a d d' h h'
    simp only [calls, List.mem_cons, Call.addBlockToCache.injEq, List.not_mem_nil, or_false] at h h'
    rcases h with ⟨rfl, rfl⟩ | ⟨rfl, rfl⟩ <;> rcases h' with ⟨h₁, rfl⟩ | ⟨h₁, rfl⟩ <;> first | rfl | cases h₁

/-- **No partial index file.** In every state any interleaving reaches, each
index file is absent or holds exactly its calls' bytes, and the step at which an
`addBlockToCache` call returns `nil` leaves its index file holding its bytes. -/
theorem index_file_never_partial {dirname : CleanPath} {calls : List Call} {fs : FileSystem}
    (hsame : SameDataPerPath dirname calls) (hinit : IndexFilesComplete dirname calls fs)
    {s : System} (hs : Reachable dirname calls fs s) :
    IndexFilesComplete dirname calls s.fs ∧
      ∀ i o s' indexBlockID data leftover, calls[i]? = some (.addBlockToCache indexBlockID data) →
        step dirname calls s i o = some s' → s'.phases i = .returned none leftover →
        s'.fs (indexBlockPath dirname indexBlockID) = some data := by
  have hidx := hs.indexFilesComplete hsame hinit
  refine ⟨hidx, fun i o s' indexBlockID data leftover hc hstep hret => ?_⟩
  have hidx' := hidx.step hsame hs.tempInv hstep
  obtain ⟨c, ph', fs', hc', h, rfl⟩ := step_eq_some dirname calls hstep
  rw [hc] at hc'
  cases hc'
  simp only [Function.update_same] at hret
  subst hret
  have hsome := h.returned_nil
  rcases hidx' indexBlockID data (List.getElem?_mem hc) with h' | h'
  · rw [show fs' (indexBlockPath dirname indexBlockID) = none from h'] at hsome
    cases hsome
  · exact h'

theorem index_file_never_partial_race :
    let dir : CleanPath := ⟨true, [[0x63]]⟩
    let calls : List Call := [.addBlockToCache [0x62] [1], .addBlockToCache [0x62] [1]]
    let sched : List (Nat × Outcome) :=
      [(0, .ok), (1, .ok), (0, .created [0x31, 0x32, 0x33, 0x34, 0x35, 0x36, 0x37, 0x38, 0x39]),
        (1, .created [0x39, 0x38, 0x37]), (0, .ok), (1, .ok), (0, .ok), (1, .ok), (0, .ok)]
    let s := (run dir calls (.initial fun _ => none) sched).getD (.initial fun _ => none)
    (SameDataPerPath dir calls ∧ IndexFilesComplete dir calls (fun _ => none) ∧
      Reachable dir calls (fun _ => none) s ∧
      s.phases 0 = .returned none none ∧ s.phases 1 = .rename (tempPath dir [0x39, 0x38, 0x37]) ∧
      (step dir calls s 1 .ok).map (fun s' => s'.phases 1) = some (.returned none none)) ∧
    (IndexFilesComplete dir calls s.fs ∧
      ∀ i o s' indexBlockID data leftover, calls[i]? = some (.addBlockToCache indexBlockID data) →
        step dir calls s i o = some s' → s'.phases i = .returned none leftover →
        s'.fs (indexBlockPath dir indexBlockID) = some data) := by
  intro dir calls sched s
  refine ⟨⟨?hsame, ?hinit, ?hs, by decide, by decide, by decide⟩, index_file_never_partial ?hsame ?hinit ?hs⟩
  case hsame =>
    intro a d b d' ha hb _
    simp only [calls, List.mem_cons, Call.addBlockToCache.injEq, List.not_mem_nil, or_false, or_self] at ha hb
    rw [ha.2, hb.2]
  case hinit => exact fun _ _ _ => .inl rfl
  case hs => exact ⟨sched, rfl⟩

/-- The IDs `./b` and `b` name one index file. A call for each, with its own
bytes, meets the condition that calls for one ID carry one content; yet once the
first has installed its bytes, the second returns `nil` over them. -/
theorem dotted_id_shares_index_file :
    let dir : CleanPath := ⟨true, [[0x63]]⟩
    (run dir [.addBlockToCache [0x2e, 0x2f, 0x62] [2], .addBlockToCache [0x62] [1]] (.initial fun _ => none)
        [(0, .ok), (0, .created [0x31, 0x32, 0x33, 0x34, 0x35, 0x36, 0x37, 0x38, 0x39]), (0, .ok),
          (0, .ok), (0, .ok), (1, .ok)]).map
      (fun s => (s.fs (indexBlockPath dir [0x62]), s.phases 1)) =
      some (some [2], .returned none none) := by
  decide

/-- **Readers never see a partial index.** An `openIndex` step maps exactly the
bytes of the calls that install the file. -/
theorem opened_index_complete {dirname : CleanPath} {calls : List Call} {fs : FileSystem}
    (hsame : SameDataPerPath dirname calls) (hinit : IndexFilesComplete dirname calls fs)
    {s s' : System} (hs : Reachable dirname calls fs s) {i : Nat} {o : Outcome}
    {indexBlockID data : List UInt8} (hc : calls[i]? = some (.openIndex indexBlockID))
    (hstep : step dirname calls s i o = some s') (hopen : s'.phases i = .opened data)
    {id' data' : List UInt8} (hmem : Call.addBlockToCache id' data' ∈ calls)
    (hpath : indexBlockPath dirname id' = indexBlockPath dirname indexBlockID) : data = data' := by
  obtain ⟨c, ph', fs', hc', h, rfl⟩ := step_eq_some dirname calls hstep
  rw [hc] at hc'
  cases hc'
  simp only [Function.update_same] at hopen
  subst hopen
  have hfile := h.opened
  rcases hs.indexFilesComplete hsame hinit id' data' hmem with h' | h' <;> rw [hpath, hfile] at h'
  · cases h'
  · exact Option.some.inj h'

theorem opened_index_complete_after_add :
    let dir : CleanPath := ⟨true, [[0x63]]⟩
    let calls : List Call := [.addBlockToCache [0x62] [1], .openIndex [0x62]]
    let sched : List (Nat × Outcome) :=
      [(0, .ok), (0, .created [0x31, 0x32, 0x33, 0x34, 0x35, 0x36, 0x37, 0x38, 0x39]), (0, .ok), (0, .ok), (0, .ok)]
    let s := (run dir calls (.initial fun _ => none) sched).getD (.initial fun _ => none)
    let s' := (step dir calls s 1 .ok).getD s
    (SameDataPerPath dir calls ∧ IndexFilesComplete dir calls (fun _ => none) ∧
      Reachable dir calls (fun _ => none) s ∧ calls[1]? = some (.openIndex [0x62]) ∧
      step dir calls s 1 .ok = some s' ∧ s'.phases 1 = .opened [1] ∧
      Call.addBlockToCache [0x62] [1] ∈ calls ∧ indexBlockPath dir [0x62] = indexBlockPath dir [0x62]) ∧
    ([1] : List UInt8) = [1] := by
  intro dir calls sched s s'
  refine ⟨⟨?hsame, ?hinit, ?hs, rfl, ?hstep, ?hopen, ?hmem, rfl⟩,
    opened_index_complete ?hsame ?hinit ?hs rfl ?hstep ?hopen ?hmem rfl⟩
  case hsame =>
    intro a d b d' ha hb _
    simp only [calls, List.mem_cons, Call.addBlockToCache.injEq, List.not_mem_nil, or_false, reduceCtorEq] at ha hb
    rw [ha.2, hb.2]
  case hinit => exact fun _ _ _ => .inl rfl
  case hs => exact ⟨sched, rfl⟩
  case hstep => rfl
  case hopen => decide
  case hmem => exact List.mem_cons_self _ _

/-- One remove of a sweep: the name is removed, or its `os.Remove` fails. -/
theorem step_remove {dirname : CleanPath} {calls : List Call} {i : Nat} {used : List (List UInt8)}
    (hc : calls[i]? = some (.expireUnused used)) {s : System} {n : List UInt8} {ns : List (List UInt8)}
    (hs : s.phases i = .remove (n :: ns)) (ok : Bool) :
    step dirname calls s i (if ok then .ok else .fails) =
      some ⟨if ok then Function.update s.fs (join dirname n) none else s.fs,
        Function.update s.phases i (.remove ns)⟩ := by
  cases ok <;> simp only [step, hc, hs] <;> rfl

/-- The remove loop of a sweep run to its end: the files of the names whose
`os.Remove` succeeds are gone, the others are as they were, and the call
returns `nil`. -/
theorem run_remove {dirname : CleanPath} {calls : List Call} {i : Nat} {used : List (List UInt8)}
    (hc : calls[i]? = some (.expireUnused used)) (names : List (List UInt8)) (oks : List Bool)
    (hlen : oks.length = names.length) (s : System) (hs : s.phases i = .remove names) :
    ∃ s', run dirname calls s ((oks.map fun ok => (i, if ok then Outcome.ok else .fails)) ++ [(i, .ok)]) = some s' ∧
      s'.phases = Function.update s.phases i (.returned none none) ∧
      ∀ p, s'.fs p = if ∃ q ∈ names.zip oks, q.2 = true ∧ p = join dirname q.1 then none else s.fs p := by
  induction names generalizing oks s with
  | nil =>
    obtain rfl := List.length_eq_zero.mp hlen
    refine ⟨⟨s.fs, Function.update s.phases i (.returned none none)⟩, ?_, rfl, fun p => by simp⟩
    simp only [List.map_nil, List.nil_append, run, step, hc, hs]
    rfl
  | cons n ns ih =>
    obtain ⟨ok, oks, rfl⟩ := List.exists_cons_of_length_eq_add_one hlen
    obtain ⟨s', hrun, hph, hfs⟩ := ih oks (Nat.succ.inj hlen)
      ⟨if ok then Function.update s.fs (join dirname n) none else s.fs, Function.update s.phases i (.remove ns)⟩
      (Function.update_same _ _ _)
    refine ⟨s', ?_, by rw [hph, Function.update_idem], fun p => ?_⟩
    · simp only [List.map_cons, List.cons_append, run, step_remove hc hs, Option.bind_some]
      exact hrun
    · have hB : (∃ q ∈ (n :: ns).zip (ok :: oks), q.2 = true ∧ p = join dirname q.1) ↔
          (ok = true ∧ p = join dirname n) ∨ ∃ q ∈ ns.zip oks, q.2 = true ∧ p = join dirname q.1 := by
        simp only [List.zip_cons_cons, List.mem_cons, exists_eq_or_imp]
      rw [hfs p]
      by_cases hA : ∃ q ∈ ns.zip oks, q.2 = true ∧ p = join dirname q.1
      · rw [if_pos hA, if_pos (hB.mpr (.inr hA))]
      · rw [if_neg hA]
        by_cases hn : ok = true ∧ p = join dirname n
        · obtain ⟨rfl, rfl⟩ := hn
          rw [if_pos (hB.mpr (.inl ⟨rfl, rfl⟩))]
          simp
        · rw [if_neg fun h => (hB.mp h).elim hn hA]
          cases ok
          · rfl
          · exact Function.update_noteq (fun h => hn ⟨rfl, h⟩) _ _

/-- **What a sweep does.** For a listing with distinct names without `/`, the
loop over the map visits exactly the listed `.sndx` entries whose ID is not in
use, each once, and passes to `os.Remove` exactly those more than an hour old at
their own reading of the clock, each name once, and never the index file of an
ID in use without `/`. Once `ReadDir` has succeeded, the call removes those
files but the ones whose `os.Remove` fails, and returns `nil` whichever fail:
its only error is the listing's. -/
theorem expire_removes_exactly (dirname : CleanPath) {entries : List DirEntry}
    (hnd : (entries.map DirEntry.name).Nodup) (hflat : ∀ ent ∈ entries, separator ∉ ent.name)
    (used : List (List UInt8)) {visits : List (DirEntry × Int)} {names : List (List UInt8)}
    (hv : expireUnused entries used visits = some names) :
    (∀ ent, ent ∈ visits.map Prod.fst ↔ ent ∈ entries ∧ ∃ x, ent.name = x ++ simpleIndexSuffix ∧ x ∉ used) ∧
    ((visits.map Prod.fst).map DirEntry.name).Nodup ∧
    (∀ n, n ∈ names ↔ ∃ ent now, (ent, now) ∈ visits ∧ ent.name = n ∧
      now - ent.modTime > unusedCommittedBlockIndexCleanupTime) ∧
    names.Nodup ∧
    (∀ u ∈ used, separator ∉ u → ∀ n ∈ names, join dirname n ≠ indexBlockPath dirname u) ∧
    (∀ (fs : FileSystem) (oks : List Bool), oks.length = names.length →
      ∃ s, run dirname [.expireUnused used] (.initial fs)
          ((0, .listed entries visits) :: (oks.map fun ok => (0, if ok then Outcome.ok else .fails)) ++ [(0, .ok)]) =
          some s ∧ s.phases 0 = .returned none none ∧
        ∀ p, s.fs p = if ∃ q ∈ names.zip oks, q.2 = true ∧ p = join dirname q.1 then none else fs p) ∧
    (∀ ph fs o ph' fs', stepCall dirname (.expireUnused used) ph fs o = some (ph', fs') →
      ∀ e leftover, ph' = .returned (some e) leftover → e = .listCache) := by
  obtain ⟨hvisit, hvnd, hnnd⟩ := visits_expireUnused hnd hv
  refine ⟨hvisit, hvnd, mem_expireUnused hv, hnnd, ?_, fun fs oks hlen => ?_, ?_⟩
  · intro u hu hsep n hn heq
    obtain ⟨ent, hent, rfl, x, hx, hxu⟩ := unused_of_mem_expireUnused hv hn
    rw [join_flat dirname (hflat ent hent) (normalElem_of_length (by rw [hx]; simp [simpleIndexSuffix])),
      indexBlockPath_flat dirname hsep] at heq
    simp only [CleanPath.mk.injEq, List.append_cancel_left_eq, List.cons.injEq, and_true, true_and] at heq
    rw [hx] at heq
    exact hxu (List.append_cancel_right heq ▸ hu)
  · obtain ⟨s', hrun, hph, hfs⟩ := @run_remove dirname [.expireUnused used] 0 used rfl names oks hlen
      ⟨fs, Function.update (fun _ => .start) 0 (.remove names)⟩ rfl
    refine ⟨s', ?_, by rw [hph]; rfl, hfs⟩
    simp only [List.cons_append, run, step, List.getElem?_cons_zero, Option.map_map, System.initial]
    dsimp only [stepCall]
    rw [hv]
    exact hrun
  · rintro ph fs o ph' fs' h e leftover rfl
    exact (callStep_of_stepCall dirname h).expire_error

theorem expire_removes_exactly_sweep :
    let dir : CleanPath := ⟨true, [[0x64]]⟩
    let old : DirEntry := ⟨[0x61, 0x2e, 0x73, 0x6e, 0x64, 0x78], 0⟩
    let young : DirEntry := ⟨[0x62, 0x2e, 0x73, 0x6e, 0x64, 0x78], 3000000000000⟩
    let inUse : DirEntry := ⟨[0x63, 0x2e, 0x73, 0x6e, 0x64, 0x78], 0⟩
    let temp : DirEntry := ⟨[0x74, 0x6d, 0x70, 0x31], 0⟩
    let entries := [old, young, inUse, temp]
    let used : List (List UInt8) := [[0x63]]
    let visits : List (DirEntry × Int) := [(young, 4000000000000), (old, 4000000000001)]
    (((entries.map DirEntry.name).Nodup ∧ ∀ ent ∈ entries, separator ∉ ent.name) ∧
      expireUnused entries used visits = some [old.name]) ∧
    (∀ ent, ent ∈ visits.map Prod.fst ↔ ent ∈ entries ∧ ∃ x, ent.name = x ++ simpleIndexSuffix ∧ x ∉ used) ∧
    ((visits.map Prod.fst).map DirEntry.name).Nodup ∧
    (∀ n, n ∈ [old.name] ↔ ∃ ent now, (ent, now) ∈ visits ∧ ent.name = n ∧
      now - ent.modTime > unusedCommittedBlockIndexCleanupTime) ∧
    [old.name].Nodup ∧
    (∀ u ∈ used, separator ∉ u → ∀ n ∈ [old.name], join dir n ≠ indexBlockPath dir u) ∧
    (∀ (fs : FileSystem) (oks : List Bool), oks.length = [old.name].length →
      ∃ s, run dir [.expireUnused used] (.initial fs)
          ((0, .listed entries visits) :: (oks.map fun ok => (0, if ok then Outcome.ok else .fails)) ++ [(0, .ok)]) =
          some s ∧ s.phases 0 = .returned none none ∧
        ∀ p, s.fs p = if ∃ q ∈ [old.name].zip oks, q.2 = true ∧ p = join dir q.1 then none else fs p) ∧
    (∀ ph fs o ph' fs', stepCall dir (.expireUnused used) ph fs o = some (ph', fs') →
      ∀ e leftover, ph' = .returned (some e) leftover → e = .listCache) := by
  intro dir old young inUse temp entries used visits
  refine ⟨⟨⟨?hnd, ?hflat⟩, ?hv⟩, expire_removes_exactly dir ?hnd ?hflat used ?hv⟩ <;> decide

/-- One instant for the whole sweep does not describe it. Two entries of one
`ModTime` whose clock readings fall on either side of the hour are treated
apart: the sweep removes `b.sndx` and keeps `a.sndx`, which no single instant
does. -/
theorem expire_not_one_instant :
    let a : DirEntry := ⟨[0x61, 0x2e, 0x73, 0x6e, 0x64, 0x78], 0⟩
    let b : DirEntry := ⟨[0x62, 0x2e, 0x73, 0x6e, 0x64, 0x78], 0⟩
    expireUnused [a, b] [] [(a, 3600000000000), (b, 3600000000001)] = some [b.name] ∧
      ¬ ∃ now : Int, ∀ n, n ∈ [b.name] ↔ ∃ ent ∈ [a, b], ent.name = n ∧
        now - ent.modTime > unusedCommittedBlockIndexCleanupTime := by
  intro a b
  refine ⟨by decide, fun ⟨now, h⟩ => ?_⟩
  obtain ⟨ent, hent, -, hold⟩ := (h b.name).mp (List.mem_singleton_self _)
  have hmod : ent.modTime = 0 := by
    simp only [List.mem_cons, List.mem_singleton, List.not_mem_nil, or_false] at hent
    rcases hent with rfl | rfl <;> rfl
  have ha := (h a.name).mpr ⟨a, List.mem_cons_self _ _, rfl, by rw [hmod] at hold; exact hold⟩
  exact absurd ha (by decide)

/-- **Temp files of failed calls stay.** In every reachable state, a call that
returned without renaming the temp file it created leaves that file in the
cache directory under its temp name, a name `expireUnused` never removes. -/
theorem leftover_temp_persists {dirname : CleanPath} {calls : List Call} {fs : FileSystem} {s : System}
    (hs : Reachable dirname calls fs s) {i : Nat} {e : Option CacheError} {t : CleanPath}
    (h : s.phases i = .returned e (some t)) : IsTempPath dirname t ∧ (s.fs t).isSome :=
  hs.tempInv.temp i t (by rw [h]; rfl)

theorem leftover_temp_persists_write :
    let dir : CleanPath := ⟨true, [[0x63]]⟩
    let t := tempPath dir [0x31, 0x32, 0x33, 0x34, 0x35, 0x36, 0x37, 0x38, 0x39]
    let fs : FileSystem := Function.update (Function.update (fun _ => none) t (some [])) t (some [])
    let phases := Function.update (Function.update (Function.update (fun _ => Phase.start) 0
      (.createTemp false)) 0 (.writeTemp t)) 0 (.returned (some .writeTemp) (some t))
    Reachable dir [.addBlockToCache [0x62] [1]] (fun _ => none) ⟨fs, phases⟩ ∧
      phases 0 = .returned (some .writeTemp) (some t) ∧ (IsTempPath dir t ∧ (fs t).isSome) := by
  intro dir t fs phases
  have hs : Reachable dir [.addBlockToCache [0x62] [1]] (fun _ => none) ⟨fs, phases⟩ :=
    ⟨[(0, .ok), (0, .created [0x31, 0x32, 0x33, 0x34, 0x35, 0x36, 0x37, 0x38, 0x39]), (0, .wrote 0)], rfl⟩
  exact ⟨hs, Function.update_same _ _ _, leftover_temp_persists hs (Function.update_same _ _ _)⟩

/-- **Temp files are private and complete before the rename.** In every state
any interleaving reaches, no two calls hold the same temp file, and a call about
to close or rename its temp file finds its whole data in it, so `os.Rename`
installs a complete file. -/
theorem temp_file_private_and_complete {dirname : CleanPath} {calls : List Call} {fs : FileSystem}
    {s : System} (hs : Reachable dirname calls fs s) :
    (∀ i j t, (s.phases i).temp = some t → (s.phases j).temp = some t → i = j) ∧
      ∀ i indexBlockID data, calls[i]? = some (.addBlockToCache indexBlockID data) →
        ∀ t, (s.phases i = .closeTemp t ∨ s.phases i = .rename t) → s.fs t = some data :=
  ⟨hs.tempInv.owned, hs.tempInv.full⟩

theorem temp_file_private_and_complete_race :
    let dir : CleanPath := ⟨true, [[0x63]]⟩
    let calls : List Call := [.addBlockToCache [0x62] [1], .addBlockToCache [0x62] [1]]
    let sched : List (Nat × Outcome) :=
      [(0, .ok), (1, .ok), (0, .created [0x31, 0x32, 0x33, 0x34, 0x35, 0x36, 0x37, 0x38, 0x39]),
        (1, .created [0x39, 0x38, 0x37, 0x36, 0x35, 0x34, 0x33, 0x32, 0x31]), (0, .ok), (1, .ok), (0, .ok)]
    let s := (run dir calls (.initial fun _ => none) sched).getD (.initial fun _ => none)
    (Reachable dir calls (fun _ => none) s ∧
      s.phases 0 = .rename (tempPath dir [0x31, 0x32, 0x33, 0x34, 0x35, 0x36, 0x37, 0x38, 0x39]) ∧
      s.phases 1 = .closeTemp (tempPath dir [0x39, 0x38, 0x37, 0x36, 0x35, 0x34, 0x33, 0x32, 0x31])) ∧
    (∀ i j t, (s.phases i).temp = some t → (s.phases j).temp = some t → i = j) ∧
      ∀ i indexBlockID data, calls[i]? = some (.addBlockToCache indexBlockID data) →
        ∀ t, (s.phases i = .closeTemp t ∨ s.phases i = .rename t) → s.fs t = some data := by
  intro dir calls sched s
  have hs : Reachable dir calls (fun _ => none) s := ⟨sched, rfl⟩
  exact ⟨⟨hs, by decide, by decide⟩, temp_file_private_and_complete hs⟩

/-- A call whose `tf.Write` fails returns the write error with its temp file
still in the cache directory. -/
theorem write_failure_leaves_temp_file :
    let dir : CleanPath := ⟨true, [[0x63]]⟩
    let t := tempPath dir [0x31, 0x32, 0x33, 0x34, 0x35, 0x36, 0x37, 0x38, 0x39]
    (run dir [.addBlockToCache [0x62] [1]] (.initial fun _ => none)
        [(0, .ok), (0, .created [0x31, 0x32, 0x33, 0x34, 0x35, 0x36, 0x37, 0x38, 0x39]), (0, .wrote 0)]).map
      (fun s => (s.phases 0, s.fs t)) = some (.returned (some .writeTemp) (some t), some []) := by
  decide

end KopiaBlock.Cache
