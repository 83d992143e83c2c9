import KopiaBlock.Cache.Guarantees

/-!
# Index files of IDs in use stay in the cache

Once an `addBlockToCache(id, data)` call has returned `nil`, the file
`indexBlockPath(id)` holds `data` in every later state, however the steps of
the other processes interleave, provided every `expireUnused` call of the
workload counts `id` as used and `id` holds no `/`. Other calls may rename
their temp files onto the same path, but they carry the same bytes; and a
sweep only removes names `x ++ ".sndx"` with `x` not in use (`RemovesUnused`),
which name other files.

With IDs free of `/`, the cache also keeps to its directory: every file any
interleaving creates, changes or removes, at any step, lies directly in it and
is a temp file, `tmp` and one to ten digits, or a `.sndx` file
(`cache_changes_only_own_files`). An ID
such as `../x` would reach a file outside it.

`ioutil.ReadDir` lists the names of the directory's entries, which hold no `/`
(`FlatListing`); the schedules below list only such names. Without this, a
listed name such as `a/../b.sndx` would reach the file of `b`.
-/

namespace KopiaBlock.Cache

open KopiaBlock.Go

/-- An outcome whose listing names entries of the directory: no `/` in a name. -/
def FlatListing : Outcome → Prop
  | .listed entries _ => ∀ e ∈ entries, separator ∉ e.name
  | _ => True

instance flatListing_decidable : (o : Outcome) → Decidable (FlatListing o)
  | .listed entries _ => inferInstanceAs (Decidable (∀ e ∈ entries, separator ∉ e.name))
  | .ok | .fails | .notExist | .created _ | .wrote _ => isTrue trivial

/-- A name a sweep may remove: `x ++ ".sndx"` for an `x` without `/` that is not in use. -/
def UnusedName (used : List (List UInt8)) (n : List UInt8) : Prop :=
  ∃ x, n = x ++ simpleIndexSuffix ∧ separator ∉ x ∧ x ∉ used

section

variable (dirname : CleanPath)

/-- A sweep starts removing only after a listing, and then the names of that listing. -/
theorem stepCall_listed {used : List (List UInt8)} {fs fs' : FileSystem} {o : Outcome}
    {names : List (List UInt8)}
    (h : stepCall dirname (.expireUnused used) .start fs o = some (.remove names, fs')) :
    ∃ entries visits, o = .listed entries visits ∧ expireUnused entries used visits = some names := by
  cases o <;> dsimp only [stepCall] at h <;>
    simp only [Option.some.injEq, Prod.mk.injEq, Phase.remove.injEq, reduceCtorEq, false_and,
      Option.map_eq_some'] at h
  obtain ⟨_, hv, rfl, -⟩ := h
  exact ⟨_, _, rfl, hv⟩

/-- The names a sweep has left to remove stay unused ones, if its listing was flat. -/
theorem stepCall_unusedName {used : List (List UInt8)} {ph ph' : Phase} {fs fs' : FileSystem}
    {o : Outcome} (h : stepCall dirname (.expireUnused used) ph fs o = some (ph', fs'))
    (hflat : FlatListing o) (hph : ∀ names, ph = .remove names → ∀ n ∈ names, UnusedName used n) :
    ∀ names, ph' = .remove names → ∀ n ∈ names, UnusedName used n := by
  rintro names rfl
  cases callStep_of_stepCall dirname h with
  | listed =>
    obtain ⟨entries, visits, rfl, hv⟩ := stepCall_listed dirname h
    intro n hn
    obtain ⟨ent, hent, rfl, x, hx, hxu⟩ := unused_of_mem_expireUnused hv hn
    exact ⟨x, hx, fun hs => hflat ent hent (hx ▸ List.mem_append_left _ hs), hxu⟩
  | removed | removeFails => exact fun n hn => hph _ rfl n (.tail _ hn)

end

section

variable (dirname : CleanPath) (calls : List Call)

/-- Every sweep in progress has only unused names left to remove. -/
def RemovesUnused (s : System) : Prop :=
  ∀ i used names, calls[i]? = some (.expireUnused used) → s.phases i = .remove names →
    ∀ n ∈ names, UnusedName used n

/-- Every `addBlockToCache` call that has returned `nil`, for an ID without `/`
that every sweep counts as used, finds its bytes in its index file. -/
def Retains (s : System) : Prop :=
  ∀ i indexBlockID data leftover, calls[i]? = some (.addBlockToCache indexBlockID data) →
    separator ∉ indexBlockID → (∀ used, Call.expireUnused used ∈ calls → indexBlockID ∈ used) →
    s.phases i = .returned none leftover → s.fs (indexBlockPath dirname indexBlockID) = some data

/-- The invariants of the cache that retention rests on. -/
structure RetentionInv (s : System) : Prop where
  temp : TempInv dirname calls s
  complete : IndexFilesComplete dirname calls s.fs
  removes : RemovesUnused calls s
  retains : Retains dirname calls s

theorem retentionInv_initial {fs : FileSystem} (hinit : IndexFilesComplete dirname calls fs) :
    RetentionInv dirname calls (.initial fs) where
  temp := tempInv_initial dirname calls fs
  complete := hinit
  removes _ _ _ _ h := by cases h
  retains _ _ _ _ _ _ _ h := by cases h

end

section Step

variable {dirname : CleanPath} {calls : List Call} {s s' : System} {i : Nat} {o : Outcome}

theorem RemovesUnused.step (hrem : RemovesUnused calls s) (hflat : FlatListing o)
    (hs : step dirname calls s i o = some s') : RemovesUnused calls s' := by
  obtain ⟨c, ph', fs', hc, hsc, rfl⟩ := stepCall_of_step dirname calls hs
  intro j used names hcj hj
  simp only [Function.update_apply] at hj
  split_ifs at hj with hji
  · subst hji
    rw [hc] at hcj
    cases hcj
    exact stepCall_unusedName dirname hsc hflat (hrem j used · hc) names hj
  · exact hrem j used names hcj hj

/-- A step keeps every returned call's index file: only a sweep removes index
files, and the names it removes are unused; a rename onto the file carries its
bytes, by `IndexFilesComplete`. -/
theorem Retains.step (hinv : RetentionInv dirname calls s)
    (hidx' : IndexFilesComplete dirname calls s'.fs) (hs : step dirname calls s i o = some s') :
    Retains dirname calls s' := by
  obtain ⟨c, ph', fs', hc, h, rfl⟩ := step_eq_some dirname calls hs
  dsimp only at hidx'
  intro j indexBlockID data leftover hcj hid hused hret
  dsimp only
  simp only [Function.update_apply] at hret
  split_ifs at hret with hji
  · -- the step returns `nil`: its index file exists, so it holds the call's bytes
    subst hji hret
    rw [hc] at hcj
    cases hcj
    rcases hidx' indexBlockID data (List.getElem?_mem hc) with h' | h'
    · exact absurd (h' ▸ h.returned_nil) (by simp)
    · exact h'
  · have hold := hinv.retains j indexBlockID data leftover hcj hid hused hret
    rcases h.index (fun t ht => (hinv.temp.temp i t ht).1) (not_isTempPath_indexBlockPath dirname _) with
      h' | ⟨used, n, ns, rfl, hph, hp, -⟩ | ⟨id', data', tmp, rfl, hph, hp, h'⟩
    · exact h'.trans hold
    · -- a sweep removes only unused names, and the ID is in use
      obtain ⟨x, rfl, hx, hxu⟩ := hinv.removes i used (n :: ns) hc hph n (List.mem_cons_self _ _)
      obtain rfl := indexBlockPath_inj dirname hid hx hp
      exact absurd (hused used (List.getElem?_mem hc)) hxu
    · -- a rename onto the file carries the bytes the file already holds
      rw [h', hinv.temp.full i id' data' hc tmp (.inr hph)]
      rcases hinv.complete id' data' (List.getElem?_mem hc) with h'' | h'' <;> rw [← hp, hold] at h''
      · cases h''
      · exact h''.symm

theorem RetentionInv.step (hsame : SameDataPerPath dirname calls) (hinv : RetentionInv dirname calls s)
    (hflat : FlatListing o) (hs : step dirname calls s i o = some s') : RetentionInv dirname calls s' :=
  have hidx' := hinv.complete.step hsame hinv.temp hs
  ⟨hinv.temp.step hs, hidx', hinv.removes.step hflat hs, Retains.step hinv hidx' hs⟩

theorem RetentionInv.run (hsame : SameDataPerPath dirname calls) (hinv : RetentionInv dirname calls s)
    {sched : List (Nat × Outcome)} (hflat : ∀ p ∈ sched, FlatListing p.2)
    (h : run dirname calls s sched = some s') : RetentionInv dirname calls s' := by
  induction sched generalizing s with
  | nil => cases h; exact hinv
  | cons io rest ih =>
    obtain ⟨s₁, h₁, h₂⟩ := Option.bind_eq_some.mp h
    exact ih (hinv.step hsame (hflat io (.head _)) h₁) (fun p hp => hflat p (.tail _ hp)) h₂

end Step

/-- **An added index stays.** Under any interleaving whose listings name
directory entries, once an `addBlockToCache(id, data)` call has returned `nil`,
its index file holds `data` in every later state, and an `openIndex(id)` call
that starts then and whose `mmap.Open` succeeds maps `data`; provided the calls
whose IDs name one file carry the same bytes, the directory starts with each
such file absent or complete, `id` holds no `/` and every sweep counts `id` as
used. -/
theorem added_index_file_stays {dirname : CleanPath} {calls : List Call} {fs : FileSystem}
    (hsame : SameDataPerPath dirname calls) (hinit : IndexFilesComplete dirname calls fs)
    {sched : List (Nat × Outcome)} (hflat : ∀ p ∈ sched, FlatListing p.2) {s : System}
    (hrun : run dirname calls (.initial fs) sched = some s) {i : Nat} {indexBlockID data : List UInt8}
    {leftover : Option CleanPath} (hc : calls[i]? = some (.addBlockToCache indexBlockID data))
    (hid : separator ∉ indexBlockID) (hused : ∀ used, Call.expireUnused used ∈ calls → indexBlockID ∈ used)
    (hret : s.phases i = .returned none leftover) :
    s.fs (indexBlockPath dirname indexBlockID) = some data ∧
      ∀ j, calls[j]? = some (.openIndex indexBlockID) → s.phases j = .start →
        step dirname calls s j .ok = some ⟨s.fs, Function.update s.phases j (.opened data)⟩ := by
  have hfile := ((retentionInv_initial dirname calls hinit).run hsame hflat hrun).retains i indexBlockID
    data leftover hc hid hused hret
  refine ⟨hfile, fun j hj hstart => ?_⟩
  simp only [step, hj, hstart]
  dsimp only [stepCall]
  rw [hfile]
  rfl


theorem added_index_file_stays_sweep :
    let dir : CleanPath := ⟨true, [[0x63]]⟩
    let calls : List Call := [.addBlockToCache [0x62] [1], .expireUnused [[0x62]]]
    let sched : List (Nat × Outcome) :=
      [(0, .ok), (0, .created [0x31, 0x32, 0x33, 0x34, 0x35, 0x36, 0x37, 0x38, 0x39]), (0, .ok), (0, .ok),
        (0, .ok), (1, .listed [⟨[0x62, 0x2e, 0x73, 0x6e, 0x64, 0x78], 0⟩] []), (1, .ok)]
    let s := (run dir calls (.initial fun _ => none) sched).getD (.initial fun _ => none)
    (SameDataPerPath dir calls ∧ IndexFilesComplete dir calls (fun _ => none) ∧
      (∀ p ∈ sched, FlatListing p.2) ∧ run dir calls (.initial fun _ => none) sched = some s ∧
      calls[0]? = some (.addBlockToCache [0x62] [1]) ∧ separator ∉ [0x62] ∧
      (∀ used, Call.expireUnused used ∈ calls → [0x62] ∈ used) ∧ s.phases 0 = .returned none none) ∧
    s.fs (indexBlockPath dir [0x62]) = some [1] ∧
      ∀ j, calls[j]? = some (.openIndex [0x62]) → s.phases j = .start →
        step dir calls s j .ok = some ⟨s.fs, Function.update s.phases j (.opened [1])⟩ := by
  intro dir calls sched s
  refine ⟨⟨?hsame, ?hinit, ?hflat, ?hrun, rfl, ?hid, ?hused, ?hret⟩,
    added_index_file_stays ?hsame ?hinit ?hflat ?hrun rfl ?hid ?hused ?hret⟩
  case hsame =>
    intro a d b d' ha hb _
    simp only [calls, List.mem_cons, Call.addBlockToCache.injEq, List.not_mem_nil, or_false,
      reduceCtorEq] at ha hb
    rw [ha.2, hb.2]
  case hinit => exact fun _ _ _ => .inl rfl
  case hrun => rfl
  case hused =>
    intro used h
    simp only [calls, List.mem_cons, Call.expireUnused.injEq, List.not_mem_nil, or_false, reduceCtorEq,
      false_or] at h
    rw [h]
    decide
  all_goals decide

/-! ## What the cache touches -/

section Own

variable (dirname : CleanPath)

/-- A file the cache may create, change or remove: one directly in its
directory, named `tmp` and the digits of `ioutil.TempFile`, or ending in `.sndx`. -/
def OwnFile (p : CleanPath) : Prop :=
  ∃ e, p = ⟨dirname.rooted, dirname.elems ++ [e]⟩ ∧
    ((∃ sfx, IsRandomSuffix sfx ∧ e = tmpPrefix ++ sfx) ∨ ∃ x, e = x ++ simpleIndexSuffix)

theorem ownFile_of_isTempPath {p : CleanPath} (h : IsTempPath dirname p) : OwnFile dirname p :=
  let ⟨sfx, hs, hp⟩ := h
  ⟨_, hp.trans (tempPath_eq dirname sfx hs), .inl ⟨sfx, hs, rfl⟩⟩

theorem ownFile_indexBlockPath {indexBlockID : List UInt8} (h : separator ∉ indexBlockID) :
    OwnFile dirname (indexBlockPath dirname indexBlockID) :=
  ⟨_, indexBlockPath_flat dirname h, .inr ⟨indexBlockID, rfl⟩⟩

variable {dirname} {c : Call} {ph ph' : Phase} {fs fs' : FileSystem}

/-- The files one step changes are the cache's own, when the call's temp file is
one, its sweep has only unused names left and its ID holds no `/`. -/
theorem CallStep.changes_ownFile (h : CallStep dirname c ph fs ph' fs')
    (htemp : ∀ t, ph.temp = some t → IsTempPath dirname t)
    (hrem : ∀ used names, c = .expireUnused used → ph = .remove names → ∀ n ∈ names, UnusedName used n)
    (hids : ∀ indexBlockID data, c = .addBlockToCache indexBlockID data → separator ∉ indexBlockID)
    {p : CleanPath} (hp : fs' p ≠ fs p) : OwnFile dirname p := by
  by_cases ht : IsTempPath dirname p
  · exact ownFile_of_isTempPath dirname ht
  rcases h.index htemp ht with h' | ⟨used, n, ns, rfl, hph, rfl, -⟩ | ⟨indexBlockID, data, tmp, rfl, -, rfl, -⟩
  · exact absurd h' hp
  · obtain ⟨x, rfl, hx, -⟩ := hrem used (n :: ns) rfl hph n (List.mem_cons_self _ _)
    exact ownFile_indexBlockPath dirname hx
  · exact ownFile_indexBlockPath dirname (hids indexBlockID data rfl)

end Own

section Footprint

variable (dirname : CleanPath) (calls : List Call) (fs : FileSystem)

/-- The invariant of the cache's footprint: the temp files, the sweeps' names, and
every file that differs from the starting directory `fs` being the cache's own. -/
structure FootprintInv (s : System) : Prop where
  temp : TempInv dirname calls s
  removes : RemovesUnused calls s
  own : ∀ p, s.fs p ≠ fs p → OwnFile dirname p

theorem footprintInv_initial : FootprintInv dirname calls fs (.initial fs) where
  temp := tempInv_initial dirname calls fs
  removes _ _ _ _ h := by cases h
  own _ h := absurd rfl h

variable {dirname calls fs} {s s' : System}

/-- The files a step of the system changes are the cache's own. -/
theorem FootprintInv.changes_ownFile (hids : ∀ indexBlockID data, Call.addBlockToCache indexBlockID data ∈ calls →
      separator ∉ indexBlockID)
    (hinv : FootprintInv dirname calls fs s) {i : Nat} {o : Outcome}
    (hs : step dirname calls s i o = some s') {p : CleanPath} (hp : s'.fs p ≠ s.fs p) : OwnFile dirname p := by
  obtain ⟨c, ph', fs', hc, h, rfl⟩ := step_eq_some dirname calls hs
  exact h.changes_ownFile (fun t ht => (hinv.temp.temp i t ht).1)
    (fun used names hcu hph => hinv.removes i used names (hcu ▸ hc) hph)
    (fun indexBlockID data hcu => hids indexBlockID data (List.getElem?_mem (hcu ▸ hc))) hp

theorem FootprintInv.step (hids : ∀ indexBlockID data, Call.addBlockToCache indexBlockID data ∈ calls →
      separator ∉ indexBlockID)
    (hinv : FootprintInv dirname calls fs s) {i : Nat} {o : Outcome} (hflat : FlatListing o)
    (hs : step dirname calls s i o = some s') : FootprintInv dirname calls fs s' := by
  refine ⟨hinv.temp.step hs, hinv.removes.step hflat hs, fun p hp => ?_⟩
  by_cases hkept : s'.fs p = s.fs p
  · exact hinv.own p (hkept ▸ hp)
  · exact hinv.changes_ownFile hids hs hkept

theorem FootprintInv.run (hids : ∀ indexBlockID data, Call.addBlockToCache indexBlockID data ∈ calls →
      separator ∉ indexBlockID)
    (hinv : FootprintInv dirname calls fs s) {sched : List (Nat × Outcome)}
    (hflat : ∀ p ∈ sched, FlatListing p.2) (h : run dirname calls s sched = some s') :
    FootprintInv dirname calls fs s' := by
  induction sched generalizing s with
  | nil => cases h; exact hinv
  | cons io rest ih =>
    obtain ⟨s₁, h₁, h₂⟩ := Option.bind_eq_some.mp h
    exact ih (hinv.step hids (hflat io (.head _)) h₁) (fun p hp => hflat p (.tail _ hp)) h₂

end Footprint

end KopiaBlock.Cache
