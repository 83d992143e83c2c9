import KopiaBlock.Cache.ExpireUnused

/-!
# The calls of `diskCommittedBlockIndexCache`, one file-system step at a time

Several processes share the cache directory, so each call is a sequence of
file-system operations that other calls may interleave with. A call's progress
is a `Phase`, and `stepCall` performs its next operation on the shared
`FileSystem`, given how that operation turns out (`Outcome`): whether `os.Stat`,
`ioutil.TempFile`, `Write`, `Close`, `os.Rename`, `ioutil.ReadDir`,
`os.Remove` or `mmap.Open` succeeds, which name `TempFile` picks, how many
bytes a failing `Write` wrote, and what `ReadDir` lists. An outcome the
operation cannot have (a rename of a missing file succeeding, a temp name that
exists) gives `none`.

The directory holds regular files only, keyed by cleaned path. `ReadDir` may
return any listing, since the directory changes under it, and directories are
not tracked, so a rename into a missing directory may succeed: both only add
behaviours, and everything below is proved for all of them. The bytes an
opened index holds are read back; `openPackIndex`'s parsing is not modelled.
-/

namespace KopiaBlock.Cache

open KopiaBlock.Go

/-- The files of the file system, by cleaned path. -/
def FileSystem : Type := CleanPath → Option (List UInt8)

/-- `indexBlockPath`: `filepath.Join(c.dirname, indexBlockID + simpleIndexSuffix)`. -/
def indexBlockPath (dirname : CleanPath) (indexBlockID : List UInt8) : CleanPath :=
  join dirname (indexBlockID ++ simpleIndexSuffix)

/-- The prefix `"tmp"` `writeTempFileAtomic` gives `ioutil.TempFile`. -/
def tmpPrefix : List UInt8 := [0x74, 0x6d, 0x70]

/-- The names `ioutil.TempFile` appends to the prefix: the decimal digits of a
random number, nine of them up to Go 1.16 and one to ten of a `uint32` since. -/
def IsRandomSuffix (s : List UInt8) : Prop := 1 ≤ s.length ∧ s.length ≤ 10 ∧ ∀ c ∈ s, 0x30 ≤ c ∧ c ≤ 0x39

instance isRandomSuffix_decidable (s : List UInt8) : Decidable (IsRandomSuffix s) :=
  inferInstanceAs (Decidable (_ ∧ _ ∧ _))

/-- The file `ioutil.TempFile(c.dirname, "tmp")` creates for the suffix `s`. -/
def tempPath (dirname : CleanPath) (s : List UInt8) : CleanPath := join dirname (tmpPrefix ++ s)

/-- The errors a call returns. -/
inductive CacheError
  /-- An error of `os.Stat` other than "does not exist", returned as is. -/
  | stat
  /-- `"can't create tmp file: %v"` -/
  | createTemp
  /-- `"can't write to temp file: %v"` -/
  | writeTemp
  /-- `"can't close tmp file"` -/
  | closeTemp
  /-- `"unsuccessful index write of block %q"` -/
  | unsuccessfulIndexWrite (indexBlockID : List UInt8)
  /-- `"can't list cache: %v"` -/
  | listCache
  /-- An error of `mmap.Open`, returned as is. -/
  | mmapOpen
  deriving DecidableEq, Repr

/-- A call on the cache. -/
inductive Call
  | addBlockToCache (indexBlockID data : List UInt8)
  | expireUnused (used : List (List UInt8))
  | openIndex (indexBlockID : List UInt8)
  deriving DecidableEq, Repr

/-- Where a call stands. -/
inductive Phase
  /-- Not started. -/
  | start
  /-- `addBlockToCache` found no file and calls `ioutil.TempFile`, a second time
  after `os.MkdirAll` if `retried`. -/
  | createTemp (retried : Bool)
  /-- It holds the new temp file `tmp` and calls `tf.Write(data)`. -/
  | writeTemp (tmp : CleanPath)
  /-- It calls `tf.Close()`. -/
  | closeTemp (tmp : CleanPath)
  /-- It calls `os.Rename(tmp, indexBlockPath)`. -/
  | rename (tmp : CleanPath)
  /-- The rename failed; it calls `os.Stat` again. -/
  | recheck (tmp : CleanPath)
  /-- `expireUnused` has these names left to remove. -/
  | remove (names : List (List UInt8))
  /-- The call returned this error, or `nil`; `leftover` is the temp file it
  created and did not rename. -/
  | returned (err : Option CacheError) (leftover : Option CleanPath)
  /-- `openIndex` mapped a file holding these bytes. -/
  | opened (data : List UInt8)
  deriving DecidableEq, Repr

/-- How the operation of one step turns out. -/
inductive Outcome
  /-- It succeeds. -/
  | ok
  /-- It fails with an error other than those below. -/
  | fails
  /-- `ioutil.TempFile` fails because the directory does not exist. -/
  | notExist
  /-- `ioutil.TempFile` creates the file with this suffix. -/
  | created (suffix : List UInt8)
  /-- `tf.Write` fails after writing this many bytes. -/
  | wrote (n : Nat)
  /-- `ioutil.ReadDir` returns `entries`, and `range` then visits the map of
  unused `.sndx` entries as `visits` lists them, each with the instant its
  `time.Since` reads. -/
  | listed (entries : List DirEntry) (visits : List (DirEntry × Int))
  deriving DecidableEq, Repr

/-- The temp file a phase holds. -/
def Phase.temp : Phase → Option CleanPath
  | .writeTemp tmp | .closeTemp tmp | .rename tmp | .recheck tmp => some tmp
  | .returned _ leftover => leftover
  | _ => none

section

variable (dirname : CleanPath)

/-- `hasIndexBlockID`: `os.Stat` of the index file. With `o = .ok` the call
itself succeeds, so the file exists or `os.IsNotExist` holds of its error; with
`.fails` it returns the error. -/
def hasIndexBlockID (indexBlockID : List UInt8) (fs : FileSystem) : Outcome → Option (Except CacheError Bool)
  | .ok => some (.ok (fs (indexBlockPath dirname indexBlockID)).isSome)
  | .fails => some (.error .stat)
  | _ => none

/-- The next file-system operation of a call in phase `ph`, with outcome `o`. -/
def stepCall : Call → Phase → FileSystem → Outcome → Option (Phase × FileSystem)
  | .addBlockToCache indexBlockID _, .start, fs, .ok =>
    some (if (fs (indexBlockPath dirname indexBlockID)).isSome then .returned none none
      else .createTemp false, fs)
  | .addBlockToCache _ _, .start, fs, .fails => some (.returned (some .stat) none, fs)
  | .addBlockToCache _ _, .createTemp _, fs, .created s =>
    if IsRandomSuffix s ∧ fs (tempPath dirname s) = none then
      some (.writeTemp (tempPath dirname s), Function.update fs (tempPath dirname s) (some []))
    else none
  | .addBlockToCache _ _, .createTemp retried, fs, .notExist =>
    some (if retried then .returned (some .createTemp) none else .createTemp true, fs)
  | .addBlockToCache _ _, .createTemp _, fs, .fails => some (.returned (some .createTemp) none, fs)
  | .addBlockToCache _ data, .writeTemp tmp, fs, .ok =>
    some (.closeTemp tmp, Function.update fs tmp (some data))
  | .addBlockToCache _ data, .writeTemp tmp, fs, .wrote n =>
    some (.returned (some .writeTemp) (some tmp), Function.update fs tmp (some (data.take n)))
  | .addBlockToCache _ _, .closeTemp tmp, fs, .ok => some (.rename tmp, fs)
  | .addBlockToCache _ _, .closeTemp tmp, fs, .fails =>
    some (.returned (some .closeTemp) (some tmp), fs)
  | .addBlockToCache indexBlockID _, .rename tmp, fs, .ok =>
    (fs tmp).map fun f =>
      (.returned none none,
        Function.update (Function.update fs tmp none) (indexBlockPath dirname indexBlockID) (some f))
  | .addBlockToCache _ _, .rename tmp, fs, .fails => some (.recheck tmp, fs)
  | .addBlockToCache indexBlockID _, .recheck tmp, fs, .ok =>
    some (.returned (if (fs (indexBlockPath dirname indexBlockID)).isSome then none
      else some (.unsuccessfulIndexWrite indexBlockID)) (some tmp), fs)
  | .addBlockToCache _ _, .recheck tmp, fs, .fails => some (.returned (some .stat) (some tmp), fs)
  | .expireUnused used, .start, fs, .listed entries visits =>
    (expireUnused entries used visits).map fun names => (.remove names, fs)
  | .expireUnused _, .start, fs, .fails => some (.returned (some .listCache) none, fs)
  | .expireUnused _, .remove [], fs, .ok => some (.returned none none, fs)
  | .expireUnused _, .remove (n :: ns), fs, .ok => some (.remove ns, Function.update fs (join dirname n) none)
  | .expireUnused _, .remove (_ :: ns), fs, .fails => some (.remove ns, fs)
  | .openIndex indexBlockID, .start, fs, .ok =>
    some (match fs (indexBlockPath dirname indexBlockID) with
      | some data => .opened data
      | none => .returned (some .mmapOpen) none, fs)
  | .openIndex _, .start, fs, .fails => some (.returned (some .mmapOpen) none, fs)
  | _, _, _, _ => none

/-- What one step of a call can do: `stepCall` read as a relation, one
constructor per branch of the code. -/
inductive CallStep : Call → Phase → FileSystem → Phase → FileSystem → Prop
  | statExists {indexBlockID data fs} (h : (fs (indexBlockPath dirname indexBlockID)).isSome) :
    CallStep (.addBlockToCache indexBlockID data) .start fs (.returned none none) fs
  | statMissing {indexBlockID data fs} (h : fs (indexBlockPath dirname indexBlockID) = none) :
    CallStep (.addBlockToCache indexBlockID data) .start fs (.createTemp false) fs
  | statFails {indexBlockID data fs} :
    CallStep (.addBlockToCache indexBlockID data) .start fs (.returned (some .stat) none) fs
  | created {indexBlockID data retried fs s} (hs : IsRandomSuffix s)
      (hfree : fs (tempPath dirname s) = none) :
    CallStep (.addBlockToCache indexBlockID data) (.createTemp retried) fs
      (.writeTemp (tempPath dirname s)) (Function.update fs (tempPath dirname s) (some []))
  | mkdirRetry {indexBlockID data fs} :
    CallStep (.addBlockToCache indexBlockID data) (.createTemp false) fs (.createTemp true) fs
  | createFails {indexBlockID data retried fs} :
    CallStep (.addBlockToCache indexBlockID data) (.createTemp retried) fs
      (.returned (some .createTemp) none) fs
  | written {indexBlockID data tmp fs} :
    CallStep (.addBlockToCache indexBlockID data) (.writeTemp tmp) fs (.closeTemp tmp)
      (Function.update fs tmp (some data))
  | writeFails {indexBlockID data tmp fs} (n : Nat) :
    CallStep (.addBlockToCache indexBlockID data) (.writeTemp tmp) fs
      (.returned (some .writeTemp) (some tmp)) (Function.update fs tmp (some (data.take n)))
  | closed {indexBlockID data tmp fs} :
    CallStep (.addBlockToCache indexBlockID data) (.closeTemp tmp) fs (.rename tmp) fs
  | closeFails {indexBlockID data tmp fs} :
    CallStep (.addBlockToCache indexBlockID data) (.closeTemp tmp) fs
      (.returned (some .closeTemp) (some tmp)) fs
  | renamed {indexBlockID data tmp fs f} (h : fs tmp = some f) :
    CallStep (.addBlockToCache indexBlockID data) (.rename tmp) fs (.returned none none)
      (Function.update (Function.update fs tmp none) (indexBlockPath dirname indexBlockID) (some f))
  | renameFails {indexBlockID data tmp fs} :
    CallStep (.addBlockToCache indexBlockID data) (.rename tmp) fs (.recheck tmp) fs
  | recheckExists {indexBlockID data tmp fs} (h : (fs (indexBlockPath dirname indexBlockID)).isSome) :
    CallStep (.addBlockToCache indexBlockID data) (.recheck tmp) fs (.returned none (some tmp)) fs
  | recheckMissing {indexBlockID data tmp fs} (h : fs (indexBlockPath dirname indexBlockID) = none) :
    CallStep (.addBlockToCache indexBlockID data) (.recheck tmp) fs
      (.returned (some (.unsuccessfulIndexWrite indexBlockID)) (some tmp)) fs
  | recheckFails {indexBlockID data tmp fs} :
    CallStep (.addBlockToCache indexBlockID data) (.recheck tmp) fs (.returned (some .stat) (some tmp)) fs
  | listed {used fs names} (entries : List DirEntry) (visits : List (DirEntry × Int))
      (h : expireUnused entries used visits = some names) :
    CallStep (.expireUnused used) .start fs (.remove names) fs
  | listFails {used fs} :
    CallStep (.expireUnused used) .start fs (.returned (some .listCache) none) fs
  | removed {used n ns fs} :
    CallStep (.expireUnused used) (.remove (n :: ns)) fs (.remove ns) (Function.update fs (join dirname n) none)
  | removeFails {used n ns fs} :
    CallStep (.expireUnused used) (.remove (n :: ns)) fs (.remove ns) fs
  | swept {used fs} :
    CallStep (.expireUnused used) (.remove []) fs (.returned none none) fs
  | mapped {indexBlockID fs data} (h : fs (indexBlockPath dirname indexBlockID) = some data) :
    CallStep (.openIndex indexBlockID) .start fs (.opened data) fs
  | mapFails {indexBlockID fs} :
    CallStep (.openIndex indexBlockID) .start fs (.returned (some .mmapOpen) none) fs
  | mapMissing {indexBlockID fs} (h : fs (indexBlockPath dirname indexBlockID) = none) :
    CallStep (.openIndex indexBlockID) .start fs (.returned (some .mmapOpen) none) fs

/-- Every step `stepCall` takes is one of `CallStep`'s. -/
theorem callStep_of_stepCall {c : Call} {ph ph' : Phase} {fs fs' : FileSystem} {o : Outcome}
    (h : stepCall dirname c ph fs o = some (ph', fs')) : CallStep dirname c ph fs ph' fs' := by
  cases c <;> rcases ph with _ | _ | _ | _ | _ | _ | (_ | ⟨n, ns⟩) | _ | _ <;> cases o <;>
    dsimp only [stepCall] at h <;>
    simp only [Option.some.injEq, Prod.mk.injEq, reduceCtorEq, Option.map_eq_some',
      Option.ite_none_right_eq_some] at h
  case addBlockToCache.start.ok =>
    obtain ⟨rfl, rfl⟩ := h
    split_ifs with hs
    exacts [.statExists hs, .statMissing (Option.not_isSome_iff_eq_none.mp hs)]
  case addBlockToCache.createTemp.notExist retried =>
    obtain ⟨rfl, rfl⟩ := h
    cases retried
    exacts [.mkdirRetry, .createFails]
  case addBlockToCache.createTemp.created s =>
    obtain ⟨⟨hs, hfree⟩, rfl, rfl⟩ := h
    exact .created hs hfree
  case addBlockToCache.rename.ok tmp =>
    obtain ⟨f, hf, rfl, rfl⟩ := h
    exact .renamed hf
  case addBlockToCache.recheck.ok =>
    obtain ⟨rfl, rfl⟩ := h
    split_ifs with hs
    exacts [.recheckExists hs, .recheckMissing (Option.not_isSome_iff_eq_none.mp hs)]
  case openIndex.start.ok =>
    obtain ⟨rfl, rfl⟩ := h
    split
    exacts [.mapped ‹_›, .mapMissing ‹_›]
  case expireUnused.start.listed entries visits =>
    obtain ⟨names, hn, rfl, rfl⟩ := h
    exact .listed entries visits hn
  all_goals obtain ⟨rfl, rfl⟩ := h; constructor

/-- Every step of `CallStep` is taken by `stepCall` for some outcome. -/
theorem stepCall_of_callStep {c : Call} {ph ph' : Phase} {fs fs' : FileSystem}
    (h : CallStep dirname c ph fs ph' fs') : ∃ o, stepCall dirname c ph fs o = some (ph', fs') := by
  cases h with
  | statExists h => exact ⟨.ok, by dsimp only [stepCall]; simp [h]⟩
  | statMissing h => exact ⟨.ok, by dsimp only [stepCall]; simp [h]⟩
  | @created _ _ _ _ s hs hfree => exact ⟨.created s, by dsimp only [stepCall]; simp [hs, hfree]⟩
  | mkdirRetry => exact ⟨.notExist, rfl⟩
  | createFails => exact ⟨.fails, rfl⟩
  | writeFails n => exact ⟨.wrote n, rfl⟩
  | renamed h => exact ⟨.ok, by dsimp only [stepCall]; simp [h]⟩
  | recheckExists h => exact ⟨.ok, by dsimp only [stepCall]; simp [h]⟩
  | recheckMissing h => exact ⟨.ok, by dsimp only [stepCall]; simp [h]⟩
  | listed entries visits h => exact ⟨.listed entries visits, by dsimp only [stepCall]; rw [h]; rfl⟩
  | mapped h => exact ⟨.ok, by dsimp only [stepCall]; simp [h]⟩
  | mapMissing h => exact ⟨.ok, by dsimp only [stepCall]; simp [h]⟩
  | _ => first | exact ⟨.ok, rfl⟩ | exact ⟨.fails, rfl⟩

/-- `addBlockToCache` begins with `hasIndexBlockID`: it returns its error, returns
`nil` if the index file exists, and goes on to write a temp file otherwise. -/
theorem stepCall_addBlockToCache_start (indexBlockID data : List UInt8) (fs : FileSystem) (o : Outcome) :
    stepCall dirname (.addBlockToCache indexBlockID data) .start fs o =
      (hasIndexBlockID dirname indexBlockID fs o).map fun
        | .error err => (.returned (some err) none, fs)
        | .ok found => (if found then .returned none none else .createTemp false, fs) := by
  cases o <;> rfl

/-! ### Temp files and index files never share a path -/

theorem tempPath_eq (s : List UInt8) (hs : IsRandomSuffix s) :
    tempPath dirname s = ⟨dirname.rooted, dirname.elems ++ [tmpPrefix ++ s]⟩ := by
  refine join_flat dirname ?_ (normalElem_of_length (by simp [tmpPrefix]))
  intro h
  rcases List.mem_append.mp h with h | h
  · simp [tmpPrefix, separator] at h
  · have := hs.2.2 _ h
    simp [separator] at this

/-- The last element of a path joined from a name ending in `".sndx"`. -/
theorem join_sndx_getLast (p : List UInt8) :
    ∃ w, (join dirname (p ++ simpleIndexSuffix)).elems.getLast? = some (w ++ simpleIndexSuffix) :=
  join_append_getLast dirname p (by simp [simpleIndexSuffix, separator]) (by simp [simpleIndexSuffix])

/-- No temp file is ever at a path joined from a `".sndx"` name. -/
theorem tempPath_ne_join_sndx {s : List UInt8} (hs : IsRandomSuffix s) (p : List UInt8) :
    tempPath dirname s ≠ join dirname (p ++ simpleIndexSuffix) := by
  intro h
  obtain ⟨w, hw⟩ := join_sndx_getLast dirname p
  rw [← h, tempPath_eq dirname s hs, List.getLast?_concat, Option.some.injEq] at hw
  obtain ⟨L, c, rfl⟩ := (List.eq_nil_or_concat s).resolve_left fun h0 => by
    simpa [h0] using hs.1
  have hlast := congrArg List.getLast? hw
  simp [List.concat_eq_append, simpleIndexSuffix, List.getLast?_append] at hlast
  subst hlast
  exact absurd (hs.2.2 120 (by simp)).2 (by decide)

theorem tempPath_ne_indexBlockPath {s : List UInt8} (hs : IsRandomSuffix s) (indexBlockID : List UInt8) :
    tempPath dirname s ≠ indexBlockPath dirname indexBlockID :=
  tempPath_ne_join_sndx dirname hs indexBlockID

/-- A path `ioutil.TempFile` may create. -/
def IsTempPath (p : CleanPath) : Prop := ∃ s, IsRandomSuffix s ∧ p = tempPath dirname s

theorem not_isTempPath_join_sndx (x : List UInt8) :
    ¬ IsTempPath dirname (join dirname (x ++ simpleIndexSuffix)) := by
  rintro ⟨s, hs, h⟩
  exact tempPath_ne_join_sndx dirname hs x h.symm

theorem not_isTempPath_indexBlockPath (indexBlockID : List UInt8) :
    ¬ IsTempPath dirname (indexBlockPath dirname indexBlockID) :=
  not_isTempPath_join_sndx dirname indexBlockID

end

/-- The names an `expireUnused` call has left to remove all end in `".sndx"`. -/
def RemovesIndexNames : Phase → Prop
  | .remove names => ∀ n ∈ names, ∃ x, n = x ++ simpleIndexSuffix
  | _ => True

/-! ### What one step does

Each lemma below is one case analysis over `CallStep`; the invariants of the
concurrent cache are assembled from them. -/

section

variable {dirname : CleanPath} {c : Call} {ph ph' : Phase} {fs fs' : FileSystem}

theorem CallStep.removesIndexNames (h : CallStep dirname c ph fs ph' fs') (hph : RemovesIndexNames ph) :
    RemovesIndexNames ph' := by
  cases h with
  | listed _ _ h => exact fun _ hn => suffix_of_mem_expireUnused h hn
  | removed | removeFails => exact fun n hn => hph n (.tail _ hn)
  | _ => trivial

/-- The files a step changes are its own temp file and files at no temp path. -/
theorem CallStep.frame (h : CallStep dirname c ph fs ph' fs') (hph : RemovesIndexNames ph) {p : CleanPath}
    (hp : fs' p ≠ fs p) : ph.temp = some p ∨ ph'.temp = some p ∨ ¬ IsTempPath dirname p := by
  cases h with
  | created =>
    rw [Function.update_apply] at hp
    split_ifs at hp with he
    exacts [.inr (.inl (by simp [Phase.temp, he])), absurd rfl hp]
  | written | writeFails =>
    rw [Function.update_apply] at hp
    split_ifs at hp with he
    exacts [.inl (by simp [Phase.temp, he]), absurd rfl hp]
  | renamed =>
    simp only [Function.update_apply] at hp
    split_ifs at hp with h₁ h₂
    · exact .inr (.inr (h₁ ▸ not_isTempPath_indexBlockPath dirname _))
    · exact .inl (by simp [Phase.temp, h₂])
    · exact absurd rfl hp
  | @removed used n ns fs =>
    rw [Function.update_apply] at hp
    split_ifs at hp with he
    · obtain ⟨x, rfl⟩ := hph n (.head _)
      exact .inr (.inr (he ▸ not_isTempPath_join_sndx dirname x))
    · exact absurd rfl hp
  | _ => exact absurd rfl hp

/-- A step keeps the temp file its call holds, drops it, or creates a fresh one. -/
theorem CallStep.temp (h : CallStep dirname c ph fs ph' fs') :
    ph'.temp = ph.temp ∨ ph'.temp = none ∨
      ∃ s, IsRandomSuffix s ∧ fs (tempPath dirname s) = none ∧ ph.temp = none ∧
        ph'.temp = some (tempPath dirname s) := by
  cases h with
  | created hs hfree => exact .inr (.inr ⟨_, hs, hfree, rfl, rfl⟩)
  | _ => simp [Phase.temp]

/-- The temp file a call holds after a step exists. -/
theorem CallStep.temp_isSome (h : CallStep dirname c ph fs ph' fs') {t : CleanPath} (ht : ph'.temp = some t)
    (hex : ph.temp = some t → (fs t).isSome) : (fs' t).isSome := by
  cases h <;> simp only [Phase.temp, Option.some.injEq, reduceCtorEq] at ht
  all_goals first
    | (subst ht; simp)
    | exact hex (by simpa [Phase.temp] using ht)

/-- A call's temp file holds its data in full from the write until the rename. -/
theorem CallStep.full {indexBlockID data : List UInt8}
    (h : CallStep dirname (.addBlockToCache indexBlockID data) ph fs ph' fs')
    (hfull : ∀ t, (ph = .closeTemp t ∨ ph = .rename t) → fs t = some data) :
    ∀ t, (ph' = .closeTemp t ∨ ph' = .rename t) → fs' t = some data := by
  cases h with
  | written => rintro t (h | h) <;> cases h; simp
  | closed => rintro t (h | h) <;> cases h; exact hfull _ (.inl rfl)
  | _ => rintro t (h | h) <;> cases h

/-- At a path no temp file can have, a step leaves the file, removes it as the
next name of a sweep, or renames the call's temp file onto it. -/
theorem CallStep.index (h : CallStep dirname c ph fs ph' fs')
    (htemp : ∀ t, ph.temp = some t → IsTempPath dirname t) {p : CleanPath} (hp : ¬ IsTempPath dirname p) :
    fs' p = fs p ∨
      (∃ used n ns, c = .expireUnused used ∧ ph = .remove (n :: ns) ∧ p = join dirname n ∧ fs' p = none) ∨
      ∃ indexBlockID data tmp, c = .addBlockToCache indexBlockID data ∧ ph = .rename tmp ∧
        p = indexBlockPath dirname indexBlockID ∧ fs' p = fs tmp := by
  cases h with
  | renamed hf =>
    simp only [Function.update_apply]
    split_ifs with h₁ h₂
    · exact .inr (.inr ⟨_, _, _, rfl, rfl, h₁, hf.symm⟩)
    · exact absurd (htemp p (by simp [Phase.temp, h₂])) hp
    · exact .inl rfl
  | removed =>
    simp only [Function.update_apply]
    split_ifs with hn
    exacts [.inr (.inl ⟨_, _, _, rfl, rfl, hn, rfl⟩), .inl rfl]
  | created hs =>
    simp only [Function.update_apply]
    split_ifs with he
    exacts [absurd ⟨_, hs, he⟩ hp, .inl rfl]
  | written | writeFails =>
    simp only [Function.update_apply]
    split_ifs with he
    exacts [absurd (htemp p (by simp [Phase.temp, he])) hp, .inl rfl]
  | _ => exact .inl rfl

/-- A call returns `nil` from `addBlockToCache` only at a step after which its
index file exists: the one it saw, or the one its rename put there. -/
theorem CallStep.returned_nil {indexBlockID data : List UInt8} {leftover : Option CleanPath}
    (h : CallStep dirname (.addBlockToCache indexBlockID data) ph fs (.returned none leftover) fs') :
    (fs' (indexBlockPath dirname indexBlockID)).isSome := by
  cases h with
  | statExists h | recheckExists h => exact h
  | renamed => simp

/-- `openIndex` maps the bytes the index file holds at its step. -/
theorem CallStep.opened {indexBlockID data : List UInt8}
    (h : CallStep dirname (.openIndex indexBlockID) ph fs (.opened data) fs') :
    fs (indexBlockPath dirname indexBlockID) = some data := by
  cases h with
  | mapped h => exact h

/-- The only error `expireUnused` returns is the listing's. -/
theorem CallStep.expire_error {used : List (List UInt8)} {e : CacheError} {leftover : Option CleanPath}
    (h : CallStep dirname (.expireUnused used) ph fs (.returned (some e) leftover) fs') :
    e = .listCache := by
  cases h
  rfl

end

end KopiaBlock.Cache
