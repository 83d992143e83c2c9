import KopiaBlock.Cache.Calls

/-!
# Processes sharing the cache directory

A workload is a list of calls, each run by its own process; a schedule says
which call takes its next step and how its file-system operation turns out, so
every interleaving of the calls' steps is some schedule. `Reachable` collects
the states schedules reach from a starting file system.

Two invariants hold in every reachable state. `TempInv` is about temp files:
the one a call holds is a fresh `tmp` name that exists, no two calls hold the
same, and from the write to the rename it holds the call's bytes in full. It
needs no assumption: `expireUnused` only removes `.sndx` names, and no temp
name is one. `IndexFilesComplete` then says that every index file the workload
installs is absent or holds its calls' bytes, provided calls whose IDs name the
same file carry the same bytes (`SameDataPerPath`).
-/

namespace KopiaBlock.Cache

open KopiaBlock.Go

/-- The shared file system and where each call stands; call `i` of the
workload runs as process `i`. -/
structure System where
  fs : FileSystem
  phases : Nat → Phase

/-- Nothing has run yet. -/
def System.initial (fs : FileSystem) : System := ⟨fs, fun _ => .start⟩

section

variable (dirname : CleanPath) (calls : List Call)

/-- Call `i` takes its next step, with outcome `o`. -/
def step (s : System) (i : Nat) (o : Outcome) : Option System :=
  match calls[i]? with
  | none => none
  | some c => (stepCall dirname c (s.phases i) s.fs o).map fun r => ⟨r.2, Function.update s.phases i r.1⟩

/-- A schedule: which call moves at each step, and how its operation turns out. -/
def run : System → List (Nat × Outcome) → Option System
  | s, [] => some s
  | s, (i, o) :: rest => (step dirname calls s i o).bind fun s' => run s' rest

/-- The states some schedule reaches from the file system `fs`. -/
def Reachable (fs : FileSystem) (s : System) : Prop :=
  ∃ sched, run dirname calls (.initial fs) sched = some s

/-- Calls of `addBlockToCache` whose IDs name the same file carry the same bytes. -/
def SameDataPerPath : Prop :=
  ∀ indexBlockID data indexBlockID' data', Call.addBlockToCache indexBlockID data ∈ calls →
    Call.addBlockToCache indexBlockID' data' ∈ calls →
    indexBlockPath dirname indexBlockID = indexBlockPath dirname indexBlockID' → data = data'

/-- Every index file the workload installs is absent or holds its calls' bytes. -/
def IndexFilesComplete (fs : FileSystem) : Prop :=
  ∀ indexBlockID data, Call.addBlockToCache indexBlockID data ∈ calls →
    fs (indexBlockPath dirname indexBlockID) = none ∨ fs (indexBlockPath dirname indexBlockID) = some data

/-- The invariant of the calls' temp files. -/
structure TempInv (s : System) : Prop where
  removes : ∀ i, RemovesIndexNames (s.phases i)
  temp : ∀ i t, (s.phases i).temp = some t → IsTempPath dirname t ∧ (s.fs t).isSome
  full : ∀ i indexBlockID data, calls[i]? = some (.addBlockToCache indexBlockID data) →
    ∀ t, (s.phases i = .closeTemp t ∨ s.phases i = .rename t) → s.fs t = some data
  owned : ∀ i j t, (s.phases i).temp = some t → (s.phases j).temp = some t → i = j

theorem tempInv_initial (fs : FileSystem) : TempInv dirname calls (.initial fs) where
  removes _ := trivial
  temp _ _ h := by simp [System.initial, Phase.temp] at h
  full _ _ _ _ _ h := by simp [System.initial] at h
  owned _ _ _ h := by simp [System.initial, Phase.temp] at h

/-- A step of the system is a step of one call, with the outcome scheduled. -/
theorem stepCall_of_step {s s' : System} {i : Nat} {o : Outcome} (h : step dirname calls s i o = some s') :
    ∃ c ph' fs', calls[i]? = some c ∧ stepCall dirname c (s.phases i) s.fs o = some (ph', fs') ∧
      s' = ⟨fs', Function.update s.phases i ph'⟩ := by
  unfold step at h
  split at h
  · cases h
  · obtain ⟨⟨ph', fs'⟩, hsc, rfl⟩ := Option.map_eq_some'.mp h
    exact ⟨_, ph', fs', ‹_›, hsc, rfl⟩

theorem step_eq_some {s s' : System} {i : Nat} {o : Outcome} (h : step dirname calls s i o = some s') :
    ∃ c ph' fs', calls[i]? = some c ∧ CallStep dirname c (s.phases i) s.fs ph' fs' ∧
      s' = ⟨fs', Function.update s.phases i ph'⟩ :=
  let ⟨c, ph', fs', hc, hsc, hs⟩ := stepCall_of_step dirname calls h
  ⟨c, ph', fs', hc, callStep_of_stepCall dirname hsc, hs⟩

end

section Step

variable {dirname : CleanPath} {calls : List Call} {s : System} {i : Nat} {c : Call} {ph' : Phase}
  {fs' : FileSystem}

/-- A temp file another call holds is never the one a step leaves its own call
holding. -/
theorem TempInv.not_shared (hinv : TempInv dirname calls s) (h : CallStep dirname c (s.phases i) s.fs ph' fs')
    {j : Nat} (hj : j ≠ i) {t : CleanPath} (ht : ph'.temp = some t) (htj : (s.phases j).temp = some t) : False := by
  rcases h.temp with h' | h' | ⟨_, _, hfree, -, h'⟩
  · exact hj (hinv.owned j i t htj (h' ▸ ht))
  · simp [h'] at ht
  · cases (Option.some.inj (h'.symm.trans ht))
    exact absurd (hinv.temp j _ htj).2 (by simp [hfree])

/-- A step leaves the temp files of the other calls as they are. -/
theorem TempInv.other_temp (hinv : TempInv dirname calls s) (h : CallStep dirname c (s.phases i) s.fs ph' fs')
    {j : Nat} (hj : j ≠ i) {t : CleanPath} (htj : (s.phases j).temp = some t) : fs' t = s.fs t := by
  by_contra hne
  rcases h.frame (hinv.removes i) hne with ht | ht | ht
  · exact hj (hinv.owned j i t htj ht)
  · exact hinv.not_shared h hj ht htj
  · exact ht (hinv.temp j t htj).1

theorem TempInv.step (hinv : TempInv dirname calls s) {s' : System} {o : Outcome}
    (hs : step dirname calls s i o = some s') : TempInv dirname calls s' := by
  obtain ⟨c, ph', fs', hc, h, rfl⟩ := step_eq_some dirname calls hs
  constructor
  · intro j
    simp only [Function.update_apply]
    split_ifs with hj
    exacts [h.removesIndexNames (hj ▸ hinv.removes j), hinv.removes j]
  · intro j t ht
    simp only [Function.update_apply] at ht ⊢
    split_ifs at ht with hj
    · refine ⟨?_, h.temp_isSome ht fun h' => (hinv.temp i t h').2⟩
      rcases h.temp with h' | h' | ⟨s, hs, -, -, h'⟩
      · exact (hinv.temp i t (h' ▸ ht)).1
      · simp [h'] at ht
      · exact ⟨s, hs, (Option.some.inj (h'.symm.trans ht)).symm⟩
    · exact ⟨(hinv.temp j t ht).1, by rw [hinv.other_temp h hj ht]; exact (hinv.temp j t ht).2⟩
  · intro j indexBlockID data hcj t htj
    simp only [Function.update_apply] at htj ⊢
    split_ifs at htj with hj
    · subst hj
      rw [hc] at hcj
      cases hcj
      exact h.full (hinv.full _ indexBlockID data hc) t htj
    · have hheld : (s.phases j).temp = some t := by rcases htj with h' | h' <;> simp [h', Phase.temp]
      rw [hinv.other_temp h hj hheld]
      exact hinv.full j indexBlockID data hcj t htj
  · intro j k t htj htk
    simp only [Function.update_apply] at htj htk
    split_ifs at htj htk with hj hk hk
    · exact hj.trans hk.symm
    · exact (hinv.not_shared h hk htj htk).elim
    · exact (hinv.not_shared h hj htk htj).elim
    · exact hinv.owned j k t htj htk

theorem IndexFilesComplete.step (hsame : SameDataPerPath dirname calls) (hinv : TempInv dirname calls s)
    (hidx : IndexFilesComplete dirname calls s.fs) {s' : System} {o : Outcome}
    (hs : step dirname calls s i o = some s') : IndexFilesComplete dirname calls s'.fs := by
  obtain ⟨c, ph', fs', hc, h, rfl⟩ := step_eq_some dirname calls hs
  intro indexBlockID data hmem
  dsimp only
  rcases h.index (fun t ht => (hinv.temp i t ht).1)
    (not_isTempPath_indexBlockPath dirname indexBlockID) with h' | ⟨-, -, -, -, -, -, h'⟩ |
      ⟨id', data', tmp, rfl, hph, hp, h'⟩
  · rw [h']
    exact hidx indexBlockID data hmem
  · exact .inl h'
  · have hdata := hinv.full i id' data' hc tmp (.inr hph)
    have hmem' : Call.addBlockToCache id' data' ∈ calls := List.getElem?_mem hc
    refine .inr ?_
    rw [h', hdata, hsame indexBlockID data id' data' hmem hmem' hp]

end Step

section Run

variable {dirname : CleanPath} {calls : List Call}

theorem TempInv.run {s s' : System} (hinv : TempInv dirname calls s) {sched : List (Nat × Outcome)}
    (h : run dirname calls s sched = some s') : TempInv dirname calls s' := by
  induction sched generalizing s with
  | nil => cases h; exact hinv
  | cons io rest ih =>
    obtain ⟨s₁, h₁, h₂⟩ := Option.bind_eq_some.mp h
    exact ih (hinv.step h₁) h₂

theorem IndexFilesComplete.run (hsame : SameDataPerPath dirname calls) {s s' : System}
    (hinv : TempInv dirname calls s) (hidx : IndexFilesComplete dirname calls s.fs)
    {sched : List (Nat × Outcome)} (h : run dirname calls s sched = some s') :
    IndexFilesComplete dirname calls s'.fs := by
  induction sched generalizing s with
  | nil => cases h; exact hidx
  | cons io rest ih =>
    obtain ⟨s₁, h₁, h₂⟩ := Option.bind_eq_some.mp h
    exact ih (hinv.step h₁) (hidx.step hsame hinv h₁) h₂

theorem Reachable.tempInv {fs : FileSystem} {s : System} (h : Reachable dirname calls fs s) :
    TempInv dirname calls s :=
  let ⟨_, hrun⟩ := h
  (tempInv_initial dirname calls fs).run hrun

theorem Reachable.indexFilesComplete (hsame : SameDataPerPath dirname calls) {fs : FileSystem}
    (hinit : IndexFilesComplete dirname calls fs) {s : System} (h : Reachable dirname calls fs s) :
    IndexFilesComplete dirname calls s.fs :=
  let ⟨_, hrun⟩ := h
  IndexFilesComplete.run hsame (tempInv_initial dirname calls fs) hinit hrun

end Run

end KopiaBlock.Cache
