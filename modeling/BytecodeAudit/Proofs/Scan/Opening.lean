import BytecodeAudit.Proofs.Analyzer.CodeAudit
import BytecodeAudit.Proofs.CallGraph.Components
import BytecodeAudit.Proofs.Watch.Relevance

/-!
# Finding and opening module files

Module files are opened at the same time. Each has a worker that loads it and later records what
came of it: a module goes into the slot of its position, a failure behind those recorded before. One
turn keeps what is recorded in step with the workers (`ParallelOpening.Follows.step`), so in the end
it is what opening the files in turn gives, failures up to their order; a sort by path makes them
equal (`ParallelOpening.eq_failures_openAll`).
-/

namespace BytecodeAudit

open List

/-! ### Opening at the same time -/

open Analyzer.Code (loadable failing modules_openAll failures_openAll pairwise_failures_openAll cutDisk
  exists_load_cutDisk)

namespace LoadProgress

def IsReached (d : Disk) (path : String) : LoadProgress → Prop
  | .waiting => True
  | .loaded result => result = LoadedModule.load d path
  | .recorded slot => slot = (LoadedModule.load d path).toOption

def failed (d : Disk) (path : String) : LoadProgress → List (String × Failure)
  | .recorded _ => failing d [path]
  | _ => []

variable {d : Disk} {path : String}

lemma failing_singleton : failing d [path] = match LoadedModule.load d path with
    | .ok _ => []
    | .error f => [(path, f)] := by
  rw [failing, filterMap_cons]
  split <;> rename_i h <;> split at h <;> simp_all

lemma IsReached.advance {x : LoadProgress} (h : x.IsReached d path) : (x.advance d path).1.IsReached d path ∧
    (x.advance d path).1.failed d path = x.failed d path ++ (x.advance d path).2 := by
  rcases x with _ | (f | m) | slot
  · exact ⟨rfl, rfl⟩
  · have hload : LoadedModule.load d path = .error f := h.symm
    exact ⟨by rw [IsReached.eq_def, hload]; rfl, by rw [failed.eq_def, failing_singleton, hload]; rfl⟩
  · have hload : LoadedModule.load d path = .ok m := h.symm
    exact ⟨by rw [IsReached.eq_def, hload]; rfl, by rw [failed.eq_def, failing_singleton, hload]; rfl⟩
  · exact ⟨h, (append_nil _).symm⟩

lemma remaining_advance (path : String) {x : LoadProgress} (h : x.remaining ≠ 0) :
    (x.advance d path).1.remaining + 1 = x.remaining := by
  rcases x with _ | (f | m) | slot
  all_goals first | rfl | exact absurd rfl h

end LoadProgress

namespace ParallelOpening

/-- Where opening can be: every worker has what loading gives, and their failures are recorded in
some order. -/
structure Follows (d : Disk) (paths : List String) (p : ParallelOpening) : Prop where
  paths_eq : p.workers.map (·.1) = paths
  reached : ∀ w ∈ p.workers, w.2.IsReached d w.1
  failures_perm : p.failures.Perm (p.workers.flatMap fun w => w.2.failed d w.1)

variable {d : Disk} {paths : List String} {p : ParallelOpening}

lemma follows_start (d : Disk) (paths : List String) : (start paths).Follows d paths where
  paths_eq := by simp [start, Function.comp_def]
  reached w hw := by
    obtain ⟨path, -, rfl⟩ := mem_map.1 hw
    trivial
  failures_perm := by
    rw [start, flatMap_map]
    exact .of_eq (flatMap_eq_nil_iff.2 fun _ _ => rfl).symm

lemma exists_step_eq {i : Nat} {path : String} {x : LoadProgress} (h : p.workers[i]? = some (path, x)) :
    ∃ front back, p.workers = front ++ (path, x) :: back ∧
      p.step d i = ⟨front ++ (path, (x.advance d path).1) :: back, p.failures ++ (x.advance d path).2⟩ := by
  obtain ⟨hi, hget⟩ := List.getElem?_eq_some_iff.1 h
  refine ⟨p.workers.take i, p.workers.drop (i + 1), ?_, ?_⟩
  · rw [← hget, ← drop_eq_getElem_cons hi, take_append_drop]
  · simp only [step, h, set_eq_take_append_cons_drop, if_pos hi]

lemma Follows.step (h : p.Follows d paths) (i : Nat) : (p.step d i).Follows d paths := by
  rcases hi : p.workers[i]? with _ | ⟨path, x⟩
  · rw [ParallelOpening.step, hi]
    exact h
  obtain ⟨front, back, hworkers, hstep⟩ := exists_step_eq (d := d) hi
  have hperm := h.failures_perm
  have hreached := h.reached
  rw [hworkers, forall_mem_append, forall_mem_cons] at hreached
  obtain ⟨hnext, hfailed⟩ := hreached.2.1.advance
  rw [hstep]
  refine ⟨?_, ?_, ?_⟩
  · rw [← h.paths_eq, hworkers, map_append, map_append, map_cons, map_cons]
  · exact forall_mem_append.2 ⟨hreached.1, forall_mem_cons.2 ⟨hnext, hreached.2.2⟩⟩
  · rw [hworkers, flatMap_append, flatMap_cons, ← append_assoc] at hperm
    rw [flatMap_append, flatMap_cons, hfailed, ← append_assoc, ← append_assoc]
    refine (hperm.append_right _).trans ?_
    rw [append_assoc, append_assoc _ _ (flatMap _ back)]
    exact perm_append_comm.append_left _

lemma follows_run (d : Disk) (paths : List String) (turns : List Nat) : ((start paths).run d turns).Follows d paths :=
  foldlRecOn turns _ (follows_start d paths) fun _ h i _ => h.step i

lemma failing_eq_flatMap (d : Disk) (paths : List String) :
    failing d paths = paths.flatMap fun path => failing d [path] := by
  induction paths with
  | nil => rfl
  | cons path paths ih =>
    rw [flatMap_cons, ← ih]
    exact filterMap_append (l := [path])

lemma perm_failures_openAll (d : Disk) (paths : List String) :
    (Scan.openAll d paths).failures.Perm (failing d paths) := by
  rw [failures_openAll]
  exact mergeSort_perm ..

/-- A finished opening has recorded the modules and the failures of all its paths. -/
lemma Follows.of_isFinished (h : p.Follows d paths) (hfinished : p.isFinished) :
    p.modules = loadable d paths ∧ p.failures.Perm (failing d paths) := by
  have hrecorded : ∀ w ∈ p.workers, w.2 = .recorded (LoadedModule.load d w.1).toOption := by
    intro w hw
    have hremaining := all_eq_true.1 hfinished w hw
    have hreached := h.reached w hw
    obtain ⟨path, _ | result | slot⟩ := w
    · cases hremaining
    · cases hremaining
    · exact congrArg _ hreached
  constructor
  · rw [← h.paths_eq, modules, loadable, filterMap_map]
    exact filterMap_congr fun w hw => by rw [hrecorded w hw]; rfl
  · refine h.failures_perm.trans (.of_eq ?_)
    rw [← h.paths_eq, failing_eq_flatMap, flatMap_map]
    exact flatMap_congr fun w hw => by rw [hrecorded w hw]; rfl

lemma eq_failures_openAll {failures : List (String × Failure)} (hperm : failures.Perm (failing d paths))
    (hsorted : failures.Pairwise fun a b => Text.rank a.1 ≤ Text.rank b.1) : failures = (Scan.openAll d paths).failures := by
  have hload {a : String × Failure} (ha : a ∈ failing d paths) : LoadedModule.load d a.1 = .error a.2 := by
    obtain ⟨path, -, ha⟩ := mem_filterMap.1 ha
    split at ha <;> cases ha
    assumption
  have hperm' := perm_failures_openAll d paths
  refine List.Perm.eq_of_pairwise (fun a b ha hb hab hba => ?_) hsorted
    (pairwise_failures_openAll d paths) (hperm.trans hperm'.symm)
  -- failures with one path are equal
  have hpath : a.1 = b.1 := Text.rank_injective (le_antisymm hab hba)
  have ha := hload (hperm.mem_iff.1 ha)
  rw [hpath, hload (hperm'.mem_iff.1 hb)] at ha
  exact Prod.ext hpath (Except.error.inj ha).symm

def remaining (p : ParallelOpening) : Nat := (p.workers.map (·.2.remaining)).sum

lemma exists_isFinished (d : Disk) (p : ParallelOpening) : ∃ turns, (p.run d turns).isFinished := by
  induction hn : p.remaining using Nat.strong_induction_on generalizing p with
  | h n ih =>
    by_cases hfinished : p.isFinished = true
    · exact ⟨[], hfinished⟩
    obtain ⟨w, hw, hremaining⟩ := all_eq_false.1 (Bool.eq_false_iff.2 hfinished)
    obtain ⟨i, hi⟩ := mem_iff_getElem?.1 hw
    obtain ⟨front, back, hworkers, hstep⟩ := exists_step_eq (d := d) hi
    have hadvance := LoadProgress.remaining_advance (d := d) w.1 (by simpa using hremaining)
    have hless : (p.step d i).remaining < n := by
      simp only [← hn, remaining, hworkers, hstep, map_append, map_cons, sum_append, sum_cons]
      omega
    obtain ⟨turns, hturns⟩ := ih _ hless (p.step d i) rfl
    exact ⟨i :: turns, hturns⟩

end ParallelOpening

namespace Scan

/-- What opening files one after another gives: the modules that can be loaded, in the order of the
paths, and the failures of the others, by path. -/
structure Opened.IsOf (o : Opened) (d : Disk) (paths : List String) : Prop where
  paths_eq : o.modules.map (·.path) = paths.filter fun path => (LoadedModule.load d path).toBool
  loaded : ∀ m ∈ o.modules, LoadedModule.load d m.path = .ok m
  failures_perm : o.failures.Perm (failing d paths)
  failures_sorted : o.failures.Pairwise fun a b => Text.rank a.1 ≤ Text.rank b.1
  length_eq : o.modules.length + o.failures.length = paths.length

lemma length_loadable_add_failing (d : Disk) (paths : List String) :
    (loadable d paths).length + (failing d paths).length = paths.length := by
  induction paths with
  | nil => rfl
  | cons path paths ih =>
    rcases hload : LoadedModule.load d path with f | m <;>
      simp only [loadable, failing, filterMap_cons, hload, Except.toOption, length_cons] at ih ⊢ <;> omega

lemma isOf_openAll (d : Disk) (paths : List String) : (openAll d paths).IsOf d paths := by
  have hperm := ParallelOpening.perm_failures_openAll d paths
  refine ⟨?_, ?_, hperm, pairwise_failures_openAll d paths, ?_⟩
  · rw [modules_openAll, loadable, map_filterMap, ← filterMap_eq_filter]
    refine filterMap_congr fun path _ => ?_
    rcases hload : LoadedModule.load d path with f | m
    · simp [Option.guard, hload, Except.toOption, Except.toBool]
    · simp [Option.guard, hload, Except.toOption, Except.toBool, (LoadedModule.content_of_load hload).1]
  · rw [modules_openAll]
    intro m hm
    obtain ⟨path, -, hm⟩ := mem_filterMap.1 hm
    rcases hload : LoadedModule.load d path with f | m'
    · simp [hload, Except.toOption] at hm
    · rw [hload] at hm
      cases hm
      rw [(LoadedModule.content_of_load hload).1, hload]
  · rw [modules_openAll, hperm.length_eq, length_loadable_add_failing]

/-- Files are opened at the same time. Whatever turns were taken, opening can be finished; then the
modules in their slots and the failures, sorted by path in any way, are what opening the files one
after another gives. A file that cannot be loaded adds its failure and leaves all else as it is. -/
theorem opened_of_isFinished (d : Disk) (paths : List String) (turns : List Nat) :
    (∃ more, ((ParallelOpening.start paths).run d (turns ++ more)).isFinished = true) ∧
    (((ParallelOpening.start paths).run d turns).isFinished = true → ∀ failures : List (String × Failure),
      failures.Perm ((ParallelOpening.start paths).run d turns).failures →
      failures.Pairwise (fun a b => Text.rank a.1 ≤ Text.rank b.1) →
      openUnlessCanceled d paths false = .ok ⟨((ParallelOpening.start paths).run d turns).modules, failures⟩) ∧
    (openAll d paths).IsOf d paths ∧
    ∀ before path after f, paths = before ++ path :: after → LoadedModule.load d path = .error f →
      (openAll d paths).modules = (openAll d (before ++ after)).modules ∧
        (openAll d paths).failures.Perm ((path, f) :: (openAll d (before ++ after)).failures) := by
  refine ⟨?_, fun hfinished failures hperm hsorted => ?_, isOf_openAll d paths, ?_⟩
  · obtain ⟨more, hmore⟩ := ParallelOpening.exists_isFinished d ((ParallelOpening.start paths).run d turns)
    exact ⟨more, by rwa [ParallelOpening.run, foldl_append]⟩
  · obtain ⟨hmodules, hfailures⟩ := (ParallelOpening.follows_run d paths turns).of_isFinished hfinished
    rw [hmodules, ParallelOpening.eq_failures_openAll (hperm.trans hfailures) hsorted, ← modules_openAll]
    rfl
  · rintro before path after f rfl hload
    have hloadable : loadable d (before ++ path :: after) = loadable d (before ++ after) := by
      simp [loadable, hload, Except.toOption]
    have hfailing : failing d (before ++ path :: after) = failing d before ++ (path, f) :: failing d after := by
      simp [failing, hload]
    refine ⟨by rw [modules_openAll, modules_openAll, hloadable], ?_⟩
    refine (ParallelOpening.perm_failures_openAll d _).trans ?_
    rw [hfailing]
    refine perm_middle.trans (.cons _ ?_)
    exact (List.Perm.of_eq filterMap_append.symm).trans (ParallelOpening.perm_failures_openAll d _).symm

/-- A file that can be loaded and one that is missing are each given twice, with another missing
one. The failures are recorded in another order than that of their paths. -/
theorem opened_of_isFinished_cutDisk : ∃ m, m.content.name = "lib" ∧
    openUnlessCanceled cutDisk ["b.bcm", "lib.bcm", "b.bcm", "a.bcm", "lib.bcm"] false =
      .ok ⟨[m, m], ["a.bcm", "b.bcm", "b.bcm"].map fun path => (path, .load path (.io ⟨"open", path, .noSuchFile⟩))⟩ := by
  obtain ⟨m, hload, hcontent⟩ := exists_load_cutDisk
  have ha : LoadedModule.load cutDisk "a.bcm" = .error (.load "a.bcm" (.io ⟨"open", "a.bcm", .noSuchFile⟩)) := rfl
  have hb : LoadedModule.load cutDisk "b.bcm" = .error (.load "b.bcm" (.io ⟨"open", "b.bcm", .noSuchFile⟩)) := rfl
  have hopened := (opened_of_isFinished cutDisk ["b.bcm", "lib.bcm", "b.bcm", "a.bcm", "lib.bcm"]
    [4, 2, 0, 4, 0, 3, 1, 3, 2, 1]).2.1
  simp [ParallelOpening.run, ParallelOpening.start, ParallelOpening.step, LoadProgress.advance, hload, ha, hb,
    ParallelOpening.isFinished, LoadProgress.remaining] at hopened
  exact ⟨m, by rw [hcontent]; rfl, hopened _ (.swap ..) (by decide +kernel)⟩

/-! ### Spellings of found files -/

end Scan

lemma Path.clean_clean (path : String) : clean (clean path) = clean path := by
  rw [clean.eq_def (clean path), cleanElements_clean, isAbsolute_clean, ← clean.eq_def]

lemma Path.clean_join {path : String} (hpath : path ≠ "") (name : String) :
    clean (join [path, name]) = join [path, name] := by
  have hparts : ∃ parts, [path, name].filter (· != "") = path :: parts := ⟨_, filter_cons_of_pos (by simpa)⟩
  obtain ⟨parts, hparts⟩ := hparts
  rw [join, hparts, clean_clean]

lemma Disk.exists_find_of_stat {d : Disk} {path : String} {node : DiskNode} (h : d.stat path = .ok node) :
    ∃ p, d.find path = .ok (p, node) ∧ d.at? p = some node := by
  rcases hplace : d.place path with reason | p
  · simp [stat, find, hplace, during, bind, Except.bind, Except.map] at h
  rcases hat : d.at? p with _ | node' <;> simp [stat, find, hplace, hat, during, bind, Except.bind, Except.map] at h
  exact ⟨p, by simp [find, hplace, hat, bind, Except.bind, h], h ▸ hat⟩

lemma Disk.clean_of_mem_walk {d : Disk} {fuel : Nat} {path found : String} {p : Place} {node : DiskNode}
    (hpath : path ≠ "") (h : (found, node) ∈ d.walk fuel path p) :
    found = path ∧ d.at? p = some node ∨ Path.clean found = found := by
  induction fuel generalizing path p with
  | zero => exact absurd h not_mem_nil
  | succ n ih =>
    rw [walk] at h
    split at h
    · exact absurd h not_mem_nil
    · rename_i content hat
      cases mem_singleton.1 h
      exact .inl ⟨rfl, hat⟩
    · rename_i hat
      rw [mem_cons, mem_flatMap] at h
      rcases h with h | ⟨name, -, h⟩
      · cases h
        exact .inl ⟨rfl, hat⟩
      · have hjoin := Path.clean_join hpath name
        have hne : Path.join [path, name] ≠ "" := fun hempty => by
          rw [hempty] at hjoin
          exact absurd hjoin (by decide)
        rcases ih hne h with ⟨rfl, -⟩ | hclean
        · exact .inr hjoin
        · exact .inr hclean

namespace Scan

variable {d : Disk} {paths including excluding : List String} {path : String}

def filesAt (d : Disk) (including excluding : List String) (root : String) : List String :=
  (expandPath d including excluding root).toOption.getD []

lemma expandPath_of_isPresent {root : String} (h : d.isPresent root) :
    expandPath d including excluding root = .ok (filesAt d including excluding root) := by
  rcases hfind : d.find root with reason | ⟨p, content | _⟩
  · simp [Disk.isPresent, hfind] at h
  all_goals
    rw [filesAt, expandPath, Disk.stat, hfind]
    rfl

lemma discover_eq (h : ∀ root ∈ paths, d.isPresent root) : discover d paths including excluding =
      .ok ((paths.flatMap (filesAt d including excluding)).eraseDups.mergeSort (Text.rank · ≤ Text.rank ·)) := by
  have hall : paths.mapM (expandPath d including excluding) = .ok (paths.map (filesAt d including excluding)) := by
    induction paths with
    | nil => rfl
    | cons root paths ih =>
      obtain ⟨hroot, h⟩ := forall_mem_cons.1 h
      rw [mapM_cons, expandPath_of_isPresent hroot, ih h]
      rfl
  rw [discover, hall, flatMap_def]
  rfl

lemma mem_or_clean_of_mem_filesAt {root : String} (h : path ∈ filesAt d including excluding root) :
    path = root ∧ (∃ content, d.stat root = .ok (.file content)) ∨ Path.clean path = path := by
  rw [filesAt] at h
  rcases hfound : expandPath d including excluding root with f | found
  · simp [hfound, Except.toOption] at h
  rw [hfound, Except.toOption, Option.getD_some] at h
  rcases expandPath_cases hfound with ⟨hstat, rfl⟩ | ⟨hstat, rfl⟩
  · exact .inl ⟨mem_singleton.1 h, hstat⟩
  right
  obtain ⟨content, hwalk⟩ := (mem_modulesBelow.1 h).1
  obtain ⟨p, hfind, hat⟩ := Disk.exists_find_of_stat hstat
  have hroot : root ≠ "" := by
    rintro rfl
    cases hfind
  rw [Disk.walkFrom, hfind] at hwalk
  rcases Disk.clean_of_mem_walk hroot hwalk with ⟨-, hfile⟩ | hclean
  · cases hat.symm.trans hfile
  · exact hclean

/-- Roots that are there give their files in ascending order, each spelling once, and neither their
order nor naming one again matters. Two files have one clean spelling only where one of them is
itself among the roots and not spelled clean. -/
theorem discover_of_isPresent (d : Disk) (paths including excluding : List String)
    (h : ∀ root ∈ paths, d.isPresent root = true) :
    ∃ found, discover d paths including excluding = .ok found ∧ found.Pairwise (Text.rank · < Text.rank ·) ∧
      (∀ path, path ∈ found ↔ ∃ root ∈ paths, path ∈ filesAt d including excluding root) ∧
      (∀ paths', (∀ root, root ∈ paths' ↔ root ∈ paths) → discover d paths' including excluding = .ok found) ∧
      (∀ path ∈ found, ∀ path' ∈ found, Path.clean path = Path.clean path' → path ≠ path' →
        ∃ given ∈ [path, path'], given ∈ paths ∧ (∃ content, d.stat given = .ok (.file content)) ∧
          Path.clean given ≠ given) := by
  have hmem (paths : List String) (x : String) :
      x ∈ (paths.flatMap (filesAt d including excluding)).eraseDups.mergeSort (Text.rank · ≤ Text.rank ·) ↔
        ∃ root ∈ paths, x ∈ filesAt d including excluding root := by
    rw [mem_mergeSort, mem_eraseDups, mem_flatMap]
  have hascending (paths : List String) := Text.pairwise_sorted
    (CallGraph.nodup_eraseDups (paths.flatMap (filesAt d including excluding)))
  refine ⟨_, discover_eq h, hascending paths, hmem paths, fun paths' hpaths => ?_,
    fun path hpath path' hpath' hclean hne => ?_⟩
  · rw [discover_eq fun root hroot => h root ((hpaths root).1 hroot)]
    refine congrArg _ (Text.eq_of_ascending (hascending paths') (hascending paths) fun x => ?_)
    simp only [hmem, hpaths]
  · -- of two files that are spelled clean, neither could be the other
    have hgiven {x : String} (hx : ∃ root ∈ paths, x ∈ filesAt d including excluding root) (hspelled : Path.clean x ≠ x) :
        x ∈ paths ∧ (∃ content, d.stat x = .ok (.file content)) ∧ Path.clean x ≠ x := by
      obtain ⟨root, hroot, hx⟩ := hx
      rcases mem_or_clean_of_mem_filesAt hx with ⟨rfl, hstat⟩ | hx
      · exact ⟨hroot, hstat, hspelled⟩
      · exact absurd hx hspelled
    by_cases hspelled : Path.clean path = path
    · have hspelled' : Path.clean path' ≠ path' := fun h' => hne (by rw [← hspelled, hclean, h'])
      exact ⟨path', by simp, hgiven ((hmem paths path').1 hpath') hspelled'⟩
    · exact ⟨path, by simp, hgiven ((hmem paths path).1 hpath) hspelled⟩

/-- A directory with one module file in it. -/
def gameTree : Disk where
  nodes := [(["p"], .directory), (["p", "Game.bcm"], .file [])]

theorem discover_of_isPresent_gameTree : ∃ found, discover gameTree ["p", "p"] [] [] = .ok found ∧
    discover gameTree ["p"] [] [] = .ok found := by
  obtain ⟨found, hfound, -, -, hsame, -⟩ := discover_of_isPresent gameTree ["p", "p"] [] [] (by decide)
  exact ⟨found, hfound, hsame ["p"] (by simp)⟩

theorem exists_discover_twice : ∃ found, discover gameTree ["p", "./p/Game.bcm"] [] [] = .ok found ∧
    "p/Game.bcm" ∈ found ∧ "./p/Game.bcm" ∈ found ∧ Path.clean "./p/Game.bcm" = "p/Game.bcm" := by
  have hnames : gameTree.childNames ["p"] = ["Game.bcm"] := mergeSort_singleton _
  have hwalk : gameTree.walkFrom "p" = [("p", .directory), ("p/Game.bcm", .file [])] := by
    show ("p", DiskNode.directory) :: (gameTree.childNames ["p"]).flatMap _ = _
    rw [hnames]
    rfl
  have hbelow : "p/Game.bcm" ∈ modulesBelow gameTree [] [] "p" := by
    rw [modulesBelow, hwalk]
    decide +kernel
  refine ⟨_, discover_eq (by decide), ?_, ?_, by decide⟩
  · rw [mem_mergeSort, mem_eraseDups, mem_flatMap]
    exact ⟨"p", mem_cons_self, hbelow⟩
  · rw [mem_mergeSort, mem_eraseDups, mem_flatMap]
    exact ⟨"./p/Game.bcm", by simp, mem_singleton_self _⟩

end Scan

end BytecodeAudit
