import BytecodeAudit.Proofs.Disk.Spelling
import BytecodeAudit.Watch.Basic

/-!
# Audited files and watched files

A change is judged by all roots together: any of them can exclude it. A root never excludes what it
found by walking (`excludes_eq_false_of_walks`), so a file that was found and whose changes are
ignored was either named among the roots itself, or is excluded from a root that holds, or lies in,
the one that found it (`isNested_of_excludes`). Roots of which none holds another have every file
watched that they find.
-/

namespace BytecodeAudit

open List

namespace Disk

variable {d : Disk}

def IsNamed (d : Disk) : Prop := ∀ node ∈ d.nodes, ∀ name ∈ node.1, Path.IsName name

instance (d : Disk) : Decidable d.IsNamed :=
  inferInstanceAs (Decidable (∀ node ∈ d.nodes, ∀ name ∈ node.1, Path.IsName name))

lemma IsNamed.isName_of_mem_childNames (hd : d.IsNamed) {p : Place} {name : String} (h : name ∈ d.childNames p) :
    Path.IsName name := by
  obtain ⟨⟨q, node⟩, hnode, hlast⟩ := mem_filterMap.1 (mem_mergeSort.1 h)
  dsimp only at hlast
  split at hlast
  · exact hd (q, node) hnode name (mem_of_getLast? hlast)
  · contradiction

lemma IsNamed.isWithin_of_mem_walk (hd : d.IsNamed) {fuel : Nat} {path found : String} {p : Place} {node : DiskNode}
    (hpath : path ≠ "") (h : (found, node) ∈ d.walk fuel path p) : Path.IsWithin path found := by
  induction fuel generalizing path p with
  | zero => exact absurd h not_mem_nil
  | succ n ih =>
    rw [walk] at h
    split at h
    · exact absurd h not_mem_nil
    · rw [mem_singleton, Prod.mk.injEq] at h
      exact h.1 ▸ Path.isWithin_refl path
    · rw [mem_cons, mem_flatMap] at h
      rcases h with h | ⟨name, hname, h⟩
      · rw [Prod.mk.injEq] at h
        exact h.1 ▸ Path.isWithin_refl path
      · have hname := hd.isName_of_mem_childNames hname
        exact (Path.isWithin_join hpath hname).trans (ih (Path.join_ne_empty hpath hname) h)

lemma IsNamed.isWithin_of_mem_walkFrom (hd : d.IsNamed) {root found : String} {node : DiskNode}
    (h : (found, node) ∈ d.walkFrom root) : Path.IsWithin root found := by
  rw [walkFrom] at h
  split at h
  · refine hd.isWithin_of_mem_walk ?_ h
    rintro rfl
    contradiction
  · exact absurd h not_mem_nil

end Disk

namespace Scan

variable {d : Disk} {including excluding : List String} {root path : String}

lemma mem_modulesBelow : path ∈ modulesBelow d including excluding root ↔
      (∃ content, (path, .file content) ∈ d.walkFrom root) ∧ Module.isModulePath path ∧
        isAdmitted including excluding ((Path.relative root path).getD path) = true := by
  rw [modulesBelow, mem_filterMap]
  constructor
  · rintro ⟨⟨path', node⟩, hmem, hnode⟩
    cases node with
    | directory => contradiction
    | file content =>
      dsimp only at hnode
      split at hnode
      · rename_i hadmitted
        cases hnode
        exact ⟨⟨content, hmem⟩, Bool.and_eq_true_iff.1 hadmitted⟩
      · contradiction
  · rintro ⟨⟨content, hmem⟩, hmodule, hadmitted⟩
    exact ⟨(path, .file content), hmem, by simp [hmodule, hadmitted]⟩

lemma expandPath_cases {found : List String} (h : expandPath d including excluding root = .ok found) :
    (∃ content, d.stat root = .ok (.file content)) ∧ found = [root] ∨
      d.stat root = .ok .directory ∧ found = modulesBelow d including excluding root := by
  rw [expandPath] at h
  rcases hstat : d.stat root with e | content | _
  · rw [hstat] at h
    contradiction
  · rw [hstat] at h
    cases h
    exact .inl ⟨⟨content, rfl⟩, rfl⟩
  · rw [hstat] at h
    cases h
    exact .inr ⟨rfl, rfl⟩

lemma exists_of_mem_mapM {α β ε : Type} {f : α → Except ε β} {xs : List α} {ys : List β}
    (h : xs.mapM f = .ok ys) {y : β} (hy : y ∈ ys) : ∃ x ∈ xs, f x = .ok y := by
  induction xs generalizing ys with
  | nil =>
    cases h
    exact absurd hy not_mem_nil
  | cons x xs ih =>
    rw [mapM_cons] at h
    rcases hx : f x with e | z
    · rw [hx] at h
      contradiction
    rcases hxs : xs.mapM f with e | zs
    · rw [hx, hxs] at h
      contradiction
    rw [hx, hxs] at h
    cases h
    rcases mem_cons.1 hy with rfl | hy
    · exact ⟨x, mem_cons_self, hx⟩
    · obtain ⟨x', hx', hfx'⟩ := ih hxs hy
      exact ⟨x', mem_cons_of_mem x hx', hfx'⟩

lemma exists_expandPath_of_discover {paths found : List String}
    (h : discover d paths including excluding = .ok found) (hpath : path ∈ found) :
    ∃ root ∈ paths, ∃ below, expandPath d including excluding root = .ok below ∧ path ∈ below := by
  rw [discover] at h
  rcases hfound : paths.mapM (expandPath d including excluding) with e | belows
  · rw [hfound] at h
    contradiction
  rw [hfound] at h
  cases h
  rw [mem_mergeSort, mem_eraseDups, mem_flatten] at hpath
  obtain ⟨below, hbelow, hpath⟩ := hpath
  obtain ⟨root, hroot, hexpand⟩ := exists_of_mem_mapM hfound hbelow
  exact ⟨root, hroot, below, hexpand, hpath⟩

end Scan

namespace Watcher

variable {w : Watcher} {d : Disk} {root root' path : String}

def Walks (w : Watcher) (d : Disk) (root path : String) : Prop :=
  d.stat root = .ok .directory ∧ path ∈ Scan.modulesBelow d w.included w.excluded root

def IsGiven (w : Watcher) (d : Disk) (path : String) : Prop :=
  path ∈ w.roots ∧ ∃ content, d.stat path = .ok (.file content)

lemma isGiven_or_walks {paths : List String} (h : Scan.discover d w.roots w.included w.excluded = .ok paths)
    (hpath : path ∈ paths) : w.IsGiven d path ∨ ∃ root ∈ w.roots, w.Walks d root path := by
  obtain ⟨root, hroot, below, hbelow, hpath⟩ := Scan.exists_expandPath_of_discover h hpath
  rcases Scan.expandPath_cases hbelow with ⟨hstat, rfl⟩ | ⟨hstat, rfl⟩
  · rw [mem_singleton] at hpath
    subst hpath
    exact .inl ⟨hroot, hstat⟩
  · exact .inr ⟨root, hroot, hstat, hpath⟩

lemma isModulePath_of_walks (h : w.Walks d root path) : Module.isModulePath path :=
  (Scan.mem_modulesBelow.1 h.2).2.1

lemma excludes_eq_false_of_walks (h : w.Walks d root path) : w.excludes root path false = false := by
  have hadmitted := (Scan.mem_modulesBelow.1 h.2).2.2
  rw [excludes]
  rcases hrel : Path.relative root path with _ | rel
  · rfl
  · rw [hrel, Option.getD_some, Scan.isAdmitted, Bool.and_eq_true, Bool.not_eq_true'] at hadmitted
    show (!rel.startsWith ".." && Glob.anyMatch w.excluded rel) = false
    rw [hadmitted.1, Bool.and_false]

lemma excludes_congr (habsolute : Path.isAbsolute root = Path.isAbsolute root')
    (helements : Path.cleanElements root = Path.cleanElements root') (isDirectory : Bool) :
    w.excludes root path isDirectory = w.excludes root' path isDirectory := by
  rw [excludes, excludes, Path.relative_congr habsolute helements]

lemma isWithin_of_excludes {isDirectory : Bool} (h : w.excludes root path isDirectory) : Path.IsWithin root path := by
  rw [excludes] at h
  split at h
  · contradiction
  · rename_i rel hrel
    rw [Bool.and_eq_true, Bool.not_eq_true'] at h
    exact Path.isWithin_of_relative hrel h.1

lemma isNested_of_excludes (hd : d.IsNamed) (hwalks : w.Walks d root' path)
    (h : w.excludes root path false) : Path.IsNested root root' := by
  obtain ⟨content, hmem⟩ := (Scan.mem_modulesBelow.1 hwalks.2).1
  have hwithin := hd.isWithin_of_mem_walkFrom hmem
  -- both roots lie on the way to the path, so one of them continues the other
  rcases (isWithin_of_excludes h).isNested_or hwithin with hnested | ⟨habsolute, helements⟩
  · exact hnested
  · -- two spellings of one directory judge alike
    rw [excludes_congr habsolute helements, excludes_eq_false_of_walks hwalks] at h
    contradiction

lemma isRelevant_eq_false_iff : w.isRelevant path = false ↔ w.isSettings path = false ∧
      (Module.isModulePath path = false ∧ Module.isSymbolsPath path = false ∨
        ∃ root ∈ w.roots, w.excludes root path false) := by
  simp only [isRelevant, Bool.or_eq_false_iff, Bool.and_eq_false_iff, all_eq_false, Bool.not_eq_true',
    Bool.not_eq_false]

/-- Which of the files of an audit can change unnoticed. A file that was found below a root is
ignored exactly when a root excludes it that holds the one that found it or lies in it; a file that
is itself a root, also by its name. Where the roots are directories of which none holds another,
every file of the audit is watched. -/
theorem isRelevant_of_discover (hd : d.IsNamed) {paths : List String}
    (h : Scan.discover d w.roots w.included w.excluded = .ok paths) :
    (∀ path ∈ paths, w.isRelevant path = false ↔ w.isSettings path = false ∧
      (w.IsGiven d path ∧ Module.isModulePath path = false ∧ Module.isSymbolsPath path = false ∨
        ∃ root ∈ w.roots, w.excludes root path false = true ∧
          ∀ root' ∈ w.roots, w.Walks d root' path → Path.IsNested root root')) ∧
    ((∀ root ∈ w.roots, d.stat root = .ok .directory) →
      (∀ root ∈ w.roots, ∀ root' ∈ w.roots, ¬ Path.IsNested root root') → ∀ path ∈ paths, w.isRelevant path = true) := by
  constructor
  · intro path hpath
    rw [isRelevant_eq_false_iff]
    refine and_congr_right fun _ => or_congr ?_ ?_
    · -- what is found by walking has the name of a module
      refine ⟨fun hother => ⟨?_, hother⟩, And.right⟩
      rcases isGiven_or_walks h hpath with hgiven | ⟨root, -, hwalks⟩
      · exact hgiven
      · rw [isModulePath_of_walks hwalks] at hother
        exact absurd hother.1 (by decide)
    · refine exists_congr fun root => and_congr_right fun _ => ?_
      exact ⟨fun hexcludes => ⟨hexcludes, fun root' _ hwalks => isNested_of_excludes hd hwalks hexcludes⟩, And.left⟩
  · intro hdirectories happart path hpath
    rcases isGiven_or_walks h hpath with ⟨hroot, content, hstat⟩ | ⟨root', hroot', hwalks⟩
    · rw [hdirectories path hroot] at hstat
      cases hstat
    · rw [← Bool.not_eq_false, isRelevant_eq_false_iff]
      rintro ⟨-, ⟨hmodule, -⟩ | ⟨root, hroot, hexcludes⟩⟩
      · rw [isModulePath_of_walks hwalks] at hmodule
        contradiction
      · exact happart root hroot root' hroot' (isNested_of_excludes hd hwalks hexcludes)

/-! ### Nested roots -/

def buildTree : Disk where
  nodes := [(["game"], .directory), (["game", "obj"], .directory), (["game", "obj", "Lib.bcm"], .file [])]

def buildWatcher : Watcher where
  roots := ["game", "game/obj"]
  excluded := ["**/obj/**", "**/.auger/**"]

lemma isNamed_buildTree : buildTree.IsNamed := by decide

lemma discover_buildTree : Scan.discover buildTree buildWatcher.roots buildWatcher.included buildWatcher.excluded =
      .ok ["game/obj/Lib.bcm"] := by
  have hgame : buildTree.childNames ["game"] = ["obj"] := mergeSort_singleton _
  have hobj : buildTree.childNames ["game", "obj"] = ["Lib.bcm"] := mergeSort_singleton _
  have hwalkObj (n : Nat) : buildTree.walk (n + 2) "game/obj" ["game", "obj"] =
      [("game/obj", .directory), ("game/obj/Lib.bcm", .file [])] := by
    show ("game/obj", DiskNode.directory) :: (buildTree.childNames ["game", "obj"]).flatMap _ = _
    rw [hobj]
    rfl
  have hwalkGame : buildTree.walk 4 "game" ["game"] =
      [("game", .directory), ("game/obj", .directory), ("game/obj/Lib.bcm", .file [])] := by
    show ("game", DiskNode.directory) :: (buildTree.childNames ["game"]).flatMap _ = _
    rw [hgame, flatMap_singleton]
    exact congrArg (_ :: ·) (hwalkObj 1)
  have hbelowGame : Scan.modulesBelow buildTree [] buildWatcher.excluded "game" = [] := by
    show (buildTree.walk 4 "game" ["game"]).filterMap _ = _
    rw [hwalkGame]
    decide +kernel
  have hbelowObj : Scan.modulesBelow buildTree [] buildWatcher.excluded "game/obj" = ["game/obj/Lib.bcm"] := by
    show (buildTree.walk 4 "game/obj" ["game", "obj"]).filterMap _ = _
    rw [hwalkObj]
    decide +kernel
  show Except.ok (([Scan.modulesBelow buildTree [] buildWatcher.excluded "game",
    Scan.modulesBelow buildTree [] buildWatcher.excluded "game/obj"].flatten.eraseDups).mergeSort _) = _
  rw [hbelowGame, hbelowObj]
  exact congrArg _ (mergeSort_singleton _)

/-- A file that one root finds and another one excludes is audited and not watched. -/
theorem discover_buildTree_not_isRelevant :
    Scan.discover buildTree buildWatcher.roots buildWatcher.included buildWatcher.excluded =
        .ok ["game/obj/Lib.bcm"] ∧
      buildWatcher.isRelevant "game/obj/Lib.bcm" = false :=
  ⟨discover_buildTree, by decide +kernel⟩

/-- The file that is not watched was found below the inner root, and the outer root excludes it. -/
theorem isRelevant_of_discover_buildTree :
    (buildTree.IsNamed ∧ Scan.discover buildTree buildWatcher.roots buildWatcher.included buildWatcher.excluded =
      .ok ["game/obj/Lib.bcm"]) ∧
    ∃ root ∈ buildWatcher.roots, buildWatcher.excludes root "game/obj/Lib.bcm" false = true ∧
      ∀ root' ∈ buildWatcher.roots, buildWatcher.Walks buildTree root' "game/obj/Lib.bcm" →
        Path.IsNested root root' := by
  refine ⟨⟨isNamed_buildTree, discover_buildTree⟩, ?_⟩
  have hignored := (isRelevant_of_discover isNamed_buildTree discover_buildTree).1 _ (List.mem_singleton_self _)
  obtain ⟨-, hgiven | hexcluded⟩ := hignored.1 (by decide +kernel)
  · exact absurd hgiven.2.1 (by decide +kernel)
  · exact hexcluded

end Watcher

end BytecodeAudit
