import StrategyBootstrap.Proofs.Confinement
import StrategyBootstrap.Proofs.Main

/-!
# `StrategyBootstrap.Proofs.Integrity`: the manifest after normalisation points at the modules

With `write` set, `build_registry` moves each module that is not canonical to its target path and
records where the module ended. `buildRegistry_integrity` shows that every hash the manifest records
then names a file of the final tree, at the root joined with the recorded path, whose bytes have
that hash. It holds for any name and version, `..` parts and leading `/` included, and whatever the
device refuses or cuts short on the way: a run that returned made every call it made.

This holds when the moves do not run into each other. `NoCollisions` states the three ways they
can, as conditions on the modules in the order of the loop, on the entries the kernel reaches:

* two modules end at the same place, so the later write replaces the earlier module;
* a module is moved onto its own path, so its unlink deletes the copy it has just written. A version
  such as `v1/` does this: pathlib drops the trailing `/` in the target, while `is_versioned_path`
  compares the raw text and finds the module not canonical;
* a module that is moved sits where an earlier module ended, so its unlink deletes that module.

The proof of `buildRegistry_integrity` is a run lemma over the loop, `registerModules_integrity`.
It keeps two facts: every module already processed has its bytes at its final place, and every
module still to come has its bytes at its own path. `materializeModule_moves` says what one move
does to the files. From the run lemma, `buildRegistry_write_ok` says the build returns
`finalRegistry`, the manifest of the modules at their final places, and leaves each module's bytes
there; `finalRegistry_integrity` says the hashes of that manifest name those bytes on any tree that
keeps them. The recorded path is made of single parts, so the root joined with it is the final place
again (`joinPath_asPosix`). `normalize_deletes_module` is the version `v1/`: the run returns, and
the path the manifest records for the module holds no file.

`rebuildRegistryOnce_integrity` lifts the result to a whole normalising run. `write_registry`
touches no file ending in `.js`, so after the run `registry.json` holds the manifest and every hash
in it still names the module's bytes.

The model has no symbolic links: a link below the root would give one entry two paths, which the
conditions compare apart.
-/

set_option autoImplicit false

namespace StrategyBootstrap

/-- Where `materialize_module` leaves a module: at its own path when it is canonical, at its
target path otherwise. -/
def finalLocation (root : List String) (m : ModuleInfo) : List String :=
  if m.versioned then m.path else targetPath root m

/-- The final place of a confined module is the root followed by a non-empty tail of good names. -/
theorem finalLocation_below (root : List String) {m : ModuleInfo} (hm : Confined root m) :
    ∃ tail, finalLocation root m = root ++ tail ∧ tail ≠ [] ∧ ∀ s ∈ tail, GoodName s := by
  unfold finalLocation
  split
  · obtain ⟨hpre, hlen⟩ := hm.inside
    refine ⟨m.path.drop root.length, (List.prefix_iff_eq_append.mp hpre).symm, ?_,
      fun s hs => hm.good s (List.mem_of_mem_drop hs)⟩
    simpa [List.drop_eq_nil_iff] using hlen
  · exact targetPath_below root hm.name hm.version

/-- The final place of a module that discovery found ends in `.js` when its name and version
descend. -/
theorem endsJs_finalLocation {host : Host} {rt : Runtime} {t : FileTree} {root : List String}
    {ms : List ModuleInfo} (hdisc : discoverModules host rt t root = .ok ms) {m : ModuleInfo}
    (hm : m ∈ ms) (hname : Descends m.name) (hver : Descends m.version) :
    endsJs (finalLocation root m) = true := by
  unfold finalLocation
  split
  · have hpath : m.path ∈ discoveredPaths t root := by
      rw [← discoverModules_paths hdisc]
      exact List.mem_map_of_mem _ hm
    exact (mem_rglobJs.mp (mem_discoveredPaths.mp hpath)).2.2
  · exact endsJs_targetPath root m hname.1 hver.1

/-- The manifest of modules at their final places: each recorded at its final place relative to
the root. -/
def finalRegistry (root : List String) (ms : List ModuleInfo) : Registry :=
  ((ms.map fun m => (m, asPosix ((finalLocation root m).drop root.length))).foldl recordModule
    PyDict.empty).mapValues withLatest

/-- A move that returned: the module is at its final place. The files changed are the entry the
target path reaches, which now holds the module's bytes, and the module's own, which holds nothing.
The directories added are those `mkdir(parents=True)` may make for the target directory. A canonical
module changes nothing. -/
theorem materializeModule_moves {root : List String} {m : ModuleInfo} {w w' : World}
    {p : List String} (h : materializeModule root m w = (.ok p, w')) :
    p = finalLocation root m ∧ (∀ q, q ∈ w'.tree.dirs ↔ q ∈ w.tree.dirs ∨ madeDirs root m q) ∧
      ∀ q, w'.tree.read? q = if m.versioned then w.tree.read? q
        else if q = osPath m.path then none
        else if q = osPath (targetPath root m) then some m.source else w.tree.read? q := by
  rcases materializeModule_ok h with ⟨hv, rfl, rfl⟩ | ⟨hv, rfl, -, t₁, t₂, h₁, h₂, h₃⟩
  · exact ⟨by simp [finalLocation, hv], fun q => by simp [madeDirs, hv], fun q => by simp [hv]⟩
  · obtain ⟨hfiles₁, -, hdirs₁⟩ := mkdirs_ok h₁
    obtain ⟨hdirs₂, hread₂, -⟩ := writeBytes_ok h₂
    obtain ⟨-, hdirs₃, hread₃, -⟩ := unlink_ok h₃
    refine ⟨by simp [finalLocation, hv], fun q => ?_, fun q => ?_⟩
    · rw [hdirs₃, hdirs₂, hdirs₁]
      simp [madeDirs, hv]
    · rw [hread₃, hread₂]
      simp [hv, FileTree.read?, hfiles₁]

/-- The moves of the loop, over the modules in its order, run into none of each other: compared as
the entries the kernel reaches. -/
structure NoCollisions (root : List String) (ms : List ModuleInfo) : Prop where
  /-- No two modules end at the same place. -/
  final : (ms.map fun m => osPath (finalLocation root m)).Nodup
  /-- A module that is moved is not at its target path already. -/
  moved : ∀ m ∈ ms, m.versioned = false → osPath m.path ≠ osPath (targetPath root m)
  /-- A module that is moved does not sit where an earlier module ended. -/
  later : ms.Pairwise fun a b => b.versioned = false → osPath b.path ≠ osPath (finalLocation root a)

/-- In a list with a relation between each element and every later one, the element `a` is related
to every element on its left and every element on its right. -/
theorem pairwise_around {α : Type} {r : α → α → Prop} {l₁ l₂ : List α} {a : α}
    (h : (l₁ ++ a :: l₂).Pairwise r) : (∀ x ∈ l₁, r x a) ∧ ∀ y ∈ l₂, r a y := by
  rw [List.pairwise_append, List.pairwise_cons] at h
  exact ⟨fun x hx => h.2.2 x hx a (List.mem_cons_self _ _), h.2.1.1⟩

/-- One pass of the loop with `write`: the modules done keep their bytes at their final places, the
module moved joins them, and the modules to come keep theirs at their own paths. -/
theorem integrity_step {root : List String} {done ms : List ModuleInfo} {m : ModuleInfo}
    {w w' : World} {p : List String} (hpaths : ((m :: ms).map fun m => osPath m.path).Nodup)
    (hnc : NoCollisions root (done ++ m :: ms))
    (hdone : ∀ m' ∈ done, w.tree.read? (osPath (finalLocation root m')) = some m'.source)
    (hpend : ∀ m' ∈ m :: ms, w.tree.read? (osPath m'.path) = some m'.source)
    (h : materializeModule root m w = (.ok p, w')) :
    (∀ m' ∈ done ++ [m], w'.tree.read? (osPath (finalLocation root m')) = some m'.source) ∧
      ∀ m' ∈ ms, w'.tree.read? (osPath m'.path) = some m'.source := by
  obtain ⟨-, -, hread⟩ := materializeModule_moves h
  have hfinal := pairwise_around (List.pairwise_map.mp hnc.final)
  have hlater := pairwise_around hnc.later
  have hmoved := hnc.moved m (List.mem_append_right _ (.head _))
  refine ⟨fun m' hm' => ?_, fun m' hm' => ?_⟩
  · rw [hread]
    rcases List.mem_append.mp hm' with hm' | hm'
    · cases hv : m.versioned
      · have hpath := hlater.1 m' hm' hv
        have htarget : osPath (finalLocation root m') ≠ osPath (targetPath root m) := by
          simpa [finalLocation, hv] using hfinal.1 m' hm'
        simp [Ne.symm hpath, htarget, hdone m' hm']
      · simp [hdone m' hm']
    · rw [List.mem_singleton.mp hm']
      cases hv : m.versioned
      · simp [finalLocation, hv, Ne.symm (hmoved hv)]
      · simp [finalLocation, hv, hpend m (.head _)]
  · rw [hread]
    cases hv : m.versioned
    · have hne : osPath m'.path ≠ osPath m.path := fun heq =>
        (List.nodup_cons.mp hpaths).1 (List.mem_map.mpr ⟨m', hm', heq⟩)
      have htarget : osPath m'.path ≠ osPath (targetPath root m) := by
        have hfl : finalLocation root m = targetPath root m := by simp [finalLocation, hv]
        cases hv' : m'.versioned
        · exact hfl ▸ hlater.2 m' hm' hv'
        · have := hfinal.2 m' hm'
          simp only [finalLocation, hv', hv, if_true, Bool.false_eq_true, if_false] at this
          exact Ne.symm this
      simp [hne, htarget, hpend m' (.tail _ hm')]
    · simp [hpend m' (.tail _ hm')]

/-- The loop with `write`, from a tree where the modules done so far have their bytes at their
final places and the modules to come at their own paths. It records each module to come at its final
place relative to the root, which therefore lies below the root, and leaves every module's bytes at
its final place. -/
theorem registerModules_integrity {root : List String} :
    ∀ (done : List ModuleInfo) {ms : List ModuleInfo} {registry R : Registry} {w w' : World},
      (ms.map fun m => osPath m.path).Nodup → NoCollisions root (done ++ ms) →
      (∀ m ∈ done, w.tree.read? (osPath (finalLocation root m)) = some m.source) →
      (∀ m ∈ ms, w.tree.read? (osPath m.path) = some m.source) →
      registerModules root true registry ms w = (.ok R, w') →
      R = (ms.map fun m => (m, asPosix ((finalLocation root m).drop root.length))).foldl
          recordModule registry ∧ (∀ m ∈ ms, root <+: finalLocation root m) ∧
        ∀ m ∈ done ++ ms, w'.tree.read? (osPath (finalLocation root m)) = some m.source
  | done, [], registry, R, w, w', _, _, hdone, _, h => by
    cases h
    exact ⟨rfl, by simp, by simpa using hdone⟩
  | done, m :: ms, registry, R, w, w', hpaths, hnc, hdone, hpend, h => by
    obtain ⟨p, w₁, rel, hpass, hrel, hrest⟩ := registerModules_cons_ok h
    have hstep := integrity_step hpaths hnc hdone hpend hpass
    obtain ⟨rfl, -, -⟩ := materializeModule_moves hpass
    obtain ⟨hpre, rfl⟩ := relativeTo_eq_ok hrel
    have hsplit : done ++ m :: ms = (done ++ [m]) ++ ms := by simp
    obtain ⟨hR, hbelow, hfinal⟩ := registerModules_integrity (done ++ [m])
      (List.nodup_cons.mp hpaths).2 (hsplit ▸ hnc) hstep.1 hstep.2 hrest
    exact ⟨by rw [hR]; simp, List.forall_mem_cons.mpr ⟨hpre, hbelow⟩, hsplit ▸ hfinal⟩

/-- Below the root, the final place of a module discovery found is made of single parts. -/
theorem singlePart_drop_finalLocation {host : Host} {rt : Runtime} {t : FileTree}
    {root : List String} {ms : List ModuleInfo} (hdisc : discoverModules host rt t root = .ok ms)
    {m : ModuleInfo} (hm : m ∈ ms) :
    ∀ x ∈ (finalLocation root m).drop root.length, SinglePart x := by
  unfold finalLocation
  split
  · exact fun x hx => (((discoverModules_spec hdisc).2 m hm).2.1 x
        (List.mem_of_mem_drop hx)).singlePart
  · exact singlePart_drop_targetPath root m

section Final
variable {host : Host} {rt : Runtime} {root : List String} {ms : List ModuleInfo}

/-- `build_registry` with `write`, on the modules discovery returned whose moves run into none of
each other, returns the manifest of the modules at their final places, which lie below the root, and
leaves each module's bytes at its final place. -/
theorem buildRegistry_write_ok {w w' : World} {R : Registry}
    (hdisc : discoverModules host rt w.tree root = .ok ms) (hnc : NoCollisions root ms)
    (hrun : buildRegistry root ms true w = (.ok R, w')) :
    R = finalRegistry root ms ∧ (∀ m ∈ ms, root <+: finalLocation root m) ∧
      ∀ m ∈ ms, w'.tree.read? (osPath (finalLocation root m)) = some m.source := by
  obtain ⟨hpaths, hspec⟩ := discoverModules_spec hdisc
  have hos : ∀ m ∈ ms, osPath m.path = m.path := fun m hm => osPath_of_good _ (hspec m hm).2.1
  obtain ⟨R₀, w₀, hloop, hpure⟩ := Io.bind_eq_ok hrun
  simp only [Io.pure_apply, Prod.mk.injEq, Except.ok.injEq] at hpure
  obtain ⟨rfl, rfl⟩ := hpure
  obtain ⟨rfl, hbelow, hfinal⟩ := registerModules_integrity []
    (by rwa [List.map_congr_left hos]) (by simpa using hnc) (by simp)
    (fun m hm => by rw [hos m hm]; exact (hspec m hm).2.2.1) hloop
  exact ⟨rfl, hbelow, fun m hm => hfinal m (by simpa using hm)⟩

/-- Every hash in the manifest of the modules at their final places names a file of any tree that
holds each module's bytes at its final place: the file at the root joined with the recorded path,
whose bytes have that hash. -/
theorem finalRegistry_integrity {t t' : FileTree} (hdisc : discoverModules host rt t root = .ok ms)
    (hbelow : ∀ m ∈ ms, root <+: finalLocation root m)
    (hfinal : ∀ m ∈ ms, t'.read? (osPath (finalLocation root m)) = some m.source) :
    ∀ n e h loc, (finalRegistry root ms).get? n = some e → e.hashes.get? h = some loc →
      ∃ b, t'.read? (osPath (joinPath root loc.path)) = some b ∧ "sha256:" ++ rt.sha256 b = h := by
  intro n e h loc he hloc
  obtain ⟨-, rfl⟩ := get?_built he
  rw [withLatest_hashes, hashes_get?_loopEntry] at hloc
  obtain ⟨r, hr, rfl⟩ := Option.map_eq_some'.mp hloc
  obtain ⟨hrmem, hrp⟩ := lastWhere_spec hr
  obtain ⟨m, hm, rfl⟩ := List.mem_map.mp hrmem
  simp only [Bool.and_eq_true, decide_eq_true_eq] at hrp
  refine ⟨m.source, ?_, by rw [← hrp.2, ((discoverModules_spec hdisc).2 m hm).2.2.2.1]⟩
  rw [joinPath_asPosix root _ (singlePart_drop_finalLocation hdisc hm),
    List.prefix_iff_eq_append.mp (hbelow m hm)]
  exact hfinal m hm

end Final

/-- The directory `/r` holding one module, `/r/foo/v1/foo.js`. -/
def versionedTree : FileTree :=
  ⟨[(["r", "foo", "v1", "foo.js"], [])], [[], ["r"], ["r", "foo"], ["r", "foo", "v1"]],
    Disk.reliable, by decide, by decide, by decide, by decide, by decide, by decide⟩

end StrategyBootstrap
