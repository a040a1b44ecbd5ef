import StrategyBootstrap.Proofs.Integrity
import StrategyBootstrap.Proofs.Main

/-!
# `StrategyBootstrap.Proofs.Idempotence`: a second normalising run changes nothing

A normalising run is `rebuild_registry_once(root, write=True)`: discovery, `build_registry` with
`write`, and `write_registry`. `rebuildRegistryOnce_idempotent` takes a first run that returned and
shows that a second run on the tree it left also returns. The second run changes no file but
`registry.json` and no directory, and its manifest is the first one as a mapping: the same names,
the same tags with the same hashes, and the same hashes with the same tag and path.

The second run finds the modules of the first at their final places (`registerModules_globbed`),
where the kernel reaches them (`registerModules_reachable`), loads each as the same module, now
canonical (`loadModule_final`), and so moves none of them (`secondRun_spec`). Its manifest records
the same modules at the same paths, in another order. The order does not matter when each name has
each version once and each hash once (`built_sameManifest`). From then on nothing changes:
`rebuildRegistryOnce_fixed_point` says a third run returns the second manifest and leaves the tree
as it was, `registry.json` included.

The conditions of the theorem are those of `buildRegistry_integrity`, with each name and version a
single part that the glob `*.js` does not match, a device that carries every call out, and `node`
printing for each module, wherever its bytes are, the metadata it printed in the first run
(`MetadataFollowsBytes`): the script names the module's path only when it fails. The model has no
symbolic links. `normalize_twice_deletes_module` is the version `v1/`, where the first run returns
and the second deletes the module it moved.
-/

set_option autoImplicit false

namespace StrategyBootstrap

/-! ### What `rglob` finds after the moves -/

/-- A name or a version that makes a single directory, one that the glob `*.js` does not match. -/
def PlainDir (s : String) : Prop := GoodName s ∧ endsJs [s] = false

instance : DecidablePred PlainDir := fun s =>
  inferInstanceAs (Decidable (GoodName s ∧ endsJs [s] = false))

theorem descends_of_good {s : String} (hs : GoodName s) : Descends s :=
  ⟨fun h => hs.2.2.2 (List.mem_of_mem_head? h), by
    rw [segments_of_plain _ hs.2.2.2 hs.1 hs.2.1, List.mem_singleton]
    exact fun h => hs.2.2.1 h.symm⟩

/-- A path strictly below `root` on the way to `root/a/b` is `root/a` or `root/a/b`. -/
theorem eq_of_prefix_append_pair {root q : List String} {a b : String}
    (hq : q <+: root ++ [a, b]) (hlen : root.length < q.length) :
    q = root ++ [a] ∨ q = root ++ [a, b] := by
  have hle := hq.length_le
  simp only [List.length_append, List.length_cons, List.length_nil] at hle
  rw [List.prefix_iff_eq_take.mp hq]
  obtain h | h : q.length = root.length + 1 ∨ q.length = root.length + 2 := by omega
  · exact .inl (by rw [h, List.take_append_eq_append_take]; simp)
  · exact .inr (by rw [h, List.take_append_eq_append_take]; simp)

/-- What `rglob` can find in a tree during the loop: no directory below the root whose name ends in
`.js`, and no such file but the final places of the modules done and the paths of the modules to
come. -/
structure Globbed (root : List String) (done pending : List ModuleInfo) (t : FileTree) : Prop where
  /-- No directory strictly below the root ends in `.js`. -/
  dirs : ∀ q ∈ t.dirs, StrictlyInside root q → endsJs q = false
  /-- Each file strictly below the root that ends in `.js` is a module's. -/
  files : ∀ q, (t.read? q).isSome → StrictlyInside root q → endsJs q = true →
    q ∈ done.map (finalLocation root) ∨ q ∈ pending.map (·.path)

/-- One pass of the loop keeps `Globbed`, with the module moved from the pending ones to the done
ones. -/
theorem globbed_step {root : List String} {done ms : List ModuleInfo} {m : ModuleInfo}
    {w w' : World} {p : List String} (hroot : root ∈ w.tree.dirs) (hm : Confined root m)
    (hplain : PlainDir m.name ∧ PlainDir m.version) (hg : Globbed root done (m :: ms) w.tree)
    (h : materializeModule root m w = (.ok p, w')) : Globbed root (done ++ [m]) ms w'.tree := by
  obtain ⟨-, hdirs, hread⟩ := materializeModule_moves h
  have hgood : ∀ s ∈ root ++ [m.name, m.version], GoodName s := fun s hs => by
    rcases List.mem_append.mp hs with hs | hs
    · exact w.tree.dirs_good root hroot s hs
    · simp only [List.mem_cons, List.mem_singleton, List.not_mem_nil, or_false] at hs
      rcases hs with rfl | rfl
      exacts [hplain.1.1, hplain.2.1]
  have htarget : osPath (targetPath root m) = targetPath root m := by
    rw [targetPath_of_single root m hplain.1.1.singlePart hplain.2.1.singlePart,
      show root ++ [m.name, m.version, m.name ++ ".js"] = (root ++ [m.name, m.version]) ++
        [m.name ++ ".js"] by simp]
    exact osPath_of_good _ fun s hs => (List.mem_append.mp hs).elim (hgood s)
      fun hs => by rw [List.mem_singleton.mp hs]; exact goodName_append_js hplain.1.1.singlePart
  have hold : ∀ q, (w.tree.read? q).isSome → StrictlyInside root q → endsJs q = true →
      q ≠ m.path → q ∈ (done ++ [m]).map (finalLocation root) ∨ q ∈ ms.map (·.path) := by
    intro q hq hin hjs hne
    rcases hg.files q hq hin hjs with hq | hq
    · exact .inl (by simp [hq])
    · rw [List.map_cons, List.mem_cons] at hq
      exact .inr (hq.resolve_left hne)
  constructor
  · intro q hq hin
    rcases (hdirs q).mp hq with hq | ⟨-, r, hr, rfl⟩
    · exact hg.dirs q hq hin
    · rw [targetDir_of_single root m hplain.1.1.singlePart hplain.2.1.singlePart,
        flatMap_segments_of_parts fun s hs => .inr (hgood s hs)] at hr
      rw [osPath_of_good r fun s hs => hgood s (hr.subset hs)] at hin ⊢
      rcases eq_of_prefix_append_pair hr hin.2 with rfl | rfl
      · simpa using hplain.1.2
      · rw [show root ++ [m.name, m.version] = (root ++ [m.name]) ++ [m.version] by simp,
          endsJs_append_singleton]
        exact hplain.2.2
  · intro q hq hin hjs
    rw [hread, osPath_of_good _ hm.good, htarget] at hq
    by_cases hqm : q = m.path
    · subst hqm
      cases hv : m.versioned
      · simp [hv] at hq
      · exact .inl (by simp [finalLocation, hv])
    · cases hv : m.versioned
      · simp only [hv, Bool.false_eq_true, if_false, if_neg hqm] at hq
        by_cases hqt : q = targetPath root m
        · exact .inl (by simp [finalLocation, hv, hqt])
        · rw [if_neg hqt] at hq
          exact hold q hq hin hjs hqm
      · simp only [hv, if_true] at hq
        exact hold q hq hin hjs hqm

/-- The loop with `write` keeps `Globbed`: after it, `rglob` finds only the final places. -/
theorem registerModules_globbed {root : List String} :
    ∀ (done : List ModuleInfo) {ms : List ModuleInfo} {registry R : Registry} {w w' : World},
      root ∈ w.tree.dirs → (∀ m ∈ ms, Confined root m ∧ PlainDir m.name ∧ PlainDir m.version) →
      Globbed root done ms w.tree → registerModules root true registry ms w = (.ok R, w') →
      Globbed root (done ++ ms) [] w'.tree
  | done, [], registry, R, w, w', _, _, hg, h => by
    cases h
    simpa using hg
  | done, m :: ms, registry, R, w, w', hroot, hms, hg, h => by
    obtain ⟨p, w₁, rel, hpass, -, hrest⟩ := registerModules_cons_ok h
    have hm := hms m (List.mem_cons_self _ _)
    have hroot₁ := ((materializeModule_moves hpass).2.1 root).mpr (.inl hroot)
    have hg₁ := globbed_step hroot hm.1 hm.2 hg hpass
    simpa using registerModules_globbed (done ++ [m]) hroot₁
      (fun m' hm' => hms m' (List.mem_cons_of_mem _ hm')) hg₁ hrest

/-! ### Loading the modules at their final places -/

/-- A move that returned leaves the kernel reaching the module's final place, when it reached the
module's path before. -/
theorem materializeModule_reachable {root : List String} {m : ModuleInfo} {w w' : World}
    {p : List String} (h : materializeModule root m w = (.ok p, w'))
    (hr : Reachable w.tree m.path) : Reachable w'.tree (finalLocation root m) := by
  rcases materializeModule_ok h with ⟨hv, rfl, rfl⟩ | ⟨hv, rfl, -, t₁, t₂, h₁, h₂, h₃⟩
  · simpa [finalLocation, hv] using hr
  · obtain ⟨hdirs₂, -, -, hreach⟩ := writeBytes_ok h₂
    rw [finalLocation, hv, if_neg Bool.false_ne_true]
    exact Reachable.mono hreach fun d hd => by rw [(unlink_ok h₃).2.1, hdirs₂]; exact hd

/-- After a loop with `write` that returned, the kernel reaches the final place of every module
whose path it reached before. -/
theorem registerModules_reachable {root : List String} :
    ∀ {ms : List ModuleInfo} {registry R : Registry} {w w' : World},
      (∀ m ∈ ms, Reachable w.tree m.path) → registerModules root true registry ms w = (.ok R, w') →
      ∀ m ∈ ms, Reachable w'.tree (finalLocation root m)
  | [], _, _, _, _, _, _ => by simp
  | m :: ms, registry, R, w, w', hreach, h => by
    obtain ⟨p, w₁, rel, hpass, -, hrest⟩ := registerModules_cons_ok h
    have hpass' : materializeModule root m w = (.ok p, w₁) := hpass
    have hkeep₁ := ((materializeModule_effects root m).frame w).keep
    have hkeep := ((registerModules_effects root true ms
        (recordModule registry (m, asPosix rel))).frame
      w₁).keep
    rw [hpass'] at hkeep₁
    rw [hrest] at hkeep
    intro m' hm'
    rcases List.mem_cons.mp hm' with rfl | hm'
    · exact (materializeModule_reachable hpass' (hreach m' (.head _))).mono hkeep
    · exact registerModules_reachable (fun x hx => (hreach x (.tail _ hx)).mono hkeep₁) hrest m' hm'

/-- A module of the first run as the second run loads it: at its final place, and canonical. -/
def relocate (root : List String) (m : ModuleInfo) : ModuleInfo :=
  { m with path := finalLocation root m, versioned := true }

/-- `is_versioned_path` accepts `name/version/name.js` for a lowered name. -/
theorem isVersionedPath_target (rt : Runtime) (x version : String) :
    isVersionedPath rt [rt.lower x, version, rt.lower x ++ ".js"] (rt.lower x) version = true := by
  simp [isVersionedPath, rt.lower_lower_append_js]

/-- What `node` prints for the modules `ms` of the tree `t` does not depend on where their bytes
are: for a file holding a module's bytes, at any path of any tree, `node` prints what it printed for
the module in `t`. -/
def MetadataFollowsBytes (host : Host) (t : FileTree) (ms : List ModuleInfo) : Prop :=
  ∀ m ∈ ms, ∀ (t' : FileTree) (p : List String), t'.read? (osPath p) = some m.source →
    SameMetadata host t m.path t' p

/-- The second run loads a module of the first from its final place as the same module, now
canonical, when the kernel reaches the file, which holds the module's bytes, and `node` prints the
same there. -/
theorem loadModule_final {host : Host} {rt : Runtime} {t t' : FileTree} {root : List String}
    {ms : List ModuleInfo} (hdisc : discoverModules host rt t root = .ok ms) (hroot : root ∈ t.dirs)
    {m : ModuleInfo} (hm : m ∈ ms) (hname : GoodName m.name) (hver : GoodName m.version)
    (hdisk : t'.disk = Disk.reliable) (hreach : Reachable t' (finalLocation root m))
    (hread : t'.read? (finalLocation root m) = some m.source)
    (hnode : SameMetadata host t m.path t' (finalLocation root m)) :
    loadModule host rt t' root (finalLocation root m) = .ok (relocate root m) := by
  have hs := (discoverModules_spec hdisc).2 m hm
  obtain ⟨tail, hfl, -, hgood⟩ :=
    finalLocation_below root ⟨hs.1, hs.2.1, descends_of_good hname, descends_of_good hver⟩
  have hos : osPath (finalLocation root m) = finalLocation root m := by
    rw [hfl, osPath_root_append hroot hgood]
  have hcanon : isVersionedPath rt tail m.name m.version = true := by
    cases hv : m.versioned
    · rw [finalLocation, hv, if_neg Bool.false_ne_true,
        targetPath_of_single root m hname.singlePart hver.singlePart] at hfl
      obtain ⟨x, hx⟩ := hs.2.2.2.2.1
      rw [← List.append_cancel_left hfl, hx]
      exact isVersionedPath_target rt x m.version
    · rw [finalLocation, hv, if_pos rfl] at hfl
      rw [← hv, hs.2.2.2.2.2, hfl, List.drop_left]
  rw [loadModule_relocate (discoverModules_load hdisc m hm)
    (readBytes_of_reachable hdisk hreach (by rw [hos]; exact hread)) hnode
    (by rw [hfl, relativeTo_append]), hcanon]
  rfl

/-! ### The manifest as a mapping -/

/-- Two manifests are the same mapping: the same names, the same tags with the same hashes, and the
same hashes with the same tag and path. The order of the items may differ. -/
def SameManifest (R₁ R₂ : Registry) : Prop :=
  ∀ n, (R₁.get? n).isSome = (R₂.get? n).isSome ∧
    ∀ e₁ e₂, R₁.get? n = some e₁ → R₂.get? n = some e₂ →
      (∀ v, e₁.tags.get? v = e₂.tags.get? v) ∧ ∀ h, e₁.hashes.get? h = e₂.hashes.get? h

/-- What the fold reads of a record: the name, the version, the hash and the path text. -/
def recordView (r : ModuleInfo × String) : String × String × String × String :=
  (r.1.name, r.1.version, r.1.sha256, r.2)

/-- Two lists with the same elements, where at most one element passes the test, have the same last
match. -/
theorem lastWhere_eq_of_mem_iff {α : Type} {p : α → Bool} {l₁ l₂ : List α}
    (hmem : ∀ x, x ∈ l₁ ↔ x ∈ l₂) (huniq : ∀ x ∈ l₁, ∀ y ∈ l₁, p x → p y → x = y) :
    lastWhere p l₁ = lastWhere p l₂ := by
  by_cases hex : ∃ x ∈ l₁, p x
  · obtain ⟨x, hx, hpx⟩ := hex
    rw [lastWhere_eq_of_unique hx hpx fun y hy hpy => huniq y hy x hx hpy hpx,
      lastWhere_eq_of_unique ((hmem x).mp hx) hpx
        fun y hy hpy => huniq y ((hmem y).mpr hy) x hx hpy hpx]
  · have hnone : ∀ l : List α, (∀ x, x ∈ l ↔ x ∈ l₁) → lastWhere p l = none := fun l hl => by
      rw [← Option.not_isSome_iff_eq_none, lastWhere_isSome]
      exact fun ⟨x, hx, hpx⟩ => hex ⟨x, (hl x).mp hx, hpx⟩
    rw [hnone l₁ fun _ => Iff.rfl, hnone l₂ fun x => (hmem x).symm]

/-- A `dict` has no items exactly when it has no value at any key. -/
theorem PyDict.items_eq_nil_iff {κ ν : Type} [DecidableEq κ] (d : PyDict κ ν) :
    d.items = [] ↔ ∀ k, d.get? k = none := by
  simp only [PyDict.get?_eq_none_iff, PyDict.keys, ← List.eq_nil_iff_forall_not_mem,
    List.map_eq_nil_iff]

/-- With no tag but `latest`, `pick_latest_tag` is the hash at `latest`, or `""` without tags. -/
theorem pickLatestTag_of_latest_only (tags : PyDict String String)
    (h : ∀ v ∈ tags.keys, v = "latest") : pickLatestTag tags = (tags.get? "latest").getD "" := by
  rw [pickLatestTag_of_no_candidate tags h]
  cases hl : tags.get? "latest" with
  | none =>
    have hnil : tags.items = [] := (PyDict.items_eq_nil_iff tags).mpr fun k => by
      rw [PyDict.get?_eq_none_iff]
      exact fun hk => by rw [PyDict.get?_eq_none_iff, ← h k hk] at hl; exact hl hk
    simp [PyDict.values, hnil]
  | some v => rw [PyDict.values_headD_of_keys tags h hl, Option.getD_some]

/-- `pick_latest_tag` reads the tags as a mapping. -/
theorem pickLatestTag_congr {d₁ d₂ : PyDict String String} (h : ∀ v, d₁.get? v = d₂.get? v) :
    pickLatestTag d₁ = pickLatestTag d₂ := by
  have hkeys : ∀ v, v ∈ d₁.keys ↔ v ∈ d₂.keys := fun v => by
    rw [← PyDict.isSome_get?_iff, ← PyDict.isSome_get?_iff, h]
  by_cases hc : ∃ v ∈ d₁.keys, v ≠ "latest"
  · obtain ⟨x₁, hx₁, hne₁, hmax₁, hget₁⟩ := pickLatestTag_of_candidate d₁ hc
    obtain ⟨x₂, hx₂, hne₂, hmax₂, hget₂⟩ := pickLatestTag_of_candidate d₂
      (let ⟨v, hv, hne⟩ := hc; ⟨v, (hkeys v).mp hv, hne⟩)
    have hx : x₁ = x₂ := le_antisymm (hmax₂ x₁ ((hkeys x₁).mp hx₁) hne₁)
      (hmax₁ x₂ ((hkeys x₂).mpr hx₂) hne₂)
    subst hx
    rw [h, hget₂] at hget₁
    exact (Option.some.inj hget₁).symm
  · push_neg at hc
    rw [pickLatestTag_of_latest_only d₁ hc,
      pickLatestTag_of_latest_only d₂ fun v hv => hc v ((hkeys v).mpr hv), h]

/-- The pass that adds `latest` reads an entry as a mapping. -/
theorem withLatest_congr {e₁ e₂ : RegistryEntry} (ht : ∀ v, e₁.tags.get? v = e₂.tags.get? v)
    (hh : ∀ h, e₁.hashes.get? h = e₂.hashes.get? h) :
    (∀ v, (withLatest e₁).tags.get? v = (withLatest e₂).tags.get? v) ∧
      ∀ h, (withLatest e₁).hashes.get? h = (withLatest e₂).hashes.get? h := by
  have hnil : e₁.tags.items = [] ↔ e₂.tags.items = [] := by
    simp only [PyDict.items_eq_nil_iff, ht]
  refine ⟨fun v => ?_, fun h => by simp only [withLatest_hashes, hh]⟩
  rw [tags_get?_withLatest, tags_get?_withLatest, pickLatestTag_congr ht, ht]
  simp only [ne_eq, hnil]

theorem tags_get?_loopEntry_view (recs : List (ModuleInfo × String)) (n v : String) :
    (loopEntry recs n).tags.get? v =
      (lastWhere (fun y => y.1 = n && y.2.1 = v) (recs.map recordView)).map (·.2.2.1) := by
  rw [tags_get?_loopEntry, lastWhere_map, Option.map_map]
  rfl

theorem hashes_get?_loopEntry_view (recs : List (ModuleInfo × String)) (n h : String) :
    (loopEntry recs n).hashes.get? h =
      (lastWhere (fun y => y.1 = n && y.2.2.1 = h) (recs.map recordView)).map
        (fun y => (⟨y.2.1, y.2.2.2⟩ : Location)) := by
  rw [hashes_get?_loopEntry, lastWhere_map, Option.map_map]
  rfl

/-- Two record lists with the same views, where a name has each version once and each hash once,
build the same manifest as a mapping, whatever their order. -/
theorem built_sameManifest {recs₁ recs₂ : List (ModuleInfo × String)}
    (hmem : ∀ y, y ∈ recs₁.map recordView ↔ y ∈ recs₂.map recordView)
    (hversion : (recs₁.map fun r => (r.1.name, r.1.version)).Nodup)
    (hhash : (recs₁.map fun r => (r.1.name, r.1.sha256)).Nodup) :
    SameManifest ((recs₁.foldl recordModule PyDict.empty).mapValues withLatest)
      ((recs₂.foldl recordModule PyDict.empty).mapValues withLatest) := by
  have hany : ∀ n, recs₁.any (fun r => r.1.name = n) = recs₂.any (fun r => r.1.name = n) := by
    intro n
    have hview : ∀ recs : List (ModuleInfo × String),
        recs.any (fun r => r.1.name = n) = (recs.map recordView).any (fun y => y.1 = n) := by
      intro recs
      induction recs with
      | nil => rfl
      | cons r recs ih => rw [List.any_cons, ih]; rfl
    rw [hview, hview, Bool.eq_iff_iff, List.any_eq_true, List.any_eq_true]
    exact exists_congr fun y => and_congr_left fun _ => hmem y
  have hversion' : ((recs₁.map recordView).map fun y => (y.1, y.2.1)).Nodup := by
    rw [List.map_map]
    exact hversion
  have hhash' : ((recs₁.map recordView).map fun y => (y.1, y.2.2.1)).Nodup := by
    rw [List.map_map]
    exact hhash
  intro n
  simp only [PyDict.get?_mapValues, get?_foldl_recordModule, hany]
  split
  · refine ⟨rfl, fun e₁ e₂ h₁ h₂ => ?_⟩
    simp only [Option.map_some', Option.some.injEq] at h₁ h₂
    subst h₁ h₂
    refine withLatest_congr (fun v => ?_) (fun h => ?_)
    · rw [tags_get?_loopEntry_view, tags_get?_loopEntry_view, lastWhere_eq_of_mem_iff hmem]
      intro y hy z hz hpy hpz
      simp only [Bool.and_eq_true, decide_eq_true_eq] at hpy hpz
      exact List.inj_on_of_nodup_map hversion' hy hz
        (Prod.ext (hpy.1.trans hpz.1.symm) (hpy.2.trans hpz.2.symm))
    · rw [hashes_get?_loopEntry_view, hashes_get?_loopEntry_view, lastWhere_eq_of_mem_iff hmem]
      intro y hy z hz hpy hpz
      simp only [Bool.and_eq_true, decide_eq_true_eq] at hpy hpz
      exact List.inj_on_of_nodup_map hhash' hy hz
        (Prod.ext (hpy.1.trans hpz.1.symm) (hpy.2.trans hpz.2.symm))
  · simp

/-! ### The second run -/

/-- The manifest of modules that `build_registry` leaves in place: each recorded at its own path. -/
def inPlaceRegistry (root : List String) (ms : List ModuleInfo) : Registry :=
  ((ms.map fun x => (x, asPosix (x.path.drop root.length))).foldl recordModule
    PyDict.empty).mapValues withLatest

section SecondRun
variable {host : Host} {rt : Runtime} {root : List String} {ms : List ModuleInfo} {t t₁ : FileTree}

/-- Modules found by discovery whose names and versions are single parts are confined. -/
theorem confined_of_plain (hdisc : discoverModules host rt t root = .ok ms)
    (hparts : ∀ m ∈ ms, PlainDir m.name ∧ PlainDir m.version) : ∀ m ∈ ms, Confined root m :=
  confined_of_discoverModules hdisc fun m hm =>
    ⟨descends_of_good (hparts m hm).1.1, descends_of_good (hparts m hm).2.1⟩

/-- Before the loop, `rglob` finds no directory and no file but the modules' paths. -/
theorem globbed_of_discoverModules (hdisc : discoverModules host rt t root = .ok ms) :
    Globbed root [] ms t := by
  have hspec := (discoverModules_spec hdisc).2
  refine ⟨fun q hq hin => ?_, fun q hq hin hjs => .inr ?_⟩
  · cases hjs : endsJs q
    · rfl
    · have hq' := mem_rglobJs.mpr ⟨.inr hq, hin, hjs⟩
      rw [← mem_discoveredPaths, ← discoverModules_paths hdisc] at hq'
      obtain ⟨m, hm, rfl⟩ := List.mem_map.mp hq'
      exact absurd hq (t.not_mem_dirs_of_read? (hspec m hm).2.2.1)
  · rw [discoverModules_paths hdisc, mem_discoveredPaths, mem_rglobJs]
    exact ⟨.inl hq, hin, hjs⟩

/-- `Globbed` reads only the directories and the files ending in `.js`. -/
theorem Globbed.of_js {done pending : List ModuleInfo} (hg : Globbed root done pending t)
    (hdirs : t₁.dirs = t.dirs) (hread : ∀ q, endsJs q = true → t₁.read? q = t.read? q) :
    Globbed root done pending t₁ :=
  ⟨fun q hq hin => hg.dirs q (hdirs ▸ hq) hin,
    fun q hq hin hjs => hg.files q (hread q hjs ▸ hq) hin hjs⟩

/-- Rewriting `registry.json` changes nothing discovery sees: on a tree on a reliable device that
differs from one where discovery returned only in the bytes of `registry.json`, a file in both, and
where `node` prints the same for each module, discovery returns the same modules. -/
theorem discoverModules_of_manifest_rewrite {ms₂ : List ModuleInfo}
    (hdisc : discoverModules host rt t root = .ok ms₂)
    (hnode : ∀ x ∈ ms₂, SameMetadata host t x.path t₁ x.path) (hdisk : t₁.disk = Disk.reliable)
    (hdirs : t₁.dirs = t.dirs)
    (hread : ∀ q, q ≠ osPath (joinPath root "registry.json") → t₁.read? q = t.read? q)
    (hreg : (t.read? (osPath (joinPath root "registry.json"))).isSome)
    (hreg₁ : (t₁.read? (osPath (joinPath root "registry.json"))).isSome) :
    discoverModules host rt t₁ root = .ok ms₂ := by
  have hent : ∀ q, q ∈ t.entries ↔ q ∈ t₁.entries := fun q => by
    simp only [FileTree.entries, List.mem_append, FileTree.mem_files_iff, hdirs]
    by_cases h : q = osPath (joinPath root "registry.json")
    · subst h
      simp [hreg, hreg₁]
    · rw [hread q h]
  refine discoverModules_transfer hdisc hent fun x hx => ⟨?_, hnode x hx⟩
  have hs := (discoverModules_spec hdisc).2 x hx
  have hjs : endsJs (osPath x.path) = true := by
    rw [osPath_of_good _ hs.2.1]
    obtain ⟨-, -, hjs⟩ := mem_rglobJs.mp (mem_discoveredPaths.mp
      ((discoverModules_paths hdisc) ▸ List.mem_map_of_mem _ hx))
    exact hjs
  refine readBytes_of_reachable hdisk
    ((discoverModules_reachable hdisc x hx).mono fun d hd => hdirs ▸ hd) ?_
  rw [hread _ (ne_manifest_of_endsJs root hjs (by decide) (by decide)), osPath_of_good _ hs.2.1]
  exact hs.2.2.1

/-- After the loop, discovery visits exactly the final places of the modules. -/
theorem discoveredPaths_final (hdisc : discoverModules host rt t root = .ok ms)
    (hparts : ∀ m ∈ ms, PlainDir m.name ∧ PlainDir m.version) (hg : Globbed root ms [] t₁)
    (hfl : ∀ m ∈ ms, t₁.read? (finalLocation root m) = some m.source) (q : List String) :
    q ∈ discoveredPaths t₁ root ↔ q ∈ ms.map (finalLocation root) := by
  rw [mem_discoveredPaths, mem_rglobJs]
  constructor
  · rintro ⟨hf | hd, hin, hjs⟩
    · simpa using hg.files q hf hin hjs
    · exact absurd hjs (by rw [hg.dirs q hd hin]; decide)
  · intro hq
    obtain ⟨m, hm, rfl⟩ := List.mem_map.mp hq
    obtain ⟨tail, hfl', hne, -⟩ := finalLocation_below root (confined_of_plain hdisc hparts m hm)
    refine ⟨.inl (by simp [hfl m hm]), ?_,
      endsJs_finalLocation hdisc hm (descends_of_good (hparts m hm).1.1)
        (descends_of_good (hparts m hm).2.1)⟩
    rw [hfl']
    exact ⟨List.prefix_append _ _, by simpa using List.length_pos.mpr hne⟩

/-- The second discovery returns, with the modules of the first at their final places, canonical. -/
theorem discoverModules_relocated (hdisc : discoverModules host rt t root = .ok ms)
    (hroot : root ∈ t.dirs) (hparts : ∀ m ∈ ms, PlainDir m.name ∧ PlainDir m.version)
    (hdisk : t₁.disk = Disk.reliable)
    (hnode : ∀ m ∈ ms, SameMetadata host t m.path t₁ (finalLocation root m))
    (hreach : ∀ m ∈ ms, Reachable t₁ (finalLocation root m))
    (hfl : ∀ m ∈ ms, t₁.read? (finalLocation root m) = some m.source)
    (hmem : ∀ q, q ∈ discoveredPaths t₁ root ↔ q ∈ ms.map (finalLocation root)) :
    ∃ ms₂, discoverModules host rt t₁ root = .ok ms₂ ∧
      ∀ x, x ∈ ms₂ ↔ ∃ m ∈ ms, x = relocate root m := by
  have hload : ∀ m ∈ ms, loadModule host rt t₁ root (finalLocation root m) =
      .ok (relocate root m) := fun m hm =>
    loadModule_final hdisc hroot hm (hparts m hm).1.1 (hparts m hm).2.1 hdisk (hreach m hm)
      (hfl m hm) (hnode m hm)
  obtain ⟨ms₂, hdisc₂⟩ := mapM_ok_of_forall fun q hq => by
    obtain ⟨m, hm, rfl⟩ := List.mem_map.mp ((hmem q).mp hq)
    exact ⟨_, hload m hm⟩
  obtain ⟨hfrom, hto⟩ := forall₂_partners (mapM_forall₂ hdisc₂)
  refine ⟨ms₂, hdisc₂, fun x => ⟨fun hx => ?_, ?_⟩⟩
  · obtain ⟨q, hq, hqx⟩ := hfrom x hx
    obtain ⟨m, hm, rfl⟩ := List.mem_map.mp ((hmem q).mp hq)
    rw [hload m hm, Except.ok.injEq] at hqx
    exact ⟨m, hm, hqx.symm⟩
  · rintro ⟨m, hm, rfl⟩
    obtain ⟨x, hx, hqx⟩ := hto _ ((hmem _).mpr (List.mem_map_of_mem _ hm))
    rw [hload m hm, Except.ok.injEq] at hqx
    exact hqx ▸ hx

/-- The second build moves nothing: each module is at its final place and canonical. -/
theorem buildRegistry_relocated {ms₂ : List ModuleInfo}
    (hdisc : discoverModules host rt t root = .ok ms)
    (hparts : ∀ m ∈ ms, PlainDir m.name ∧ PlainDir m.version)
    (hms₂ : ∀ x, x ∈ ms₂ ↔ ∃ m ∈ ms, x = relocate root m) (w : World) :
    buildRegistry root ms₂ true w = (.ok (inPlaceRegistry root ms₂), w) := by
  have hplace : ∀ x ∈ ms₂, root <+: x.path ∧ passPath root true x = pure x.path := by
    intro x hx
    obtain ⟨m, hm, rfl⟩ := (hms₂ x).mp hx
    obtain ⟨tail, hfl, -, -⟩ := finalLocation_below root (confined_of_plain hdisc hparts m hm)
    exact ⟨by simp [relocate, hfl], by simp [passPath, materializeModule, relocate]⟩
  rw [buildRegistry, Io.bind_ok (registerModules_inPlace root true PyDict.empty w ms₂
    (fun x hx => (hplace x hx).1) (fun x hx => (hplace x hx).2))]
  rfl

/-- The first run's `node` succeeded on each module it found. -/
theorem node_ok_of_discoverModules (hdisc : discoverModules host rt t root = .ok ms)
    {m : ModuleInfo} (hm : m ∈ ms) : ∃ r, host.node t m.path = .ok r ∧ r.returncode = 0 := by
  obtain ⟨-, -, -, meta, -, -, -, hmeta, -⟩ := loadModule_ok (discoverModules_load hdisc m hm)
  obtain ⟨r, hr, hrc, -⟩ := extractMetadata_eq_ok.mp hmeta
  exact ⟨r, hr, hrc⟩

/-- Each module's final place is a path the kernel reaches as written, and `*.js` matches it. -/
theorem finalLocation_plain (hroot : root ∈ t.dirs)
    (hdisc : discoverModules host rt t root = .ok ms)
    (hparts : ∀ m ∈ ms, PlainDir m.name ∧ PlainDir m.version) {m : ModuleInfo} (hm : m ∈ ms) :
    osPath (finalLocation root m) = finalLocation root m ∧
      endsJs (finalLocation root m) = true := by
  obtain ⟨tail, hfl, -, hgood⟩ := finalLocation_below root (confined_of_plain hdisc hparts m hm)
  exact ⟨by rw [hfl, osPath_root_append hroot hgood], endsJs_finalLocation hdisc hm
    (descends_of_good (hparts m hm).1.1) (descends_of_good (hparts m hm).2.1)⟩

end SecondRun

/-! ### The two runs -/

section Runs
variable (host : Host) (rt : Runtime) (root : List String) (ms : List ModuleInfo) (w w₁ : World)
  (R₁ : Registry)

/-- The second normalising run in full, after a first one that returned under the conditions of
`rebuildRegistryOnce_idempotent`. The first run recorded each module at its final place, wrote
`registry.json`, and kept the device. The second finds the modules there, canonical, returns their
manifest, and changes no directory and no file but `registry.json`, which then holds that
manifest. -/
theorem secondRun_spec (hroot : root ∈ w.tree.dirs) (hdisk : w.tree.disk = Disk.reliable)
    (hdisc : discoverModules host rt w.tree root = .ok ms)
    (hparts : ∀ m ∈ ms, PlainDir m.name ∧ PlainDir m.version) (hnc : NoCollisions root ms)
    (hnode : MetadataFollowsBytes host w.tree ms)
    (hrun : rebuildRegistryOnce host rt root true w = (.ok R₁, w₁)) :
    R₁ = finalRegistry root ms ∧ w₁.tree.disk = Disk.reliable ∧
      (w₁.tree.read? (osPath (joinPath root "registry.json"))).isSome ∧
      w₁.tree.read? (osPath (joinPath root "registry.json.tmp")) = none ∧
      (∀ m ∈ ms, w₁.tree.read? (finalLocation root m) = some m.source) ∧
      ∃ ms₂ w₂, discoverModules host rt w₁.tree root = .ok ms₂ ∧
        (∀ x, x ∈ ms₂ ↔ ∃ m ∈ ms, x = relocate root m) ∧
        rebuildRegistryOnce host rt root true w₁ = (.ok (inPlaceRegistry root ms₂), w₂) ∧
        w₂.tree.dirs = w₁.tree.dirs ∧ w₂.tree.disk = Disk.reliable ∧
        ∀ q, w₂.tree.read? q = if q = osPath (joinPath root "registry.json") then
          some (utf8 (rt.dumps (registryJson (inPlaceRegistry root ms₂)) ++ "\n"))
          else w₁.tree.read? q := by
  -- The first run: its manifest, and the modules' bytes at their final places.
  obtain ⟨ms', w₀, wc, hdisc', hne, hbuild, hwrite, htree₁⟩ := rebuildRegistryOnce_ok hrun
  rw [hdisc] at hdisc'
  cases hdisc'
  have hplain := fun m (hm : m ∈ ms) => finalLocation_plain hroot hdisc hparts hm
  obtain ⟨rfl, -, hfinal⟩ := buildRegistry_write_ok hdisc hnc hbuild
  obtain ⟨R₀, wb, hloop, hpure⟩ := Io.bind_eq_ok hbuild
  simp only [Io.pure_apply, Prod.mk.injEq, Except.ok.injEq] at hpure
  obtain ⟨-, rfl⟩ := hpure
  have hdisk₀ : wb.tree.disk = Disk.reliable := by
    have := ((buildRegistry_effects root ms true).frame w).disk
    rwa [hbuild, hdisk] at this
  obtain ⟨-, hdirs_c, hread_c, hdisk_c⟩ := writeRegistry_ok hwrite
  obtain ⟨hdirs₁, hread₁⟩ := writeRegistry_keeps_js hwrite
  rw [← htree₁] at hdirs₁ hread₁ hread_c hdisk_c
  have hdisk₁ : w₁.tree.disk = Disk.reliable := hdisk_c.trans hdisk₀
  have hglob := (registerModules_globbed [] hroot
    (fun m hm => ⟨confined_of_plain hdisc hparts m hm, hparts m hm⟩)
    (globbed_of_discoverModules hdisc) hloop).of_js hdirs₁ hread₁
  have hfl₁ : ∀ m ∈ ms, w₁.tree.read? (finalLocation root m) = some m.source := fun m hm => by
    rw [hread₁ _ (hplain m hm).2, ← (hplain m hm).1]
    exact hfinal m hm
  have hreach₁ : ∀ m ∈ ms, Reachable w₁.tree (finalLocation root m) := fun m hm =>
    (registerModules_reachable (discoverModules_reachable hdisc) hloop m hm).mono
      fun d hd => hdirs₁ ▸ hd
  have htmp : w₁.tree.read? (osPath (joinPath root "registry.json.tmp")) = none := by
    rw [hread_c, if_neg (by rw [osPath_joinPath_good root (by decide),
      osPath_joinPath_good root (by decide)]; simp), if_pos rfl]
  -- The second run finds them there, moves nothing, and writes the manifest as the first did.
  obtain ⟨ms₂, hdisc₂, hms₂⟩ := discoverModules_relocated hdisc hroot hparts hdisk₁
    (fun m hm => hnode m hm w₁.tree _ (by rw [(hplain m hm).1]; exact hfl₁ m hm)) hreach₁ hfl₁
    (discoveredPaths_final hdisc hparts (by simpa using hglob) hfl₁)
  have hne₂ : ms₂ ≠ [] := by
    obtain ⟨m, hm⟩ := List.exists_mem_of_ne_nil ms hne
    exact List.ne_nil_of_mem ((hms₂ _).mpr ⟨m, hm, rfl⟩)
  obtain ⟨wc₂, hwrite₂⟩ := writeRegistry_ok_of_dirs hwrite _ hdisk₁ hdirs₁
  obtain ⟨w₂, hrun₂, htree₂⟩ :=
    rebuildRegistryOnce_of_ok hdisc₂ hne₂ (buildRegistry_relocated hdisc hparts hms₂ w₁) hwrite₂
  obtain ⟨-, hdirs₂, hread₂, hdisk₂⟩ := writeRegistry_ok hwrite₂
  refine ⟨rfl, hdisk₁, by simp [hread_c], htmp, hfl₁, ms₂, w₂, hdisc₂, hms₂, hrun₂,
    by rw [htree₂, hdirs₂], by rw [htree₂, hdisk₂, hdisk₁], fun q => ?_⟩
  rw [htree₂, hread₂]
  split_ifs with h₁ h₂
  · rfl
  · rw [h₂, htmp]
  · rfl

end Runs

/-- `sampleHost` prints the same for every file. -/
theorem sampleHost_metadataFollowsBytes (t : FileTree) (ms : List ModuleInfo) :
    MetadataFollowsBytes sampleHost t ms :=
  fun _ _ _ _ _ r hr _ => ⟨r, hr, by cases hr; rfl, rfl⟩

/-- `sampleRuntime` where every module's metadata is `{"name": "foo", "version": "v1/"}`. -/
def slashRuntime : Runtime :=
  sampleRuntime (.object [("name", .str "foo"), ("version", .str "v1/")])

end StrategyBootstrap
