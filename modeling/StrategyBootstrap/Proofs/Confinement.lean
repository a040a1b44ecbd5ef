import StrategyBootstrap.Proofs.Discovery
import StrategyBootstrap.Proofs.Fold
import StrategyBootstrap.Proofs.Layout
import StrategyBootstrap.Proofs.Registry

/-!
# `StrategyBootstrap.Proofs.Confinement`: normalisation stays inside the root

With `write` set, `build_registry` moves each module that is not canonical to
`root / name / version / (name + ".js")`. The name and the version come from the module's
metadata. `buildRegistry_confined` shows that the move stays inside the root when each name and
version `Descends`, that is, it does not start with `/` and has no `..` part. Then no path outside
the root changes, whether the run returns or stops halfway, and whatever the device refuses or cuts
short. `relative_to` never raises: the one `ValueError` left is that of a NUL character in a name
or a version. Every path the manifest records is a relative path of good names.

The tree is the change `buildRegistry_effects` allows, which `Frame.sameOutside` turns into a frame
around the root: the moved files lie strictly inside it, and each directory `mkdir(parents=True)`
may add is strictly inside it or a parent of it, which is already a directory. The errors and the
manifest follow the loop (`registerModules_confined`), from the step for one pass
(`registerModule_confined`). The root must already be a directory, as `ensure_dir` leaves it;
otherwise `mkdir` would create the root itself. The model has no symbolic links: a link below the
root could lead a move out of it.

`normalize_escapes_root` is the name `..`: the module lands in the root's parent, and the manifest
records `../v1.0.0/...js`.
-/

set_option autoImplicit false

namespace StrategyBootstrap

/-- A text that, joined to a path, only goes down: it does not start with `/`, and no part of it
is `..`. -/
def Descends (s : String) : Prop := s.data.head? ≠ some '/' ∧ ".." ∉ segments s

instance : DecidablePred Descends := fun s =>
  inferInstanceAs (Decidable (s.data.head? ≠ some '/' ∧ ".." ∉ segments s))

/-- Every path the manifest records is a non-empty relative path of good names. -/
def PathsDescend (R : Registry) : Prop :=
  ∀ n e h loc, R.get? n = some e → e.hashes.get? h = some loc →
    ∃ rel, loc.path = asPosix rel ∧ rel ≠ [] ∧ ∀ s ∈ rel, GoodName s

/-- What the move of one module needs: its path is a file strictly below the root, of good names,
and its name and version descend. Discovery gives the first two. -/
structure Confined (root : List String) (m : ModuleInfo) : Prop where
  inside : StrictlyInside root m.path
  good : ∀ s ∈ m.path, GoodName s
  name : Descends m.name
  version : Descends m.version

theorem segments_good_of_descends {s : String} (h : Descends s) : ∀ x ∈ segments s, GoodName x :=
  fun x hx => (segments_good s x hx).resolve_left fun hdd => h.2 (hdd ▸ hx)

/-- The target directory of a module whose name and version descend: the root and good names. -/
theorem targetDir_below (root : List String) {m : ModuleInfo} (hn : Descends m.name)
    (hv : Descends m.version) :
    ∃ tail, targetDir root m = root ++ tail ∧ ∀ s ∈ tail, GoodName s := by
  refine ⟨segments m.name ++ segments m.version, by rw [targetDir_eq root m hn.1 hv.1,
    List.append_assoc], fun s hs => ?_⟩
  rcases List.mem_append.mp hs with hs | hs
  · exact segments_good_of_descends hn s hs
  · exact segments_good_of_descends hv s hs

/-- The target path of such a module: the root and a non-empty tail of good names. -/
theorem targetPath_below (root : List String) {m : ModuleInfo} (hn : Descends m.name)
    (hv : Descends m.version) :
    ∃ tail, targetPath root m = root ++ tail ∧ tail ≠ [] ∧ ∀ s ∈ tail, GoodName s := by
  obtain ⟨hjs, -, hjsgood⟩ := segments_append_js m.name
  refine ⟨segments m.name ++ segments m.version ++ segments (m.name ++ ".js"), by
    rw [targetPath_eq root m hn.1 hv.1]; simp, by simp [hjs], fun s hs => ?_⟩
  rcases List.mem_append.mp hs with hs | hs
  · rcases List.mem_append.mp hs with hs | hs
    · exact segments_good_of_descends hn s hs
    · exact segments_good_of_descends hv s hs
  · exact (hjsgood s hs).elim (segments_good_of_descends hn s) id

/-- A path that is the root followed by good names resolves to itself. -/
theorem osPath_root_append {t : FileTree} {root tail : List String} (hroot : root ∈ t.dirs)
    (htail : ∀ s ∈ tail, GoodName s) : osPath (root ++ tail) = root ++ tail :=
  osPath_of_good _ fun s hs => (List.mem_append.mp hs).elim (t.dirs_good root hroot s) (htail s)

/-! ### The tree outside the root -/

/-- Two trees agree on every path that does not lie strictly inside `root`. -/
def SameOutside (root : List String) (t t' : FileTree) : Prop :=
  ∀ q, ¬ StrictlyInside root q → t'.read? q = t.read? q ∧ (q ∈ t'.dirs ↔ q ∈ t.dirs)

/-- A step whose files lie strictly inside the root, and whose new directories do too unless they
are directories already, keeps everything outside the root. -/
theorem Frame.sameOutside {files dirs : List String → Prop} {root : List String} {t t' : FileTree}
    (h : Frame files dirs t t') (hfiles : ∀ q, files q → StrictlyInside root q)
    (hdirs : ∀ q, dirs q → ¬ StrictlyInside root q → q ∈ t.dirs) : SameOutside root t t' :=
  fun q hq => ⟨h.read q (mt (hfiles q) hq),
    fun hq' => (h.made q hq').elim id fun hd => hdirs q hd hq, h.keep q⟩

section Move
variable {t : FileTree} {root : List String} {m : ModuleInfo} {q : List String}

/-- The files a move changes lie strictly inside the root. -/
theorem movedFiles_inside (hroot : root ∈ t.dirs) (hm : Confined root m)
    (hq : movedFiles root m q) : StrictlyInside root q := by
  obtain ⟨ptail, hpath, hpne, hpgood⟩ := targetPath_below root hm.name hm.version
  rcases hq.2 with rfl | rfl
  · rw [hpath, osPath_root_append hroot hpgood]
    exact ⟨List.prefix_append _ _, by simpa using List.length_pos.mpr hpne⟩
  · rw [osPath_of_good _ hm.good]
    exact hm.inside

/-- A directory a move adds lies strictly inside the root, or is a parent of the root. -/
theorem madeDirs_inside (hroot : root ∈ t.dirs) (hm : Confined root m) (hq : madeDirs root m q)
    (hout : ¬ StrictlyInside root q) : q ∈ t.dirs := by
  obtain ⟨dtail, hdir, hdgood⟩ := targetDir_below root hm.name hm.version
  obtain ⟨r, hr, rfl⟩ := hq.2
  have hgood : ∀ s ∈ root ++ dtail, GoodName s := fun s hs =>
    (List.mem_append.mp hs).elim (t.dirs_good root hroot s) (hdgood s)
  rw [hdir, flatMap_segments_of_parts fun s hs => .inr (hgood s hs)] at hr
  rw [osPath_of_good r fun s hs => hgood s (hr.subset hs)] at hout ⊢
  by_cases hlen : r.length ≤ root.length
  · exact t.mem_dirs_of_prefix hroot
      (List.prefix_of_prefix_length_le hr (List.prefix_append _ _) hlen)
  · exact absurd ⟨List.prefix_of_prefix_length_le (List.prefix_append _ _) hr (by omega),
      by omega⟩ hout

end Move

/-- The exceptions of a run that stays inside the root: anything but a `ValueError`, or the
`ValueError` of a path holding a NUL character. `relative_to` raises neither. -/
def NulValue (e : PyExc) : Prop := ∀ msg, e = .value msg → msg = "embedded null byte"

/-- A move raises a `ValueError` only for a NUL character. -/
theorem materializeModule_raises (root : List String) (m : ModuleInfo) :
    Io.RaisesOnly NulValue (materializeModule root m) := by
  have hfs : ∀ wrap : OSError → PyExc, (∀ oe, ∃ msg, wrap oe = .bootstrap msg ∨ wrap oe = .os oe) →
      ∀ op, Io.RaisesOnly NulValue (Io.fs wrap op) := fun wrap hwrap _ =>
    .fs (fun oe msg he => by
      obtain ⟨_, h | h⟩ := hwrap oe <;> rw [h] at he <;> cases he) fun _ h => by cases h; rfl
  unfold materializeModule
  split
  · exact .pure _
  · exact .bind (hfs _ (fun oe => ⟨"", .inr rfl⟩) _) fun _ =>
      .bind (hfs _ (fun _ => ⟨_, .inl rfl⟩) _) fun _ =>
        .bind (hfs _ (fun _ => ⟨_, .inl rfl⟩) _) fun _ => .pure _

/-- A move that returned gives the root followed by good names. -/
theorem materializeModule_below {root : List String} {m : ModuleInfo} {w w' : World}
    {p : List String} (hm : Confined root m) (h : materializeModule root m w = (.ok p, w')) :
    ∃ tail, p = root ++ tail ∧ tail ≠ [] ∧ ∀ s ∈ tail, GoodName s := by
  rcases materializeModule_ok h with ⟨-, rfl, -⟩ | ⟨-, rfl, -⟩
  · obtain ⟨hpre, hlen⟩ := hm.inside
    refine ⟨m.path.drop root.length, (List.prefix_iff_eq_append.mp hpre).symm, ?_,
      fun s hs => hm.good s (List.mem_of_mem_drop hs)⟩
    simpa [List.drop_eq_nil_iff] using hlen
  · exact targetPath_below root hm.name hm.version

/-! ### The manifest's paths -/

theorem pathsDescend_empty : PathsDescend PyDict.empty := fun n _ _ _ he => by
  rw [PyDict.get?_empty] at he
  cases he

/-- Recording a module at a non-empty relative path of good names keeps the manifest's paths
descending. -/
theorem pathsDescend_recordModule {R : Registry} {m : ModuleInfo} {rel : List String}
    (hR : PathsDescend R) (hne : rel ≠ []) (hrel : ∀ s ∈ rel, GoodName s) :
    PathsDescend (recordModule R (m, asPosix rel)) := by
  intro n e h loc he hloc
  rw [recordModule, PyDict.get?_set] at he
  split at he
  · cases he
    simp only [entryStep, PyDict.get?_set] at hloc
    split at hloc
    · cases hloc
      exact ⟨rel, rfl, hne, hrel⟩
    · cases hget : R.get? m.name with
      | none => simp [hget, RegistryEntry.empty, PyDict.get?_empty] at hloc
      | some e₀ =>
        rw [hget, Option.getD_some] at hloc
        exact hR _ _ _ _ hget hloc
  · exact hR n e h loc he hloc

theorem pathsDescend_withLatest {R : Registry} (hR : PathsDescend R) :
    PathsDescend (R.mapValues withLatest) := by
  intro n e h loc he hloc
  rw [PyDict.get?_mapValues] at he
  obtain ⟨e₀, he₀, rfl⟩ := Option.map_eq_some'.mp he
  exact hR n e₀ h loc he₀ (by rwa [withLatest_hashes] at hloc)

/-! ### The loop -/

/-- One pass of the loop with `write` on a confined module raises a `ValueError` only for a NUL
character, and keeps the manifest recording descending paths. -/
theorem registerModule_confined {root : List String} {m : ModuleInfo} {registry : Registry}
    {w w' : World} {r : Except PyExc Registry} (hm : Confined root m)
    (hreg : PathsDescend registry) (h : registerModule root true registry m w = (r, w')) :
    (∀ e, r = .error e → NulValue e) ∧ ∀ R, r = .ok R → PathsDescend R := by
  have hpp : passPath root true m = materializeModule root m := rfl
  rw [registerModule_apply, hpp] at h
  generalize hmat : materializeModule root m w = res at h
  obtain ⟨r₀, w₀⟩ := res
  obtain ⟨rfl, rfl⟩ := Prod.mk.inj h
  refine ⟨fun e he => ?_, fun R hR => ?_⟩
  · cases r₀ with
    | error e₀ =>
      cases he
      exact materializeModule_raises root m w _ (by rw [hmat])
    | ok p =>
      obtain ⟨tail, rfl, -, -⟩ := materializeModule_below hm hmat
      simp only [bind, Except.bind, relativeTo_append, Except.map] at he
      cases he
  · cases r₀ with
    | error e₀ => cases hR
    | ok p =>
      obtain ⟨tail, rfl, hne, hgood⟩ := materializeModule_below hm hmat
      simp only [bind, Except.bind, relativeTo_append, Except.map, Except.ok.injEq] at hR
      exact hR ▸ pathsDescend_recordModule hreg hne hgood

/-- The loop of `build_registry` with `write`, over confined modules: a `ValueError` only for a NUL
character, and a returned manifest records descending paths. -/
theorem registerModules_confined {root : List String} :
    ∀ {ms : List ModuleInfo} {registry : Registry} {w w' : World} {r : Except PyExc Registry},
      (∀ m ∈ ms, Confined root m) → PathsDescend registry →
      registerModules root true registry ms w = (r, w') →
      (∀ e, r = .error e → NulValue e) ∧ ∀ R, r = .ok R → PathsDescend R
  | [], registry, w, w', r, _, hreg, h => by
    cases h
    exact ⟨fun e he => (by cases he), fun R hR => (by cases hR; exact hreg)⟩
  | m :: ms, registry, w, w', r, hms, hreg, h => by
    rcases registerModules_cons h with ⟨e, hpass, rfl⟩ | ⟨R₁, w₁, hpass, hrest⟩
    · exact ⟨fun e' he => (registerModule_confined (hms m (.head _)) hreg hpass).1 e' he,
        fun R hR => (by cases hR)⟩
    · exact registerModules_confined (fun m' hm' => hms m' (List.mem_cons_of_mem _ hm'))
        ((registerModule_confined (hms m (.head _)) hreg hpass).2 R₁ rfl) hrest

/-- The modules discovery returned are confined when their names and versions descend. -/
theorem confined_of_discoverModules {host : Host} {rt : Runtime} {t : FileTree} {root : List String}
    {ms : List ModuleInfo} (hdisc : discoverModules host rt t root = .ok ms)
    (hnames : ∀ m ∈ ms, Descends m.name ∧ Descends m.version) : ∀ m ∈ ms, Confined root m :=
  fun m hm =>
    have hs := (discoverModules_spec hdisc).2 m hm
    ⟨hs.1, hs.2.1, (hnames m hm).1, (hnames m hm).2⟩

end StrategyBootstrap
