import Mathlib.Data.String.Basic
import StrategyBootstrap.Proofs.Fold

/-!
# `StrategyBootstrap.Proofs.Registry`: what `build_registry` computes

`buildRegistry_reference` states what `build_registry(modules, root, write=False)` returns for any
module list below the root. The keys are the names, and each name's tags, hashes and `latest` are
read off the module list with `lastWhere`. It is the reference fold written over the modules alone,
with no registry in it.

`buildRegistry_tags_hashes` is about the two maps of one entry, for either value of `write`. Every
tag, `latest` included, points at a recorded hash. A hash points back at itself through the tag it
records only when no module is versioned `latest` and modules of one name and version agree on their
hash. `registry_hash_unreachable` is a list where the second condition fails: two builds of `foo`
`v1`. The hash of the first stays in `hashes`, but its tag now names the second.

`buildRegistry_latest` says every name gets a `latest` tag that holds a recorded hash.

The proofs go through `pickLatestTag`. `pickLatestTag_of_candidate` says it takes the greatest tag
in Python's order on texts, and `pickLatestTag_of_no_candidate` says what it does without one.
-/

set_option autoImplicit false

namespace StrategyBootstrap

/-! ### Python's order on texts -/

/-- `codePointsLt` is the lexicographic order of the characters. -/
theorem codePointsLt_iff (l₁ l₂ : List Char) :
    codePointsLt l₁ l₂ = true ↔ List.Lex (· < ·) l₁ l₂ := by
  induction l₁ generalizing l₂ with
  | nil => cases l₂ <;> simp [codePointsLt, List.Lex.nil]
  | cons c cs ih =>
    cases l₂ with
    | nil => simp [codePointsLt]
    | cons d ds =>
      by_cases hcd : c = d
      · subst hcd
        rw [codePointsLt, if_pos rfl, ih, List.Lex.cons_iff]
      · rw [codePointsLt, if_neg hcd, Nat.blt_eq]
        refine ⟨fun h => List.Lex.rel (Char.lt_iff_val_lt_val.mpr h), fun h => ?_⟩
        cases h with
        | cons h => exact absurd rfl hcd
        | rel h => exact h

/-- `textLt` is the order of `String`. -/
theorem textLt_iff (a b : String) : textLt a b = true ↔ a < b := by
  rw [textLt, codePointsLt_iff, String.lt_iff_toList_lt]
  rfl

theorem textLe_iff (a b : String) : textLe a b = true ↔ a ≤ b := by
  rw [textLe, Bool.not_eq_true', ← @not_lt String _ b a, ← textLt_iff, Bool.not_eq_true]

/-- The last text of a list sorted by `textLe` is in the list and is its greatest. -/
theorem getLast?_insertionSort_textLe {l : List String} {x : String}
    (h : (l.insertionSort (fun a b => textLe a b)).getLast? = some x) :
    x ∈ l ∧ ∀ y ∈ l, y ≤ x := by
  haveI : IsTotal String (fun a b => textLe a b = true) :=
    ⟨fun a b => by simpa only [textLe_iff] using le_total a b⟩
  haveI : IsTrans String (fun a b => textLe a b = true) :=
    ⟨fun a b c => by simpa only [textLe_iff] using le_trans⟩
  have hs := List.sorted_insertionSort (fun a b => textLe a b = true) l
  obtain ⟨front, he⟩ := List.getLast?_eq_some_iff.mp h
  have hmem : ∀ y, y ∈ l ↔ y ∈ front ++ [x] := fun y => by rw [← he, List.mem_insertionSort]
  rw [he, List.Sorted, List.pairwise_append] at hs
  refine ⟨(hmem x).mpr (by simp), fun y hy => ?_⟩
  rcases List.mem_append.mp ((hmem y).mp hy) with hy | hy
  · exact (textLe_iff y x).mp (hs.2.2 y hy x (List.mem_singleton_self x))
  · exact le_of_eq (List.mem_singleton.mp hy)

/-! ### `pick_latest_tag` -/

/-- With a tag other than `latest`, `pick_latest_tag` returns the hash of the greatest such tag. -/
theorem pickLatestTag_of_candidate (tags : PyDict String String)
    (h : ∃ v ∈ tags.keys, v ≠ "latest") :
    ∃ vmax ∈ tags.keys, vmax ≠ "latest" ∧ (∀ v ∈ tags.keys, v ≠ "latest" → v ≤ vmax) ∧
      tags.get? vmax = some (pickLatestTag tags) := by
  obtain ⟨v, hv, hne⟩ := h
  have hcand : ∀ y, y ∈ tags.keys.filter (· ≠ "latest") ↔ y ∈ tags.keys ∧ y ≠ "latest" := by
    simp
  obtain ⟨x, hx⟩ := Option.isSome_iff_exists.mp
    (List.getLast?_isSome.mpr (List.ne_nil_of_mem
      ((List.mem_insertionSort (fun a b => textLe a b = true)).mpr ((hcand v).mpr ⟨hv, hne⟩))))
  obtain ⟨hxmem, hxmax⟩ := getLast?_insertionSort_textLe hx
  obtain ⟨hxkey, hxne⟩ := (hcand x).mp hxmem
  obtain ⟨y, hy⟩ := Option.isSome_iff_exists.mp ((PyDict.isSome_get?_iff _ _).mpr hxkey)
  refine ⟨x, hxkey, hxne, fun v hv hne => hxmax v ((hcand v).mpr ⟨hv, hne⟩), ?_⟩
  simp only [pickLatestTag, hx, hy, Option.getD_some]

/-- With no tag but `latest`, `pick_latest_tag` returns the first value. -/
theorem pickLatestTag_of_no_candidate (tags : PyDict String String)
    (h : ∀ v ∈ tags.keys, v = "latest") : pickLatestTag tags = tags.values.headD "" := by
  have hnil : tags.keys.filter (· ≠ "latest") = [] :=
    List.filter_eq_nil_iff.mpr fun v hv => by simp [h v hv]
  simp only [pickLatestTag, hnil, List.insertionSort, List.getLast?_nil]

/-- A `dict` whose keys are all `k` has the value at `k` first. -/
theorem PyDict.values_headD_of_keys (d : PyDict String String) {k v : String}
    (hk : ∀ k' ∈ d.keys, k' = k) (hv : d.get? k = some v) (x : String) : d.values.headD x = v := by
  obtain ⟨items, hnodup⟩ := d
  cases items with
  | nil => simp [PyDict.get?, lookupKey] at hv
  | cons p rest =>
    have hp : p.1 = k := hk p.1 (List.mem_cons_self _ _)
    simp only [PyDict.get?, lookupKey, hp, if_true, Option.some.injEq] at hv
    simp [PyDict.values, hv]

/-- `pick_latest_tag` of a non-empty `dict` is one of its values. -/
theorem pickLatestTag_mem (tags : PyDict String String) (hne : tags.items ≠ []) :
    ∃ v, tags.get? v = some (pickLatestTag tags) := by
  by_cases h : ∃ v ∈ tags.keys, v ≠ "latest"
  · obtain ⟨vmax, -, -, -, hget⟩ := pickLatestTag_of_candidate tags h
    exact ⟨vmax, hget⟩
  · obtain ⟨p, rest, hitems⟩ := List.exists_cons_of_ne_nil hne
    refine ⟨p.1, ?_⟩
    rw [pickLatestTag_of_no_candidate tags (by simpa using h)]
    simp [PyDict.get?, PyDict.values, hitems, lookupKey]

/-! ### The pass that adds `latest` -/

@[simp]
theorem withLatest_hashes (e : RegistryEntry) : (withLatest e).hashes = e.hashes := by
  unfold withLatest
  split <;> rfl

/-- The tags after the pass: `latest` is `pick_latest_tag` of the tags when there are any; every
other tag is as the loop left it. -/
theorem tags_get?_withLatest (e : RegistryEntry) (v : String) :
    (withLatest e).tags.get? v =
      if v = "latest" ∧ e.tags.items ≠ [] then some (pickLatestTag e.tags) else e.tags.get? v := by
  unfold withLatest
  by_cases he : e.tags.items = [] <;> by_cases hv : v = "latest" <;> simp [he, hv]

/-! ### The registry the loop builds -/

/-- A name's entry in a registry built from the records `recs`: the name has a record, and the
entry is its `loopEntry` with `latest` added. -/
theorem get?_built {recs : List (ModuleInfo × String)} {n : String} {e : RegistryEntry}
    (h : ((recs.foldl recordModule PyDict.empty).mapValues withLatest).get? n = some e) :
    (∃ r ∈ recs, r.1.name = n) ∧ e = withLatest (loopEntry recs n) := by
  rw [PyDict.get?_mapValues, get?_foldl_recordModule] at h
  by_cases hany : recs.any (fun r => r.1.name = n)
  · simp only [hany, if_true, Option.map_some', Option.some.injEq] at h
    exact ⟨by simpa using hany, h.symm⟩
  · simp [hany] at h

/-- A version is a tag of a name's `loopEntry` exactly when a record has that name and version. -/
theorem mem_tags_loopEntry (recs : List (ModuleInfo × String)) (n v : String) :
    v ∈ (loopEntry recs n).tags.keys ↔ ∃ r ∈ recs, r.1.name = n ∧ r.1.version = v := by
  rw [← PyDict.isSome_get?_iff, tags_get?_loopEntry, Option.isSome_map', lastWhere_isSome]
  simp

/-- Every tag of a `loopEntry` holds a recorded hash. -/
theorem loopEntry_tag_mem_hashes (recs : List (ModuleInfo × String)) (n v h : String)
    (hv : (loopEntry recs n).tags.get? v = some h) : h ∈ (loopEntry recs n).hashes.keys := by
  rw [tags_get?_loopEntry] at hv
  obtain ⟨r, hr, rfl⟩ := Option.map_eq_some'.mp hv
  obtain ⟨hrmem, hrp⟩ := lastWhere_spec hr
  rw [← PyDict.isSome_get?_iff, hashes_get?_loopEntry, Option.isSome_map', lastWhere_isSome]
  simp only [Bool.and_eq_true, decide_eq_true_eq] at hrp
  exact ⟨r, hrmem, by simp [hrp.1]⟩

/-- Every tag of an entry after the `latest` pass, `latest` included, holds a recorded hash. -/
theorem withLatest_tag_mem_hashes (recs : List (ModuleInfo × String)) (n v h : String)
    (hv : (withLatest (loopEntry recs n)).tags.get? v = some h) :
    h ∈ (withLatest (loopEntry recs n)).hashes.keys := by
  rw [tags_get?_withLatest] at hv
  rw [withLatest_hashes]
  split at hv
  · obtain ⟨v', hv'⟩ := pickLatestTag_mem _ (by tauto)
    rw [Option.some.injEq] at hv
    exact loopEntry_tag_mem_hashes recs n v' h (hv ▸ hv')
  · exact loopEntry_tag_mem_hashes recs n v h hv

/-- `build_registry` without `write`, on modules below the root, changes nothing and returns the
registry of the records that pair each module with its path relative to the root. -/
theorem buildRegistry_read (root : List String) (ms : List ModuleInfo) (w : World)
    (hroot : ∀ m ∈ ms, root <+: m.path) :
    buildRegistry root ms false w =
      (.ok (((ms.map fun m => (m, asPosix (m.path.drop root.length))).foldl recordModule
        PyDict.empty).mapValues withLatest), w) := by
  simp only [buildRegistry]
  rw [Io.bind_ok (registerModules_read root PyDict.empty w ms hroot)]
  rfl

/-- `build_registry(ms, root, write=False)` is the reference fold. The keys are the names of `ms`.
For each name `n`: a tag `v ≠ "latest"` holds the hash of the last module named `n` with version
`v`, and there is no tag for a version `n` lacks. There are no tags but these and `latest`. A hash
holds the version and the path of the last module named `n` with that hash. `latest` is the tag of
the greatest version other than `latest` when there is one, and the hash of the last module
versioned `latest` otherwise. -/
theorem buildRegistry_reference (root : List String) (ms : List ModuleInfo) (w : World)
    (hroot : ∀ m ∈ ms, root <+: m.path) :
    ∃ R : Registry, buildRegistry root ms false w = (.ok R, w) ∧
      (∀ n, n ∈ R.keys ↔ ∃ m ∈ ms, m.name = n) ∧
      ∀ n e, R.get? n = some e →
        (∀ v, v ≠ "latest" →
          e.tags.get? v = (lastWhere (fun m => m.name = n && m.version = v) ms).map (·.sha256)) ∧
        (∀ v ∈ e.tags.keys, v = "latest" ∨ ∃ m ∈ ms, m.name = n ∧ m.version = v) ∧
        (∀ h, e.hashes.get? h = (lastWhere (fun m => m.name = n && m.sha256 = h) ms).map
          fun m => (⟨m.version, asPosix (m.path.drop root.length)⟩ : Location)) ∧
        ((∃ m ∈ ms, m.name = n ∧ m.version ≠ "latest") →
          ∃ vmax, (∃ m ∈ ms, m.name = n ∧ m.version = vmax) ∧ vmax ≠ "latest" ∧
            (∀ m ∈ ms, m.name = n → m.version ≠ "latest" → m.version ≤ vmax) ∧
            e.tags.get? "latest" = e.tags.get? vmax) ∧
        ((∀ m ∈ ms, m.name = n → m.version = "latest") →
          e.tags.get? "latest" =
            (lastWhere (fun m => m.name = n && m.version = "latest") ms).map (·.sha256)) := by
  set recs := ms.map fun m => (m, asPosix (m.path.drop root.length)) with hrecs
  have hmem : ∀ p : ModuleInfo → Prop, (∃ r ∈ recs, p r.1) ↔ ∃ m ∈ ms, p m :=
    fun p => by simp [recs]
  refine ⟨_, buildRegistry_read root ms w hroot, fun n => ?_, fun n e he => ?_⟩
  · rw [PyDict.keys_mapValues, mem_keys_foldl_recordModule, hmem (·.name = n)]
  obtain ⟨hn, rfl⟩ := get?_built he
  have htags : ∀ v, (loopEntry recs n).tags.get? v =
      (lastWhere (fun m => m.name = n && m.version = v) ms).map (·.sha256) := fun v => by
    rw [tags_get?_loopEntry, hrecs, lastWhere_map, Option.map_map]
    rfl
  have hkeys : ∀ v, v ∈ (loopEntry recs n).tags.keys ↔ ∃ m ∈ ms, m.name = n ∧ m.version = v :=
    fun v => (mem_tags_loopEntry recs n v).trans (hmem fun m => m.name = n ∧ m.version = v)
  have hne : (loopEntry recs n).tags.items ≠ [] := by
    obtain ⟨m, hm, rfl⟩ := (hmem (·.name = n)).mp hn
    intro hnil
    have := (hkeys m.version).mpr ⟨m, hm, rfl, rfl⟩
    simp [PyDict.keys, hnil] at this
  have hother : ∀ v, v ≠ "latest" → (withLatest (loopEntry recs n)).tags.get? v =
      (loopEntry recs n).tags.get? v := fun v hv => by simp [tags_get?_withLatest, hv]
  have hlatest : (withLatest (loopEntry recs n)).tags.get? "latest" =
      some (pickLatestTag (loopEntry recs n).tags) := by simp [tags_get?_withLatest, hne]
  refine ⟨fun v hv => (hother v hv).trans (htags v), fun v hv => ?_, fun h => ?_, ?_, ?_⟩
  · by_cases hl : v = "latest"
    · exact .inl hl
    · exact .inr ((hkeys v).mp ((PyDict.isSome_get?_iff _ _).mp
        (by rw [← PyDict.isSome_get?_iff, hother v hl] at hv; exact hv)))
  · rw [withLatest_hashes, hashes_get?_loopEntry, lastWhere_map, Option.map_map]
    rfl
  · rintro ⟨m, hm, hmn, hmv⟩
    obtain ⟨vmax, hvkey, hvne, hvmax, hvget⟩ :=
      pickLatestTag_of_candidate _ ⟨m.version, (hkeys _).mpr ⟨m, hm, hmn, rfl⟩, hmv⟩
    refine ⟨vmax, (hkeys vmax).mp hvkey, hvne,
      fun m' hm' hm'n hm'v => hvmax _ ((hkeys _).mpr ⟨m', hm', hm'n, rfl⟩) hm'v, ?_⟩
    rw [hlatest, hother vmax hvne, hvget]
  · intro hall
    have honly : ∀ v ∈ (loopEntry recs n).tags.keys, v = "latest" := fun v hv => by
      obtain ⟨m, hm, hmn, rfl⟩ := (hkeys v).mp hv
      exact hall m hm hmn
    obtain ⟨v, hv⟩ := (List.exists_mem_of_ne_nil _ (fun h => hne (List.map_eq_nil_iff.mp h)) :
      ∃ v, v ∈ (loopEntry recs n).tags.keys)
    obtain ⟨s, hs⟩ := Option.isSome_iff_exists.mp ((PyDict.isSome_get?_iff _ _).mpr hv)
    rw [honly v hv] at hs
    rw [hlatest, ← htags, hs, pickLatestTag_of_no_candidate _ honly,
      PyDict.values_headD_of_keys _ honly hs]

theorem buildRegistry_reference_two_versions :
    (∀ m ∈ [(⟨"foo", "v1", ["r", "foo", "v1", "foo.js"], [], "sha256:a", true, by decide,
        by decide⟩ : ModuleInfo), ⟨"foo", "v2", ["r", "foo", "v2", "foo.js"], [], "sha256:b", true,
        by decide, by decide⟩], ["r"] <+: m.path) ∧
      ∃ R : Registry, buildRegistry ["r"] [⟨"foo", "v1", ["r", "foo", "v1", "foo.js"], [],
        "sha256:a", true, by decide, by decide⟩, ⟨"foo", "v2", ["r", "foo", "v2", "foo.js"], [],
        "sha256:b", true, by decide, by decide⟩] false ⟨.empty, "", ""⟩ =
          (.ok R, ⟨.empty, "", ""⟩) :=
  ⟨by decide, (buildRegistry_reference ["r"] _ ⟨.empty, "", ""⟩ (by decide)).imp fun _ h => h.1⟩

/-- A registry `build_registry` returned, for either value of `write`: the pass adding `latest`
over the fold of the records of the modules, in order. -/
theorem buildRegistry_ok {root : List String} {ms : List ModuleInfo} {write : Bool} {w w' : World}
    {R : Registry} (hrun : buildRegistry root ms write w = (.ok R, w')) :
    ∃ recs : List (ModuleInfo × String), recs.map Prod.fst = ms ∧
      R = (recs.foldl recordModule PyDict.empty).mapValues withLatest := by
  obtain ⟨R₀, w₁, hloop, hpure⟩ := Io.bind_eq_ok hrun
  obtain ⟨recs, hrecs, rfl⟩ := registerModules_ok hloop
  simp only [Io.pure_apply, Prod.mk.injEq, Except.ok.injEq] at hpure
  exact ⟨recs, hrecs, hpure.1.symm⟩

/-- `foo` at `v1` and at `v2`, each in its canonical place under `/r`. -/
def fooTwoVersions : List ModuleInfo :=
  [⟨"foo", "v1", ["r", "foo", "v1", "foo.js"], [], "sha256:a", true, by decide, by decide⟩,
   ⟨"foo", "v2", ["r", "foo", "v2", "foo.js"], [], "sha256:b", true, by decide, by decide⟩]

/-- A registry `build_registry` returned, for either value of `write`. Every tag, `latest`
included, holds a hash that `hashes` records. When no module versioned `latest` shares its name
with a module of another version, and modules of one name and version have one hash, every recorded
hash is also the value of the tag it records. -/
theorem buildRegistry_tags_hashes (root : List String) (ms : List ModuleInfo) (write : Bool)
    (w w' : World) (R : Registry) (hrun : buildRegistry root ms write w = (.ok R, w')) :
    (∀ n e v h, R.get? n = some e → e.tags.get? v = some h → h ∈ e.hashes.keys) ∧
    ((∀ m ∈ ms, m.version = "latest" → ∀ m' ∈ ms, m'.name = m.name → m'.version = "latest") →
      (∀ m ∈ ms, ∀ m' ∈ ms, m.name = m'.name → m.version = m'.version → m.sha256 = m'.sha256) →
      ∀ n e h loc, R.get? n = some e → e.hashes.get? h = some loc →
        e.tags.get? loc.tag = some h) := by
  obtain ⟨recs, hrecs, rfl⟩ := buildRegistry_ok hrun
  have hms : ∀ r ∈ recs, r.1 ∈ ms := fun r hr => hrecs ▸ List.mem_map_of_mem _ hr
  refine ⟨fun n e v h he hv => ?_, fun hlatest hfun n e h loc he hloc => ?_⟩
  · obtain ⟨-, rfl⟩ := get?_built he
    exact withLatest_tag_mem_hashes recs n v h hv
  · obtain ⟨-, rfl⟩ := get?_built he
    rw [withLatest_hashes, hashes_get?_loopEntry] at hloc
    obtain ⟨r, hr, rfl⟩ := Option.map_eq_some'.mp hloc
    obtain ⟨hrmem, hrp⟩ := lastWhere_spec hr
    simp only [Bool.and_eq_true, decide_eq_true_eq] at hrp
    -- In the loop's entry, the tag of the hash's last record holds the hash.
    have hloop : (loopEntry recs n).tags.get? r.1.version = some h := by
      rw [tags_get?_loopEntry, ← hrp.2]
      refine lastWhere_map_of_forall _ hrmem (by simp [hrp.1]) fun r' hr' hp' => ?_
      simp only [Bool.and_eq_true, decide_eq_true_eq] at hp'
      exact hfun r'.1 (hms r' hr') r.1 (hms r hrmem) (hp'.1.trans hrp.1.symm) hp'.2
    rw [tags_get?_withLatest]
    split
    · -- A module versioned `latest`: every module of its name is, so `latest` is the only tag.
      rename_i hv
      have hv : r.1.version = "latest" := hv.1
      have honly : ∀ v ∈ (loopEntry recs n).tags.keys, v = "latest" := fun v hv' => by
        obtain ⟨r', hr', hn', rfl⟩ := (mem_tags_loopEntry recs n v).mp hv'
        exact hlatest r.1 (hms r hrmem) hv r'.1 (hms r' hr') (hn'.trans hrp.1.symm)
      rw [pickLatestTag_of_no_candidate _ honly,
        PyDict.values_headD_of_keys _ honly (hv ▸ hloop)]
    · exact hloop

theorem buildRegistry_tags_hashes_two_versions :
    ∃ R : Registry, buildRegistry ["r"] fooTwoVersions false ⟨.empty, "", ""⟩ =
        (.ok R, ⟨.empty, "", ""⟩) ∧
      ((R.get? "foo").bind fun e => e.tags.get? "latest") = some "sha256:b" ∧
      (∀ n e v h, R.get? n = some e → e.tags.get? v = some h → h ∈ e.hashes.keys) ∧
      ∀ n e h loc, R.get? n = some e → e.hashes.get? h = some loc → e.tags.get? loc.tag = some h :=
  ⟨_, rfl, rfl,
    (buildRegistry_tags_hashes ["r"] fooTwoVersions false ⟨.empty, "", ""⟩ _ _ rfl).1,
    (buildRegistry_tags_hashes ["r"] fooTwoVersions false ⟨.empty, "", ""⟩ _ _ rfl).2
      (by decide) (by decide)⟩

/-- Two builds of `foo` `v1` with different bytes: the first hash stays in `hashes` with the tag
`v1`, and `tags["v1"]` holds the second. -/
theorem registry_hash_unreachable :
    ∃ R : Registry, buildRegistry ["r"] [⟨"foo", "v1", ["r", "a.js"], [], "sha256:a", false,
      by decide, by decide⟩, ⟨"foo", "v1", ["r", "b.js"], [], "sha256:b", false, by decide,
      by decide⟩] false ⟨.empty, "", ""⟩ = (.ok R, ⟨.empty, "", ""⟩) ∧
      ∃ e loc, R.get? "foo" = some e ∧ e.hashes.get? "sha256:a" = some loc ∧
        e.tags.get? loc.tag = some "sha256:b" :=
  ⟨_, rfl, _, _, rfl, rfl, rfl⟩

/-- Every name of a registry `build_registry` returned, for either value of `write`, has a `latest`
tag, and it holds a hash that `hashes` records. -/
theorem buildRegistry_latest (root : List String) (ms : List ModuleInfo) (write : Bool)
    (w w' : World) (R : Registry) (hrun : buildRegistry root ms write w = (.ok R, w')) :
    ∀ n e, R.get? n = some e → ∃ h, e.tags.get? "latest" = some h ∧ h ∈ e.hashes.keys := by
  obtain ⟨recs, -, rfl⟩ := buildRegistry_ok hrun
  intro n e he
  obtain ⟨⟨r, hr, hrn⟩, rfl⟩ := get?_built he
  have hne : (loopEntry recs n).tags.items ≠ [] := fun hnil => by
    have := (mem_tags_loopEntry recs n r.1.version).mpr ⟨r, hr, hrn, rfl⟩
    simp [PyDict.keys, hnil] at this
  have hlatest : (withLatest (loopEntry recs n)).tags.get? "latest" =
      some (pickLatestTag (loopEntry recs n).tags) := by
    rw [tags_get?_withLatest, if_pos ⟨rfl, hne⟩]
  exact ⟨_, hlatest, withLatest_tag_mem_hashes recs n "latest" _ hlatest⟩

theorem buildRegistry_latest_two_versions :
    ∃ R : Registry, buildRegistry ["r"] fooTwoVersions false ⟨.empty, "", ""⟩ =
        (.ok R, ⟨.empty, "", ""⟩) ∧
      ((R.get? "foo").bind fun e => e.tags.get? "latest") = some "sha256:b" ∧
      ∀ n e, R.get? n = some e → ∃ h, e.tags.get? "latest" = some h ∧ h ∈ e.hashes.keys :=
  ⟨_, rfl, rfl, buildRegistry_latest ["r"] fooTwoVersions false ⟨.empty, "", ""⟩ _ _ rfl⟩

end StrategyBootstrap
