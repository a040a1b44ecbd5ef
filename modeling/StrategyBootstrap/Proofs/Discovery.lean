import Mathlib.Data.List.Sort
import StrategyBootstrap.Proofs.Effects
import StrategyBootstrap.Proofs.Registry

/-!
# `StrategyBootstrap.Proofs.Discovery`: what `discover_modules` hands to `build_registry`

`loadModule_ok` is the inversion lemma of `load_module`. A module it returned has the bytes read
from its path, their hash, and a name and a version taken from the metadata as `load_module` takes
them. `discoverModules_spec` lifts this to the whole scan. The modules have distinct paths, each a
file strictly below the root, and each path's parts are good names, so the kernel resolves the path
to itself. By `discoveredPaths_eq_of_mem_iff` the order of the scan depends on which paths the tree
holds, not on the order it lists them in. `discoverModules_error` says the scan has no mode that
skips a module: it stops at the first path that fails to load, and `LoadError` lists what that
path can raise.

`loadModule_null_name` is the metadata `{"name": null, "version": null}`. `str(None)` is the text
`None`, which is not blank. So `load_module` accepts the module under the name `none` instead of
raising `metadata.name required`, and gives it the version `None` instead of `v1.0.0`.
-/

set_option autoImplicit false

namespace StrategyBootstrap

theorem Except.bind_eq_ok {ε α β : Type} {x : Except ε α} {f : α → Except ε β} {b : β}
    (h : x >>= f = .ok b) : ∃ a, x = .ok a ∧ f a = .ok b := by
  cases x with
  | error e => cases h
  | ok a => exact ⟨a, rfl, h⟩

theorem Except.bind_eq_error {ε α β : Type} {x : Except ε α} {f : α → Except ε β} {e : ε}
    (h : x >>= f = .error e) : x = .error e ∨ ∃ a, x = .ok a ∧ f a = .error e := by
  cases x with
  | error e' => exact .inl (by cases h; rfl)
  | ok a => exact .inr ⟨a, rfl, h⟩

theorem Except.mapError_eq_ok {ε ε' α : Type} {x : Except ε α} {g : ε → ε'} {a : α}
    (h : x.mapError g = .ok a) : x = .ok a := by
  cases x with
  | error e => cases h
  | ok a' => cases h; rfl

/-- A `mapM` that returned ran `f` on each element, with the results in order. -/
theorem mapM_forall₂ {ε α β : Type} {f : α → Except ε β} :
    ∀ {l : List α} {bs : List β}, l.mapM f = .ok bs → List.Forall₂ (fun a b => f a = .ok b) l bs
  | [], bs, h => by
    cases h
    exact .nil
  | a :: l, bs, h => by
    rw [List.mapM_cons] at h
    obtain ⟨b, hb, h⟩ := Except.bind_eq_ok h
    obtain ⟨bs', hbs, h⟩ := Except.bind_eq_ok h
    cases h
    exact .cons hb (mapM_forall₂ hbs)

/-- A `mapM` that raised ran `f` without error on a prefix of the list, and raised on the next
element. -/
theorem mapM_error {ε α β : Type} {f : α → Except ε β} {e : ε} :
    ∀ {l : List α}, l.mapM f = .error e →
      ∃ pre a post, l = pre ++ a :: post ∧ (∀ b ∈ pre, ∃ y, f b = .ok y) ∧ f a = .error e
  | [], h => by cases h
  | a :: l, h => by
    rw [List.mapM_cons] at h
    rcases Except.bind_eq_error h with ha | ⟨y, hy, h⟩
    · exact ⟨[], a, l, rfl, by simp, ha⟩
    rcases Except.bind_eq_error h with hl | ⟨_, -, h⟩
    · obtain ⟨pre, b, post, rfl, hpre, hb⟩ := mapM_error hl
      exact ⟨a :: pre, b, post, rfl, List.forall_mem_cons.mpr ⟨⟨y, hy⟩, hpre⟩, hb⟩
    · cases h

/-- A `mapM` whose function returns on every element returns. -/
theorem mapM_ok_of_forall {ε α β : Type} {f : α → Except ε β} :
    ∀ {l : List α}, (∀ a ∈ l, ∃ b, f a = .ok b) → ∃ bs, l.mapM f = .ok bs
  | [], _ => ⟨[], rfl⟩
  | a :: l, h => by
    obtain ⟨b, hb⟩ := h a (List.mem_cons_self _ _)
    obtain ⟨bs, hbs⟩ := mapM_ok_of_forall fun a' ha' => h a' (List.mem_cons_of_mem _ ha')
    exact ⟨b :: bs, by rw [List.mapM_cons, hb, hbs]; rfl⟩

/-- In two lists related elementwise, each element of either has a partner in the other. -/
theorem forall₂_partners {α β : Type} {r : α → β → Prop} :
    ∀ {l : List α} {bs : List β}, List.Forall₂ r l bs →
      (∀ b ∈ bs, ∃ a ∈ l, r a b) ∧ ∀ a ∈ l, ∃ b ∈ bs, r a b
  | _, _, .nil => ⟨fun _ h => (by cases h), fun _ h => (by cases h)⟩
  | _, _, .cons hab hrest => by
    obtain ⟨h₁, h₂⟩ := forall₂_partners hrest
    refine ⟨fun b hb => ?_, fun a ha => ?_⟩
    · rcases List.mem_cons.mp hb with rfl | hb
      · exact ⟨_, List.mem_cons_self _ _, hab⟩
      · obtain ⟨a, ha, hr⟩ := h₁ b hb
        exact ⟨a, List.mem_cons_of_mem _ ha, hr⟩
    · rcases List.mem_cons.mp ha with rfl | ha
      · exact ⟨_, List.mem_cons_self _ _, hab⟩
      · obtain ⟨b, hb, hr⟩ := h₂ a ha
        exact ⟨b, List.mem_cons_of_mem _ hb, hr⟩

/-- Every part of a path the tree holds is a good name. -/
theorem FileTree.good_of_mem_entries (t : FileTree) {p : List String} (hp : p ∈ t.entries) :
    ∀ s ∈ p, GoodName s := by
  rcases List.mem_append.mp hp with hp | hp
  · obtain ⟨f, hf, rfl⟩ := List.mem_map.mp hp
    exact t.files_good f hf
  · exact t.dirs_good p hp

/-! ### The order of `sorted` on paths -/

/-- `sorted` can compare any two paths. -/
theorem partsLe_total : ∀ a b : List String, partsLe a b = true ∨ partsLe b a = true
  | [], _ => .inl rfl
  | _ :: _, [] => .inr rfl
  | x :: xs, y :: ys => by
    by_cases hxy : x = y
    · subst hxy
      simp only [partsLe, if_pos rfl]
      exact partsLe_total xs ys
    · simp only [partsLe, if_neg hxy, if_neg (Ne.symm hxy), textLt_iff]
      exact lt_or_gt_of_ne hxy

theorem partsLe_trans :
    ∀ a b c : List String, partsLe a b = true → partsLe b c = true → partsLe a c = true
  | [], _, _, _, _ => rfl
  | _ :: _, [], _, h, _ => by cases h
  | _ :: _, _ :: _, [], _, h => by cases h
  | x :: xs, y :: ys, z :: zs, h₁, h₂ => by
    simp only [partsLe] at h₁ h₂ ⊢
    by_cases hxy : x = y <;> by_cases hyz : y = z
    · subst hxy hyz
      rw [if_pos rfl] at h₁ h₂ ⊢
      exact partsLe_trans xs ys zs h₁ h₂
    · subst hxy
      rwa [if_neg hyz] at h₂ ⊢
    · subst hyz
      rwa [if_neg hxy] at h₁ ⊢
    · rw [if_neg hxy, textLt_iff] at h₁
      rw [if_neg hyz, textLt_iff] at h₂
      rw [if_neg (ne_of_lt (h₁.trans h₂)), textLt_iff]
      exact h₁.trans h₂

theorem partsLe_antisymm :
    ∀ a b : List String, partsLe a b = true → partsLe b a = true → a = b
  | [], [], _, _ => rfl
  | [], _ :: _, _, h => by cases h
  | _ :: _, [], h, _ => by cases h
  | x :: xs, y :: ys, h₁, h₂ => by
    simp only [partsLe] at h₁ h₂
    by_cases hxy : x = y
    · subst hxy
      rw [if_pos rfl] at h₁ h₂
      rw [partsLe_antisymm xs ys h₁ h₂]
    · rw [if_neg hxy, textLt_iff] at h₁
      rw [if_neg (Ne.symm hxy), textLt_iff] at h₂
      exact absurd h₂ (lt_asymm h₁)

/-- Sorting by `partsLe` puts the paths in order. -/
theorem sorted_insertionSort_partsLe (l : List (List String)) :
    (l.insertionSort (fun a b => partsLe a b)).Sorted (fun a b => partsLe a b = true) := by
  haveI : IsTotal (List String) (fun a b => partsLe a b = true) := ⟨partsLe_total⟩
  haveI : IsTrans (List String) (fun a b => partsLe a b = true) := ⟨partsLe_trans⟩
  exact List.sorted_insertionSort _ l

/-- Two listings of the same paths sort to the same list. -/
theorem insertionSort_partsLe_eq_of_perm {l₁ l₂ : List (List String)} (h : l₁.Perm l₂) :
    l₁.insertionSort (fun a b => partsLe a b) = l₂.insertionSort (fun a b => partsLe a b) := by
  haveI : IsAntisymm (List String) (fun a b => partsLe a b = true) := ⟨partsLe_antisymm⟩
  exact List.eq_of_perm_of_sorted
    (((List.perm_insertionSort _ l₁).trans h).trans (List.perm_insertionSort _ l₂).symm)
    (sorted_insertionSort_partsLe l₁) (sorted_insertionSort_partsLe l₂)

/-! ### Sample inputs

The witnesses below and in later modules run the program on these. -/

/-- A host whose `node` succeeds on every file, whose root text resolves to `/r`, and which has no
network. -/
def sampleHost : Host := ⟨fun _ _ => .ok ⟨0, "", ""⟩, fun _ => .ok ["r"], [], fun _ => .error ""⟩

/-- A runtime whose `json.loads` decodes every text to `j`, whose `str.lower` leaves a text as it
is, and whose digest of every byte string is empty. On lowercase ASCII texts its `lower` is
Python's. -/
def sampleRuntime (j : Json) : Runtime :=
  ⟨id, fun _ => rfl, fun _ => "", fun _ => none, fun _ => "", fun _ => .ok j, fun _ => ""⟩

/-- The directory `/r` with one empty module file, `/r/a.js`. -/
def sampleTree : FileTree :=
  ⟨[(["r", "a.js"], [])], [[], ["r"]], Disk.reliable, by decide, by decide, by decide, by decide,
    by decide, by decide⟩

section
variable {host : Host} {rt : Runtime} {t : FileTree} {root : List String}

/-- A module `load_module` returned. -/
theorem loadModule_ok {path : List String} {m : ModuleInfo}
    (h : loadModule host rt t root path = .ok m) :
    m.path = path ∧ readBytes t path = .ok m.source ∧
      m.sha256 = "sha256:" ++ rt.sha256 m.source ∧
      ∃ meta nameValue versionValue rel, extractMetadata host rt t path = .ok meta ∧
        meta.get "name" (.str "") = .ok nameValue ∧
          meta.get "version" (.str "") = .ok versionValue ∧
        relativeTo path root = .ok rel ∧ m.name = rt.lower (strip (pyStr rt nameValue)) ∧
        m.version = versionOf rt versionValue ∧
        m.versioned = isVersionedPath rt rel m.name m.version := by
  unfold loadModule at h
  obtain ⟨source, hsrc, h⟩ := Except.bind_eq_ok h
  obtain ⟨meta, hmeta, h⟩ := Except.bind_eq_ok h
  obtain ⟨nameValue, hname, h⟩ := Except.bind_eq_ok h
  dsimp only at h
  split at h
  · cases h
  · obtain ⟨versionValue, hver, h⟩ := Except.bind_eq_ok h
    obtain ⟨rel, hrel, h⟩ := Except.bind_eq_ok h
    cases h
    exact ⟨rfl, Except.mapError_eq_ok hsrc, rfl, meta, nameValue, versionValue,
      rel, hmeta, hname, hver, hrel, rfl, rfl, rfl⟩

/-- What `load_module` raises other than the `AttributeError` of metadata that is not an object: a
`BootstrapError`, the `OSError` of a `node` that fails to start for another reason than a missing
binary, the `RecursionError` of `json.loads` on deeply nested output, and a `ValueError`, of
`json.loads` on an overlong integer or of a path holding a NUL character. -/
def LoadError (e : PyExc) : Prop :=
  (∃ msg, e = .bootstrap msg) ∨ (∃ err, err ≠ .noent ∧ e = .os ⟨err, "node"⟩) ∨
    (∃ msg, e = .recursion msg) ∨ ∃ msg, e = .value msg

/-- `json.loads` under a handler for its decoding errors raises the handler's error, its
`RecursionError` or its `ValueError`. -/
theorem Runtime.loadsWith_error {wrap : String → PyExc} {s : String} {e : PyExc}
    (h : rt.loadsWith wrap s = .error e) :
    (∃ msg, e = wrap msg) ∨ (∃ msg, e = .recursion msg) ∨ ∃ msg, e = .value msg := by
  unfold Runtime.loadsWith at h
  split at h <;> cases h
  · exact .inl ⟨_, rfl⟩
  · exact .inr (.inl ⟨_, rfl⟩)
  · exact .inr (.inr ⟨_, rfl⟩)

theorem extractMetadata_error {p : List String} {e : PyExc}
    (h : extractMetadata host rt t p = .error e) : LoadError e := by
  unfold extractMetadata at h
  split at h
  · cases h
    exact .inl ⟨_, rfl⟩
  · rename_i err hne _
    cases h
    exact .inr (.inl ⟨err, hne, rfl⟩)
  · split at h
    · cases h
      exact .inl ⟨_, rfl⟩
    · rcases Runtime.loadsWith_error h with ⟨_, rfl⟩ | ⟨_, rfl⟩ | ⟨_, rfl⟩
      · exact .inl ⟨_, rfl⟩
      · exact .inr (.inr (.inl ⟨_, rfl⟩))
      · exact .inr (.inr (.inr ⟨_, rfl⟩))

/-- `load_module` on a path below the root raises a `LoadError`, or `AttributeError` when the
metadata is not an object. -/
theorem loadModule_error {p : List String} {e : PyExc} (hroot : root <+: p)
    (h : loadModule host rt t root p = .error e) :
    LoadError e ∨ ∃ meta, extractMetadata host rt t p = .ok meta ∧
      (∀ fields, meta ≠ .object fields) ∧
      e = .attribute ("'" ++ meta.typeName ++ "' object has no attribute 'get'") := by
  unfold loadModule at h
  rcases Except.bind_eq_error h with hsrc | ⟨_, -, h⟩
  · cases hr : readBytes t p with
    | ok _ => rw [hr] at hsrc; cases hsrc
    | error err =>
      rw [hr] at hsrc
      cases hsrc
      cases err
      · exact .inl (.inl ⟨_, rfl⟩)
      · exact .inl (.inr (.inr (.inr ⟨_, rfl⟩)))
  rcases Except.bind_eq_error h with hmeta | ⟨meta, hmeta, h⟩
  · exact .inl (extractMetadata_error hmeta)
  cases meta with
  | object fields =>
    simp only [Json.get_object] at h
    dsimp only [bind, Except.bind] at h
    split at h
    · cases h
      exact .inl (.inl ⟨_, rfl⟩)
    · rw [relativeTo_eq_drop hroot] at h
      cases h
  | _ =>
    cases h
    exact .inr ⟨_, hmeta, fun _ h => (by cases h), rfl⟩

/-- `q` lies strictly inside `root`. -/
def StrictlyInside (root q : List String) : Prop := root <+: q ∧ root.length < q.length

/-- `rglob` finds the files and directories strictly below the root whose name ends in `.js`. -/
theorem mem_rglobJs {t : FileTree} {root q : List String} :
    q ∈ rglobJs t root ↔
      ((t.read? q).isSome ∨ q ∈ t.dirs) ∧ StrictlyInside root q ∧ endsJs q = true := by
  simp only [rglobJs, List.mem_dedup, List.mem_filter, Bool.and_eq_true, decide_eq_true_eq,
    List.isPrefixOf_iff_prefix, FileTree.entries, List.mem_append, FileTree.mem_files_iff,
    StrictlyInside, and_assoc]

/-- A name ending in `.js` is not `registry.json`, so the scan skips nothing `rglob` finds. -/
theorem mem_discoveredPaths {t : FileTree} {root q : List String} :
    q ∈ discoveredPaths t root ↔ q ∈ rglobJs t root := by
  rw [discoveredPaths, List.mem_filter, List.mem_insertionSort, and_iff_left_iff_imp]
  intro hq
  have hjs := (mem_rglobJs.mp hq).2.2
  unfold endsJs at hjs
  split at hjs
  · rename_i name hlast
    rw [hlast]
    exact decide_eq_true fun h => by cases Option.some.inj h; exact absurd hjs (by decide)
  · cases hjs

/-- The paths `discover_modules` visits are distinct, and each lies strictly below the root and is
held by the tree. -/
theorem discoveredPaths_spec (t : FileTree) (root : List String) :
    (discoveredPaths t root).Nodup ∧
      ∀ p ∈ discoveredPaths t root, StrictlyInside root p ∧ p ∈ t.entries := by
  have hperm := List.perm_insertionSort (fun a b => partsLe a b = true) (rglobJs t root)
  refine ⟨(hperm.nodup_iff.mpr (List.nodup_dedup _)).filter _, fun p hp => ?_⟩
  obtain ⟨hentry, hinside, -⟩ := mem_rglobJs.mp (mem_discoveredPaths.mp hp)
  refine ⟨hinside, ?_⟩
  rw [FileTree.entries, List.mem_append, FileTree.mem_files_iff]
  exact hentry

section
variable {ms : List ModuleInfo} (h : discoverModules host rt t root = .ok ms)
include h

/-- The modules of a scan that returned are loaded from the visited paths, in order. -/
theorem discoverModules_paths : ms.map (·.path) = discoveredPaths t root := by
  have hall := mapM_forall₂ h
  clear h
  generalize discoveredPaths t root = l at hall ⊢
  induction hall with
  | nil => rfl
  | cons hm _ ih => rw [List.map_cons, ih, (loadModule_ok hm).1]

/-- Each module of a scan that returned is what `load_module` returns on its path. -/
theorem discoverModules_load : ∀ m ∈ ms, loadModule host rt t root m.path = .ok m := by
  have hall := mapM_forall₂ h
  clear h
  generalize discoveredPaths t root = l at hall
  induction hall with
  | nil => simp
  | cons hm _ ih =>
    intro m' hm'
    rcases List.mem_cons.mp hm' with rfl | hm'
    · rwa [(loadModule_ok hm).1]
    · exact ih m' hm'

end

/-- What discovery guarantees of the modules it returns: distinct paths, each a file strictly
below the root whose parts are good names, holding the module's bytes, with their hash. Each name is
a lowered text, and each module knows whether its path relative to the root is canonical. -/
theorem discoverModules_spec {ms : List ModuleInfo} (h : discoverModules host rt t root = .ok ms) :
    (ms.map (·.path)).Nodup ∧ ∀ m ∈ ms, StrictlyInside root m.path ∧ (∀ s ∈ m.path, GoodName s) ∧
      t.read? m.path = some m.source ∧ m.sha256 = "sha256:" ++ rt.sha256 m.source ∧
      (∃ x, m.name = rt.lower x) ∧
      m.versioned = isVersionedPath rt (m.path.drop root.length) m.name m.version := by
  obtain ⟨hnodup, hin⟩ := discoveredPaths_spec t root
  rw [← discoverModules_paths h] at hin hnodup
  refine ⟨hnodup, fun m hm => ?_⟩
  obtain ⟨hinside, hentry⟩ := hin m.path (List.mem_map_of_mem _ hm)
  have hgood := t.good_of_mem_entries hentry
  obtain ⟨-, hread, hsha, _, nameValue, _, rel, -, -, -, hrel, hname, -, hvers⟩ :=
    loadModule_ok (discoverModules_load h m hm)
  replace hread := (readBytes_eq_ok.mp hread).2.2.2
  rw [osPath_of_good _ hgood] at hread
  rw [(relativeTo_eq_ok hrel).2] at hvers
  exact ⟨hinside, hgood, hread, hsha, ⟨_, hname⟩, hvers⟩

/-- The kernel reaches the path of every module discovery returned. -/
theorem discoverModules_reachable {ms : List ModuleInfo}
    (h : discoverModules host rt t root = .ok ms) : ∀ m ∈ ms, Reachable t m.path := fun m hm =>
  reachable_of_readBytes (loadModule_ok (discoverModules_load h m hm)).2.1

/-- A host whose `node` prints metadata for `a.js` and fails on every other path. -/
def failingHost : Host :=
  { sampleHost with
    node := fun _ p =>
      if p = ["r", "a.js"] then .ok ⟨0, "", ""⟩ else .ok ⟨1, "bootstrap: fail", ""⟩ }

/-- `/r` with the modules `a.js` and `b.js`. -/
def pairTree : FileTree :=
  ⟨[(["r", "a.js"], []), (["r", "b.js"], [])], [[], ["r"]], Disk.reliable, by decide, by decide,
    by decide, by decide, by decide, by decide⟩

/-- Two trees holding the same entries give `rglob` the same hits, in some order. -/
theorem rglobJs_perm {t t' : FileTree} {root : List String}
    (h : ∀ q, q ∈ t.entries ↔ q ∈ t'.entries) :
    (rglobJs t root).Perm (rglobJs t' root) :=
  (List.perm_ext_iff_of_nodup (List.nodup_dedup _) (List.nodup_dedup _)).mpr fun q => by
    simp only [rglobJs, List.mem_dedup, List.mem_filter, h]

/-- The order of the scan is the order of the paths: two trees holding the same files and
directories, listed in any order, are scanned in the same order. -/
theorem discoveredPaths_eq_of_mem_iff (t t' : FileTree) (root : List String)
    (h : ∀ q, q ∈ t.entries ↔ q ∈ t'.entries) :
    discoveredPaths t root = discoveredPaths t' root := by
  rw [discoveredPaths, discoveredPaths, insertionSort_partsLe_eq_of_perm (rglobJs_perm h)]

/-- `pairTree` listing its modules the other way round. -/
def pairTreeSwapped : FileTree :=
  ⟨[(["r", "b.js"], []), (["r", "a.js"], [])], [[], ["r"]], Disk.reliable, by decide, by decide,
    by decide, by decide, by decide, by decide⟩

theorem discoveredPaths_eq_of_mem_iff_sample :
    pairTree.files ≠ pairTreeSwapped.files ∧
      (∀ q, q ∈ pairTree.entries ↔ q ∈ pairTreeSwapped.entries) ∧
      discoveredPaths pairTree ["r"] = discoveredPaths pairTreeSwapped ["r"] :=
  have hent : ∀ q, q ∈ pairTree.entries ↔ q ∈ pairTreeSwapped.entries := fun q => by
    simp only [FileTree.entries, pairTree, pairTreeSwapped, List.map_cons, List.map_nil,
      List.cons_append, List.nil_append, List.mem_cons]
    exact or_left_comm
  ⟨by decide, hent, discoveredPaths_eq_of_mem_iff pairTree pairTreeSwapped ["r"] hent⟩

/-- A `mapM` reads its function only on the elements of the list. -/
theorem mapM_congr_mem {ε α β : Type} {f g : α → Except ε β} :
    ∀ {l : List α}, (∀ a ∈ l, f a = g a) → l.mapM f = l.mapM g
  | [], _ => rfl
  | a :: l, h => by
    rw [List.mapM_cons, List.mapM_cons, h a (List.mem_cons_self _ _),
      mapM_congr_mem fun b hb => h b (List.mem_cons_of_mem _ hb)]

/-- `json.loads` under a handler returns what `json.loads` returns. -/
theorem Runtime.loadsWith_eq_ok {wrap : String → PyExc} {s : String} {v : Json} :
    rt.loadsWith wrap s = .ok v ↔ rt.loads s = .ok v := by
  unfold Runtime.loadsWith
  split <;> rename_i hl <;> simp [hl]

/-- `extract_metadata` returned: `node` exited with status 0 and printed the metadata as JSON. -/
theorem extractMetadata_eq_ok {p : List String} {meta : Json} :
    extractMetadata host rt t p = .ok meta ↔
      ∃ r, host.node t p = .ok r ∧ r.returncode = 0 ∧ rt.loads r.stdout = .ok meta := by
  unfold extractMetadata
  cases host.node t p with
  | error err => cases err <;> simp
  | ok r => by_cases hr : r.returncode = 0 <;> simp [hr, Runtime.loadsWith_eq_ok]

/-- Where a run of `node` on `p` in `t` succeeds, a run on `p'` in `t'` succeeds too and prints the
same: what `metadata` is, not where the module is, decides what the script prints. -/
def SameMetadata (host : Host) (t : FileTree) (p : List String) (t' : FileTree) (p' : List String) :
    Prop :=
  ∀ r, host.node t p = .ok r → r.returncode = 0 →
    ∃ r', host.node t' p' = .ok r' ∧ r'.returncode = 0 ∧ r'.stdout = r.stdout

/-- Two runs that each print what a successful third run printed print the same. -/
theorem SameMetadata.of_common {t₀ t₁ t₂ : FileTree} {p₀ p₁ p₂ : List String} {r₀ : NodeRun}
    (h₀ : host.node t₀ p₀ = .ok r₀) (hrc : r₀.returncode = 0) (h₁ : SameMetadata host t₀ p₀ t₁ p₁)
    (h₂ : SameMetadata host t₀ p₀ t₂ p₂) : SameMetadata host t₁ p₁ t₂ p₂ := by
  intro r hr _
  obtain ⟨r₁, hr₁, -, hout₁⟩ := h₁ r₀ h₀ hrc
  obtain ⟨r₂, hr₂, hrc₂, hout₂⟩ := h₂ r₀ h₀ hrc
  rw [hr₁, Except.ok.injEq] at hr
  subst hr
  exact ⟨r₂, hr₂, hrc₂, hout₂.trans hout₁.symm⟩

/-- `extract_metadata` reads the tree only through what `node` prints. -/
theorem extractMetadata_congr {t' : FileTree} {p p' : List String} {meta : Json}
    (h : extractMetadata host rt t p = .ok meta) (hnode : SameMetadata host t p t' p') :
    extractMetadata host rt t' p' = .ok meta := by
  obtain ⟨r, hr, hrc, hl⟩ := extractMetadata_eq_ok.mp h
  obtain ⟨r', hr', hrc', hout⟩ := hnode r hr hrc
  exact extractMetadata_eq_ok.mpr ⟨r', hr', hrc', hout ▸ hl⟩

/-- `load_module` on another path and tree where the file holds the same bytes and `node` prints
the same returns the same module at the new path, canonical when the new relative path is. -/
theorem loadModule_relocate {t' : FileTree} {p p' rel' : List String} {m : ModuleInfo}
    (h : loadModule host rt t root p = .ok m) (hread : readBytes t' p' = .ok m.source)
    (hnode : SameMetadata host t p t' p') (hrel : relativeTo p' root = .ok rel') :
    loadModule host rt t' root p' =
      .ok { m with path := p', versioned := isVersionedPath rt rel' m.name m.version } := by
  obtain ⟨-, -, hsha, meta, nameValue, versionValue, -, hmeta₀, hname, hver, -, hn, hv, -⟩ :=
    loadModule_ok h
  obtain ⟨name, version, path, source, sha, versioned, hne, hve⟩ := m
  dsimp only at hsha hn hv hread ⊢
  subst hsha hn hv
  simp only [loadModule, hread, extractMetadata_congr hmeta₀ hnode, hrel, Except.mapError]
  dsimp only [bind, Except.bind]
  rw [hname]
  dsimp only
  rw [dif_neg hne, hver]
  rfl

/-- `load_module` returns the same module on a tree where the file holds the same bytes and `node`
prints the same. -/
theorem loadModule_transfer {t' : FileTree} {p : List String} {m : ModuleInfo}
    (h : loadModule host rt t root p = .ok m) (hread : readBytes t' p = .ok m.source)
    (hnode : SameMetadata host t p t' p) : loadModule host rt t' root p = .ok m := by
  obtain ⟨rfl, -, -, -, -, -, rel, -, -, -, hrel, -, -, hv⟩ := loadModule_ok h
  rw [loadModule_relocate h hread hnode hrel, ← hv]

/-- Discovery returns the same modules on a tree with the same entries, where each module's file
holds the same bytes and `node` prints the same. -/
theorem discoverModules_transfer {t' : FileTree} {ms : List ModuleInfo}
    (h : discoverModules host rt t root = .ok ms) (hent : ∀ q, q ∈ t.entries ↔ q ∈ t'.entries)
    (hfile : ∀ m ∈ ms, readBytes t' m.path = .ok m.source ∧ SameMetadata host t m.path t' m.path) :
    discoverModules host rt t' root = .ok ms := by
  have hpaths : discoveredPaths t' root = discoveredPaths t root := by
    rw [discoveredPaths, discoveredPaths, insertionSort_partsLe_eq_of_perm (rglobJs_perm hent)]
  refine .trans ?_ h
  unfold discoverModules
  rw [hpaths]
  refine mapM_congr_mem fun p hp => ?_
  rw [← discoverModules_paths h] at hp
  obtain ⟨m, hm, rfl⟩ := List.mem_map.mp hp
  have hl := discoverModules_load h m hm
  rw [hl, loadModule_transfer hl (hfile m hm).1 (hfile m hm).2]

/-- Null `name` and `version` are read as the text `None`: `load_module` returns a module named
`lower("None")` with the version `None`. -/
theorem loadModule_null_name (host : Host) (rt : Runtime) (t : FileTree)
    (root path rel : List String) (source : List UInt8) (hread : readBytes t path = .ok source)
    (hmeta : extractMetadata host rt t path = .ok (.object [("name", .null), ("version", .null)]))
    (hrel : relativeTo path root = .ok rel) (hlower : rt.lower "None" ≠ "") :
    ∃ m, loadModule host rt t root path = .ok m ∧ m.name = rt.lower "None" ∧
      m.version = "None" := by
  have hstrip : strip "None" = "None" := by decide
  have hname : lookupKey "name" [("name", Json.null), ("version", Json.null)] = some .null := rfl
  have hver : lookupKey "version" [("name", Json.null), ("version", Json.null)] = some .null := rfl
  simp only [loadModule, hread, hmeta, hrel, Except.mapError]
  dsimp only [bind, Except.bind]
  simp only [Json.get_object, hname, hver, Option.getD_some, pyStr, hstrip]
  dsimp only [bind, Except.bind]
  rw [dif_neg hlower]
  exact ⟨_, rfl, rfl, rfl⟩

theorem loadModule_null_name_sample :
    ∃ (source : List UInt8) (rel : List String), readBytes sampleTree ["r", "a.js"] = .ok source ∧
      extractMetadata sampleHost (sampleRuntime (.object [("name", .null), ("version", .null)]))
        sampleTree ["r", "a.js"] = .ok (.object [("name", .null), ("version", .null)]) ∧
      relativeTo ["r", "a.js"] ["r"] = .ok rel ∧
      (sampleRuntime (.object [("name", .null), ("version", .null)])).lower "None" ≠ "" ∧
      ∃ m, loadModule sampleHost (sampleRuntime (.object [("name", .null), ("version", .null)]))
        sampleTree ["r"] ["r", "a.js"] = .ok m ∧
        m.name = (sampleRuntime (.object [("name", .null), ("version", .null)])).lower "None" ∧
        m.version = "None" :=
  ⟨[], ["a.js"], rfl, rfl, rfl, by decide,
    loadModule_null_name _ _ _ _ _ _ _ rfl rfl rfl (by decide)⟩

end

end StrategyBootstrap
