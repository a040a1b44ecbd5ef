import StrategyBootstrap.Proofs.Calls
import StrategyBootstrap.Spec.Registry

/-!
# `StrategyBootstrap.Proofs.Effects`: where a step of the tool may change the tree

`Frame files dirs t t'` says what a step did to a tree at most: a file changed only where `files`
holds, no directory went away, a directory was added only where `dirs` holds, and the device is the
same. Each filesystem call has its frame, whether it returned or failed (`writeBytes_frame`,
`mkdirs_frame`, `unlink_frame`, `replace_frame`): a write cut short changes only its own file, and a
failed `mkdirs` keeps only directories it may make.

`Io.Effects files dirs x` says it of every run of `x`, from every world, whether the run returns or
raises part-way. It is closed under `bind` and `handle`, so the frame of each function of the tool
is assembled from the frames of its steps:

* `materializeModule_effects`: the target path and the module's own path, and the entries the
  prefixes of the target directory reach, for a module that is not canonical (`movedFiles`,
  `madeDirs`);
* `registerModules_effects` / `buildRegistry_effects`: the union over the modules, and nothing
  without `write`;
* `writeRegistry_effects`: `registry.json.tmp` and `registry.json`.

Since a step with effects reads nothing of the world but its tree, two runs from worlds with one
tree reach one result and one tree (`Io.Effects.run_eq_of_tree`).

`materializeModule_ok` and `writeRegistry_ok` are the inversion lemmas of the two functions that
returned, and `writeRegistry_ok_of_dirs` says when `write_registry` returns again.
-/

set_option autoImplicit false

namespace StrategyBootstrap

/-! ### Frames -/

/-- What a step did to a tree at most: it changed a file only where `files` holds, kept every
directory, added a directory only where `dirs` holds, and kept the device. -/
structure Frame (files dirs : List String → Prop) (t t' : FileTree) : Prop where
  read : ∀ q, ¬ files q → t'.read? q = t.read? q
  keep : ∀ q ∈ t.dirs, q ∈ t'.dirs
  made : ∀ q ∈ t'.dirs, q ∈ t.dirs ∨ dirs q
  disk : t'.disk = t.disk

namespace Frame

variable {files dirs files' dirs' : List String → Prop} {t t₁ t₂ : FileTree}

theorem refl (files dirs : List String → Prop) (t : FileTree) : Frame files dirs t t :=
  ⟨fun _ _ => rfl, fun _ h => h, fun _ h => .inl h, rfl⟩

theorem trans (h₁ : Frame files dirs t t₁) (h₂ : Frame files dirs t₁ t₂) :
    Frame files dirs t t₂ :=
  ⟨fun q hq => (h₂.read q hq).trans (h₁.read q hq), fun q hq => h₂.keep q (h₁.keep q hq),
    fun q hq => (h₂.made q hq).elim (h₁.made q) .inr, h₂.disk.trans h₁.disk⟩

theorem weaken (h : Frame files dirs t t₁) (hf : ∀ q, files q → files' q)
    (hd : ∀ q, dirs q → dirs' q) : Frame files' dirs' t t₁ :=
  ⟨fun q hq => h.read q (mt (hf q) hq), h.keep, fun q hq => (h.made q hq).imp_right (hd q), h.disk⟩

end Frame

section Calls
variable {t : FileTree} {p src dst : List String} {b : List UInt8}

theorem writeBytes_frame :
    Frame (· = osPath p) (fun _ => False) t (FsResult.tree (writeBytes t p b)) := by
  cases h : writeBytes t p b with
  | ok t' =>
    obtain ⟨hdirs, hread, hdisk, -⟩ := writeBytes_ok h
    exact ⟨fun q hq => by rw [FsResult.tree, hread, if_neg hq], fun q hq => hdirs ▸ hq,
      fun q hq => .inl (hdirs ▸ hq), hdisk⟩
  | error et =>
    obtain ⟨e, t'⟩ := et
    obtain ⟨hdirs, hdisk, hread⟩ := writeBytes_error h
    exact ⟨fun q hq => hread q hq, fun q hq => hdirs ▸ hq, fun q hq => .inl (hdirs ▸ hq), hdisk⟩

theorem mkdirs_frame :
    Frame (fun _ => False) (MadeBy (p.flatMap segments)) t (FsResult.tree (mkdirs t p)) := by
  cases h : mkdirs t p with
  | ok t' =>
    obtain ⟨hfiles, hdisk, hdirs⟩ := mkdirs_ok h
    exact ⟨fun q _ => by simp only [FsResult.tree, FileTree.read?, hfiles],
      fun q hq => (hdirs q).mpr (.inl hq), fun q hq => (hdirs q).mp hq, hdisk⟩
  | error et =>
    obtain ⟨e, t'⟩ := et
    obtain ⟨hfiles, hdisk, hkeep, hmade⟩ := mkdirs_error h
    exact ⟨fun q _ => by simp only [FsResult.tree, FileTree.read?, hfiles], hkeep, hmade, hdisk⟩

theorem unlink_frame : Frame (· = osPath p) (fun _ => False) t (FsResult.tree (unlink t p)) := by
  cases h : unlink t p with
  | ok t' =>
    obtain ⟨-, hdirs, hread, hdisk⟩ := unlink_ok h
    exact ⟨fun q hq => by rw [FsResult.tree, hread, if_neg hq], fun q hq => hdirs ▸ hq,
      fun q hq => .inl (hdirs ▸ hq), hdisk⟩
  | error et =>
    obtain ⟨e, t'⟩ := et
    obtain rfl := unlink_error h
    exact Frame.refl _ _ _

theorem replace_frame :
    Frame (fun q => q = osPath dst ∨ q = osPath src) (fun _ => False) t
      (FsResult.tree (replace t src dst)) := by
  cases h : replace t src dst with
  | ok t' =>
    obtain ⟨-, hdirs, hread, hdisk, -⟩ := replace_ok h
    refine ⟨fun q hq => ?_, fun q hq => hdirs ▸ hq, fun q hq => .inl (hdirs ▸ hq), hdisk⟩
    rw [FsResult.tree, hread, if_neg fun h => hq (.inl h), if_neg fun h => hq (.inr h)]
  | error et =>
    obtain ⟨e, t'⟩ := et
    obtain rfl := replace_error h
    exact Frame.refl _ _ _

end Calls

/-! ### Computations that keep to a frame -/

section Pointwise
variable {α β : Type} {files dirs : List String → Prop} {x : Io α} {w : World}

/-- A step that runs `x` and then, by its outcome, `k` on its value or `h` on its exception keeps to
the frame at a world when `x` does there and every continuation does from every world. -/
theorem Frame.of_cases {y : Io β} {k : α → Io β} {h : PyExc → Io β}
    (hx : Frame files dirs w.tree (x w).2.tree) (hk : ∀ a w, Frame files dirs w.tree (k a w).2.tree)
    (hh : ∀ e w, Frame files dirs w.tree (h e w).2.tree)
    (hy : y w = match x w with | (.ok a, w') => k a w' | (.error e, w') => h e w') :
    Frame files dirs w.tree (y w).2.tree := by
  rw [hy]
  match x w, hx with
  | (.ok a, w'), hx => exact hx.trans (hk a w')
  | (.error e, w'), hx => exact hx.trans (hh e w')

theorem Frame.bind {f : α → Io β} (hx : Frame files dirs w.tree (x w).2.tree)
    (hf : ∀ a w, Frame files dirs w.tree (f a w).2.tree) :
    Frame files dirs w.tree ((x >>= f) w).2.tree :=
  Frame.of_cases hx hf (fun _ _ => Frame.refl _ _ _) (Io.bind_apply x f w)

theorem Frame.handle {h : PyExc → Io α} (hx : Frame files dirs w.tree (x w).2.tree)
    (hh : ∀ e w, Frame files dirs w.tree (h e w).2.tree) :
    Frame files dirs w.tree (Io.handle x h w).2.tree :=
  Frame.of_cases hx (fun _ _ => Frame.refl _ _ _) hh rfl

end Pointwise

/-- What every run of `x` may do, from every world, whether it returns or raises part-way: change
files and add directories within the frame, and write to standard output. It reads nothing of the
world but the tree, so its result and the tree it leaves are those of a run from the same tree with
nothing written yet, and it writes nothing to standard error. -/
structure Io.Effects {α : Type} (files dirs : List String → Prop) (x : Io α) : Prop where
  frame : ∀ w, Frame files dirs w.tree (x w).2.tree
  result_eq : ∀ w, (x w).1 = (x ⟨w.tree, "", ""⟩).1
  tree_eq : ∀ w, (x w).2.tree = (x ⟨w.tree, "", ""⟩).2.tree
  stderr_eq : ∀ w, (x w).2.stderr = w.stderr

namespace Io.Effects

variable {α β : Type} {files dirs files' dirs' : List String → Prop} {x : Io α}

/-- A computation that leaves the world alone: `pure`, `raise`, reading the tree. -/
theorem of_stays (h : ∀ w, x w = ((x ⟨w.tree, "", ""⟩).1, w)) : Io.Effects files dirs x where
  frame w := by rw [h w]; exact Frame.refl _ _ _
  result_eq w := by rw [h w]
  tree_eq w := by rw [h w, h ⟨w.tree, "", ""⟩]
  stderr_eq w := by rw [h w]

theorem write (text : String) : Io.Effects files dirs (Io.write text) :=
  ⟨fun _ => Frame.refl _ _ _, fun _ => rfl, fun _ => rfl, fun _ => rfl⟩

theorem print (line : String) : Io.Effects files dirs (Io.print line) := write _

theorem printLines (lines : List String) : Io.Effects files dirs (Io.printLines lines) := write _

theorem fs {wrap : OSError → PyExc} {op : FileTree → FsResult}
    (hop : ∀ t, Frame files dirs t (FsResult.tree (op t))) :
    Io.Effects files dirs (Io.fs wrap op) where
  frame w := by
    have := hop w.tree
    unfold Io.fs
    split <;> simp_all [FsResult.tree]
  result_eq w := by simp only [Io.fs]; cases op w.tree <;> rfl
  tree_eq w := by simp only [Io.fs]; cases op w.tree <;> rfl
  stderr_eq w := by simp only [Io.fs]; cases op w.tree <;> rfl

theorem weaken (h : Io.Effects files dirs x) (hf : ∀ q, files q → files' q)
    (hd : ∀ q, dirs q → dirs' q) : Io.Effects files' dirs' x :=
  ⟨fun w => (h.frame w).weaken hf hd, h.result_eq, h.tree_eq, h.stderr_eq⟩

/-- Running `x` and then, by its outcome, `k` on its value or `h` on its exception. -/
theorem of_cases {y : Io β} {k : α → Io β} {h : PyExc → Io β} (hx : Io.Effects files dirs x)
    (hk : ∀ a, Io.Effects files dirs (k a)) (hh : ∀ e, Io.Effects files dirs (h e))
    (hy : ∀ w, y w = match x w with | (.ok a, w') => k a w' | (.error e, w') => h e w') :
    Io.Effects files dirs y := by
  have key : ∀ w, (y w).1 = (y ⟨w.tree, "", ""⟩).1 ∧
      (y w).2.tree = (y ⟨w.tree, "", ""⟩).2.tree ∧ (y w).2.stderr = w.stderr := fun w => by
    have hr := hx.result_eq w
    have ht := hx.tree_eq w
    have he := hx.stderr_eq w
    rw [hy, hy]
    revert hr ht he
    cases x w with
    | mk r w₁ =>
    cases x ⟨w.tree, "", ""⟩ with
    | mk r₀ w₀ =>
    rintro (rfl : r = r₀) (ht : w₁.tree = w₀.tree) (he : w₁.stderr = w.stderr)
    -- The continuation runs from two worlds with one tree: it reaches one result and one tree.
    have next : ∀ z : Io β, Io.Effects files dirs z →
        (z w₁).1 = (z w₀).1 ∧ (z w₁).2.tree = (z w₀).2.tree ∧ (z w₁).2.stderr = w.stderr :=
      fun z hz => ⟨by rw [hz.result_eq w₁, hz.result_eq w₀, ht],
        by rw [hz.tree_eq w₁, hz.tree_eq w₀, ht], (hz.stderr_eq w₁).trans he⟩
    cases r with
    | ok a => exact next _ (hk a)
    | error e => exact next _ (hh e)
  exact ⟨fun w => Frame.of_cases (hx.frame w) (fun a => (hk a).frame) (fun e => (hh e).frame)
      (hy w),
    fun w => (key w).1, fun w => (key w).2.1, fun w => (key w).2.2⟩

theorem bind {f : α → Io β} (hx : Io.Effects files dirs x) (hf : ∀ a, Io.Effects files dirs (f a)) :
    Io.Effects files dirs (x >>= f) :=
  of_cases hx hf (fun _ => .of_stays fun _ => rfl) (Io.bind_apply x f)

theorem handle {h : PyExc → Io α} (hx : Io.Effects files dirs x)
    (hh : ∀ e, Io.Effects files dirs (h e)) :
    Io.Effects files dirs (Io.handle x h) :=
  of_cases hx (fun _ => .of_stays fun _ => rfl) hh fun _ => rfl

/-- Two runs from worlds with one tree reach one result and one tree. -/
theorem run_eq_of_tree (h : Io.Effects files dirs x) (w v : World) (hwv : w.tree = v.tree) :
    ∃ w', x w = ((x v).1, w') ∧ w'.tree = (x v).2.tree ∧ w'.stderr = w.stderr := by
  refine ⟨(x w).2, Prod.ext ?_ rfl, ?_, h.stderr_eq w⟩
  · rw [h.result_eq w, h.result_eq v, hwv]
  · rw [h.tree_eq w, h.tree_eq v, hwv]

/-- A step that first reads the tree keeps to a frame chosen for that tree, from the worlds holding
it. -/
theorem tree_bind {k : FileTree → Io β} {w : World} (hk : Io.Effects files dirs (k w.tree)) :
    Frame files dirs w.tree ((Io.tree >>= k) w).2.tree ∧
      ((Io.tree >>= k) w).1 = ((Io.tree >>= k) ⟨w.tree, "", ""⟩).1 ∧
      ((Io.tree >>= k) w).2.tree = ((Io.tree >>= k) ⟨w.tree, "", ""⟩).2.tree ∧
      ((Io.tree >>= k) w).2.stderr = w.stderr := by
  rw [Io.bind_ok (Io.tree_apply w), Io.bind_ok (Io.tree_apply ⟨w.tree, "", ""⟩)]
  exact ⟨hk.frame w, hk.result_eq w, hk.tree_eq w, hk.stderr_eq w⟩

end Io.Effects

/-! ### What a computation raises -/

/-- Every exception a run of `x` raises, from any world, satisfies `P`. -/
def Io.RaisesOnly {α : Type} (P : PyExc → Prop) (x : Io α) : Prop :=
  ∀ w e, (x w).1 = .error e → P e

namespace Io.RaisesOnly

variable {α β : Type} {P : PyExc → Prop} {x : Io α}

theorem pure (a : α) : Io.RaisesOnly P (Pure.pure a : Io α) := fun _ _ h => by cases h

theorem ofExcept {r : Except PyExc α} (h : ∀ e, r = .error e → P e) :
    Io.RaisesOnly P (Io.ofExcept r) :=
  fun _ e he => h e he

/-- A filesystem call raises what its handler makes of an `OSError`, or the `ValueError` of a NUL
character. -/
theorem fs {wrap : OSError → PyExc} {op : FileTree → FsResult} (hwrap : ∀ oe, P (wrap oe))
    (hnul : P (.value "embedded null byte")) : Io.RaisesOnly P (Io.fs wrap op) := fun w e h => by
  unfold Io.fs at h
  split at h
  · cases h
  · rename_i fe _ _
    cases h
    cases fe
    exacts [hwrap _, hnul]

theorem bind {f : α → Io β} (hx : Io.RaisesOnly P x) (hf : ∀ a, Io.RaisesOnly P (f a)) :
    Io.RaisesOnly P (x >>= f) := fun w e h => by
  rw [Io.bind_apply] at h
  match hxw : x w, h with
  | (.ok a, w'), h => exact hf a w' e h
  | (.error e', w'), h =>
    cases h
    exact hx w e (by rw [hxw])

end Io.RaisesOnly

/-! ### The frame of each function -/

/-- The files the move of a module may change: its target path and its own path, unless it is
canonical. -/
def movedFiles (root : List String) (m : ModuleInfo) (q : List String) : Prop :=
  m.versioned = false ∧ (q = osPath (targetPath root m) ∨ q = osPath m.path)

/-- The directories the move of a module may add: the entries the prefixes of its target directory
reach, unless the module is canonical. -/
def madeDirs (root : List String) (m : ModuleInfo) (q : List String) : Prop :=
  m.versioned = false ∧ MadeBy ((targetDir root m).flatMap segments) q

theorem materializeModule_effects (root : List String) (m : ModuleInfo) :
    Io.Effects (movedFiles root m) (madeDirs root m) (materializeModule root m) := by
  unfold materializeModule
  split
  · exact .of_stays fun _ => rfl
  · rename_i hv
    have hv : m.versioned = false := by simpa using hv
    refine .bind (.fs fun _ => mkdirs_frame.weaken (fun _ => False.elim) fun _ hq => ⟨hv, hq⟩)
      fun _ => .bind (.fs fun _ => writeBytes_frame.weaken (fun _ hq => ⟨hv, .inl hq⟩)
        fun _ => False.elim) fun _ => .bind (.fs fun _ => unlink_frame.weaken
          (fun _ hq => ⟨hv, .inr hq⟩) fun _ => False.elim) fun _ => .of_stays fun _ => rfl

/-- One pass of the loop moves its module only with `write`. -/
theorem registerModule_effects (root : List String) (write : Bool) (registry : Registry)
    (m : ModuleInfo) :
    Io.Effects (fun q => write = true ∧ movedFiles root m q)
      (fun q => write = true ∧ madeDirs root m q)
      (registerModule root write registry m) := by
  unfold registerModule
  dsimp only
  split
  · rename_i hw
    exact .bind ((materializeModule_effects root m).weaken (fun _ hq => ⟨hw, hq⟩)
        fun _ hq => ⟨hw, hq⟩)
      fun _ => .bind (.of_stays fun _ => rfl) fun _ => .of_stays fun _ => rfl
  · exact .bind (.of_stays fun _ => rfl) fun _ => .bind (.of_stays fun _ => rfl)
      fun _ => .of_stays fun _ => rfl

theorem registerModules_effects (root : List String) (write : Bool) :
    ∀ (ms : List ModuleInfo) (registry : Registry),
      Io.Effects (fun q => write = true ∧ ∃ m ∈ ms, movedFiles root m q)
        (fun q => write = true ∧ ∃ m ∈ ms, madeDirs root m q)
          (registerModules root write registry ms)
  | [], _ => .of_stays fun _ => rfl
  | m :: ms, registry =>
    .bind ((registerModule_effects root write registry m).weaken
        (fun _ ⟨hw, hq⟩ => ⟨hw, m, .head _, hq⟩) fun _ ⟨hw, hq⟩ => ⟨hw, m, .head _, hq⟩)
      fun registry' => (registerModules_effects root write ms registry').weaken
        (fun _ ⟨hw, m', hm', hq⟩ => ⟨hw, m', .tail _ hm', hq⟩)
        fun _ ⟨hw, m', hm', hq⟩ => ⟨hw, m', .tail _ hm', hq⟩

theorem buildRegistry_effects (root : List String) (ms : List ModuleInfo) (write : Bool) :
    Io.Effects (fun q => write = true ∧ ∃ m ∈ ms, movedFiles root m q)
      (fun q => write = true ∧ ∃ m ∈ ms, madeDirs root m q) (buildRegistry root ms write) :=
  .bind (registerModules_effects root write ms _) fun _ => .of_stays fun _ => rfl

theorem writeRegistry_effects (rt : Runtime) (root : List String) (R : Registry) :
    Io.Effects
      (fun q => q = osPath (joinPath root "registry.json.tmp") ∨
          q = osPath (joinPath root "registry.json"))
      (fun _ => False) (writeRegistry rt root R) :=
  .bind (.fs fun _ => writeBytes_frame.weaken (fun _ => .inl) fun _ => id)
    fun _ => .fs fun _ => replace_frame.weaken (fun _ hq => hq.symm) fun _ => id

/-! ### `materialize_module` and `write_registry` that returned -/

section Materialize
variable {root : List String} {m : ModuleInfo} {w w' : World}

/-- A module `materialize_module` returned: canonical and left in place, or moved to its target
path by `mkdir`, the write and the unlink, in that order. -/
theorem materializeModule_ok {p : List String} (h : materializeModule root m w = (.ok p, w')) :
    (m.versioned = true ∧ p = m.path ∧ w' = w) ∨
      (m.versioned = false ∧ p = targetPath root m ∧ w' = { w with tree := w'.tree } ∧
        ∃ t₁ t₂, mkdirs w.tree (targetDir root m) = .ok t₁ ∧
          writeBytes t₁ (targetPath root m) m.source = .ok t₂ ∧
          unlink t₂ m.path = .ok w'.tree) := by
  unfold materializeModule at h
  split at h
  · cases h
    exact .inl ⟨‹_›, rfl, rfl⟩
  · rename_i hv
    refine .inr ⟨by simpa using hv, ?_⟩
    cases h₁ : mkdirs w.tree (targetDir root m) with
    | error e => rw [Io.bind_error (Io.fs_mkdirs_error (e := e.1) (t := e.2) h₁)] at h; cases h
    | ok t₁ =>
      rw [Io.bind_ok (Io.fs_mkdirs_ok h₁)] at h
      cases h₂ : writeBytes t₁ (targetPath root m) m.source with
      | error e => rw [Io.bind_error (Io.fs_error (e := e.1) (t := e.2) h₂)] at h; cases h
      | ok t₂ =>
        rw [Io.bind_ok (Io.fs_ok h₂)] at h
        cases h₃ : unlink t₂ m.path with
        | error e => rw [Io.bind_error (Io.fs_error (e := e.1) (t := e.2) h₃)] at h; cases h
        | ok t₃ =>
          rw [Io.bind_ok (Io.fs_ok h₃)] at h
          cases h
          exact ⟨rfl, rfl, t₁, t₂, rfl, h₂, h₃⟩

end Materialize

section WriteRegistry
variable {rt : Runtime} {root : List String} {R : Registry} {w w' : World} {u : Unit}

/-- A `write_registry` that returned: `registry.json` holds the manifest, `registry.json.tmp` is
gone, and no other file, no directory and not the device changed. -/
theorem writeRegistry_ok (h : writeRegistry rt root R w = (.ok u, w')) :
    w' = { w with tree := w'.tree } ∧ w'.tree.dirs = w.tree.dirs ∧
      (∀ q, w'.tree.read? q =
        if q = osPath (joinPath root "registry.json") then
          some (utf8 (rt.dumps (registryJson R) ++ "\n"))
        else if q = osPath (joinPath root "registry.json.tmp") then none else w.tree.read? q) ∧
      w'.tree.disk = w.tree.disk := by
  unfold writeRegistry at h
  cases h₁ : writeBytes w.tree (joinPath root "registry.json.tmp")
      (utf8 (rt.dumps (registryJson R) ++ "\n")) with
  | error e => rw [Io.bind_error (Io.fs_error (e := e.1) (t := e.2) h₁)] at h; cases h
  | ok t₁ =>
    rw [Io.bind_ok (Io.fs_ok h₁)] at h
    cases h₂ : replace t₁ (joinPath root "registry.json.tmp") (joinPath root "registry.json") with
    | error e => rw [Io.fs_error (e := e.1) (t := e.2) h₂] at h; cases h
    | ok t₂ =>
      rw [Io.fs_ok h₂] at h
      cases h
      obtain ⟨hdirs₁, hread₁, hdisk₁, -⟩ := writeBytes_ok h₁
      obtain ⟨-, hdirs₂, hread₂, hdisk₂, -⟩ := replace_ok h₂
      refine ⟨rfl, hdirs₂.trans hdirs₁, fun q => ?_, hdisk₂.trans hdisk₁⟩
      rw [hread₂, hread₁, hread₁, if_pos rfl]
      split_ifs <;> rfl

/-- A `write_registry` that returned returns again, with any manifest, from a tree on a reliable
device with the same directories. -/
theorem writeRegistry_ok_of_dirs (h : writeRegistry rt root R w = (.ok u, w')) (R' : Registry)
    {w₂ : World} (hdisk : w₂.tree.disk = Disk.reliable) (hdirs : w₂.tree.dirs = w.tree.dirs) :
    ∃ w₂', writeRegistry rt root R' w₂ = (.ok (), w₂') := by
  unfold writeRegistry at h ⊢
  cases h₁ : writeBytes w.tree (joinPath root "registry.json.tmp")
      (utf8 (rt.dumps (registryJson R) ++ "\n")) with
  | error e => rw [Io.bind_error (Io.fs_error (e := e.1) (t := e.2) h₁)] at h; cases h
  | ok t₁ =>
    rw [Io.bind_ok (Io.fs_ok h₁)] at h
    cases h₂ : replace t₁ (joinPath root "registry.json.tmp") (joinPath root "registry.json") with
    | error e => rw [Io.fs_error (e := e.1) (t := e.2) h₂] at h; cases h
    | ok t₂ =>
      obtain ⟨hdirs₁, hread₁, -, -⟩ := writeBytes_ok h₁
      obtain ⟨-, hdirs₂, hread₂, -⟩ := replace_ok h₂
      have htmp : osPath (joinPath root "registry.json.tmp") ∉ w₂.tree.dirs := by
        rw [hdirs, ← hdirs₁]
        exact t₁.not_mem_dirs_of_read? (by rw [hread₁, if_pos rfl])
      obtain ⟨t₁', h₁'⟩ := writeBytes_ok_of_dirs h₁ (utf8 (rt.dumps (registryJson R') ++ "\n"))
        hdisk
        (fun d hd => hdirs ▸ hd) htmp
      obtain ⟨hdirs₁', hread₁', hdisk₁', -⟩ := writeBytes_ok h₁'
      have hsame : t₁'.dirs = t₁.dirs := by rw [hdirs₁', hdirs, hdirs₁]
      have hnot : osPath (joinPath root "registry.json") ∉ t₁'.dirs := by
        rw [hsame, ← hdirs₂]
        exact t₂.not_mem_dirs_of_read? (by rw [hread₂, if_pos rfl, hread₁, if_pos rfl])
      obtain ⟨t₂', h₂'⟩ := replace_ok_of_dirs h₂ (hdisk₁'.trans hdisk) (fun d hd => hsame ▸ hd)
        (by simp [hread₁']) hnot
      exact ⟨_, by rw [Io.bind_ok (Io.fs_ok h₁'), Io.fs_ok h₂']⟩

end WriteRegistry

end StrategyBootstrap
