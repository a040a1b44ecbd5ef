import StrategyBootstrap.Spec.FileTree

/-!
# `StrategyBootstrap.Proofs.Calls`: what each filesystem call does

The kernel's lookup reaches `osPath` of the path (`lookup_entry`), it looks at the directories on
the way and nothing else (`lookup_mono`), and every directory it passes through is one of the tree
(`lookup_prefix`). For a path of good names it succeeds when the parent is a directory
(`lookup_good`).

Each call has one lemma for a call that returned and one for a call that failed: `readBytes_eq_ok`,
`writeBytes_ok` and `writeBytes_error`, `mkdir_ok` and `mkdir_error`, `mkdirs_ok` and
`mkdirs_error`, `unlink_ok` and `unlink_error`, `replace_ok` and `replace_error`. Later proofs cite
these and never unfold a call. A failed call leaves the tree as it was, but for a write cut short,
which changes its own file, and `mkdirs`, which keeps the directories it made before the failure.
No call changes the device.

`mkdirs` makes the entry each prefix of the path reaches, so for `y/../z` under `x` it makes `x/y`
as well as `x/z` (`mkdirs_ok`).

`writeBytes_ok_of_dirs` and `replace_ok_of_dirs` carry a call that returned on one tree over to
another that has its directories, on a reliable device. `Io.fs_ok` and `Io.fs_error` run a call
inside `Io`.
-/

set_option autoImplicit false

namespace StrategyBootstrap

/-- Every part `segments` keeps parses back to itself. -/
theorem segments_of_part {x : String} (hx : x = ".." ∨ GoodName x) : segments x = [x] := by
  rcases hx with rfl | ⟨hne, hdot, -, hslash⟩
  · decide
  · exact segments_of_plain x hslash hne hdot

/-- A list of parts `segments` keeps parses back to itself. -/
theorem flatMap_segments_of_parts {r : List String} (hr : ∀ x ∈ r, x = ".." ∨ GoodName x) :
    r.flatMap segments = r := by
  induction r with
  | nil => rfl
  | cons x r ih =>
    rw [List.flatMap_cons, segments_of_part (hr x (.head _)), ih fun y hy => hr y (.tail _ hy)]
    rfl

/-- Every part pathlib keeps of a path is `..` or a good name. -/
theorem parts_good (p : List String) : ∀ x ∈ p.flatMap segments, x = ".." ∨ GoodName x := by
  intro x hx
  obtain ⟨s, -, hs⟩ := List.mem_flatMap.mp hx
  exact segments_good s x hs

/-- The parts pathlib keeps of a path parse back to themselves. -/
theorem flatMap_segments_idem (p : List String) :
    (p.flatMap segments).flatMap segments = p.flatMap segments :=
  flatMap_segments_of_parts (parts_good p)

/-- The entry a prefix of a path's parts reaches is the walk along that prefix. -/
theorem osPath_of_prefix_parts {p r : List String} (hr : r <+: p.flatMap segments) :
    osPath r = r.foldl walkStep [] := by
  rw [osPath, flatMap_segments_of_parts fun x hx => parts_good p x (hr.subset hx)]

namespace FileTree

/-- Every prefix of a directory is a directory. -/
theorem mem_dirs_of_prefix (t : FileTree) {d q : List String} (hd : d ∈ t.dirs)
    (hq : q <+: d) : q ∈ t.dirs := by
  induction d using List.reverseRecOn with
  | nil => rwa [List.prefix_nil.mp hq]
  | append_singleton d x ih =>
    rcases List.prefix_concat_iff.mp hq with rfl | hq
    · exact hd
    · exact ih (by simpa using t.dir_parent _ hd) hq

/-! ### The lookup -/

variable (t : FileTree)

/-- The walk ends at the entry `walkStep` reaches along the parts, with the last part. -/
theorem parentAt_entry : ∀ (ps dir : List String) (hdir : dir ∈ t.dirs) (sl : t.Slot),
    t.parentAt dir hdir ps = .ok sl → sl.entry = ps.foldl walkStep dir ∧ sl.last = ps.getLast?
  | [], _, _, _, h => by cases h; exact ⟨rfl, rfl⟩
  | [_], _, _, _, h => by cases h; exact ⟨rfl, rfl⟩
  | s :: s' :: rest, dir, hdir, sl, h => by
    unfold parentAt at h
    split at h
    · obtain ⟨he, hl⟩ := parentAt_entry (s' :: rest) _ _ sl h
      exact ⟨he, by rw [hl]; simp [List.getLast?_cons_cons]⟩
    · cases h

/-- Every entry the walk passes through before the last part is a directory. -/
theorem parentAt_prefix : ∀ (ps dir : List String) (hdir : dir ∈ t.dirs) (sl : t.Slot),
    t.parentAt dir hdir ps = .ok sl → ∀ k < ps.length, (ps.take k).foldl walkStep dir ∈ t.dirs
  | [], _, _, _, _ => by simp
  | [_], _, hdir, _, _ => fun k hk => by
    obtain rfl : k = 0 := by simpa using hk
    simpa using hdir
  | s :: s' :: rest, dir, hdir, sl, h => by
    unfold parentAt at h
    split at h
    · rename_i hnext
      intro k hk
      cases k with
      | zero => simpa using hdir
      | succ k => simpa using parentAt_prefix (s' :: rest) _ hnext sl h k (by simpa using hk)
    · cases h

/-- The walk reads the directories alone: on a tree with at least these directories it ends at the
same directory and part. -/
theorem parentAt_mono {t' : FileTree} (hdirs : ∀ d ∈ t.dirs, d ∈ t'.dirs) :
    ∀ (ps dir : List String) (hdir : dir ∈ t.dirs) (sl : t.Slot), t.parentAt dir hdir ps = .ok sl →
      ∃ sl' : t'.Slot, t'.parentAt dir (hdirs dir hdir) ps = .ok sl' ∧ sl'.dir = sl.dir ∧
        sl'.last = sl.last
  | [], _, _, _, h => by cases h; exact ⟨_, rfl, rfl, rfl⟩
  | [_], _, _, _, h => by cases h; exact ⟨_, rfl, rfl, rfl⟩
  | s :: s' :: rest, dir, hdir, sl, h => by
    unfold parentAt at h
    split at h
    · rename_i hnext
      obtain ⟨sl', h', hd, hl⟩ := parentAt_mono hdirs (s' :: rest) _ hnext sl h
      exact ⟨sl', by rw [parentAt, dif_pos (hdirs _ hnext)]; exact h', hd, hl⟩
    · cases h

/-- A walk along good names, from a directory, to a parent that is a directory. -/
theorem parentAt_good : ∀ (ps dir : List String) (hdir : dir ∈ t.dirs), ps ≠ [] →
    (∀ s ∈ ps, GoodName s) → (dir ++ ps).dropLast ∈ t.dirs →
    ∃ sl, t.parentAt dir hdir ps = .ok sl ∧ sl.dir = (dir ++ ps).dropLast ∧ sl.last = ps.getLast?
  | [], _, _, hne, _, _ => absurd rfl hne
  | [s], dir, hdir, _, _, _ => ⟨_, rfl, by simp, rfl⟩
  | s :: s' :: rest, dir, hdir, _, hgood, hparent => by
    have hs : walkStep dir s = dir ++ [s] := by
      simp [walkStep, (hgood s (.head _)).2.2.1]
    have hnext : walkStep dir s ∈ t.dirs := by
      rw [hs]
      refine t.mem_dirs_of_prefix hparent ⟨(s' :: rest).dropLast, ?_⟩
      rw [List.dropLast_append_of_ne_nil _ (by simp)]
      simp
    obtain ⟨sl, h, hd, hl⟩ := parentAt_good (s' :: rest) _ hnext (by simp)
      (fun x hx => hgood x (.tail _ hx)) (by rwa [hs, List.append_assoc])
    refine ⟨sl, by rw [parentAt, dif_pos hnext]; exact h, by rw [hd, hs, List.append_assoc]; rfl,
      by rw [hl]; simp [List.getLast?_cons_cons]⟩

variable {t}

/-- The lookup reaches `osPath` of the path, and its last part is the path's. -/
theorem lookup_entry {p : List String} {sl : t.Slot} (h : t.lookup p = .ok sl) :
    sl.entry = osPath p ∧ sl.last = (p.flatMap segments).getLast? :=
  t.parentAt_entry _ _ _ sl h

/-- Every prefix of the path short of the whole reaches a directory. -/
theorem lookup_prefix {p : List String} {sl : t.Slot} (h : t.lookup p = .ok sl) {r : List String}
    (hr : r <+: p.flatMap segments) (hne : r ≠ p.flatMap segments) : osPath r ∈ t.dirs := by
  obtain ⟨k, rfl⟩ : ∃ k, r = (p.flatMap segments).take k :=
    ⟨r.length, (List.prefix_iff_eq_take.mp hr)⟩
  rw [osPath_of_prefix_parts hr]
  refine t.parentAt_prefix _ _ _ sl h k ?_
  by_contra hk
  exact hne (List.take_of_length_le (by omega))

theorem lookup_mono {t' : FileTree} (hdirs : ∀ d ∈ t.dirs, d ∈ t'.dirs) {p : List String}
    {sl : t.Slot} (h : t.lookup p = .ok sl) :
    ∃ sl' : t'.Slot, t'.lookup p = .ok sl' ∧ sl'.dir = sl.dir ∧ sl'.last = sl.last :=
  t.parentAt_mono hdirs _ _ _ sl h

/-- A path of good names whose parent is a directory: the lookup ends at that parent and the last
name. -/
theorem lookup_good {p : List String} (hp : ∀ s ∈ p.flatMap segments, GoodName s)
    (hne : p.flatMap segments ≠ []) (hparent : (osPath p).dropLast ∈ t.dirs) :
    ∃ sl, t.lookup p = .ok sl ∧ sl.dir = (osPath p).dropLast ∧ sl.last = (osPath p).getLast? := by
  have hos : osPath p = p.flatMap segments := by
    rw [osPath, foldl_walkStep_of_good _ hp]
    rfl
  rw [hos] at hparent ⊢
  exact t.parentAt_good _ _ _ hne hp hparent

/-- A slot whose last part is a good name stands for that name in its directory. -/
theorem Slot.entry_of_good {sl : t.Slot} {s : String} (hl : sl.last = some s) (hs : GoodName s) :
    sl.entry = sl.dir ++ [s] := by
  simp [Slot.entry, hl, walkStep, hs.2.2.1]

end FileTree

/-! ### The calls -/

section Calls
variable {t t' : FileTree} {p src dst : List String} {b : List UInt8} {e : FsError}

/-- A read that returned found a file where the kernel's lookup ends. -/
theorem readBytes_eq_ok :
    readBytes t p = .ok b ↔ hasNul p = false ∧ t.fault (.read (osPath p)) = none ∧
      (∃ sl, t.lookup p = .ok sl) ∧ t.read? (osPath p) = some b := by
  unfold readBytes
  cases hnul : hasNul p
  · cases hf : t.fault (.read (osPath p)) with
    | some f => simp
    | none =>
      cases hl : t.lookup p with
      | error e => simp
      | ok sl =>
        rw [← (FileTree.lookup_entry hl).1]
        cases hb : t.read? sl.entry <;> simp [hb]
  · simp

/-- Python can hand the path to the kernel, and the kernel's lookup finds where it ends: a call on
it fails only by what the device does or by what the entry is. -/
def Reachable (t : FileTree) (p : List String) : Prop :=
  hasNul p = false ∧ ∃ sl, t.lookup p = .ok sl

/-- A path stays reachable while directories are only added. -/
theorem Reachable.mono (h : Reachable t p) (hdirs : ∀ d ∈ t.dirs, d ∈ t'.dirs) : Reachable t' p :=
  let ⟨sl, hsl⟩ := h.2
  let ⟨sl', hsl', _⟩ := FileTree.lookup_mono hdirs hsl
  ⟨h.1, sl', hsl'⟩

theorem reachable_of_readBytes (h : readBytes t p = .ok b) : Reachable t p :=
  let ⟨hnul, _, hl, _⟩ := readBytes_eq_ok.mp h
  ⟨hnul, hl⟩

/-- On a reliable device, a file at a reachable path reads back. -/
theorem readBytes_of_reachable (hdisk : t.disk = Disk.reliable) (hp : Reachable t p)
    (hb : t.read? (osPath p) = some b) : readBytes t p = .ok b :=
  readBytes_eq_ok.mpr ⟨hp.1, by rw [FileTree.fault, hdisk]; rfl, hp.2, hb⟩

theorem writeBytes_ok (h : writeBytes t p b = .ok t') :
    t'.dirs = t.dirs ∧ (∀ q, t'.read? q = if q = osPath p then some b else t.read? q) ∧
      t'.disk = t.disk ∧ hasNul p = false ∧ ∃ sl, t.lookup p = .ok sl := by
  unfold writeBytes at h
  split at h; · cases h
  rename_i hnul
  split at h; · cases h
  split at h
  · cases h
  · rename_i d hd s hl
    split at h
    · rename_i hs
      split at h; · cases h
      split at h; · cases h
      cases h
      have hq : d ++ [s] = osPath p := by
        rw [← (FileTree.lookup_entry hl).1, FileTree.Slot.entry_of_good rfl hs]
      exact ⟨rfl, fun q => by rw [FileTree.read?_write, hq], rfl, by simpa using hnul, _, hl⟩
    · cases h
  · cases h

theorem writeBytes_error {t₁ : FileTree} (h : writeBytes t p b = .error (e, t₁)) :
    t₁.dirs = t.dirs ∧ t₁.disk = t.disk ∧ ∀ q, q ≠ osPath p → t₁.read? q = t.read? q := by
  have same : t₁ = t → t₁.dirs = t.dirs ∧ t₁.disk = t.disk ∧
      ∀ q, q ≠ osPath p → t₁.read? q = t.read? q := by
    rintro rfl; exact ⟨rfl, rfl, fun _ _ => rfl⟩
  unfold writeBytes at h
  split at h; · cases h; exact same rfl
  split at h; · cases h; exact same rfl
  split at h
  · cases h; exact same rfl
  · rename_i d hd s hl
    split at h
    · rename_i hs
      split at h; · cases h; exact same rfl
      split at h
      · cases h
        have hq : d ++ [s] = osPath p := by
          rw [← (FileTree.lookup_entry hl).1, FileTree.Slot.entry_of_good rfl hs]
        exact ⟨rfl, rfl, fun q hne => by rw [FileTree.read?_write, if_neg (hq ▸ hne)]⟩
      · cases h
    · cases h; exact same rfl
  · cases h; exact same rfl

/-- A write raises `ValueError` only for a path that holds a NUL character. -/
theorem writeBytes_nul {t₁ : FileTree} (h : writeBytes t p b = .error (.nul, t₁)) :
    hasNul p = true := by
  unfold writeBytes at h
  split at h
  · assumption
  · repeat' split at h
    all_goals cases h

/-- A write that returned on `t` returns on a tree on a reliable device that has the directories
of `t` and no directory at the path, whatever the bytes. -/
theorem writeBytes_ok_of_dirs (h : writeBytes t p b = .ok t') {t₂ : FileTree} (b₂ : List UInt8)
    (hdisk : t₂.disk = Disk.reliable) (hdirs : ∀ d ∈ t.dirs, d ∈ t₂.dirs)
    (hnot : osPath p ∉ t₂.dirs) :
    ∃ t₂', writeBytes t₂ p b₂ = .ok t₂' := by
  unfold writeBytes at h
  split at h; · cases h
  rename_i hnul
  split at h; · cases h
  split at h
  · cases h
  · rename_i d hd s hl
    split at h
    · rename_i hs
      have hq : d ++ [s] = osPath p := by
        rw [← (FileTree.lookup_entry hl).1, FileTree.Slot.entry_of_good rfl hs]
      have hnot' : d ++ [s] ∉ t₂.dirs := hq ▸ hnot
      obtain ⟨⟨d₂, hd₂, l₂⟩, hl₂, hdd, hll⟩ := FileTree.lookup_mono hdirs hl
      dsimp only at hdd hll
      subst hdd hll
      refine ⟨t₂.write d₂ s b₂ hd₂ hs hnot', ?_⟩
      simp only [writeBytes, hnul, FileTree.fault, hdisk, Disk.reliable, hl₂, dif_pos hs,
        dif_neg hnot', Bool.false_eq_true, ↓reduceIte]
    · cases h
  · cases h

theorem mkdir_ok (h : mkdir t p = .ok t') :
    t'.files = t.files ∧ t'.disk = t.disk ∧ (∀ q, q ∈ t'.dirs ↔ q = osPath p ∨ q ∈ t.dirs) ∧
      ∃ sl, t.lookup p = .ok sl := by
  unfold mkdir at h
  split at h; · cases h
  split at h; · cases h
  split at h
  · cases h
  · rename_i d hd s hl
    split at h
    · rename_i hs
      split at h
      · split at h; · cases h
        cases h
        have hq : d ++ [s] = osPath p := by
          rw [← (FileTree.lookup_entry hl).1, FileTree.Slot.entry_of_good rfl hs]
        exact ⟨rfl, rfl, fun q => by rw [FileTree.dirs_addDir, List.mem_cons, hq], _, hl⟩
      · cases h
    · cases h
  · cases h

theorem mkdir_error {t₁ : FileTree} (h : mkdir t p = .error (e, t₁)) : t₁ = t := by
  unfold mkdir at h
  split at h; · cases h; rfl
  split at h; · cases h; rfl
  split at h
  · cases h; rfl
  · split at h
    · split at h
      · split at h; · cases h; rfl
        cases h
      · cases h; rfl
    · cases h; rfl
  · cases h; rfl

/-- `is_dir` is true at a path the lookup reaches and whose entry is a directory. -/
theorem isDir_eq_true (h : isDir t p = true) :
    hasNul p = false ∧ (∃ sl, t.lookup p = .ok sl) ∧ osPath p ∈ t.dirs := by
  unfold isDir at h
  simp only [Bool.and_eq_true, Bool.not_eq_true'] at h
  refine ⟨h.1, ?_⟩
  have h2 := h.2
  split at h2
  · rename_i sl hl
    exact ⟨⟨sl, hl⟩, (FileTree.lookup_entry hl).1 ▸ of_decide_eq_true h2⟩
  · cases h2

theorem mkdirExistOk_ok (h : mkdirExistOk t p = .ok t') :
    mkdir t p = .ok t' ∨ t' = t ∧ isDir t p = true := by
  unfold mkdirExistOk at h
  cases hm : mkdir t p with
  | ok t₁ => rw [hm] at h; exact .inl h
  | error et =>
    obtain ⟨e', t₁⟩ := et
    obtain rfl := (mkdir_error hm).symm
    rw [hm] at h
    cases e' with
    | os oe =>
      dsimp only at h
      split at h
      · cases h; exact .inr ⟨rfl, ‹_ ∧ _›.2⟩
      · cases h
    | nul => cases h

theorem mkdirExistOk_error {t₁ : FileTree} (h : mkdirExistOk t p = .error (e, t₁)) : t₁ = t := by
  unfold mkdirExistOk at h
  cases hm : mkdir t p with
  | ok t₂ => rw [hm] at h; cases h
  | error et =>
    obtain ⟨e', t₂⟩ := et
    obtain rfl := (mkdir_error hm).symm
    rw [hm] at h
    cases e' with
    | os oe =>
      dsimp only at h
      split at h
      · cases h
      · cases h; rfl
    | nul => cases h; rfl

end Calls

/-! ### `mkdir(parents=True)` -/

section Mkdirs
variable {t t' : FileTree} {p : List String} {e : FsError}

/-- The entries `mkdir(parents=True)` may make for the parts `ps`: the entry each prefix reaches. -/
def MadeBy (ps : List String) (q : List String) : Prop := ∃ r, r <+: ps ∧ q = osPath r

/-- What the recursion of `mkdir(parents=True)` leaves, whether it returned or failed: the same
files and device, the old directories, and new ones only where a prefix of the path reaches. -/
theorem mkdirParents_tree : ∀ (rs : List String) (t : FileTree),
    (FsResult.tree (mkdirParents rs t)).files = t.files ∧
      (FsResult.tree (mkdirParents rs t)).disk = t.disk ∧
      (∀ q ∈ t.dirs, q ∈ (FsResult.tree (mkdirParents rs t)).dirs) ∧
      ∀ q ∈ (FsResult.tree (mkdirParents rs t)).dirs, q ∈ t.dirs ∨ MadeBy rs.reverse q := by
  have one : ∀ {t t₁ : FileTree} {r : List String}, mkdir t r = .ok t₁ →
      t₁.files = t.files ∧ t₁.disk = t.disk ∧ (∀ q ∈ t.dirs, q ∈ t₁.dirs) ∧
        ∀ q ∈ t₁.dirs, q ∈ t.dirs ∨ q = osPath r := fun h => by
    obtain ⟨hf, hd, hdirs, -⟩ := mkdir_ok h
    exact ⟨hf, hd, fun q hq => (hdirs q).mpr (.inr hq), fun q hq => ((hdirs q).mp hq).symm⟩
  have existOk : ∀ {t : FileTree} {r : List String}, let t₁ := FsResult.tree (mkdirExistOk t r)
      t₁.files = t.files ∧ t₁.disk = t.disk ∧ (∀ q ∈ t.dirs, q ∈ t₁.dirs) ∧
        ∀ q ∈ t₁.dirs, q ∈ t.dirs ∨ q = osPath r := fun {t r} => by
    cases h : mkdirExistOk t r with
    | ok t₁ =>
      rcases mkdirExistOk_ok h with h | ⟨rfl, -⟩
      · exact one h
      · exact ⟨rfl, rfl, fun _ hq => hq, fun _ hq => .inl hq⟩
    | error et =>
      obtain ⟨e, t₁⟩ := et
      obtain rfl := mkdirExistOk_error h
      exact ⟨rfl, rfl, fun _ hq => hq, fun _ hq => .inl hq⟩
  have same : ∀ {t : FileTree} {made : List String → Prop},
      t.files = t.files ∧ t.disk = t.disk ∧ (∀ q ∈ t.dirs, q ∈ t.dirs) ∧
        ∀ q ∈ t.dirs, q ∈ t.dirs ∨ made q := ⟨rfl, rfl, fun _ hq => hq, fun _ hq => .inl hq⟩
  intro rs
  induction rs with
  | nil =>
    intro t
    obtain ⟨hf, hd, hkeep, hmade⟩ := @existOk t []
    exact ⟨hf, hd, hkeep, fun q hq => (hmade q hq).imp_right fun hq => ⟨[], List.nil_prefix, hq⟩⟩
  | cons s parent ih =>
    intro t
    have lift : ∀ q, q ∈ t.dirs ∨ MadeBy parent.reverse q →
        q ∈ t.dirs ∨ MadeBy (s :: parent).reverse q :=
      fun q hq => hq.imp_right fun ⟨r, hr, hq⟩ => ⟨r, hr.trans (by simp), hq⟩
    unfold mkdirParents
    dsimp only
    cases hm : mkdir t (s :: parent).reverse with
    | ok t₁ =>
      obtain ⟨hf, hd, hkeep, hmade⟩ := one hm
      exact ⟨hf, hd, hkeep, fun q hq => (hmade q hq).imp_right fun hq =>
          ⟨_, List.prefix_refl _, hq⟩⟩
    | error et =>
      obtain ⟨e', t₁⟩ := et
      obtain rfl := (mkdir_error hm).symm
      cases e' with
      | nul => exact same
      | os oe =>
        dsimp only
        split
        · obtain ⟨hf₂, hd₂, hkeep₂, hmade₂⟩ := ih t
          cases hp : mkdirParents parent t with
          | ok t₂ =>
            rw [hp] at hf₂ hd₂ hkeep₂ hmade₂
            obtain ⟨hf₃, hd₃, hkeep₃, hmade₃⟩ := @existOk t₂ (s :: parent).reverse
            refine ⟨hf₃.trans hf₂, hd₃.trans hd₂, fun q hq => hkeep₃ q (hkeep₂ q hq),
              fun q hq => ?_⟩
            rcases hmade₃ q hq with hq | hq
            · exact lift q (hmade₂ q hq)
            · exact .inr ⟨_, List.prefix_refl _, hq⟩
          | error et₂ =>
            rw [hp] at hf₂ hd₂ hkeep₂ hmade₂
            exact ⟨hf₂, hd₂, hkeep₂, fun q hq => lift q (hmade₂ q hq)⟩
        · split <;> exact same

/-- A recursion that returned leaves the path reachable and a directory. -/
theorem mkdirParents_ok : ∀ {rs : List String} {t t' : FileTree}, mkdirParents rs t = .ok t' →
    (∃ sl, t'.lookup rs.reverse = .ok sl) ∧ osPath rs.reverse ∈ t'.dirs := by
  have existOk : ∀ {t t' : FileTree} {r : List String}, mkdirExistOk t r = .ok t' →
      (∃ sl, t'.lookup r = .ok sl) ∧ osPath r ∈ t'.dirs := fun {t t' r} h => by
    rcases mkdirExistOk_ok h with h | ⟨rfl, hd⟩
    · obtain ⟨-, -, hdirs, sl, hl⟩ := mkdir_ok h
      obtain ⟨sl', hl', -⟩ := FileTree.lookup_mono (fun q hq => (hdirs q).mpr (.inr hq)) hl
      exact ⟨⟨sl', hl'⟩, (hdirs _).mpr (.inl rfl)⟩
    · exact (isDir_eq_true hd).2
  intro rs
  cases rs with
  | nil => exact fun h => existOk h
  | cons s parent =>
    intro t t' h
    unfold mkdirParents at h
    dsimp only at h
    cases hm : mkdir t (s :: parent).reverse with
    | ok t₁ =>
      rw [hm] at h
      cases h
      obtain ⟨-, -, hdirs, sl, hl⟩ := mkdir_ok hm
      obtain ⟨sl', hl', -⟩ := FileTree.lookup_mono (fun q hq => (hdirs q).mpr (.inr hq)) hl
      exact ⟨⟨sl', hl'⟩, (hdirs _).mpr (.inl rfl)⟩
    | error et =>
      obtain ⟨e', t₁⟩ := et
      obtain rfl := (mkdir_error hm).symm
      rw [hm] at h
      cases e' with
      | nul => cases h
      | os oe =>
        dsimp only at h
        split at h
        · cases hp : mkdirParents parent t with
          | ok t₂ => rw [hp] at h; exact existOk h
          | error et₂ => rw [hp] at h; cases h
        · split at h
          · cases h; exact (isDir_eq_true ‹_›).2
          · cases h

theorem mkdirs_ok (h : mkdirs t p = .ok t') :
    t'.files = t.files ∧ t'.disk = t.disk ∧
      ∀ q, q ∈ t'.dirs ↔ q ∈ t.dirs ∨ MadeBy (p.flatMap segments) q := by
  have h' : mkdirParents (p.flatMap segments).reverse t = .ok t' := h
  have htree := mkdirParents_tree (p.flatMap segments).reverse t
  obtain ⟨hreach, hdir⟩ := mkdirParents_ok h'
  rw [h'] at htree
  simp only [FsResult.tree, List.reverse_reverse] at htree hreach hdir
  obtain ⟨hf, hd, hkeep, hmade⟩ := htree
  obtain ⟨sl, hl⟩ := hreach
  refine ⟨hf, hd, fun q => ⟨hmade q, fun hq => hq.elim (hkeep q) fun ⟨r, hr, hq⟩ => ?_⟩⟩
  subst hq
  by_cases hr' : r = (p.flatMap segments).flatMap segments
  · rwa [hr', osPath, flatMap_segments_idem, ← osPath]
  · rw [flatMap_segments_idem] at hr'
    exact FileTree.lookup_prefix hl (by rwa [flatMap_segments_idem]) (by
      rwa [flatMap_segments_idem])

theorem mkdirs_error {t₁ : FileTree} (h : mkdirs t p = .error (e, t₁)) :
    t₁.files = t.files ∧ t₁.disk = t.disk ∧ (∀ q ∈ t.dirs, q ∈ t₁.dirs) ∧
      ∀ q ∈ t₁.dirs, q ∈ t.dirs ∨ MadeBy (p.flatMap segments) q := by
  have h' : mkdirParents (p.flatMap segments).reverse t = .error (e, t₁) := h
  have htree := mkdirParents_tree (p.flatMap segments).reverse t
  rw [h'] at htree
  simpa only [FsResult.tree, List.reverse_reverse] using htree

end Mkdirs

/-! ### `unlink` and `replace` -/

section Remove
variable {t t' t₁ : FileTree} {p src dst : List String} {e : FsError}

theorem unlink_ok (h : unlink t p = .ok t') :
    (t.read? (osPath p)).isSome ∧ t'.dirs = t.dirs ∧
      (∀ q, t'.read? q = if q = osPath p then none else t.read? q) ∧ t'.disk = t.disk := by
  unfold unlink at h
  split at h; · cases h
  split at h; · cases h
  split at h
  · cases h
  · rename_i d hd s hl
    split at h
    · rename_i hs
      have hq : d ++ [s] = osPath p := by
        rw [← (FileTree.lookup_entry hl).1, FileTree.Slot.entry_of_good rfl hs]
      split at h
      · cases h
        rw [← hq]
        exact ⟨‹_›, rfl, FileTree.read?_remove _ _, rfl⟩
      · cases h
    · cases h
  · cases h

theorem unlink_error (h : unlink t p = .error (e, t₁)) : t₁ = t := by
  unfold unlink at h
  split at h; · cases h; rfl
  split at h; · cases h; rfl
  split at h
  · cases h; rfl
  · split at h
    · split at h
      · cases h
      · cases h; rfl
    · cases h; rfl
  · cases h; rfl

theorem replace_ok (h : replace t src dst = .ok t') :
    (t.read? (osPath src)).isSome ∧ t'.dirs = t.dirs ∧
      (∀ q, t'.read? q = if q = osPath dst then t.read? (osPath src)
        else if q = osPath src then none else t.read? q) ∧ t'.disk = t.disk ∧
      hasNul src = false ∧ hasNul dst = false ∧ ∃ sl, t.lookup dst = .ok sl := by
  unfold replace at h
  split at h; · cases h
  rename_i hnul
  simp only [Bool.or_eq_true, not_or, Bool.not_eq_true] at hnul
  split at h; · cases h
  split at h
  · cases h
  · cases h
  · rename_i d hd s d' hd' s' hl hl'
    split at h
    · rename_i hgood
      have hq : d ++ [s] = osPath src := by
        rw [← (FileTree.lookup_entry hl).1, FileTree.Slot.entry_of_good rfl hgood.1]
      have hr : d' ++ [s'] = osPath dst := by
        rw [← (FileTree.lookup_entry hl').1, FileTree.Slot.entry_of_good rfl hgood.2]
      split at h
      · cases h
      · rename_i b hb
        split at h
        · cases h
        · cases h
          refine ⟨by simp [← hq, hb], rfl, fun q => ?_, rfl, hnul.1, hnul.2, _, hl'⟩
          rw [FileTree.read?_write, FileTree.read?_remove, ← hq, ← hr, hb]
    · cases h
  · cases h

theorem replace_error (h : replace t src dst = .error (e, t₁)) : t₁ = t := by
  unfold replace at h
  split at h; · cases h; rfl
  split at h; · cases h; rfl
  split at h
  · cases h; rfl
  · cases h; rfl
  · split at h
    · split at h
      · cases h; rfl
      · split at h
        · cases h; rfl
        · cases h
    · cases h; rfl
  · cases h; rfl

/-- A rename raises `ValueError` only when one of its paths holds a NUL character. -/
theorem replace_nul {t₁ : FileTree} (h : replace t src dst = .error (.nul, t₁)) :
    (hasNul src || hasNul dst) = true := by
  unfold replace at h
  split at h
  · assumption
  · repeat' split at h
    all_goals cases h

/-- A rename that returned on `t` returns on a tree on a reliable device that has the directories
of `t`, a file at the source and no directory at the destination. -/
theorem replace_ok_of_dirs (h : replace t src dst = .ok t') {t₂ : FileTree}
    (hdisk : t₂.disk = Disk.reliable) (hdirs : ∀ d ∈ t.dirs, d ∈ t₂.dirs)
    (hsrc : (t₂.read? (osPath src)).isSome) (hnot : osPath dst ∉ t₂.dirs) :
    ∃ t₂', replace t₂ src dst = .ok t₂' := by
  unfold replace at h
  split at h; · cases h
  rename_i hnul
  split at h; · cases h
  split at h
  · cases h
  · cases h
  · rename_i d hd s d' hd' s' hl hl'
    split at h
    · rename_i hgood
      have hq : d ++ [s] = osPath src := by
        rw [← (FileTree.lookup_entry hl).1, FileTree.Slot.entry_of_good rfl hgood.1]
      have hr : d' ++ [s'] = osPath dst := by
        rw [← (FileTree.lookup_entry hl').1, FileTree.Slot.entry_of_good rfl hgood.2]
      obtain ⟨b, hb⟩ := Option.isSome_iff_exists.mp hsrc
      rw [← hq] at hb
      have hnot' : d' ++ [s'] ∉ t₂.dirs := hr ▸ hnot
      obtain ⟨⟨d₂, hd₂, l₂⟩, hl₂, hdd, hll⟩ := FileTree.lookup_mono hdirs hl
      obtain ⟨⟨d₂', hd₂', l₂'⟩, hl₂', hdd', hll'⟩ := FileTree.lookup_mono hdirs hl'
      dsimp only at hdd hll hdd' hll'
      subst hdd hll hdd' hll'
      refine ⟨(t₂.remove (d₂ ++ [s])).write d₂' s' b hd₂' hgood.2 hnot', ?_⟩
      simp only [replace, hnul, FileTree.fault, hdisk, Disk.reliable, hl₂, hl₂', dif_pos hgood,
        hb, dif_neg hnot', Bool.false_eq_true, ↓reduceIte]
    · cases h
  · cases h

end Remove

/-! ### Calls inside `Io` -/

/-- A call that returned moves the world to its tree. -/
theorem Io.fs_ok {wrap : OSError → PyExc} {op : FileTree → FsResult} {w : World} {t : FileTree}
    (h : op w.tree = .ok t) : Io.fs wrap op w = (.ok (), { w with tree := t }) := by
  simp [Io.fs, h]

/-- A call that failed raises its error as `wrap` turns it, from the tree it left. -/
theorem Io.fs_error {wrap : OSError → PyExc} {op : FileTree → FsResult} {w : World} {e : FsError}
    {t : FileTree} (h : op w.tree = .error (e, t)) :
    Io.fs wrap op w = (.error (e.raise wrap), { w with tree := t }) := by
  simp [Io.fs, h]

/-- `Io.fs_ok` for `mkdirs`, stated on the call itself: the unifier would find its body instead. -/
theorem Io.fs_mkdirs_ok {wrap : OSError → PyExc} {w : World} {p : List String} {t : FileTree}
    (h : mkdirs w.tree p = .ok t) : Io.fs wrap (mkdirs · p) w = (.ok (), { w with tree := t }) :=
  Io.fs_ok h

theorem Io.fs_mkdirs_error {wrap : OSError → PyExc} {w : World} {p : List String} {e : FsError}
    {t : FileTree} (h : mkdirs w.tree p = .error (e, t)) :
    Io.fs wrap (mkdirs · p) w = (.error (e.raise wrap), { w with tree := t }) :=
  Io.fs_error h

end StrategyBootstrap
