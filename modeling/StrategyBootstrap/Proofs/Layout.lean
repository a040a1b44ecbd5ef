import StrategyBootstrap.Spec.Registry

/-!
# `StrategyBootstrap.Proofs.Layout`: the canonical layout and its recognizer

`materialize_module` builds `root / name / version / (name + ".js")` with pathlib.
`is_versioned_path` decides, from the path relative to the root, whether a module already sits
there. This module relates the two.

* `targetPath_eq`: for a name and a version that do not start with `/`, the target path is the root
  followed by the parts pathlib parses from each text. `targetPath_of_single` is the common case,
  where both are single parts (`SinglePart`). Whatever they are, the target path below the root is
  made of single parts (`singlePart_drop_targetPath`).
* `segments_append_js`: `name + ".js"` always parses to at least one part, the last ending in `.js`,
  and each part is a part of the name or a good name. So the target path lies strictly below the
  target directory, and `endsJs_targetPath` says it ends in `.js`.
* `segments_asPosix` / `joinPath_asPosix`: the round trip between a relative path of single parts
  and the text `as_posix` writes for it. The manifest stores that text, and `root / text` finds the
  path again, `..` parts included.
* `isVersionedPath_iff`: the recognizer looks only at the last two parts and at the length. It
  compares the lowered texts as given.
* `isVersionedPath_canonical`: the recognizer and the constructor agree when the name and the
  version are single parts. `versioned_path_rejects_target` is the version `v1/`. pathlib drops its
  slash when it builds the path, but the recognizer compares the text with the slash and rejects the
  path it built.
-/

set_option autoImplicit false

namespace StrategyBootstrap

/-! ### Parsing texts -/

/-- Appending a text without `/` extends the last piece. -/
theorem splitSlash_append (l l' : List Char) (h : '/' ∉ l') :
    ∃ pre last, splitSlash l = pre ++ [last] ∧ splitSlash (l ++ l') = pre ++ [last ++ l'] := by
  induction l with
  | nil => exact ⟨[], [], rfl, by simp [splitSlash_of_not_mem _ h]⟩
  | cons c cs ih =>
    obtain ⟨pre, last, h₁, h₂⟩ := ih
    by_cases hc : c = '/'
    · exact ⟨[] :: pre, last, by simp [splitSlash, hc, h₁], by simp [splitSlash, hc, h₂]⟩
    · cases pre with
      | nil => exact ⟨[], c :: last, by simp [splitSlash, hc, h₁], by simp [splitSlash, hc, h₂]⟩
      | cons x xs =>
        exact ⟨(c :: x) :: xs, last, by simp [splitSlash, hc, h₁], by simp [splitSlash, hc, h₂]⟩

/-- `name + ".js"` parses to at least one part, the last of which ends in `.js`, and each part is a
part of `name` or a good name. -/
theorem segments_append_js (s : String) :
    segments (s ++ ".js") ≠ [] ∧ endsJs (segments (s ++ ".js")) = true ∧
      ∀ x ∈ segments (s ++ ".js"), x ∈ segments s ∨ GoodName x := by
  obtain ⟨pre, last, h₁, h₂⟩ := splitSlash_append s.data ".js".data (by decide)
  have hlast : '/' ∉ last := not_mem_of_mem_splitSlash s.data last (by simp [h₁])
  have hlen : ∀ t : String, t.data = last ++ ".js".data → 2 < t.data.length := fun t ht => by
    simp [ht]
  have hgood : GoodName ⟨last ++ ".js".data⟩ := by
    refine ⟨fun h => ?_, fun h => ?_, fun h => ?_, by simpa using hlast⟩ <;>
      have := hlen _ (congrArg String.data h).symm <;> simp at this
  have hkeep : (!(last ++ ".js".data).isEmpty && last ++ ".js".data != ['.']) = true := by
    simp only [Bool.and_eq_true, Bool.not_eq_true', List.isEmpty_eq_false, bne_iff_ne, ne_eq]
    exact ⟨fun h => hgood.1 (congrArg String.mk h), fun h => hgood.2.1 (congrArg String.mk h)⟩
  have hseg : segments (s ++ ".js") =
      (pre.filter fun p => !p.isEmpty && p != ['.']).map String.mk ++ [⟨last ++ ".js".data⟩] := by
    rw [segments, String.data_append, h₂, List.filter_append, List.filter_singleton, hkeep]
    simp
  have hs : segments s = (pre.filter fun p => !p.isEmpty && p != ['.']).map String.mk ++
      ([last].filter fun p => !p.isEmpty && p != ['.']).map String.mk := by
    rw [segments, h₁, List.filter_append, List.map_append]
  refine ⟨by simp [hseg], by simp [hseg, endsJs, List.isSuffixOf_iff_suffix], fun x hx => ?_⟩
  rw [hseg, List.mem_append, List.mem_singleton] at hx
  rcases hx with hx | rfl
  · exact .inl (by rw [hs]; exact List.mem_append_left _ hx)
  · exact .inr hgood

/-- A text pathlib parses to one part: not empty, not `.`, and without `/`. The part may be `..`. -/
def SinglePart (s : String) : Prop := s ≠ "" ∧ s ≠ "." ∧ '/' ∉ s.data

instance : DecidablePred SinglePart := fun s =>
  inferInstanceAs (Decidable (s ≠ "" ∧ s ≠ "." ∧ '/' ∉ s.data))

theorem GoodName.singlePart {s : String} (hs : GoodName s) : SinglePart s :=
  ⟨hs.1, hs.2.1, hs.2.2.2⟩

theorem SinglePart.head_ne_slash {s : String} (hs : SinglePart s) : s.data.head? ≠ some '/' :=
  fun h => hs.2.2 (List.mem_of_mem_head? h)

theorem segments_of_single {s : String} (hs : SinglePart s) : segments s = [s] :=
  segments_of_plain s hs.2.2 hs.1 hs.2.1

/-- Every part `segments` returns is a single part. -/
theorem singlePart_of_mem_segments {s x : String} (hx : x ∈ segments s) : SinglePart x :=
  (segments_good s x hx).elim (fun h => h ▸ by decide) GoodName.singlePart

theorem splitSlash_append_slash (l r : List Char) (h : '/' ∉ l) :
    splitSlash (l ++ '/' :: r) = l :: splitSlash r := by
  induction l with
  | nil => simp [splitSlash]
  | cons c cs ih =>
    simp only [List.mem_cons, not_or] at h
    simp [splitSlash, Ne.symm h.1, ih h.2]

theorem intercalate_go_data (acc s : String) (as : List String) :
    (String.intercalate.go acc s as).data = acc.data ++ as.flatMap (fun a => s.data ++ a.data) := by
  induction as generalizing acc with
  | nil => simp [String.intercalate.go]
  | cons a as ih => simp [String.intercalate.go, ih]

/-- `as_posix` of a relative path of single parts parses back to that path. -/
theorem segments_asPosix (rel : List String) (hne : rel ≠ []) (hrel : ∀ s ∈ rel, SinglePart s) :
    segments (asPosix rel) = rel := by
  obtain ⟨x, xs, rfl⟩ := List.exists_cons_of_ne_nil hne
  have hsplit : ∀ (x : String) (xs : List String), (∀ s ∈ x :: xs, SinglePart s) →
      splitSlash (x.data ++ xs.flatMap (fun a => "/".data ++ a.data)) =
        (x :: xs).map String.data := by
    intro x xs hgood
    induction xs generalizing x with
    | nil => simp [splitSlash_of_not_mem _ (hgood x (by simp)).2.2]
    | cons y ys ih =>
      show splitSlash (x.data ++ '/' :: (y.data ++ ys.flatMap fun a => "/".data ++ a.data)) = _
      rw [splitSlash_append_slash _ _ (hgood x (by simp)).2.2,
        ih y (fun s hs => hgood s (List.mem_cons_of_mem _ hs))]
      rfl
  have hkeep : ∀ s ∈ x :: xs,
      ((fun p : List Char => !p.isEmpty && p != ['.']) ∘ String.data) s = true := fun s hs => by
    obtain ⟨hne, hdot, -⟩ := hrel s hs
    simp only [Function.comp_apply, Bool.and_eq_true, Bool.not_eq_true', List.isEmpty_eq_false,
      bne_iff_ne, ne_eq]
    exact ⟨fun h => hne (String.ext h), fun h => hdot (String.ext h)⟩
  rw [segments, asPosix, if_neg hne, String.intercalate, intercalate_go_data, hsplit _ _ hrel,
    List.filter_map, List.filter_eq_self.mpr hkeep, List.map_map]
  exact List.map_id'' (fun _ => rfl) _

/-- `root / rel.as_posix()` is `root` followed by `rel`, for a relative path of single parts. The
empty path is written `.`, which adds nothing. -/
theorem joinPath_asPosix (root : List String) : ∀ rel : List String, (∀ s ∈ rel, SinglePart s) →
    joinPath root (asPosix rel) = root ++ rel
  | [], _ => by simp [asPosix, joinPath, segments, splitSlash]
  | x :: xs, hrel => by
    have hhead : (asPosix (x :: xs)).data.head? = x.data.head? := by
      obtain ⟨hx, -⟩ := hrel x (by simp)
      obtain ⟨c, cs, hc⟩ := List.exists_cons_of_ne_nil fun h : x.data = [] => hx (String.ext h)
      simp [asPosix, String.intercalate, intercalate_go_data, hc]
    rw [joinPath, if_neg (hhead ▸ (hrel x (by simp)).head_ne_slash),
      segments_asPosix _ (List.cons_ne_nil x xs) hrel]

/-! ### The target path -/

/-- A text that does not start with `/` adds its parts to the path. -/
theorem joinPath_of_relative (p : List String) {s : String} (hs : s.data.head? ≠ some '/') :
    joinPath p s = p ++ segments s :=
  if_neg hs

/-- The target directory of a module whose name and version do not start with `/`. -/
theorem targetDir_eq (root : List String) (m : ModuleInfo) (hname : m.name.data.head? ≠ some '/')
    (hver : m.version.data.head? ≠ some '/') :
    targetDir root m = root ++ segments m.name ++ segments m.version := by
  rw [targetDir, joinPath_of_relative _ hname, joinPath_of_relative _ hver]

/-- The target path of a module whose name and version do not start with `/`. -/
theorem targetPath_eq (root : List String) (m : ModuleInfo) (hname : m.name.data.head? ≠ some '/')
    (hver : m.version.data.head? ≠ some '/') :
    targetPath root m = root ++ segments m.name ++ segments m.version ++
      segments (m.name ++ ".js") := by
  have hjs : (m.name ++ ".js").data.head? ≠ some '/' := by
    obtain ⟨c, cs, hc⟩ := List.exists_cons_of_ne_nil fun h : m.name.data = [] =>
      m.name_ne (String.ext h)
    rw [hc] at hname
    simpa [hc] using hname
  rw [targetPath, targetDir_eq root m hname hver, joinPath_of_relative _ hjs]

/-! ### Paths ending in `.js` -/

/-- Whether a path ends in `.js` is read off its last part. -/
theorem endsJs_append (p : List String) {q : List String} (hq : q ≠ []) :
    endsJs (p ++ q) = endsJs q := by
  simp [endsJs, List.getLast?_append_of_ne_nil _ hq]

@[simp]
theorem endsJs_append_singleton (p : List String) (s : String) :
    endsJs (p ++ [s]) = endsJs [s] :=
  endsJs_append p (List.cons_ne_nil s [])

/-- The target path of a module whose name and version do not start with `/` ends in `.js`. -/
theorem endsJs_targetPath (root : List String) (m : ModuleInfo)
    (hname : m.name.data.head? ≠ some '/')
    (hver : m.version.data.head? ≠ some '/') : endsJs (targetPath root m) = true := by
  rw [targetPath_eq root m hname hver, endsJs_append _ (segments_append_js m.name).1]
  exact (segments_append_js m.name).2.1

/-- A single part plus `.js` is a good name: it is not `..` either. -/
theorem goodName_append_js {s : String} (hs : SinglePart s) : GoodName (s ++ ".js") := by
  have hlen : ∀ t : String, t = s ++ ".js" → 2 < t.data.length := fun t ht => by simp [ht]
  refine ⟨fun h => ?_, fun h => ?_, fun h => ?_, by simpa using hs.2.2⟩ <;>
    have := hlen _ h.symm <;> simp at this

/-- For a single-part name and version, the target directory is `root/name/version`. -/
theorem targetDir_of_single (root : List String) (m : ModuleInfo) (hname : SinglePart m.name)
    (hver : SinglePart m.version) : targetDir root m = root ++ [m.name, m.version] := by
  rw [targetDir_eq root m hname.head_ne_slash hver.head_ne_slash, segments_of_single hname,
    segments_of_single hver]
  simp

/-- For a single-part name and version, the target path is `root/name/version/name.js`. -/
theorem targetPath_of_single (root : List String) (m : ModuleInfo) (hname : SinglePart m.name)
    (hver : SinglePart m.version) :
    targetPath root m = root ++ [m.name, m.version, m.name ++ ".js"] := by
  rw [targetPath_eq root m hname.head_ne_slash hver.head_ne_slash, segments_of_single hname,
    segments_of_single hver, segments_of_single (goodName_append_js hname).singlePart]
  simp

/-- The parts of `p / s` after the first `n` are single parts when those of `p` are. -/
theorem singlePart_drop_joinPath {p : List String} {n : Nat} (hp : ∀ x ∈ p.drop n, SinglePart x)
    (s : String) : ∀ x ∈ (joinPath p s).drop n, SinglePart x := by
  intro x hx
  unfold joinPath at hx
  split at hx
  · exact singlePart_of_mem_segments (List.mem_of_mem_drop hx)
  · rw [List.drop_append_eq_append_drop, List.mem_append] at hx
    exact hx.elim (hp x) fun h => singlePart_of_mem_segments (List.mem_of_mem_drop h)

/-- Whatever the name and the version, the target path below the root is made of single parts. -/
theorem singlePart_drop_targetPath (root : List String) (m : ModuleInfo) :
    ∀ x ∈ (targetPath root m).drop root.length, SinglePart x :=
  singlePart_drop_joinPath (singlePart_drop_joinPath (singlePart_drop_joinPath (by simp) _) _) _

/-! ### The recognizer -/

/-- For a lowercase name, `is_versioned_path` holds exactly for the paths of at least three parts
whose last two parts are the version and `name.js`, both compared lowered. -/
theorem isVersionedPath_iff (rt : Runtime) (rel : List String) (n v : String)
    (hn : rt.lower n = n) :
    isVersionedPath rt rel n v = true ↔ ∃ pre a b, pre ≠ [] ∧ rel = pre ++ [a, b] ∧
      rt.lower a = rt.lower v ∧ rt.lower b = rt.lower (n ++ ".js") := by
  have hjs : rt.lower (n ++ ".js") = n ++ ".js" := by
    simpa [hn] using rt.lower_lower_append_js n
  rw [hjs]
  constructor
  · intro h
    unfold isVersionedPath at h
    split at h
    · rename_i b a c rest hrev
      simp only [Bool.and_eq_true, decide_eq_true_eq] at h
      refine ⟨(c :: rest).reverse, a, b, by simp, ?_, h.2, h.1⟩
      rw [← List.reverse_reverse rel, hrev]
      simp
    · cases h
  · rintro ⟨pre, a, b, hpre, rfl, ha, hb⟩
    obtain ⟨c, rest, hc⟩ := List.exists_cons_of_ne_nil (List.reverse_ne_nil_iff.mpr hpre)
    simp [isVersionedPath, hc, ha, hb]

/-- The recognizer and the constructor. For a lowercase name, `is_versioned_path` holds exactly
for the paths of at least three parts that end in the version and `name.js`, compared lowered.
When the name and the version are single parts, `..` included, the target path of
`materialize_module` is `root/name/version/name.js`, and the recognizer accepts it relative to the
root. -/
theorem isVersionedPath_canonical (rt : Runtime) (root rel : List String) (m : ModuleInfo)
    (hn : rt.lower m.name = m.name) :
    (isVersionedPath rt rel m.name m.version = true ↔ ∃ pre a b, pre ≠ [] ∧ rel = pre ++ [a, b] ∧
      rt.lower a = rt.lower m.version ∧ rt.lower b = rt.lower (m.name ++ ".js")) ∧
    (SinglePart m.name → SinglePart m.version →
      relativeTo (targetPath root m) root = .ok [m.name, m.version, m.name ++ ".js"] ∧
        isVersionedPath rt [m.name, m.version, m.name ++ ".js"] m.name m.version = true) := by
  refine ⟨isVersionedPath_iff rt rel m.name m.version hn, fun hname hver => ⟨?_, ?_⟩⟩
  · rw [targetPath_of_single root m hname hver]
    simp [relativeTo]
  · exact (isVersionedPath_iff rt _ _ _ hn).mpr ⟨[m.name], m.version, m.name ++ ".js", by simp,
      rfl, rfl, rfl⟩

theorem isVersionedPath_canonical_foo :
    (⟨fun s => s, fun _ => rfl, fun _ => "", fun _ => none, fun _ => "",
      fun _ => .error (.decode ""), fun _ => ""⟩ : Runtime).lower "foo" = "foo" ∧
    (relativeTo (targetPath ["r"] ⟨"foo", "v1", ["r", "a.js"], [], "sha256:a", false, by decide,
      by decide⟩) ["r"] = .ok ["foo", "v1", "foo.js"] ∧
      isVersionedPath ⟨fun s => s, fun _ => rfl, fun _ => "", fun _ => none, fun _ => "",
        fun _ => .error (.decode ""), fun _ => ""⟩ ["foo", "v1", "foo.js"] "foo" "v1" = true) :=
  ⟨rfl, (isVersionedPath_canonical ⟨fun s => s, fun _ => rfl, fun _ => "", fun _ => none,
    fun _ => "", fun _ => .error (.decode ""), fun _ => ""⟩ ["r"] []
    ⟨"foo", "v1", ["r", "a.js"], [], "sha256:a", false, by decide, by decide⟩ rfl).2
      (by decide) (by decide)⟩

/-- The version `v1/`. pathlib builds `foo/v1/foo.js` for it, and the recognizer, which compares
`v1` with `v1/`, rejects that path. This holds for any `str.lower` that leaves these lowercase
ASCII texts as they are, as Python's does. -/
theorem versioned_path_rejects_target :
    ∃ (rt : Runtime) (m : ModuleInfo), rt.lower "v1" = "v1" ∧ rt.lower "v1/" = "v1/" ∧
      m.name = "foo" ∧ m.version = "v1/" ∧
      relativeTo (targetPath ["r"] m) ["r"] = .ok ["foo", "v1", "foo.js"] ∧
      isVersionedPath rt ["foo", "v1", "foo.js"] m.name m.version = false :=
  ⟨⟨fun s => s, fun _ => rfl, fun _ => "", fun _ => none, fun _ => "", fun _ => .error (.decode ""),
    fun _ => ""⟩, ⟨"foo", "v1/", ["r", "a.js"], [], "sha256:a", false, by decide, by decide⟩,
    rfl, rfl, rfl, rfl, rfl, by decide⟩

end StrategyBootstrap
