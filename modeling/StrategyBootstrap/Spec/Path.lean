import StrategyBootstrap.Spec.Python

/-!
# `StrategyBootstrap.Spec.Path`: pathlib paths and what the kernel makes of them

The tool builds every path with `pathlib`. An absolute path is kept as the list of its parts below
`/`: `/srv/strategies/foo.js` is `["srv", "strategies", "foo.js"]`.

* `segments` is how `PurePosixPath` parses a text. It splits at `/` and drops empty pieces and `.`,
  but keeps `..`: pathlib never resolves `..` itself.
* `joinPath p s` is `p / s`. A text that starts with `/` replaces the path.
* `relativeTo`, `asPosix` and `pathStr` are `relative_to`, `as_posix` and `str` of a path.
* `osPath` is the entry the kernel reaches for a path: it walks the parts and goes up at each `..`.
  The model has no symbolic links, so this walk is the whole resolution. A leading `//`, which POSIX
  lets an implementation treat apart, is the root directory here, as on Linux.
* `partsLe` is the order `sorted` puts paths in: their parts, compared as lists of texts.

`segments_of_plain` and `osPath_of_good` say when parsing and resolving change nothing. The
normalisation proofs use them to compute where a module ends up.
-/

set_option autoImplicit false

namespace StrategyBootstrap

/-- The pieces of a path text between its slashes, empty pieces included. -/
def splitSlash : List Char → List (List Char)
  | [] => [[]]
  | c :: cs =>
    if c = '/' then [] :: splitSlash cs
    else (c :: (splitSlash cs).headD []) :: (splitSlash cs).tail

/-- The parts `PurePosixPath` keeps of a text: the pieces between slashes, without the empty ones
and without `.`. -/
def segments (s : String) : List String :=
  ((splitSlash s.data).filter (fun p => !p.isEmpty && p != ['.'])).map String.mk

/-- `p / s` for an absolute path `p`: a text that starts with `/` is a new absolute path; any other
text adds its parts. -/
def joinPath (p : List String) (s : String) : List String :=
  if s.data.head? = some '/' then segments s else p ++ segments s

/-- `str(p)` of an absolute path. -/
def pathStr (p : List String) : String := "/" ++ "/".intercalate p

/-- `p.relative_to(root)`: the parts after `root`. It compares parts and does not resolve `..`.
A path outside `root` raises `ValueError`. -/
def relativeTo (p root : List String) : Except PyExc (List String) :=
  if root.isPrefixOf p then .ok (p.drop root.length)
  else .error (.value ("'" ++ pathStr p ++ "' is not in the subpath of '" ++ pathStr root ++ "'"))

/-- `rel.as_posix()` of a relative path: its parts joined by `/`, or `.` for the empty path. -/
def asPosix (rel : List String) : String :=
  if rel = [] then "." else "/".intercalate rel

/-- A name a directory can hold: not empty, not `.` or `..`, and without `/`. -/
def GoodName (s : String) : Prop := s ≠ "" ∧ s ≠ "." ∧ s ≠ ".." ∧ '/' ∉ s.data

instance : DecidablePred GoodName := fun s =>
  inferInstanceAs (Decidable (s ≠ "" ∧ s ≠ "." ∧ s ≠ ".." ∧ '/' ∉ s.data))

/-- One step of the kernel's walk: `..` goes to the parent, any other part to that child. At `/`,
`..` stays at `/`. -/
def walkStep (dir : List String) (s : String) : List String :=
  if s = ".." then dir.dropLast else dir ++ [s]

/-- The entry the kernel reaches for a path: the walk from `/` along its parts, each part read as
the kernel reads the text `str(p)`. -/
def osPath (p : List String) : List String := (p.flatMap segments).foldl walkStep []

/-- Python's `a < b` on lists of code points: the first difference decides, and a proper prefix
comes first. -/
def codePointsLt : List Char → List Char → Bool
  | [], [] => false
  | [], _ :: _ => true
  | _ :: _, [] => false
  | c :: cs, d :: ds => if c = d then codePointsLt cs ds else Nat.blt c.toNat d.toNat

/-- Python's `a < b` on texts. -/
def textLt (a b : String) : Bool := codePointsLt a.data b.data

/-- `a <= b` on paths, as `sorted` compares them: the parts, as lists of texts. -/
def partsLe : List String → List String → Bool
  | [], _ => true
  | _ :: _, [] => false
  | a :: as, b :: bs => if a = b then partsLe as bs else textLt a b

/-! ### `relative_to` -/

/-- `relative_to` returned: the root is a prefix, and the result is what follows it. -/
theorem relativeTo_eq_ok {p root rel : List String} (h : relativeTo p root = .ok rel) :
    root <+: p ∧ rel = p.drop root.length := by
  unfold relativeTo at h
  split at h
  · cases h
    exact ⟨List.isPrefixOf_iff_prefix.mp ‹_›, rfl⟩
  · cases h

theorem relativeTo_eq_drop {p root : List String} (h : root <+: p) :
    relativeTo p root = .ok (p.drop root.length) := by
  simp [relativeTo, List.isPrefixOf_iff_prefix.mpr h]

@[simp]
theorem relativeTo_append (root tail : List String) :
    relativeTo (root ++ tail) root = .ok tail := by
  simp [relativeTo_eq_drop (List.prefix_append root tail)]

/-! ### Parsing a plain text -/

theorem splitSlash_ne_nil (l : List Char) : splitSlash l ≠ [] := by
  cases l with
  | nil => simp [splitSlash]
  | cons c cs => unfold splitSlash; split <;> simp

/-- A text without `/` is one piece. -/
theorem splitSlash_of_not_mem (l : List Char) (h : '/' ∉ l) : splitSlash l = [l] := by
  induction l with
  | nil => rfl
  | cons c cs ih =>
    simp only [List.mem_cons, not_or] at h
    simp [splitSlash, Ne.symm h.1, ih h.2]

/-- No piece holds a `/`. -/
theorem not_mem_of_mem_splitSlash (l : List Char) : ∀ p ∈ splitSlash l, '/' ∉ p := by
  induction l with
  | nil => simp [splitSlash]
  | cons c cs ih =>
    intro p hp
    unfold splitSlash at hp
    split at hp
    · simp only [List.mem_cons] at hp
      rcases hp with rfl | hp
      · simp
      · exact ih p hp
    · rename_i hc
      obtain ⟨q, qs, hq⟩ := List.exists_cons_of_ne_nil (splitSlash_ne_nil cs)
      rw [hq] at hp ih
      simp only [List.headD_cons, List.tail_cons, List.mem_cons] at hp
      rcases hp with rfl | hp
      · simp [Ne.symm hc, ih q (by simp)]
      · exact ih p (by simp [hp])

/-- A text without `/` that is neither empty nor `.` is one part. -/
theorem segments_of_plain (s : String) (hs : '/' ∉ s.data) (hne : s ≠ "") (hdot : s ≠ ".") :
    segments s = [s] := by
  have hne' : s.data ≠ [] := fun h => hne (String.ext h)
  have hdot' : s.data ≠ ['.'] := fun h => hdot (String.ext h)
  simp [segments, splitSlash_of_not_mem _ hs, hne', hdot']

/-- Every part `segments` returns is a good name, or `..`. -/
theorem segments_good (s : String) : ∀ x ∈ segments s, x = ".." ∨ GoodName x := by
  intro x hx
  simp only [segments, List.mem_map, List.mem_filter, Bool.and_eq_true, Bool.not_eq_true',
    List.isEmpty_eq_false, bne_iff_ne, ne_eq] at hx
  obtain ⟨p, ⟨hp, hne, hdot⟩, rfl⟩ := hx
  by_cases hdd : (String.mk p) = ".."
  · exact Or.inl hdd
  · refine Or.inr ⟨fun h => hne ?_, fun h => hdot (congrArg String.data h), hdd,
      not_mem_of_mem_splitSlash _ p hp⟩
    simpa using congrArg String.data h

/-! ### The kernel's walk -/

theorem foldl_walkStep_good (ps : List String) (hps : ∀ s ∈ ps, s = ".." ∨ GoodName s) :
    ∀ dir : List String, (∀ s ∈ dir, GoodName s) → ∀ s ∈ ps.foldl walkStep dir, GoodName s := by
  induction ps with
  | nil => intro dir hdir; simpa using hdir
  | cons p ps ih =>
    intro dir hdir
    simp only [List.foldl_cons]
    apply ih (fun s hs => hps s (by simp [hs]))
    intro s hs
    unfold walkStep at hs
    split at hs
    · exact hdir s (List.dropLast_subset _ hs)
    · rcases List.mem_append.mp hs with hs | hs
      · exact hdir s hs
      · rw [List.mem_singleton] at hs
        subst hs
        exact (hps _ (by simp)).resolve_left ‹_›

/-- The kernel only ever reaches paths of good names. -/
theorem osPath_good (p : List String) : ∀ s ∈ osPath p, GoodName s :=
  foldl_walkStep_good _ (fun s hs => by
    obtain ⟨x, -, hx⟩ := List.mem_flatMap.mp hs
    exact segments_good x s hx) [] (by simp)

/-- Walking good names goes down one directory per name. -/
theorem foldl_walkStep_of_good (p : List String) (hp : ∀ s ∈ p, GoodName s) (dir : List String) :
    p.foldl walkStep dir = dir ++ p := by
  induction p generalizing dir with
  | nil => simp
  | cons s p ih =>
    have hs : s ≠ ".." := (hp s (by simp)).2.2.1
    simp [walkStep, hs, ih (fun x hx => hp x (by simp [hx]))]

/-- A path of good names is its own resolution. -/
theorem osPath_of_good (p : List String) (hp : ∀ s ∈ p, GoodName s) : osPath p = p := by
  have hseg : p.flatMap segments = p := by
    induction p with
    | nil => rfl
    | cons s p ih =>
      obtain ⟨hne, hdot, -, hslash⟩ := hp s (by simp)
      simp [segments_of_plain s hslash hne hdot, ih (fun x hx => hp x (by simp [hx]))]
  rw [osPath, hseg, foldl_walkStep_of_good p hp]
  rfl

end StrategyBootstrap
