import StrategyBootstrap.Spec.Registry

/-!
# `StrategyBootstrap.Proofs.Fold`: the `build_registry` loop as a fold

The loop of `build_registry` is a run in `Io`: each pass may move a module, then records it. This
module separates the two. `recordModule` is the record alone, a pure function of the registry, the
module and the path text written for it. `registerModule_apply` states a pass as the move or the
path, then `relative_to`, then `recordModule`. `registerModules_cons_ok` peels a successful loop one
pass at a time, and `registerModules_ok` turns a successful loop into a fold of `recordModule`.

What a fold of `recordModule` holds is read off with `lastWhere`: a key holds the value of its last
write. `PyDict.get?_foldl_set` says it for one `dict`. `get?_foldl_recordModule`,
`tags_get?_loopEntry` and `hashes_get?_loopEntry` say it for the two levels of the manifest.
-/

set_option autoImplicit false

namespace StrategyBootstrap

/-- The last element of `l` that satisfies `p`. -/
def lastWhere {α : Type} (p : α → Bool) (l : List α) : Option α := (l.filter p).getLast?

section LastWhere
variable {α β : Type}

@[simp]
theorem lastWhere_nil (p : α → Bool) : lastWhere p [] = none := rfl

@[simp]
theorem lastWhere_append_singleton (p : α → Bool) (l : List α) (a : α) :
    lastWhere p (l ++ [a]) = if p a then some a else lastWhere p l := by
  by_cases h : p a <;> simp [lastWhere, h]

theorem lastWhere_map (p : β → Bool) (f : α → β) (l : List α) :
    lastWhere p (l.map f) = (lastWhere (p ∘ f) l).map f := by
  simp [lastWhere, List.filter_map]

theorem lastWhere_filter (p q : α → Bool) (l : List α) :
    lastWhere p (l.filter q) = lastWhere (fun a => p a && q a) l := by
  simp [lastWhere, List.filter_filter]

/-- The last match satisfies the test and is in the list. -/
theorem lastWhere_spec {p : α → Bool} {l : List α} {a : α} (h : lastWhere p l = some a) :
    a ∈ l ∧ p a := List.mem_filter.mp (List.mem_of_getLast?_eq_some h)

/-- There is a last match exactly when some element matches. -/
theorem lastWhere_isSome (p : α → Bool) (l : List α) : (lastWhere p l).isSome ↔ ∃ a ∈ l, p a := by
  simp [lastWhere, Option.isSome_iff_ne_none, List.getLast?_eq_none_iff, List.filter_eq_nil_iff]

/-- With one match only, the last match is that one. -/
theorem lastWhere_eq_of_unique {p : α → Bool} {l : List α} {a : α} (ha : a ∈ l) (hp : p a)
    (huniq : ∀ b ∈ l, p b → b = a) : lastWhere p l = some a := by
  obtain ⟨b, hb⟩ := Option.isSome_iff_exists.mp ((lastWhere_isSome p l).mpr ⟨a, ha, hp⟩)
  obtain ⟨hbl, hbp⟩ := lastWhere_spec hb
  rw [hb, huniq b hbl hbp]

/-- When every match has the image of `a`, so has the last one. -/
theorem lastWhere_map_of_forall {p : α → Bool} {l : List α} {a : α} (f : α → β) (ha : a ∈ l)
    (hp : p a) (hf : ∀ b ∈ l, p b → f b = f a) : (lastWhere p l).map f = some (f a) := by
  obtain ⟨b, hb⟩ := Option.isSome_iff_exists.mp ((lastWhere_isSome p l).mpr ⟨a, ha, hp⟩)
  obtain ⟨hbl, hbp⟩ := lastWhere_spec hb
  rw [hb, Option.map_some', hf b hbl hbp]

end LastWhere

namespace PyDict

variable {κ ν α : Type} [DecidableEq κ]

theorem items_set_of_mem (d : PyDict κ ν) {k : κ} (v : ν) (hk : k ∈ d.keys) :
    (d.set k v).items = d.items.map (fun p => if p.1 = k then (k, v) else p) := by
  simp [set, hk]

theorem items_set_of_not_mem (d : PyDict κ ν) {k : κ} (v : ν) (hk : k ∉ d.keys) :
    (d.set k v).items = d.items ++ [(k, v)] := by
  simp [set, hk]

omit [DecidableEq κ] in
theorem ext_items {d d' : PyDict κ ν} (h : d.items = d'.items) : d = d' := by
  cases d
  cases d'
  simp only at h
  subst h
  rfl

/-- Writing a key twice keeps the second value, at the first write's place. -/
theorem set_set (d : PyDict κ ν) (k : κ) (v v' : ν) : (d.set k v).set k v' = d.set k v' := by
  apply ext_items
  have hk' : k ∈ (d.set k v).keys := (mem_keys_set _ _ _ _).mpr (Or.inl rfl)
  rw [items_set_of_mem _ _ hk']
  by_cases hk : k ∈ d.keys
  · rw [items_set_of_mem _ _ hk, items_set_of_mem _ _ hk, List.map_map]
    exact List.map_congr_left fun p _ => by by_cases hp : p.1 = k <;> simp [hp]
  · have hnot : ∀ p ∈ d.items, p.1 ≠ k := fun p hp hpk => hk (List.mem_map.mpr ⟨p, hp, hpk⟩)
    rw [items_set_of_not_mem _ _ hk, items_set_of_not_mem _ _ hk, List.map_append]
    rw [List.map_congr_left (l := d.items) (g := id) fun p hp => by simp [hnot p hp]]
    simp

/-- After writing `val r` at `key r` for each `r` in turn, a key holds the value of its last write,
or what it held before. -/
theorem get?_foldl_set (d : PyDict κ ν) (rs : List α) (key : α → κ) (val : α → ν) (k : κ) :
    (rs.foldl (fun d r => d.set (key r) (val r)) d).get? k =
      ((lastWhere (fun r => key r = k) rs).map val).or (d.get? k) := by
  induction rs using List.reverseRecOn with
  | nil => simp
  | append_singleton rs r ih =>
    rw [List.foldl_concat, get?_set, lastWhere_append_singleton]
    by_cases hk : k = key r
    · simp [hk]
    · simp [hk, Ne.symm hk, ih]

/-- A fold that updates the value at `key r` from the one found there, or from `default`. A key
holds the fold of its own updates, started from what it held before. -/
theorem get?_foldl_update (d : PyDict κ ν) (rs : List α) (key : α → κ) (step : ν → α → ν)
    (default : ν) (k : κ) :
    (rs.foldl (fun d r => d.set (key r) (step ((d.get? (key r)).getD default) r)) d).get? k =
      if rs.any (fun r => key r = k) then
        some ((rs.filter (fun r => key r = k)).foldl step ((d.get? k).getD default))
      else d.get? k := by
  induction rs using List.reverseRecOn with
  | nil => simp
  | append_singleton rs r ih =>
    rw [List.foldl_concat, get?_set]
    by_cases hk : k = key r
    · subst hk
      by_cases hany : rs.any (fun r' => key r' = key r)
      · simp [hany] at ih
        simp [ih, List.filter_append, List.foldl_concat]
      · simp only [Bool.not_eq_true, List.any_eq_false] at hany
        have hnil : rs.filter (fun r' => key r' = key r) = [] :=
          List.filter_eq_nil_iff.mpr (by simpa using hany)
        have hd : ((rs.foldl (fun d r => d.set (key r) (step ((d.get? (key r)).getD default) r))
            d).get? (key r)) = d.get? (key r) := by
          rw [ih]
          simp [show ¬ (rs.any fun r' => decide (key r' = key r)) = true by simpa using hany]
        simp [hd, hnil]
    · have hr : (decide (key r = k)) = false := by simp [Ne.symm hk]
      simp [hk, ih, List.filter_append, hr, List.any_append]

end PyDict

/-! ### One pass of the loop -/

/-- An entry after recording the module `r.1` at the path text `r.2`: `tags[version] = sha256` and
`hashes[sha256] = {tag: version, path}`. -/
def entryStep (e : RegistryEntry) (r : ModuleInfo × String) : RegistryEntry :=
  { tags := e.tags.set r.1.version r.1.sha256
    hashes := e.hashes.set r.1.sha256 ⟨r.1.version, r.2⟩ }

/-- The registry after recording the module `r.1` at the path text `r.2`, in its name's entry. -/
def recordModule (registry : Registry) (r : ModuleInfo × String) : Registry :=
  registry.set r.1.name (entryStep ((registry.get? r.1.name).getD .empty) r)

/-- The path a pass of the loop records the module at, before `relative_to`: where
`materialize_module` put it, or its own path without `write`. -/
def passPath (root : List String) (write : Bool) (m : ModuleInfo) : Io (List String) :=
  if write then materializeModule root m else pure m.path

/-- A pass of the loop: the path, then `relative_to`, then `recordModule`. The `setdefault` at the
top of the pass writes the same key that the record writes again. -/
theorem registerModule_eq (root : List String) (write : Bool) (registry : Registry)
    (m : ModuleInfo) :
    registerModule root write registry m = (passPath root write m >>= fun p =>
      Io.ofExcept (relativeTo p root) >>= fun rel =>
        pure (recordModule registry (m, asPosix rel))) := by
  cases write <;> simp only [registerModule, passPath, recordModule, entryStep, PyDict.set_set,
    Bool.false_eq_true, if_false, if_true]

/-- A pass of the loop, as a value and a world: the world is the one the move or the path left, and
the value follows from its result. -/
theorem registerModule_apply (root : List String) (write : Bool) (registry : Registry)
    (m : ModuleInfo) (w : World) :
    registerModule root write registry m w =
      (((passPath root write m w).1 >>= fun p =>
        (relativeTo p root).map fun rel => recordModule registry (m, asPosix rel)),
        (passPath root write m w).2) := by
  rw [registerModule_eq, Io.bind_apply]
  obtain ⟨_ | p, w'⟩ := passPath root write m w
  · rfl
  · show (Io.ofExcept (relativeTo p root) >>= _) w' = ((relativeTo p root).map _, w')
    rw [Io.bind_apply, Io.ofExcept_apply]
    cases relativeTo p root <;> rfl

/-- A loop over `m :: ms` either stops at its first pass or runs the rest from there. -/
theorem registerModules_cons {root : List String} {write : Bool} {registry : Registry}
    {m : ModuleInfo} {ms : List ModuleInfo} {w w' : World} {r : Except PyExc Registry}
    (h : registerModules root write registry (m :: ms) w = (r, w')) :
    (∃ e, registerModule root write registry m w = (.error e, w') ∧ r = .error e) ∨
      ∃ R₁ w₁, registerModule root write registry m w = (.ok R₁, w₁) ∧
        registerModules root write R₁ ms w₁ = (r, w') := by
  rw [registerModules, Io.bind_apply] at h
  rcases hx : registerModule root write registry m w with ⟨_ | R₁, w₁⟩ <;> simp only [hx] at h
  · obtain ⟨rfl, rfl⟩ := Prod.mk.inj h
    exact .inl ⟨_, rfl, rfl⟩
  · exact .inr ⟨R₁, w₁, rfl, h⟩

/-- A loop that returned ran its first pass to the end, and the rest of the loop from there. -/
theorem registerModules_cons_ok {root : List String} {write : Bool} {registry R : Registry}
    {m : ModuleInfo} {ms : List ModuleInfo} {w w' : World}
    (h : registerModules root write registry (m :: ms) w = (.ok R, w')) :
    ∃ p w₁ rel, passPath root write m w = (.ok p, w₁) ∧ relativeTo p root = .ok rel ∧
      registerModules root write (recordModule registry (m, asPosix rel)) ms w₁ = (.ok R, w') := by
  obtain ⟨r, w₁, hpass, hrest⟩ := Io.bind_eq_ok h
  rw [registerModule_eq] at hpass
  obtain ⟨p, w₂, hp, hpass⟩ := Io.bind_eq_ok hpass
  obtain ⟨rel, w₃, hrel, hpure⟩ := Io.bind_eq_ok hpass
  simp only [Io.ofExcept_apply, Prod.mk.injEq] at hrel
  simp only [Io.pure_apply, Prod.mk.injEq, Except.ok.injEq] at hpure
  obtain ⟨rfl, rfl⟩ := hpure
  obtain ⟨hrel, rfl⟩ := hrel
  exact ⟨p, w₂, rel, hp, hrel, hrest⟩

/-- A loop that returned built its registry as a fold of `recordModule`, one record per module,
in order. -/
theorem registerModules_ok {root : List String} {write : Bool} :
    ∀ {ms : List ModuleInfo} {registry R : Registry} {w w' : World},
      registerModules root write registry ms w = (.ok R, w') →
      ∃ recs : List (ModuleInfo × String), recs.map Prod.fst = ms ∧
        R = recs.foldl recordModule registry
  | [], registry, R, w, w', h => by
    simp only [registerModules, Io.pure_apply, Prod.mk.injEq, Except.ok.injEq] at h
    exact ⟨[], rfl, h.1.symm⟩
  | m :: ms, registry, R, w, w', h => by
    obtain ⟨p, w₁, rel, -, -, hrest⟩ := registerModules_cons_ok h
    obtain ⟨recs, hrecs, hR⟩ := registerModules_ok hrest
    exact ⟨(m, asPosix rel) :: recs, by simp [hrecs], hR⟩

/-- A loop over modules below the root whose passes leave each module in place returns, changes
nothing, and records each module at its own path relative to the root. -/
theorem registerModules_inPlace (root : List String) (write : Bool) (registry : Registry)
    (w : World) : ∀ ms : List ModuleInfo, (∀ m ∈ ms, root <+: m.path) →
      (∀ m ∈ ms, passPath root write m = pure m.path) →
      registerModules root write registry ms w =
        (.ok ((ms.map fun m => (m, asPosix (m.path.drop root.length))).foldl recordModule registry),
          w) := by
  intro ms hms hpass
  induction ms generalizing registry with
  | nil => rfl
  | cons m ms ih =>
    have hrel : relativeTo m.path root = .ok (m.path.drop root.length) :=
      relativeTo_eq_drop (hms m (List.mem_cons_self _ _))
    have hstep : registerModule root write registry m w =
        (.ok (recordModule registry (m, asPosix (m.path.drop root.length))), w) := by
      rw [registerModule_apply, hpass m (List.mem_cons_self _ _), Io.pure_apply]
      simp only [bind, Except.bind, hrel, Except.map]
    simp only [registerModules]
    rw [Io.bind_ok hstep, ih _ (fun m' hm' => hms m' (List.mem_cons_of_mem _ hm'))
      (fun m' hm' => hpass m' (List.mem_cons_of_mem _ hm'))]
    rfl

/-- Without `write`, a loop over modules below the root returns, changes nothing, and records
each module at its own path relative to the root. -/
theorem registerModules_read (root : List String) (registry : Registry) (w : World)
    (ms : List ModuleInfo) (hms : ∀ m ∈ ms, root <+: m.path) :
    registerModules root false registry ms w =
      (.ok ((ms.map fun m => (m, asPosix (m.path.drop root.length))).foldl recordModule registry),
        w) :=
  registerModules_inPlace root false registry w ms hms fun _ _ => rfl

/-! ### What the fold holds -/

/-- An entry's tags after a run of `entryStep`: the same writes on the tags alone. -/
theorem tags_foldl_entryStep (recs : List (ModuleInfo × String)) (e : RegistryEntry) :
    (recs.foldl entryStep e).tags =
      recs.foldl (fun d r => d.set r.1.version r.1.sha256) e.tags := by
  induction recs generalizing e with
  | nil => rfl
  | cons r recs ih => exact ih _

/-- An entry's hashes after a run of `entryStep`. -/
theorem hashes_foldl_entryStep (recs : List (ModuleInfo × String)) (e : RegistryEntry) :
    (recs.foldl entryStep e).hashes =
      recs.foldl (fun d r => d.set r.1.sha256 (⟨r.1.version, r.2⟩ : Location)) e.hashes := by
  induction recs generalizing e with
  | nil => rfl
  | cons r recs ih => exact ih _

/-- The entry the loop builds for the name `n` from the records `recs`, before the pass that adds
`latest`. -/
def loopEntry (recs : List (ModuleInfo × String)) (n : String) : RegistryEntry :=
  (recs.filter (fun r => r.1.name = n)).foldl entryStep .empty

/-- The entry of a name after a fold from the empty registry is its `loopEntry`, when it has a
record. -/
theorem get?_foldl_recordModule (recs : List (ModuleInfo × String)) (n : String) :
    (recs.foldl recordModule PyDict.empty).get? n =
      if recs.any (fun r => r.1.name = n) then some (loopEntry recs n) else none :=
  PyDict.get?_foldl_update PyDict.empty recs (fun r => r.1.name) entryStep .empty n

/-- The names of a fold from the empty registry are the names of its records. -/
theorem mem_keys_foldl_recordModule (recs : List (ModuleInfo × String)) (n : String) :
    n ∈ (recs.foldl recordModule PyDict.empty).keys ↔ ∃ r ∈ recs, r.1.name = n := by
  rw [← PyDict.isSome_get?_iff, get?_foldl_recordModule]
  by_cases h : recs.any (fun r => r.1.name = n) <;> simp_all

/-- A tag of an entry built by the fold holds the hash of the last record of that name and
version. -/
theorem tags_get?_loopEntry (recs : List (ModuleInfo × String)) (n v : String) :
    (loopEntry recs n).tags.get? v =
      (lastWhere (fun r => r.1.name = n && r.1.version = v) recs).map (·.1.sha256) := by
  rw [loopEntry, tags_foldl_entryStep, PyDict.get?_foldl_set, lastWhere_filter]
  simp [RegistryEntry.empty, Bool.and_comm]

/-- A hash of an entry built by the fold holds the version and the path of the last record of
that name and hash. -/
theorem hashes_get?_loopEntry (recs : List (ModuleInfo × String)) (n h : String) :
    (loopEntry recs n).hashes.get? h =
      (lastWhere (fun r => r.1.name = n && r.1.sha256 = h) recs).map
        (fun r => (⟨r.1.version, r.2⟩ : Location)) := by
  rw [loopEntry, hashes_foldl_entryStep, PyDict.get?_foldl_set, lastWhere_filter]
  simp [RegistryEntry.empty, Bool.and_comm]

end StrategyBootstrap
