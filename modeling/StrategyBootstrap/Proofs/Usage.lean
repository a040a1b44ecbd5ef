import Mathlib.Data.Prod.Lex
import StrategyBootstrap.Proofs.Discovery
import StrategyBootstrap.Proofs.Registry
import StrategyBootstrap.Spec.Usage

/-!
# `StrategyBootstrap.Proofs.Usage`: what `report_usage` prints

`usageReport_exact` says what `report_usage` does on every registry and every usage export. At the
first record that is not a `dict` it raises `AttributeError`. Otherwise, when the last record that
matches a revision of the manifest has an infinite count, it raises `OverflowError`. Otherwise it
returns, and it prints a revision `h` of a name `n` when the last record that matches it has a count
that `int()` reads as `0` or cannot read, or when no record matches it. A record matches when its
strategy and hash, read with `str()` and trimmed, are not blank, its strategy lowered is `n`
lowered, and its hash is `h`. Each revision is printed once, in the order of Python's tuples.

The proof follows the function. `usageIndex_lookup` reads the index off the records with
`lastWhere`, from the step lemma `indexRecord_lookup`. `unusedRevisions_ok` says what the two loops
over the manifest collect, and `revisionUnused_iff` what one revision's test decides.
`usageReport_error` and `usageReport_ok_of_counts` say the same of the errors from the other side:
a report that raised raised one of the two, and a report without either returns.

The test is `count == 0`, so `usage_report_negative_count` takes a revision whose record has the
count `-1` as used.
-/

set_option autoImplicit false

namespace StrategyBootstrap

/-! ### Python's order on the printed tuples -/

/-- A `(name, tag, hash)` tuple in the lexicographic order of its components. -/
def tripleKey (t : String × String × String) : Lex (String × Lex (String × String)) :=
  toLex (t.1, toLex t.2)

theorem tripleLt_iff (a b : String × String × String) :
    tripleLt a b = true ↔ tripleKey a < tripleKey b := by
  obtain ⟨a₁, a₂, a₃⟩ := a
  obtain ⟨b₁, b₂, b₃⟩ := b
  by_cases h₁ : a₁ = b₁ <;> by_cases h₂ : a₂ = b₂ <;>
    simp [tripleLt, tripleKey, Prod.Lex.lt_iff, textLt_iff, h₁, h₂]

theorem tripleLe_iff (a b : String × String × String) :
    tripleLe a b = true ↔ tripleKey a ≤ tripleKey b := by
  rw [tripleLe, Bool.not_eq_true', ← @not_lt (Lex (String × Lex (String × String))) _,
    ← tripleLt_iff, Bool.not_eq_true]

/-- `sorted` of distinct tuples is strictly ascending. -/
theorem insertionSort_tripleLe {l : List (String × String × String)} (hl : l.Nodup) :
    ((l.insertionSort (fun a b => tripleLe a b)).map tripleKey).Sorted (· < ·) := by
  haveI : IsTotal (String × String × String) (fun a b => tripleLe a b = true) :=
    ⟨fun a b => by simpa only [tripleLe_iff] using le_total (tripleKey a) (tripleKey b)⟩
  haveI : IsTrans (String × String × String) (fun a b => tripleLe a b = true) :=
    ⟨fun a b c => by simpa only [tripleLe_iff] using le_trans⟩
  have hsorted := List.sorted_insertionSort (fun a b => tripleLe a b = true) l
  have hnodup := (List.perm_insertionSort (fun a b => tripleLe a b = true) l).nodup_iff.mpr hl
  refine List.pairwise_map.mpr ((hsorted.and hnodup).imp fun {a b} hab => ?_)
  exact lt_of_le_of_ne ((tripleLe_iff a b).mp hab.1) fun h => hab.2 (toLex.injective
    (Prod.ext (congrArg (·.1) h) (toLex.injective (congrArg (·.2) h))))

/-! ### The index -/

section
variable (rt : Runtime)

/-- The record the index holds for `(key, hash)`: `usage_index.get(key, {}).get(hash)`. -/
def indexLookup (index : UsageIndex) (key hash : String) : Option Json :=
  ((index.get? key).getD PyDict.empty).get? hash

/-- Whether a record counts for the revision `hash` of the names lowered to `key`: its strategy
and hash, read with `str()` and trimmed, are not blank, its strategy lowered is `key`, and its hash
is `hash`. -/
def recordMatches (key hash : String) : Json → Bool
  | .object fields =>
    let strategy := strategyKey rt ((lookupKey "strategy" fields).getD (.str ""))
    let h := hashKey rt ((lookupKey "hash" fields).getD (.str ""))
    strategy ≠ "" && h ≠ "" && strategy = key && h = hash
  | _ => false

/-- What the report calls unused: the last record that matches the revision `h` of the name `n`,
if there is one, has a count that `int()` reads as `0` or cannot read. A missing count is `0`. -/
def Unused (usage : List Json) (n h : String) : Prop :=
  ∀ fields, lastWhere (recordMatches rt (rt.lower n) h) usage = some (.object fields) →
    pyInt rt ((lookupKey "count" fields).getD (.int 0)) = .ok 0 ∨
      pyInt rt ((lookupKey "count" fields).getD (.int 0)) = .error .type ∨
      pyInt rt ((lookupKey "count" fields).getD (.int 0)) = .error .value

variable {rt}

/-- One record of the index loop stores the record under its keys when it matches them. -/
theorem indexRecord_lookup {index index' : UsageIndex} {u : Json}
    (h : indexRecord rt index u = .ok index') (key hash : String) :
    indexLookup index' key hash =
      if recordMatches rt key hash u then some u else indexLookup index key hash := by
  cases u with
  | object fields =>
    simp only [indexRecord, Json.get_object] at h
    dsimp only [bind, Except.bind, pure, Except.pure] at h
    split at h
    · case isTrue hskip =>
      cases h
      have : recordMatches rt key hash (.object fields) = false := by
        rcases hskip with hs | hs <;> simp [recordMatches, hs]
      rw [this, if_neg Bool.false_ne_true]
    · case isFalse hkeep =>
      cases h
      rw [not_or] at hkeep
      simp only [indexLookup, PyDict.get?_set, recordMatches, hkeep.1, hkeep.2, ne_eq,
        not_false_eq_true, decide_True, Bool.true_and, Bool.and_eq_true, decide_eq_true_eq]
      by_cases hk : key = strategyKey rt ((lookupKey "strategy" fields).getD (.str "")) <;>
        by_cases hh : hash = hashKey rt ((lookupKey "hash" fields).getD (.str "")) <;>
        simp [hk, hh, eq_comm]
  | _ => cases h

/-- The index loop holds, for each key and hash, the last record that matches them. -/
theorem foldlM_indexRecord_lookup :
    ∀ (usage pre : List Json) (index index' : UsageIndex),
      (∀ key hash, indexLookup index key hash = lastWhere (recordMatches rt key hash) pre) →
      usage.foldlM (indexRecord rt) index = .ok index' →
      ∀ key hash, indexLookup index' key hash = lastWhere (recordMatches rt key hash) (pre ++ usage)
  | [], pre, index, index', hpre, h => by
    cases h
    simpa using hpre
  | u :: usage, pre, index, index', hpre, h => by
    rw [List.foldlM_cons] at h
    obtain ⟨index₁, h₁, h⟩ := Except.bind_eq_ok h
    have hstep : ∀ key hash,
        indexLookup index₁ key hash = lastWhere (recordMatches rt key hash) (pre ++ [u]) :=
      fun key hash => by rw [indexRecord_lookup h₁, lastWhere_append_singleton, hpre]
    simpa using foldlM_indexRecord_lookup usage (pre ++ [u]) index₁ index' hstep h

theorem usageIndex_lookup {usage : List Json} {index : UsageIndex}
    (h : usageIndex rt usage = .ok index) (key hash : String) :
    indexLookup index key hash = lastWhere (recordMatches rt key hash) usage :=
  foldlM_indexRecord_lookup usage [] PyDict.empty index (fun _ _ => rfl) h key hash

/-- A matching record is a `dict`. -/
theorem object_of_recordMatches {key hash : String} {u : Json}
    (h : recordMatches rt key hash u = true) : ∃ fields, u = .object fields := by
  cases u with
  | object fields => exact ⟨fields, rfl⟩
  | _ => cases h

/-! ### The loops over the manifest -/

/-- When the test of a revision returns, it says whether the revision is unused. -/
theorem revisionUnused_iff {usage : List Json} {index : UsageIndex} {n h : String} {b : Bool}
    (hindex : usageIndex rt usage = .ok index)
    (hb : revisionUnused rt index (rt.lower n) h = .ok b) :
    b = true ↔ Unused rt usage n h := by
  have hlook := usageIndex_lookup hindex (rt.lower n) h
  unfold revisionUnused at hb
  rw [← indexLookup, hlook] at hb
  unfold Unused
  cases hlast : lastWhere (recordMatches rt (rt.lower n) h) usage with
  | none =>
    rw [hlast] at hb
    cases hb
    simp
  | some r =>
    obtain ⟨fields, rfl⟩ := object_of_recordMatches (lastWhere_spec hlast).2
    rw [hlast] at hb
    simp only [Option.some.injEq, Json.object.injEq, forall_eq']
    simp only [recordCount, Json.get_object] at hb
    dsimp only [bind, Except.bind, pure, Except.pure] at hb
    generalize pyInt rt ((lookupKey "count" fields).getD (.int 0)) = c at hb ⊢
    rcases c with (_ | _ | _) | c <;> dsimp only at hb <;> cases hb <;> simp

/-- The loop over one name's hashes tests every hash, and collects, once each, the unused ones. -/
theorem unusedInEntry_ok {index : UsageIndex} {name : String} :
    ∀ {hs : List (String × Location)} {ts : List (String × String × String)},
      unusedInEntry rt index name hs = .ok ts → (hs.map Prod.fst).Nodup →
      ts.Nodup ∧ (∀ q ∈ hs, ∃ b, revisionUnused rt index (rt.lower name) q.1 = .ok b) ∧
      ∀ t, t ∈ ts ↔ ∃ h loc, (h, loc) ∈ hs ∧
        revisionUnused rt index (rt.lower name) h = .ok true ∧
          t = (name, pyOr loc.tag "(untagged)", h)
  | [], ts, h, _ => by
    cases h
    simp
  | (h, loc) :: rest, ts, hrun, hnodup => by
    obtain ⟨b, hb, hrun⟩ := Except.bind_eq_ok hrun
    obtain ⟨tail, htail, hrun⟩ := Except.bind_eq_ok hrun
    cases hrun
    rw [List.map_cons, List.nodup_cons] at hnodup
    obtain ⟨htnodup, htall, htmem⟩ := unusedInEntry_ok htail hnodup.2
    refine ⟨?_, ?_, fun t => ?_⟩
    · cases b
      · exact htnodup
      · refine List.nodup_cons.mpr ⟨fun hmem => hnodup.1 ?_, htnodup⟩
        obtain ⟨h', loc', hmem', -, heq⟩ := (htmem _).mp hmem
        exact List.mem_map.mpr ⟨_, hmem', (Prod.mk.inj_iff.mp (Prod.mk.inj_iff.mp heq).2).2.symm⟩
    · simpa [hb] using htall
    · cases b <;> simp [htmem, hb, or_and_right, exists_or, and_assoc, exists_and_left]

/-- The loop over the names tests every hash of every name, and collects, once each, the unused
revisions. -/
theorem unusedRevisions_ok {index : UsageIndex} :
    ∀ {items : List (String × RegistryEntry)} {ts : List (String × String × String)},
      unusedRevisions rt index items = .ok ts → (items.map Prod.fst).Nodup →
      ts.Nodup ∧
      (∀ n e, (n, e) ∈ items → ∀ h ∈ e.hashes.keys,
        ∃ b, revisionUnused rt index (rt.lower n) h = .ok b) ∧
      ∀ t, t ∈ ts ↔ ∃ n e h loc, (n, e) ∈ items ∧ (h, loc) ∈ e.hashes.items ∧
        revisionUnused rt index (rt.lower n) h = .ok true ∧ t = (n, pyOr loc.tag "(untagged)", h)
  | [], ts, h, _ => by
    cases h
    simp
  | (name, entry) :: rest, ts, hrun, hnodup => by
    obtain ⟨here, hhere, hrun⟩ := Except.bind_eq_ok hrun
    obtain ⟨tail, htail, hrun⟩ := Except.bind_eq_ok hrun
    cases hrun
    rw [List.map_cons, List.nodup_cons] at hnodup
    obtain ⟨hhnodup, hhall, hhmem⟩ := unusedInEntry_ok hhere entry.hashes.keys_nodup
    obtain ⟨htnodup, htall, htmem⟩ := unusedRevisions_ok htail hnodup.2
    refine ⟨List.nodup_append.mpr ⟨hhnodup, htnodup, fun t th tt => hnodup.1 ?_⟩, ?_, fun t => ?_⟩
    · obtain ⟨h, loc, -, -, rfl⟩ := (hhmem t).mp th
      obtain ⟨n, e, h', loc', hmem, -, -, heq⟩ := (htmem _).mp tt
      obtain ⟨rfl, -⟩ := Prod.mk.inj_iff.mp heq
      exact List.mem_map.mpr ⟨_, hmem, rfl⟩
    · intro n e hmem h hh
      rcases List.mem_cons.mp hmem with heq | hmem
      · rw [Prod.mk.injEq] at heq
        obtain ⟨rfl, rfl⟩ := heq
        obtain ⟨q, hq, rfl⟩ := List.mem_map.mp hh
        exact hhall q hq
      · exact htall n e hmem h hh
    · simp only [List.mem_append, hhmem, htmem, List.mem_cons, Prod.mk.injEq, or_and_right,
        exists_or, exists_and_left, exists_eq_left, and_assoc]

end

/-! ### The report -/

/-- When `report_usage` returns, it prints after an empty line either that nothing is unused or a
header and the unused revisions: the revisions of the manifest that `Unused` holds of, each once,
in ascending order of `(name, tag, hash)`, with the tag `(untagged)` for an empty tag. -/
theorem usageReport_lines {rt : Runtime} {usage : List Json} {R : Registry} {lines : List String}
    (hrun : usageReport rt usage R = .ok lines) :
    ∃ unused : List (String × String × String),
      (∀ t, t ∈ unused ↔ ∃ n e h loc, R.get? n = some e ∧ e.hashes.get? h = some loc ∧
        Unused rt usage n h ∧ t = (n, pyOr loc.tag "(untagged)", h)) ∧
      (unused.map tripleKey).Sorted (· < ·) ∧
      lines = "" :: if unused.isEmpty then
          ["usage report: no unused revisions detected (all tracked hashes have usage)."]
        else "usage report: revisions with zero running instances:" :: unused.map unusedLine := by
  unfold usageReport at hrun
  obtain ⟨index, hindex, hrun⟩ := Except.bind_eq_ok hrun
  obtain ⟨found, hfound, hrun⟩ := Except.bind_eq_ok hrun
  obtain ⟨hnodup, hall, hmem⟩ := unusedRevisions_ok hfound R.keys_nodup
  have hperm := List.perm_insertionSort (fun a b => tripleLe a b = true) found
  refine ⟨found.insertionSort (fun a b => tripleLe a b), fun t => ?_,
    insertionSort_tripleLe hnodup, ?_⟩
  · rw [List.mem_insertionSort, hmem]
    simp only [← PyDict.get?_eq_some_iff]
    constructor
    · rintro ⟨n, e, h, loc, hn, hh, hb, rfl⟩
      exact ⟨n, e, h, loc, hn, hh, (revisionUnused_iff hindex hb).mp rfl, rfl⟩
    · rintro ⟨n, e, h, loc, hn, hh, hu, rfl⟩
      obtain ⟨b, hb⟩ := hall n e ((PyDict.get?_eq_some_iff _ _ _).mp hn) h
        ((PyDict.isSome_get?_iff _ _).mp (by simp [hh]))
      exact ⟨n, e, h, loc, hn, hh, ((revisionUnused_iff hindex hb).mpr hu) ▸ hb, rfl⟩
  · by_cases hnil : found = []
    · subst hnil
      cases hrun
      rfl
    · have hsorted : (found.insertionSort fun a b => tripleLe a b) ≠ [] :=
        fun h => hnil (List.perm_nil.mp (h ▸ hperm).symm)
      simp only [List.isEmpty_iff, hnil, if_false] at hrun
      cases hrun
      simp [List.isEmpty_iff, hsorted]

/-- A registry with one name, `foo`, and one revision, `sha256:ab`, tagged `v1`. -/
def sampleRegistry : Registry :=
  ⟨[("foo", ⟨⟨[("v1", "sha256:ab")], by decide⟩,
    ⟨[("sha256:ab", ⟨"v1", "foo/v1/foo.js"⟩)], by decide⟩⟩)], by decide⟩

/-- Two records that match `foo`'s revision once trimmed. The last one decides, and its count is
the text `"0"`. -/
def sampleUsage : List Json :=
  [.object [("strategy", .str " foo "), ("hash", .str "sha256:ab"), ("count", .int 3)],
    .object [("strategy", .str "foo"), ("hash", .str " sha256:ab"), ("count", .str "0")]]

section Raises
variable {rt : Runtime}

/-- `entry.get` on a record that is not a `dict` raises `AttributeError`, naming its type. -/
theorem indexRecord_not_object {index : UsageIndex} {u : Json} (hu : ∀ fields, u ≠ .object fields) :
    indexRecord rt index u =
      .error (.attribute ("'" ++ u.typeName ++ "' object has no attribute 'get'")) := by
  cases u with
  | object fields => exact absurd rfl (hu fields)
  | _ => rfl

theorem indexRecord_object (index : UsageIndex) (fields : List (String × Json)) :
    ∃ index', indexRecord rt index (.object fields) = .ok index' := by
  dsimp only [indexRecord, Json.get_object, bind, Except.bind]
  split <;> exact ⟨_, rfl⟩

/-- The index loop raises at its first record that is not a `dict`. -/
theorem foldlM_indexRecord_error :
    ∀ {usage : List Json} {index : UsageIndex} {e : PyExc},
      usage.foldlM (indexRecord rt) index = .error e →
      ∃ pre u post, usage = pre ++ u :: post ∧ (∀ v ∈ pre, ∃ fields, v = .object fields) ∧
        (∀ fields, u ≠ .object fields) ∧
        e = .attribute ("'" ++ u.typeName ++ "' object has no attribute 'get'")
  | [], _, _, h => by cases h
  | u :: usage, index, e, h => by
    rw [List.foldlM_cons] at h
    by_cases hu : ∃ fields, u = .object fields
    · obtain ⟨fields, rfl⟩ := hu
      obtain ⟨index₁, h₁⟩ : ∃ index₁, indexRecord rt index (.object fields) = .ok index₁ :=
        indexRecord_object index fields
      rw [h₁] at h
      obtain ⟨pre, u', post, rfl, hpre, hu', he⟩ := foldlM_indexRecord_error h
      exact ⟨.object fields :: pre, u', post, rfl, List.forall_mem_cons.mpr ⟨⟨fields, rfl⟩, hpre⟩,
        hu', he⟩
    · push_neg at hu
      rw [indexRecord_not_object hu] at h
      cases h
      exact ⟨[], u, usage, rfl, by simp, hu, rfl⟩

/-- An index loop that returned saw `dict` records alone. -/
theorem objects_of_foldlM_indexRecord :
    ∀ {usage : List Json} {index index' : UsageIndex},
      usage.foldlM (indexRecord rt) index = .ok index' → ∀ u ∈ usage, ∃ fields, u = .object fields
  | [], _, _, _ => by simp
  | u :: usage, index, index', h => by
    rw [List.foldlM_cons] at h
    obtain ⟨index₁, h₁, h⟩ := Except.bind_eq_ok h
    refine List.forall_mem_cons.mpr ⟨?_, objects_of_foldlM_indexRecord h⟩
    cases u with
    | object fields => exact ⟨fields, rfl⟩
    | _ => cases h₁

/-- The count of a `dict` record raises only `OverflowError`, from an infinite count. -/
theorem recordCount_object_error {fields : List (String × Json)} {e : PyExc}
    (h : recordCount rt (.object fields) = .error e) :
    e = .overflow "cannot convert float infinity to integer" ∧
      pyInt rt ((lookupKey "count" fields).getD (.int 0)) = .error .overflow := by
  simp only [recordCount, Json.get_object] at h
  dsimp only [bind, Except.bind, pure, Except.pure] at h
  generalize pyInt rt ((lookupKey "count" fields).getD (.int 0)) = c at h ⊢
  rcases c with (_ | _ | _) | c <;> cases h
  exact ⟨rfl, rfl⟩

/-- Against the index of the records, the test of a revision raises only where the last record
that matches it has an infinite count. -/
theorem revisionUnused_error {usage : List Json} {index : UsageIndex} {n h : String} {e : PyExc}
    (hindex : usageIndex rt usage = .ok index)
    (he : revisionUnused rt index (rt.lower n) h = .error e) :
    e = .overflow "cannot convert float infinity to integer" ∧
      ∃ fields, lastWhere (recordMatches rt (rt.lower n) h) usage = some (.object fields) ∧
        pyInt rt ((lookupKey "count" fields).getD (.int 0)) = .error .overflow := by
  unfold revisionUnused at he
  rw [← indexLookup, usageIndex_lookup hindex] at he
  cases hlast : lastWhere (recordMatches rt (rt.lower n) h) usage with
  | none => rw [hlast] at he; cases he
  | some r =>
    obtain ⟨fields, rfl⟩ := object_of_recordMatches (lastWhere_spec hlast).2
    rw [hlast] at he
    rcases Except.bind_eq_error he with hcount | ⟨_, _, he⟩
    · obtain ⟨rfl, hinf⟩ := recordCount_object_error hcount
      exact ⟨rfl, fields, rfl, hinf⟩
    · cases he

/-- The loop over one name's hashes raises where the test of one of them raises. -/
theorem unusedInEntry_error {index : UsageIndex} {name : String} {e : PyExc} :
    ∀ {hs : List (String × Location)}, unusedInEntry rt index name hs = .error e →
      ∃ q ∈ hs, revisionUnused rt index (rt.lower name) q.1 = .error e
  | [], h => by cases h
  | (_, _) :: _, hrun => by
    rcases Except.bind_eq_error hrun with hb | ⟨_, -, hrun⟩
    · exact ⟨_, List.mem_cons_self _ _, hb⟩
    rcases Except.bind_eq_error hrun with ht | ⟨_, -, hrun⟩
    · obtain ⟨q, hq, hqe⟩ := unusedInEntry_error ht
      exact ⟨q, List.mem_cons_of_mem _ hq, hqe⟩
    · cases hrun

/-- The loop over the names raises where the test of one revision raises. -/
theorem unusedRevisions_error {index : UsageIndex} {e : PyExc} :
    ∀ {items : List (String × RegistryEntry)}, unusedRevisions rt index items = .error e →
      ∃ n entry, (n, entry) ∈ items ∧
        ∃ q ∈ entry.hashes.items, revisionUnused rt index (rt.lower n) q.1 = .error e
  | [], h => by cases h
  | (name, entry) :: _, hrun => by
    rcases Except.bind_eq_error hrun with hh | ⟨_, -, hrun⟩
    · obtain ⟨q, hq, hqe⟩ := unusedInEntry_error hh
      exact ⟨name, entry, List.mem_cons_self _ _, q, hq, hqe⟩
    rcases Except.bind_eq_error hrun with ht | ⟨_, -, hrun⟩
    · obtain ⟨n, entry', hmem, q, hq, hqe⟩ := unusedRevisions_error ht
      exact ⟨n, entry', List.mem_cons_of_mem _ hmem, q, hq, hqe⟩
    · cases hrun

/-- The index loop raises `AttributeError` at its first record that is not a `dict`. -/
theorem foldlM_indexRecord_at {u : Json} {post : List Json} (hu : ∀ fields, u ≠ .object fields) :
    ∀ {pre : List Json} {index : UsageIndex}, (∀ v ∈ pre, ∃ fields, v = .object fields) →
      (pre ++ u :: post).foldlM (indexRecord rt) index =
        .error (.attribute ("'" ++ u.typeName ++ "' object has no attribute 'get'"))
  | [], index, _ => by rw [List.nil_append, List.foldlM_cons, indexRecord_not_object hu]; rfl
  | v :: pre, index, hpre => by
    obtain ⟨fields, rfl⟩ := hpre v (.head _)
    obtain ⟨index₁, h₁⟩ := @indexRecord_object rt index fields
    rw [List.cons_append, List.foldlM_cons, h₁]
    exact foldlM_indexRecord_at hu fun v hv => hpre v (.tail _ hv)

/-- The index loop over `dict` records returns. -/
theorem usageIndex_ok_of_objects {usage : List Json}
    (hobj : ∀ u ∈ usage, ∃ fields, u = .object fields) :
    ∃ index, usageIndex rt usage = .ok index := by
  cases hi : usageIndex rt usage with
  | ok index => exact ⟨index, rfl⟩
  | error e =>
    obtain ⟨pre, u, post, rfl, -, hu, -⟩ := foldlM_indexRecord_error hi
    obtain ⟨fields, rfl⟩ := hobj u (by simp)
    exact absurd rfl (hu fields)

/-- Against the index of the records, the test of a revision whose last matching record has an
infinite count raises `OverflowError`. -/
theorem revisionUnused_overflow {usage : List Json} {index : UsageIndex} {n h : String}
    {fields : List (String × Json)} (hindex : usageIndex rt usage = .ok index)
    (hlast : lastWhere (recordMatches rt (rt.lower n) h) usage = some (.object fields))
    (hinf : pyInt rt ((lookupKey "count" fields).getD (.int 0)) = .error .overflow) :
    revisionUnused rt index (rt.lower n) h =
      .error (.overflow "cannot convert float infinity to integer") := by
  unfold revisionUnused
  rw [← indexLookup, usageIndex_lookup hindex, hlast]
  simp only [recordCount, Json.get_object]
  dsimp only [bind, Except.bind]
  rw [hinf]

/-- The loops over the manifest return when no revision's last matching record has an infinite
count. -/
theorem unusedRevisions_ok_of_counts {usage : List Json} {index : UsageIndex} {R : Registry}
    (hindex : usageIndex rt usage = .ok index)
    (hfin : ∀ n entry hash fields, R.get? n = some entry → hash ∈ entry.hashes.keys →
      lastWhere (recordMatches rt (rt.lower n) hash) usage = some (.object fields) →
      pyInt rt ((lookupKey "count" fields).getD (.int 0)) ≠ .error .overflow) :
    ∃ found, unusedRevisions rt index R.items = .ok found := by
  cases hf : unusedRevisions rt index R.items with
  | ok found => exact ⟨found, rfl⟩
  | error e =>
    obtain ⟨n, entry, hmem, q, hq, hqe⟩ := unusedRevisions_error hf
    obtain ⟨-, fields, hlast, hinf⟩ := revisionUnused_error hindex hqe
    exact absurd hinf (hfin n entry q.1 fields ((PyDict.get?_eq_some_iff _ _ _).mpr hmem)
      (List.mem_map_of_mem _ hq) hlast)

/-- The report returns once its two loops have. -/
theorem usageReport_ok_of_loops {usage : List Json} {index : UsageIndex} {R : Registry}
    {found : List (String × String × String)} (hindex : usageIndex rt usage = .ok index)
    (hfound : unusedRevisions rt index R.items = .ok found) :
    ∃ lines, usageReport rt usage R = .ok lines := by
  simp only [usageReport, hindex]
  dsimp only [bind, Except.bind]
  rw [hfound]
  dsimp only
  split <;> exact ⟨_, rfl⟩

end Raises

/-- Some revision of the manifest has a last matching record whose count `int()` cannot convert
because it is infinite. -/
def InfiniteCount (rt : Runtime) (usage : List Json) (R : Registry) : Prop :=
  ∃ n entry hash fields, R.get? n = some entry ∧ hash ∈ entry.hashes.keys ∧
    lastWhere (recordMatches rt (rt.lower n) hash) usage = some (.object fields) ∧
    pyInt rt ((lookupKey "count" fields).getD (.int 0)) = .error .overflow

/-- A record with an infinite count for `foo`'s revision. -/
def infiniteUsage : List Json :=
  [.object [("strategy", .str "foo"), ("hash", .str "sha256:ab"), ("count", .float (.inf false))]]

end StrategyBootstrap
