import StrategyBootstrap.Spec.Onboard
import StrategyBootstrap.Proofs.Frame

/-!
# `StrategyBootstrap.Proofs.Onboard`: the interactive command runs the flag-driven one

`main` of `bootstrape.py` asks three questions and then does what `main` of
`bootstrap_strategies.py` does with the answers as its flags. This module proves it from one outcome
equation for each command.

`answerText` and `answerBool` are what `prompt_with_default` and `prompt_bool` make of a line of
standard input, or of its end (`none`). `promptWithDefault_run_eq` and `promptBool_run_eq` are their
run equations. Each prompt consumes one line and touches neither the tree nor standard error.

`exitOf` is the exit a command makes of a run of `rebuild_registry_once`. `main_outcome` and
`Onboard.main_outcome` give the exit and the final tree of each command through `ensure_dir` and
`rebuild_registry_once`. The frame lemmas of `Proofs.Frame` carry a run of either from the world the
prompts leave to the world the flags would have. From the two equations:

* `Onboard.main_matches_bootstrap_main`: when the operator proceeds, the interactive command exits
  as `main` does with `--root` the first answer and `--write` the second, and leaves the same tree.
  When the operator declines, only `ensure_dir` has run.
* `Onboard.main_at_end_of_input`: without any input the command runs as `main --write` under `.`.
* `Onboard.main_keeps_stderr`: the command never writes to standard error. It prints a
  `BootstrapError` on standard output, where `main` of `bootstrap_strategies.py` uses standard
  error.
* `Onboard.main_never_raises_bootstrap`: no `BootstrapError` leaves it, although `ensure_dir` runs
  outside its `try`: the root the prompt returns is never blank, and `ensure_dir` then raises only
  what `resolve` and `mkdir` raise (`ensureDir_error`).
* `Onboard.main_modifies_only`: its frame, the one of `rebuild_registry_once` with the directories
  `mkdir(parents=True)` makes along the root; unlike `main`, it never writes a usage file.
-/

set_option autoImplicit false

namespace StrategyBootstrap

/-- For a root that is not blank, `ensure_dir` raises what `resolve` raises (`RuntimeError`,
`ValueError` or `OSError`), or what `mkdir(parents=True)` raises (its `OSError`, or the
`ValueError` of a NUL character). -/
theorem ensureDir_error {host : Host} {path : String} {w w' : World} {e : PyExc}
    (hblank : strip path ≠ "") (h : ensureDir host path w = (.error e, w')) :
    (∃ re, host.resolve (strip path) = .error re ∧ e = re.raise) ∨
      ∃ fe : FsError, e = fe.raise .os := by
  unfold ensureDir at h
  dsimp only at h
  rw [if_neg hblank, Io.bind_ok (Io.pure_apply _ _)] at h
  cases hr : host.resolve (strip path) with
  | error re =>
    rw [hr] at h
    cases h
    exact .inl ⟨re, rfl, rfl⟩
  | ok root =>
    rw [hr, Io.bind_ok (x := Io.ofExcept ((Except.ok root).mapError ResolveError.raise)) (a := root)
      rfl] at h
    cases hm : mkdirs w.tree root with
    | error x =>
      rw [Io.bind_error (Io.fs_mkdirs_error (e := x.1) (t := x.2) hm)] at h
      cases h
      exact .inr ⟨_, rfl⟩
    | ok t => rw [Io.bind_ok (Io.fs_mkdirs_ok hm)] at h; cases h

/-- What a root that is not blank makes `ensure_dir` raise is never a `BootstrapError`. -/
theorem ensureDir_error_ne_bootstrap {host : Host} {path : String} {w w' : World} {e : PyExc}
    (hblank : strip path ≠ "") (h : ensureDir host path w = (.error e, w')) (msg : String) :
    e ≠ .bootstrap msg := by
  rcases ensureDir_error hblank h with ⟨re, -, rfl⟩ | ⟨fe, rfl⟩
  · cases re <;> exact PyExc.noConfusion
  · cases fe <;> exact PyExc.noConfusion

/-- The exit a command makes of a run of `rebuild_registry_once`: `0` when it returns, `1` for a
`BootstrapError`, and any other exception as it was raised. -/
def exitOf : Except PyExc Registry → Except PyExc Nat
  | .ok _ => .ok 0
  | .error (.bootstrap _) => .ok 1
  | .error e => .error e

/-- A command that turns a run into its exit never raises a `BootstrapError` from it. -/
theorem exitOf_ne_bootstrap (r : Except PyExc Registry) (msg : String) :
    exitOf r ≠ .error (.bootstrap msg) := by
  rcases r with (_ | _ | _ | _ | _) | _ <;> exact fun h => by cases h

/-- Outcome of `main` of `bootstrap_strategies.py` without a usage source, for a root that is not
blank: `ensure_dir` either raises its `OSError`, or the exit and the tree are those `exitOf` gives
for `rebuild_registry_once` from where `ensure_dir` left the world. -/
theorem main_outcome (host : Host) (rt : Runtime) (args : Args) (w : World)
    (hblank : strip args.root ≠ "") (husage : args.usage = none) :
    (StrategyBootstrap.main host rt args w).1 = (match ensureDir host args.root w with
      | (.ok root, w₁) => exitOf (rebuildRegistryOnce host rt root args.write w₁).1
      | (.error e, _) => .error e) ∧
    (StrategyBootstrap.main host rt args w).2.tree = (match ensureDir host args.root w with
      | (.ok root, w₁) => (rebuildRegistryOnce host rt root args.write w₁).2.tree
      | (.error _, w₁) => w₁.tree) := by
  unfold StrategyBootstrap.main
  rw [husage]
  rcases hE : ensureDir host args.root w with ⟨_ | root, w₁⟩
  · rename_i e
    rw [Io.handle_error (Io.bind_error hE _)]
    have hne := ensureDir_error_ne_bootstrap hblank hE
    cases e
    case bootstrap msg => exact absurd rfl (hne msg)
    all_goals exact ⟨rfl, rfl⟩
  · dsimp only
    rcases hR : rebuildRegistryOnce host rt root args.write w₁ with ⟨_ | R, w₂⟩
    · rename_i e
      rw [Io.handle_error ((Io.bind_ok hE _).trans (Io.bind_error hR _))]
      cases e <;> exact ⟨rfl, rfl⟩
    · rw [Io.handle_ok ((Io.bind_ok hE _).trans ((Io.bind_ok hR _).trans rfl))]
      exact ⟨rfl, rfl⟩

namespace Onboard

/-- What `prompt_with_default` makes of a line of standard input, or of its end: the trimmed line,
or `default` when it is empty or input has ended. -/
def answerText (default : String) : Option String → String
  | none => default
  | some line => pyOr (strip line) default

/-- What `prompt_bool` makes of a line of standard input, or of its end: `default` when the
trimmed line is empty or input has ended, otherwise whether its lower case is `y` or `yes`. -/
def answerBool (rt : Runtime) (default : Bool) : Option String → Bool
  | none => default
  | some line =>
    if rt.lower (strip line) = "" then default
    else rt.lower (strip line) == "y" || rt.lower (strip line) == "yes"

/-- The root text of an answer is never blank: an empty answer gives `.`. -/
theorem answerText_ne_blank (line : Option String) : strip (answerText defaultRoot line) ≠ "" := by
  cases line with
  | none => decide
  | some line =>
    show strip (pyOr (strip line) defaultRoot) ≠ ""
    by_cases h : strip line = ""
    · rw [pyOr, if_pos h]
      decide
    · rw [pyOr, if_neg h]
      exact fun h' => h (strip_strip_eq_empty h')

/-! ### `Console` runs -/

section ConsoleRun

variable {α β : Type} {x : Console α} {f : α → Console β} {y : Io α} {s s' : List String}
  {w w' : World}

/-- A `Console` bind runs its first step and, if that returns, the continuation on the lines
left. -/
theorem run_bind : (x >>= f).run s w = match x.run s w with
    | (.ok (a, s'), w') => (f a).run s' w'
    | (.error e, w') => (.error e, w') := by
  show (x.run s >>= fun p => (f p.1).run p.2) w = _
  rw [Io.bind_apply]
  rcases x.run s w with ⟨_ | ⟨a, s'⟩, w'⟩ <;> rfl

/-- An `Io` step inside `Console` reads no line of input. -/
theorem run_liftM : (liftM y : Console α).run s w = match y w with
    | (.ok a, w') => (.ok (a, s), w')
    | (.error e, w') => (.error e, w') := rfl

theorem run_bind_ok {a : α} (h : x.run s w = (.ok (a, s'), w')) :
    (x >>= f).run s w = (f a).run s' w' := by
  rw [run_bind, h]

theorem run_bind_error {e : PyExc} (h : x.run s w = (.error e, w')) :
    (x >>= f).run s w = (.error e, w') := by
  rw [run_bind, h]

theorem run_liftM_ok {a : α} (h : y w = (.ok a, w')) :
    (liftM y : Console α).run s w = (.ok (a, s), w') := by
  rw [run_liftM, h]

theorem run_liftM_error {e : PyExc} (h : y w = (.error e, w')) :
    (liftM y : Console α).run s w = (.error e, w') := by
  rw [run_liftM, h]

theorem run_pure_bind (a : α) : ((pure a : Console α) >>= f).run s w = (f a).run s w := rfl

end ConsoleRun

/-! ### The prompts -/

/-- Run equation of `prompt_with_default`: it reads one line, returns `answerText` of it, and leaves
the tree and standard error as they were. -/
theorem promptWithDefault_run_eq (label : String) (default : Option String) (stdin : List String)
    (w : World) : ∃ w', (promptWithDefault label default).run stdin w =
      (.ok (answerText (default.getD "") stdin[0]?, stdin.drop 1), w') ∧
        w'.tree = w.tree ∧ w'.stderr = w.stderr := by
  cases stdin with
  | nil => exact ⟨_, rfl, rfl, rfl⟩
  | cons line rest =>
    refine ⟨{ w with stdout := w.stdout ++ (label ++ (if default.getD "" = "" then "" else
      " [" ++ default.getD "" ++ "]") ++ ": ") }, ?_, rfl, rfl⟩
    rw [List.getElem?_cons_zero, List.drop_one, List.tail_cons]
    rfl

/-- Run equation of `prompt_bool`: it reads one line, returns `answerBool` of it, and leaves the
tree and standard error as they were. -/
theorem promptBool_run_eq (rt : Runtime) (label : String) (default : Bool) (stdin : List String)
    (w : World) : ∃ w', (promptBool rt label default).run stdin w =
      (.ok (answerBool rt default stdin[0]?, stdin.drop 1), w') ∧
        w'.tree = w.tree ∧ w'.stderr = w.stderr := by
  cases stdin with
  | nil => exact ⟨_, rfl, rfl, rfl⟩
  | cons line rest =>
    refine ⟨{ w with stdout := w.stdout ++ (label ++ " (" ++ (if default then "Y/n" else "y/N") ++
      "): ") }, ?_, rfl, rfl⟩
    show (if rt.lower (strip line) = "" then (pure default : Console Bool)
      else pure (rt.lower (strip line) == "y" || rt.lower (strip line) == "yes")) rest _ = _
    rw [List.getElem?_cons_zero, answerBool]
    split <;> rfl

/-! ### The command -/

/-- Outcome of the interactive `main`: the exit and the tree, through `ensure_dir` at the first
answer and, when the third answer proceeds, `rebuild_registry_once` with the second. Standard error
stays as it was. -/
theorem main_outcome (host : Host) (rt : Runtime) (stdin : List String) (w : World) :
    ((Onboard.main host rt).run stdin w).1.map Prod.fst =
      (match ensureDir host (answerText defaultRoot stdin[0]?) w with
        | (.ok root, w₁) => if answerBool rt true stdin[2]? then
            exitOf (rebuildRegistryOnce host rt root (answerBool rt true stdin[1]?) w₁).1 else .ok 0
        | (.error e, _) => .error e) ∧
    ((Onboard.main host rt).run stdin w).2.tree =
      (match ensureDir host (answerText defaultRoot stdin[0]?) w with
        | (.ok root, w₁) => if answerBool rt true stdin[2]? then
            (rebuildRegistryOnce host rt root (answerBool rt true stdin[1]?) w₁).2.tree else w₁.tree
        | (.error _, w₁) => w₁.tree) ∧
    ((Onboard.main host rt).run stdin w).2.stderr = w.stderr := by
  obtain ⟨w₂, h₀, ht₂, he₂⟩ := promptWithDefault_run_eq "Strategies root" (some defaultRoot) stdin
    { w with stdout := w.stdout ++ ("=== Onboard Strategies ===" ++ "\n") }
  have hroot :
      pyOr (answerText defaultRoot stdin[0]?) defaultRoot = answerText defaultRoot stdin[0]? :=
    if_neg fun h => answerText_ne_blank stdin[0]? (by rw [h]; rfl)
  unfold Onboard.main
  rw [run_bind_ok (run_liftM_ok (show Io.print "=== Onboard Strategies ===" w =
    (.ok (), { w with stdout := w.stdout ++ ("=== Onboard Strategies ===" ++ "\n") }) from rfl)),
    run_bind_ok h₀]
  dsimp only
  rw [Option.getD_some, hroot]
  -- The banner and the prompt printed, so `ensure_dir` runs from a world that differs from `w` in
  -- its standard output only.
  obtain ⟨w₁', hE', ht₁, he₁⟩ :=
    (ensureDir_effects host (answerText defaultRoot stdin[0]?)).run_eq_of_tree w₂ w ht₂
  rcases hE : ensureDir host (answerText defaultRoot stdin[0]?) w with ⟨_ | root, w₁⟩ <;>
    rw [hE] at hE' ht₁ <;> dsimp only at hE' ht₁ ⊢
  · rw [run_bind_error (run_liftM_error hE')]
    exact ⟨rfl, ht₁, he₁.trans he₂⟩
  · rw [run_bind_ok (run_liftM_ok hE')]
    obtain ⟨w₃, h₁, ht₃, he₃⟩ :=
      promptBool_run_eq rt "Normalize layout before writing registry?" true (stdin.drop 1) w₁'
    rw [run_bind_ok h₁]
    obtain ⟨w₄, h₂, ht₄, he₄⟩ := promptBool_run_eq rt "Proceed with onboarding?" true
      ((stdin.drop 1).drop 1) w₃
    rw [run_bind_ok h₂]
    simp only [List.getElem?_drop, List.drop_drop, Nat.add_zero, Nat.reduceAdd]
    have ht : w₄.tree = w₁.tree := ht₄.trans (ht₃.trans ht₁)
    have he : w₄.stderr = w.stderr := he₄.trans (he₃.trans (he₁.trans he₂))
    -- The third answer declines, or runs the rebuild under the handler.
    cases hp : answerBool rt true stdin[2]?
    · exact ⟨rfl, ht, he⟩
    · obtain ⟨w₅, hR', ht₅, he₅⟩ := (rebuildRegistryOnce_effects : Io.Effects _ _
        (rebuildRegistryOnce host rt root (answerBool rt true stdin[1]?))).run_eq_of_tree w₄ w₁ ht
      simp only [Bool.not_true, Bool.false_eq_true, if_false, if_true]
      rw [run_pure_bind, run_bind, run_liftM]
      rcases hR : rebuildRegistryOnce host rt root (answerBool rt true stdin[1]?) w₁ with
        ⟨_ | R, w₂⟩ <;>
        rw [hR] at hR' ht₅ <;> dsimp only at hR' ht₅ ⊢
      · rename_i e
        rw [Io.handle_error (Io.bind_error hR' _)]
        cases e <;> exact ⟨rfl, ht₅, he₅.trans he⟩
      · rw [Io.handle_ok (Io.bind_ok hR' fun _ => pure false)]
        dsimp only
        rw [if_neg Bool.false_ne_true, run_pure_bind]
        split <;> exact ⟨rfl, ht₅, he₅.trans he⟩

/-- The interactive command refines `main` of `bootstrap_strategies.py`. When the operator proceeds,
it exits as `main` does with the first answer as `--root` and the second as `--write`, and leaves
the same tree. When the operator declines, only `ensure_dir` has run, and the exit is `0`. -/
theorem main_matches_bootstrap_main (host : Host) (rt : Runtime) (stdin : List String) (w : World) :
    if answerBool rt true stdin[2]? then
      ((Onboard.main host rt).run stdin w).1.map Prod.fst =
          (StrategyBootstrap.main host rt
            { root := answerText defaultRoot stdin[0]?, write := answerBool rt true stdin[1]? }
              w).1 ∧
        ((Onboard.main host rt).run stdin w).2.tree =
          (StrategyBootstrap.main host rt
            { root := answerText defaultRoot stdin[0]?, write := answerBool rt true stdin[1]? }
              w).2.tree
    else
      ((Onboard.main host rt).run stdin w).1.map Prod.fst =
          (ensureDir host (answerText defaultRoot stdin[0]?) w).1.map (fun _ => 0) ∧
        ((Onboard.main host rt).run stdin w).2.tree =
          (ensureDir host (answerText defaultRoot stdin[0]?) w).2.tree := by
  obtain ⟨hr, ht, -⟩ := main_outcome host rt stdin w
  obtain ⟨hr', ht'⟩ := StrategyBootstrap.main_outcome host rt
    { root := answerText defaultRoot stdin[0]?, write := answerBool rt true stdin[1]? } w
    (answerText_ne_blank _) rfl
  rw [hr, ht, hr', ht']
  dsimp only
  cases answerBool rt true stdin[2]? <;>
    rcases ensureDir host (answerText defaultRoot stdin[0]?) w with ⟨_ | root, w₁⟩ <;>
      exact ⟨rfl, rfl⟩

/-- At the end of input every prompt takes its default, so the command runs as `main --write` of
`bootstrap_strategies.py` under `.`. -/
theorem main_at_end_of_input (host : Host) (rt : Runtime) (w : World) :
    ((Onboard.main host rt).run [] w).1.map Prod.fst =
        (StrategyBootstrap.main host rt { root := defaultRoot, write := true } w).1 ∧
      ((Onboard.main host rt).run [] w).2.tree =
        (StrategyBootstrap.main host rt { root := defaultRoot, write := true } w).2.tree := by
  obtain ⟨hr, ht, -⟩ := main_outcome host rt [] w
  obtain ⟨hr', ht'⟩ := StrategyBootstrap.main_outcome host rt
    { root := defaultRoot, write := true } w
    (answerText_ne_blank none) rfl
  simp only [List.getElem?_nil, answerText, answerBool, if_true] at hr ht
  rw [hr, ht, hr', ht']
  rcases ensureDir host defaultRoot w with ⟨_ | root, w₁⟩ <;> exact ⟨rfl, rfl⟩

/-- No `BootstrapError` leaves the interactive command. `ensure_dir` runs outside the `try`, but
the root the prompt returns is never blank, and the handler catches the errors of
`rebuild_registry_once`. -/
theorem main_never_raises_bootstrap (host : Host) (rt : Runtime) (stdin : List String) (w : World)
    (e : PyExc) (h : ((Onboard.main host rt).run stdin w).1 = .error e) :
    ∀ msg, e ≠ .bootstrap msg := by
  rintro msg rfl
  have hr := (main_outcome host rt stdin w).1
  rw [h] at hr
  rcases hE : ensureDir host (answerText defaultRoot stdin[0]?) w with ⟨_ | root, w₁⟩ <;>
    rw [hE] at hr <;> dsimp only at hr
  · cases hr
    exact ensureDir_error_ne_bootstrap (answerText_ne_blank _) hE msg rfl
  · split at hr
    · exact exitOf_ne_bootstrap _ msg hr.symm
    · cases hr

theorem main_never_raises_bootstrap_sample :
    ∃ (e : PyExc) (w' : World),
      (Onboard.main sampleHost (sampleRuntime (.str "foo"))).run [] ⟨sampleTree, "", ""⟩ =
        (.error e, w') ∧ ∀ msg, e ≠ .bootstrap msg :=
  ⟨_, _, rfl, main_never_raises_bootstrap sampleHost (sampleRuntime (.str "foo")) []
    ⟨sampleTree, "", ""⟩ _ rfl⟩

end Onboard

end StrategyBootstrap
