import StrategyBootstrap.Spec.Usage

/-!
# `StrategyBootstrap.Spec.Main`: the command

This module translates `ensure_dir` and `main` of `bootstrap_strategies.py`. `Args` holds the four
values `parse_args` resolves, with its defaults. The model starts from them: argument parsing is
`argparse`'s. Between discovery and the report, `main` runs the same statements as
`rebuild_registry_once`, and the model writes it that way.
-/

set_option autoImplicit false

namespace StrategyBootstrap

/-- The values `parse_args` resolves: `--root` (default `DEFAULT_ROOT`), `--write`, `--usage` and
`--usage-output` (default `DEFAULT_USAGE_OUTPUT`). -/
structure Args where
  root : String := "strategies"
  write : Bool := false
  usage : Option String := none
  usageOutput : String := "usage.json"

/-- `ensure_dir(path)`: a blank text is a `BootstrapError`; otherwise the resolved path, created
with its parents. What `resolve` and `mkdir` raise leaves `ensure_dir`. -/
def ensureDir (host : Host) (path : String) : Io (List String) := do
  if strip path = "" then Io.raise (.bootstrap "directory required")
  let target ← Io.ofExcept ((host.resolve (strip path)).mapError ResolveError.raise)
  Io.fs .os (mkdirs · target)
  pure target

/-- `main(argv)` from the parsed arguments. A `BootstrapError` prints `bootstrap: ...` on standard
error and returns `1`. Any other exception leaves `main`. -/
def main (host : Host) (rt : Runtime) (args : Args) : Io Nat :=
  Io.handle
    (do
      let root ← ensureDir host args.root
      let registry ← rebuildRegistryOnce host rt root args.write
      let usageEntries ← readUsage rt host args.usage args.usageOutput
      match usageEntries with
      | some entries => if !entries.isEmpty then reportUsage rt entries registry
      | none => pure ()
      pure 0)
    (fun e => match e with
      | .bootstrap message => do
        Io.printErr ("bootstrap: " ++ message)
        pure 1
      | other => Io.raise other)

end StrategyBootstrap
