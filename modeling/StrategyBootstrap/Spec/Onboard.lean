import StrategyBootstrap.Spec.Main

/-!
# `StrategyBootstrap.Spec.Onboard`: the interactive command of `bootstrape.py`

`bootstrape.py` runs `rebuild_registry_once` behind three questions to an operator instead of
command-line flags: the root (default `.`), whether to normalise the layout, and whether to
proceed. `prompt_with_default` and `prompt_bool` each read one line of standard input with
`input`. At the end of input, `input` raises `EOFError`, and both prompts catch it, print an empty
line and return their default. `Console` threads the lines still to be read through a `StateT` over
`Io`.

`input(prompt)` writes the prompt to standard output, without a newline, and reads a line; the line
the operator types is echoed by the terminal, not written by the program. At the end of input, the
`print()` in the handler writes the newline.

Unlike `main` of `bootstrap_strategies.py`, this `main` calls `ensure_dir` outside its `try`, and
prints the `BootstrapError` of `rebuild_registry_once` on standard output.
-/

set_option autoImplicit false

namespace StrategyBootstrap

namespace Onboard

/-- A step of the interactive command: from the lines of standard input still to be read, an
`Io` step that also returns the lines left. -/
abbrev Console := StateT (List String) Io

/-- `DEFAULT_ROOT` of `bootstrape.py`. -/
def defaultRoot : String := "."

/-- `input(prompt)`: write the prompt, then read the next line, or `none` at the end of input,
where `input` raises `EOFError`. -/
def input (prompt : String) : Console (Option String) := do
  Io.write prompt
  match ← get with
  | [] => pure none
  | line :: rest =>
    set rest
    pure (some line)

/-- `prompt_with_default(label, default)`: the trimmed answer, or `default or ""` for an empty
answer or at the end of input. The prompt shows ` [default]` when the default is not empty. -/
def promptWithDefault (label : String) (default : Option String) : Console String := do
  let fallback := default.getD ""
  let suffix := if fallback = "" then "" else " [" ++ fallback ++ "]"
  let prompt := label ++ suffix ++ ": "
  match ← input prompt with
  | none =>
    Io.print ""
    pure fallback
  | some line => pure (pyOr (strip line) fallback)

/-- `prompt_bool(label, default)`: `default` for an empty answer or at the end of input; otherwise
whether the trimmed, lowered answer is `y` or `yes`. -/
def promptBool (rt : Runtime) (label : String) (default : Bool) : Console Bool := do
  let defaultLabel := if default then "Y/n" else "y/N"
  let prompt := label ++ " (" ++ defaultLabel ++ "): "
  match ← input prompt with
  | none =>
    Io.print ""
    pure default
  | some line =>
    let value := rt.lower (strip line)
    if value = "" then pure default
    else pure (value == "y" || value == "yes")

/-- `main()` of `bootstrape.py`. An exception of `ensure_dir` leaves `main`. A `BootstrapError` of
`rebuild_registry_once` is printed on standard output and `main` returns `1`; any other exception
leaves `main`. `failed` stands for the `return 1` of the handler. -/
def main (host : Host) (rt : Runtime) : Console Nat := do
  Io.print "=== Onboard Strategies ==="
  let rootInput ← promptWithDefault "Strategies root" (some defaultRoot)
  let root ← ensureDir host (pyOr rootInput defaultRoot)
  let normalize ← promptBool rt "Normalize layout before writing registry?" true
  if !(← promptBool rt "Proceed with onboarding?" true) then
    Io.print "Aborted by operator."
    return 0
  let failed ← Io.handle (do let _ ← rebuildRegistryOnce host rt root normalize; pure false)
    fun e => match e with
      | .bootstrap message => do
        Io.print ("bootstrap: " ++ message)
        pure true
      | other => Io.raise other
  if failed then return 1
  if !normalize then
    Io.print "(Layout left untouched; rerun and answer 'y' to reorganize if needed.)"
  Io.print "Done."
  return 0

end Onboard

end StrategyBootstrap
