import Mathlib.Data.List.Sort
import StrategyBootstrap.Spec.FileTree

/-!
# `StrategyBootstrap.Spec.Loader`: finding and loading the strategy modules

This module translates `discover_modules`, `load_module`, `is_versioned_path` and
`extract_metadata`, the first half of `bootstrap_strategies.py`.

`Host` is the world outside Python: the `node` process that prints a module's metadata, the
resolution of the root text, the working directory, and the HTTP fetch of a usage export. The model
takes each of them as given, as it does the built-ins in `Runtime`.

`ModuleInfo` drops the dataclass field `metadata`, which nothing reads after `load_module`. It keeps
two facts `load_module` guarantees: the name and the version are not empty.
-/

set_option autoImplicit false

namespace StrategyBootstrap

/-- What `subprocess.run` returns for the metadata script. -/
structure NodeRun where
  returncode : Int
  stdout : String
  stderr : String

/-- What `Path(s).expanduser().resolve()` raises: `RuntimeError` for a `~user` it cannot expand
or a loop of links, `ValueError` for a NUL character, and the `OSError` of `os.getcwd` for a
relative path. -/
inductive ResolveError where
  | runtime (message : String)
  | value (message : String)
  | os (error : OSError)
  deriving DecidableEq, Repr

/-- The exception a `ResolveError` is in Python. -/
def ResolveError.raise : ResolveError → PyExc
  | .runtime message => .runtime message
  | .value message => .value message
  | .os error => .os error

/-- The world outside Python.

* `node t p` runs `node -e NODE_METADATA_SCRIPT p` on the tree `t`: what `subprocess.run` returns,
  or the `errno` it raises when the process cannot start (`ENOENT` when there is no `node`
  binary). The script prints `JSON.stringify(metadata)` of the module's export. It exits with
  status 1 and a `bootstrap: ...` line on standard error, which names the module's path, when the
  module is missing, raises, has no `metadata` export, or exports something `JSON.stringify`
  cannot serialise.
* `resolve s` is `Path(s).expanduser().resolve()`: the absolute path, or what it raises
  (`ResolveError`).
* `cwd` is the working directory.
* `urlopen url` is the body `urllib.request.urlopen(url).read()` returns, or the text of the
  `URLError` it raises. -/
structure Host where
  node : FileTree → List String → Except Errno NodeRun
  resolve : String → Except ResolveError (List String)
  cwd : List String
  urlopen : String → Except String (List UInt8)

/-- `DEFAULT_VERSION`. -/
def defaultVersion : String := "v1.0.0"

/-- `s or d` for a text `s`: `s`, unless it is empty. -/
def pyOr (s d : String) : String := if s = "" then d else s

theorem pyOr_ne_empty {s d : String} (hd : d ≠ "") : pyOr s d ≠ "" := by
  unfold pyOr
  split <;> assumption

/-- `ModuleInfo`, as `load_module` builds it. -/
structure ModuleInfo where
  name : String
  version : String
  path : List String
  source : List UInt8
  sha256 : String
  versioned : Bool
  name_ne : name ≠ ""
  version_ne : version ≠ ""

section
variable (host : Host) (rt : Runtime)

/-- `extract_metadata(path)`: run the metadata script and decode what it prints. A missing `node`,
a failing script and output that is not JSON each raise a `BootstrapError`. Any other failure to
start the process raises its `OSError`, which names the program. -/
def extractMetadata (t : FileTree) (path : List String) : Except PyExc Json :=
  match host.node t path with
  | .error .noent => .error (.bootstrap "node binary not found (required to load metadata exports)")
  | .error e => .error (.os ⟨e, "node"⟩)
  | .ok result =>
    if result.returncode ≠ 0 then
      .error (.bootstrap (pyOr (strip result.stderr)
        ("metadata extraction failed for " ++ pathStr path)))
    else
      rt.loadsWith
        (fun e => .bootstrap ("metadata export invalid for " ++ pathStr path ++ ": " ++ e))
        result.stdout

/-- `is_versioned_path(relative_path, name, version)`: at least three parts, the last one is
`name + ".js"` once lowered, and the one before it is the version, both lowered. The parts before
those two are not looked at. -/
def isVersionedPath (relativePath : List String) (name version : String) : Bool :=
  match relativePath.reverse with
  | filename :: versionComponent :: _ :: _ =>
    decide (rt.lower filename = name ++ ".js") &&
      decide (rt.lower versionComponent = rt.lower version)
  | _ => false

/-- The version `load_module` takes from the metadata's `version` value: the value as text, trimmed,
or `DEFAULT_VERSION` when that is empty. -/
def versionOf (value : Json) : String := pyOr (strip (pyStr rt value)) defaultVersion

/-- `load_module(root, path)`. It reads the file, extracts its metadata, and takes the name and the
version from it. The name is lowered and trimmed, and an empty name is a `BootstrapError`. It then
hashes the bytes and checks whether the path is already canonical. A metadata value without a `get`
method raises `AttributeError`. -/
def loadModule (t : FileTree) (root path : List String) : Except PyExc ModuleInfo := do
  let source ← (readBytes t path).mapError
    (FsError.raise fun e => .bootstrap ("read " ++ pathStr path ++ ": " ++ e.text))
  let metadata ← extractMetadata host rt t path
  let nameValue ← metadata.get "name" (.str "")
  let name := rt.lower (strip (pyStr rt nameValue))
  if hname : name = "" then
    .error (.bootstrap (pathStr path ++ ": metadata.name required"))
  else
    let versionValue ← metadata.get "version" (.str "")
    let rel ← relativeTo path root
    pure
      { name := name
        version := versionOf rt versionValue
        path := path
        source := source
        sha256 := "sha256:" ++ rt.sha256 source
        versioned := isVersionedPath rt rel name (versionOf rt versionValue)
        name_ne := hname
        version_ne := pyOr_ne_empty (by decide) }

/-- The paths `discover_modules` visits, in its order: `sorted(root.rglob("*.js"))` without the
manifest. No `*.js` name is `registry.json`, so the test never skips a path. `sorted` is stable,
and so is insertion sort: on a total order the two give the same list. -/
def discoveredPaths (t : FileTree) (root : List String) : List (List String) :=
  ((rglobJs t root).insertionSort (fun a b => partsLe a b)).filter
    (fun p => p.getLast? ≠ some "registry.json")

/-- `discover_modules(root)`: `load_module` on each path in turn. The first failure stops the scan
and is raised. -/
def discoverModules (t : FileTree) (root : List String) : Except PyExc (List ModuleInfo) :=
  (discoveredPaths t root).mapM (loadModule host rt t root)

end

end StrategyBootstrap
