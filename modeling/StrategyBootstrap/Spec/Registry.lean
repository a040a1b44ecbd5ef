import StrategyBootstrap.Spec.Loader

/-!
# `StrategyBootstrap.Spec.Registry`: normalising the layout and building the manifest

This module translates `materialize_module`, `pick_latest_tag`, `build_registry` and
`write_registry` from `bootstrap_strategies.py`, and `rebuild_registry_once` from `bootstrape.py`.

The manifest is a `Registry`: name ↦ `RegistryEntry`. An entry has `tags` (version ↦ hash) and
`hashes` (hash ↦ `Location`, the tag and the path relative to the root). The loop of
`build_registry` is `registerModules`, one `registerModule` per discovered module. With `write` set,
each pass first moves a module that is not at its canonical place. The pass after the loop,
`withLatest`, gives each entry its `latest` tag.
-/

set_option autoImplicit false

namespace StrategyBootstrap

/-- What `hashes[sha]` records: the tag and the path, relative to the root, of the module with
that hash. -/
structure Location where
  tag : String
  path : String
  deriving DecidableEq, Repr

/-- One name's entry of the manifest. -/
structure RegistryEntry where
  tags : PyDict String String
  hashes : PyDict String Location

/-- `{"tags": {}, "hashes": {}}`. -/
def RegistryEntry.empty : RegistryEntry := ⟨PyDict.empty, PyDict.empty⟩

/-- The manifest `build_registry` returns: name ↦ entry. -/
abbrev Registry := PyDict String RegistryEntry

/-! ### `materialize_module` -/

/-- `target_dir = root / module.name / module.version`. -/
def targetDir (root : List String) (m : ModuleInfo) : List String :=
  joinPath (joinPath root m.name) m.version

/-- `target_path = target_dir / f"{module.name}.js"`. -/
def targetPath (root : List String) (m : ModuleInfo) : List String :=
  joinPath (targetDir root m) (m.name ++ ".js")

/-- `materialize_module(root, module)`. A canonical module stays. Any other module gets its target
directory, then its bytes are written to the target path and the original file is unlinked. A
failed `mkdir` raises its `OSError`. A failed write or unlink is a `BootstrapError`, and the steps
before it stay done. -/
def materializeModule (root : List String) (m : ModuleInfo) : Io (List String) :=
  if m.versioned then pure m.path
  else do
    Io.fs .os (mkdirs · (targetDir root m))
    let moveFailed := fun e : OSError => PyExc.bootstrap
      ("move module " ++ pathStr m.path ++ " -> " ++ pathStr (targetPath root m) ++ ": " ++ e.text)
    Io.fs moveFailed (writeBytes · (targetPath root m) m.source)
    Io.fs moveFailed (unlink · m.path)
    pure (targetPath root m)

/-! ### `pick_latest_tag` and `build_registry` -/

/-- Python's `a <= b` on texts. -/
def textLe (a b : String) : Bool := !textLt b a

/-- `pick_latest_tag(tags)`: the hash of the greatest tag other than `latest`, in the order of
`sorted`. Without such a tag it is the first value, or `""` for no tags. -/
def pickLatestTag (tags : PyDict String String) : String :=
  let candidates := tags.keys.filter (· ≠ "latest")
  match (candidates.insertionSort (fun a b => textLe a b)).getLast? with
  | none => tags.values.headD ""
  | some tag => (tags.get? tag).getD ""

/-- One pass of the `build_registry` loop: `setdefault` the module's entry, move the module when
`write` is set, and record `tags[version] = sha256` and `hashes[sha256] = {tag, path}`. A path
outside the root makes `relative_to` raise `ValueError`. -/
def registerModule (root : List String) (write : Bool) (registry : Registry) (m : ModuleInfo) :
    Io Registry := do
  let current := (registry.get? m.name).getD RegistryEntry.empty
  let registry := registry.set m.name current
  let modulePath ← if write then materializeModule root m else pure m.path
  let rel ← Io.ofExcept (relativeTo modulePath root)
  let current : RegistryEntry :=
    { tags := current.tags.set m.version m.sha256
      hashes := current.hashes.set m.sha256 ⟨m.version, asPosix rel⟩ }
  pure (registry.set m.name current)

/-- The loop of `build_registry`, over the modules in their order. -/
def registerModules (root : List String) (write : Bool) : Registry → List ModuleInfo → Io Registry
  | registry, [] => pure registry
  | registry, m :: ms => do
    let registry ← registerModule root write registry m
    registerModules root write registry ms

/-- The pass after the loop: an entry with at least one tag gets `tags["latest"]`. -/
def withLatest (entry : RegistryEntry) : RegistryEntry :=
  if entry.tags.items = [] then entry
  else { entry with tags := entry.tags.set "latest" (pickLatestTag entry.tags) }

/-- `build_registry(modules, root, write)`. -/
def buildRegistry (root : List String) (modules : List ModuleInfo) (write : Bool) :
    Io Registry := do
  let registry ← registerModules root write PyDict.empty modules
  pure (registry.mapValues withLatest)

/-! ### `write_registry` and `rebuild_registry_once` -/

/-- The manifest as the JSON value `json.dumps` is given. -/
def registryJson (registry : Registry) : Json :=
  .object (registry.items.map fun (name, entry) =>
    (name, .object
      [("tags", .object (entry.tags.items.map fun (tag, sha) => (tag, .str sha))),
       ("hashes", .object (entry.hashes.items.map fun (sha, loc) =>
          (sha, .object [("tag", .str loc.tag), ("path", .str loc.path)])))]))

/-- The UTF-8 bytes of a text. -/
def utf8 (s : String) : List UInt8 := s.toUTF8.toList

/-- `write_registry(root, registry)`: write `registry.json.tmp`, then rename it over
`registry.json`. Either failure is a `BootstrapError`. -/
def writeRegistry (rt : Runtime) (root : List String) (registry : Registry) : Io Unit := do
  let tmp := joinPath root "registry.json.tmp"
  let target := joinPath root "registry.json"
  let writeFailed := fun e : OSError => PyExc.bootstrap ("write registry: " ++ e.text)
  Io.fs writeFailed (writeBytes · tmp (utf8 (rt.dumps (registryJson registry) ++ "\n")))
  Io.fs writeFailed (replace · tmp target)

/-- `rebuild_registry_once(root, write)` of `bootstrape.py`: discover, refuse an empty root, build,
write the manifest and report. -/
def rebuildRegistryOnce (host : Host) (rt : Runtime) (root : List String) (write : Bool) :
    Io Registry := do
  let t ← Io.tree
  let modules ← Io.ofExcept (discoverModules host rt t root)
  if modules.isEmpty then
    Io.raise (.bootstrap ("no JavaScript strategies found under " ++ pathStr root))
  let registry ← buildRegistry root modules write
  writeRegistry rt root registry
  Io.print ("registry.json generated for " ++ toString registry.size ++ " strategies under " ++
    pathStr root)
  if !write then
    Io.print "filesystem left untouched (pass --write to reorganize)"
  pure registry

end StrategyBootstrap
