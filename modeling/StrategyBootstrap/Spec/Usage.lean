import StrategyBootstrap.Spec.Registry
import StrategyBootstrap.Spec.Utf8

/-!
# `StrategyBootstrap.Spec.Usage`: reconciling the manifest with a usage export

This module translates `read_usage`, `extract_usage_from_payload` and `report_usage`.

`report_usage` first folds the records into an index, lowered and trimmed strategy ↦ trimmed hash
↦ record, where a later record replaces an earlier one (`usageIndex`). It then walks the manifest
and keeps each `(name, tag, hash)` whose record is missing or has a count of `0`
(`unusedRevisions`). It prints these sorted (`usageReport`). The count is
`int(record.get("count", 0))`, and a `TypeError` or `ValueError` from it reads as `0`. An
`OverflowError`, from an infinite count, is not caught.
-/

set_option autoImplicit false

namespace StrategyBootstrap

section
variable (rt : Runtime)

/-- `extract_usage_from_payload(payload, source)`: decode the export, take its `usage` member when
it is a `dict` that has one, and require a list. -/
def extractUsageFromPayload (payload source : String) : Except PyExc (List Json) := do
  let data ←
    rt.loadsWith (fun e => .bootstrap ("usage export " ++ source ++ " invalid JSON: " ++ e))
    payload
  let usage := match data with
    | .object fields => (lookupKey "usage" fields).getD data
    | other => other
  match usage with
  | .array items => pure items
  | _ => .error (.bootstrap ("usage export " ++ source ++ " missing usage array"))

/-- `str(Path(s))`: the text pathlib makes of `s`. -/
def pathText (s : String) : String :=
  if s.data.head? = some '/' then pathStr (segments s) else asPosix (segments s)

/-- `read_usage(source, output_path)`. No source means no usage. An `http://` or `https://` source
is fetched and decoded, and the payload is saved to `output_path` when one is given; an `OSError`
of the save leaves `read_usage`. Any other source is read as a text file, and its `OSError` is a
`BootstrapError`. Both paths are relative to the working directory, and an `OSError` names them as
given. Bytes that are not UTF-8 raise `UnicodeDecodeError`, which nothing catches. -/
def readUsage (host : Host) (source : Option String) (outputPath : String) :
    Io (Option (List Json)) :=
  match source with
  | none => pure none
  | some src =>
    if src = "" then pure none
    else if "http://".data.isPrefixOf src.data || "https://".data.isPrefixOf src.data then
      match host.urlopen src with
      | .error e => Io.raise (.bootstrap ("fetch usage from " ++ src ++ ": " ++ e))
      | .ok body => do
        let payload ← Io.ofExcept (decodeUtf8 body)
        if outputPath ≠ "" then
          Io.fs .os fun t => (writeBytes t (joinPath host.cwd outputPath) (utf8 payload)).mapError
            fun (e, t') => (e.named (pathText outputPath), t')
        Io.ofExcept (some <$> extractUsageFromPayload rt payload src)
    else do
      let t ← Io.tree
      let bytes ← Io.ofExcept ((readBytes t (joinPath host.cwd src)).mapError fun e =>
        (e.named (pathText src)).raise fun e =>
          .bootstrap ("read usage export " ++ pathText src ++ ": " ++ e.text))
      let payload ← Io.ofExcept (readText bytes)
      Io.ofExcept (some <$> extractUsageFromPayload rt payload (pathText src))

/-- The index `report_usage` builds: lowered, trimmed strategy ↦ trimmed hash ↦ record. -/
abbrev UsageIndex := PyDict String (PyDict String Json)

/-- The strategy key of a record: `str(entry.get("strategy", "")).strip().lower()`. -/
def strategyKey (strategy : Json) : String := rt.lower (strip (pyStr rt strategy))

/-- The hash key of a record: `str(entry.get("hash", "")).strip()`. -/
def hashKey (hash : Json) : String := strip (pyStr rt hash)

/-- One record of the index loop. A record with a blank strategy or hash is skipped. A record that
is not a `dict` raises `AttributeError`. -/
def indexRecord (index : UsageIndex) (entry : Json) : Except PyExc UsageIndex := do
  let strategy ← entry.get "strategy" (.str "")
  let hash ← entry.get "hash" (.str "")
  if strategyKey rt strategy = "" ∨ hashKey rt hash = "" then pure index
  else pure (index.set (strategyKey rt strategy)
    (((index.get? (strategyKey rt strategy)).getD PyDict.empty).set (hashKey rt hash) entry))

/-- The index of all records, in order. -/
def usageIndex (usage : List Json) : Except PyExc UsageIndex :=
  usage.foldlM (indexRecord rt) PyDict.empty

/-- `int(usage_entry.get("count", 0))`, with `TypeError` and `ValueError` read as `0`. -/
def recordCount (record : Json) : Except PyExc Int := do
  let count ← record.get "count" (.int 0)
  match pyInt rt count with
  | .ok n => pure n
  | .error .overflow => .error (.overflow "cannot convert float infinity to integer")
  | .error _ => pure 0

/-- Whether `report_usage` reports the revision `hash` of the name `normalized`: it has no record,
or its record's count is `0`. -/
def revisionUnused (index : UsageIndex) (normalized hash : String) : Except PyExc Bool :=
  match ((index.get? normalized).getD PyDict.empty).get? hash with
  | none => pure true
  | some record => do
    let count ← recordCount rt record
    pure (count = 0)

/-- The inner loop over one name's `hashes`. The tag printed is the location's tag, or
`(untagged)` when it is empty. -/
def unusedInEntry (index : UsageIndex) (name : String) :
    List (String × Location) → Except PyExc (List (String × String × String))
  | [] => pure []
  | (hash, loc) :: rest => do
    let unused ← revisionUnused rt index (rt.lower name) hash
    let tail ← unusedInEntry index name rest
    pure (if unused then (name, pyOr loc.tag "(untagged)", hash) :: tail else tail)

/-- The outer loop over the manifest's names. -/
def unusedRevisions (index : UsageIndex) :
    List (String × RegistryEntry) → Except PyExc (List (String × String × String))
  | [] => pure []
  | (name, entry) :: rest => do
    let here ← unusedInEntry rt index name entry.hashes.items
    let tail ← unusedRevisions index rest
    pure (here ++ tail)

end

/-- Python's `a < b` on `(name, tag, hash)` tuples: the first differing component decides. -/
def tripleLt : String × String × String → String × String × String → Bool
  | (a₁, a₂, a₃), (b₁, b₂, b₃) =>
    if a₁ ≠ b₁ then textLt a₁ b₁ else if a₂ ≠ b₂ then textLt a₂ b₂ else textLt a₃ b₃

/-- Python's `a <= b` on the tuples. -/
def tripleLe (a b : String × String × String) : Bool := !tripleLt b a

/-- The line `report_usage` prints for an unused revision. -/
def unusedLine : String × String × String → String
  | (name, tag, hash) => "  - " ++ name ++ " " ++ tag ++ " [" ++ hash ++ "]"

/-- The lines `report_usage(usage, registry)` prints, after an empty line: a line saying that
nothing is unused, or a header and the unused revisions, sorted. -/
def usageReport (rt : Runtime) (usage : List Json) (registry : Registry) :
    Except PyExc (List String) := do
  let index ← usageIndex rt usage
  let unused ← unusedRevisions rt index registry.items
  if unused.isEmpty then
    pure ["", "usage report: no unused revisions detected (all tracked hashes have usage)."]
  else
    pure ("" :: "usage report: revisions with zero running instances:" ::
      (unused.insertionSort (fun a b => tripleLe a b)).map unusedLine)

/-- `report_usage(usage, registry)`. -/
def reportUsage (rt : Runtime) (usage : List Json) (registry : Registry) : Io Unit := do
  let lines ← Io.ofExcept (usageReport rt usage registry)
  Io.printLines lines

end StrategyBootstrap
