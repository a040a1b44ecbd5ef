import Mathlib.Data.List.Nodup

/-!
# `StrategyBootstrap.Spec.Python`: the Python values the bootstrap tool works on

The bootstrap tool (`strategies/bootstrap_strategies.py`, and its twin `strategies/bootstrape.py`)
reads decoded JSON, trims and lowers text, and keeps its results in `dict`s. This module fixes the
Lean side of each.

* `Json` is what `json.loads` returns. An integer literal decodes to an `int`, any other number to a
  `float`. A float is kept as its exact value `m * 2 ^ e`, or as an infinity or `NaN`, which
  `json.loads` also accepts.
* `PyDict` is a `dict`: its items in insertion order, each key once. `PyDict.set` is `d[k] = v`, and
  a key that is already there keeps its place.
* `strip`, `pyStr` and `pyInt` are `str.strip()`, `str(x)` and `int(x)` on decoded values. `strip`
  removes the characters `str.isspace` accepts.
* `Runtime` holds the built-ins the model does not spell out: `str.lower`, `str()` of floats and
  containers, `int()` of a string, the SHA-256 digest and the `json` codec. Each theorem holds for
  every `Runtime`. `str.lower` comes with the one fact of it the proofs use.
* `PyExc` is an exception, by the class that decides which `except` clause catches it.
-/

set_option autoImplicit false

namespace StrategyBootstrap

/-! ### Exceptions -/

/-- The `errno` values the tool's filesystem calls can fail with: those the kernel gives for the
paths it is handed, and those a device gives when it does not carry a call out (a permission, a
read-only or full filesystem, a quota, a failing disk). -/
inductive Errno where
  | perm
  | noent
  | io
  | acces
  | busy
  | exist
  | notdir
  | isdir
  | nospc
  | rofs
  | dquot
  deriving DecidableEq, Repr

/-- The number of an `errno` on Linux. -/
def Errno.code : Errno → Nat
  | .perm => 1
  | .noent => 2
  | .io => 5
  | .acces => 13
  | .busy => 16
  | .exist => 17
  | .notdir => 20
  | .isdir => 21
  | .nospc => 28
  | .rofs => 30
  | .dquot => 122

/-- The message `strerror` gives for an `errno`. -/
def Errno.strerror : Errno → String
  | .perm => "Operation not permitted"
  | .noent => "No such file or directory"
  | .io => "Input/output error"
  | .acces => "Permission denied"
  | .busy => "Device or resource busy"
  | .exist => "File exists"
  | .notdir => "Not a directory"
  | .isdir => "Is a directory"
  | .nospc => "No space left on device"
  | .rofs => "Read-only file system"
  | .dquot => "Disk quota exceeded"

/-- An `OSError` raised by a filesystem call on the path `filename`. -/
structure OSError where
  errno : Errno
  filename : String
  deriving DecidableEq, Repr

/-- `str(exc)` of an `OSError`: `[Errno 2] No such file or directory: '/a/b'`. -/
def OSError.text (e : OSError) : String :=
  "[Errno " ++ toString e.errno.code ++ "] " ++ e.errno.strerror ++ ": '" ++ e.filename ++ "'"

/-- An exception of the tool, by its class. `bootstrap` is a `BootstrapError`, the one class `main`
catches. The others are raised by Python itself and no handler of the tool catches them:
`ValueError` (of `relative_to`, of a path that holds a NUL character, of an integer literal too long
for `json.loads`), `UnicodeDecodeError` (a `ValueError` of its own class), `RecursionError` (of
`json.loads` on deeply nested input) and `RuntimeError` (of `Path.expanduser`). -/
inductive PyExc where
  | bootstrap (message : String)
  | os (error : OSError)
  | attribute (message : String)
  | value (message : String)
  | unicodeDecode (message : String)
  | overflow (message : String)
  | recursion (message : String)
  | runtime (message : String)
  deriving DecidableEq, Repr

/-! ### Decoded JSON -/

/-- A float that `json.loads` can return: the finite value `mantissa * 2 ^ exponent`, an infinity
(`Infinity`, `-Infinity`, or a literal too large for a double), or `NaN`. -/
inductive PyFloat where
  | finite (mantissa exponent : Int)
  | inf (negative : Bool)
  | nan
  deriving DecidableEq, Repr

/-- A value `json.loads` returns. An `object` lists the items of the decoded `dict`, so its keys are
distinct: `json.loads` keeps the last value of a repeated key. -/
inductive Json where
  | null
  | bool (b : Bool)
  | int (i : Int)
  | float (x : PyFloat)
  | str (s : String)
  | array (items : List Json)
  | object (fields : List (String × Json))
  deriving Repr

/-- The name of the Python class of a decoded value, as error messages print it. -/
def Json.typeName : Json → String
  | .null => "NoneType"
  | .bool _ => "bool"
  | .int _ => "int"
  | .float _ => "float"
  | .str _ => "str"
  | .array _ => "list"
  | .object _ => "dict"

/-- The value of the first item with key `k`: `d.get(k)` on the items of a `dict`. -/
def lookupKey {κ ν : Type} [DecidableEq κ] (k : κ) : List (κ × ν) → Option ν
  | [] => none
  | (k', v) :: rest => if k' = k then some v else lookupKey k rest

/-- `x.get(key, default)`. A `dict` looks the key up. Every other value has no `get` method, and the
call raises `AttributeError`. -/
def Json.get (x : Json) (key : String) (default : Json) : Except PyExc Json :=
  match x with
  | .object fields => .ok ((lookupKey key fields).getD default)
  | other => .error (.attribute ("'" ++ other.typeName ++ "' object has no attribute 'get'"))

/-- `get` on a `dict` never raises. -/
@[simp]
theorem Json.get_object (fields : List (String × Json)) (key : String) (default : Json) :
    (Json.object fields).get key default = .ok ((lookupKey key fields).getD default) := rfl

/-! ### Text -/

/-- `c.isspace()`: the characters of the Unicode classes Python counts as white space. -/
def isPySpace (c : Char) : Bool :=
  let n := c.val.toNat
  (9 ≤ n && n ≤ 13) || (28 ≤ n && n ≤ 32) || n == 0x85 || n == 0xA0 || n == 0x1680 ||
    (0x2000 ≤ n && n ≤ 0x200A) || n == 0x2028 || n == 0x2029 || n == 0x202F ||
    n == 0x205F || n == 0x3000

/-- `s.strip()`: `s` without its leading and trailing white space. -/
def strip (s : String) : String :=
  ⟨((s.data.dropWhile isPySpace).reverse.dropWhile isPySpace).reverse⟩

/-- A string is blank after `strip` exactly when all its characters are white space. -/
theorem strip_eq_empty_iff (s : String) : strip s = "" ↔ ∀ c ∈ s.data, isPySpace c = true := by
  have key : ∀ l : List Char, l.dropWhile isPySpace = [] ↔ ∀ c ∈ l, isPySpace c = true := by
    intro l
    induction l with
    | nil => simp
    | cons c l ih => by_cases hc : isPySpace c <;> simp [List.dropWhile_cons, hc, ih]
  have hstr : strip s = "" ↔ ((s.data.dropWhile isPySpace).reverse.dropWhile isPySpace) = [] := by
    rw [← List.reverse_eq_nil_iff]
    exact ⟨congrArg String.data, congrArg String.mk⟩
  rw [hstr, key, ← key s.data]
  constructor
  · intro h
    by_contra hne
    obtain ⟨c, l, hcl⟩ := List.exists_cons_of_ne_nil hne
    have hc : isPySpace c = false := by
      have := List.head_dropWhile_not isPySpace s.data (by simp [hcl])
      simpa [hcl] using this
    have hmem : c ∈ (s.data.dropWhile isPySpace).reverse := by simp [hcl]
    simpa [hc] using h c hmem
  · intro h c hc
    simp [h] at hc

/-- A stripped string is blank only if it was blank before the second `strip`: its first character,
if any, is not white space. -/
theorem strip_strip_eq_empty {s : String} (h : strip (strip s) = "") : strip s = "" := by
  rw [strip_eq_empty_iff] at h
  by_contra hne
  have hE : (s.data.dropWhile isPySpace).reverse.dropWhile isPySpace ≠ [] := fun hE =>
    hne (by rw [strip, hE]; rfl)
  have hhead := List.head_dropWhile_not isPySpace _ hE
  rw [h _ (by simp [strip])] at hhead
  cases hhead

/-- Why `json.loads` failed. `decode` is a `JSONDecodeError` (`Expecting value: line 1 column 1
(char 0)`); `recursion` is the `RecursionError` of input nested deeper than the recursion limit;
`digits` is the `ValueError` of an integer literal of more than 4300 digits
(`Exceeds the limit (4300 digits) for integer string conversion: ...`). -/
inductive LoadsError where
  | decode (message : String)
  | recursion (message : String)
  | digits (message : String)
  deriving DecidableEq, Repr

/-! ### The built-ins left open -/

/-- The Python built-ins the model takes as given. Every theorem of the development holds for each
`Runtime`, so for CPython's.

* `lower` is `str.lower`. The only fact of it the proofs need is `lower_lower_append_js`. It holds
  for CPython: a lowered string holds no capital sigma, the one character whose lowercase depends on
  its neighbours, and every other character of it is its own lowercase.
* `repr` is `str(x)` of a float, a list or a `dict`.
* `parseInt` is `int(s)` of a string: `none` where it raises `ValueError`.
* `sha256` is `hashlib.sha256(b).hexdigest()`.
* `loads` is `json.loads`: the decoded value, or why it failed (`LoadsError`), with the text of
  the exception. `dumps` is `json.dumps(x, indent=2)`. -/
structure Runtime where
  lower : String → String
  lower_lower_append_js : ∀ s, lower (lower s ++ ".js") = lower s ++ ".js"
  repr : Json → String
  parseInt : String → Option Int
  sha256 : List UInt8 → String
  loads : String → Except LoadsError Json
  dumps : Json → String

/-- `try: json.loads(s) except json.JSONDecodeError as exc: raise wrap(str(exc))`: a
`JSONDecodeError` is raised as `wrap` turns its text; `RecursionError` and the `ValueError` of an
over-long integer pass through. -/
def Runtime.loadsWith (rt : Runtime) (wrap : String → PyExc) (s : String) : Except PyExc Json :=
  match rt.loads s with
  | .ok value => .ok value
  | .error (.decode message) => .error (wrap message)
  | .error (.recursion message) => .error (.recursion message)
  | .error (.digits message) => .error (.value message)

section
variable (rt : Runtime)

/-- `str(x)` of a decoded value. `None` prints as `None`, so a `null` becomes the text `"None"`. -/
def pyStr : Json → String
  | .null => "None"
  | .bool b => if b then "True" else "False"
  | .int i => toString i
  | .str s => s
  | x => rt.repr x

/-- Why `int(x)` failed: `TypeError`, `ValueError` or `OverflowError`. -/
inductive IntError where
  | type
  | value
  | overflow
  deriving DecidableEq, Repr

/-- `int(x)` of a float: the value rounded toward zero. An infinity overflows, `NaN` is a value
error. -/
def PyFloat.toInt : PyFloat → Except IntError Int
  | .finite m (.ofNat k) => .ok (m * Int.pow 2 k)
  | .finite m (.negSucc k) => .ok (m.tdiv (Int.pow 2 (k + 1)))
  | .inf _ => .error .overflow
  | .nan => .error .value

/-- `int(x)` of a decoded value. -/
def pyInt : Json → Except IntError Int
  | .null => .error .type
  | .bool b => .ok (if b then 1 else 0)
  | .int i => .ok i
  | .float x => x.toInt
  | .str s => match rt.parseInt s with
    | some i => .ok i
    | none => .error .value
  | .array _ => .error .type
  | .object _ => .error .type

end

/-! ### Dictionaries -/

/-- A Python `dict`: its items in insertion order, each key once. -/
structure PyDict (κ ν : Type) where
  items : List (κ × ν)
  keys_nodup : (items.map Prod.fst).Nodup

namespace PyDict

variable {κ ν : Type} [DecidableEq κ]

/-- `{}`. -/
def empty : PyDict κ ν := ⟨[], List.nodup_nil⟩

/-- `d.keys()`, in insertion order. -/
def keys (d : PyDict κ ν) : List κ := d.items.map Prod.fst

/-- `d.values()`, in insertion order. -/
def values (d : PyDict κ ν) : List ν := d.items.map Prod.snd

/-- `d.get(k)`. -/
def get? (d : PyDict κ ν) (k : κ) : Option ν := lookupKey k d.items

/-- `d[k] = v`. A key already present keeps its place; a new key goes last. -/
def set (d : PyDict κ ν) (k : κ) (v : ν) : PyDict κ ν :=
  if hk : k ∈ d.keys then
    ⟨d.items.map (fun p => if p.1 = k then (k, v) else p), by
      have h : (d.items.map (fun p => if p.1 = k then (k, v) else p)).map Prod.fst
          = d.items.map Prod.fst := by
        rw [List.map_map]
        exact List.map_congr_left fun p _ => by by_cases hp : p.1 = k <;> simp [hp]
      rw [h]
      exact d.keys_nodup⟩
  else
    ⟨d.items ++ [(k, v)], by
      rw [List.map_append, List.nodup_append]
      exact ⟨d.keys_nodup, by simp, by simpa [keys] using hk⟩⟩

/-- Apply `f` to every value, in place: the loop `for entry in d.values(): ...` that mutates each
entry. -/
def mapValues {ν' : Type} (d : PyDict κ ν) (f : ν → ν') : PyDict κ ν' :=
  ⟨d.items.map (fun p => (p.1, f p.2)), by
    rw [List.map_map]
    exact d.keys_nodup⟩

/-- `len(d)`. -/
def size (d : PyDict κ ν) : Nat := d.items.length

theorem lookupKey_eq_some_iff (l : List (κ × ν)) (hl : (l.map Prod.fst).Nodup) (k : κ) (v : ν) :
    lookupKey k l = some v ↔ (k, v) ∈ l := by
  induction l with
  | nil => simp [lookupKey]
  | cons p l ih =>
    obtain ⟨k', v'⟩ := p
    simp only [List.map_cons, List.nodup_cons, List.mem_map] at hl
    by_cases hk : k' = k
    · subst hk
      have hnot : ∀ w, (k', w) ∉ l := fun w hw => hl.1 ⟨(k', w), hw, rfl⟩
      simp [lookupKey, hnot, eq_comm]
    · simp [lookupKey, hk, Ne.symm hk, ih hl.2]

theorem lookupKey_isSome_iff (l : List (κ × ν)) (k : κ) :
    (lookupKey k l).isSome ↔ k ∈ l.map Prod.fst := by
  induction l with
  | nil => simp [lookupKey]
  | cons p l ih =>
    obtain ⟨k', v'⟩ := p
    by_cases hk : k' = k
    · simp [lookupKey, hk]
    · simp [lookupKey, hk, Ne.symm hk, ih]

@[simp]
theorem get?_empty (k : κ) : (empty : PyDict κ ν).get? k = none := rfl

omit [DecidableEq κ] in
@[simp]
theorem keys_empty : (empty : PyDict κ ν).keys = [] := rfl

/-- A lookup finds the item of that key. -/
theorem get?_eq_some_iff (d : PyDict κ ν) (k : κ) (v : ν) : d.get? k = some v ↔ (k, v) ∈ d.items :=
  lookupKey_eq_some_iff d.items d.keys_nodup k v

/-- A lookup succeeds exactly on the keys. -/
theorem isSome_get?_iff (d : PyDict κ ν) (k : κ) : (d.get? k).isSome ↔ k ∈ d.keys :=
  lookupKey_isSome_iff d.items k

theorem get?_eq_none_iff (d : PyDict κ ν) (k : κ) : d.get? k = none ↔ k ∉ d.keys := by
  rw [← isSome_get?_iff, Option.not_isSome_iff_eq_none]

/-- The items after `d[k] = v`: the new item, and the old items of other keys. -/
theorem mem_items_set (d : PyDict κ ν) (k : κ) (v : ν) (k' : κ) (w : ν) :
    (k', w) ∈ (d.set k v).items ↔ (k' = k ∧ w = v) ∨ (k' ≠ k ∧ (k', w) ∈ d.items) := by
  unfold set
  split
  · rename_i hk
    simp only [List.mem_map]
    constructor
    · rintro ⟨⟨a, b⟩, hab, he⟩
      by_cases ha : a = k
      · simp only [ha, if_true, Prod.mk.injEq] at he
        exact Or.inl ⟨he.1.symm, he.2.symm⟩
      · simp only [ha, if_false, Prod.mk.injEq] at he
        obtain ⟨rfl, rfl⟩ := he
        exact Or.inr ⟨ha, hab⟩
    · rintro (⟨rfl, rfl⟩ | ⟨hne, hmem⟩)
      · obtain ⟨w', hw'⟩ : ∃ w', (k', w') ∈ d.items := by simpa [keys] using hk
        exact ⟨(k', w'), hw', by simp⟩
      · exact ⟨(k', w), hmem, by simp [hne]⟩
  · rename_i hk
    simp only [List.mem_append, List.mem_singleton, Prod.mk.injEq]
    constructor
    · rintro (h | ⟨rfl, rfl⟩)
      · refine Or.inr ⟨?_, h⟩
        rintro rfl
        exact hk (List.mem_map.mpr ⟨_, h, rfl⟩)
      · exact Or.inl ⟨rfl, rfl⟩
    · rintro (⟨rfl, rfl⟩ | ⟨-, h⟩)
      · exact Or.inr ⟨rfl, rfl⟩
      · exact Or.inl h

/-- `d[k] = v` changes the lookup of `k` and only that. -/
@[simp]
theorem get?_set (d : PyDict κ ν) (k : κ) (v : ν) (k' : κ) :
    (d.set k v).get? k' = if k' = k then some v else d.get? k' := by
  apply Option.ext
  intro w
  simp only [Option.mem_def]
  rw [get?_eq_some_iff, mem_items_set]
  by_cases h : k' = k
  · simp [h, eq_comm]
  · simp [h, get?_eq_some_iff]

/-- The keys after `d[k] = v`. -/
@[simp]
theorem mem_keys_set (d : PyDict κ ν) (k : κ) (v : ν) (k' : κ) :
    k' ∈ (d.set k v).keys ↔ k' = k ∨ k' ∈ d.keys := by
  rw [← isSome_get?_iff, ← isSome_get?_iff, get?_set]
  by_cases h : k' = k <;> simp [h]

/-- `mapValues` applies the function to the value found. -/
@[simp]
theorem get?_mapValues {ν' : Type} (d : PyDict κ ν) (f : ν → ν') (k : κ) :
    (d.mapValues f).get? k = (d.get? k).map f := by
  show lookupKey k (d.items.map (fun p => (p.1, f p.2))) = (lookupKey k d.items).map f
  induction d.items with
  | nil => rfl
  | cons p l ih =>
    obtain ⟨k', v'⟩ := p
    by_cases hk : k' = k <;> simp [lookupKey, hk, ih]

omit [DecidableEq κ] in
@[simp]
theorem keys_mapValues {ν' : Type} (d : PyDict κ ν) (f : ν → ν') :
    (d.mapValues f).keys = d.keys := by
  simp [keys, mapValues, Function.comp_def]

end PyDict

end StrategyBootstrap
