import Mathlib.Data.List.Infix
import Mathlib.Data.List.Dedup
import StrategyBootstrap.Spec.Path

/-!
# `StrategyBootstrap.Spec.FileTree`: the filesystem and the tool's effects

A `FileTree` is the part of a Linux filesystem the tool can see: its regular files with their bytes,
its directories, each by its resolved path, and the device they are on. The structure carries what
every real tree satisfies: `/` is a directory, the parent of every entry is a directory, no path is
both a file and a directory, and every name along a path is a `GoodName`. There are no symbolic
links; the results that need that say so.

The device (`Disk`) decides, from the files and directories, which calls it does not carry out. It
may refuse a call with an `errno` (`EACCES`, `EROFS`, `ENOSPC`, ...) before the kernel looks at the
path, and it may cut a write short once the file is created or truncated. `Disk.reliable` carries
every call out.

The kernel looks a path up as Linux does (`lookup`): from `/`, every part but the last must reach a
directory, or the call fails with `ENOENT` or `ENOTDIR`. The last part names an entry of the
directory reached, or is `..`. The entry reached is `osPath` of the path.

The calls the tool makes are the functions below. Each fails as Linux and CPython make it fail, and
a path that holds a NUL character raises `ValueError` before the kernel sees it.

* `readBytes` is `Path.read_bytes`. `writeBytes` is `Path.write_bytes`: it creates or truncates the
  file, then writes.
* `mkdir` is `os.mkdir`. `mkdirs` is `Path.mkdir(parents=True, exist_ok=True)`, which calls
  `os.mkdir` on the path and, after `ENOENT`, makes the parent the same way and tries again.
* `unlink` is `Path.unlink`, and `replace` is `Path.replace` (`rename(2)`).
* `rglobJs` is `Path.rglob("*.js")`. It lists directories as well as files: a directory whose name
  ends in `.js` matches the pattern too.

A call returns the tree it leaves, or its error together with the tree it leaves: a write cut short,
and the directories `mkdirs` made before it failed, stay on disk.

`Io` is a step of the tool. It reads and changes a `World`, which is the tree together with the text
the tool wrote to standard output and to standard error, and it returns a value or raises a
`PyExc`. An exception keeps the world it reached, so a move that failed halfway stays done.
-/

set_option autoImplicit false

namespace StrategyBootstrap

/-! ### The device -/

/-- A call the device may not carry out, by the entry it acts on (`osPath` of its path). -/
inductive FsCall where
  /-- `open` for reading. -/
  | read (q : List String)
  /-- `open` with `O_CREAT | O_TRUNC`, then the write of `bytes`. -/
  | write (q : List String) (bytes : List UInt8)
  | mkdir (q : List String)
  | unlink (q : List String)
  | rename (src dst : List String)
  deriving DecidableEq

/-- How a call the device does not carry out ends. -/
inductive Fault where
  /-- The call fails with `errno` and changes nothing. -/
  | refuse (errno : Errno)
  /-- A write creates or truncates its file and stores its first `written` bytes, then fails with
  `errno` (`ENOSPC`, `EDQUOT`, `EIO`). A call that writes no bytes is refused instead. -/
  | cut (errno : Errno) (written : Nat)
  deriving DecidableEq

/-- The `errno` a fault ends its call with. -/
def Fault.errno : Fault → Errno
  | .refuse e => e
  | .cut e _ => e

/-- A device: for the files and the directories of the tree, the fault of each call, if any. -/
abbrev Disk := List (List String × List UInt8) → List (List String) → FsCall → Option Fault

/-- The device that carries every call out. -/
def Disk.reliable : Disk := fun _ _ _ => none

/-- The files and directories of a filesystem, by resolved path, and the device. -/
structure FileTree where
  files : List (List String × List UInt8)
  dirs : List (List String)
  disk : Disk
  root_mem : [] ∈ dirs
  dir_parent : ∀ d ∈ dirs, d.dropLast ∈ dirs
  file_parent : ∀ f ∈ files, f.1.dropLast ∈ dirs
  file_not_dir : ∀ f ∈ files, f.1 ∉ dirs
  files_good : ∀ f ∈ files, ∀ s ∈ f.1, GoodName s
  dirs_good : ∀ d ∈ dirs, ∀ s ∈ d, GoodName s

namespace FileTree

/-- The bytes of the file at a resolved path. -/
def read? (t : FileTree) (q : List String) : Option (List UInt8) := lookupKey q t.files

/-- The fault of a call on the tree as it is. -/
def fault (t : FileTree) (c : FsCall) : Option Fault := t.disk t.files t.dirs c

/-- A fresh filesystem on a reliable device: `/` alone. -/
def empty : FileTree :=
  ⟨[], [[]], Disk.reliable, List.mem_singleton_self _, by simp, by simp, by simp, by simp, by simp⟩

/-- Every path the tree holds, files first. -/
def entries (t : FileTree) : List (List String) := t.files.map Prod.fst ++ t.dirs

/-- The tree with the file `b` at the name `s` of the directory `d`, where no directory is. -/
def write (t : FileTree) (d : List String) (s : String) (b : List UInt8) (hd : d ∈ t.dirs)
    (hs : GoodName s) (hnot : d ++ [s] ∉ t.dirs) : FileTree where
  files := (d ++ [s], b) :: t.files.filter (fun f => f.1 ≠ d ++ [s])
  dirs := t.dirs
  disk := t.disk
  root_mem := t.root_mem
  dir_parent := t.dir_parent
  file_parent f hf := by
    rcases List.mem_cons.mp hf with rfl | hf
    · simpa using hd
    · exact t.file_parent f (List.mem_of_mem_filter hf)
  file_not_dir f hf := by
    rcases List.mem_cons.mp hf with rfl | hf
    · exact hnot
    · exact t.file_not_dir f (List.mem_of_mem_filter hf)
  files_good f hf := by
    rcases List.mem_cons.mp hf with rfl | hf
    · simpa [or_imp, forall_and] using And.intro (t.dirs_good d hd) hs
    · exact t.files_good f (List.mem_of_mem_filter hf)
  dirs_good := t.dirs_good

/-- The tree without a file at `q`. -/
def remove (t : FileTree) (q : List String) : FileTree where
  files := t.files.filter (fun f => f.1 ≠ q)
  dirs := t.dirs
  disk := t.disk
  root_mem := t.root_mem
  dir_parent := t.dir_parent
  file_parent f hf := t.file_parent f (List.mem_of_mem_filter hf)
  file_not_dir f hf := t.file_not_dir f (List.mem_of_mem_filter hf)
  files_good f hf := t.files_good f (List.mem_of_mem_filter hf)
  dirs_good := t.dirs_good

/-- The tree with a directory at the name `s` of the directory `d`, where no file is. -/
def addDir (t : FileTree) (d : List String) (s : String) (hd : d ∈ t.dirs) (hs : GoodName s)
    (hfile : t.read? (d ++ [s]) = none) : FileTree where
  files := t.files
  dirs := (d ++ [s]) :: t.dirs
  disk := t.disk
  root_mem := List.mem_cons_of_mem _ t.root_mem
  dir_parent e he := by
    rcases List.mem_cons.mp he with rfl | he
    · rw [List.dropLast_concat]
      exact List.mem_cons_of_mem _ hd
    · exact List.mem_cons_of_mem _ (t.dir_parent e he)
  file_parent f hf := List.mem_cons_of_mem _ (t.file_parent f hf)
  file_not_dir f hf he := by
    rcases List.mem_cons.mp he with he | he
    · have hsome : (t.read? f.1).isSome := by
        rw [read?, PyDict.lookupKey_isSome_iff]
        exact List.mem_map_of_mem _ hf
      rw [he, hfile] at hsome
      exact absurd hsome (by simp)
    · exact t.file_not_dir f hf he
  files_good := t.files_good
  dirs_good e he := by
    rcases List.mem_cons.mp he with rfl | he
    · simpa [or_imp, forall_and] using And.intro (t.dirs_good d hd) hs
    · exact t.dirs_good e he

theorem lookupKey_filter_ne (l : List (List String × List UInt8)) (q p : List String) :
    lookupKey p (l.filter (fun f => f.1 ≠ q)) = if p = q then none else lookupKey p l := by
  induction l with
  | nil => simp [lookupKey]
  | cons f l ih =>
    obtain ⟨k, v⟩ := f
    rw [List.filter_cons]
    by_cases hk : k = q
    · subst hk
      rw [if_neg (by simp), ih]
      by_cases hp : p = k
      · simp [hp]
      · simp [lookupKey, hp, Ne.symm hp]
    · rw [if_pos (by simpa using hk), lookupKey, lookupKey, ih]
      by_cases hp : k = p
      · subst hp
        simp [hk]
      · simp [hp]

@[simp]
theorem read?_write (t : FileTree) (d : List String) (s : String) (b : List UInt8) (hd hs hnot)
    (p : List String) :
    (t.write d s b hd hs hnot).read? p = if p = d ++ [s] then some b else t.read? p := by
  show lookupKey p ((d ++ [s], b) :: t.files.filter (fun f => f.1 ≠ d ++ [s])) = _
  by_cases hp : p = d ++ [s]
  · simp [lookupKey, hp]
  · rw [lookupKey, if_neg (Ne.symm hp), lookupKey_filter_ne, if_neg hp, if_neg hp]
    rfl

@[simp]
theorem read?_remove (t : FileTree) (q p : List String) :
    (t.remove q).read? p = if p = q then none else t.read? p :=
  lookupKey_filter_ne _ _ _

@[simp]
theorem read?_addDir (t : FileTree) (d : List String) (s : String) (hd hs hfile) (p : List String) :
    (t.addDir d s hd hs hfile).read? p = t.read? p := rfl

@[simp]
theorem dirs_write (t : FileTree) (d : List String) (s : String) (b : List UInt8) (hd hs hnot) :
    (t.write d s b hd hs hnot).dirs = t.dirs := rfl

@[simp]
theorem dirs_remove (t : FileTree) (q : List String) : (t.remove q).dirs = t.dirs := rfl

@[simp]
theorem dirs_addDir (t : FileTree) (d : List String) (s : String) (hd hs hfile) :
    (t.addDir d s hd hs hfile).dirs = (d ++ [s]) :: t.dirs := rfl

@[simp]
theorem disk_write (t : FileTree) (d : List String) (s : String) (b : List UInt8) (hd hs hnot) :
    (t.write d s b hd hs hnot).disk = t.disk := rfl

@[simp]
theorem disk_remove (t : FileTree) (q : List String) : (t.remove q).disk = t.disk := rfl

@[simp]
theorem disk_addDir (t : FileTree) (d : List String) (s : String) (hd hs hfile) :
    (t.addDir d s hd hs hfile).disk = t.disk := rfl

/-- A path is a file of the tree exactly when it is read. -/
theorem mem_files_iff (t : FileTree) (q : List String) :
    q ∈ t.files.map Prod.fst ↔ (t.read? q).isSome :=
  (PyDict.lookupKey_isSome_iff t.files q).symm

/-- A file is not a directory. -/
theorem not_mem_dirs_of_read? (t : FileTree) {q : List String} {b : List UInt8}
    (h : t.read? q = some b) : q ∉ t.dirs := by
  obtain ⟨f, hf, rfl⟩ := List.mem_map.mp ((mem_files_iff t q).mpr (by simp [h]))
  exact t.file_not_dir f hf

/-! ### The kernel's lookup -/

/-- Where the kernel's lookup of a path ends: a directory of the tree, and the last part of the
path, if it has one. That part names an entry of the directory, or is `..`. -/
structure Slot (t : FileTree) where
  dir : List String
  dir_mem : dir ∈ t.dirs
  last : Option String

/-- The entry a slot stands for: the directory for `/`, its parent for `..`, and otherwise the entry
the last part names. -/
def Slot.entry {t : FileTree} (sl : t.Slot) : List String :=
  match sl.last with
  | none => sl.dir
  | some s => walkStep sl.dir s

/-- The kernel's walk to a path's last part (`path_parentat` on Linux): from the directory `dir`,
each part but the last goes to the entry `walkStep` gives, and that entry must be a directory. -/
def parentAt (t : FileTree) (dir : List String) (hdir : dir ∈ t.dirs) :
    List String → Except Errno t.Slot
  | [] => .ok ⟨dir, hdir, none⟩
  | [s] => .ok ⟨dir, hdir, some s⟩
  | s :: s' :: rest =>
    if hnext : walkStep dir s ∈ t.dirs then t.parentAt (walkStep dir s) hnext (s' :: rest)
    else .error (if (t.read? (walkStep dir s)).isSome then .notdir else .noent)

/-- The kernel's lookup of an absolute path: the walk from `/` along the parts of `str(p)`. -/
def lookup (t : FileTree) (p : List String) : Except Errno t.Slot :=
  t.parentAt [] t.root_mem (p.flatMap segments)

end FileTree

/-! ### The filesystem calls -/

/-- Whether `str(p)` holds a NUL character, which Python refuses to pass to the kernel. -/
def hasNul (p : List String) : Bool := p.any fun s => s.data.contains (Char.ofNat 0)

/-- How a filesystem call fails: with an `OSError`, or, for a path that holds a NUL character, with
the `ValueError` Python raises before it calls the kernel. -/
inductive FsError where
  | os (error : OSError)
  | nul
  deriving DecidableEq, Repr

/-- The exception a failed call raises when an `OSError` is raised as `wrap` turns it: the
`except OSError` around the call, or `PyExc.os` where nothing catches it. -/
def FsError.raise (wrap : OSError → PyExc) : FsError → PyExc
  | .os e => wrap e
  | .nul => .value "embedded null byte"

/-- The error of a call on a relative path, whose `OSError` names the text `s` the tool passed
rather than the absolute path the kernel reached. -/
def FsError.named (s : String) : FsError → FsError
  | .os e => .os { e with filename := s }
  | .nul => .nul

/-- What a call that may change the tree returns: the tree it leaves, or its error together with
the tree it leaves. -/
abbrev FsResult := Except (FsError × FileTree) FileTree

/-- The tree a call leaves, whether it returned or failed. -/
def FsResult.tree : FsResult → FileTree
  | .ok t => t
  | .error (_, t) => t

/-- `Path(p).read_bytes()`: `open` for reading, which the device may refuse, then the bytes of the
file. A directory gives `EISDIR`. -/
def readBytes (t : FileTree) (p : List String) : Except FsError (List UInt8) :=
  let fail := fun e : Errno => Except.error (FsError.os ⟨e, pathStr p⟩)
  if hasNul p then .error .nul
  else match t.fault (.read (osPath p)) with
    | some f => fail f.errno
    | none =>
      match t.lookup p with
      | .error e => fail e
      | .ok sl =>
        match t.read? sl.entry with
        | some b => .ok b
        | none => fail (if sl.entry ∈ t.dirs then .isdir else .noent)

/-- `Path(p).write_bytes(b)`: `open` with `O_CREAT | O_TRUNC`, then the write. A refused call
changes nothing. Once the file is created or truncated, a write cut short leaves the bytes before
the cut. A directory, `/` or a last part `..` gives `EISDIR`. -/
def writeBytes (t : FileTree) (p : List String) (b : List UInt8) : FsResult :=
  let fail := fun e : Errno => Except.error (FsError.os ⟨e, pathStr p⟩, t)
  if hasNul p then .error (.nul, t)
  else match t.fault (.write (osPath p) b) with
    | some (.refuse e) => fail e
    | f =>
      match t.lookup p with
      | .error e => fail e
      | .ok ⟨d, hd, some s⟩ =>
        if hs : GoodName s then
          if hnot : d ++ [s] ∈ t.dirs then fail .isdir
          else
            match f with
            | some (.cut e n) => .error (.os ⟨e, pathStr p⟩, t.write d s (b.take n) hd hs hnot)
            | _ => .ok (t.write d s b hd hs hnot)
        else fail .isdir
      | .ok ⟨_, _, none⟩ => fail .isdir

/-- `os.mkdir(p)`: one directory, in a directory that exists. An existing entry, `/` and a last
part `..` give `EEXIST`. -/
def mkdir (t : FileTree) (p : List String) : FsResult :=
  let fail := fun e : Errno => Except.error (FsError.os ⟨e, pathStr p⟩, t)
  if hasNul p then .error (.nul, t)
  else match t.fault (.mkdir (osPath p)) with
    | some f => fail f.errno
    | none =>
      match t.lookup p with
      | .error e => fail e
      | .ok ⟨d, hd, some s⟩ =>
        if hs : GoodName s then
          if hfile : t.read? (d ++ [s]) = none then
            if d ++ [s] ∈ t.dirs then fail .exist else .ok (t.addDir d s hd hs hfile)
          else fail .exist
        else fail .exist
      | .ok ⟨_, _, none⟩ => fail .exist

/-- `Path(p).is_dir()`: `stat` reaches a directory. A lookup that fails, and a path `stat` refuses
with `ValueError`, read as `False`. -/
def isDir (t : FileTree) (p : List String) : Bool :=
  !hasNul p &&
    match t.lookup p with
    | .ok sl => decide (sl.entry ∈ t.dirs)
    | .error _ => false

/-- `Path(p).mkdir(exist_ok=True)`: `os.mkdir`, where an `OSError` other than `FileNotFoundError`
is ignored when `p` is a directory. -/
def mkdirExistOk (t : FileTree) (p : List String) : FsResult :=
  match mkdir t p with
  | .error (.os e, t') =>
    if e.errno ≠ .noent ∧ isDir t' p = true then .ok t' else .error (.os e, t')
  | r => r

/-- `Path(p).mkdir(parents=True, exist_ok=True)` on the path whose parts, last first, are the list:
`os.mkdir(p)`. After `FileNotFoundError` it makes the parent, the tail of the list, the same way
and then `p` with `exist_ok=True`; `/`, its own parent, raises it. Any other `OSError` is ignored
when `p` is a directory. -/
def mkdirParents : List String → FileTree → FsResult
  | [], t => mkdirExistOk t []
  | s :: parent, t =>
    let p := (s :: parent).reverse
    match mkdir t p with
    | .error (.os e, t') =>
      if e.errno = .noent then
        match mkdirParents parent t' with
        | .ok t'' => mkdirExistOk t'' p
        | err => err
      else if isDir t' p then .ok t' else .error (.os e, t')
    | r => r

/-- `Path(p).mkdir(parents=True, exist_ok=True)`, on the parts pathlib keeps of `p`. -/
def mkdirs (t : FileTree) (p : List String) : FsResult :=
  mkdirParents (p.flatMap segments).reverse t

/-- `Path(p).unlink()`. A directory, `/` and a last part `..` give `EISDIR`, as on Linux. -/
def unlink (t : FileTree) (p : List String) : FsResult :=
  let fail := fun e : Errno => Except.error (FsError.os ⟨e, pathStr p⟩, t)
  if hasNul p then .error (.nul, t)
  else match t.fault (.unlink (osPath p)) with
    | some f => fail f.errno
    | none =>
      match t.lookup p with
      | .error e => fail e
      | .ok ⟨d, _, some s⟩ =>
        if GoodName s then
          if (t.read? (d ++ [s])).isSome then .ok (t.remove (d ++ [s]))
          else fail (if d ++ [s] ∈ t.dirs then .isdir else .noent)
        else fail .isdir
      | .ok ⟨_, _, none⟩ => fail .isdir

/-- `Path(src).replace(dst)`: `rename(2)` of a file. `dst` takes its bytes and `src` goes. The
lookups run `src` first; `/` or a last part `..` on either side gives `EBUSY`. The error text names
both paths, as `os.replace` does. The tool renames only the file it has just written: a directory
at `src`, which Linux would move, is answered `EISDIR` here. -/
def replace (t : FileTree) (src dst : List String) : FsResult :=
  let fail := fun e : Errno =>
    Except.error (FsError.os ⟨e, pathStr src ++ "' -> '" ++ pathStr dst⟩, t)
  if hasNul src || hasNul dst then .error (.nul, t)
  else match t.fault (.rename (osPath src) (osPath dst)) with
    | some f => fail f.errno
    | none =>
      match t.lookup src, t.lookup dst with
      | .error e, _ => fail e
      | .ok _, .error e => fail e
      | .ok ⟨d, _, some s⟩, .ok ⟨d', hd', some s'⟩ =>
        if hgood : GoodName s ∧ GoodName s' then
          match t.read? (d ++ [s]) with
          | none => fail (if d ++ [s] ∈ t.dirs then .isdir else .noent)
          | some b =>
            if hnot : d' ++ [s'] ∈ t.dirs then fail .isdir
            else .ok ((t.remove (d ++ [s])).write d' s' b hd' hgood.2 hnot)
        else fail .busy
      | .ok _, .ok _ => fail .busy

/-- The name of a path ends in `.js`: the glob `*.js` matches it. -/
def endsJs (p : List String) : Bool :=
  match p.getLast? with
  | some name => ".js".data.isSuffixOf name.data
  | none => false

/-- `root.rglob("*.js")`, before sorting: every file and directory strictly below `root` whose name
ends in `.js`, each once. -/
def rglobJs (t : FileTree) (root : List String) : List (List String) :=
  (t.entries.filter (fun p => root.isPrefixOf p && root.length < p.length && endsJs p)).dedup

/-! ### Effects -/

/-- What the tool works on: the filesystem, and the text it wrote to standard output and to
standard error. -/
structure World where
  tree : FileTree
  stdout : String
  stderr : String

/-- A step of the tool: from a world, a value or an exception, and the world it reached. -/
def Io (α : Type) : Type := World → Except PyExc α × World

namespace Io

instance : Monad Io where
  pure a w := (.ok a, w)
  bind x f w :=
    match x w with
    | (.ok a, w') => f a w'
    | (.error e, w') => (.error e, w')

variable {α β : Type}

/-- `raise e`. -/
def raise (e : PyExc) : Io α := fun w => (.error e, w)

/-- A computation that does not touch the world. -/
def ofExcept (r : Except PyExc α) : Io α := fun w => (r, w)

/-- The current tree. -/
def tree : Io FileTree := fun w => (.ok w.tree, w)

/-- A filesystem call. Its error is raised as `FsError.raise wrap` turns it, from the tree the call
left. -/
def fs (wrap : OSError → PyExc) (op : FileTree → FsResult) : Io Unit := fun w =>
  match op w.tree with
  | .ok t => (.ok (), { w with tree := t })
  | .error (e, t) => (.error (e.raise wrap), { w with tree := t })

/-- `sys.stdout.write(text)`. -/
def write (text : String) : Io Unit := fun w => (.ok (), { w with stdout := w.stdout ++ text })

/-- `print(line)`: the line and a newline. -/
def print (line : String) : Io Unit := write (line ++ "\n")

/-- `print(line)` for each line in turn. -/
def printLines (lines : List String) : Io Unit := write (String.join (lines.map (· ++ "\n")))

/-- `print(line, file=sys.stderr)`. -/
def printErr (line : String) : Io Unit :=
  fun w => (.ok (), { w with stderr := w.stderr ++ (line ++ "\n") })

/-- `try: x except ...: h`, where `h` re-raises what it does not handle. -/
def handle (x : Io α) (h : PyExc → Io α) : Io α := fun w =>
  match x w with
  | (.ok a, w') => (.ok a, w')
  | (.error e, w') => h e w'

@[simp]
theorem pure_apply (a : α) (w : World) : (pure a : Io α) w = (.ok a, w) := rfl

theorem bind_apply (x : Io α) (f : α → Io β) (w : World) :
    (x >>= f) w = match x w with
      | (.ok a, w') => f a w'
      | (.error e, w') => (.error e, w') := rfl

/-- A step that returned lets the rest run from the world it reached. -/
theorem bind_ok {x : Io α} {w w' : World} {a : α} (h : x w = (.ok a, w')) (f : α → Io β) :
    (x >>= f) w = f a w' := by
  rw [bind_apply, h]

/-- A step that raised stops the rest. -/
theorem bind_error {x : Io α} {w w' : World} {e : PyExc} (h : x w = (.error e, w'))
    (f : α → Io β) : (x >>= f) w = (.error e, w') := by
  rw [bind_apply, h]

/-- A bind returned only when both steps did. -/
theorem bind_eq_ok {x : Io α} {f : α → Io β} {w w'' : World} {b : β}
    (h : (x >>= f) w = (.ok b, w'')) : ∃ a w', x w = (.ok a, w') ∧ f a w' = (.ok b, w'') := by
  rw [bind_apply] at h
  match hx : x w, h with
  | (.ok a, w'), h => exact ⟨a, w', rfl, by simpa [hx] using h⟩
  | (.error e, w'), h => simp [hx] at h

@[simp]
theorem raise_apply (e : PyExc) (w : World) : (raise e : Io α) w = (.error e, w) := rfl

/-- A step that returned passes its handler by. -/
theorem handle_ok {x : Io α} {w w' : World} {a : α} (h : x w = (.ok a, w')) (k : PyExc → Io α) :
    handle x k w = (.ok a, w') := by
  rw [handle, h]

/-- A step of the `try` block that returned leaves the rest of the block under the handler. -/
theorem handle_bind_ok {x : Io α} {f : α → Io β} {k : PyExc → Io β} {w w' : World} {a : α}
    (h : x w = (.ok a, w')) : handle (x >>= f) k w = handle (f a) k w' := by
  rw [handle, handle, bind_ok h]

/-- A step that raised hands its exception to the handler, from the world it reached. -/
theorem handle_error {x : Io α} {w w' : World} {e : PyExc} (h : x w = (.error e, w'))
    (k : PyExc → Io α) : handle x k w = k e w' := by
  rw [handle, h]

@[simp]
theorem ofExcept_apply (r : Except PyExc α) (w : World) : ofExcept r w = (r, w) := rfl

@[simp]
theorem tree_apply (w : World) : tree w = (.ok w.tree, w) := rfl

end Io

end StrategyBootstrap
