import Mathlib.Data.List.Infix
import MakePlus.Vpath.Basic

/-!
# Searching one search path

`selective_vpath_search (path, file, mtime_ptr, path_index)` tries the directories of a search
path in order. For each it builds the candidate in one scratch buffer `name`, allocated for the
longest directory: the directory, the directory prefix of `file`, and the name of `file` within
its directory, with slashes between. The candidate exists when the file database mentions it (as
a target, if `file` is one), or else when the directory cache has the name in the candidate's
directory and `stat` finds it, a failed `stat` being forgiven to a search path or a file for
targets. The first candidate that exists is returned. A search path for targets saves the
candidate of its first directory, and returns it when no candidate exists.

The loop carries `exists`, which it never resets, the local copy of `mtime_ptr`, which it nulls
once it has given the caller a time, and the saved candidate `tgt_name`, from one directory to
the next (`SearchState`).

The model is the POSIX build, and so are the results below: the `HAVE_DOS_PATHS` branches
(lines 412-419, where the rightmost backslash also splits `file`, and 456-459, where a backslash
ending the directory prefix becomes a slash) and the `VMS` ones are left out.
-/

namespace MakePlus

/-- What the file database knows of a file: whether it is a target, and its `last_mtime`. -/
structure File where
  isTarget : Bool
  lastMtime : Nat
  deriving DecidableEq, Repr

/-- The collaborators a search consults: the file database (`lookup_file`), the directory cache
    (`dir_file_exists_p`, of a directory and a name) and the file system (`stat`, with the
    modification time it reports, `none` when it fails). -/
structure Env where
  lookupFile : List Char → Option File
  dirFileExistsP : List Char → List Char → Bool
  stat : List Char → Option Nat

/-- Modelled from the spec: `UNKNOWN_MTIME`, the time of a file not looked at ("timestamp
    unknown"), as filedef.h defines it. -/
def unknownMtime : Nat := 0

/-- Modelled from the spec: `OLD_MTIME`, the time `-o` gives a file, as filedef.h defines it. -/
def oldMtime : Nat := 2

/-- Modelled from the spec: `NEW_MTIME`, the time `-W` gives a file, as filedef.h defines it:
    the largest 64-bit `FILE_TIMESTAMP`. -/
def newMtime : Nat := UInt64.size - 1

/-- `strrchr (s, c)`: the offset of the last `c` in `s`. -/
def strrchr : List Char → Char → Option Nat
  | [], _ => none
  | x :: xs, c =>
    match strrchr xs c with
    | some i => some (i + 1)
    | none => if x = c then some 0 else none

/-- `name_dplen`, the length of the directory prefix of `file`: up to its last slash, unless that
    slash is its first character. -/
def nameDplen (file : List Char) : Nat := (strrchr file '/').getD 0

/-- `filename`, the name of `file` within its directory. -/
def filename (file : List Char) : List Char :=
  if nameDplen file > 0 then file.drop (nameDplen file + 1) else file

/-- `flen`, the length of `filename`, as the code computes it from `strlen (file)`. -/
def flen (file : List Char) : Nat :=
  if nameDplen file > 0 then file.length - (nameDplen file + 1) else file.length

/-- The locals of `selective_vpath_search` that one directory leaves to the next: the buffer
    `name`; `exists`, which no directory resets; whether the local `mtime_ptr` still points to
    the caller's time, and that time (`none` for a null pointer); the candidate `tgt_name` saved
    for a target, in its own buffer, with `tgt_len`. -/
structure SearchState where
  name : List Char
  fileExists : Bool
  mtimePtr : Bool
  mtime : Option Nat
  tgt : Option (List Char × Nat)

/-- What one directory of the loop does: return a name, with the caller's time and directory
    index, or go on to the next directory. -/
inductive Step
  | ret (name : List Char) (mtime pathIndex : Option Nat)
  | next (st : SearchState)

/-- Lines 435-452: the directory `d` and, after a slash, the directory prefix of `file`, written
    over `name`, with `p`, their end. -/
def putDir (name d file : List Char) : Except Fault (List Char × Nat) := do
  let name ← memcpy name 0 d
  if nameDplen file > 0 then
    let name ← store name d.length '/'
    let name ← memcpy name (d.length + 1) (file.take (nameDplen file))
    pure (name, d.length + 1 + nameDplen file)
  else pure (name, d.length)

/-- The test of line 460, `p != name && p[-1] != '/'`: whether a slash goes between the
    directory part, which ends at `p`, and the name within the directory. -/
def slashNeeded (name : List Char) (p : Nat) : Except Fault Bool :=
  if p ≠ 0 then do pure ((← load name (p - 1)) != '/') else pure false

/-- Lines 459-479: the name within the directory, with its NUL, written at `p`, after a slash
    unless the directory part is empty or already ends in one. -/
def putName (name : List Char) (p : Nat) (file : List Char) : Except Fault (List Char) := do
  if ← slashNeeded name p then
    let name ← store name p '/'
    memcpy name (p + 1) (filename file ++ [nul])
  else memcpy name p (filename file ++ [nul])

/-- The candidate for the directory `d`, written over `name`, and `p`, the end of its directory
    part. -/
def candidate (name d file : List Char) : Except Fault (List Char × Nat) := do
  let (name, p) ← putDir name d file
  let name ← putName name p file
  pure (name, p)

/-- Lines 502-514: the file database. A candidate it mentions exists, unless `file` is a target
    and the candidate is not; a time set by `-o` or `-W` goes to the caller, and the local
    `mtime_ptr` is nulled. Without a mention, `exists` keeps its value. -/
def lookupName (env : Env) (isTarget : Bool) (name : List Char) (fileExists mtimePtr : Bool)
    (mtime : Option Nat) : Bool × Bool × Option Nat :=
  match env.lookupFile name with
  | some f =>
    let e := !isTarget || f.isTarget
    if e && mtimePtr && (f.lastMtime == oldMtime || f.lastMtime == newMtime) then
      (e, false, some f.lastMtime)
    else (e, mtimePtr, mtime)
  | none => (fileExists, mtimePtr, mtime)

/-- Lines 557-578: a candidate found in the directory cache must also `stat`. One that does not
    is skipped (`none`, the `continue`), unless the search path or the file is for targets; the
    time `stat` reports goes to the caller, and the local `mtime_ptr` is nulled. -/
def statName (env : Env) (isTargetPath isTarget existsInCache : Bool) (name : List Char)
    (mtimePtr : Bool) (mtime : Option Nat) : Option (Bool × Option Nat) :=
  if existsInCache then
    match env.stat name with
    | some t => if mtimePtr then some (false, some t) else some (mtimePtr, mtime)
    | none => if !isTargetPath && !isTarget then none else some (mtimePtr, mtime)
  else some (mtimePtr, mtime)

/-- One directory `d`, the `i`-th, of the loop of `selective_vpath_search` (lines 434-604). -/
def searchDir (env : Env) (junk : Nat → Char) (isTargetPath isTarget : Bool) (file : List Char)
    (pathIndex : Option Nat) (i : Nat) (d : List Char) (st : SearchState) :
    Except Fault Step := do
  let (name, p) ← candidate st.name d file
  let (fileExists, mtimePtr, mtime) :=
    lookupName env isTarget (cstr name) st.fileExists st.mtimePtr st.mtime
  -- the directory cache, with `name` cut at `p` to name the candidate's directory
  let (name, fileExists, existsInCache) ← if !fileExists then do
      let name ← store name p nul
      let e := env.dirFileExistsP (cstr name) (filename file)
      pure (name, e, e)
    else pure (name, fileExists, false)
  let name ← store name p '/'
  if fileExists then
    match statName env isTargetPath isTarget existsInCache (cstr name) mtimePtr mtime with
    | none => pure (.next { name, fileExists := false, mtimePtr, mtime, tgt := st.tgt })
    | some (mtimePtr, mtime) =>
      let mtime := if mtimePtr then some unknownMtime else mtime
      pure (.ret (cstr (name.take (p + 1 + flen file))) mtime (pathIndex.map fun _ => i))
  else if isTargetPath && st.tgt.isNone then
    assert (i == 0) 599
    let tgtLen := p + 1 + flen file
    assert (tgtLen == (cstr name).length) 601
    let tgtName ← memcpy (alloc ((cstr name).length + 1) junk) 0 (cstr name ++ [nul])
    pure (.next { name, fileExists, mtimePtr, mtime, tgt := some (tgtName, tgtLen) })
  else pure (.next { name, fileExists, mtimePtr, mtime, tgt := st.tgt })

/-- Lines 607-620, after the loop: the candidate saved for a target, with an unknown time and
    the first directory, or nothing. -/
def searchEnd (isTargetPath : Bool) (pathIndex : Option Nat) (st : SearchState) :
    Except Fault (Option (List Char) × Option Nat × Option Nat) := do
  match st.tgt with
  | some (tgtName, tgtLen) =>
    assert (tgtLen > 0) 609
    assert isTargetPath 610
    let mtime := if st.mtimePtr then some unknownMtime else st.mtime
    pure (some (cstr (tgtName.take tgtLen)), mtime, pathIndex.map fun _ => 0)
  | none => pure (none, st.mtime, pathIndex)

/-- The loop of `selective_vpath_search` over the directories `ds`, from the `i`-th. -/
def searchLoop (env : Env) (junk : Nat → Char) (isTargetPath isTarget : Bool) (file : List Char)
    (pathIndex : Option Nat) :
    Nat → List (List Char) → SearchState →
      Except Fault (Option (List Char) × Option Nat × Option Nat)
  | _, [], st => searchEnd isTargetPath pathIndex st
  | i, d :: ds, st => do
    match ← searchDir env junk isTargetPath isTarget file pathIndex i d st with
    | .ret name mtime pathIndex => pure (some name, mtime, pathIndex)
    | .next st => searchLoop env junk isTargetPath isTarget file pathIndex (i + 1) ds st

/-- `selective_vpath_search (path, file, mtime_ptr, path_index)` in the POSIX build: the name
    found, with the caller's time `*mtime_ptr` and index `*path_index` (`none` for a null
    pointer) as the search leaves them. `junk` is what the stack holds where `alloca` puts
    `name`. -/
def selectiveVpathSearch (env : Env) (junk : Nat → Char) (path : Vpath) (file : List Char)
    (mtime pathIndex : Option Nat) :
    Except Fault (Option (List Char) × Option Nat × Option Nat) :=
  let isTarget := (env.lookupFile file).any (·.isTarget)
  let size := path.maxlen + 1 + nameDplen file + 1 + flen file + 1
  searchLoop env junk path.targetGoal isTarget file pathIndex 0 path.searchpath
    { name := alloc size junk, fileExists := false, mtimePtr := mtime.isSome, mtime, tgt := none }

/-! ## The name within the directory -/

theorem strrchr_eq_none {xs : List Char} {c : Char} : strrchr xs c = none ↔ c ∉ xs := by
  induction xs with
  | nil => simp [strrchr]
  | cons x xs ih =>
    simp only [strrchr, List.mem_cons, not_or]
    cases h : strrchr xs c with
    | some i => simp_all
    | none => by_cases hx : x = c <;> simp_all [eq_comm]

/-- `strrchr` splits a string at the last occurrence of the character. -/
theorem eq_of_strrchr_eq_some {xs : List Char} {c : Char} {k : Nat} (h : strrchr xs c = some k) :
    xs = xs.take k ++ c :: xs.drop (k + 1) ∧ c ∉ xs.drop (k + 1) := by
  induction xs generalizing k with
  | nil => simp [strrchr] at h
  | cons x xs ih =>
    simp only [strrchr] at h
    cases hx : strrchr xs c with
    | some j =>
      rw [hx] at h
      cases h
      obtain ⟨h₁, h₂⟩ := ih hx
      exact ⟨congrArg (x :: ·) h₁, h₂⟩
    | none =>
      by_cases hc : x = c
      · simp only [hx, hc, if_true, Option.some.injEq] at h
        subst h hc
        exact ⟨rfl, strrchr_eq_none.1 hx⟩
      · simp [hx, hc] at h

theorem length_filename (file : List Char) : (filename file).length = flen file := by
  unfold filename flen; split <;> simp

/-- With a directory prefix, a file name is the prefix, a slash and the name within the
    directory, which has no slash. -/
theorem eq_of_nameDplen_pos {file : List Char} (h : 0 < nameDplen file) :
    file = file.take (nameDplen file) ++ '/' :: filename file ∧ '/' ∉ filename file := by
  unfold nameDplen at *
  cases hk : strrchr file '/' with
  | none => simp [hk] at h
  | some k =>
    have := eq_of_strrchr_eq_some hk
    simp only [filename, nameDplen, hk, Option.getD_some] at h ⊢
    simpa [h] using this

theorem nameDplen_lt {file : List Char} (h : 0 < nameDplen file) :
    nameDplen file < file.length := by
  have h₁ := congrArg List.length (eq_of_nameDplen_pos h).1
  simp only [List.length_append, List.length_take, List.length_cons] at h₁
  omega

/-- A file name that does not start with a slash and has no directory prefix has no slash. -/
theorem slash_not_mem_of_nameDplen_eq_zero {file : List Char} (hf : file.head? ≠ some '/')
    (h : nameDplen file = 0) : '/' ∉ file := by
  unfold nameDplen at h
  cases hk : strrchr file '/' with
  | none => exact strrchr_eq_none.1 hk
  | some k =>
    simp only [hk, Option.getD_some] at h
    subst h
    have := (eq_of_strrchr_eq_some hk).1
    rw [this] at hf
    simp at hf

/-! ## The candidate -/

/-- The directory part of the candidate for `d`: `d`, and the directory prefix of `file` after a
    slash. -/
def dirPart (d file : List Char) : List Char :=
  if nameDplen file > 0 then d ++ '/' :: file.take (nameDplen file) else d

/-- Whether the name within the directory follows a slash: the directory part is not empty and
    does not end in one. -/
def needsSlash (dir : List Char) : Bool :=
  match dir.getLast? with
  | some c => c != '/'
  | none => false

/-- What follows the directory part in the candidate: the name within the directory, after a
    slash when one is needed. -/
def namePart (dir file : List Char) : List Char :=
  if needsSlash dir then '/' :: filename file else filename file

theorem length_dirPart_le (d file : List Char) :
    (dirPart d file).length ≤ d.length + 1 + nameDplen file := by
  unfold dirPart
  split
  · simp; omega
  · omega

theorem putDir_eq {name d file : List Char} (h : d.length + 1 + nameDplen file ≤ name.length) :
    ∃ r, putDir name d file = .ok (dirPart d file ++ r, (dirPart d file).length) ∧
      (dirPart d file ++ r).length = name.length := by
  have h₀ : memcpy name 0 d = .ok (d ++ name.drop d.length) := by
    rw [memcpy_of_le (by omega)]; simp
  by_cases hk : 0 < nameDplen file
  · have hlt := nameDplen_lt hk
    obtain ⟨x, r, hr⟩ := List.exists_cons_of_ne_nil
      (show name.drop d.length ≠ [] from List.ne_nil_of_length_pos (by simp; omega))
    have hrlen := congrArg List.length hr
    simp only [List.length_drop, List.length_cons] at hrlen
    have h₁ := memcpy_append (w := d ++ ['/']) (r := r) (s := file.take (nameDplen file))
      (by simp; omega)
    simp only [List.length_append, List.length_singleton, List.append_assoc,
      List.singleton_append] at h₁
    refine ⟨r.drop (nameDplen file), ?_, ?_⟩
    · simp [putDir, h₀, hr, hk, store_append, h₁, dirPart, Nat.min_eq_left hlt.le]; omega
    · simp [dirPart, hk]; omega
  · refine ⟨name.drop d.length, ?_, ?_⟩
    · simp [putDir, h₀, hk, dirPart]
    · simp [dirPart, hk]; omega

theorem putName_eq (dir r file : List Char) (h : flen file + 2 ≤ r.length) :
    ∃ rest, putName (dir ++ r) dir.length file = .ok (dir ++ namePart dir file ++ nul :: rest) ∧
      (dir ++ namePart dir file ++ nul :: rest).length = (dir ++ r).length := by
  have hslash : slashNeeded (dir ++ r) dir.length = .ok (needsSlash dir) := by
    rcases List.eq_nil_or_concat dir with rfl | ⟨L, b, rfl⟩
    · rfl
    · simp [slashNeeded, needsSlash, load_append_cons]
  have hlen := length_filename file
  rw [putName, hslash, ok_bind, namePart]
  cases needsSlash dir
  · have h₁ := memcpy_append (w := dir) (r := r) (s := filename file ++ [nul]) (by simp; omega)
    refine ⟨r.drop (flen file + 1), by simpa [hlen] using h₁, ?_⟩
    simp
    omega
  · obtain ⟨x, r', rfl⟩ := List.exists_cons_of_ne_nil
      (show r ≠ [] from List.ne_nil_of_length_pos (by omega))
    have h₁ := memcpy_append (w := dir ++ ['/']) (r := r') (s := filename file ++ [nul])
      (by simp at h ⊢; omega)
    simp only [List.length_append, List.length_singleton, List.append_assoc,
      List.singleton_append] at h₁
    refine ⟨r'.drop (flen file + 1), ?_, ?_⟩
    · simp [store_append, h₁, hlen]
    · simp at h ⊢; omega

/-- The candidate fits in a buffer of the size `selective_vpath_search` allocates for `d`. -/
theorem candidate_eq (name d file : List Char)
    (h : d.length + 1 + nameDplen file + 1 + flen file + 1 ≤ name.length) :
    ∃ rest, candidate name d file =
        .ok (dirPart d file ++ namePart (dirPart d file) file ++ nul :: rest,
          (dirPart d file).length) ∧
      (dirPart d file ++ namePart (dirPart d file) file ++ nul :: rest).length = name.length := by
  obtain ⟨r, h₁, hr⟩ := putDir_eq (by omega : d.length + 1 + nameDplen file ≤ name.length)
  have := length_dirPart_le d file
  obtain ⟨rest, h₂, hrest⟩ := putName_eq (dirPart d file) r file (by simp at hr; omega)
  exact ⟨rest, by simp [candidate, h₁, h₂], hrest.trans hr⟩

/-! ## One directory -/

/-- Whether a directory's candidate is taken, from the name the file database is asked about,
    the directory and the name the directory cache is asked about, and the name given to
    `stat`. -/
def accepts (env : Env) (isTargetPath isTarget : Bool) (c dir base statName : List Char) : Bool :=
  (env.lookupFile c).any (fun f => !isTarget || f.isTarget) ||
    env.dirFileExistsP dir base && ((env.stat statName).isSome || isTargetPath || isTarget)

/-- The time a taken candidate gives the caller: a time set by `-o` or `-W` in the file
    database, else the time `stat` reports for a candidate the database does not give, else an
    unknown time. -/
def acceptedMtime (env : Env) (isTarget : Bool) (c statName : List Char) : Nat :=
  match env.lookupFile c with
  | some f =>
    if !isTarget || f.isTarget then
      if f.lastMtime == oldMtime || f.lastMtime == newMtime then f.lastMtime else unknownMtime
    else (env.stat statName).getD unknownMtime
  | none => (env.stat statName).getD unknownMtime

section Loop

variable (env : Env) (junk : Nat → Char) {isTargetPath : Bool} (isTarget : Bool)
  {file : List Char} (pathIndex : Option Nat)

/-- One directory, from the candidate `D ++ y :: Y` with its directory part `D`: the database is
    asked about the candidate, the cache about `D`, with the NUL at the end of `D`, and `stat`
    about the buffer once line 540 has put a slash after `D`. -/
theorem searchDir_eq {i : Nat} {d : List Char} {st : SearchState} {D Y : List Char} {y : Char}
    (hc : candidate st.name d file = .ok (D ++ y :: Y, D.length))
    (hst : st.fileExists = false) (hptr : st.mtimePtr = st.mtime.isSome) :
    searchDir env junk isTargetPath isTarget file pathIndex i d st =
      if accepts env isTargetPath isTarget (cstr (D ++ y :: Y)) (cstr (D ++ nul :: Y))
          (filename file) (cstr (D ++ '/' :: Y)) then
        .ok (.ret (cstr ((D ++ '/' :: Y).take (D.length + 1 + flen file)))
          (st.mtime.map fun _ =>
            acceptedMtime env isTarget (cstr (D ++ y :: Y)) (cstr (D ++ '/' :: Y)))
          (pathIndex.map fun _ => i))
      else if isTargetPath && st.tgt.isNone then do
        assert (i == 0) 599
        assert (D.length + 1 + flen file == (cstr (D ++ '/' :: Y)).length) 601
        let tgt := some (cstr (D ++ '/' :: Y) ++ [nul], D.length + 1 + flen file)
        pure (.next { st with name := D ++ '/' :: Y, tgt })
      else .ok (.next { st with name := D ++ '/' :: Y }) := by
  obtain ⟨name, fe, mp, m, tgt⟩ := st
  simp only at hst hptr
  subst hst hptr
  simp only [searchDir, hc, ok_bind]
  by_cases hl : (env.lookupFile (cstr (D ++ y :: Y))).any (fun f => !isTarget || f.isTarget)
  · -- the file database has the candidate
    cases hF : env.lookupFile (cstr (D ++ y :: Y)) with
    | none => simp [hF] at hl
    | some f =>
      simp only [hF, Option.any_some] at hl
      simp only [lookupName, accepts, acceptedMtime, hF, hl, Option.any_some, Bool.true_or, if_true]
      cases m <;> cases hs : (f.lastMtime == oldMtime || f.lastMtime == newMtime) <;>
        simp [hs, store_append, statName]
  · -- the directory cache
    have hlook : lookupName env isTarget (cstr (D ++ y :: Y)) false m.isSome m =
        (false, m.isSome, m) := by
      unfold lookupName
      split
      · simp_all
      · rfl
    have hmt : acceptedMtime env isTarget (cstr (D ++ y :: Y)) (cstr (D ++ '/' :: Y)) =
        (env.stat (cstr (D ++ '/' :: Y))).getD unknownMtime := by
      unfold acceptedMtime
      split
      · simp_all
      · rfl
    simp only [hlook, hmt, accepts, hl, Bool.false_or, Bool.not_false, if_true, pure_eq_ok,
      ok_bind, store_append, statName]
    cases hE : env.dirFileExistsP (cstr (D ++ nul :: Y)) (filename file)
    · simp [strcpy_alloc]
    · cases m <;> cases hS : env.stat (cstr (D ++ '/' :: Y)) <;> cases isTargetPath <;>
        cases isTarget <;> simp

/-- What the loop keeps true from one directory to the next, the `i`-th being next: the buffer
    keeps its size, `exists` is false, the local `mtime_ptr` still points to the caller's time,
    which is untouched, and a candidate is saved only by a search path for targets, by its first
    directory. -/
structure LoopInv (isTargetPath : Bool) (size i : Nat) (mtime : Option Nat) (st : SearchState) :
    Prop where
  length_name : st.name.length = size
  fileExists_eq : st.fileExists = false
  mtimePtr_eq : st.mtimePtr = mtime.isSome
  mtime_eq : st.mtime = mtime
  tgt_of_pos : isTargetPath → 0 < i → st.tgt.isSome
  targetPath_of_tgt : st.tgt.isSome → isTargetPath
  tgtLen_pos : ∀ t, st.tgt = some t → 0 < t.2

/-- The buffer size of `selective_vpath_search` for a longest directory of `maxlen` bytes. -/
def bufferSize (maxlen : Nat) (file : List Char) : Nat :=
  maxlen + 1 + nameDplen file + 1 + flen file + 1

/-- The state the loop goes on with: the buffer as the directory left it, and the candidate
    saved when the search path is for targets and none was saved yet. -/
theorem LoopInv.next {i size : Nat} {mtime : Option Nat} {st : SearchState}
    (hinv : LoopInv isTargetPath size i mtime st) (name : List Char) {n : List Char} {len : Nat}
    (hname : name.length = size) (hlen : 0 < len) :
    LoopInv isTargetPath size (i + 1) mtime
      { st with name, tgt := if isTargetPath && st.tgt.isNone then some (n, len) else st.tgt } where
  length_name := hname
  fileExists_eq := hinv.fileExists_eq
  mtimePtr_eq := hinv.mtimePtr_eq
  mtime_eq := hinv.mtime_eq
  tgt_of_pos h _ := by cases htgt : st.tgt <;> simp_all
  targetPath_of_tgt h := by
    cases htgt : st.tgt <;> cases isTargetPath <;> simp_all [hinv.targetPath_of_tgt]
  tgtLen_pos t h := by
    cases htgt : st.tgt <;> cases isTargetPath <;> simp_all [eq_comm, hinv.tgtLen_pos]

/-- The loop's buffer holds the candidate of a directory no longer than `maxlen`. -/
theorem candidate_cons {name d file : List Char} {maxlen : Nat}
    (hname : name.length = bufferSize maxlen file) (hd : d.length ≤ maxlen) :
    ∃ y Y, candidate name d file = .ok (dirPart d file ++ y :: Y, (dirPart d file).length) ∧
      (dirPart d file ++ y :: Y).length = name.length := by
  obtain ⟨rest, hc, hlen⟩ := candidate_eq name d file (by rw [hname, bufferSize]; omega)
  obtain ⟨y, Y, hY⟩ := List.exists_cons_of_ne_nil
    (show namePart (dirPart d file) file ++ nul :: rest ≠ [] by simp)
  rw [List.append_assoc, hY] at hc hlen
  exact ⟨y, Y, hc, hlen⟩

/-- One directory stays inside the buffer and keeps the assertions of lines 599, 609 and 610:
    it returns, or goes on with the invariant, or fails the assertion of line 601. -/
theorem searchDir_safe {i : Nat} {d : List Char} {maxlen : Nat} {mtime : Option Nat}
    {st : SearchState} (hinv : LoopInv isTargetPath (bufferSize maxlen file) i mtime st)
    (hd : d.length ≤ maxlen) :
    (∃ r m k,
      searchDir env junk isTargetPath isTarget file pathIndex i d st = .ok (.ret r m k)) ∨
      (∃ st', searchDir env junk isTargetPath isTarget file pathIndex i d st = .ok (.next st') ∧
        LoopInv isTargetPath (bufferSize maxlen file) (i + 1) mtime st') ∨
      searchDir env junk isTargetPath isTarget file pathIndex i d st = .error (.assertion 601) := by
  obtain ⟨y, Y, hc, hlen⟩ := candidate_cons hinv.length_name hd
  have hname : (dirPart d file ++ '/' :: Y).length = bufferSize maxlen file := by
    rw [← hinv.length_name, ← hlen]; simp
  have hnext := hinv.next _ (n := cstr (dirPart d file ++ '/' :: Y) ++ [nul]) hname
    (show 0 < (dirPart d file).length + 1 + flen file by omega)
  rw [searchDir_eq env junk isTarget pathIndex hc hinv.fileExists_eq
    (by rw [hinv.mtimePtr_eq, hinv.mtime_eq])]
  split
  · exact .inl ⟨_, _, _, rfl⟩
  · split
    · rename_i htp
      have hi : i = 0 := by
        simp only [Bool.and_eq_true, Option.isNone_iff_eq_none] at htp
        by_contra hi
        simpa [htp.2] using hinv.tgt_of_pos htp.1 (Nat.pos_of_ne_zero hi)
      rw [htp, if_pos rfl] at hnext
      by_cases h601 : (dirPart d file).length + 1 + flen file ==
          (cstr (dirPart d file ++ '/' :: Y)).length
      · refine .inr (.inl ⟨_, ?_, hnext⟩)
        simp [hi, h601]
      · exact .inr (.inr (by simp [hi, h601]))
    · rename_i htp
      rw [if_neg htp] at hnext
      exact .inr (.inl ⟨_, rfl, hnext⟩)

/-- The whole loop stays inside the buffer and keeps the assertions of lines 599, 609 and 610:
    it finds a name, or fails without touching the caller's time and index, or fails the
    assertion of line 601. -/
theorem searchLoop_safe {maxlen : Nat} {mtime : Option Nat} :
    ∀ {i : Nat} {ds : List (List Char)} {st : SearchState},
      (∀ d ∈ ds, d.length ≤ maxlen) →
      LoopInv isTargetPath (bufferSize maxlen file) i mtime st →
      (∃ r m k, searchLoop env junk isTargetPath isTarget file pathIndex i ds st =
          .ok (some r, m, k)) ∨
        searchLoop env junk isTargetPath isTarget file pathIndex i ds st =
          .ok (none, mtime, pathIndex) ∨
        searchLoop env junk isTargetPath isTarget file pathIndex i ds st = .error (.assertion 601)
  | _, [], st, _, hinv => by
    simp only [searchLoop, searchEnd]
    cases htgt : st.tgt with
    | none => exact .inr (.inl (by simp [hinv.mtime_eq]))
    | some t =>
      have h₁ := hinv.tgtLen_pos t htgt
      have h₂ := hinv.targetPath_of_tgt (by simp [htgt])
      exact .inl ⟨_, _, _, by simp [h₁, h₂]; exact ⟨rfl, rfl, rfl⟩⟩
  | i, d :: ds, st, hds, hinv => by
    rcases searchDir_safe env junk isTarget pathIndex hinv (hds d (List.mem_cons_self d ds)) with
      ⟨r, m, k, h⟩ | ⟨st', h, hinv'⟩ | h
    · exact .inl ⟨r, m, k, by simp [searchLoop, h]⟩
    · simpa [searchLoop, h] using
        searchLoop_safe (fun d hd => hds d (List.mem_cons_of_mem _ hd)) hinv'
    · exact .inr (.inr (by simp [searchLoop, h]))

end Loop

theorem loopInv_start (isTargetPath : Bool) (junk : Nat → Char) (mtime : Option Nat)
    (size : Nat) :
    LoopInv isTargetPath size 0 mtime
      { name := alloc size junk, fileExists := false, mtimePtr := mtime.isSome, mtime,
        tgt := none } where
  length_name := length_alloc size junk
  fileExists_eq := rfl
  mtimePtr_eq := rfl
  mtime_eq := rfl
  tgt_of_pos _ h := absurd h (Nat.lt_irrefl 0)
  targetPath_of_tgt h := absurd h (by simp)
  tgtLen_pos _ h := by cases h

/-- A search finds a name, or fails without touching the caller's time and index, or fails the
    assertion of line 601. -/
theorem selectiveVpathSearch_cases (env : Env) (junk : Nat → Char) (path : Vpath)
    (file : List Char) (mtime pathIndex : Option Nat) :
    (∃ r m k, selectiveVpathSearch env junk path file mtime pathIndex = .ok (some r, m, k)) ∨
      selectiveVpathSearch env junk path file mtime pathIndex = .ok (none, mtime, pathIndex) ∨
      selectiveVpathSearch env junk path file mtime pathIndex = .error (.assertion 601) :=
  searchLoop_safe env junk _ pathIndex path.length_le_maxlen (loopInv_start _ junk mtime _)

/-- In the POSIX build, `selective_vpath_search` writes and reads only inside its buffers, and
    the assertions of lines 599, 609 and 610 hold: only the one of line 601 can fail. -/
theorem selectiveVpathSearch_in_bounds (env : Env) (junk : Nat → Char) (path : Vpath)
    (file : List Char) (mtime pathIndex : Option Nat) :
    (∃ r, selectiveVpathSearch env junk path file mtime pathIndex = .ok r) ∨
      selectiveVpathSearch env junk path file mtime pathIndex = .error (.assertion 601) := by
  rcases selectiveVpathSearch_cases env junk path file mtime pathIndex with
    ⟨r, m, k, h⟩ | h | h
  · exact .inl ⟨_, h⟩
  · exact .inl ⟨_, h⟩
  · exact .inr h

/-! ## What a search computes -/

/-- The last component of a path: what follows its last slash. -/
def baseName (c : List Char) : List Char := (c.reverse.takeWhile (· != '/')).reverse

/-- The directory of a path: what precedes its last slash. -/
def dirName (c : List Char) : List Char := ((c.reverse.dropWhile (· != '/')).drop 1).reverse

/-- Whether a search takes the candidate `c`: the file database has it (as a target, if the file
    sought is one), or the directory cache has its last component in its directory and it
    exists in the file system, which a search path or a file for targets does not need. -/
def acceptsName (env : Env) (isTargetPath isTarget : Bool) (c : List Char) : Bool :=
  accepts env isTargetPath isTarget c (dirName c) (baseName c) c

/-- What a search of `path` for `file` is meant to return, with the caller's time and directory
    index: the first directory whose candidate `d/file` is taken, or else, for a search path for
    targets, the candidate of its first directory, with an unknown time; or nothing, with the
    time and index untouched. -/
def searchSpec (env : Env) (path : Vpath) (file : List Char) (mtime pathIndex : Option Nat) :
    Option (List Char) × Option Nat × Option Nat :=
  let isTarget := (env.lookupFile file).any (·.isTarget)
  match path.searchpath.enum.find?
      (fun e => acceptsName env path.targetGoal isTarget (e.2 ++ '/' :: file)) with
  | some (i, d) =>
    (some (d ++ '/' :: file),
      mtime.map fun _ => acceptedMtime env isTarget (d ++ '/' :: file) (d ++ '/' :: file),
      pathIndex.map fun _ => i)
  | none =>
    if path.targetGoal then
      (some (path.searchpath.headD [] ++ '/' :: file),
        mtime.map fun _ => unknownMtime, pathIndex.map fun _ => 0)
    else (none, mtime, pathIndex)

theorem baseName_append {a b : List Char} (h : '/' ∉ b) : baseName (a ++ '/' :: b) = b := by
  have hb : ∀ x ∈ b.reverse, (x != '/') = true := fun x hx => by
    simpa using ne_of_mem_of_not_mem (List.mem_reverse.1 hx) h
  simp [baseName, List.takeWhile_append_of_pos hb]

theorem dirName_append {a b : List Char} (h : '/' ∉ b) : dirName (a ++ '/' :: b) = a := by
  have hb : ∀ x ∈ b.reverse, (x != '/') = true := fun x hx => by
    simpa using ne_of_mem_of_not_mem (List.mem_reverse.1 hx) h
  simp [dirName, List.dropWhile_append_of_pos hb]

section Names

variable {d file : List Char}

/-- The candidate is the directory, a slash and the file name, unless it dropped a slash. -/
theorem dirPart_append (d file : List Char) :
    dirPart d file ++ '/' :: filename file = d ++ '/' :: file := by
  unfold dirPart
  split
  · rename_i hk
    have := (eq_of_nameDplen_pos hk).1
    simp only [List.append_assoc, List.cons_append]
    exact congrArg (d ++ '/' :: ·) this.symm
  · rename_i hk
    simp [filename, hk]

theorem slash_not_mem_filename (hf : file.head? ≠ some '/') : '/' ∉ filename file := by
  by_cases hk : 0 < nameDplen file
  · exact (eq_of_nameDplen_pos hk).2
  · simpa [filename, hk] using slash_not_mem_of_nameDplen_eq_zero hf (by omega)

theorem needsSlash_of_getLast? {dir : List Char} {c : Char} (h : dir.getLast? = some c)
    (hc : c ≠ '/') : needsSlash dir = true := by
  simp [needsSlash, h, hc]

/-- Between a directory not ending in a slash and a file name without an empty component, the
    candidate has its slash. -/
theorem needsSlash_dirPart (hd : d ≠ []) (hd' : d.getLast? ≠ some '/')
    (hf : file.head? ≠ some '/')
    (hcomp : ¬ ['/', '/'] <:+: file) : needsSlash (dirPart d file) = true := by
  unfold dirPart
  split
  · rename_i hk
    have hfile := (eq_of_nameDplen_pos hk).1
    rcases List.eq_nil_or_concat (file.take (nameDplen file)) with ha | ⟨a, b, ha⟩
    · rw [ha] at hfile
      rw [hfile] at hf
      simp at hf
    · rw [List.concat_eq_append] at ha
      refine needsSlash_of_getLast? (c := b)
        (by rw [ha, ← List.cons_append, ← List.append_assoc, List.getLast?_concat]) ?_
      rintro rfl
      exact hcomp ⟨a, filename file, (hfile.trans (by rw [ha]; simp)).symm⟩
  · obtain ⟨c, hc⟩ := Option.ne_none_iff_exists'.1 (mt List.getLast?_eq_none_iff.1 hd)
    exact needsSlash_of_getLast? hc (fun h => hd' (h ▸ hc))

end Names

section Found

variable (env : Env) (junk : Nat → Char) {isTargetPath : Bool} (isTarget : Bool)
  {file : List Char} (pathIndex : Option Nat)

/-- One directory that does not end in a slash, for a file name without an empty component: the
    candidate is `d/file`, returned when it is taken, and saved when the search path is for
    targets and has saved none. -/
theorem searchDir_eq_accepts {i : Nat} {d : List Char} {maxlen : Nat} {mtime : Option Nat}
    {st : SearchState} (hinv : LoopInv isTargetPath (bufferSize maxlen file) i mtime st)
    (hd : d.length ≤ maxlen) (hd₁ : d ≠ []) (hd₂ : d.getLast? ≠ some '/')
    (hd₃ : nul ∉ d)
    (hf : file.head? ≠ some '/') (hcomp : ¬ ['/', '/'] <:+: file) (hnul : nul ∉ file) :
    ∃ st', LoopInv isTargetPath (bufferSize maxlen file) (i + 1) mtime st' ∧
      st'.tgt = (if isTargetPath && st.tgt.isNone then
        some (d ++ '/' :: file ++ [nul], (d ++ '/' :: file).length) else st.tgt) ∧
      searchDir env junk isTargetPath isTarget file pathIndex i d st =
        if acceptsName env isTargetPath isTarget (d ++ '/' :: file) then
          .ok (.ret (d ++ '/' :: file)
            (mtime.map fun _ => acceptedMtime env isTarget (d ++ '/' :: file) (d ++ '/' :: file))
            (pathIndex.map fun _ => i))
        else .ok (.next st') := by
  obtain ⟨rest, hc, hlen⟩ := candidate_eq st.name d file
    (by rw [hinv.length_name, bufferSize]; omega)
  rw [namePart, needsSlash_dirPart hd₁ hd₂ hf hcomp, if_pos rfl, List.append_assoc,
    List.cons_append] at hc hlen
  have hc' : dirPart d file ++ '/' :: (filename file ++ nul :: rest) =
      d ++ '/' :: file ++ nul :: rest := by
    rw [← List.cons_append, ← List.append_assoc, dirPart_append]
  have hcnul : nul ∉ d ++ '/' :: file := by
    simp only [List.mem_append, List.mem_cons, not_or]
    exact ⟨hd₃, by decide, hnul⟩
  have hDnul : nul ∉ dirPart d file := fun h => hcnul (by
    rw [← dirPart_append d file]; exact List.mem_append_left _ h)
  have hclen : (dirPart d file).length + 1 + flen file = (d ++ '/' :: file).length := by
    rw [← dirPart_append d file, ← length_filename]; simp; omega
  have hslash := slash_not_mem_filename hf
  have hacc : accepts env isTargetPath isTarget (d ++ '/' :: file) (dirPart d file) (filename file)
      (d ++ '/' :: file) = acceptsName env isTargetPath isTarget (d ++ '/' :: file) := by
    rw [acceptsName, ← dirPart_append d file, dirName_append hslash, baseName_append hslash]
  have hnext := hinv.next (d ++ '/' :: file ++ nul :: rest) (n := d ++ '/' :: file ++ [nul])
    (by rw [← hc', ← hinv.length_name, ← hlen])
    (show 0 < (d ++ '/' :: file).length by simp only [List.length_append, List.length_cons]; omega)
  refine ⟨_, hnext, rfl, ?_⟩
  rw [searchDir_eq env junk isTarget pathIndex hc hinv.fileExists_eq
      (by rw [hinv.mtimePtr_eq, hinv.mtime_eq]), hc',
    cstr_append_nul hcnul, ← hc', cstr_append_nul hDnul, hc', hclen, List.take_left' rfl,
    cstr_of_nul_not_mem hcnul, hacc, hinv.mtime_eq]
  split
  · rfl
  · split
    · rename_i htp
      have hi : i = 0 := by
        simp only [Bool.and_eq_true, Option.isNone_iff_eq_none] at htp
        by_contra hi
        simpa [htp.2] using hinv.tgt_of_pos htp.1 (Nat.pos_of_ne_zero hi)
      simp [hi, htp]
    · rename_i htp
      simp [htp]

/-- Once a search path for targets has saved its candidate, or in a search path not for
    targets, the loop returns the first candidate taken, and else what the saved candidate
    gives. -/
theorem searchLoop_eq_find {maxlen : Nat} {mtime : Option Nat} (hf : file.head? ≠ some '/')
    (hcomp : ¬ ['/', '/'] <:+: file) (hnul : nul ∉ file) :
    ∀ {i : Nat} {ds : List (List Char)} {st : SearchState},
      (∀ d ∈ ds, d.length ≤ maxlen ∧ d ≠ [] ∧ d.getLast? ≠ some '/' ∧ nul ∉ d) →
      LoopInv isTargetPath (bufferSize maxlen file) i mtime st →
        (isTargetPath → st.tgt.isSome) →
      searchLoop env junk isTargetPath isTarget file pathIndex i ds st =
        match (ds.enumFrom i).find?
            (fun e => acceptsName env isTargetPath isTarget (e.2 ++ '/' :: file)) with
        | some (j, d) =>
          .ok (some (d ++ '/' :: file),
            mtime.map fun _ => acceptedMtime env isTarget (d ++ '/' :: file) (d ++ '/' :: file),
            pathIndex.map fun _ => j)
        | none => searchEnd isTargetPath pathIndex st
  | _, [], _, _, _, _ => rfl
  | i, d :: ds, st, hds, hinv, htgt => by
    obtain ⟨hd, hd₁, hd₂, hd₃⟩ := hds d (List.mem_cons_self d ds)
    obtain ⟨st', hinv', htgt', h⟩ :=
      searchDir_eq_accepts env junk isTarget pathIndex hinv hd hd₁ hd₂ hd₃ hf hcomp hnul
    have hkeep : st'.tgt = st.tgt := by
      rw [htgt']; cases isTargetPath <;> cases hs : st.tgt <;> simp_all
    rw [List.enumFrom_cons, List.find?_cons]
    cases hacc : acceptsName env isTargetPath isTarget (d ++ '/' :: file)
    · simp only [searchLoop, h, hacc, Bool.false_eq_true, if_false, ok_bind]
      rw [searchLoop_eq_find hf hcomp hnul (fun d hd => hds d (List.mem_cons_of_mem _ hd)) hinv'
          (by rwa [hkeep])]
      simp only [searchEnd, hkeep, hinv.mtimePtr_eq, hinv'.mtimePtr_eq, hinv.mtime_eq,
        hinv'.mtime_eq]
    · simp [searchLoop, h, hacc]

end Found

/-- For a search path whose directories do not end in a slash and a file name that does not
    start at the root and has no empty component, a search goes as `searchSpec` says. -/
theorem selectiveVpathSearch_spec (env : Env) (junk : Nat → Char) (path : Vpath)
    (file : List Char) (mtime pathIndex : Option Nat)
    (hpath : ∀ d ∈ path.searchpath, d.getLast? ≠ some '/') (hf : file.head? ≠ some '/')
    (hcomp : ¬ ['/', '/'] <:+: file) (hnul : nul ∉ file) :
    selectiveVpathSearch env junk path file mtime pathIndex =
      .ok (searchSpec env path file mtime pathIndex) := by
  have hvalid : ∀ d ∈ path.searchpath, d.length ≤ path.maxlen ∧ d ≠ [] ∧
      d.getLast? ≠ some '/' ∧ nul ∉ d := fun d hd =>
    ⟨path.length_le_maxlen d hd, path.entry_ne_nil d hd, hpath d hd, path.nul_not_mem d hd⟩
  have hinv := loopInv_start path.targetGoal junk mtime (bufferSize path.maxlen file)
  unfold selectiveVpathSearch searchSpec
  generalize (env.lookupFile file).any (·.isTarget) = isTarget
  cases hsp : path.searchpath with
  | nil => exact absurd hsp path.searchpath_ne_nil
  | cons d ds =>
    rw [hsp] at hvalid
    obtain ⟨hd, hd₁, hd₂, hd₃⟩ := hvalid d (List.mem_cons_self d ds)
    obtain ⟨st, hinv', htgt, h⟩ :=
      searchDir_eq_accepts env junk isTarget pathIndex hinv hd hd₁ hd₂ hd₃ hf hcomp hnul
    simp only [List.enum_cons, List.find?_cons]
    rw [bufferSize] at h
    cases hacc : acceptsName env path.targetGoal isTarget (d ++ '/' :: file)
    · have htgt' : path.targetGoal → st.tgt.isSome := by simp [htgt]
      simp only [searchLoop, h, hacc, Bool.false_eq_true, if_false, ok_bind]
      rw [searchLoop_eq_find env junk isTarget pathIndex hf hcomp hnul
        (fun d hd => hvalid d (List.mem_cons_of_mem _ hd)) hinv' htgt']
      cases (List.enumFrom 1 ds).find? _ with
      | some e => rfl
      | none =>
        have hcnul : nul ∉ d ++ '/' :: file := by
          simp only [List.mem_append, List.mem_cons, not_or]
          exact ⟨hd₃, by decide, hnul⟩
        have hpos : 0 < (d ++ '/' :: file).length := List.length_pos.2 (by simp)
        rw [List.headD_cons]
        generalize d ++ '/' :: file = c at htgt hcnul hpos ⊢
        cases htp : path.targetGoal <;> cases mtime <;>
          simp [searchEnd, htgt, htp, hinv'.mtimePtr_eq, hinv'.mtime_eq, cstr_of_nul_not_mem hcnul,
            hpos]
    · simp [searchLoop, h, hacc]

/-- In the POSIX build, for a search path whose directories do not end in a slash and a file
    name that does not start at the root and has no empty component, `selective_vpath_search`
    returns the candidate `d/file` of the first directory `d` whose candidate is taken, with that
    directory's index and the time the candidate gives; a search path for targets falls back on
    its first directory, with an unknown time; otherwise it returns nothing and touches neither
    the time nor the index. -/
theorem selectiveVpathSearch_eq_searchSpec (env : Env) (junk : Nat → Char) (path : Vpath)
    (file : List Char) (mtime pathIndex : Option Nat)
    (hpath : ∀ d ∈ path.searchpath, d.getLast? ≠ some '/') (hf : file.head? ≠ some '/')
    (hcomp : ¬ ['/', '/'] <:+: file) (hnul : nul ∉ file) :
    selectiveVpathSearch env junk path file mtime pathIndex =
      .ok (searchSpec env path file mtime pathIndex) :=
  selectiveVpathSearch_spec env junk path file mtime pathIndex hpath hf hcomp hnul

/-- The search path of `vpath % src:lib`. -/
def srcLibVpath : Vpath where
  pattern := ['%']
  percent := some 0
  searchpath := ["src".toList, "lib".toList]
  maxlen := 3
  targetGoal := false
  searchpath_ne_nil := by decide
  entry_ne_nil := by decide
  nul_not_mem := by decide
  length_le_maxlen := by decide

theorem selectiveVpathSearch_srcLib :
    selectiveVpathSearch ⟨fun _ => none, fun d _ => d == "lib".toList, fun _ => some 42⟩
        (fun _ => ' ') srcLibVpath "util.c".toList (some 0) (some 0) =
      .ok (searchSpec ⟨fun _ => none, fun d _ => d == "lib".toList, fun _ => some 42⟩
        srcLibVpath
        "util.c".toList (some 0) (some 0)) :=
  selectiveVpathSearch_eq_searchSpec _ _ _ _ _ _ (by decide) (by decide) (by decide) (by decide)

end MakePlus
