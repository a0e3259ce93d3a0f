import MakePlus.Basic

/-!
# The automatic variables of a rule

`set_file_variables (file, stem)` defines the automatic variables of a target before its
commands run: `$@` and `$%` (the target, or the archive and the member), `$*` (the stem), `$<`
(the first normal prerequisite), and the prerequisite lists `$+` (every normal prerequisite, in
order), `$^` (the same without repeats), `$?` (those of `$^` that changed) and `$|` (the
order-only ones, without repeats). A name is written with a backslash before each space
(`copy_escaped_name`); `dupEscapedName_eq`: the copy `dup_escaped_name` makes fits the buffer it
takes from the stack. `targetVars` defines the variables of the target itself, and
`prereqLists` the four lists.

The four lists are written into three static buffers that only grow: `sourcesdup` (for `$+`, then
reused for `$^`), `newsources` and `orderonly`. Each is first grown to a size computed from the
prerequisites, then written name by name. The sizes are computed before the loop that removes
repeats, and that loop makes an order-only prerequisite normal when the same name is also a
normal one; `$?` is then written from the flags after that change.
-/

namespace MakePlus

/-- A prerequisite (`struct dep`), as `set_file_variables` reads it: its name (`dep_name`) and
    its flags. -/
structure Dep where
  name : List Char
  ignoreMtime : Bool
  need2ndExpansion : Bool
  ignoreAutomaticVars : Bool
  changed : Bool
  deriving DecidableEq, Repr

/-- Whether a prerequisite is left out of every list: its name is expanded a second time, or it
    stays out of the automatic variables. -/
def Dep.skipped (d : Dep) : Bool := d.need2ndExpansion || d.ignoreAutomaticVars

/-! ## Escaped names -/

/-- `escaped_name_length (name)`: `strlen (name)`, plus one for every space. -/
def escapedNameLength (name : List Char) : Nat :=
  name.foldl (fun len c => if c = ' ' then len + 1 else len) name.length

/-- `copy_escaped_name (dest, name, terminate)`, writing at offset `off` of the buffer `dest`:
    each character of `name`, a space after a backslash, and a NUL when `terminate` is set. -/
def copyEscapedName (dest : List Char) (off : Nat) : List Char → Bool → Except Fault (List Char)
  | [], terminate => if terminate then store dest off nul else pure dest
  | c :: name, terminate => do
    if c = ' ' then
      let dest ← store dest off '\\'
      let dest ← store dest (off + 1) c
      copyEscapedName dest (off + 2) name terminate
    else
      let dest ← store dest off c
      copyEscapedName dest (off + 1) name terminate

/-- `dup_escaped_name (target, name)`: the escaped name in a buffer from `alloca` of
    `escaped_name_length (name) + 1` bytes. -/
def dupEscapedName (junk : Nat → Char) (name : List Char) : Except Fault (List Char) := do
  let target ← copyEscapedName (alloc (escapedNameLength name + 1) junk) 0 name true
  pure (cstr target)

theorem foldl_count_space (name : List Char) (n : Nat) :
    name.foldl (fun len c => if c = ' ' then len + 1 else len) n = n + name.count ' ' := by
  induction name generalizing n with
  | nil => simp
  | cons c name ih => by_cases hc : c = ' ' <;> simp [ih, hc, List.count_cons]; omega

/-- `escaped_name_length` counts the bytes `copy_escaped_name` writes. -/
theorem length_escapeName (name : List Char) :
    (escapeName name).length = escapedNameLength name := by
  rw [escapedNameLength, foldl_count_space]
  induction name with
  | nil => rfl
  | cons c name ih =>
    by_cases hc : c = ' ' <;> simp [escapeName, hc, List.count_cons] at ih ⊢ <;> omega

/-- `copy_escaped_name` writes the escaped name, `escaped_name_length (name)` bytes, and then the
    terminator when asked. -/
theorem copyEscapedName_eq (name : List Char) (terminate : Bool) :
    ∀ {dest : List Char} {off : Nat}, off ≤ dest.length →
      copyEscapedName dest off name terminate = (do
        let dest ← memcpy dest off (escapeName name)
        if terminate then store dest (off + escapedNameLength name) nul else pure dest) := by
  induction name with
  | nil =>
    intro dest off h
    rw [memcpy_of_le (by simpa [escapeName] using h)]
    simp [copyEscapedName, escapeName, escapedNameLength]
  | cons c name ih =>
    intro dest off h
    have hlen : escapedNameLength (c :: name) =
        (if c = ' ' then 2 else 1) + escapedNameLength name := by
      rw [← length_escapeName, ← length_escapeName]
      by_cases hc : c = ' ' <;> simp [escapeName, hc] <;> omega
    by_cases hc : c = ' '
    · have hesc : escapeName (c :: name) = '\\' :: ' ' :: escapeName name := by
        simp [escapeName, hc]
      simp only [copyEscapedName, hesc, hlen, if_pos hc, memcpy_cons, bind_assoc]
      cases h₁ : store dest off '\\' with
      | error e => rfl
      | ok d₁ =>
        cases h₂ : store d₁ (off + 1) ' ' with
        | error e => simp [h₂, hc]
        | ok d₂ =>
          have := lt_of_store_eq_ok h₂
          simp only [ok_bind, hc, h₂]
          rw [ih (by omega)]
          simp only [Nat.add_assoc]
    · have hesc : escapeName (c :: name) = c :: escapeName name := by
        simp [escapeName, hc]
      simp only [copyEscapedName, hesc, hlen, if_neg hc, memcpy_cons, bind_assoc]
      cases h₁ : store dest off c with
      | error e => rfl
      | ok d₁ =>
        have := lt_of_store_eq_ok h₁
        simp only [ok_bind]
        rw [ih (by omega)]
        simp only [Nat.add_assoc, Nat.add_comm 1]

theorem nul_not_mem_escapeName {name : List Char} (h : nul ∉ name) : nul ∉ escapeName name := by
  simp only [escapeName, List.mem_flatMap, not_exists, not_and]
  intro c hc
  split <;> simp only [List.mem_cons, List.mem_singleton, List.not_mem_nil, or_false]
  · decide
  · exact fun he => h (he ▸ hc)

/-- The buffer `dup_escaped_name` takes from `alloca`, `escaped_name_length (name) + 1` bytes,
    holds the escaped name and its NUL: the copy stays inside it, and the string read back is the
    escaped name, whatever the stack held. -/
theorem dupEscapedName_eq (junk : Nat → Char) {name : List Char} (h : nul ∉ name) :
    dupEscapedName junk name = .ok (escapeName name) := by
  have hlen := length_escapeName name
  have hcopy : memcpy (alloc (escapedNameLength name + 1) junk) 0 (escapeName name) =
      .ok (escapeName name ++ [junk (escapedNameLength name)]) := by
    rw [memcpy_of_le (by simp [hlen])]
    simp [alloc, List.range_succ, hlen]
  have hstore := store_append (w := escapeName name) (r := [])
    (x := junk (escapedNameLength name)) (c := nul)
  rw [hlen] at hstore
  rw [dupEscapedName, copyEscapedName_eq _ _ (Nat.zero_le _), hcopy]
  simp [hstore, cstr_append_nul (nul_not_mem_escapeName h)]

/-! ## Archive members -/

/-- Modelled from the spec: `ar_name (name)`, GNU make's test for an archive member `lib(m)`
    (ar.c): a `(` that is not the first character, and a `)` at the end that is not that `(`; a
    name `lib((m))` is a fatal error. -/
def arName (name : List Char) : Except Fault Bool :=
  match name.findIdx? (· = '(') with
  | none => pure false
  | some 0 => pure false
  | some i =>
    let p := name.drop i
    if p.getLast? ≠ some ')' || p.length = 1 then pure false
    else if p[1]? = some '(' && p.dropLast.getLast? = some ')' then .error .fatal
    else pure true

/-- The name a list gets for a prerequisite, with its length `len` (lines 273-282): for an
    archive member `lib(m)`, what follows the `(`, whose last character, the `)`, the separator
    then overwrites. -/
def listedName (name : List Char) : Except Fault (List Char × Nat) := do
  if ← arName name then
    let c := (name.dropWhile (· != '(')).drop 1
    pure (c, escapedNameLength c - 1)
  else pure (name, escapedNameLength name)

/-- Modelled from the spec: `FILE_LIST_SEPARATOR`, the separator of file lists, a space. -/
def fileListSeparator : Char := ' '

/-- `copy_escaped_name (cp, c, 0); cp += len; *cp++ = FILE_LIST_SEPARATOR;`: the name `c` and a
    separator written at `cp` of `buf`, with the new `cp`. -/
def putListed (buf : List Char) (cp : Nat) (c : List Char) (len : Nat) :
    Except Fault (List Char × Nat) := do
  let buf ← copyEscapedName buf cp c false
  let buf ← store buf (cp + len) fileListSeparator
  pure (buf, cp + len + 1)

/-- `cp[cp > start ? -1 : 0] = '\0'`: the last separator, or the first byte of an empty list,
    becomes the terminator. -/
def killLastSpace (buf : List Char) (cp : Nat) : Except Fault (List Char) :=
  store buf (if cp > 0 then cp - 1 else 0) nul

/-! ## The target -/

/-- Lines 120-129: `$@` and `$%` of an archive member whose `(` is at offset `i` of `name`: the
    archive and the member without its last byte, each copied into a buffer from `alloca` and
    terminated there, then escaped. -/
def archiveVars (junk : Nat → Char) (name : List Char) (i : Nat) :
    Except Fault (List Char × List Char) := do
  let p ← memcpy (alloc (i + 1) junk) 0 (name.take i)
  let p ← store p i nul
  let vtarget ← dupEscapedName junk (cstr p)
  let len := (name.drop (i + 1)).length
  let p ← memcpy (alloc len junk) 0 ((name.drop (i + 1)).take (len - 1))
  let p ← store p (len - 1) nul
  let vmember ← dupEscapedName junk (cstr p)
  pure (vtarget, vmember)

/-- Lines 114-136: `$@` and `$%`, the archive and the member of an archive member, else the
    target and nothing. -/
def targetAndMember (junk : Nat → Char) (name : List Char) (isAr : Bool) :
    Except Fault (List Char × List Char) :=
  if isAr then
    match name.findIdx? (· = '(') with
    | some i => archiveVars junk name i
    | none => .error .readOutOfBounds
  else do
    let vtarget ← dupEscapedName junk name
    pure (vtarget, [])

/-- Lines 139-171, `$*` when the rule gives no stem: the target name, or the member of an
    archive member (what follows its `(`, without the last byte), less the first suffix of
    `.SUFFIXES` (`suffixes`, in order) that it is longer than and ends with; empty when there is
    none. -/
def suffixStem (name : List Char) (isAr : Bool) (suffixes : List (List Char)) : List Char :=
  let name := if isAr then (name.dropWhile (· != '(')).drop 1 else name
  let len := if isAr then name.length - 1 else name.length
  match suffixes.find? fun dn =>
      len > dn.length && strneq dn (name.drop (len - dn.length)) dn.length with
  | some dn => cstr (name.take (len - dn.length))
  | none => []

/-- Lines 176-182: `$<`, the first normal prerequisite, escaped, or nothing. -/
def firstSource (junk : Nat → Char) (deps : List Dep) : Except Fault (List Char) :=
  match deps.find? fun d => !d.ignoreMtime && !d.ignoreAutomaticVars && !d.need2ndExpansion with
  | some d => dupEscapedName junk d.name
  | none => pure []

/-- The variables of the target itself: `$@`, `$%`, `$*` and `$<`. -/
structure TargetVars where
  target : List Char
  member : List Char
  stem : List Char
  source : List Char
  deriving DecidableEq, Repr

/-- Lines 114-187 of `set_file_variables (file, stem)`, for the target `name`, the stem `stem`
    (`none` for a null pointer), the names of the prerequisites of `.SUFFIXES`, and whether the
    target has the commands of `.DEFAULT` (whose `$<` is `$@`): the variables, and the stem the
    file keeps. -/
def targetVars (junk : Nat → Char) (name : List Char) (stem : Option (List Char))
    (suffixes : List (List Char)) (deps : List Dep) (fromDefault : Bool) :
    Except Fault (TargetVars × List Char) := do
  let isAr ← arName name
  let (vtarget, vmember) ← targetAndMember junk name isAr
  let stem := stem.getD (suffixStem name isAr suffixes)
  let vstem ← dupEscapedName junk stem
  let vsource ← firstSource junk deps
  pure (⟨vtarget, vmember, vstem, if fromDefault then vtarget else vsource⟩, stem)

/-! ## The prerequisite lists -/

/-- The three static buffers of `set_file_variables`, each as long as it was last grown
    (`newsources_max`, `sourcesdup_max`, `orderonly_max`). -/
structure Statics where
  newsources : List Char
  sourcesdup : List Char
  orderonly : List Char
  deriving DecidableEq, Repr

/-- `if (len > max) buf = xrealloc (buf, max = len)`: a static buffer grown to `len` bytes,
    keeping its bytes, the new ones holding `junk`. -/
def grow (buf : List Char) (len : Nat) (junk : Nat → Char) : List Char :=
  if len > buf.length then buf ++ alloc (len - buf.length) junk else buf

/-- Lines 238-256: `sourcesdup_len` and `orderonly_len`, the room of the normal and of the
    order-only prerequisites, each at least 1. -/
def listLengths (deps : List Dep) : Nat × Nat :=
  let (sourcesdupLen, orderonlyLen) := deps.foldl (fun (s, o) d =>
    if !d.need2ndExpansion && !d.ignoreAutomaticVars then
      if d.ignoreMtime then (s, o + escapedNameLength d.name + 1)
      else (s + escapedNameLength d.name + 1, o)
    else (s, o)) (0, 0)
  (if sourcesdupLen = 0 then 1 else sourcesdupLen, if orderonlyLen = 0 then 1 else orderonlyLen)

/-- The loop of lines 265-286: `$+`, each normal prerequisite written at `cp`, and
    `newsources_len`, less the room of each one that did not change. -/
def plusLoop (alwaysMakeFlag : Bool) :
    List Dep → List Char → Nat → Nat → Except Fault (List Char × Nat × Nat)
  | [], buf, cp, newsourcesLen => pure (buf, cp, newsourcesLen)
  | d :: deps, buf, cp, newsourcesLen => do
    if !d.ignoreMtime && !d.need2ndExpansion && !d.ignoreAutomaticVars then
      let (c, len) ← listedName d.name
      let (buf, cp') ← putListed buf cp c len
      let newsourcesLen :=
        if !(d.changed || alwaysMakeFlag) then newsourcesLen - (len + 1) else newsourcesLen
      plusLoop alwaysMakeFlag deps buf cp' newsourcesLen
    else plusLoop alwaysMakeFlag deps buf cp newsourcesLen

/-- One turn of the loop of lines 322-340 on the `i`-th prerequisite, with `table` the hash table
    `dep_hash` from names to the first prerequisite of each: a prerequisite of a new name goes
    into the table, and one whose name is there with the other `ignore_mtime` makes both
    normal. -/
def dedupStep (s : List Dep × List (List Char × Nat)) (i : Nat) :
    List Dep × List (List Char × Nat) :=
  let (deps, table) := s
  match deps[i]? with
  | none => s
  | some d =>
    if d.skipped then s
    else match table.lookup d.name with
      | none => (deps, table ++ [(d.name, i)])
      | some j =>
        match deps[j]? with
        | some hd =>
          if d.ignoreMtime != hd.ignoreMtime then
            (((deps.set i { d with ignoreMtime := false }).set j { hd with ignoreMtime := false }),
              table)
          else s
        | none => s

/-- The loop of lines 322-340 over every prerequisite: the prerequisites with their flags as it
    leaves them, and the table. -/
def dedup (deps : List Dep) : List Dep × List (List Char × Nat) :=
  (List.range deps.length).foldl dedupStep (deps, [])

/-- The pointers `cp`, `qp` and `bp` into `sources`, `newsources` and `orderonly`, with the
    three buffers. -/
structure ListCursor where
  sources : List Char
  cp : Nat
  newsources : List Char
  qp : Nat
  orderonly : List Char
  bp : Nat
  deriving DecidableEq, Repr

/-- The loop of lines 342-372 over the prerequisites from the `i`-th: the first prerequisite of
    each name goes to `$|` when order-only, else to `$^`, and to `$?` when it changed. -/
def listLoop (alwaysMakeFlag : Bool) (table : List (List Char × Nat)) :
    Nat → List Dep → ListCursor → Except Fault ListCursor
  | _, [], k => pure k
  | i, d :: deps, k => do
    if d.skipped || table.lookup d.name != some i then
      listLoop alwaysMakeFlag table (i + 1) deps k
    else
      let (c, len) ← listedName d.name
      if d.ignoreMtime then
        let (orderonly, bp) ← putListed k.orderonly k.bp c len
        listLoop alwaysMakeFlag table (i + 1) deps { k with orderonly, bp }
      else
        let (sources, cp) ← putListed k.sources k.cp c len
        let k := { k with sources, cp }
        if d.changed || alwaysMakeFlag then
          let (newsources, qp) ← putListed k.newsources k.qp c len
          listLoop alwaysMakeFlag table (i + 1) deps { k with newsources, qp }
        else listLoop alwaysMakeFlag table (i + 1) deps k

/-- The prerequisite lists of `set_file_variables`: `$+`, `$^`, `$?` and `$|`. -/
structure PrereqLists where
  sourcesDup : List Char
  sources : List Char
  newSources : List Char
  orderOnly : List Char
  deriving DecidableEq, Repr

/-- Lines 223-374 of `set_file_variables`: the prerequisite lists of `deps`, the prerequisites
    as the loop removing repeats leaves them, and the static buffers. -/
def prereqLists (junk : Nat → Char) (alwaysMakeFlag : Bool) (deps : List Dep) (s : Statics) :
    Except Fault (PrereqLists × List Dep × Statics) := do
  let (sourcesdupLen, orderonlyLen) := listLengths deps
  let sourcesdup := grow s.sourcesdup sourcesdupLen junk
  let (sourcesdup, cp, newsourcesLen) ←
    plusLoop alwaysMakeFlag deps sourcesdup 0 (sourcesdupLen + 1)
  let sourcesdup ← killLastSpace sourcesdup cp
  let sourcesDup := cstr sourcesdup
  let newsources := grow s.newsources newsourcesLen junk
  let orderonly := grow s.orderonly orderonlyLen junk
  let (deps, table) := dedup deps
  let k ← listLoop alwaysMakeFlag table 0 deps ⟨sourcesdup, 0, newsources, 0, orderonly, 0⟩
  let sources ← killLastSpace k.sources k.cp
  let newsources ← killLastSpace k.newsources k.qp
  let orderonly ← killLastSpace k.orderonly k.bp
  pure (⟨sourcesDup, cstr sources, cstr newsources, cstr orderonly⟩, deps,
    ⟨newsources, sources, orderonly⟩)

/-- `set_file_variables (file, stem)` for the target `name` and its prerequisites `deps`: the
    variables of the target, the stem the file keeps, the prerequisite lists, the prerequisites
    as the loop removing repeats leaves them (the same `struct dep` entries, which the file
    keeps), and the static buffers. -/
def setFileVariables (junk : Nat → Char) (alwaysMakeFlag : Bool) (name : List Char)
    (stem : Option (List Char)) (suffixes : List (List Char)) (deps : List Dep) (fromDefault : Bool)
    (s : Statics) :
    Except Fault (TargetVars × List Char × PrereqLists × List Dep × Statics) := do
  let (vars, stem) ← targetVars junk name stem suffixes deps fromDefault
  let (lists, deps, s) ← prereqLists junk alwaysMakeFlag deps s
  pure (vars, stem, lists, deps, s)

/-- An order-only prerequisite that changed and the same name as a normal one that did not:
    `newsources_len` leaves no room for the name, since the normal one did not change, but the
    loop removing repeats makes the first one normal, and `$?` gets it and its separator. -/
theorem prereqLists_newsources_overflow (junk : Nat → Char) :
    prereqLists junk false
        [⟨"a".toList, true, false, false, true⟩, ⟨"a".toList, false, false, false, false⟩]
        ⟨[], [], []⟩ = .error .writeOutOfBounds := by
  rfl

end MakePlus
