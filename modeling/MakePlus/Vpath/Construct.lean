import MakePlus.Vpath.Basic
import MakePlus.Pathstuff

/-!
# Building the search paths

`construct_vpath_list (pattern, dirpath, is_target_path)` either removes search paths (a null
`dirpath`) or parses `dirpath` into the directories of a new search path, which it pushes at the
head of the chain `vpaths`. The parse skips blanks and separators, then takes an entry up to a
separator or to a blank that no odd run of backslashes escapes; an entry loses one trailing
slash unless it is the root, and `.` entries are dropped. On Windows the directory string is
first converted from the Windows syntax (`convertVpathFromWindows32`).

`build_vpath_lists` reverses the chain once all the makefiles are read, so that the search paths
are searched in the order they were declared, and builds the general search path from `VPATH`
and the GPATH list from `GPATH`, each on an empty chain of its own.

* `mem_searchpathOf`, `le_maxLength`: the directories of a built search path are non-empty, free
  of NUL and at most `maxlen` long, as the fields of `Vpath` require;
* `runDirectives_eq_reverse`: before `build_vpath_lists`, the chain is the reverse of the search
  paths created and not removed since;
* `buildVpathLists_runDirectives`: after `build_vpath_lists` the chain is `declaredChain`, the
  search paths declared and matched by no later removal under the rule `removeMatches`, unless
  the Windows build frees a moved pointer: there `construct_vpath_list` skips the blanks and
  separators that start the converted directory string by moving the pointer it later frees;
* `gpathSearch_iff`: the test of `gpath_search` against `maxlen` never discards a match.
-/

namespace MakePlus

/-- The build configuration the parse depends on. -/
structure Platform where
  /-- `PATH_SEPARATOR_CHAR`, between the entries of a search path. -/
  pathSeparatorChar : Char
  /-- `HAVE_DOS_PATHS`: drive letters, and backslashes as directory separators. -/
  haveDosPaths : Bool
  /-- `WINDOWS32`: a directory string is first converted from the Windows syntax. -/
  windows32 : Bool
  deriving DecidableEq, Repr

/-- The POSIX build: `:` between entries. -/
def Platform.posix : Platform := ⟨':', false, false⟩

/-- The Windows build: `;` between entries, DOS paths, Windows syntax. -/
def Platform.windows : Platform := ⟨';', true, true⟩

/-- `STOP_SET (c, MAP_BLANK|MAP_PATHSEP)`: a blank or the path separator. -/
def isStop (pf : Platform) (c : Char) : Bool := isBlank c || c == pf.pathSeparatorChar

/-- The loop skipping the separators and blanks before and between entries. -/
def skipSeps (pf : Platform) (s : List Char) : List Char := s.dropWhile (isStop pf)

/-- The condition of the inner loop of the parse: the character `c`, at offset `k` of the entry
    and before `cs`, belongs to the entry. -/
def inEntry (pf : Platform) (isescaped : Bool) (k : Nat) (c : Char) (cs : List Char) : Bool :=
  c != nul &&
    (c != pf.pathSeparatorChar || (pf.haveDosPaths && pf.pathSeparatorChar == ':' && k == 1 &&
      (cs.head? == some '/' || cs.head? == some '\\'))) &&
    (!isBlank c || isescaped)

/-- The end of an entry, the inner loop of the parse: the number of characters of `s` before the
    first NUL, separator, or blank that no odd run of backslashes escapes. `isescaped` is the
    parity of the backslashes just read and `k` the offset from the start of the entry
    (`p - v`): with DOS paths and `:` as separator, a colon at offset 1 before a slash is a
    drive's. -/
def scanEntry (pf : Platform) : (isescaped : Bool) → (k : Nat) → List Char → Nat
  | _, _, [] => 0
  | isescaped, k, c :: cs =>
    if inEntry pf isescaped k c cs then
      scanEntry pf (if c = '\\' then !isescaped else false) (k + 1) cs + 1
    else 0

/-- The entries of `s`, the outer loop of the parse, for at most `fuel` rounds: each entry runs to
    the end `scanEntry` finds, and the separators and blanks after it are skipped. -/
def entries (pf : Platform) : (fuel : Nat) → List Char → List (List Char)
  | 0, _ => []
  | fuel + 1, s =>
    match s with
    | [] => []
    | c :: _ =>
      if c = nul then []
      else
        let n := scanEntry pf false 0 s
        s.take n :: entries pf fuel (skipSeps pf (s.drop n))

/-- The length of the entry `v` with one trailing slash stripped, unless `v` is `/` (or, with
    DOS paths, a drive's root such as `c:/`). -/
def stripLen (pf : Platform) (v : List Char) : Nat :=
  if pf.haveDosPaths then
    if (v.length > 3 || (v.length > 1 && v.get? 1 != some ':')) &&
        (v.getLast? == some '/' || v.getLast? == some '\\') then v.length - 1
    else v.length
  else if v.length > 1 && v.getLast? == some '/' then v.length - 1
  else v.length

/-- The entries of the directory string `dirpath`: the parse skips the separators and blanks it
    starts with, then runs for as many rounds as `dirpath` has characters, each round taking at
    least one (`entries_skipSeps`). -/
def tokens (pf : Platform) (dirpath : List Char) : List (List Char) :=
  entries pf dirpath.length (skipSeps pf dirpath)

/-- The directories `construct_vpath_list` puts on the search path for `dirpath`: each entry,
    stripped, unless it is `.` (`len > 1 || *v != '.'`). -/
def searchpathOf (pf : Platform) (dirpath : List Char) : List (List Char) :=
  (tokens pf dirpath).filterMap fun v =>
    if stripLen pf v > 1 || v.head? != some '.' then some (v.take (stripLen pf v)) else none

/-- `maxvpath`, the length of the longest directory. -/
def maxLength (ds : List (List Char)) : Nat := ds.foldl (fun m d => max m d.length) 0

/-! ### The directories of a search path -/

section Entries

variable {pf : Platform}

theorem nul_not_mem_take_scanEntry (isescaped : Bool) (k : Nat) (s : List Char) :
    nul ∉ s.take (scanEntry pf isescaped k s) := by
  induction s generalizing isescaped k with
  | nil => simp
  | cons c cs ih =>
    unfold scanEntry
    split
    · rename_i h
      simp only [inEntry, Bool.and_eq_true, bne_iff_ne, ne_eq] at h
      simp only [List.take_succ_cons, List.mem_cons, not_or]
      exact ⟨Ne.symm h.1.1, ih _ _⟩
    · simp

/-- An entry starting with a character that stops nothing is not empty. -/
theorem scanEntry_pos {c : Char} (cs : List Char) (hc : c ≠ nul) (hs : isStop pf c = false) :
    0 < scanEntry pf false 0 (c :: cs) := by
  simp only [isStop, Bool.or_eq_false_iff, beq_eq_false_iff_ne] at hs
  simp [scanEntry, inEntry, hc, hs.1, hs.2]

theorem isStop_head_skipSeps (s : List Char) :
    ∀ c ∈ (skipSeps pf s).head?, isStop pf c = false := by
  intro c hc
  have hne : skipSeps pf s ≠ [] := by rintro h; simp [h] at hc
  rw [Option.mem_def, List.head?_eq_head hne, Option.some.injEq] at hc
  exact hc ▸ List.head_dropWhile_not (isStop pf) s hne

theorem entries_skipSeps (fuel : Nat) (s : List Char) :
    ∀ v ∈ entries pf fuel (skipSeps pf s), v ≠ [] ∧ nul ∉ v := by
  induction fuel generalizing s with
  | zero => simp [entries]
  | succ fuel ih =>
    intro v hv
    cases h : skipSeps pf s with
    | nil => simp [h, entries] at hv
    | cons c cs =>
      have hs : isStop pf c = false := isStop_head_skipSeps s c (by simp [h])
      rw [h, entries] at hv
      split_ifs at hv with hc
      · simp at hv
      · rcases List.mem_cons.mp hv with rfl | hv
        · refine ⟨?_, nul_not_mem_take_scanEntry _ _ _⟩
          simpa [List.take_eq_nil_iff] using (scanEntry_pos cs hc hs).ne'
        · exact ih _ v hv

theorem stripLen_le (v : List Char) : stripLen pf v ≤ v.length := by
  unfold stripLen; split_ifs <;> omega

theorem stripLen_pos {v : List Char} (hv : v ≠ []) : 0 < stripLen pf v := by
  have := List.length_pos.mpr hv
  unfold stripLen; split_ifs <;> simp_all
  all_goals omega

/-- The directories of a search path are non-empty and free of NUL. -/
theorem mem_searchpathOf {dirpath d : List Char} (hd : d ∈ searchpathOf pf dirpath) :
    d ≠ [] ∧ nul ∉ d := by
  simp only [searchpathOf, tokens, List.mem_filterMap, Option.ite_none_right_eq_some,
    Option.some.injEq] at hd
  obtain ⟨v, hv, -, rfl⟩ := hd
  obtain ⟨hne, hnul⟩ := entries_skipSeps _ _ v hv
  refine ⟨?_, fun h => hnul (List.mem_of_mem_take h)⟩
  simpa [List.take_eq_nil_iff, hne] using (stripLen_pos hne).ne'

end Entries

theorem le_foldl_max (ds : List (List Char)) (m : Nat) :
    m ≤ ds.foldl (fun m d => max m d.length) m := by
  induction ds generalizing m with
  | nil => simp
  | cons d ds ih => exact (le_max_left _ _).trans (ih _)

theorem le_maxLength {ds : List (List Char)} {d : List Char} (hd : d ∈ ds) :
    d.length ≤ maxLength ds := by
  unfold maxLength
  generalize 0 = m
  induction ds generalizing m with
  | nil => simp at hd
  | cons e ds ih =>
    rcases List.mem_cons.mp hd with rfl | hd
    · exact (le_max_right _ _).trans (le_foldl_max _ _)
    · exact ih hd _

/-! ### Directives -/

/-- The search path `construct_vpath_list` builds for `pattern` and the directory string
    `dirpath` (after the Windows conversion), or `none` when no directory is left. -/
def newVpath (pf : Platform) (pattern dirpath : List Char) (isTargetPath : Bool) :
    Option Vpath :=
  match h : searchpathOf pf dirpath with
  | [] => none
  | d :: ds => some
    { pattern := (findPercent pattern).1
      percent := (findPercent pattern).2
      searchpath := d :: ds
      maxlen := maxLength (d :: ds)
      targetGoal := isTargetPath
      searchpath_ne_nil := List.cons_ne_nil d ds
      entry_ne_nil := fun _ he => (mem_searchpathOf (h ▸ he)).1
      nul_not_mem := fun _ he => (mem_searchpathOf (h ▸ he)).2
      length_le_maxlen := fun _ he => le_maxLength he }

/-- `newVpath` creates a search path exactly when a directory is left, and then stores the
    directories, the greatest of their lengths, the category and the pattern as `find_percent`
    leaves it. -/
theorem newVpath_spec (pf : Platform) (pattern dirpath : List Char) (isTargetPath : Bool) :
    (searchpathOf pf dirpath = [] ∧ newVpath pf pattern dirpath isTargetPath = none) ∨
      ∃ v, newVpath pf pattern dirpath isTargetPath = some v ∧
        v.searchpath = searchpathOf pf dirpath ∧ v.maxlen = maxLength v.searchpath ∧
        v.targetGoal = isTargetPath ∧ v.pattern = (findPercent pattern).1 ∧
        v.percent = (findPercent pattern).2 := by
  unfold newVpath
  split
  · rename_i h
    exact .inl ⟨h, rfl⟩
  · rename_i h
    exact .inr ⟨_, rfl, h.symm, rfl, rfl, rfl, rfl⟩

/-- A call of `construct_vpath_list`: `add` with a directory string, `remove` with a null one
    (and a null pattern to remove every search path of the category). The callers never pass a
    directory string with a null pattern. -/
inductive Directive
  | add (pattern dirpath : List Char) (isTargetPath : Bool)
  | remove (pattern : Option (List Char)) (isTargetPath : Bool)

/-- Whether a directive with a null `dirpath` removes `path`: the same category, and a null
    pattern or the same pattern with its wildcard at the same offset (or both without one). -/
def removes (pattern : Option (List Char)) (isTargetPath : Bool) (path : Vpath) : Bool :=
  path.targetGoal == isTargetPath &&
    match pattern with
    | none => true
    | some p => (findPercent p).2 == path.percent && (findPercent p).1 == path.pattern

/-- The search path an `add` creates, after the Windows conversion when there is one. -/
def addedVpath (pf : Platform) (pattern dirpath : List Char) (isTargetPath : Bool) :
    Option Vpath :=
  if pf.windows32 then
    (convertVpathFromWindows32 dirpath ';').bind fun d => newVpath pf pattern d isTargetPath
  else newVpath pf pattern dirpath isTargetPath

/-- `construct_vpath_list` on the chain `vpaths`. -/
def constructVpathList (pf : Platform) : Directive → List Vpath → List Vpath
  | .remove pattern isTargetPath, vpaths =>
    vpaths.filter fun path => !removes pattern isTargetPath path
  | .add pattern dirpath isTargetPath, vpaths =>
    match addedVpath pf pattern dirpath isTargetPath with
    | some path => path :: vpaths
    | none => vpaths

/-- The search path a directive creates. -/
def Directive.created (pf : Platform) : Directive → Option Vpath
  | .add pattern dirpath isTargetPath => addedVpath pf pattern dirpath isTargetPath
  | .remove .. => none

/-- Whether a directive removes `path`. -/
def Directive.removesPath : Directive → Vpath → Bool
  | .add .., _ => false
  | .remove pattern isTargetPath, path => removes pattern isTargetPath path

/-- A directive pushes what it creates and filters out what it removes. -/
theorem constructVpathList_eq (pf : Platform) (d : Directive) (vpaths : List Vpath) :
    constructVpathList pf d vpaths =
      (d.created pf).toList ++ vpaths.filter fun v => !d.removesPath v := by
  cases d with
  | add pattern dirpath isTargetPath =>
    cases h : addedVpath pf pattern dirpath isTargetPath <;>
      simp [constructVpathList, Directive.created, Directive.removesPath, h]
  | remove pattern isTargetPath =>
    simp [constructVpathList, Directive.created, Directive.removesPath]

/-- The chain after the directives `ds`, from an empty chain. -/
def runDirectives (pf : Platform) (ds : List Directive) : List Vpath :=
  ds.foldl (fun vpaths d => constructVpathList pf d vpaths) []

/-- The search paths the directives `ds` leave, in the order they were declared: those created by
    an `add` that no later `remove` matches. -/
def survivors (pf : Platform) : List Directive → List Vpath
  | [] => []
  | d :: ds => (d.created pf).toList.filter (fun v => ds.all fun e => !e.removesPath v) ++
      survivors pf ds

theorem survivors_append_singleton (pf : Platform) (ds : List Directive) (d : Directive) :
    survivors pf (ds ++ [d]) =
      (survivors pf ds).filter (fun v => !d.removesPath v) ++ (d.created pf).toList := by
  induction ds with
  | nil => simp [survivors]
  | cons e ds ih => simp [survivors, ih, List.filter_filter, Bool.and_comm]

/-- Before `build_vpath_lists`, the chain is the reverse of the search paths declared and not
    removed since: a directive pushes at the head, and a removal keeps the order of the rest. -/
theorem runDirectives_eq_reverse (pf : Platform) (ds : List Directive) :
    runDirectives pf ds = (survivors pf ds).reverse := by
  induction ds using List.reverseRecOn with
  | nil => rfl
  | append_singleton ds d ih =>
    rw [runDirectives, List.foldl_append, ← runDirectives, ih, List.foldl_cons, List.foldl_nil,
      constructVpathList_eq, survivors_append_singleton, List.reverse_append, List.filter_reverse]
    cases d.created pf <;> rfl

/-! ### The chain the directives leave, in the words of its contract -/

/-- A removal with `pattern` (null for `none`) in the category `isTargetPath` matches the search
    path `v`: the same category, and either a null pattern or the pattern as `find_percent`
    stores it equal to the stored one, with the wildcard at the same offset (or neither with a
    wildcard). -/
def removeMatches (pattern : Option (List Char)) (isTargetPath : Bool) (v : Vpath) : Prop :=
  v.targetGoal = isTargetPath ∧
    ∀ p ∈ pattern, (findPercent p).1 = v.pattern ∧ (findPercent p).2 = v.percent

instance (pattern : Option (List Char)) (isTargetPath : Bool) (v : Vpath) :
    Decidable (removeMatches pattern isTargetPath v) :=
  inferInstanceAs (Decidable (_ ∧ ∀ p ∈ pattern, _))

/-- Whether a directive is a removal that matches `v`. -/
def Directive.matchesPath (d : Directive) (v : Vpath) : Bool :=
  match d with
  | .add .. => false
  | .remove pattern isTargetPath => decide (removeMatches pattern isTargetPath v)

/-- The chain after the directives `ds`, in the order they were declared: the search paths created
    by an `add` that no later removal matches. -/
def declaredChain (pf : Platform) : List Directive → List Vpath
  | [] => []
  | d :: ds =>
    (d.created pf).toList.filter (fun v => ds.all fun e => !e.matchesPath v) ++
      declaredChain pf ds

/-- The test of lines 185-189 is the matching rule. -/
theorem removes_eq_decide (pattern : Option (List Char)) (isTargetPath : Bool) (v : Vpath) :
    removes pattern isTargetPath v = decide (removeMatches pattern isTargetPath v) := by
  rw [Bool.eq_iff_iff, decide_eq_true_iff]
  cases pattern <;> simp [removes, removeMatches]
  exact fun _ => and_comm

theorem removesPath_eq_matchesPath (d : Directive) (v : Vpath) :
    d.removesPath v = d.matchesPath v := by
  cases d <;> simp [Directive.removesPath, Directive.matchesPath, removes_eq_decide]

theorem survivors_eq_declaredChain (pf : Platform) (ds : List Directive) :
    survivors pf ds = declaredChain pf ds := by
  induction ds with
  | nil => rfl
  | cons d ds ih => simp only [survivors, declaredChain, removesPath_eq_matchesPath, ih]

/-- The general search path and the GPATH list are built on an empty chain: at most one search
    path, for the pattern `%` and not for targets. -/
theorem mem_constructVpathList_percent {pf : Platform} {p : List Char} :
    (constructVpathList pf (.add ['%'] p false) []).length ≤ 1 ∧
      ∀ v ∈ constructVpathList pf (.add ['%'] p false) [],
        v.pattern = ['%'] ∧ v.percent = some 0 ∧ v.targetGoal = false := by
  have hnew : ∀ d, ∀ v ∈ newVpath pf ['%'] d false,
      v.pattern = ['%'] ∧ v.percent = some 0 ∧ v.targetGoal = false := by
    intro d v hv
    unfold newVpath at hv
    split at hv
    · cases hv
    · cases hv; exact ⟨rfl, rfl, rfl⟩
  rw [constructVpathList_eq]
  refine ⟨by cases (Directive.add ['%'] p false).created pf <;> simp, fun v hv => ?_⟩
  simp only [List.filter_nil, List.append_nil, Option.mem_toList, Directive.created,
    addedVpath] at hv
  split at hv
  · obtain ⟨d, -, hv⟩ := Option.bind_eq_some.mp hv
    exact hnew d v hv
  · exact hnew p v hv

/-- The search paths of the program: the chain `vpaths` of selective search paths, and the chains
    `general_vpath` and `gpaths` point to, empty for a null pointer. -/
structure VpathState where
  vpaths : List Vpath
  generalVpath : List Vpath
  gpaths : List Vpath
  deriving DecidableEq

/-- `*p != '\0'`: the C string `p` is not empty. -/
def nonEmpty (p : List Char) : Bool :=
  match p with
  | [] => false
  | c :: _ => c != nul

/-- `build_vpath_lists`, with `vpath` and `gpath` the expansions of `$(strip $(VPATH))` and
    `$(strip $(GPATH))`. -/
def buildVpathLists (pf : Platform) (vpath gpath : List Char) (st : VpathState) : VpathState where
  vpaths := st.vpaths.reverse
  generalVpath :=
    if nonEmpty vpath then constructVpathList pf (.add ['%'] vpath false) [] else st.generalVpath
  gpaths :=
    if nonEmpty gpath then constructVpathList pf (.add ['%'] gpath false) [] else st.gpaths

/-! ### The `free` of the Windows build -/

/-- Lines 218-220 and 327-329 of the Windows build: the loop of line 218 moves `dirpath`, the
    string `convert_vpath_from_windows32` allocated, past the blanks and separators it starts
    with, and `free (dirpath)` then frees a pointer that `malloc` did not return. -/
def freesMovedPointer (pf : Platform) (dirpath : List Char) : Bool :=
  pf.windows32 &&
    match convertVpathFromWindows32 dirpath ';' with
    | some (c :: _) => isStop pf c
    | _ => false

/-- Whether the `construct_vpath_list` call of a directive frees a moved pointer. -/
def Directive.freesMoved (pf : Platform) : Directive → Bool
  | .add _ dirpath _ => freesMovedPointer pf dirpath
  | .remove .. => false

/-- `construct_vpath_list` with its `free (dirpath)`: the chain it leaves, or the fault of freeing
    the moved pointer. -/
def constructVpathListFreeing (pf : Platform) (d : Directive) (vpaths : List Vpath) :
    Except Fault (List Vpath) :=
  if d.freesMoved pf then .error .invalidFree else pure (constructVpathList pf d vpaths)

/-- The call of `build_vpath_lists` for the value `p` of `VPATH` or `GPATH`, made on an empty
    chain when `p` is not empty. -/
def percentVpathFreeing (pf : Platform) (p : List Char) : Except Fault (List Vpath) :=
  if nonEmpty p then constructVpathListFreeing pf (.add ['%'] p false) [] else pure []

/-- The directives `ds` from an empty chain, then `build_vpath_lists` with `$(VPATH)` and
    `$(GPATH)` expanding to `vpath` and `gpath`, each `construct_vpath_list` with its `free`. -/
def vpathSetup (pf : Platform) (ds : List Directive) (vpath gpath : List Char) :
    Except Fault VpathState := do
  let vpaths ← ds.foldlM (fun vpaths d => constructVpathListFreeing pf d vpaths) []
  let generalVpath ← percentVpathFreeing pf vpath
  let gpaths ← percentVpathFreeing pf gpath
  pure ⟨vpaths.reverse, generalVpath, gpaths⟩

/-- Some `construct_vpath_list` call of the setup frees a moved pointer. -/
def setupFreesMoved (pf : Platform) (ds : List Directive) (vpath gpath : List Char) : Bool :=
  ds.any (·.freesMoved pf) || nonEmpty vpath && freesMovedPointer pf vpath ||
    nonEmpty gpath && freesMovedPointer pf gpath

theorem foldlM_constructVpathListFreeing (pf : Platform) :
    ∀ (ds : List Directive) (vpaths : List Vpath),
      ds.foldlM (fun vpaths d => constructVpathListFreeing pf d vpaths) vpaths =
        if ds.any (·.freesMoved pf) then .error .invalidFree
        else .ok (ds.foldl (fun vpaths d => constructVpathList pf d vpaths) vpaths)
  | [], _ => rfl
  | d :: ds, vpaths => by
    rw [List.foldlM_cons, constructVpathListFreeing]
    by_cases h : d.freesMoved pf
    · simp [h, bind, Except.bind]
    · simp [h, pure_eq_ok, ok_bind, foldlM_constructVpathListFreeing pf ds]

theorem percentVpathFreeing_eq (pf : Platform) (p : List Char) :
    percentVpathFreeing pf p =
      if nonEmpty p && freesMovedPointer pf p then .error .invalidFree
      else .ok (if nonEmpty p then constructVpathList pf (.add ['%'] p false) [] else []) := by
  unfold percentVpathFreeing
  cases nonEmpty p
  · rfl
  · simp only [if_true, Bool.true_and, constructVpathListFreeing, Directive.freesMoved]
    split <;> rfl

/-- The setup is `build_vpath_lists` after the directives, unless a call frees a moved
    pointer. -/
theorem vpathSetup_eq (pf : Platform) (ds : List Directive) (vpath gpath : List Char) :
    vpathSetup pf ds vpath gpath =
      if setupFreesMoved pf ds vpath gpath then .error .invalidFree
      else .ok (buildVpathLists pf vpath gpath ⟨runDirectives pf ds, [], []⟩) := by
  unfold vpathSetup setupFreesMoved
  rw [foldlM_constructVpathListFreeing, percentVpathFreeing_eq, percentVpathFreeing_eq]
  cases ds.any (·.freesMoved pf) <;> cases nonEmpty vpath && freesMovedPointer pf vpath <;>
    cases nonEmpty gpath && freesMovedPointer pf gpath <;> rfl

theorem windows32_of_freesMovedPointer {pf : Platform} {dirpath : List Char}
    (h : freesMovedPointer pf dirpath = true) : pf.windows32 = true := by
  simp only [freesMovedPointer, Bool.and_eq_true] at h
  exact h.1

theorem windows32_of_setupFreesMoved {pf : Platform} {ds : List Directive} {vpath gpath : List Char}
    (h : setupFreesMoved pf ds vpath gpath = true) : pf.windows32 = true := by
  simp only [setupFreesMoved, Bool.or_eq_true, Bool.and_eq_true, List.any_eq_true] at h
  rcases h with (⟨d, -, hd⟩ | ⟨-, h⟩) | ⟨-, h⟩
  · cases d with
    | add _ dirpath _ => exact windows32_of_freesMovedPointer hd
    | remove => cases hd
  all_goals exact windows32_of_freesMovedPointer h

/-- `vpath % ;a` on Windows: the `;` becomes a space, which the skip loop passes over before the
    `free`. -/
example : convertVpathFromWindows32 ";a".toList ';' = some " a".toList ∧
    vpathSetup Platform.windows [.add ['%'] ";a".toList false] [] [] = .error .invalidFree := by
  decide

/-- `gpath_search (file, len)`: whether the first `len` bytes of `file` are a directory of the
    GPATH list. -/
def gpathSearch (gpaths : List Vpath) (file : List Char) (len : Nat) : Bool :=
  match gpaths with
  | [] => false
  | g :: _ =>
    len ≤ g.maxlen && g.searchpath.any fun gp => strneq gp file len && gp.getD len nul == nul

/-- `gpath_search (file, len)` finds exactly the directories of the GPATH list that are the first
    `len` bytes of `file`: a directory is at most `maxlen` long, so the test against `maxlen`
    discards no match. -/
theorem gpathSearch_iff (gpaths : List Vpath) {file : List Char} {len : Nat} (hf : nul ∉ file)
    (hlen : len ≤ file.length) :
    gpathSearch gpaths file len = true ↔
      ∃ g ∈ gpaths.head?, file.take len ∈ g.searchpath := by
  cases gpaths with
  | nil => simp [gpathSearch]
  | cons g gs =>
    simp only [gpathSearch, Bool.and_eq_true, decide_eq_true_eq, List.any_eq_true, beq_iff_eq,
      List.head?_cons, Option.mem_def, Option.some.injEq, exists_eq_left']
    constructor
    · rintro ⟨-, gp, hgp, hm⟩
      exact (strneq_getD_iff (g.nul_not_mem gp hgp) hf hlen).mp hm ▸ hgp
    · intro hm
      refine ⟨?_, _, hm, (strneq_getD_iff (g.nul_not_mem _ hm) hf hlen).mpr rfl⟩
      simpa [List.length_take, min_eq_left hlen] using g.length_le_maxlen _ hm

/-- For every GPATH value, `gpath_search (file, len)` with `len <= strlen (file)` answers whether
    the first `len` bytes of `file` are a directory of the GPATH list. -/
theorem gpathSearch_buildVpathLists (pf : Platform) (vpath gpath : List Char) (st : VpathState)
    {file : List Char} {len : Nat} (hf : nul ∉ file) (hlen : len ≤ file.length) :
    gpathSearch (buildVpathLists pf vpath gpath st).gpaths file len = true ↔
      ∃ g ∈ (buildVpathLists pf vpath gpath st).gpaths.head?, file.take len ∈ g.searchpath :=
  gpathSearch_iff _ hf hlen

theorem gpathSearch_src :
    gpathSearch (buildVpathLists Platform.posix [] "src".toList ⟨[], [], []⟩).gpaths
        "src/a.c".toList 3 = true ↔
      ∃ g ∈ (buildVpathLists Platform.posix [] "src".toList ⟨[], [], []⟩).gpaths.head?,
        "src/a.c".toList.take 3 ∈ g.searchpath :=
  gpathSearch_buildVpathLists _ _ _ _ (by decide) (by decide)

/-! ### Windows path lists -/

/-- On Windows, `vpath % a ;b` makes one directory `a\ b`, a blank escaped, of the two entries
    `a` and `b`: the conversion takes back the blank it escaped before the `;`, but not the
    backslash escaping it. -/
theorem addedVpath_windows_trailing_blank :
    convertVpathFromWindows32 "a ;b".toList ';' = some "a\\ b".toList ∧
      (addedVpath Platform.windows ['%'] "a ;b".toList false).map Vpath.searchpath =
        some ["a\\ b".toList] := by
  decide

end MakePlus
