import MakePlus.Vpath.Construct
import MakePlus.Vpath.Search

/-!
# Resolving a file name through the search paths

`vpath_search (file, mtime_ptr, target_path, vpath_index, path_index)` searches the search paths
in three passes: the selective search paths of the chain whose pattern matches `file`, each as if
it were not for targets; then those of them that are for targets, as they are; then the general
search path of `VPATH`. The first search that finds a name decides the result. The first pass
clears the target goal of the search path it searches and sets it back afterwards, so the chain
comes back as it was.

The model is the POSIX build, like `selectiveVpathSearch`, and so are the results below: the
`HAVE_DOS_PATHS` test of lines 649-650, where a name starting with a backslash or a drive letter
also counts as starting at the root, and the `VMS` branches are left out.
-/

namespace MakePlus

/-- The out-parameters of `vpath_search`, `none` for a null pointer: `*mtime_ptr`,
    `*target_path`, `*vpath_index` and `*path_index`. -/
structure Outs where
  mtime : Option Nat
  targetPath : Option Bool
  vpathIndex : Option Nat
  pathIndex : Option Nat
  deriving DecidableEq, Repr

/-- `*vpath_index = *path_index = 0` (lines 641-642, 681 and 702), when `vpath_index` is not
    null. -/
def resetIndices (o : Outs) : Outs :=
  if o.vpathIndex.isSome then { o with vpathIndex := some 0, pathIndex := some 0 } else o

/-- `++*vpath_index`, at the end of each turn of the first two loops. -/
def nextIndex (o : Outs) : Outs := { o with vpathIndex := o.vpathIndex.map (· + 1) }

/-- The first loop of `vpath_search` (lines 657-676) over the chain `todo`, `done` holding the
    search paths it has passed, last first. A search path whose pattern matches is searched with
    its target goal cleared, and the goal is set back after the search; the chain comes back as
    the loop leaves it. -/
def firstPass (env : Env) (junk : Nat → Char) (file : List Char) :
    List Vpath → List Vpath → Outs → Except Fault (Option (List Char) × Outs × List Vpath)
  | done, [], o => pure (none, o, done.reverse)
  | done, v :: todo, o => do
    if ← vpathMatch v file then
      let saveGoal := v.targetGoal
      let v := { v with targetGoal := false }
      let (p, mtime, pathIndex) ← selectiveVpathSearch env junk v file o.mtime o.pathIndex
      let v := { v with targetGoal := saveGoal }
      let o := { o with mtime, pathIndex }
      match p with
      | some p =>
        pure (some p, { o with targetPath := o.targetPath.map fun _ => v.targetGoal },
          done.reverse ++ v :: todo)
      | none => firstPass env junk file (v :: done) todo (nextIndex o)
    else firstPass env junk file (v :: done) todo (nextIndex o)

/-- The test of line 685, `v->target_goal && vpath_match (v, file)`. -/
def targetMatch (v : Vpath) (file : List Char) : Except Fault Bool :=
  if v.targetGoal then vpathMatch v file else pure false

/-- The second loop of `vpath_search` (lines 683-698): the search paths for targets whose
    pattern matches, searched as they are. -/
def secondPass (env : Env) (junk : Nat → Char) (file : List Char) :
    List Vpath → Outs → Except Fault (Option (List Char) × Outs)
  | [], o => pure (none, o)
  | v :: vs, o => do
    if ← targetMatch v file then
      let (p, mtime, pathIndex) ← selectiveVpathSearch env junk v file o.mtime o.pathIndex
      let o := { o with mtime, pathIndex }
      match p with
      | some p => pure (some p, { o with targetPath := o.targetPath.map fun _ => v.targetGoal })
      | none => secondPass env junk file vs (nextIndex o)
    else secondPass env junk file vs (nextIndex o)

/-- Lines 704-713: the general search path, when there is one. -/
def generalPass (env : Env) (junk : Nat → Char) (file : List Char) (general : List Vpath)
    (o : Outs) : Except Fault (Option (List Char) × Outs) :=
  match general with
  | v :: _ => do
    let (p, mtime, pathIndex) ← selectiveVpathSearch env junk v file o.mtime o.pathIndex
    let o := { o with mtime, pathIndex }
    match p with
    | some p => pure (some p, { o with targetPath := o.targetPath.map fun _ => v.targetGoal })
    | none => pure (none, o)
  | [] => pure (none, o)

/-- Lines 636-643: `*target_path = 0`, and with a `vpath_index`, which needs a `path_index`,
    both indices 0. -/
def clearOuts (o : Outs) : Except Fault Outs := do
  let o := { o with targetPath := o.targetPath.map fun _ => false }
  if o.vpathIndex.isSome then
    assert o.pathIndex.isSome 640
    pure (resetIndices o)
  else pure o

/-- `vpath_search (file, mtime_ptr, target_path, vpath_index, path_index)` in the POSIX build:
    the name found, the out-parameters, and the search paths as the search leaves them. -/
def vpathSearch (env : Env) (junk : Nat → Char) (st : VpathState) (file : List Char)
    (o : Outs) : Except Fault (Option (List Char) × Outs × VpathState) := do
  let o ← clearOuts o
  if file.head? = some '/' || (st.vpaths.isEmpty && st.generalVpath.isEmpty) then
    return (none, o, st)
  match ← firstPass env junk file [] st.vpaths o with
  | (some p, o, vpaths) => pure (some p, o, { st with vpaths })
  | (none, o, vpaths) =>
    let st := { st with vpaths }
    match ← secondPass env junk file st.vpaths (resetIndices o) with
    | (some p, o) => pure (some p, o, st)
    | (none, o) => do
      let (p, o) ← generalPass env junk file st.generalVpath (resetIndices o)
      pure (p, o, st)

/-- With `VPATH = /` and `/foo.c` known to the file database, `vpath_search` returns `//oo.c`:
    the root directory ends in a slash, so `foo.c` is written right after it, and line 540 puts
    the slash back over the `f`. With `vpath % /` for targets and nothing found, the count of
    line 601 is one more than the length of the candidate. -/
theorem vpathSearch_root_entry :
    vpathSearch ⟨fun s => if s = "/foo.c".toList then some ⟨false, 0⟩ else none,
        fun _ _ => false, fun _ => none⟩ (fun _ => ' ')
        (buildVpathLists Platform.posix "/".toList [] ⟨[], [], []⟩) "foo.c".toList
        ⟨none, none, none, none⟩ =
      .ok (some "//oo.c".toList, ⟨none, none, none, none⟩,
        buildVpathLists Platform.posix "/".toList [] ⟨[], [], []⟩) ∧
    vpathSearch ⟨fun _ => none, fun _ _ => false, fun _ => none⟩ (fun _ => ' ')
        (buildVpathLists Platform.posix [] []
          ⟨runDirectives Platform.posix [.add ['%'] "/".toList true], [], []⟩) "foo.c".toList
        ⟨none, none, none, none⟩ = .error (.assertion 601) := by
  decide

/-! ## The order of the searches -/

/-- The searches of the first pass over the chain `chain`, numbered by position: the search paths
    whose pattern matches, each as if not for targets, with the position and the target flag it
    reports. -/
def firstAttempts (file : List Char) (chain : List (Nat × Vpath)) : List (Vpath × Nat × Bool) :=
  (chain.filter fun e => vpathMatch e.2 file == .ok true).map fun e =>
    ({ e.2 with targetGoal := false }, e.1, e.2.targetGoal)

/-- The searches of the second pass: the search paths for targets whose pattern matches, as they
    are. -/
def secondAttempts (file : List Char) (chain : List (Nat × Vpath)) : List (Vpath × Nat × Bool) :=
  (chain.filter fun e => e.2.targetGoal && vpathMatch e.2 file == .ok true).map fun e =>
    (e.2, e.1, e.2.targetGoal)

/-- Every search `vpath_search` is meant to try, in order: the first pass, the second pass, and
    the general search path, at position 0. -/
def attempts (file : List Char) (st : VpathState) : List (Vpath × Nat × Bool) :=
  firstAttempts file st.vpaths.enum ++ secondAttempts file st.vpaths.enum ++
    st.generalVpath.head?.toList.map fun v => (v, 0, v.targetGoal)

/-- The first of the searches `as` that finds a name, each run on the out-parameters `o`: its
    name, the time and the directory index it gives, its position and its target flag. When none
    finds a name, `o` is left as it is. -/
def firstFound (env : Env) (junk : Nat → Char) (file : List Char) :
    List (Vpath × Nat × Bool) → Outs → Except Fault (Option (List Char) × Outs)
  | [], o => pure (none, o)
  | (v, k, tg) :: as, o => do
    match ← selectiveVpathSearch env junk v file o.mtime o.pathIndex with
    | (some p, mtime, pathIndex) =>
      let o := { o with mtime, pathIndex, vpathIndex := o.vpathIndex.map fun _ => k }
      pure (some p, { o with targetPath := o.targetPath.map fun _ => tg })
    | (none, _, _) => firstFound env junk file as o

theorem nextIndex_map (o : Outs) (n : Nat) :
    nextIndex { o with vpathIndex := o.vpathIndex.map fun _ => n } =
      { o with vpathIndex := o.vpathIndex.map fun _ => n + 1 } := by
  cases o with
  | mk m t v p => cases v <;> rfl

theorem firstAttempts_cons (file : List Char) (n : Nat) (v : Vpath) (chain : List (Nat × Vpath)) :
    firstAttempts file ((n, v) :: chain) =
      if vpathMatch v file == .ok true then
        ({ v with targetGoal := false }, n, v.targetGoal) :: firstAttempts file chain
      else firstAttempts file chain := by
  simp only [firstAttempts, List.filter_cons]
  split <;> rfl

theorem secondAttempts_cons (file : List Char) (n : Nat) (v : Vpath) (chain : List (Nat × Vpath)) :
    secondAttempts file ((n, v) :: chain) =
      if v.targetGoal && vpathMatch v file == .ok true then
        (v, n, v.targetGoal) :: secondAttempts file chain
      else secondAttempts file chain := by
  simp only [secondAttempts, List.filter_cons]
  split <;> rfl

section Passes

variable (env : Env) (junk : Nat → Char) (file : List Char)

/-- The first pass over the chain from position `n` tries the searches of `firstAttempts`, and
    gives the chain back as it found it. -/
theorem firstPass_eq (o : Outs) : ∀ (done todo : List Vpath) (n : Nat),
    (∀ v ∈ todo, v.pattern ≠ []) →
    firstPass env junk file done todo { o with vpathIndex := o.vpathIndex.map fun _ => n } =
      (firstFound env junk file (firstAttempts file (todo.enumFrom n)) o).map fun r =>
        match r.1 with
        | some p => (some p, r.2, done.reverse ++ todo)
        | none => (none, { o with vpathIndex := o.vpathIndex.map fun _ => n + todo.length },
            done.reverse ++ todo)
  | done, [], n, _ => by simp [firstPass, firstAttempts, firstFound, Except.map]
  | done, v :: todo, n, hpat => by
    have hv := hpat v (List.mem_cons_self v todo)
    have ih := firstPass_eq o (v :: done) todo (n + 1)
      fun w hw => hpat w (List.mem_cons_of_mem v hw)
    simp only [List.reverse_cons, List.append_assoc, List.singleton_append] at ih
    obtain ⟨b, hb⟩ : ∃ b, vpathMatch v file = .ok b := ⟨_, vpathMatch_eq hv file⟩
    have hbeq : (vpathMatch v file == .ok true) = b := by rw [hb]; cases b <;> rfl
    have hn : n + (v :: todo).length = n + 1 + todo.length := by simp only [List.length_cons]; omega
    simp only [List.enumFrom_cons, firstAttempts_cons, hbeq, hn]
    simp only [firstPass, hb, ok_bind]
    cases b
    · simp only [Bool.false_eq_true, if_false, nextIndex_map, ih]
    · simp only [if_true]
      rcases selectiveVpathSearch_cases env junk { v with targetGoal := false } file o.mtime
        o.pathIndex with ⟨r, m, k, hs⟩ | hs | hs
      · simp [hs, firstFound, Except.map]
      · simp only [hs, firstFound, ok_bind, nextIndex_map]
        exact ih
      · simp [hs, firstFound, Except.map]

/-- The second pass over the chain from position `n` tries the searches of `secondAttempts`. -/
theorem secondPass_eq (o : Outs) : ∀ (todo : List Vpath) (n : Nat),
    (∀ v ∈ todo, v.pattern ≠ []) →
    secondPass env junk file todo { o with vpathIndex := o.vpathIndex.map fun _ => n } =
      (firstFound env junk file (secondAttempts file (todo.enumFrom n)) o).map fun r =>
        match r.1 with
        | some p => (some p, r.2)
        | none => (none, { o with vpathIndex := o.vpathIndex.map fun _ => n + todo.length })
  | [], n, _ => by simp [secondPass, secondAttempts, firstFound, Except.map]
  | v :: todo, n, hpat => by
    have hv := hpat v (List.mem_cons_self v todo)
    have ih := secondPass_eq o todo (n + 1) fun w hw => hpat w (List.mem_cons_of_mem v hw)
    obtain ⟨b, hb⟩ : ∃ b, vpathMatch v file = .ok b := ⟨_, vpathMatch_eq hv file⟩
    have hbeq : (v.targetGoal && vpathMatch v file == .ok true) = (v.targetGoal && b) := by
      rw [hb]; cases b <;> rfl
    have ht : targetMatch v file = .ok (v.targetGoal && b) := by
      unfold targetMatch; cases v.targetGoal <;> simp [hb]
    have hn : n + (v :: todo).length = n + 1 + todo.length := by simp only [List.length_cons]; omega
    simp only [List.enumFrom_cons, secondAttempts_cons, hbeq, hn]
    simp only [secondPass, ht, ok_bind]
    cases v.targetGoal && b
    · simp only [Bool.false_eq_true, if_false, nextIndex_map, ih]
    · simp only [if_true]
      rcases selectiveVpathSearch_cases env junk v file o.mtime o.pathIndex with
        ⟨r, m, k, hs⟩ | hs | hs
      · simp [hs, firstFound, Except.map]
      · simp only [hs, firstFound, ok_bind, nextIndex_map]
        exact ih
      · simp [hs, firstFound, Except.map]

/-- The general pass tries the general search path, at position 0. -/
theorem generalPass_eq (o : Outs) (general : List Vpath) :
    generalPass env junk file general { o with vpathIndex := o.vpathIndex.map fun _ => 0 } =
      firstFound env junk file (general.head?.toList.map fun v => (v, 0, v.targetGoal))
        { o with vpathIndex := o.vpathIndex.map fun _ => 0 } := by
  cases general with
  | nil => rfl
  | cons v vs =>
    rcases selectiveVpathSearch_cases env junk v file o.mtime o.pathIndex with
      ⟨r, m, k, hs⟩ | hs | hs
    · simp [generalPass, firstFound, hs, Function.comp_def]
    · simp [generalPass, firstFound, hs]
    · simp [generalPass, firstFound, hs]

/-- The searches of `as ++ bs`: those of `as`, and those of `bs` when `as` finds nothing. -/
theorem firstFound_append (as bs : List (Vpath × Nat × Bool)) (o : Outs) :
    firstFound env junk file (as ++ bs) o =
      (firstFound env junk file as o).bind fun r =>
        match r.1 with
        | some _ => pure r
        | none => firstFound env junk file bs o := by
  induction as with
  | nil => rfl
  | cons a as ih =>
    obtain ⟨v, k, tg⟩ := a
    rcases selectiveVpathSearch_cases env junk v file o.mtime o.pathIndex with
      ⟨r, m, k', hs⟩ | hs | hs
    · simp [firstFound, hs, Except.bind]
    · simpa [firstFound, hs] using ih
    · simp [firstFound, hs, Except.bind]

end Passes

theorem resetIndices_map (o : Outs) (k : Nat) :
    resetIndices { resetIndices o with vpathIndex := (resetIndices o).vpathIndex.map fun _ => k } =
      resetIndices o := by
  cases o with
  | mk m t v p => cases v <;> rfl

theorem resetIndices_map_zero (o : Outs) :
    { resetIndices o with vpathIndex := (resetIndices o).vpathIndex.map fun _ => 0 } =
      resetIndices o := by
  cases o with
  | mk m t v p => cases v <;> rfl

theorem clearOuts_eq {o : Outs} (hidx : o.vpathIndex.isSome → o.pathIndex.isSome) :
    clearOuts o = .ok (resetIndices { o with targetPath := o.targetPath.map fun _ => false }) := by
  cases hv : o.vpathIndex with
  | none => simp [clearOuts, hv, resetIndices]
  | some i => simp [clearOuts, hv, hidx (by simp [hv])]

/-- Searches that find nothing leave the out-parameters as they were. -/
theorem firstFound_none {env : Env} {junk : Nat → Char} {file : List Char} :
    ∀ {as : List (Vpath × Nat × Bool)} {o o' : Outs},
      firstFound env junk file as o = .ok (none, o') → o' = o
  | [], _, _, h => by cases h; rfl
  | (v, k, tg) :: as, o, o', h => by
    rcases selectiveVpathSearch_cases env junk v file o.mtime o.pathIndex with
      ⟨r, m, k', hs⟩ | hs | hs <;> simp [firstFound, hs] at h
    exact firstFound_none h

/-- In the POSIX build, for a file name that does not start at the root, `vpath_search` makes
    the searches of `attempts` in order; the chain comes back as it was. -/
theorem vpathSearch_attempts (env : Env) (junk : Nat → Char) (st : VpathState)
    (file : List Char) (o : Outs) (hpat : ∀ v ∈ st.vpaths, v.pattern ≠ [])
    (hidx : o.vpathIndex.isSome → o.pathIndex.isSome) (hf : file.head? ≠ some '/') :
    vpathSearch env junk st file o =
      (firstFound env junk file (attempts file st)
        (resetIndices { o with targetPath := o.targetPath.map fun _ => false })).map
        fun r => (r.1, r.2, st) := by
  rw [vpathSearch, clearOuts_eq hidx, ok_bind]
  generalize { o with targetPath := o.targetPath.map fun _ => false } = o₁
  have h₁ := firstPass_eq env junk file (resetIndices o₁) [] st.vpaths 0 hpat
  have h₂ := secondPass_eq env junk file (resetIndices o₁) st.vpaths 0 hpat
  have h₃ := generalPass_eq env junk file (resetIndices o₁) st.generalVpath
  simp only [resetIndices_map_zero] at h₁ h₂ h₃
  by_cases hempty : st.vpaths = [] ∧ st.generalVpath = []
  · simp [hempty.1, hempty.2, hf, attempts, firstAttempts, secondAttempts, firstFound, Except.map]
  · have hguard : (file.head? = some '/' || (st.vpaths.isEmpty && st.generalVpath.isEmpty)) =
        false := by simpa [hf] using hempty
    simp only [hguard, Bool.false_eq_true, if_false, h₁, attempts, List.enum, firstFound_append,
      List.reverse_nil, List.nil_append]
    rcases hX : firstFound env junk file (firstAttempts file (List.enumFrom 0 st.vpaths))
      (resetIndices o₁) with e | ⟨_ | p, o'⟩
    · rfl
    · rw [firstFound_none hX]
      simp only [Except.map, Except.bind, ok_bind, resetIndices_map, h₂]
      rcases hY : firstFound env junk file (secondAttempts file (List.enumFrom 0 st.vpaths))
        (resetIndices o₁) with e | ⟨_ | p, o''⟩
      · rfl
      · rw [firstFound_none hY]
        simp only [pure_eq_ok, ok_bind, resetIndices_map, h₃]
        cases firstFound env junk file
          (st.generalVpath.head?.toList.map fun v => (v, 0, v.targetGoal))
            (resetIndices o₁) <;> rfl
      · rfl
    · rfl

/-- In the POSIX build, for a file name that does not start at the root, `vpath_search` makes
    the searches of `attempts` in order, with the out-parameters as its prologue leaves them, and
    the first search that finds a name gives the result; the chain comes back as it was. -/
theorem vpathSearch_eq_firstFound (env : Env) (junk : Nat → Char) (st : VpathState)
    (file : List Char) (o : Outs) (hpat : ∀ v ∈ st.vpaths, v.pattern ≠ [])
    (hidx : o.vpathIndex.isSome → o.pathIndex.isSome) (hf : file.head? ≠ some '/') :
    vpathSearch env junk st file o =
      (firstFound env junk file (attempts file st)
        (resetIndices { o with targetPath := o.targetPath.map fun _ => false })).map
        fun r => (r.1, r.2, st) :=
  vpathSearch_attempts env junk st file o hpat hidx hf

theorem vpathSearch_srcLib :
    vpathSearch ⟨fun _ => none, fun d _ => d == "src".toList, fun _ => some 42⟩ (fun _ => ' ')
        (buildVpathLists Platform.posix "lib".toList []
          ⟨runDirectives Platform.posix [.add "%.c".toList "src".toList false], [], []⟩)
        "util.c".toList ⟨none, none, some 0, some 0⟩ =
      (firstFound ⟨fun _ => none, fun d _ => d == "src".toList, fun _ => some 42⟩ (fun _ => ' ')
        "util.c".toList
        (attempts "util.c".toList (buildVpathLists Platform.posix "lib".toList []
          ⟨runDirectives Platform.posix [.add "%.c".toList "src".toList false], [], []⟩))
        (resetIndices ⟨none, none, some 0, some 0⟩)).map fun r =>
        (r.1, r.2, buildVpathLists Platform.posix "lib".toList []
          ⟨runDirectives Platform.posix [.add "%.c".toList "src".toList false], [], []⟩) :=
  vpathSearch_eq_firstFound _ _ _ _ _ (by decide) (by decide) (by decide)

/-! ## The abstract search

`vpathSearchSpec` says what `vpath_search` is for, with no buffer and no stack: the searches of
`attempts`, each as `searchSpec` says, the first that finds a name deciding. For search paths
whose directories do not end in a slash, the code computes it (`vpathSearch_eq_vpathSearchSpec`).
-/

/-- The searches of `as`, each as `searchSpec` says, on the out-parameters `o`: the first that
    finds a name decides, with its time, directory index, position and target flag; when none
    does, `o` is left as it is. -/
def firstFoundSpec (env : Env) (file : List Char) :
    List (Vpath × Nat × Bool) → Outs → Option (List Char) × Outs
  | [], o => (none, o)
  | (v, k, tg) :: as, o =>
    match searchSpec env v file o.mtime o.pathIndex with
    | (some p, mtime, pathIndex) =>
      let o := { o with mtime, pathIndex, vpathIndex := o.vpathIndex.map fun _ => k }
      (some p, { o with targetPath := o.targetPath.map fun _ => tg })
    | (none, _, _) => firstFoundSpec env file as o

/-- What `vpath_search` is meant to return: nothing for a name that starts at the root, else the
    searches of `attempts` as `firstFoundSpec` says, on the out-parameters as the prologue leaves
    them; the chain is left as it was. -/
def vpathSearchSpec (env : Env) (st : VpathState) (file : List Char) (o : Outs) :
    Option (List Char) × Outs × VpathState :=
  let o := resetIndices { o with targetPath := o.targetPath.map fun _ => false }
  if file.head? = some '/' then (none, o, st)
  else
    let r := firstFoundSpec env file (attempts file st) o
    (r.1, r.2, st)

/-- With directories that do not end in a slash, the searches go as `firstFoundSpec` says. -/
theorem firstFound_eq_firstFoundSpec {env : Env} (junk : Nat → Char) {file : List Char}
    (hf : file.head? ≠ some '/') (hcomp : ¬ ['/', '/'] <:+: file) (hnul : nul ∉ file) :
    ∀ {as : List (Vpath × Nat × Bool)} (o : Outs),
      (∀ a ∈ as, ∀ d ∈ a.1.searchpath, d.getLast? ≠ some '/') →
      firstFound env junk file as o = .ok (firstFoundSpec env file as o)
  | [], _, _ => rfl
  | (v, k, tg) :: as, o, has => by
    have ih : firstFound env junk file as o = .ok (firstFoundSpec env file as o) :=
      firstFound_eq_firstFoundSpec junk hf hcomp hnul o
        fun a ha => has a (List.mem_cons_of_mem _ ha)
    rw [firstFound, selectiveVpathSearch_spec env junk v file o.mtime o.pathIndex
      (has _ (List.mem_cons_self _ _)) hf hcomp hnul, ok_bind, firstFoundSpec]
    cases searchSpec env v file o.mtime o.pathIndex with
    | mk p r => cases p with
      | none => exact ih
      | some p => rfl

/-- The search paths of `attempts`: one of the chain whose pattern matches, with its
    directories, or the general search path. -/
theorem mem_attempts {file : List Char} {st : VpathState} {a : Vpath × Nat × Bool}
    (ha : a ∈ attempts file st) :
    (∃ v ∈ st.vpaths, vpathMatch v file = .ok true ∧ a.1.searchpath = v.searchpath) ∨
      a.1 ∈ st.generalVpath.head? := by
  simp only [attempts, firstAttempts, secondAttempts, List.mem_append, List.mem_map,
    List.mem_filter] at ha
  rcases ha with (⟨e, ⟨he, hm⟩, rfl⟩ | ⟨e, ⟨he, hm⟩, rfl⟩) | ⟨v, hv, rfl⟩
  · exact .inl ⟨e.2, List.snd_mem_of_mem_enum he, by simpa using hm, rfl⟩
  · simp only [Bool.and_eq_true, beq_iff_eq] at hm
    exact .inl ⟨e.2, List.snd_mem_of_mem_enum he, hm.2, rfl⟩
  · exact .inr (by simpa using hv)

/-- In the POSIX build, for search paths whose patterns are not empty and whose directories do
    not end in a slash, and a file name without a NUL or an empty component, `vpath_search`
    computes `vpathSearchSpec`: it does not fail, what the stack holds does not change its
    result, and the chain comes back as it was. -/
theorem vpathSearch_eq_vpathSearchSpec (env : Env) (junk : Nat → Char) (st : VpathState)
    (file : List Char) (o : Outs) (hpat : ∀ v ∈ st.vpaths, v.pattern ≠ [])
    (hdirs : ∀ v ∈ st.vpaths ++ st.generalVpath,
      ∀ d ∈ v.searchpath, d.getLast? ≠ some '/')
    (hidx : o.vpathIndex.isSome → o.pathIndex.isSome) (hcomp : ¬ ['/', '/'] <:+: file)
    (hnul : nul ∉ file) :
    vpathSearch env junk st file o = .ok (vpathSearchSpec env st file o) := by
  dsimp only [vpathSearchSpec]
  split_ifs with hf
  · simp [vpathSearch, clearOuts_eq hidx, hf]
  · have has : ∀ a ∈ attempts file st, ∀ d ∈ a.1.searchpath, d.getLast? ≠ some '/' := by
      intro a ha d hd
      rcases mem_attempts ha with ⟨v, hv, -, hsp⟩ | hv
      · exact hdirs v (List.mem_append_left _ hv) d (hsp ▸ hd)
      · exact hdirs _ (List.mem_append_right _ (List.mem_of_mem_head? hv)) d hd
    rw [vpathSearch_attempts env junk st file o hpat hidx hf,
      firstFound_eq_firstFoundSpec junk hf hcomp hnul _ has]
    rfl

theorem vpathSearch_srcLib_spec :
    vpathSearch ⟨fun _ => none, fun d _ => d == "src".toList, fun _ => some 42⟩ (fun _ => ' ')
        (buildVpathLists Platform.posix "lib".toList []
          ⟨runDirectives Platform.posix [.add "%.c".toList "src".toList false], [], []⟩)
        "util.c".toList ⟨none, none, some 0, some 0⟩ =
      .ok (vpathSearchSpec ⟨fun _ => none, fun d _ => d == "src".toList, fun _ => some 42⟩
        (buildVpathLists Platform.posix "lib".toList []
          ⟨runDirectives Platform.posix [.add "%.c".toList "src".toList false], [], []⟩)
        "util.c".toList ⟨none, none, some 0, some 0⟩) :=
  vpathSearch_eq_vpathSearchSpec _ _ _ _ _ (by decide) (by decide) (by decide) (by decide)
    (by decide)

end MakePlus
