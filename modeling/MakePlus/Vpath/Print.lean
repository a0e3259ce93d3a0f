import MakePlus.Vpath.Grammar
import MakePlus.Pathstuff.RoundTrip

/-!
# Printing the search paths

`print_vpath_data_base` (vpath.c) prints, for `make -p`, one line per selective search path:
`vpath` (or `.path` for a search path for targets), the pattern, and the directories separated by
`PATH_SEPARATOR_CHAR`; then their number, and the general search path of `VPATH`. In the Windows
build each directory of a selective search path is first written back in the Windows syntax by
`convert_Path_to_windows32`; the directories of the general search path are printed as stored.

The printed line has the syntax of a `vpath` directive, so it can be read again:

* `posixTokens_intercalate`: the directories of a search path, joined by `:`, split back into
  themselves;
* `vpathLine_reread`: on POSIX, the directories of the line of a search path read back to the same
  directories exactly when none but `/` ends in a slash; `construct_vpath_list` strips one
  trailing slash only, so a directory written `a//` prints as `a/` and reads back as `a`;
* `printVpathDataBase_windows`: on Windows the line of a selective search path gives its
  directories in the Windows syntax, a directory with a space in double quotes, when they were
  stored from entries in normal form (`NormalEntry`).
-/

namespace MakePlus

/-! ## The model -/

/-- How `print_vpath_data_base` writes a directory of a selective search path (lines 741-748): as
    stored, or in the Windows build converted back to the Windows syntax. A directory never starts
    with a blank, so the conversion always gives a string. -/
def printedDir (pf : Platform) (d : List Char) : List Char :=
  if pf.windows32 then (convertPathToWindows32 d pf.pathSeparatorChar).getD [] else d

theorem printedDir_posix : printedDir Platform.posix = id := rfl

/-- The loop over the directories `ds` of a search path: each written by `f`, then followed by the
    separator `sep`, or by a newline after the last one (lines 739-750 and 767-769). -/
def printedDirs (sep : Char) (f : List Char → List Char) : List (List Char) → List Char
  | [] => []
  | d :: ds => f d ++ (if ds.isEmpty then '\n' else sep) :: printedDirs sep f ds

/-- The line of a selective search path (lines 734-750). -/
def vpathLine (pf : Platform) (v : Vpath) : List Char :=
  (if v.targetGoal then ".path ".toList else "vpath ".toList) ++ v.pattern ++
    ' ' :: printedDirs pf.pathSeparatorChar (printedDir pf) v.searchpath

/-- What `print_vpath_data_base` prints of the general search path (lines 759-770): its
    directories as stored, whatever the build. -/
def generalLines (pf : Platform) : List Vpath → List Char
  | [] => "\n# No general (\x27VPATH\x27 variable) search path.\n".toList
  | g :: _ =>
    "\n# General (\x27VPATH\x27 variable) search path:\n# ".toList ++
      printedDirs pf.pathSeparatorChar id g.searchpath

/-- `print_vpath_data_base ()`: what it prints for the chain `vpaths` of selective search paths and
    the general search path `generalVpath` (none, or one). -/
def printVpathDataBase (pf : Platform) (vpaths generalVpath : List Vpath) : List Char :=
  "\n# VPATH Search Paths\n".toList ++ vpaths.flatMap (vpathLine pf) ++
    (if vpaths.isEmpty then "# No \x27vpath\x27 search paths.\n".toList
    else "\n# ".toList ++ (toString vpaths.length).toList ++
      " \x27vpath\x27 search paths.\n".toList) ++
    generalLines pf generalVpath

/-! ## The printed directories -/

theorem printedDirs_eq (sep : Char) (f : List Char → List Char) :
    ∀ {ds : List (List Char)}, ds ≠ [] →
      printedDirs sep f ds = [sep].intercalate (ds.map f) ++ ['\n']
  | [d], _ => by simp [printedDirs]
  | d :: d' :: ds, _ => by
    rw [printedDirs, printedDirs_eq sep f (List.cons_ne_nil d' ds)]
    simp [intercalate_cons_cons]

/-- The directories of a search path, joined by `:`, are its tokens again: none is empty or has
    a delimiter of its own, and the parity of backslashes starts afresh after each `:`. -/
theorem posixTokens_intercalate : ∀ {ds : List (List Char)},
    (∀ d ∈ ds, d ≠ [] ∧ ∀ x ∈ delimiters [] d, x.2 = false) →
      posixTokens ([':'].intercalate ds) = ds
  | [], _ => rfl
  | [d], h => by
    have hd := h d (List.mem_singleton_self d)
    rw [intercalate_singleton, posixTokens, ← List.append_nil (delimiters [] d),
      segs_append_of_segment (delimiters_ne_nil hd.1) hd.2 (by simp), segs_nil, map_fst_delimiters]
  | d :: d' :: ds, h => by
    have hd := h d (List.mem_cons_self d _)
    have hcolon : oddBackslashes (d ++ [':']) = oddBackslashes [] :=
      oddBackslashes_append_singleton_of_ne (by decide) d
    rw [intercalate_cons_cons, posixTokens, List.append_assoc, List.singleton_append,
      delimiters_append, List.nil_append, delimiters, delimiters_congr hcolon,
      segs_append_of_segment (delimiters_ne_nil hd.1) hd.2 (by simp [isDelim]),
      map_fst_delimiters, segs_cons_of_delim (by simp [isDelim]), ← posixTokens,
      posixTokens_intercalate fun x hx => h x (List.mem_cons_of_mem d hx)]

/-- A token is its own stripped form exactly when it does not end in a slash after another
    character. -/
theorem stripToken_eq_self_iff (t : List Char) :
    stripToken t = t ↔ ¬(1 < t.length ∧ t.getLast? = some '/') := by
  unfold stripToken
  split
  · rename_i h
    refine iff_of_false (fun he => ?_) (not_not.2 h)
    have := congrArg List.length he
    have := h.1
    simp only [List.length_dropLast] at *
    omega
  · rename_i h
    exact iff_of_true rfl h

/-- Stripping the directories of a list, none of them `.`, and leaving out `.` gives the list back
    exactly when each directory is its own stripped form. -/
theorem filter_map_stripToken_eq_self_iff : ∀ {ds : List (List Char)}, (∀ d ∈ ds, d ≠ ['.']) →
    ((ds.map stripToken).filter (· != ['.']) = ds ↔ ∀ d ∈ ds, stripToken d = d)
  | [], _ => by simp
  | d :: ds, h => by
    simp only [List.mem_cons, forall_eq_or_imp] at h ⊢
    rw [List.map_cons, List.filter_cons]
    split
    · rw [List.cons.injEq, filter_map_stripToken_eq_self_iff h.2]
    · -- the stripped `d` is `.`, so `d` is not its own stripped form, and a shorter list remains
      rename_i hdot
      have hd : stripToken d ≠ d := fun he => h.1 (by simpa [he] using hdot)
      simp only [hd, false_and, iff_false]
      intro he
      have := congrArg List.length he
      have := List.length_filter_le (· != ['.']) (ds.map stripToken)
      simp only [List.length_map, List.length_cons] at *
      omega

/-- The directories of a POSIX directory string, joined by `:`, read back to themselves exactly
    when none but `/` ends in a slash. -/
theorem posixDirs_intercalate_posixDirs {dirpath : List Char} (hnul : nul ∉ dirpath) :
    posixDirs ([':'].intercalate (posixDirs dirpath)) = posixDirs dirpath ↔
      ∀ d ∈ posixDirs dirpath, ¬(1 < d.length ∧ d.getLast? = some '/') := by
  have hmem := fun d (hd : d ∈ posixDirs dirpath) => mem_posixDirs hnul hd
  rw [posixDirs, posixTokens_intercalate fun d hd => ⟨(hmem d hd).1, (hmem d hd).2.2⟩,
    filter_map_stripToken_eq_self_iff fun d hd => (hmem d hd).2.1]
  exact forall₂_congr fun d _ => stripToken_eq_self_iff d

theorem not_mem_intercalate {c : Char} {sep : List Char} (hsep : c ∉ sep) :
    ∀ {xs : List (List Char)}, (∀ x ∈ xs, c ∉ x) → c ∉ sep.intercalate xs
  | [], _ => List.not_mem_nil c
  | [x], h => by simpa using h x (List.mem_singleton_self x)
  | x :: y :: xs, h => by
    simp only [List.mem_cons, forall_eq_or_imp] at h
    rw [intercalate_cons_cons, List.mem_append, List.mem_append, not_or, not_or]
    exact ⟨⟨h.1, hsep⟩, not_mem_intercalate hsep (by simpa using h.2)⟩

/-- `construct_vpath_list` on POSIX gives a search path with the directories `ds`, not empty,
    exactly when these are the directories of the string. -/
theorem exists_constructVpathList_iff {pattern dirpath : List Char} {isTargetPath : Bool}
    {vpaths : List Vpath} (hnul : nul ∉ dirpath) {ds : List (List Char)} (hds : ds ≠ []) :
    (∃ v, constructVpathList Platform.posix (.add pattern dirpath isTargetPath) vpaths =
        v :: vpaths ∧ v.searchpath = ds) ↔ posixDirs dirpath = ds := by
  rcases (constructVpathList_posix pattern dirpath isTargetPath vpaths hnul).2 with
    ⟨h₁, h₂⟩ | ⟨v, h₁, h₂, -⟩
  · rw [h₂, h₁]
    exact iff_of_false (fun ⟨v, h, _⟩ => List.cons_ne_self v vpaths h.symm) (Ne.symm hds)
  · rw [h₁]
    exact ⟨fun ⟨v', h, h'⟩ => by rw [← h', ← List.cons.inj h |>.1, h₂], fun h => ⟨v, rfl, h₂ ▸ h⟩⟩

/-- On POSIX, a search path `construct_vpath_list` creates from `dirpath` prints as the line
    `vpath` (`.path` for targets), its pattern, and its directories separated by `:`. Read back
    by `construct_vpath_list`, with any pattern, these directories give a search path with the same
    directories exactly when none but `/` ends in a slash. -/
theorem vpathLine_reread (pattern dirpath : List Char) (isTargetPath : Bool)
    (vpaths : List Vpath) {v : Vpath} (hnul : nul ∉ dirpath)
    (hv : constructVpathList Platform.posix (.add pattern dirpath isTargetPath) vpaths =
      v :: vpaths)
    (pattern' : List Char) (isTargetPath' : Bool) (vpaths' : List Vpath) :
    vpathLine Platform.posix v =
        (if isTargetPath then ".path ".toList else "vpath ".toList) ++ v.pattern ++
          ' ' :: ([':'].intercalate v.searchpath ++ ['\n']) ∧
      ((∃ v', constructVpathList Platform.posix
            (.add pattern' ([':'].intercalate v.searchpath) isTargetPath') vpaths' =
              v' :: vpaths' ∧ v'.searchpath = v.searchpath) ↔
        ∀ d ∈ v.searchpath, ¬(1 < d.length ∧ d.getLast? = some '/')) := by
  obtain ⟨hsp, htg⟩ : v.searchpath = posixDirs dirpath ∧ v.targetGoal = isTargetPath := by
    rcases (constructVpathList_posix pattern dirpath isTargetPath vpaths hnul).2 with
      ⟨-, h⟩ | ⟨v₀, h, hsp, -, -, htg, -⟩
    · exact absurd (hv ▸ h) (List.cons_ne_self v vpaths)
    · obtain rfl := (List.cons.inj (h.symm.trans hv)).1
      exact ⟨hsp, htg⟩
  have hnul' : nul ∉ [':'].intercalate v.searchpath :=
    not_mem_intercalate (by decide) v.nul_not_mem
  refine ⟨?_, ?_⟩
  · rw [vpathLine, htg, printedDirs_eq _ _ v.searchpath_ne_nil]
    rw [printedDir_posix, List.map_id]
    rfl
  · rw [exists_constructVpathList_iff hnul' v.searchpath_ne_nil, hsp]
    exact posixDirs_intercalate_posixDirs hnul

theorem vpathLine_reread_src :
    nul ∉ "src:lib".toList ∧
      constructVpathList Platform.posix (.add ['%'] "src:lib".toList false) [] =
        [⟨['%'], some 0, ["src".toList, "lib".toList], 3, false, by decide, by decide, by decide,
          by decide⟩] ∧
      vpathLine Platform.posix ⟨['%'], some 0, ["src".toList, "lib".toList], 3, false, by decide,
          by decide, by decide, by decide⟩ =
        (if false then ".path ".toList else "vpath ".toList) ++ ['%'] ++
          ' ' :: ([':'].intercalate ["src".toList, "lib".toList] ++ ['\n']) ∧
      ((∃ v', constructVpathList Platform.posix
            (.add ['%'] ([':'].intercalate ["src".toList, "lib".toList]) false) [] = [v'] ∧
              v'.searchpath = ["src".toList, "lib".toList]) ↔
        ∀ d ∈ ["src".toList, "lib".toList], ¬(1 < d.length ∧ d.getLast? = some '/')) :=
  have hv : constructVpathList Platform.posix (.add ['%'] "src:lib".toList false) [] =
      [⟨['%'], some 0, ["src".toList, "lib".toList], 3, false, by decide, by decide, by decide,
        by decide⟩] := by decide
  ⟨by decide, hv, vpathLine_reread _ _ _ _ (by decide) hv _ _ _⟩

example : posixDirs "a//".toList = ["a/".toList] ∧
    posixDirs ([':'].intercalate ["a/".toList]) = ["a".toList] := by decide

/-! ## The Windows build -/

/-- A directory in normal form, stored with its spaces escaped, prints in the Windows syntax on
    the line of a selective search path. -/
theorem printedDir_windows {e : List Char} (he : NormalEntry e) :
    printedDir Platform.windows (escapeName e) = windowsEntry e := by
  have h := convertPathToWindows32_canonicalPathList (List.cons_ne_nil e [])
    (by simpa using he)
  simp only [canonicalPathList, windowsPathList, List.map_cons, List.map_nil,
    intercalate_singleton] at h
  simp [printedDir, Platform.windows, h]

/-- In the Windows build the line of a selective search path prints its directories in the
    Windows syntax, each in double quotes when it holds a space and `;` between them, when they
    were stored, spaces escaped, from entries in normal form: not empty, no space or backslash at
    either end, no tab, double quote, `;` or NUL, and no backslash before a space. -/
theorem printVpathDataBase_windows (v : Vpath) {es : List (List Char)}
    (hes : ∀ e ∈ es, NormalEntry e) (hv : v.searchpath = es.map escapeName) :
    vpathLine Platform.windows v =
      (if v.targetGoal then ".path ".toList else "vpath ".toList) ++ v.pattern ++
        ' ' :: (windowsPathList es ++ ['\n']) := by
  have hmap : es.map (printedDir Platform.windows ∘ escapeName) = es.map windowsEntry :=
    List.map_congr_left fun e he => printedDir_windows (hes e he)
  rw [vpathLine, printedDirs_eq _ _ (hv ▸ v.searchpath_ne_nil), hv, List.map_map, hmap]
  rfl

theorem printVpathDataBase_windows_ab_c :
    (∀ e ∈ ["a b".toList, "c".toList], NormalEntry e) ∧
      ["a\\ b".toList, "c".toList] = ["a b".toList, "c".toList].map escapeName ∧
      vpathLine Platform.windows ⟨['%'], some 0, ["a\\ b".toList, "c".toList], 4, false,
          by decide, by decide, by decide, by decide⟩ =
        (if false then ".path ".toList else "vpath ".toList) ++ ['%'] ++
          ' ' :: (windowsPathList ["a b".toList, "c".toList] ++ ['\n']) :=
  have hes : ∀ e ∈ ["a b".toList, "c".toList], NormalEntry e := by
    simp only [List.mem_cons, List.mem_singleton, List.not_mem_nil, or_false, forall_eq_or_imp,
      forall_eq]
    constructor <;> constructor <;> decide
  have hmap : ["a\\ b".toList, "c".toList] = ["a b".toList, "c".toList].map escapeName := by
    decide
  ⟨hes, hmap, printVpathDataBase_windows _ hes hmap⟩

end MakePlus
