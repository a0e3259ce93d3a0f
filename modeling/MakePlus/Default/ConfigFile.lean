import MakePlus.Default
import MakePlus.Vpath.Search

/-!
# Which configuration file is read

Before it reads the lines of its configuration file, `read_config` (default.c, lines 102-176)
settles on a name in its buffer `cfgfile`: the `path` it is given (with `/make.conf` after it,
unless `exclusive`), then, as long as `access` finds no file under the name, `make.conf` in the
working directory, in the home directory, and `/etc/make.conf`. Every copy into the buffer goes
through `strlcpy` or `strlcat`, which cut what does not fit. This is the POSIX build.

* `readConfig_eq_find`: the file read is the first of the candidate names that `access` finds,
  and the lines kept are those of that file;
* `readConfig_exclusive_missing`: an `exclusive` path that is not there only gets a warning: the
  search goes on as if no path had been given, although the comment of line 104 says that only
  that path is used.
-/

namespace MakePlus

/-! ## The model -/

/-- Modelled from the spec: `GET_PATH_MAX` (makeint.h, not in src/), the size of `cfgfile`:
    `PATH_MAX` on Linux. -/
def getPathMax : Nat := 4096

/-- `strlcpy (cfgfile, s, sizeof cfgfile)`: the C string `s`, cut to what the buffer holds. -/
def strlcpy (s : List Char) : List Char := s.take (getPathMax - 1)

/-- `strlcat (cfgfile, s, sizeof cfgfile)`: the C string `s` after the string `d` of the buffer,
    cut to what the buffer holds. -/
def strlcat (d s : List Char) : List Char := d ++ s.take (getPathMax - 1 - d.length)

/-- What `read_config` asks of the system: whether `access (name, 0)` finds a file, the working
    directory, the value of `HOME`, whether `fopen` opens a file, and what the file holds. -/
structure System where
  accessible : List Char → Bool
  /-- `access` finds nothing under the empty name. -/
  accessible_nil : accessible [] = false
  cwd : List Char
  home : Option (List Char)
  opens : List Char → Bool
  contents : List Char → List Char

/-- The warning of line 111. -/
def notFoundWarning (cfgfile : List Char) : List Char :=
  "warning:  Configuration file \x27".toList ++ cfgfile ++ "\x27 is not found.".toList

/-- Lines 102-126: the name from the argument `path` (empty without one), and the warning
    printed when an `exclusive` path is not there. -/
def givenConfig (sys : System) (path : Option (List Char)) (exclusive : Bool) :
    List Char × List (List Char) :=
  match path with
  | none => ([], [])
  | some p =>
    if exclusive then
      let cfgfile := strlcpy p
      (cfgfile, if sys.accessible cfgfile then [] else [notFoundWarning cfgfile])
    else
      let cfgfile := strlcpy p
      let cfgfile :=
        if (strrchr cfgfile '/').all (· + 1 < cfgfile.length) then strlcat cfgfile "/".toList
        else cfgfile
      (strlcat cfgfile "make.conf".toList, [])

/-- `getcwd (cfgfile, sizeof cfgfile)` then `strlcat (cfgfile, "/make.conf", ...)`, when the
    working directory fits the buffer (lines 129-139). -/
def cwdConfig (sys : System) : Option (List Char) :=
  if sys.cwd.length < getPathMax then some (strlcat sys.cwd "/make.conf".toList) else none

/-- `strlcpy (cfgfile, getenv ("HOME"), ...)` then `strlcat (cfgfile, "/make.conf", ...)`, when
    `HOME` is set (lines 152-156). -/
def homeConfig (sys : System) : Option (List Char) :=
  sys.home.map fun h => strlcat (strlcpy h) "/make.conf".toList

/-- `strlcpy (cfgfile, "/etc/make.conf", ...)` (line 172). -/
def etcConfig : List Char := strlcpy "/etc/make.conf".toList

/-- `if (access (cfgfile, 0) != 0)` then the next name, when there is one. -/
def nextConfig (sys : System) (cfgfile : List Char) (next : Option (List Char)) : List Char :=
  if sys.accessible cfgfile then cfgfile else next.getD cfgfile

/-- `read_config (path, exclusive, argv0)`: the name it returns (a null pointer when it reads
    nothing), the warnings it prints, and the lines it keeps in `textroot`. -/
def readConfig (sys : System) (path : Option (List Char)) (exclusive : Bool) :
    Option (List Char) × List (List Char) × List (List Char) :=
  let (cfgfile, warnings) := givenConfig sys path exclusive
  let cfgfile := nextConfig sys cfgfile (cwdConfig sys)
  let cfgfile := nextConfig sys cfgfile (homeConfig sys)
  let cfgfile := nextConfig sys cfgfile (some etcConfig)
  if sys.accessible cfgfile && sys.opens cfgfile then
    (some cfgfile, warnings, configLines (sys.contents cfgfile))
  else (none, warnings, [])

/-! ## The search -/

/-- The names `read_config` tries, in order: the one from its argument, then those in the working
    directory, in the home directory and in `/etc` that it can form. -/
def configCandidates (sys : System) (path : Option (List Char)) (exclusive : Bool) :
    List (List Char) :=
  (givenConfig sys path exclusive).1 :: [cwdConfig sys, homeConfig sys, some etcConfig].filterMap id

theorem nextConfig_of_accessible {sys : System} {c : List Char} (h : sys.accessible c = true)
    (next : Option (List Char)) : nextConfig sys c next = c := if_pos h

/-- A chain of fallbacks settles on the first name that `access` finds, if any. -/
theorem find?_nextConfig (sys : System) :
    ∀ (c : List Char) (ns : List (Option (List Char))),
      (if sys.accessible (ns.foldl (nextConfig sys) c) then some (ns.foldl (nextConfig sys) c)
        else none) = (c :: ns.filterMap id).find? sys.accessible
  | c, [] => by by_cases h : sys.accessible c <;> simp [h]
  | c, n :: ns => by
    by_cases h : sys.accessible c
    · -- found: the later fallbacks keep it
      have hkeep : ∀ ns : List (Option (List Char)), ns.foldl (nextConfig sys) c = c := by
        intro ns
        induction ns with
        | nil => rfl
        | cons n ns ih => rw [List.foldl_cons, nextConfig_of_accessible h, ih]
      simp [hkeep, h]
    · rw [List.foldl_cons, find?_nextConfig sys _ ns, nextConfig, if_neg h]
      cases n with
      | none => rfl
      | some m => exact (List.find?_cons_of_neg _ (by simpa using h)).symm

/-- `read_config` reads the first of the candidate names that `access` finds, when `fopen`
    opens it, and keeps the lines of that file; it prints the warnings of its argument. -/
theorem readConfig_eq_find (sys : System) (path : Option (List Char)) (exclusive : Bool) :
    readConfig sys path exclusive =
      match (configCandidates sys path exclusive).find? sys.accessible with
      | some c =>
        if sys.opens c then
          (some c, (givenConfig sys path exclusive).2, configLines (sys.contents c))
        else (none, (givenConfig sys path exclusive).2, [])
      | none => (none, (givenConfig sys path exclusive).2, []) := by
  have h := find?_nextConfig sys (givenConfig sys path exclusive).1
    [cwdConfig sys, homeConfig sys, some etcConfig]
  simp only [List.foldl_cons, List.foldl_nil] at h
  rw [configCandidates]
  unfold readConfig
  generalize givenConfig sys path exclusive = g at h ⊢
  obtain ⟨c, warnings⟩ := g
  dsimp only at h ⊢
  generalize nextConfig sys (nextConfig sys (nextConfig sys c (cwdConfig sys)) (homeConfig sys))
    (some etcConfig) = c' at h ⊢
  rw [← h]
  by_cases hc : sys.accessible c' <;> simp [hc]

/-- An `exclusive` path that `access` does not find gets the warning of line 111, and then
    `read_config` searches on as if it had been given no path: the comment of line 104, that only
    that path is used, does not hold for a missing file. -/
theorem readConfig_exclusive_missing (sys : System) (p : List Char)
    (h : sys.accessible (strlcpy p) = false) :
    readConfig sys (some p) true =
      ((readConfig sys none false).1, [notFoundWarning (strlcpy p)],
        (readConfig sys none false).2.2) := by
  rw [readConfig_eq_find, readConfig_eq_find]
  have hfind : (configCandidates sys (some p) true).find? sys.accessible =
      (configCandidates sys none false).find? sys.accessible := by
    simp only [configCandidates, givenConfig, if_true, List.find?_cons_of_neg _
      (show ¬sys.accessible (strlcpy p) = true by simp [h]),
      List.find?_cons_of_neg _ (show ¬sys.accessible [] = true by simp [sys.accessible_nil])]
  rw [hfind]
  have hw : (givenConfig sys (some p) true).2 = [notFoundWarning (strlcpy p)] := by
    simp [givenConfig, h]
  rw [hw]
  split
  · split <;> rfl
  · rfl

theorem readConfig_exclusive_missing_etc :
    (⟨fun n => n == "/etc/make.conf".toList, rfl, "/src".toList, none, fun _ => true,
        fun _ => "CC = cc\n".toList⟩ : System).accessible (strlcpy "/src/my.conf".toList) = false ∧
      readConfig ⟨fun n => n == "/etc/make.conf".toList, rfl, "/src".toList, none, fun _ => true,
          fun _ => "CC = cc\n".toList⟩ (some "/src/my.conf".toList) true =
        ((readConfig ⟨fun n => n == "/etc/make.conf".toList, rfl, "/src".toList, none,
            fun _ => true, fun _ => "CC = cc\n".toList⟩ none false).1,
          [notFoundWarning (strlcpy "/src/my.conf".toList)],
          (readConfig ⟨fun n => n == "/etc/make.conf".toList, rfl, "/src".toList, none,
            fun _ => true, fun _ => "CC = cc\n".toList⟩ none false).2.2) :=
  ⟨by decide, readConfig_exclusive_missing _ _ (by decide)⟩

end MakePlus
