import MakePlus.Basic

/-!
# Search paths and their patterns

A selective search path (`struct vpath`) applies to the file names its pattern matches. A
pattern has at most one wildcard `%`; a `%` is quoted by a backslash, and a backslash by another
one. `find_percent` finds the first unquoted `%` and swallows the backslashes that quote, and
`construct_vpath_list` stores the pattern as `find_percent` leaves it, with the offset of the
wildcard.

`vpath_match` adds a fallback: a pattern that ends in `.` also matches a name without any dot
when the pattern without its dot does. It finds the wildcard of the shortened pattern with
`find_percent` again, on the stored pattern, which `find_percent` has already unquoted:

* `vpathMatch_requotes`: a pattern written `a\\%.` stores `a\%.` with a wildcard after the
  backslash, while its fallback `a\%` has none, so `a%` matches through the fallback.

`pattern_matches` itself runs `find_percent` again when it is given no wildcard, so a stored
pattern whose only `%` was quoted (`a\%`, stored as `a%`) still matches as a wildcard.
-/

namespace MakePlus

/-- A search path, `struct vpath`: a pattern with the offset of its wildcard, the directories to
    search, the length of the longest of them, and whether a file that does not exist is placed
    in the first directory (`target_goal`). The chain of search paths through `next` is the list
    that holds them. The last four fields are what `construct_vpath_list` guarantees of every
    search path it builds. -/
structure Vpath where
  pattern : List Char
  percent : Option Nat
  searchpath : List (List Char)
  maxlen : Nat
  targetGoal : Bool
  searchpath_ne_nil : searchpath ≠ []
  entry_ne_nil : ∀ d ∈ searchpath, d ≠ []
  nul_not_mem : ∀ d ∈ searchpath, nul ∉ d
  length_le_maxlen : ∀ d ∈ searchpath, d.length ≤ maxlen
  deriving DecidableEq

/-! ## Finding the wildcard -/

/-- The scan of `find_percent` over `s`, with `rev` the characters already scanned (last first,
    as the unquoting left them) and `bs` the number of backslashes that end them. A `%` after an
    odd run of backslashes is quoted: the run loses half of its backslashes, rounded up, and the
    scan goes on. After an even run the `%` is the wildcard: the run loses half. -/
def findPercentAux : List Char → Nat → List Char → List Char × Option Nat
  | rev, _, [] => (rev.reverse, none)
  | rev, bs, c :: cs =>
    if c = '%' then
      if bs % 2 = 0 then ((rev.drop (bs / 2)).reverse ++ '%' :: cs, some (rev.length - bs / 2))
      else findPercentAux ('%' :: rev.drop ((bs + 1) / 2)) 0 cs
    else findPercentAux (c :: rev) (if c = '\\' then bs + 1 else 0) cs

/-- Modelled from the spec: `find_percent`, the wildcard-offset finder, as GNU make's read.c
    writes it (`find_char_unquote`): the pattern with the backslashes quoting a `%` swallowed up
    to its first unquoted `%`, and the offset of that `%`. -/
def findPercent (pattern : List Char) : List Char × Option Nat := findPercentAux [] 0 pattern

/-- The match of `str` against `pattern` with its wildcard at offset `k`: `str` starts with what
    precedes the wildcard and ends with what follows it, the two not overlapping. -/
def wildcardMatches (pattern : List Char) (k : Nat) (str : List Char) : Bool :=
  k + (pattern.length - (k + 1)) ≤ str.length && (pattern.take k).isPrefixOf str &&
    (pattern.drop (k + 1)).isSuffixOf str

/-- Modelled from the spec: `pattern_matches (pattern, percent, str)`, the single-wildcard matcher
    (`wildcard_match`), as GNU make writes it. Without a wildcard (`percent` null) it runs
    `find_percent` again on a copy of the pattern, and compares the copy with `str` only when that
    finds no wildcard either: a stored pattern whose `%` was quoted matches as a wildcard. -/
def patternMatches (pattern : List Char) : Option Nat → List Char → Bool
  | some k, str => wildcardMatches pattern k str
  | none, str =>
    match findPercent pattern with
    | (newChars, some k) => wildcardMatches newChars k str
    | (newChars, none) => newChars == str

/-- `vpath_match`: whether `filename` matches the pattern of `v`, or, when that pattern ends in
    `.` and `filename` has no `.`, the pattern without its dot. -/
def vpathMatch (v : Vpath) (filename : List Char) : Except Fault Bool := do
  if patternMatches v.pattern v.percent filename then return true
  assert (v.pattern.length > 0) 362
  if v.pattern.getLast? = some '.' && !filename.contains '.' then
    -- the code copies the pattern, erases the dot and calls `find_percent` on the copy
    let (p, percent) := findPercent v.pattern.dropLast
    if patternMatches p percent filename then return true
  return false

/-- `vpath_match` of a search path with a pattern: the pattern matches, or the fallback does. -/
theorem vpathMatch_eq {v : Vpath} (h : v.pattern ≠ []) (file : List Char) :
    vpathMatch v file = .ok (patternMatches v.pattern v.percent file ||
      (v.pattern.getLast? = some '.' && !file.contains '.' &&
        patternMatches (findPercent v.pattern.dropLast).1 (findPercent v.pattern.dropLast).2
          file)) := by
  have hlen : v.pattern.length > 0 := List.length_pos.2 h
  by_cases h₁ : patternMatches v.pattern v.percent file
  · simp [vpathMatch, h₁]
  · by_cases h₂ : v.pattern.getLast? = some '.' ∧ '.' ∉ file
    · cases h₃ : patternMatches (findPercent v.pattern.dropLast).1
          (findPercent v.pattern.dropLast).2 file <;>
        simp [vpathMatch, h₁, h₂, h₃, hlen]
    · simp only [not_and, not_not] at h₂
      by_cases hl : v.pattern.getLast? = some '.'
      · simp [vpathMatch, h₁, hlen, hl, h₂ hl]
      · simp [vpathMatch, h₁, hlen, hl]

/-- The search path of `vpath a\\\\%. d`: `find_percent` stores its pattern as `a\\%.`, with the
    wildcard after the backslash. -/
def quotedDotVpath : Vpath where
  pattern := (findPercent "a\\\\%.".toList).1
  percent := (findPercent "a\\\\%.".toList).2
  searchpath := ["d".toList]
  maxlen := 1
  targetGoal := false
  searchpath_ne_nil := by decide
  entry_ne_nil := by decide
  nul_not_mem := by decide
  length_le_maxlen := by decide

theorem vpathMatch_requotes :
    ¬ (vpathMatch quotedDotVpath "a%".toList = .ok true ↔
        (patternMatches quotedDotVpath.pattern quotedDotVpath.percent "a%".toList ∨
          (quotedDotVpath.pattern.getLast? = some '.' ∧ '.' ∉ "a%".toList ∧
            patternMatches quotedDotVpath.pattern.dropLast
              quotedDotVpath.percent "a%".toList))) := by
  decide

end MakePlus
