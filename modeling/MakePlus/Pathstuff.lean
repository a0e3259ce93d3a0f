import MakePlus.Basic

/-!
# Windows path lists

On Windows a search path is written the Windows way: entries separated by `;`, an entry with
blanks enclosed in double quotes. `construct_vpath_list` reads the canonical syntax, entries
separated by blanks with a blank inside an entry escaped by a backslash, and converts a search
path first with `convert_vpath_from_windows32` (w32/pathstuff.c).

The conversion drops the quotes, escapes the blanks inside quotes (and, when the list has a
delimiter outside quotes, every blank), and turns each delimiter outside quotes into a space,
trimming the blanks around it. It trims a blank it has just escaped, but not the backslash that
escapes it: see `windowsEntries` in `MakePlus.Vpath.Construct`.

`convert_Path_to_windows32` goes the other way: each blank outside quotes ends a path and
becomes the delimiter, and a path that had an escaped blank is enclosed in double quotes once
its end is known, by moving what was written since the path began (`mark`) one byte up.

`getcwd_fs` gives the working directory with forward slashes, through the static buffer of
`convert_slashes`.
-/

namespace MakePlus

/-- The dry run of `convert_vpath_from_windows32`: the bytes the conversion may need, counting
    two for every blank, and whether a delimiter stands outside double quotes. -/
def dryRun (delim : Char) : (instring : Bool) → List Char → Nat × Bool
  | _, [] => (0, false)
  | instring, c :: src =>
    if c = nul then (0, false)
    else
      let (size, delimFound) := dryRun delim (if c = '"' then !instring else instring) src
      (size + (if isBlank c then 2 else 1), delimFound || (c != '"' && c == delim && !instring))

/-- The conversion loop of `convert_vpath_from_windows32` over `src`, with `tgt` the bytes
    written so far, last first. A quote toggles `instring` and is dropped; a blank that is not
    escaped is escaped inside quotes, or everywhere once a delimiter was found; a delimiter outside
    quotes becomes a space, with the blanks written before it taken back and the blanks after it
    skipped (`skipping`, the inner `while` of the source). `isescaped` is the parity of the
    backslashes just copied outside quotes. -/
def convertLoop (delim : Char) (delimFound : Bool) :
    (tgt : List Char) → (instring isescaped skipping : Bool) → List Char → List Char
  | tgt, _, _, _, [] => tgt
  | tgt, instring, isescaped, skipping, c :: src =>
    if c = nul then tgt
    else if skipping && isBlank c then convertLoop delim delimFound tgt instring false true src
    else if c = '"' then convertLoop delim delimFound tgt (!instring) false false src
    else if isBlank c && !isescaped && (instring || delimFound) then
      convertLoop delim delimFound (' ' :: '\\' :: tgt) instring false false src
    else if c == delim && !instring then
      convertLoop delim delimFound (' ' :: tgt.dropWhile isBlank) instring
        (if c = '\\' then !isescaped else false) true src
    else
      convertLoop delim delimFound (c :: tgt) instring
        (if !instring && c = '\\' then !isescaped else false) false src

/-- `convert_vpath_from_windows32 (Path, delim)`: the search path in canonical syntax, or `none`
    (`NULL`) when `Path` is blank. -/
def convertVpathFromWindows32 (path : List Char) (delim : Char) : Option (List Char) :=
  match path.dropWhile isBlank with
  | [] => none
  | c :: src =>
    if c = nul then none
    else
      let delimFound := (dryRun delim false (c :: src)).2
      some (convertLoop delim delimFound [] false false false (c :: src)
        |>.dropWhile isBlank).reverse

/-- `*tgt++ = '"'; memmove (mark + 1, mark, tgt - mark); *mark = '"'; tgt++;`: what was
    written since `mark` enclosed in double quotes. -/
def enquoteFrom (tgt : List Char) (mark : Nat) : List Char :=
  tgt.take mark ++ '"' :: (tgt.drop mark ++ ['"'])

/-- The conversion loop of `convert_Path_to_windows32` over `src`, with `tgt` the bytes written
    so far and `mark` the offset where the current path starts. A backslash before a blank
    outside quotes is an escaped blank, written as a space, and the path is to be quoted
    (`enquote`); a blank outside quotes ends the path, which is quoted then, and is written as the
    delimiter; any other character is copied, a quote toggling `instring`. -/
def toWindowsLoop (delim : Char) (tgt : List Char) (mark : Nat) (enquote instring : Bool) :
    List Char → List Char
  | [] => if enquote then enquoteFrom tgt mark else tgt
  | c :: src =>
    if c = nul then (if enquote then enquoteFrom tgt mark else tgt)
    else if !instring && c = '\\' && src.head?.any isBlank then
      toWindowsLoop delim (tgt ++ [' ']) mark true instring src.tail
    else if !instring && isBlank c then
      let tgt := if enquote then enquoteFrom tgt mark else tgt
      toWindowsLoop delim (tgt ++ [delim]) (tgt.length + 1) false instring src
    else toWindowsLoop delim (tgt ++ [c]) mark enquote (if c = '"' then !instring else instring) src
termination_by src => src.length
decreasing_by
  all_goals simp_wf
  all_goals
    try simp only [List.length_tail]
    omega

/-- `convert_Path_to_windows32 (Path, delim)`: the search path in the Windows syntax, or `none`
    (`NULL`) when `Path` is blank. -/
def convertPathToWindows32 (path : List Char) (delim : Char) : Option (List Char) :=
  match path.dropWhile isBlank with
  | [] => none
  | c :: src => if c = nul then none else some (toWindowsLoop delim [] 0 false false (c :: src))

/-- Modelled from the spec: `FILENAME_MAX` of the Windows C runtime, the size of the static
    buffer `w32_path`. -/
def filenameMax : Nat := 260

/-- The loop of lines 237-239 on one character: a backslash becomes a slash. -/
def forwardSlash (c : Char) : Char := if c = '\\' then '/' else c

/-- `convert_slashes (filename, 0)`: `filename` copied into `w32_path` by `strlcpy`, cut to what
    the buffer holds, with every backslash turned into a slash. The call with `resolve`, through
    `_fullpath` of the C runtime, is left out. -/
def convertSlashes (filename : List Char) : List Char :=
  ((cstr filename).take (filenameMax - 1)).map forwardSlash

/-- `getcwd_fs (buf, len)` in the working directory `cwd`: `getcwd` fails (a null pointer) unless
    the directory and its NUL fit the `len` bytes of `buf`; then `buf` gets back, by `strlcpy`,
    what `convert_slashes` makes of it. -/
def getcwdFs (cwd : List Char) (len : Nat) : Option (List Char) :=
  if cwd.length < len then some ((convertSlashes cwd).take (len - 1)) else none

end MakePlus
