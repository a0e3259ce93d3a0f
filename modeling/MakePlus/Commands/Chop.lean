import MakePlus.Basic

/-!
# The command lines of a recipe

`chop_commands (cmds)` cuts the text of a recipe into its command lines, once for each recipe.
A newline ends a line unless an odd number of backslashes stands right before it; under
`.ONESHELL` (`one_shell`) the whole text is one line, less a final newline. The count goes into
the `unsigned short` `ncommand_lines`, and a recipe that reaches `USHRT_MAX` lines is a fatal
error.

Each line then gets its flags: the blanks and the characters `-`, `@` and `+` that start it
say that its errors are ignored, that it is not echoed, and that it is run even under `-n`
(a recursive line). A line that names `$(MAKE)` or `${MAKE}` is recursive as well, and
`any_recurse` says whether some line is.

* `prefixFlags_eq`: the loop over the start of a line reads exactly the flag characters there;
* `lineFlags_eq_spec`: the flags of a line are those of `lineFlagsSpec`, where `$(MAKE)` may
  stand anywhere in the line;
* `chopLines_length_le`: the check of line 432 keeps the count within `USHRT_MAX`, so the
  check of line 452 never fires and the count is stored exactly;
* `chopCommands_eq`: a recipe not yet chopped gets its lines, their exact count, the flags of
  `lineFlagsSpec` and `any_recurse`.
-/

namespace MakePlus

/-- Modelled from the spec: `USHRT_MAX` of `<limits.h>`, for a 16-bit `unsigned short`. -/
def ushrtMax : Nat := 65535

/-- The flags of one command line: the bits `COMMANDS_RECURSE`, `COMMANDS_SILENT` and
    `COMMANDS_NOERROR` of its entry in `lines_flags`. -/
structure LineFlags where
  recurse : Bool
  silent : Bool
  noerror : Bool
  deriving DecidableEq, Repr

/-- The members of `struct commands` that `chop_commands` reads and writes; `command_lines` is
    `none` while it is a null pointer. -/
structure Commands where
  commands : List Char
  commandLines : Option (List (List Char))
  ncommandLines : Nat
  linesFlags : List LineFlags
  anyRecurse : Bool
  deriving DecidableEq, Repr

/-! ## The model -/

/-- `strstr (haystack, needle) != 0`: `needle` starts at some offset of `haystack`. -/
def strstr : List Char → List Char → Bool
  | [], needle => needle.isEmpty
  | c :: haystack, needle => needle.isPrefixOf (c :: haystack) || strstr haystack needle

/-- The loop of lines 418-420: from `end - 2` back to `p`, `backslash` flips at each backslash;
    the bytes are given nearest first. -/
def flipBackslashes : List Char → Bool → Bool
  | '\\' :: bs, backslash => flipBackslashes bs !backslash
  | _, backslash => backslash

/-- The search of lines 411-428 for the end of the line that starts at `p`, from the offset
    `e` of `end`: the first newline at `e` or after it with no odd run of backslashes right
    before it, or the end of the string. -/
def findEnd (p : List Char) (e : Nat) : Nat :=
  match _hk : strchr (p.drop e) '\n' with
  | none => p.length
  | some k =>
    if 0 < e + k && p[e + k - 1]? == some '\\' then
      if flipBackslashes (p.take (e + k - 1)).reverse true then findEnd p (e + k + 1)
      else e + k
    else e + k
termination_by p.length - e
decreasing_by have := strchr_lt _hk; simp only [List.length_drop] at this; omega

/-- The loop of lines 408-447, from the rest `p` of the text, with the lines cut so far. -/
def chopLoop (p : List Char) (lines : List (List Char)) : Except Fault (List (List Char)) :=
  match p with
  | [] => pure lines
  | c :: cs =>
    let e := findEnd (c :: cs) 0
    if lines.length = ushrtMax then .error .fatal
    else chopLoop (List.drop e (c :: cs)).tail (lines ++ [(c :: cs).take e])
termination_by p.length
decreasing_by simp only [List.length_tail, List.length_drop, List.length_cons]; omega

/-- Lines 387-447: the command lines of the text `s`. -/
def chopLines (oneShell : Bool) (s : List Char) : Except Fault (List (List Char)) :=
  if oneShell then pure [if s.getLast? = some '\n' then s.dropLast else s]
  else chopLoop s []

/-- The `switch` of lines 466-477: the flag a character at the start of a line sets. -/
def setFlag (c : Char) (flags : LineFlags) : LineFlags :=
  match c with
  | '+' => { flags with recurse := true }
  | '@' => { flags with silent := true }
  | '-' => { flags with noerror := true }
  | _ => flags

/-- The condition of the loop of line 464: a character that sets a flag at the start of a
    command line, a blank, `-`, `@` or `+`. -/
def isFlagChar (c : Char) : Bool := isBlank c || c == '-' || c == '@' || c == '+'

/-- The loop of lines 464-477: the blanks and the characters `-`, `@` and `+` that start a
    line, each setting its flag, and the rest of the line. -/
def prefixFlags : List Char → LineFlags → LineFlags × List Char
  | [], flags => (flags, [])
  | c :: p, flags => if isFlagChar c then prefixFlags p (setFlag c flags) else (flags, c :: p)

/-- Lines 462-484: the flags of one command line. -/
def lineFlags (line : List Char) : LineFlags :=
  let (flags, p) := prefixFlags line ⟨false, false, false⟩
  if !flags.recurse && (strstr p "$(MAKE)".toList || strstr p "${MAKE}".toList) then
    { flags with recurse := true }
  else flags

/-- Lines 458-487: the flags of every line, and `any_recurse`. -/
def setLinesFlags (lines : List (List Char)) : List LineFlags × Bool :=
  lines.foldl (fun acc line => (acc.1 ++ [lineFlags line], acc.2 || (lineFlags line).recurse))
    ([], false)

/-- `chop_commands (cmds)`, with `one_shell` given; a null `cmds` is not modelled. -/
def chopCommands (oneShell : Bool) (cmds : Commands) : Except Fault Commands := do
  if cmds.commandLines.isSome then return cmds
  let lines ← chopLines oneShell (cstr cmds.commands)
  if lines.length > ushrtMax then throw .fatal
  let (linesFlags, anyRecurse) := setLinesFlags lines
  pure { cmds with commandLines := some lines, ncommandLines := lines.length % (ushrtMax + 1),
                   linesFlags, anyRecurse }

/-! ## What the flags mean -/

/-- The flags a command line is meant to have: `+`, `@` and `-` among the characters that start
    it, and a line that names `$(MAKE)` or `${MAKE}` anywhere is recursive. -/
def lineFlagsSpec (line : List Char) : LineFlags :=
  let pre := line.takeWhile isFlagChar
  { recurse := pre.contains '+' || strstr line "$(MAKE)".toList || strstr line "${MAKE}".toList
    silent := pre.contains '@'
    noerror := pre.contains '-' }

example : lineFlagsSpec "@-echo $(MAKE)".toList = ⟨true, true, true⟩ := by decide

/-! ## The flags of a line -/

theorem setFlag_eq (c : Char) (flags : LineFlags) :
    setFlag c flags = ⟨flags.recurse || '+' == c, flags.silent || '@' == c,
      flags.noerror || '-' == c⟩ := by
  unfold setFlag
  split
  case h_4 h₁ h₂ h₃ =>
    simp only [beq_eq_false_iff_ne.mpr (Ne.symm h₁), beq_eq_false_iff_ne.mpr (Ne.symm h₂),
      beq_eq_false_iff_ne.mpr (Ne.symm h₃), Bool.or_false]
  all_goals simp

theorem prefixFlags_eq (line : List Char) (flags : LineFlags) :
    prefixFlags line flags =
      (⟨flags.recurse || (line.takeWhile isFlagChar).contains '+',
        flags.silent || (line.takeWhile isFlagChar).contains '@',
        flags.noerror || (line.takeWhile isFlagChar).contains '-'⟩,
       line.dropWhile isFlagChar) := by
  induction line generalizing flags with
  | nil => simp [prefixFlags]
  | cons c p ih =>
    by_cases hc : isFlagChar c = true
    · rw [prefixFlags, if_pos hc, ih, setFlag_eq, List.takeWhile_cons_of_pos hc,
        List.dropWhile_cons_of_pos hc]
      simp only [List.contains_cons, Bool.or_assoc]
    · rw [prefixFlags, if_neg hc, List.takeWhile_cons_of_neg hc, List.dropWhile_cons_of_neg hc]
      simp

/-- A needle that does not start with a flag character is found in a line exactly when it is
    found after the flag characters that start it. -/
theorem strstr_dropWhile {line : List Char} {x : Char} (xs : List Char)
    (hx : isFlagChar x = false) :
    strstr (line.dropWhile isFlagChar) (x :: xs) = strstr line (x :: xs) := by
  induction line with
  | nil => rfl
  | cons c p ih =>
    by_cases hc : isFlagChar c = true
    · have hne : x ≠ c := by rintro rfl; simp [hc] at hx
      rw [List.dropWhile_cons_of_pos hc, ih]
      simp [strstr, List.isPrefixOf, hne]
    · rw [List.dropWhile_cons_of_neg hc]

theorem lineFlags_eq_spec (line : List Char) : lineFlags line = lineFlagsSpec line := by
  have hd : isFlagChar '$' = false := by decide
  simp only [lineFlags, lineFlagsSpec, prefixFlags_eq, Bool.false_or, String.toList,
    strstr_dropWhile _ hd]
  split
  · simp_all
  · by_cases hp : '+' ∈ List.takeWhile isFlagChar line <;> simp_all

/-- The loop over the lines keeps the flags it wrote and ors `any_recurse`. -/
theorem foldl_setLinesFlags (lines : List (List Char)) (acc : List LineFlags × Bool) :
    lines.foldl (fun acc line => (acc.1 ++ [lineFlags line], acc.2 || (lineFlags line).recurse))
      acc = (acc.1 ++ lines.map lineFlags, acc.2 || lines.any fun l => (lineFlags l).recurse) := by
  induction lines generalizing acc with
  | nil => simp
  | cons l ls ih => simp [ih, Bool.or_assoc]

theorem setLinesFlags_eq (lines : List (List Char)) :
    setLinesFlags lines =
      (lines.map lineFlagsSpec, lines.any fun l => (lineFlagsSpec l).recurse) := by
  have hspec : lineFlags = lineFlagsSpec := funext lineFlags_eq_spec
  rw [setLinesFlags, foldl_setLinesFlags, hspec, List.nil_append, Bool.false_or]

/-! ## The count of lines -/

/-- The check of line 432: the loop never holds more than `USHRT_MAX` lines. -/
theorem chopLoop_length_le (p : List Char) {lines r : List (List Char)}
    (hl : lines.length ≤ ushrtMax) (h : chopLoop p lines = .ok r) : r.length ≤ ushrtMax := by
  induction p, lines using chopLoop.induct with
  | case1 lines => simp only [chopLoop, pure_eq_ok, Except.ok.injEq] at h; exact h ▸ hl
  | case2 lines c cs hfull =>
    simp only [chopLoop, hfull, if_true] at h
    cases h
  | case3 lines c cs e hfull ih =>
    simp only [chopLoop, hfull, if_false] at h
    exact ih (by simp only [List.length_append, List.length_singleton]; omega) h

theorem chopLines_length_le {oneShell : Bool} {s : List Char} {lines : List (List Char)}
    (h : chopLines oneShell s = .ok lines) : lines.length ≤ ushrtMax := by
  unfold chopLines at h
  split at h
  · cases h; simp only [List.length_singleton]; decide
  · exact chopLoop_length_le s (by decide) h

/-! ## Chopping a recipe -/

/-- A recipe not chopped yet gets the lines `chopLines` cuts, their exact count, the flags of
    `lineFlagsSpec` for each line, and `any_recurse` when some line is recursive. -/
theorem chopCommands_eq (oneShell : Bool) (cmds : Commands) (hnew : cmds.commandLines = none) :
    chopCommands oneShell cmds = (chopLines oneShell (cstr cmds.commands)).map fun lines =>
      { cmds with commandLines := some lines, ncommandLines := lines.length,
                  linesFlags := lines.map lineFlagsSpec,
                  anyRecurse := lines.any fun l => (lineFlagsSpec l).recurse } := by
  cases h : chopLines oneShell (cstr cmds.commands) with
  | error e => simp [chopCommands, hnew, h]; rfl
  | ok lines =>
    have hle := chopLines_length_le h
    have hmod : lines.length % (ushrtMax + 1) = lines.length := Nat.mod_eq_of_lt (by omega)
    simp [chopCommands, hnew, h, setLinesFlags_eq, hmod, Nat.not_lt.mpr hle]
    rfl

/-- A recipe of two lines, the second one recursive, not chopped yet. -/
def makeRecipe : Commands := ⟨"@echo making sub\n$(MAKE) -C sub\n".toList, none, 0, [], false⟩

theorem chopCommands_makeRecipe :
    chopCommands true makeRecipe = (chopLines true (cstr makeRecipe.commands)).map fun lines =>
      { makeRecipe with commandLines := some lines, ncommandLines := lines.length,
                        linesFlags := lines.map lineFlagsSpec,
                        anyRecurse := lines.any fun l => (lineFlagsSpec l).recurse } :=
  chopCommands_eq true makeRecipe rfl

end MakePlus
