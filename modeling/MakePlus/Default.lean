import MakePlus.Basic

/-!
# The configuration file

Make-plus reads its built-in variables and rules from a configuration file (`read_config`,
default.c). The file is read line by line with `fgets` into a buffer of `LINELENGTH` bytes;
the trailing blanks of a line are stripped, a line ending in a single backslash is continued by
the next one, and a `#` starts a comment unless a backslash stands before it, which is then
deleted. The lines left are kept in `textroot`, and three loaders go over them:

* `define_default_variables` defines a variable for each line that does not start with a blank
  and has an `=` (`is_variable`), and `undefine_default_variables` undefines it again;
  `get_default_variable` looks a variable up in the lines;
* `install_default_suffix_rules` takes a line that starts with `.` and ends with its first `:`
  as a suffix rule;
* `install_default_implicit_rules` takes a line that does not start with a blank, with a `%`
  and a `:` after it that no `=` follows, as a pattern rule.

`get_default_variable` returns the value of the first line that assigns a name, while
`define_default_variables` leaves the value of the last, and under `-R` returns before it reads
the file (`getDefaultVariable_eq_lookup`).

This module keeps the target or pattern rule a line gives; the commands of a rule, the lines
after it that start with a blank, are collected in `MakePlus.Default.Recipes`, the value of
`.SUFFIXES` in `MakePlus.Default.Suffixes`, and the choice of the file in
`MakePlus.Default.ConfigFile`.
-/

namespace MakePlus

/-- `*p <= ' '` on a signed `char`: the control bytes and the space, and the bytes from 0x80,
    which are negative. -/
def leSpace (c : Char) : Bool := c.toNat ≤ 32 || 128 ≤ c.toNat

/-- `striptrailing (line)`: the line less the bytes `<= ' '` at its end. -/
def striptrailing (line : List Char) : List Char := (line.reverse.dropWhile leSpace).reverse

/-- `skipleading (line)`: the line from its first byte that is NUL or above `' '`. -/
def skipleading (line : List Char) : List Char := line.dropWhile fun c => c != nul && leSpace c

/-! ## Reading the file -/

/-- `LINELENGTH`, the size of the buffer `read_config` reads into. -/
def lineLength : Nat := 2048

/-- `fgets (s, n, stream)` on the bytes `file` left in the stream: at most `n - 1` bytes, up to
    and including the first newline, and the rest of the stream; `none` (`NULL`) at its end. -/
def fgets (n : Nat) (file : List Char) : Option (List Char × List Char) :=
  match file with
  | [] => none
  | c :: cs =>
    let k := min (n - 1) (((c :: cs).takeWhile (· != '\n')).length + 1)
    some ((c :: cs).take k, (c :: cs).drop k)

/-- Lines 199-208: a final backslash erased; it continues the line, whose trailing blanks are
    then stripped, unless another backslash stands before it. -/
def eraseContinuation (line : List Char) : List Char × Bool :=
  if line.getLast? = some '\\' then
    if line.dropLast.getLast? ≠ some '\\' then (striptrailing line.dropLast, true)
    else (line.dropLast, false)
  else (line, false)

/-- Lines 210-216: the first `#` ends the line, unless a backslash stands before it, which is
    then deleted. -/
def cutComment (line : List Char) : List Char :=
  match strchr line '#' with
  | none => line
  | some i =>
    if i = 0 || line.get? (i - 1) != some '\\' then line.take i else line.eraseIdx (i - 1)

/-- One pass of the `do` loop of lines 195-224 over the line read so far: its trailing blanks
    stripped, a continuation erased, and the first `#` handled; and whether the line goes on. -/
def configPass (line : List Char) : List Char × Bool :=
  let (line, concat) := eraseContinuation (striptrailing line)
  (cutComment line, concat)

theorem length_striptrailing_le (line : List Char) :
    (striptrailing line).length ≤ line.length := by
  simpa [striptrailing] using (List.dropWhile_suffix leSpace (l := line.reverse)).length_le

theorem length_cutComment_le (line : List Char) : (cutComment line).length ≤ line.length := by
  unfold cutComment
  split
  · exact le_rfl
  · split
    · exact (List.take_prefix _ _).length_le
    · rw [List.length_eraseIdx]; split <;> omega

theorem eraseContinuation_length_lt {line line' : List Char}
    (h : eraseContinuation line = (line', true)) : line'.length < line.length := by
  unfold eraseContinuation at h
  split_ifs at h with h₁
  · cases h
    have hpos : 0 < line.length := List.length_pos.mpr fun h0 => by simp [h0] at h₁
    have := length_striptrailing_le line.dropLast
    simp only [List.length_dropLast] at this
    omega
  all_goals cases h

/-- A pass that continues the line has erased its final backslash. -/
theorem configPass_length_lt {line line' : List Char} (h : configPass line = (line', true)) :
    line'.length < line.length := by
  unfold configPass at h
  rcases he : eraseContinuation (striptrailing line) with ⟨l, concat⟩
  rw [he] at h
  simp only [Prod.mk.injEq] at h
  obtain ⟨rfl, rfl⟩ := h
  have := eraseContinuation_length_lt he
  have := length_cutComment_le l
  have := length_striptrailing_le line
  omega

theorem fgets_length {n : Nat} {file line rest : List Char} (h : fgets n file = some (line, rest)) :
    line.length + rest.length = file.length := by
  unfold fgets at h
  split at h
  · cases h
  · simp only [Option.some.injEq, Prod.mk.injEq] at h
    obtain ⟨rfl, rfl⟩ := h
    simp only [List.length_take, List.length_drop]
    omega

theorem length_cstr_le (b : List Char) : (cstr b).length ≤ b.length :=
  (List.takeWhile_prefix _).length_le

/-- The `do` loop of lines 195-225 on the line read so far and the rest of the file: a pass, and
    while it continues the line, the next line of the file read onto its end. -/
def configLine (line file : List Char) : List Char × List Char :=
  match _hp : configPass line with
  | (line', true) =>
    match _hf : fgets (lineLength - line'.length) file with
    | some (next, file') => configLine (line' ++ cstr next) file'
    | none => (line', file)
  | (line', false) => (line', file)
termination_by line.length + file.length
decreasing_by
  have h₁ := configPass_length_lt _hp
  have h₂ := fgets_length _hf
  have h₃ := length_cstr_le next
  simp only [List.length_append]
  omega

section ConfigLine

variable {line line' file : List Char}

theorem configLine_of_continued {next file' : List Char} (hp : configPass line = (line', true))
    (hf : fgets (lineLength - line'.length) file = some (next, file')) :
    configLine line file = configLine (line' ++ cstr next) file' := by
  rw [configLine]
  split <;> rename_i h <;>
    simp only [hp, Prod.mk.injEq, Bool.false_eq_true, Bool.true_eq_false, and_false] at h
  obtain ⟨rfl, -⟩ := h
  split <;> rename_i h <;> simp only [hf, Option.some.injEq, Prod.mk.injEq, reduceCtorEq] at h
  obtain ⟨rfl, rfl⟩ := h
  rfl

theorem configLine_of_eof (hp : configPass line = (line', true))
    (hf : fgets (lineLength - line'.length) file = none) :
    configLine line file = (line', file) := by
  rw [configLine]
  split <;> rename_i h <;>
    simp only [hp, Prod.mk.injEq, Bool.false_eq_true, Bool.true_eq_false, and_false] at h
  obtain ⟨rfl, -⟩ := h
  split <;> rename_i h <;> simp only [hf, reduceCtorEq] at h
  rfl

theorem configLine_of_ended (hp : configPass line = (line', false)) :
    configLine line file = (line', file) := by
  rw [configLine]
  split <;> rename_i h <;>
    simp only [hp, Prod.mk.injEq, Bool.false_eq_true, Bool.true_eq_false, and_false] at h
  obtain ⟨rfl, -⟩ := h
  rfl

end ConfigLine

theorem configLine_rest_le (line file : List Char) :
    (configLine line file).2.length ≤ file.length := by
  induction line, file using configLine.induct with
  | case1 line file line' hp next file' hf ih =>
    rw [configLine_of_continued hp hf]
    have := fgets_length hf
    omega
  | case2 line file line' hp hf => rw [configLine_of_eof hp hf]
  | case3 line file line' hp => rw [configLine_of_ended hp]

theorem fgets_lineLength_lt {file line rest : List Char}
    (h : fgets lineLength file = some (line, rest)) : rest.length < file.length := by
  unfold fgets at h
  split at h
  · cases h
  · simp only [Option.some.injEq, Prod.mk.injEq] at h
    obtain ⟨-, rfl⟩ := h
    simp only [List.length_drop, List.length_cons, lineLength]
    omega

/-- The loop of lines 191-239 of `read_config` over the bytes `file` of the configuration file:
    the lines it keeps in `textroot`, each physical line read with those that continue it, and
    kept unless it is left empty. -/
def configLines (file : List Char) : List (List Char) :=
  match _hf : fgets lineLength file with
  | none => []
  | some (line, file') =>
    let r := configLine (cstr line) file'
    (if r.1 = [] then [] else [r.1]) ++ configLines r.2
termination_by file.length
decreasing_by
  have := fgets_lineLength_lt _hf
  have := configLine_rest_le (cstr line) file'
  omega

theorem configLines_of_fgets {file line file' : List Char}
    (hf : fgets lineLength file = some (line, file')) :
    configLines file =
      (if (configLine (cstr line) file').1 = [] then [] else [(configLine (cstr line) file').1]) ++
        configLines (configLine (cstr line) file').2 := by
  rw [configLines]
  split <;> rename_i h <;> simp only [hf, Option.some.injEq, Prod.mk.injEq, reduceCtorEq] at h
  obtain ⟨rfl, rfl⟩ := h
  rfl

theorem configLines_nil : configLines [] = [] := by
  rw [configLines]
  rfl

/-- Each pass looks at the first `#` of the line only. After an escaped `#` a second `#` is kept
    with its comment; and an escaped `#` in a line that a continuation then extends is taken,
    unescaped, for the start of a comment on the next pass. -/
theorem configLines_first_hash_only :
    configLines "a\\#b#c\n".toList = ["a#b#c".toList] ∧
      configLines "x\\#y\\\nz".toList = ["x".toList] := by
  constructor
  · rw [configLines_of_fgets
        (show fgets lineLength "a\\#b#c\n".toList = some ("a\\#b#c\n".toList, []) by decide),
      configLine_of_ended (show configPass (cstr "a\\#b#c\n".toList) = ("a#b#c".toList, false)
        by decide), configLines_nil]
    rfl
  · rw [configLines_of_fgets (show fgets lineLength "x\\#y\\\nz".toList =
        some ("x\\#y\\\n".toList, ['z']) by decide),
      configLine_of_continued (show configPass (cstr "x\\#y\\\n".toList) = ("x#y".toList, true)
        by decide) (show fgets (lineLength - 3) ['z'] = some (['z'], []) by decide),
      configLine_of_ended (show configPass ("x#y".toList ++ cstr ['z']) = ("x".toList, false)
        by decide), configLines_nil]
    rfl

/-! ## Well-formed lines

Whatever the file holds (NUL bytes, lines longer than the buffer, continuations), the lines
`read_config` keeps are C strings of the buffer: the continuation reads at most what is left of
`LINELENGTH`, `fgets` stops at a newline, and the first pass of each line strips it. -/

theorem striptrailing_prefix_self (line : List Char) : striptrailing line <+: line := by
  simpa [striptrailing] using (List.dropWhile_suffix leSpace (l := line.reverse)).reverse

theorem eraseContinuation_sublist (line : List Char) :
    List.Sublist (eraseContinuation line).1 line := by
  unfold eraseContinuation
  split_ifs
  · exact (striptrailing_prefix_self _).sublist.trans (List.dropLast_sublist line)
  · exact List.dropLast_sublist line
  · exact List.Sublist.refl line

theorem cutComment_sublist (line : List Char) : List.Sublist (cutComment line) line := by
  unfold cutComment
  split
  · exact List.Sublist.refl line
  · split
    · exact List.take_sublist _ _
    · exact List.eraseIdx_sublist _ _

theorem configPass_sublist (line : List Char) :
    List.Sublist (configPass line).1 (striptrailing line) :=
  (cutComment_sublist _).trans (eraseContinuation_sublist _)

/-- The bytes `<= ' '` at the end of a line go, the newline `fgets` leaves there with them. -/
theorem newline_not_mem_striptrailing {line : List Char} (h : '\n' ∉ line.dropLast) :
    '\n' ∉ striptrailing line := by
  rw [striptrailing, List.mem_reverse]
  rw [← List.mem_reverse, ← List.tail_reverse] at h
  cases hr : line.reverse with
  | nil => simp
  | cons c r =>
    rw [hr, List.tail_cons] at h
    by_cases hc : leSpace c
    · rw [List.dropWhile_cons_of_pos hc]
      exact fun hm => h ((List.dropWhile_suffix _).subset hm)
    · rw [List.dropWhile_cons_of_neg hc, List.mem_cons, not_or]
      exact ⟨by rintro rfl; exact hc (by decide), h⟩

theorem dropLast_sublist_dropLast {p l : List Char} (h : p <+: l) :
    List.Sublist p.dropLast l.dropLast := by
  obtain ⟨t, rfl⟩ := h
  by_cases ht : t = []
  · simp [ht]
  · rw [List.dropLast_append_of_ne_nil p ht]
    exact (List.dropLast_sublist p).trans (List.sublist_append_left _ _)

theorem fgets_length_le {n : Nat} {file line rest : List Char}
    (h : fgets n file = some (line, rest)) : line.length ≤ n - 1 := by
  unfold fgets at h
  split at h
  · cases h
  · simp only [Option.some.injEq, Prod.mk.injEq] at h
    obtain ⟨rfl, rfl⟩ := h
    simp only [List.length_take]
    omega

/-- The first `m` elements of a list satisfy `p` when at least `m` do. -/
theorem mem_take_of_le_takeWhile {p : Char → Bool} :
    ∀ (l : List Char) (m : Nat), m ≤ (l.takeWhile p).length → ∀ x ∈ l.take m, p x = true
  | [], _, _, x, hx => by simp at hx
  | _, 0, _, x, hx => by simp at hx
  | a :: l, m + 1, hm, x, hx => by
    by_cases ha : p a
    · rw [List.takeWhile_cons_of_pos ha, List.length_cons] at hm
      rw [List.take_succ_cons, List.mem_cons] at hx
      rcases hx with rfl | hx
      · exact ha
      · exact mem_take_of_le_takeWhile l m (by omega) x hx
    · rw [List.takeWhile_cons_of_neg ha] at hm
      simp at hm

/-- `fgets` stops at the first newline: only the last byte it reads can be one. -/
theorem fgets_newline {n : Nat} {file line rest : List Char}
    (h : fgets n file = some (line, rest)) : '\n' ∉ line.dropLast := by
  unfold fgets at h
  split at h
  · cases h
  · rename_i c cs
    simp only [Option.some.injEq, Prod.mk.injEq] at h
    obtain ⟨rfl, rfl⟩ := h
    intro hm
    rw [List.dropLast_eq_take, List.take_take, List.length_take] at hm
    simpa using mem_take_of_le_takeWhile (p := (· != '\n')) _ _ (by omega) _ hm

/-- A pass keeps a sublist of the line, and leaves no newline when the line had one at most at its
    end. -/
theorem configPass_wf {line line' : List Char} {concat : Bool}
    (hp : configPass line = (line', concat)) (hnl : '\n' ∉ line.dropLast) :
    List.Sublist line' line ∧ '\n' ∉ line' := by
  have h := configPass_sublist line
  rw [hp] at h
  exact ⟨h.trans (striptrailing_prefix_self line).sublist,
    fun hm => newline_not_mem_striptrailing hnl (h.subset hm)⟩

/-- While `read_config` builds a line, it holds no NUL and no newline but maybe a last one, and
    fits its buffer; the line it ends with holds no newline at all. -/
theorem configLine_wf (line file : List Char) (hnul : nul ∉ line) (hnl : '\n' ∉ line.dropLast)
    (hlen : line.length < lineLength) :
    nul ∉ (configLine line file).1 ∧ '\n' ∉ (configLine line file).1 ∧
      (configLine line file).1.length < lineLength := by
  induction line, file using configLine.induct with
  | case1 line file line' hp next file' hf ih =>
    -- a continued line: the next line read onto its end
    obtain ⟨hsub, hnl'⟩ := configPass_wf hp hnl
    have hnext := fgets_length_le hf
    have hcstr := (cstr_prefix_self next).sublist.length_le
    have hsublen := hsub.length_le
    rw [configLine_of_continued hp hf]
    refine ih (by simpa [not_or] using ⟨fun h => hnul (hsub.subset h), nul_not_mem_cstr next⟩)
      ?_ (by simp only [List.length_append]; omega)
    by_cases hc : cstr next = []
    · simpa [hc] using fun h => hnl' (List.dropLast_subset _ h)
    · rw [List.dropLast_append_of_ne_nil _ hc, List.mem_append, not_or]
      exact ⟨hnl', fun h =>
        fgets_newline hf ((dropLast_sublist_dropLast (cstr_prefix_self next)).subset h)⟩
  | case2 line file line' hp hf =>
    obtain ⟨hsub, hnl'⟩ := configPass_wf hp hnl
    rw [configLine_of_eof hp hf]
    exact ⟨fun h => hnul (hsub.subset h), hnl', hsub.length_le.trans_lt hlen⟩
  | case3 line file line' hp =>
    obtain ⟨hsub, hnl'⟩ := configPass_wf hp hnl
    rw [configLine_of_ended hp]
    exact ⟨fun h => hnul (hsub.subset h), hnl', hsub.length_le.trans_lt hlen⟩

/-- A line `read_config` keeps in `textroot`: not empty, without a NUL or a newline, and shorter
    than its buffer. -/
structure ConfigLineOk (l : List Char) : Prop where
  ne_nil : l ≠ []
  nul_not_mem : nul ∉ l
  newline_not_mem : '\n' ∉ l
  length_lt : l.length < lineLength

theorem configLineOk_of_mem_configLines (file : List Char) :
    ∀ l ∈ configLines file, ConfigLineOk l := by
  induction file using configLines.induct with
  | case1 file hf =>
    rw [configLines]
    split <;> rename_i h <;> simp only [hf, reduceCtorEq] at h
    simp
  | case2 file line file' hf r ih =>
    unfold r at ih
    rw [configLines_of_fgets hf]
    have hwf := configLine_wf (cstr line) file' (nul_not_mem_cstr line)
      (fun h => fgets_newline hf ((dropLast_sublist_dropLast (cstr_prefix_self line)).subset h))
      (((cstr_prefix_self line).sublist.length_le.trans (fgets_length_le hf)).trans_lt (by decide))
    intro l hl
    rcases List.mem_append.1 hl with hl | hl
    · split at hl
      · simp at hl
      · rename_i hne
        rw [List.mem_singleton] at hl
        subst hl
        exact ⟨hne, hwf.1, hwf.2.1, hwf.2.2⟩
    · exact ih l hl

/-! ## The variables -/

/-- `is_variable (line, name, namelength)`: for a line that does not start with a blank and has
    an `=`, the name before the `=` (at most `namelength - 1` bytes, less the colons at its end,
    then less the bytes `<= ' '` at its end) and the value after it, from its first byte above
    `' '`. -/
def isVariable (line : List Char) (namelength : Nat) : Option (List Char × List Char) :=
  if isBlank (line.headD nul) then none
  else
    match strchr line '=' with
    | none => none
    | some i =>
      let length := if i ≥ namelength then namelength - 1 else i
      let name := ((line.take length).reverse.dropWhile (· = ':')).reverse
      some (striptrailing name, skipleading (line.drop (i + 1)))

/-- The value a line assigns to `name`, the line read by `is_variable` with a buffer of 128
    bytes as both loops below read it. -/
def assignedValue (name line : List Char) : Option (List Char) :=
  match isVariable line 128 with
  | some (vname, value) => if vname = name then some value else none
  | none => none

/-- `get_default_variable (name)`: the value of the first line that assigns `name`. -/
def getDefaultVariable (lines : List (List Char)) (name : List Char) : Option (List Char) :=
  lines.findSome? (assignedValue name)

/-- Modelled from the spec: `define_variable (name, length, value, o_default, 1)` (variable.c, not
    in src/) on the variables of origin `o_default`, as a list from names to values; a
    definition with the same origin replaces an earlier value. -/
def defineVariable (table : List (List Char × List Char)) (name value : List Char) :
    List (List Char × List Char) :=
  (name, value) :: table.filter (·.1 != name)

/-- `default_variables`, the variables defined before the configuration file's. -/
def defaultVariables : List (List Char × List Char) :=
  [("GNUMAKEFLAGS".toList, []), (".RECIPEINDENT".toList, "4".toList), (".space".toList, [' '])]

/-- The body of the loop of lines 443-449: a variable defined for a line that assigns one. -/
def defineLine (table : List (List Char × List Char)) (line : List Char) :
    List (List Char × List Char) :=
  match isVariable line 128 with
  | some (vname, value) => defineVariable table vname value
  | none => table

/-- The loop of lines 437-438: the hard-coded variables of `default_variables`, defined before
    those of the configuration file. -/
def hardCodedVariables : List (List Char × List Char) :=
  defaultVariables.foldl (fun t v => defineVariable t v.1 v.2) []

/-- `define_default_variables ()`: `default_variables`, then, unless `-R`
    (`no_builtin_variables_flag`), a variable for each line that assigns one. -/
def defineDefaultVariables (noBuiltinVariablesFlag : Bool) (lines : List (List Char)) :
    List (List Char × List Char) :=
  if noBuiltinVariablesFlag then hardCodedVariables else lines.foldl defineLine hardCodedVariables

theorem lookup_filter_ne {name name' : List Char} (h : name ≠ name') :
    ∀ table : List (List Char × List Char),
      (table.filter (·.1 != name')).lookup name = table.lookup name
  | [] => rfl
  | (k, v) :: table => by
    by_cases hk : k = name'
    · subst hk
      simp [List.lookup_cons, beq_false_of_ne h, lookup_filter_ne h table]
    · simp [List.lookup_cons, hk, lookup_filter_ne h table]

theorem lookup_defineVariable (table : List (List Char × List Char))
    (name vname value : List Char) :
    (defineVariable table vname value).lookup name =
      if vname = name then some value else table.lookup name := by
  by_cases h : vname = name
  · subst h
    simp [defineVariable, List.lookup_cons]
  · simp [defineVariable, List.lookup_cons, beq_false_of_ne (Ne.symm h),
      lookup_filter_ne (Ne.symm h), h]

theorem lookup_defineLine (table : List (List Char × List Char)) (name line : List Char) :
    (defineLine table line).lookup name = (assignedValue name line).or (table.lookup name) := by
  unfold defineLine assignedValue
  split
  · rw [lookup_defineVariable]
    split <;> rfl
  · rfl

/-- After the loop a name holds the value of the last line that assigns it, or else the value it
    held before. -/
theorem lookup_foldl_defineLine (name : List Char) (lines : List (List Char)) :
    ∀ table : List (List Char × List Char), (lines.foldl defineLine table).lookup name =
      (lines.reverse.findSome? (assignedValue name)).or (table.lookup name) := by
  induction lines with
  | nil => intro table; rfl
  | cons line lines ih =>
    intro table
    rw [List.foldl_cons, ih, lookup_defineLine, List.reverse_cons, List.findSome?_append,
      Option.or_assoc, List.findSome?_cons, List.findSome?_nil]
    cases assignedValue name line <;> rfl

/-- Without `-R`, `get_default_variable` and the variables agree on a name that exactly one line
    assigns. -/
theorem getDefaultVariable_eq_of_single {lines : List (List Char)} {name : List Char}
    (h : (lines.filter fun line => (assignedValue name line).isSome).length = 1) :
    getDefaultVariable lines name = (defineDefaultVariables false lines).lookup name := by
  obtain ⟨line, hone⟩ := List.length_eq_one.mp h
  obtain ⟨pre, post, rfl, hpre, hline, hpost⟩ := List.filter_eq_cons_iff.mp hone
  have hnone : ∀ xs : List (List Char), (∀ x ∈ xs, ¬(assignedValue name x).isSome) →
      xs.findSome? (assignedValue name) = none := fun xs hxs =>
    List.findSome?_eq_none_iff.mpr fun x hx => Option.not_isSome_iff_eq_none.mp (hxs x hx)
  have hpre' : ∀ x ∈ pre.reverse, ¬(assignedValue name x).isSome := fun x hx =>
    hpre x (List.mem_reverse.mp hx)
  have hpost' : ∀ x ∈ post.reverse, ¬(assignedValue name x).isSome := fun x hx =>
    List.filter_eq_nil_iff.mp hpost x (List.mem_reverse.mp hx)
  obtain ⟨value, hv⟩ := Option.isSome_iff_exists.mp hline
  simp only [getDefaultVariable, defineDefaultVariables, if_false, Bool.false_eq_true,
    lookup_foldl_defineLine, List.reverse_append, List.reverse_cons, List.findSome?_append,
    hnone _ hpre, hnone _ hpre', hnone _ hpost', List.findSome?_cons, hv, Option.none_or,
    Option.or_some]

/-- For every configuration and every name: `get_default_variable` returns the value of the first
    line that assigns it; `define_default_variables` leaves the value of the last such line, or
    else the hard-coded value, and under `-R` it reads no line and leaves the hard-coded value.
    So the two agree, without `-R`, on a name that exactly one line assigns. -/
theorem getDefaultVariable_eq_lookup (lines : List (List Char)) (name : List Char) :
    getDefaultVariable lines name = lines.findSome? (assignedValue name) ∧
      (defineDefaultVariables false lines).lookup name =
        (lines.reverse.findSome? (assignedValue name)).or (hardCodedVariables.lookup name) ∧
      (defineDefaultVariables true lines).lookup name = hardCodedVariables.lookup name ∧
      ((lines.filter fun line => (assignedValue name line).isSome).length = 1 →
        getDefaultVariable lines name = (defineDefaultVariables false lines).lookup name) :=
  ⟨rfl, lookup_foldl_defineLine name lines _, rfl, getDefaultVariable_eq_of_single⟩

theorem getDefaultVariable_eq_lookup_single :
    (["A=1".toList].filter fun line => (assignedValue "A".toList line).isSome).length = 1 ∧
      getDefaultVariable ["A=1".toList] "A".toList =
        (defineDefaultVariables false ["A=1".toList]).lookup "A".toList :=
  ⟨by decide, (getDefaultVariable_eq_lookup _ _).2.2.2 (by decide)⟩

/-- A name that two lines assign: `get_default_variable` returns the first value, the variable
    holds the last, and under `-R` the file defines no variable. -/
theorem getDefaultVariable_first_assignment :
    getDefaultVariable (configLines "A=1\nA=2\n".toList) "A".toList = some "1".toList ∧
      (defineDefaultVariables false (configLines "A=1\nA=2\n".toList)).lookup "A".toList =
        some "2".toList ∧
      (defineDefaultVariables true (configLines "A=1\nA=2\n".toList)).lookup "A".toList =
        none := by
  have hlines : configLines "A=1\nA=2\n".toList = ["A=1".toList, "A=2".toList] := by
    rw [configLines_of_fgets
        (show fgets lineLength "A=1\nA=2\n".toList = some ("A=1\n".toList, "A=2\n".toList) by
          decide),
      configLine_of_ended (show configPass (cstr "A=1\n".toList) = ("A=1".toList, false) by decide),
      configLines_of_fgets
        (show fgets lineLength "A=2\n".toList = some ("A=2\n".toList, []) by decide),
      configLine_of_ended (show configPass (cstr "A=2\n".toList) = ("A=2".toList, false) by decide),
      configLines_nil]
    rfl
  rw [hlines]
  decide

/-- The name `undefine_default_variables` undefines for a line that does not start with a blank
    and has an `=` (lines 459-464): the bytes before the `=`, less the colons and spaces at their
    end. -/
def undefinedName (line : List Char) : Option (List Char) :=
  if isBlank (line.headD nul) then none
  else (strchr line '=').map fun i =>
    ((line.take i).reverse.dropWhile (fun c => c = ':' || c = ' ')).reverse

/-- `undefine_default_variables ()`: the names it undefines, in order. -/
def undefineDefaultVariables (lines : List (List Char)) : List (List Char) :=
  lines.filterMap undefinedName

/-- `is_variable` strips the colons and then every byte `<= ' '`, `undefine_default_variables`
    colons and spaces in any order: a tab before the `=`, or a space before a colon, leaves a
    name that was never defined. -/
theorem undefineDefaultVariables_other_name :
    (isVariable "A\t=x".toList 128).map Prod.fst = some "A".toList ∧
      undefineDefaultVariables ["A\t=x".toList] = ["A\t".toList] ∧
      (isVariable "A: =x".toList 128).map Prod.fst = some "A:".toList ∧
      undefineDefaultVariables ["A: =x".toList] = ["A".toList] := by
  decide

/-! ## The rules -/

/-- The target of the suffix rule `install_default_suffix_rules` takes from a line (lines
    375-381): a line that starts with `.` and whose first `:` is its last byte, less the `:` and
    then the bytes `<= ' '` at its end. -/
def suffixRuleTarget (line : List Char) : Option (List Char) :=
  if line.head? = some '.' then
    match strchr line ':' with
    | some i => if i + 1 = line.length then some (striptrailing (line.take i)) else none
    | none => none
  else none

/-- The pattern rule `install_default_implicit_rules` takes from a line (lines 405-423): for a
    line that does not start with a blank, with a `%` and after it a `:` that no `=` follows, the
    target (the line up to that `:`, or to a second `:` right after it, which makes the rule
    terminal, less the bytes `<= ' '` at its end), the prerequisites after it from their first
    byte above `' '`, and whether the rule is terminal. The target must fit the 128 bytes of
    `target` (line 418). -/
def patternRule (line : List Char) : Except Fault (Option (List Char × List Char × Bool)) :=
  if isBlank (line.headD nul) then pure none
  else
    match strchr line '%' with
    | none => pure none
    | some pct =>
      match strchr (line.drop pct) ':' with
      | none => pure none
      | some k =>
        if line.get? (pct + k + 1) = some '=' then pure none
        else do
          let clm := pct + k + 1
          let (clm, terminal) := if line.get? clm = some ':' then (clm + 1, true) else (clm, false)
          assert (decide (clm < 128)) 418
          pure (some (striptrailing (line.take clm), skipleading (line.drop clm), terminal))

/-- The loaders test their lines independently: a variable whose value holds a `%` and then a
    `:`, as a time format does, is also a pattern rule, and one whose value ends in its first `:`
    after a name starting with `.` is also a suffix rule. -/
theorem isVariable_taken_as_rule :
    isVariable "T=%H:%M".toList 128 = some ("T".toList, "%H:%M".toList) ∧
      patternRule "T=%H:%M".toList = .ok (some ("T=%H:".toList, "%M".toList, false)) ∧
      isVariable ".x=y:".toList 128 = some (".x".toList, "y:".toList) ∧
      suffixRuleTarget ".x=y:".toList = some ".x=y".toList := by
  decide

end MakePlus
