import MakePlus.Commands.Segments
import MakePlus.Commands.Variables

/-!
# Starting the commands of a target

`execute_file_commands (file)` first reads the text of the recipe. When the text is nothing but
whitespace and the characters `-`, `@` and `+`, the file counts as remade at once (`cs_running`,
`us_success`, `notice_finished_file`), and neither the automatic variables nor a job is set up.
Otherwise it sets the automatic variables (`set_file_variables`), unloads a loaded object, and
starts the job.

The check reads the whole text, while the command lines are those `chop_commands` cuts from it
(`segments`, by `chopLines_segments`), each starting with its flags. The two views agree up to
three characters: `ISSPACE` accepts the vertical tab, the form feed and the carriage return, which
are neither blanks nor flags of a command line.

* `all_segments`: a property of characters that the newline has holds of the whole text exactly
  when it holds of every logical line;
* `executeFileCommands_finished_iff`: the recipe counts as empty exactly when each of its command
  lines is made of flag characters (blanks, `-`, `@`, `+`) and of those three characters. A line
  that holds only flags and a carriage return is thus not run, while the same line among real
  commands is.
-/

namespace MakePlus

/-! ## The model -/

/-- Modelled from the spec: `ISSPACE (c)` of makeint.h (not in src/), the stop-character class
    `MAP_SPACE`, that is the blanks and the other characters `isspace` accepts in the C locale
    (the newline, vertical tab, form feed and carriage return, each marked `MAP_NEWLINE`). -/
def isSpace (c : Char) : Bool := isBlank c || c == '\n' || c == '\x0b' || c == '\x0c' || c == '\r'

/-- The condition under which the loop of lines 502-504 goes on: a space, `-`, `@` or `+`. -/
def isRecipeSpace (c : Char) : Bool := isSpace c || c == '-' || c == '@' || c == '+'

/-- Lines 502-505: the loop over `cmds->commands` reaches the terminating NUL, every character
    before it a space, `-`, `@` or `+`. -/
def nothingButWhitespace (commands : List Char) : Bool := (cstr commands).all isRecipeSpace

/-- The members of `struct file` that `execute_file_commands` reads and writes, with the text
    `cmds->commands` of its recipe. -/
structure RecipeFile where
  name : List Char
  commands : List Char
  /-- `none` for a null pointer. -/
  stem : Option (List Char)
  deps : List Dep
  /-- `file->cmds == default_file->cmds`: the recipe is that of `.DEFAULT`. -/
  fromDefault : Bool
  loaded : Bool
  unloaded : Bool
  deriving DecidableEq, Repr

/-- What `execute_file_commands` leaves behind. -/
inductive Executed
  /-- Lines 505-511: `cs_running`, `us_success` and `notice_finished_file`, nothing set up. -/
  | finished
  /-- Lines 515-532: what `set_file_variables` gives, the flags `loaded` and `unloaded` after the
      attempt to unload, and `new_job (file)`. -/
  | started (vars : TargetVars × List Char × PrereqLists × List Dep × Statics)
      (loaded unloaded : Bool)
  deriving DecidableEq, Repr

/-- `execute_file_commands (file)`, with `unload_file` of load.c given as `unloadFile` (0 for
    success), the names of the prerequisites of `.SUFFIXES` and the static buffers of
    `set_file_variables`; `initialize_file_variables` of variable.c changes nothing modelled
    here. -/
def executeFileCommands (junk : Nat → Char) (alwaysMakeFlag : Bool) (unloadFile : List Char → Int)
    (suffixes : List (List Char)) (file : RecipeFile) (s : Statics) : Except Fault Executed := do
  if nothingButWhitespace file.commands then pure .finished
  else
    let r ← setFileVariables junk alwaysMakeFlag file.name file.stem suffixes file.deps
      file.fromDefault s
    if file.loaded && unloadFile file.name == 0 then pure (.started r false true)
    else pure (.started r file.loaded file.unloaded)

/-! ## The check against the command lines -/

theorem isRecipeSpace_iff (c : Char) :
    isRecipeSpace c = true ↔ c = '\n' ∨ isFlagChar c = true ∨ c ∈ ['\x0b', '\x0c', '\r'] := by
  simp only [isRecipeSpace, isSpace, isFlagChar, isBlank, Bool.or_eq_true, beq_iff_eq,
    List.mem_cons, List.mem_singleton, List.not_mem_nil, or_false, or_assoc]
  simp only [or_assoc, or_comm, or_left_comm]

theorem all_intercalate {P : Char → Bool} {sep : List Char} (hsep : sep.all P = true) :
    ∀ ls : List (List Char), (sep.intercalate ls).all P = ls.all fun l => l.all P
  | [] => rfl
  | [l] => by simp
  | l :: l' :: ls => by
    rw [intercalate_cons_cons, List.all_append, List.all_append, all_intercalate hsep (l' :: ls),
      hsep, List.all_cons]
    simp

theorem all_segments (P : Char → Bool) (hP : P '\n' = true) (s : List Char) :
    s.all P = (segments s).all fun l => l.all P := by
  conv_lhs => rw [← intercalate_segments s]
  rw [List.all_append, all_intercalate (by simp [hP])]
  split <;> simp [hP]

/-- A newline that does not end a logical line has a backslash before it. -/
theorem backslash_mem_of_endsLine {pre : List Char} (h : endsLine pre = false) : '\\' ∈ pre := by
  rw [← List.mem_reverse]
  unfold endsLine trailingBackslashes at h
  cases hr : pre.reverse with
  | nil => simp [hr] at h
  | cons c r =>
    rw [hr, List.takeWhile_cons] at h
    by_cases hc : c = '\\'
    · simp [hc]
    · simp [hc] at h

theorem newline_not_mem_of_noLineEnd {l : List Char} (hl : NoLineEnd l) (hb : '\\' ∉ l) :
    '\n' ∉ l := fun hn => by
  obtain ⟨i, hi⟩ := List.mem_iff_getElem?.1 hn
  exact hb ((List.take_sublist _ _).subset (backslash_mem_of_endsLine (hl i hi)))

theorem executeFileCommands_eq_finished_iff (junk : Nat → Char) (alwaysMakeFlag : Bool)
    (unloadFile : List Char → Int) (suffixes : List (List Char)) (file : RecipeFile)
    (s : Statics) :
    executeFileCommands junk alwaysMakeFlag unloadFile suffixes file s = .ok .finished ↔
      nothingButWhitespace file.commands = true := by
  unfold executeFileCommands
  cases hw : nothingButWhitespace file.commands
  · simp only [Bool.false_eq_true, if_false, iff_false]
    cases setFileVariables junk alwaysMakeFlag file.name file.stem suffixes file.deps
      file.fromDefault s with
    | error e => nofun
    | ok r => simp only [bind, Except.bind]; split <;> nofun
  · simp

theorem executeFileCommands_finished_iff (junk : Nat → Char) (alwaysMakeFlag : Bool)
    (unloadFile : List Char → Int) (suffixes : List (List Char)) (file : RecipeFile)
    (s : Statics) :
    executeFileCommands junk alwaysMakeFlag unloadFile suffixes file s = .ok .finished ↔
      ∀ line ∈ segments (cstr file.commands), ∀ c ∈ line,
        isFlagChar c = true ∨ c ∈ ['\x0b', '\x0c', '\r'] := by
  rw [executeFileCommands_eq_finished_iff, nothingButWhitespace,
    all_segments isRecipeSpace rfl, List.all_eq_true]
  refine forall₂_congr fun line hline => ?_
  simp only [List.all_eq_true]
  constructor
  · intro h c hc
    have hnl : '\n' ∉ line := newline_not_mem_of_noLineEnd (segments_noLineEnd _ line hline)
      fun hb => absurd (h _ hb) (by decide)
    have hc' : c ≠ '\n' := fun e => hnl (e ▸ hc)
    simpa [hc'] using (isRecipeSpace_iff c).1 (h c hc)
  · exact fun h c hc => (isRecipeSpace_iff c).2 (Or.inr (h c hc))

/-- A carriage return after a `@`: the recipe counts as empty, though its one command line is
    the carriage return after its flag. -/
example : nothingButWhitespace "@\r\n".toList = true ∧
    segments (cstr "@\r\n".toList) = ["@\r".toList] ∧
    (prefixFlags "@\r".toList ⟨false, false, false⟩).2 = ['\r'] := by
  decide

end MakePlus
