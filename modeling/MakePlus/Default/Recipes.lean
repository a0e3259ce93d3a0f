import MakePlus.Default
import MakePlus.Commands.Segments

/-!
# The recipes of the configuration file

A rule of the configuration file is followed by its recipe: the lines right after it that start
with a blank. `collect_commandlines` (default.c) joins them into the text of the recipe, in a
buffer that a first pass over the same lines sizes; `install_default_suffix_rules` gives that
recipe to the file of each suffix rule, whose line it cuts back to the target, and
`install_default_implicit_rules` to each pattern rule. `chop_commands` later cuts the text into
the command lines of the recipe again.

* `collectCommandlines_eq`: the second pass stays inside the buffer the first one sized, and the
  recipe is the command lines from their first byte above `' '`, joined by newlines, less the
  empty ones before the first that is not (a newline goes in only after some text);
* `installDefaultSuffixRules_spec`: for every configuration file, the assert of line 380 fails
  exactly when two suffix rules name one target, or one names a file with a recipe already;
  otherwise each target gets the recipe of its rule, and the line of each rule is left as its
  target;
* `installDefaultImplicitRules_spec`: every pattern rule gets the recipe of its lines, and its
  target keeps the `:` that closes it (`%.o: %.c` gives the target `%.o:`), since `clm` is moved
  past the colon before the target is copied and `striptrailing` strips only bytes `<= ' '`;
* `chopCommands_commandsText`: `chop_commands` cuts a recipe of the configuration file back into
  its command lines exactly when no line but the last ends in an odd run of backslashes and the
  last is not empty.
-/

namespace MakePlus

/-! ## `collect_commandlines` -/

/-- The command lines of the rule before `lines`: the lines up to the first that does not start
    with a blank, the condition of both loops of `collect_commandlines`. -/
def commandLines (lines : List (List Char)) : List (List Char) :=
  lines.takeWhile fun line => isBlank (line.headD nul)

/-- The first loop of `collect_commandlines`: for each command line, its bytes after the leading
    ones `<= ' '`, and one more. -/
def commandsLength : List (List Char) → Nat
  | [] => 0
  | line :: lines => (skipleading line).length + 1 + commandsLength lines

/-- The second loop of `collect_commandlines` on the buffer `cmdlist`: a newline appended when
    the string is not empty, then the command line from its first byte above `' '`. -/
def collectLoop (cmdlist : List Char) : List (List Char) → Except Fault (List Char)
  | [] => pure cmdlist
  | line :: lines => do
    let c ← load cmdlist 0
    let cmdlist ← if c != nul then strcat cmdlist ['\n'] else pure cmdlist
    let cmdlist ← strcat cmdlist (skipleading line)
    collectLoop cmdlist lines

/-- `collect_commandlines (base)`, with `base` the lines after the rule: the text of the recipe,
    built in the `length + 1` bytes `xmalloc` gives. -/
def collectCommandlines (junk : Nat → Char) (base : List (List Char)) :
    Except Fault (List Char) := do
  let cmdlist ← store (alloc (commandsLength (commandLines base) + 1) junk) 0 nul
  let cmdlist ← collectLoop cmdlist (commandLines base)
  pure (cstr cmdlist)

/-- The text a loop of default.c builds from `acc` when it appends the strings `ss`: each goes
    after the separator `sep`, unless the text is still empty. -/
def joinLines (sep : Char) (acc : List Char) : List (List Char) → List Char
  | [] => acc
  | s :: ss => joinLines sep (if acc.isEmpty then s else acc ++ sep :: s) ss

/-- The lines of the recipe of the rule before `lines`: its command lines from their first byte
    above `' '`, less the empty ones before the first that is not. -/
def recipeLines (lines : List (List Char)) : List (List Char) :=
  ((commandLines lines).map skipleading).dropWhile (·.isEmpty)

/-- The recipe of the rule before `lines`: the lines of its recipe joined by newlines. -/
def commandsText (lines : List (List Char)) : List Char :=
  ['\n'].intercalate (recipeLines lines)

theorem joinLines_of_ne_nil (sep : Char) {acc : List Char} (h : acc ≠ [])
    (ss : List (List Char)) :
    joinLines sep acc ss = acc ++ ss.flatMap (sep :: ·) := by
  induction ss generalizing acc with
  | nil => simp [joinLines]
  | cons s ss ih =>
    rw [joinLines, if_neg (by simpa using h), ih (by simp)]
    simp

theorem intercalate_cons_eq {α : Type} (sep x : List α) (xs : List (List α)) :
    sep.intercalate (x :: xs) = x ++ xs.flatMap (sep ++ ·) := by
  induction xs generalizing x with
  | nil => simp
  | cons y xs ih => rw [intercalate_cons_cons, ih]; simp

/-- Once some text is written, every string goes after the separator: the text is the strings
    joined by it, less the empty ones before the first that is not. -/
theorem joinLines_nil (sep : Char) (ss : List (List Char)) :
    joinLines sep [] ss = [sep].intercalate (ss.dropWhile (·.isEmpty)) := by
  induction ss with
  | nil => rfl
  | cons s ss ih =>
    rw [joinLines, if_pos List.isEmpty_nil]
    by_cases hs : s = []
    · subst hs
      rw [ih, List.dropWhile_cons_of_pos rfl]
    · rw [joinLines_of_ne_nil sep hs, List.dropWhile_cons_of_neg (by simpa using hs),
        intercalate_cons_eq]
      rfl

theorem nul_not_mem_joinLines {sep : Char} (hsep : sep ≠ nul) {acc : List Char}
    (hacc : nul ∉ acc)
    {ss : List (List Char)} (hss : ∀ s ∈ ss, nul ∉ s) : nul ∉ joinLines sep acc ss := by
  induction ss generalizing acc with
  | nil => exact hacc
  | cons s ss ih =>
    simp only [List.mem_cons, forall_eq_or_imp] at hss
    refine ih ?_ hss.2
    split
    · exact hss.1
    · simp only [List.mem_append, List.mem_cons, not_or]
      exact ⟨hacc, Ne.symm hsep, hss.1⟩

theorem nul_not_mem_skipleading {line : List Char} (h : nul ∉ line) : nul ∉ skipleading line :=
  fun hm => h ((List.dropWhile_suffix _).subset hm)

/-- The second loop on a buffer holding the C string `acc`, with room after its NUL for what the
    first loop counted, writes the text `joinLines` builds. -/
theorem collectLoop_eq :
    ∀ (ls : List (List Char)) (acc r : List Char), (∀ l ∈ ls, nul ∉ l) → nul ∉ acc →
      commandsLength ls ≤ r.length →
      ∃ r', collectLoop (acc ++ nul :: r) ls =
        .ok (joinLines '\n' acc (ls.map skipleading) ++ nul :: r')
  | [], acc, r, _, _, _ => ⟨r, rfl⟩
  | l :: ls, acc, r, hls, hacc, hr => by
    simp only [List.mem_cons, forall_eq_or_imp] at hls
    have hs := nul_not_mem_skipleading hls.1
    simp only [commandsLength] at hr
    cases acc with
    | nil =>
      -- nothing written yet: no newline
      obtain ⟨r', h⟩ := collectLoop_eq ls (skipleading l) (r.drop (skipleading l).length) hls.2
        hs (by simp only [List.length_drop]; omega)
      refine ⟨r', ?_⟩
      have hcat := strcat_append (w := []) (r := r) (s := skipleading l) (by simp) (by omega)
      simp only [List.nil_append] at hcat
      simp only [collectLoop, List.nil_append, load, List.get?_cons_zero, ok_bind,
        bne_self_eq_false, Bool.false_eq_true, if_false, pure_eq_ok, hcat, h, List.map_cons]
      rfl
    | cons a acc =>
      -- after some text: a newline, then the line
      have ha : a ≠ nul := fun h => hacc (h ▸ List.mem_cons_self a acc)
      have hacc' : nul ∉ a :: acc ++ ['\n'] := by
        simp only [List.mem_append, List.mem_singleton, not_or]
        exact ⟨hacc, by decide⟩
      have hnl := strcat_append (w := a :: acc) (r := r) (s := ['\n']) hacc
        (by simp only [List.length_singleton]; omega)
      have hline := strcat_append (w := a :: acc ++ ['\n']) (r := r.drop 1) (s := skipleading l)
        hacc' (by simp only [List.length_drop]; omega)
      obtain ⟨r', h⟩ := collectLoop_eq ls (a :: acc ++ ['\n'] ++ skipleading l)
        ((r.drop 1).drop (skipleading l).length) hls.2
        (fun hm => (List.mem_append.1 hm).elim hacc' hs)
        (by simp only [List.length_drop]; omega)
      refine ⟨r', ?_⟩
      have hload : load (a :: acc ++ nul :: r) 0 = .ok a := rfl
      simp only [List.length_singleton, List.append_assoc, List.singleton_append] at hnl hline h
      rw [collectLoop, hload, ok_bind, if_pos (by simpa using ha), hnl, ok_bind]
      dsimp only
      rw [hline, ok_bind, h, List.map_cons, joinLines, if_neg (by simp)]

/-- `collect_commandlines` stays inside the buffer its first loop sizes, and returns the command
    lines from their first byte above `' '`, joined by newlines, less the empty ones before the
    first that is not. -/
theorem collectCommandlines_eq (junk : Nat → Char) (base : List (List Char))
    (hnul : ∀ l ∈ commandLines base, nul ∉ l) :
    collectCommandlines junk base = .ok (commandsText base) := by
  obtain ⟨x, r, halloc⟩ :
      ∃ x r, alloc (commandsLength (commandLines base) + 1) junk = x :: r :=
    List.exists_cons_of_length_pos (by simp)
  have hr : r.length = commandsLength (commandLines base) := by
    simpa [halloc] using length_alloc (commandsLength (commandLines base) + 1) junk
  obtain ⟨r', h⟩ := collectLoop_eq (commandLines base) [] r hnul (by simp) hr.ge
  have hst := store_append (w := []) (x := x) (r := r) (c := nul)
  simp only [List.nil_append, List.length_nil] at hst h
  rw [collectCommandlines, halloc, hst, ok_bind, h, ok_bind, pure_eq_ok,
    cstr_append_nul (nul_not_mem_joinLines (by decide) (by simp) fun s hs => by
      obtain ⟨l, hl, rfl⟩ := List.mem_map.1 hs
      exact nul_not_mem_skipleading (hnul l hl)),
    joinLines_nil]
  rfl

/-- The empty command line before the first one is dropped, the one after it kept, and the recipe
    stops at the next rule. -/
example : commandsText ["\t".toList, "\tcc -c $<".toList, "\t".toList, "\t  echo".toList,
    ".x:".toList, "\tno".toList] = "cc -c $<\n\necho".toList := by
  decide

/-! ## `install_default_suffix_rules` -/

/-- `enter_file (name)` (file.c, not in src/) on the data base of files, each with its recipe, or
    `none` while its `cmds` is a null pointer: the file of `name`, entered without a recipe when
    there is none. -/
def enterFile (files : List (List Char × Option (List Char))) (name : List Char) :
    List (List Char × Option (List Char)) :=
  if (files.lookup name).isSome then files else files ++ [(name, none)]

/-- The recipe of the file `name`: `none` while there is no such file or it has no recipe. -/
def recipeOf (files : List (List Char × Option (List Char))) (name : List Char) :
    Option (List Char) :=
  (files.lookup name).join

/-- `f->cmds = xmalloc (...); f->cmds->commands = recipe`: the file `name` gets its recipe. -/
def setRecipe (files : List (List Char × Option (List Char))) (name recipe : List Char) :
    List (List Char × Option (List Char)) :=
  files.map fun f => if f.1 = name then (name, some recipe) else f

/-- The loop of lines 375-389 over the lines of the configuration and the files: a line that
    starts with `.` and ends with its first `:` is cut back to its target, and the file of the
    target, which must have no recipe yet (line 380), gets the recipe of the lines after it. -/
def suffixRulesLoop (junk : Nat → Char) :
    List (List Char) → List (List Char × Option (List Char)) →
      Except Fault (List (List Char) × List (List Char × Option (List Char)))
  | [], files => pure ([], files)
  | line :: rest, files =>
    match suffixRuleTarget line with
    | none => do
      let (rest, files) ← suffixRulesLoop junk rest files
      pure (line :: rest, files)
    | some target => do
      let files := enterFile files target
      assert (recipeOf files target).isNone 380
      let commands ← collectCommandlines junk rest
      let (rest, files) ← suffixRulesLoop junk rest (setRecipe files target commands)
      pure (target :: rest, files)

/-- `install_default_suffix_rules ()` on the lines of the configuration (`textroot`) and the
    files: nothing under `-r` (`no_builtin_rules_flag`). -/
def installDefaultSuffixRules (junk : Nat → Char) (noBuiltinRulesFlag : Bool)
    (lines : List (List Char)) (files : List (List Char × Option (List Char))) :
    Except Fault (List (List Char) × List (List Char × Option (List Char))) :=
  if noBuiltinRulesFlag then pure (lines, files) else suffixRulesLoop junk lines files

/-- The targets of the suffix rules of the lines, in order. -/
def suffixTargets (lines : List (List Char)) : List (List Char) :=
  lines.filterMap suffixRuleTarget

/-- The suffix rules of the lines, each target with the recipe of the lines after it. -/
def suffixRules : List (List Char) → List (List Char × List Char)
  | [] => []
  | line :: rest =>
    match suffixRuleTarget line with
    | some target => (target, commandsText rest) :: suffixRules rest
    | none => suffixRules rest

theorem recipeOf_enterFile (files : List (List Char × Option (List Char))) (t n : List Char) :
    recipeOf (enterFile files t) n = recipeOf files n := by
  unfold enterFile recipeOf
  split
  · rfl
  · have hnew : (([(t, none)] : List (List Char × Option (List Char))).lookup n).join = none := by
      simp only [List.lookup_cons, List.lookup_nil]
      split <;> rfl
    rw [List.lookup_append]
    cases files.lookup n
    · exact hnew
    · rfl

theorem lookup_setRecipe (t c n : List Char) :
    ∀ files : List (List Char × Option (List Char)), (setRecipe files t c).lookup n =
      if n = t then (files.lookup t).map fun _ => some c else files.lookup n
  | [] => by simp [setRecipe]
  | (k, v) :: files => by
    have ih := lookup_setRecipe t c n files
    unfold setRecipe at ih ⊢
    by_cases hk : k = t
    · subst hk
      by_cases hn : n = k
      · subst hn; simp [List.lookup_cons]
      · simp [List.lookup_cons, beq_false_of_ne hn, hn, ih]
    · by_cases hn : n = t
      · subst hn
        simp [List.lookup_cons, beq_false_of_ne (Ne.symm hk), hk, ih]
      · by_cases hnk : n = k
        · subst hnk; simp [List.lookup_cons, hn, hk]
        · simp [List.lookup_cons, beq_false_of_ne hnk, hn, hk, ih]

/-- After a file is entered and given a recipe, that is its recipe; the others keep theirs. -/
theorem recipeOf_setRecipe_enterFile (files : List (List Char × Option (List Char)))
    (t c n : List Char) :
    recipeOf (setRecipe (enterFile files t) t c) n =
      if n = t then some c else recipeOf files n := by
  rw [recipeOf, lookup_setRecipe]
  split
  · rename_i h
    subst h
    have : ((enterFile files n).lookup n).isSome := by
      unfold enterFile
      split
      · assumption
      · rw [List.lookup_append]
        cases files.lookup n <;> simp [List.lookup_cons]
    obtain ⟨x, hx⟩ := Option.isSome_iff_exists.1 this
    simp [hx]
  · rw [← recipeOf, recipeOf_enterFile]

theorem map_fst_suffixRules (lines : List (List Char)) :
    (suffixRules lines).map Prod.fst = suffixTargets lines := by
  induction lines with
  | nil => rfl
  | cons line rest ih =>
    rw [suffixTargets] at ih
    cases ht : suffixRuleTarget line <;> simp [suffixRules, suffixTargets, ht, ih]

theorem lookup_suffixRules_of_not_mem {t : List Char} {lines : List (List Char)}
    (h : t ∉ suffixTargets lines) : (suffixRules lines).lookup t = none := by
  rw [← map_fst_suffixRules] at h
  generalize suffixRules lines = rs at h ⊢
  induction rs with
  | nil => rfl
  | cons r rs ih =>
    simp only [List.map_cons, List.mem_cons, not_or] at h
    rw [List.lookup_cons, beq_false_of_ne h.1]
    exact ih h.2

/-- The loop runs through when the targets are distinct and new: it cuts each rule to its
    target, and gives each target the recipe of its rule. -/
theorem suffixRulesLoop_ok (junk : Nat → Char) :
    ∀ (lines : List (List Char)) (files : List (List Char × Option (List Char))),
      (∀ l ∈ lines, nul ∉ l) → (suffixTargets lines).Nodup →
      (∀ t ∈ suffixTargets lines, recipeOf files t = none) →
      ∃ files', suffixRulesLoop junk lines files =
          .ok (lines.map fun line => (suffixRuleTarget line).getD line, files') ∧
        ∀ n, recipeOf files' n = ((suffixRules lines).lookup n).or (recipeOf files n)
  | [], files, _, _, _ => ⟨files, rfl, fun _ => rfl⟩
  | line :: rest, files, hnul, hnd, hfresh => by
    simp only [List.mem_cons, forall_eq_or_imp] at hnul
    cases ht : suffixRuleTarget line with
    | none =>
      -- not a suffix rule: the line stays
      have hT : suffixTargets (line :: rest) = suffixTargets rest := by
        simp [suffixTargets, ht]
      rw [hT] at hnd hfresh
      obtain ⟨files', h, hr⟩ := suffixRulesLoop_ok junk rest files hnul.2 hnd hfresh
      exact ⟨files', by simp [suffixRulesLoop, ht, h], by simpa [suffixRules, ht] using hr⟩
    | some t =>
      -- a suffix rule: its target is new, and gets the recipe of the lines after it
      have hT : suffixTargets (line :: rest) = t :: suffixTargets rest := by
        simp [suffixTargets, ht]
      rw [hT, List.nodup_cons] at hnd
      rw [hT] at hfresh
      simp only [List.mem_cons, forall_eq_or_imp] at hfresh
      have hcmd := collectCommandlines_eq junk rest fun l hl =>
        hnul.2 l ((List.takeWhile_prefix _).subset hl)
      obtain ⟨files', h, hr⟩ := suffixRulesLoop_ok junk rest
        (setRecipe (enterFile files t) t (commandsText rest)) hnul.2 hnd.2 fun t' ht' => by
          rw [recipeOf_setRecipe_enterFile, if_neg fun (h : t' = t) => hnd.1 (h ▸ ht')]
          exact hfresh.2 t' ht'
      refine ⟨files', by simp [suffixRulesLoop, ht, recipeOf_enterFile, hfresh.1, hcmd, h],
        fun n => ?_⟩
      rw [hr, recipeOf_setRecipe_enterFile]
      simp only [suffixRules, ht, List.lookup_cons]
      by_cases hn : n = t
      · subst hn
        simp [lookup_suffixRules_of_not_mem hnd.1]
      · simp [beq_false_of_ne hn, hn]

/-- The loop stops at the assert of line 380 when two targets are the same, or one has a recipe
    already. -/
theorem suffixRulesLoop_error (junk : Nat → Char) :
    ∀ (lines : List (List Char)) (files : List (List Char × Option (List Char))),
      (∀ l ∈ lines, nul ∉ l) →
      ¬ ((suffixTargets lines).Nodup ∧
          ∀ t ∈ suffixTargets lines, recipeOf files t = none) →
      suffixRulesLoop junk lines files = .error (.assertion 380)
  | [], _, _, hbad => absurd ⟨List.nodup_nil, fun t ht => by simp [suffixTargets] at ht⟩ hbad
  | line :: rest, files, hnul, hbad => by
    simp only [List.mem_cons, forall_eq_or_imp] at hnul
    cases ht : suffixRuleTarget line with
    | none =>
      have hT : suffixTargets (line :: rest) = suffixTargets rest := by
        simp [suffixTargets, ht]
      rw [hT] at hbad
      simp [suffixRulesLoop, ht, suffixRulesLoop_error junk rest files hnul.2 hbad]
    | some t =>
      have hT : suffixTargets (line :: rest) = t :: suffixTargets rest := by
        simp [suffixTargets, ht]
      rw [hT] at hbad
      cases hfresh : recipeOf files t with
      | some c =>
        -- the file of this rule has a recipe: the assert fails here
        simp [suffixRulesLoop, ht, recipeOf_enterFile, hfresh]
      | none =>
        -- the assert fails at a later rule
        have hcmd := collectCommandlines_eq junk rest fun l hl =>
          hnul.2 l ((List.takeWhile_prefix _).subset hl)
        have hbad' : ¬ ((suffixTargets rest).Nodup ∧ ∀ t' ∈ suffixTargets rest,
            recipeOf (setRecipe (enterFile files t) t (commandsText rest)) t' = none) := by
          rintro ⟨hnd, hf⟩
          have htn : t ∉ suffixTargets rest := fun hm => by
            have := hf t hm
            rw [recipeOf_setRecipe_enterFile, if_pos rfl] at this
            cases this
          refine hbad ⟨List.nodup_cons.2 ⟨htn, hnd⟩, ?_⟩
          simp only [List.mem_cons, forall_eq_or_imp]
          refine ⟨hfresh, fun t' ht' => ?_⟩
          have := hf t' ht'
          rwa [recipeOf_setRecipe_enterFile, if_neg fun (h : t' = t) => htn (h ▸ ht')] at this
        simp [suffixRulesLoop, ht, recipeOf_enterFile, hfresh, hcmd,
          suffixRulesLoop_error junk rest _ hnul.2 hbad']

/-- For every configuration file and every data base of files, `install_default_suffix_rules`
    either runs through, when the targets of the suffix rules are distinct and none has a recipe
    yet, cutting each rule to its target and giving each target the recipe of its rule; or else
    stops at the assert of line 380. -/
theorem installDefaultSuffixRules_spec (junk : Nat → Char) (file : List Char)
    (files : List (List Char × Option (List Char))) :
    ((suffixTargets (configLines file)).Nodup ∧
        ∀ t ∈ suffixTargets (configLines file), recipeOf files t = none) ∧
      (∃ files', installDefaultSuffixRules junk false (configLines file) files =
          .ok ((configLines file).map fun line => (suffixRuleTarget line).getD line, files') ∧
        ∀ name, recipeOf files' name =
          ((suffixRules (configLines file)).lookup name).or (recipeOf files name)) ∨
    ¬ ((suffixTargets (configLines file)).Nodup ∧
        ∀ t ∈ suffixTargets (configLines file), recipeOf files t = none) ∧
      installDefaultSuffixRules junk false (configLines file) files = .error (.assertion 380) := by
  have hnul := fun l hl => (configLineOk_of_mem_configLines file l hl).nul_not_mem
  by_cases h : (suffixTargets (configLines file)).Nodup ∧
      ∀ t ∈ suffixTargets (configLines file), recipeOf files t = none
  · exact .inl ⟨h, suffixRulesLoop_ok junk _ files hnul h.1 h.2⟩
  · exact .inr ⟨h, suffixRulesLoop_error junk _ files hnul h⟩

/-! ## `install_default_implicit_rules` -/

/-- What `install_default_implicit_rules` passes to `install_pattern_rule` (rule.c, not in src/)
    for a rule: the members of `struct pspec`, and `terminal`. -/
structure PatternRuleSpec where
  target : List Char
  dep : List Char
  commands : List Char
  terminal : Bool
  deriving DecidableEq, Repr

/-- The loop of lines 405-426: the rule of each line `patternRule` takes, with the recipe of the
    lines after it, in order. -/
def implicitRulesLoop (junk : Nat → Char) :
    List (List Char) → Except Fault (List PatternRuleSpec)
  | [] => pure []
  | line :: rest => do
    match ← patternRule line with
    | none => implicitRulesLoop junk rest
    | some (target, dep, terminal) =>
      let commands ← collectCommandlines junk rest
      let rules ← implicitRulesLoop junk rest
      pure (⟨target, dep, commands, terminal⟩ :: rules)

/-- `install_default_implicit_rules ()` on the lines of the configuration: the rules it installs,
    none under `-r` (`no_builtin_rules_flag`). -/
def installDefaultImplicitRules (junk : Nat → Char) (noBuiltinRulesFlag : Bool)
    (lines : List (List Char)) : Except Fault (List PatternRuleSpec) :=
  if noBuiltinRulesFlag then pure [] else implicitRulesLoop junk lines

/-- The pattern rules of the lines, each with the recipe of the lines after it. -/
def patternRules : List (List Char) → Except Fault (List PatternRuleSpec)
  | [] => pure []
  | line :: rest => do
    match ← patternRule line with
    | none => patternRules rest
    | some (target, dep, terminal) =>
      let rules ← patternRules rest
      pure (⟨target, dep, commandsText rest, terminal⟩ :: rules)

/-- The buffers of `collect_commandlines` never fail `install_default_implicit_rules`: it
    installs the pattern rules of the lines with their recipes, or fails where a target does not
    fit its 128 bytes. -/
theorem implicitRulesLoop_eq (junk : Nat → Char) :
    ∀ lines : List (List Char), (∀ l ∈ lines, nul ∉ l) →
      implicitRulesLoop junk lines = patternRules lines
  | [], _ => rfl
  | line :: rest, hnul => by
    simp only [List.mem_cons, forall_eq_or_imp] at hnul
    have ih := implicitRulesLoop_eq junk rest hnul.2
    have hcmd := collectCommandlines_eq junk rest fun l hl =>
      hnul.2 l ((List.takeWhile_prefix _).subset hl)
    simp only [implicitRulesLoop, patternRules, ih, hcmd, ok_bind]

theorem mem_patternRules : ∀ {lines : List (List Char)} {rules : List PatternRuleSpec},
    patternRules lines = .ok rules → ∀ r ∈ rules, ∃ line ∈ lines,
      patternRule line = .ok (some (r.target, r.dep, r.terminal))
  | line :: rest, rules, h, r, hr => by
    rw [patternRules] at h
    rcases hp : patternRule line with e | _ | ⟨target, dep, terminal⟩
    · rw [hp, error_bind] at h; cases h
    · rw [hp, ok_bind] at h
      obtain ⟨l, hl, h'⟩ := mem_patternRules h r hr
      exact ⟨l, List.mem_cons_of_mem _ hl, h'⟩
    · rw [hp, ok_bind] at h
      obtain ⟨rules', h', h''⟩ := bind_eq_ok.1 h
      rw [pure_eq_ok] at h''
      cases h''
      rcases List.mem_cons.1 hr with rfl | hr
      · exact ⟨line, List.mem_cons_self _ _, hp⟩
      · obtain ⟨l, hl, h''⟩ := mem_patternRules h' r hr
        exact ⟨l, List.mem_cons_of_mem _ hl, h''⟩

/-- `striptrailing` keeps a line whose last byte is above `' '`. -/
theorem striptrailing_of_getLast? {line : List Char} {c : Char} (h : line.getLast? = some c)
    (hc : leSpace c = false) : striptrailing line = line := by
  rw [← List.head?_reverse] at h
  obtain ⟨t, ht⟩ : ∃ t, line.reverse = c :: t := by
    cases hr : line.reverse with
    | nil => rw [hr] at h; cases h
    | cons d t => rw [hr] at h; cases h; exact ⟨t, rfl⟩
  rw [striptrailing, ht, List.dropWhile_cons_of_neg (by simp [hc]), ← ht, List.reverse_reverse]

theorem take_succ_of_colon {s : List Char} {m : Nat} (h : s[m]? = some ':') :
    striptrailing (s.take (m + 1)) = s.take (m + 1) ∧
      (s.take (m + 1)).getLast? = some ':' := by
  have hl : (s.take (m + 1)).getLast? = some ':' := by simp [List.take_succ, h]
  exact ⟨striptrailing_of_getLast? hl rfl, hl⟩

/-- The target `install_default_implicit_rules` passes to `install_pattern_rule` is its line `s`
    up to the `:` after the `%`, that `:` included (both, for a terminal rule): `striptrailing`
    finds nothing to strip after it. -/
theorem patternRule_target {s target dep : List Char} {terminal : Bool}
    (h : patternRule s = .ok (some (target, dep, terminal))) :
    target <+: s ∧ '%' ∈ target ∧ target.getLast? = some ':' ∧
      (terminal = true → target.dropLast.getLast? = some ':') := by
  unfold patternRule at h
  split at h
  · cases h
  rcases hp : strchr s '%' with _ | pct
  · rw [hp] at h; cases h
  rcases hk : strchr (s.drop pct) ':' with _ | k
  · simp only [hp, hk] at h; cases h
  simp only [hp, hk] at h
  have hpct := (getElem?_of_strchr hp).1
  have hcol : s[pct + k]? = some ':' := by
    rw [← List.getElem?_drop]; exact (getElem?_of_strchr hk).1
  have hmem : ∀ n, pct < n → '%' ∈ s.take n := fun n hn =>
    List.mem_iff_getElem?.2 ⟨pct, by rw [List.getElem?_take, if_pos hn, hpct]⟩
  split at h
  · cases h
  obtain ⟨s₁, hs₁⟩ := take_succ_of_colon hcol
  by_cases hc : s.get? (pct + k + 1) = some ':'
  · -- a terminal rule: both colons stay
    obtain ⟨s₂, hs₂⟩ := take_succ_of_colon (List.get?_eq_getElem? _ _ ▸ hc)
    simp only [hc, if_true, bind_eq_ok] at h
    obtain ⟨_, -, h⟩ := h
    cases h
    rw [s₂]
    refine ⟨List.take_prefix _ _, hmem _ (by omega), hs₂, fun _ => ?_⟩
    rw [List.take_succ, ← List.get?_eq_getElem?, hc, Option.toList_some, List.dropLast_concat]
    exact hs₁
  · simp only [hc, if_false, bind_eq_ok] at h
    obtain ⟨_, -, h⟩ := h
    cases h
    rw [s₁]
    exact ⟨List.take_prefix _ _, hmem _ (by omega), hs₁, nofun⟩

example : patternRule "%.o: %.c".toList = .ok (some ("%.o:".toList, "%.c".toList, false)) ∧
    patternRule "%:: RCS/%,v".toList = .ok (some ("%::".toList, "RCS/%,v".toList, true)) := by
  decide

/-- `install_default_implicit_rules` on every configuration file, without `-r`: the buffers of
    `collect_commandlines` never fail it, it installs the pattern rules of the lines, each with the
    recipe of the lines after it, and the target of each rule is a prefix of its line that holds
    the `%` and ends in the `:` that closes the target (in both colons of a terminal rule). -/
theorem installDefaultImplicitRules_spec (junk : Nat → Char) (file : List Char) :
    installDefaultImplicitRules junk false (configLines file) = patternRules (configLines file) ∧
      ∀ rules, patternRules (configLines file) = .ok rules → ∀ r ∈ rules,
        ∃ line ∈ configLines file, r.target <+: line ∧ '%' ∈ r.target ∧
          r.target.getLast? = some ':' ∧
          (r.terminal = true → r.target.dropLast.getLast? = some ':') := by
  refine ⟨(if_neg Bool.false_ne_true).trans (implicitRulesLoop_eq junk _ fun l hl =>
    (configLineOk_of_mem_configLines file l hl).nul_not_mem), fun rules h r hr => ?_⟩
  obtain ⟨line, hl, hp⟩ := mem_patternRules h r hr
  exact ⟨line, hl, patternRule_target hp⟩

/-! ## The recipe cut again -/

theorem chopCommands_commandsText_iff {lines : List (List Char)}
    (hok : ∀ l ∈ commandLines lines, nul ∉ l ∧ '\n' ∉ l) (n : Nat)
    (flags : List LineFlags) (anyRecurse : Bool) :
    (chopCommands false ⟨commandsText lines, none, n, flags, anyRecurse⟩).map
        (·.commandLines) = .ok (some (recipeLines lines)) ↔
      (recipeLines lines).length ≤ ushrtMax ∧
        (∀ l ∈ (recipeLines lines).dropLast, endsLine l = true) ∧
        (recipeLines lines).getLast? ≠ some [] := by
  have hnl : ∀ l ∈ recipeLines lines, '\n' ∉ l := fun l hl => by
    obtain ⟨l₀, hl₀, rfl⟩ := List.mem_map.1 ((List.dropWhile_suffix _).subset hl)
    exact fun hm => (hok l₀ hl₀).2 ((List.dropWhile_suffix _).subset hm)
  have hcstr : cstr (commandsText lines) = commandsText lines := by
    rw [commandsText, recipeLines, ← joinLines_nil]
    exact cstr_of_nul_not_mem (nul_not_mem_joinLines (by decide) (by simp) fun s hs => by
      obtain ⟨l, hl, rfl⟩ := List.mem_map.1 hs
      exact nul_not_mem_skipleading (hok l hl).1)
  rw [← segments_intercalate_iff _ hnl, ← commandsText]
  by_cases hle : (segments (commandsText lines)).length ≤ ushrtMax
  · -- the recipe is cut into its segments
    simp [chopCommands, hcstr, chopLines_segments, hle, Nat.not_lt.mpr hle]
    show Except.ok (some _) = _ ↔ _
    simp only [Except.ok.injEq, Option.some.injEq]
    exact ⟨fun h => ⟨h ▸ hle, h⟩, And.right⟩
  · -- too many segments: a fatal error
    simp [chopCommands, hcstr, chopLines_segments, hle]
    show Except.error _ = _ ↔ _
    simp only [reduceCtorEq, false_iff, not_and]
    exact fun hl h => hle (h ▸ hl)

/-- For every configuration file and every rule in it (the lines after it from the `i`-th on),
    `chop_commands`, with `one_shell` off, cuts the recipe `collect_commandlines` built back into
    the lines of the recipe exactly when there are at most `USHRT_MAX` of them, none but the last
    ends in an odd run of backslashes, and the last is not empty. -/
theorem chopCommands_commandsText (file : List Char) (i n : Nat) (flags : List LineFlags)
    (anyRecurse : Bool) :
    (chopCommands false
        ⟨commandsText ((configLines file).drop i), none, n, flags, anyRecurse⟩).map
        (·.commandLines) = .ok (some (recipeLines ((configLines file).drop i))) ↔
      (recipeLines ((configLines file).drop i)).length ≤ ushrtMax ∧
        (∀ l ∈ (recipeLines ((configLines file).drop i)).dropLast, endsLine l = true) ∧
        (recipeLines ((configLines file).drop i)).getLast? ≠ some [] :=
  chopCommands_commandsText_iff (fun l hl =>
    have h := configLineOk_of_mem_configLines file l
      ((List.drop_subset _ _) ((List.takeWhile_prefix _).subset hl))
    ⟨h.nul_not_mem, h.newline_not_mem⟩) n flags anyRecurse

/-- A command line that ends in a backslash runs into the next one: `read_config` leaves one of
    two backslashes at the end of a line. -/
example : segments (commandsText ["\tfoo \\".toList, "\tbar".toList]) =
    ["foo \\\nbar".toList] := by
  decide

end MakePlus
