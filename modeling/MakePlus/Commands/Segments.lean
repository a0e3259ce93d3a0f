import MakePlus.Commands.Chop

/-!
# The logical lines of a recipe

A newline of a recipe ends a logical line unless the run of backslashes right before it is odd
(`endsLine`); the recipe cut at those newlines is `segments`. Two loops of commands.c find these
ends in different ways. `chop_commands` searches for a newline and counts the backslashes before
it backwards, starting over after an escaped one (`findEnd`); `print_commands` reads forwards,
toggling a parity bit at each backslash (`printEnd`). Both cut where `segments` cuts:

* `findEnd_spec`: the search stops at the first newline that ends a line, or at the end of the
  text;
* `chopLines_segments`: with `one_shell` off the command lines are the segments, or a fatal error
  when there are more than `USHRT_MAX` of them;
* `printLoop_segments`: `print_commands` prints the segments, one to a line;
* `intercalate_segments` and `segments_noLineEnd`: the segments joined by newlines give the text
  back, and none of them holds a newline that ends a line.
-/

namespace MakePlus

/-! ## Logical lines -/

/-- The run of backslashes at the end of `pre`. -/
def trailingBackslashes (pre : List Char) : Nat := (pre.reverse.takeWhile (· == '\\')).length

/-- A newline after `pre` ends a logical line: the run of backslashes right before it is even. -/
def endsLine (pre : List Char) : Bool := trailingBackslashes pre % 2 == 0

/-- The text cut at each newline that ends a logical line, from the part `cur` of the current
    line read so far; a newline that ends the text ends the last segment. -/
def segmentsFrom (cur : List Char) : List Char → List (List Char)
  | [] => if cur.isEmpty then [] else [cur]
  | c :: s => if c = '\n' && endsLine cur then cur :: segmentsFrom [] s
    else segmentsFrom (cur ++ [c]) s

/-- The logical lines of the text `s`. -/
def segments (s : List Char) : List (List Char) := segmentsFrom [] s

/-- The text ends in a newline that ends a logical line. -/
def endsInLineEnd (s : List Char) : Bool := s.getLast? == some '\n' && endsLine s.dropLast

/-- No newline of `l` ends a logical line. -/
def NoLineEnd (l : List Char) : Prop := ∀ i, l[i]? = some '\n' → endsLine (l.take i) = false

example : segments "a\\\nb\n\\\\\n\nc".toList = ["a\\\nb".toList, "\\\\".toList, [], ['c']] := by
  decide

@[simp] theorem endsLine_nil : endsLine [] = true := rfl

theorem trailingBackslashes_append_singleton (pre : List Char) (c : Char) :
    trailingBackslashes (pre ++ [c]) = if c = '\\' then trailingBackslashes pre + 1 else 0 := by
  by_cases hc : c = '\\' <;> simp [trailingBackslashes, List.takeWhile_cons, hc]

theorem endsLine_append_singleton (pre : List Char) (c : Char) :
    endsLine (pre ++ [c]) = if c = '\\' then !endsLine pre else true := by
  rw [endsLine, endsLine, trailingBackslashes_append_singleton]
  split
  · rcases Nat.mod_two_eq_zero_or_one (trailingBackslashes pre) with h | h <;>
      simp [h, Nat.add_mod]
  · rfl

/-- A newline cuts the runs of backslashes: what ends a line after it does not depend on the text
    before it. -/
theorem endsLine_append_newline (pre l : List Char) :
    endsLine (pre ++ '\n' :: l) = endsLine l := by
  induction l using List.reverseRecOn with
  | nil => simp [endsLine_append_singleton]
  | append_singleton l c ih =>
    rw [← List.cons_append, ← List.append_assoc, endsLine_append_singleton,
      endsLine_append_singleton, ih]

/-! ## The segments -/

theorem segmentsFrom_newline {cur : List Char} (h : endsLine cur = true) (s : List Char) :
    segmentsFrom cur ('\n' :: s) = cur :: segmentsFrom [] s := by
  simp [segmentsFrom, h]

theorem segmentsFrom_of_not_newline {cur : List Char} {c : Char}
    (h : (c = '\n' && endsLine cur) = false)
    (s : List Char) : segmentsFrom cur (c :: s) = segmentsFrom (cur ++ [c]) s := by
  simp only [segmentsFrom, h, Bool.false_eq_true, if_false]

/-- A block with no newline that ends a line goes into the current line. -/
theorem segmentsFrom_append (cur l r : List Char)
    (h : ∀ i, l[i]? = some '\n' → endsLine (cur ++ l.take i) = false) :
    segmentsFrom cur (l ++ r) = segmentsFrom (cur ++ l) r := by
  induction l generalizing cur with
  | nil => simp
  | cons c l ih =>
    have hc : (c = '\n' && endsLine cur) = false := by
      have := h 0
      by_cases hn : c = '\n' <;> simp_all
    rw [List.cons_append, segmentsFrom_of_not_newline hc, ih, List.append_assoc,
      List.singleton_append]
    intro i hi
    simpa using h (i + 1) (by simpa using hi)

theorem segmentsFrom_ne_nil {cur s : List Char} (h : cur ++ s ≠ []) :
    segmentsFrom cur s ≠ [] := by
  induction s generalizing cur with
  | nil => simpa [segmentsFrom] using h
  | cons c s ih =>
    unfold segmentsFrom
    split
    · simp
    · exact ih (by simp)

theorem endsInLineEnd_append_singleton (cur : List Char) (c : Char) :
    endsInLineEnd (cur ++ [c]) = (c == '\n' && endsLine cur) := by
  simp [endsInLineEnd]

theorem endsInLineEnd_append_newline (cur l : List Char) (hl : l ≠ []) :
    endsInLineEnd (cur ++ '\n' :: l) = endsInLineEnd l := by
  obtain ⟨l, c, rfl⟩ := List.eq_nil_or_concat l |>.resolve_left hl
  rw [List.concat_eq_append, ← List.cons_append, ← List.append_assoc,
    endsInLineEnd_append_singleton,
    endsInLineEnd_append_singleton, endsLine_append_newline]

theorem noLineEnd_append_singleton {cur : List Char} {c : Char} (hcur : NoLineEnd cur)
    (hc : (c = '\n' && endsLine cur) = false) : NoLineEnd (cur ++ [c]) := by
  intro i hi
  rcases Nat.lt_or_ge i cur.length with hlt | hge
  · rw [List.getElem?_append_left hlt] at hi
    rw [List.take_append_of_le_length hlt.le]
    exact hcur i hi
  · rw [List.getElem?_append_right hge] at hi
    rcases Nat.eq_or_lt_of_le hge with heq | hgt
    · subst heq
      simp only [Nat.sub_self, List.getElem?_cons_zero, Option.some.injEq] at hi
      subst hi
      simpa using hc
    · rw [List.getElem?_eq_none (by simp only [List.length_singleton]; omega)] at hi
      cases hi

/-- The segments joined by newlines, and a newline after the last one when the text ends with a
    newline that ends a line, give the text back. -/
theorem intercalate_segmentsFrom (cur s : List Char) (hcur : endsInLineEnd cur = false) :
    ['\n'].intercalate (segmentsFrom cur s) ++ (if endsInLineEnd (cur ++ s) then ['\n'] else []) =
      cur ++ s := by
  induction s generalizing cur with
  | nil => cases cur <;> simp_all [segmentsFrom, List.intercalate]
  | cons c s ih =>
    by_cases h : (c = '\n' && endsLine cur) = true
    · simp only [Bool.and_eq_true, decide_eq_true_eq] at h
      obtain ⟨rfl, hend⟩ := h
      rw [segmentsFrom_newline hend]
      rcases List.eq_nil_or_concat s with rfl | hs
      · simp [segmentsFrom, endsInLineEnd_append_singleton, hend]
      · have hne : s ≠ [] := by rintro rfl; simp at hs
        obtain ⟨x, xs, hx⟩ := List.exists_cons_of_ne_nil (@segmentsFrom_ne_nil [] s hne)
        have := ih [] rfl
        rw [List.nil_append, hx] at this
        rw [hx]
        rw [intercalate_cons_cons, endsInLineEnd_append_newline cur s hne, List.append_assoc,
          List.append_assoc, this]
        simp
    · rw [segmentsFrom_of_not_newline (by simpa using h)]
      simpa using ih (cur ++ [c]) (by rw [endsInLineEnd_append_singleton]; simpa using h)

theorem intercalate_segments (s : List Char) :
    ['\n'].intercalate (segments s) ++ (if endsInLineEnd s then ['\n'] else []) = s :=
  intercalate_segmentsFrom [] s rfl

theorem noLineEnd_of_mem_segmentsFrom (cur s : List Char) (hcur : NoLineEnd cur) :
    ∀ l ∈ segmentsFrom cur s, NoLineEnd l := by
  induction s generalizing cur with
  | nil =>
    intro l hl
    simp only [segmentsFrom] at hl
    split at hl
    · simp at hl
    · rw [List.mem_singleton.mp hl]; exact hcur
  | cons c s ih =>
    by_cases h : (c = '\n' && endsLine cur) = true
    · simp only [Bool.and_eq_true, decide_eq_true_eq] at h
      obtain ⟨rfl, hend⟩ := h
      rw [segmentsFrom_newline hend]
      rintro l (_ | ⟨_, hl⟩)
      · exact hcur
      · exact ih [] (fun i hi => by simp at hi) l hl
    · rw [segmentsFrom_of_not_newline (by simpa using h)]
      exact ih _ (noLineEnd_append_singleton hcur (by simpa using h))

theorem segments_noLineEnd (s : List Char) : ∀ l ∈ segments s, NoLineEnd l :=
  noLineEnd_of_mem_segmentsFrom [] s fun i hi => by simp at hi

/-! ## `chop_commands` -/

theorem flipBackslashes_eq (bs : List Char) (b : Bool) :
    flipBackslashes bs b = (b == endsLine bs.reverse) := by
  induction bs generalizing b with
  | nil => cases b <;> rfl
  | cons c bs ih =>
    rw [List.reverse_cons, endsLine_append_singleton]
    by_cases hc : c = '\\'
    · subst hc
      rw [flipBackslashes, ih]
      cases b <;> simp
    · rw [flipBackslashes.eq_2 _ _ (by simp [hc]), if_neg hc]
      cases b <;> rfl

theorem endsLine_take_succ {p : List Char} {n : Nat} {c : Char} (h : p[n]? = some c) :
    endsLine (p.take (n + 1)) = if c = '\\' then !endsLine (p.take n) else true := by
  rw [List.take_succ, h, Option.toList_some, endsLine_append_singleton]

/-- The test of lines 415-428 on a newline at offset `n`: it ends a line unless a backslash
    stands before it and the backslashes before that one leave `backslash` set. -/
theorem endsLine_take_eq {p : List Char} {n : Nat} (hn : n ≤ p.length) :
    endsLine (p.take n) =
      !((decide (0 < n) && p[n - 1]? == some '\\') &&
        flipBackslashes (p.take (n - 1)).reverse true) := by
  rcases Nat.eq_zero_or_pos n with rfl | hpos
  · rfl
  obtain ⟨m, rfl⟩ : ∃ m, n = m + 1 := ⟨n - 1, by omega⟩
  obtain ⟨c, hc⟩ : ∃ c, p[m]? = some c := ⟨p[m], List.getElem?_eq_getElem (by omega)⟩
  rw [endsLine_take_succ hc, flipBackslashes_eq, List.reverse_reverse, Nat.add_sub_cancel, hc]
  by_cases h : c = '\\' <;> simp [h]

theorem noLineEnd_take_add {p : List Char} {e m : Nat} (hno : NoLineEnd (p.take e))
    (hm : ∀ j < m, (p.drop e)[j]? ≠ some '\n') : NoLineEnd (p.take (e + m)) := by
  intro i hi
  have hlt : i < e + m := by
    by_contra hge
    rw [List.getElem?_take_eq_none (by omega)] at hi
    cases hi
  rw [List.getElem?_take_of_lt hlt] at hi
  rw [List.take_take, Nat.min_eq_left hlt.le]
  rcases Nat.lt_or_ge i e with hie | hie
  · have := hno i (by rwa [List.getElem?_take_of_lt hie])
    rwa [List.take_take, Nat.min_eq_left hie.le] at this
  · exact absurd (by rwa [List.getElem?_drop, Nat.add_sub_cancel' hie]) (hm (i - e) (by omega))

theorem findEnd_of_none {p : List Char} {e : Nat} (h : strchr (p.drop e) '\n' = none) :
    findEnd p e = p.length := by
  rw [findEnd]
  split <;> rename_i h' <;> simp only [h, reduceCtorEq] at h'
  rfl

theorem findEnd_of_some {p : List Char} {e k : Nat} (h : strchr (p.drop e) '\n' = some k) :
    findEnd p e =
      if decide (0 < e + k) && p[e + k - 1]? == some '\\' then
        if flipBackslashes (p.take (e + k - 1)).reverse true then findEnd p (e + k + 1) else e + k
      else e + k := by
  rw [findEnd]
  split <;> rename_i h' <;> simp only [h, reduceCtorEq, Option.some.injEq] at h'
  subst h'
  rfl

/-- The search for the end of a line, from an offset with no line end before it, stops at the
    first newline that ends a line, or at the end of the text. -/
theorem findEnd_spec (p : List Char) (e : Nat) (hno : NoLineEnd (p.take e)) :
    findEnd p e ≤ p.length ∧ NoLineEnd (p.take (findEnd p e)) ∧
      (findEnd p e < p.length →
        p[findEnd p e]? = some '\n' ∧ endsLine (p.take (findEnd p e))) := by
  induction e using findEnd.induct p with
  | case1 e hk =>
    rw [findEnd_of_none hk]
    have := noLineEnd_take_add hno (m := p.length) fun j _ => getElem?_of_strchr_eq_none hk j
    rw [List.take_of_length_le (by omega)] at this
    exact ⟨le_rfl, by rwa [List.take_length], fun h => absurd h (lt_irrefl _)⟩
  | case2 e k hk hcond hflip ih =>
    rw [findEnd_of_some hk, if_pos hcond, if_pos hflip]
    obtain ⟨hnl, hfirst⟩ := getElem?_of_strchr hk
    rw [List.getElem?_drop] at hnl
    have hlt : e + k < p.length := by
      by_contra h; rw [List.getElem?_eq_none (by omega)] at hnl; cases hnl
    apply ih
    rw [List.take_succ, hnl, Option.toList_some]
    refine noLineEnd_append_singleton (noLineEnd_take_add hno hfirst) ?_
    rw [endsLine_take_eq hlt.le, hcond, hflip]
    rfl
  | case3 e k hk hcond hflip =>
    rw [findEnd_of_some hk, if_pos hcond, if_neg hflip]
    obtain ⟨hnl, hfirst⟩ := getElem?_of_strchr hk
    rw [List.getElem?_drop] at hnl
    have hlt : e + k < p.length := by
      by_contra h; rw [List.getElem?_eq_none (by omega)] at hnl; cases hnl
    refine ⟨hlt.le, noLineEnd_take_add hno hfirst, fun _ => ⟨hnl, ?_⟩⟩
    rw [endsLine_take_eq hlt.le, hcond, Bool.eq_false_iff.mpr hflip]
    rfl
  | case4 e k hk hcond =>
    rw [findEnd_of_some hk, if_neg hcond]
    obtain ⟨hnl, hfirst⟩ := getElem?_of_strchr hk
    rw [List.getElem?_drop] at hnl
    have hlt : e + k < p.length := by
      by_contra h; rw [List.getElem?_eq_none (by omega)] at hnl; cases hnl
    refine ⟨hlt.le, noLineEnd_take_add hno hfirst, fun _ => ⟨hnl, ?_⟩⟩
    rw [endsLine_take_eq hlt.le, Bool.eq_false_iff.mpr hcond]
    rfl

/-- A text starts with the segment that `findEnd` finds. -/
theorem segments_cons_findEnd {p : List Char} (hp : p ≠ []) :
    segments p = p.take (findEnd p 0) :: segments (p.drop (findEnd p 0)).tail := by
  obtain ⟨hle, hno, hend⟩ := findEnd_spec p 0 fun i hi => by simp at hi
  conv_lhs => rw [← List.take_append_drop (findEnd p 0) p]
  rw [segments, segmentsFrom_append [] _ _ fun i hi => by rw [List.nil_append]; exact hno i hi,
    List.nil_append]
  rcases Nat.lt_or_ge (findEnd p 0) p.length with hlt | hge
  · obtain ⟨hnl, hendl⟩ := hend hlt
    have hc : p[findEnd p 0] = '\n' := by simpa [List.getElem?_eq_getElem hlt] using hnl
    rw [List.drop_eq_getElem_cons hlt, hc, segmentsFrom_newline hendl]
    rfl
  · rw [List.drop_of_length_le hge, List.take_of_length_le hge]
    simp [segmentsFrom, segments, hp]

/-- The loop of `chop_commands` adds the segments to the lines it has, or stops when they would
    be more than `USHRT_MAX`. -/
theorem chopLoop_segments (p : List Char) (lines : List (List Char))
    (hl : lines.length ≤ ushrtMax) :
    chopLoop p lines = if lines.length + (segments p).length ≤ ushrtMax then
      .ok (lines ++ segments p) else .error .fatal := by
  induction p, lines using chopLoop.induct with
  | case1 lines => simp [chopLoop, segments, segmentsFrom, hl]
  | case2 lines c cs hfull =>
    rw [chopLoop, if_pos hfull, if_neg]
    rw [segments_cons_findEnd (List.cons_ne_nil c cs), List.length_cons]
    omega
  | case3 lines c cs e hfull ih =>
    unfold e at ih
    rw [chopLoop, if_neg hfull,
      ih (by simp only [List.length_append, List.length_singleton]; omega),
      segments_cons_findEnd (List.cons_ne_nil c cs), List.append_assoc, List.singleton_append,
      List.length_append, List.length_singleton, List.length_cons, Nat.add_assoc, Nat.add_comm 1]

theorem chopLines_segments (s : List Char) :
    chopLines false s =
      if (segments s).length ≤ ushrtMax then .ok (segments s) else .error .fatal := by
  simp [chopLines, chopLoop_segments s [] (Nat.zero_le _)]

theorem segments_replicate_newline (n : Nat) :
    segments (List.replicate n '\n') = List.replicate n [] := by
  induction n with
  | zero => rfl
  | succ n ih =>
    rw [List.replicate_succ, segments, segmentsFrom_newline endsLine_nil, ← segments, ih]
    rfl

/-! ## Lines joined by newlines -/

theorem segmentsFrom_of_newline_not_mem (cur : List Char) {s : List Char} (h : '\n' ∉ s) :
    segmentsFrom cur s = if (cur ++ s).isEmpty then [] else [cur ++ s] := by
  rw [← List.append_nil s,
    segmentsFrom_append cur s [] fun i hi => absurd (List.getElem?_mem hi) h, List.append_nil]
  rfl

/-- Each segment but the first ends at a newline. -/
theorem length_segmentsFrom_le (cur s : List Char) :
    (segmentsFrom cur s).length ≤ s.count '\n' + 1 := by
  induction s generalizing cur with
  | nil => unfold segmentsFrom; split <;> simp
  | cons c s ih =>
    unfold segmentsFrom
    split
    · rename_i h
      have hc : c = '\n' := by simpa using (Bool.and_eq_true_iff.1 h).1
      have := ih []
      simp only [List.length_cons, List.count_cons, hc, beq_self_eq_true, if_true]
      omega
    · have := ih (cur ++ [c])
      have := List.count_le_count_cons '\n' c s
      omega

theorem count_newline_intercalate (l : List Char) (ls : List (List Char))
    (h : ∀ x ∈ l :: ls, '\n' ∉ x) :
    (['\n'].intercalate (l :: ls)).count '\n' = ls.length := by
  induction ls generalizing l with
  | nil => simpa using List.count_eq_zero.2 (h l (List.mem_cons_self l []))
  | cons l' ls ih =>
    rw [intercalate_cons_cons, List.count_append, List.count_append,
      List.count_eq_zero.2 (h l (List.mem_cons_self _ _)),
      ih l' fun x hx => h x (List.mem_cons_of_mem _ hx)]
    simp [Nat.add_comm]

/-- Lines without newlines, joined by newlines, are cut back into the same lines exactly when
    no line but the last ends in an odd run of backslashes and the last is not empty. -/
theorem segments_intercalate_iff :
    ∀ ls : List (List Char), (∀ l ∈ ls, '\n' ∉ l) →
      (segments (['\n'].intercalate ls) = ls ↔
        (∀ l ∈ ls.dropLast, endsLine l = true) ∧ ls.getLast? ≠ some [])
  | [], _ => by simp [segments, segmentsFrom]
  | [l], h => by
    rw [intercalate_singleton, segments, segmentsFrom_of_newline_not_mem [] (h l (by simp))]
    by_cases hl : l = [] <;> simp [hl]
  | l :: l' :: ls, h => by
    have hl : '\n' ∉ l := h l (List.mem_cons_self _ _)
    have ih := segments_intercalate_iff (l' :: ls) fun x hx => h x (List.mem_cons_of_mem _ hx)
    rw [intercalate_cons_cons, List.append_assoc, segments,
      segmentsFrom_append [] l _ fun i hi => absurd (List.getElem?_mem hi) hl, List.nil_append,
      List.singleton_append, List.dropLast_cons₂, List.getLast?_cons_cons]
    by_cases he : endsLine l
    · -- the newline after `l` ends a line
      rw [segmentsFrom_newline he, ← segments, List.cons.injEq, ih]
      simp [he]
    · -- it does not: `l` runs into the next line, and a line is lost
      have hlen := length_segmentsFrom_le (l ++ ['\n']) (['\n'].intercalate (l' :: ls))
      rw [count_newline_intercalate l' ls fun x hx => h x (List.mem_cons_of_mem _ hx)] at hlen
      rw [segmentsFrom_of_not_newline (by simp [he])]
      constructor
      · intro heq
        have := congrArg List.length heq
        simp only [List.length_cons] at this
        omega
      · rintro ⟨hd, -⟩
        exact absurd (hd l (List.mem_cons_self _ _)) (by simpa using he)

/-! ## `print_commands` -/

/-- The `for` loop of lines 741-747 from `end`, `bs` telling whether an odd run of backslashes
    stands right before it: the offset of the first newline that `bs` does not escape, or of the
    end of the string. -/
def printEnd : List Char → Bool → Nat
  | [], _ => 0
  | c :: s, bs =>
    if c = '\n' && !bs then 0 else printEnd s (if c = '\\' then !bs else false) + 1

/-- `s = end + (end[0] == '\n')`: past the newline that ended the line, if there is one. -/
def skipNewline : List Char → List Char
  | '\n' :: s => s
  | s => s

theorem skipNewline_drop_printEnd (l : List Char) (bs : Bool) :
    skipNewline (l.drop (printEnd l bs)) = (l.drop (printEnd l bs)).tail := by
  induction l generalizing bs with
  | nil => rfl
  | cons c l ih =>
    rw [printEnd]
    split
    · rename_i h
      simp only [Bool.and_eq_true, decide_eq_true_eq] at h
      rw [h.1]
      rfl
    · exact ih _

/-- The loop of lines 736-753 over the rest `s` of the recipe: each line it finds printed after
    four spaces, on a line of its own. -/
def printLoop (s : List Char) : List Char :=
  match s with
  | [] => []
  | c :: cs =>
    let e := printEnd (c :: cs) false
    "    ".toList ++ (c :: cs).take e ++ ['\n'] ++ printLoop (skipNewline ((c :: cs).drop e))
termination_by s.length
decreasing_by
  rw [skipNewline_drop_printEnd]
  simp only [List.length_tail, List.length_drop, List.length_cons]
  omega

/-- The members of `fileinfo` that `print_commands` reads: the name of the makefile (`none` for
    the null name of a built-in rule) and the line of the recipe. -/
structure FileInfo where
  filenm : Option (List Char)
  lineno : Nat
  deriving DecidableEq, Repr

/-- Lines 727-733: the heading of the recipe. -/
def recipeHeading (fileinfo : FileInfo) : List Char :=
  "#  recipe to execute".toList ++
    match fileinfo.filenm with
    | none => " (built-in):\n".toList
    | some filenm =>
      " (from \x27".toList ++ filenm ++ "\x27, line ".toList ++ (toString fileinfo.lineno).toList ++
        "):\n".toList

/-- `print_commands (cmds)`: what it writes to `stdout` for the recipe `commands`. -/
def printCommands (fileinfo : FileInfo) (commands : List Char) : List Char :=
  recipeHeading fileinfo ++ printLoop (cstr commands)

/-- Reading forwards with the parity of the backslashes finds the end of the current segment. -/
theorem segmentsFrom_printEnd (cur l : List Char) (h : cur ++ l ≠ []) :
    segmentsFrom cur l = (cur ++ l.take (printEnd l !endsLine cur)) ::
      segmentsFrom [] (l.drop (printEnd l !endsLine cur)).tail := by
  induction l generalizing cur with
  | nil => cases cur <;> simp_all [segmentsFrom, printEnd]
  | cons c l ih =>
    by_cases hc : (c = '\n' && endsLine cur) = true
    · simp only [Bool.and_eq_true, decide_eq_true_eq] at hc
      obtain ⟨rfl, hend⟩ := hc
      simp [segmentsFrom_newline hend, printEnd, hend]
    · have hbs : (if c = '\\' then !!endsLine cur else false) = !endsLine (cur ++ [c]) := by
        rw [endsLine_append_singleton]
        split <;> simp
      rw [segmentsFrom_of_not_newline (by simpa using hc), ih (cur ++ [c]) (by simp), printEnd,
        if_neg (by simpa using hc), hbs]
      simp

theorem printLoop_segments (s : List Char) :
    printLoop s = (segments s).flatMap fun l => "    ".toList ++ l ++ ['\n'] := by
  induction s using printLoop.induct with
  | case1 => simp [printLoop, segments, segmentsFrom]
  | case2 c cs e ih =>
    unfold e at ih
    rw [printLoop, segments, segmentsFrom_printEnd [] _ (List.cons_ne_nil c cs), ih,
      skipNewline_drop_printEnd]
    simp only [endsLine_nil, Bool.not_true, List.nil_append, List.flatMap_cons, segments]

/-! ## The recipe -/

/-- With `one_shell` off, `chop_commands` takes the segments of the recipe for its command lines
    and their number for `ncommand_lines`, or stops with a fatal error when there are more than
    `USHRT_MAX` of them. The segments joined by newlines give the recipe back, none of them holds
    a newline that ends a line, and `print_commands` prints them, one to a line. -/
theorem chopCommands_segments (commands : List Char) (n : Nat) (flags : List LineFlags)
    (anyRecurse : Bool) (fileinfo : FileInfo) :
    (chopCommands false ⟨commands, none, n, flags, anyRecurse⟩).map
        (fun c => (c.commandLines, c.ncommandLines)) =
      (if (segments (cstr commands)).length ≤ ushrtMax then
        .ok (some (segments (cstr commands)), (segments (cstr commands)).length)
      else .error .fatal) ∧
    ['\n'].intercalate (segments (cstr commands)) ++
        (if endsInLineEnd (cstr commands) then ['\n'] else []) = cstr commands ∧
    (∀ l ∈ segments (cstr commands), NoLineEnd l) ∧
    printCommands fileinfo commands = recipeHeading fileinfo ++
      (segments (cstr commands)).flatMap fun l => "    ".toList ++ l ++ ['\n'] := by
  refine ⟨?_, intercalate_segments _, segments_noLineEnd _, by
    rw [printCommands, printLoop_segments]⟩
  by_cases h : (segments (cstr commands)).length ≤ ushrtMax
  · simp [chopCommands, chopLines_segments, h, Nat.not_lt.mpr h,
      Nat.mod_eq_of_lt (Nat.lt_succ_of_le h)]
    rfl
  · simp [chopCommands, chopLines_segments, h]
    rfl

/-- A recipe of more than `USHRT_MAX` lines is a fatal error: `chop_commands` then sets nothing. -/
theorem chopCommands_too_many_lines :
    chopCommands false ⟨List.replicate 65536 '\n', none, 0, [], false⟩ = .error .fatal := by
  have hs : cstr (List.replicate 65536 '\n') = List.replicate 65536 '\n' :=
    cstr_of_nul_not_mem (by rw [List.mem_replicate]; decide)
  simp only [chopCommands, hs, chopLines_segments, segments_replicate_newline,
    List.length_replicate]
  rfl

end MakePlus
