import Mathlib.Data.List.Destutter
import MakePlus.Default.Recipes

/-!
# The default suffixes

`set_default_suffixes` (default.c) gathers the suffixes of every `.SUFFIXES` line of the
configuration into one string, which it grows with `xrealloc` line by line, the parts separated by
a space once the string is not empty. It then makes each tab a space, and squeezes each run of
spaces to one, moving the rest of the string down over the extra spaces with `memmove`. The string
is the value of `SUFFIXES`, and its words are the prerequisites of `.SUFFIXES`.

* `squeezeLoop_eq`: the `memmove` loop squeezes the runs of spaces of the string, as
  `List.destutter` does for the relation "not two spaces";
* `setDefaultSuffixes_spec`: for every configuration file, every store stays inside the buffer
  as `xrealloc` sized it, and `SUFFIXES` holds no tab and no two spaces in a row, and the words of
  all the `.SUFFIXES` lines, in order.
-/

namespace MakePlus

/-! ## The model -/

/-- `strncmp (p, ".SUFFIXES", 9) == 0 && ISBLANK (p[9])`: a `.SUFFIXES` line, the name followed by
    a blank (and not by a colon). -/
def isSuffixesLine (line : List Char) : Bool :=
  strneq line ".SUFFIXES".toList 9 && isBlank (line.getD 9 nul)

/-- `xrealloc (p, n)`: `n` bytes, the first of them those of `p`, and what the allocator gives
    after them. A null pointer is the empty buffer. -/
def xrealloc (p : List Char) (n : Nat) (junk : Nat → Char) : List Char :=
  p.take n ++ (alloc n junk).drop p.length

@[simp] theorem length_xrealloc (p : List Char) (n : Nat) (junk : Nat → Char) :
    (xrealloc p n junk).length = n := by
  simp only [xrealloc, List.length_append, List.length_take, List.length_drop, length_alloc]
  omega

/-- `xrealloc` keeps a string that fits in the new size. -/
theorem xrealloc_append (w r : List Char) {n : Nat} (junk : Nat → Char) (h : w.length ≤ n) :
    ∃ d, xrealloc (w ++ r) n junk = w ++ d ∧ d.length = n - w.length := by
  have hx : xrealloc (w ++ r) n junk = w ++ (r.take (n - w.length) ++
      (alloc n junk).drop (w ++ r).length) := by
    rw [xrealloc, List.take_append_eq_append_take, List.take_of_length_le h, List.append_assoc]
  refine ⟨_, hx, ?_⟩
  have hl := length_xrealloc (w ++ r) n junk
  rw [hx, List.length_append] at hl
  omega

/-- `suffixes ? strlen (suffixes) : 0`. -/
def suffixesLength : Option (List Char) → Except Fault Nat
  | some b => strlen b
  | none => pure 0

/-- The loop of lines 312-327 over the lines of the configuration, with the buffer `suffixes`
    (`none` while it is a null pointer): the suffixes of each `.SUFFIXES` line, from their first
    byte above `' '`, copied after the string, and after a space when the string is not empty. -/
def suffixesLoop (junk : Nat → Char) :
    List (List Char) → Option (List Char) → Except Fault (Option (List Char))
  | [], suffixes => pure suffixes
  | line :: lines, suffixes =>
    if isSuffixesLine line then do
      let length ← suffixesLength suffixes
      let p := skipleading (line.drop 9)
      let b := xrealloc (suffixes.getD []) (length + (cstr p).length + 2) junk
      let (b, length) ← if length > 0 then do
          let b ← store b length ' '
          pure (b, length + 1)
        else pure (b, length)
      let b ← memcpy b length (cstr p ++ [nul])
      suffixesLoop junk lines (some b)
    else suffixesLoop junk lines suffixes

/-- The loop of lines 333-335 from `p2`: each tab before the NUL made a space. -/
def tabsLoop : List Char → Except Fault (List Char)
  | [] => .error .readOutOfBounds
  | c :: cs =>
    if c = nul then pure (c :: cs)
    else do
      let cs ← tabsLoop cs
      pure ((if c = '\t' then ' ' else c) :: cs)

/-- `while (p2[count] == ' ') count++`, from `p2 + 1`: the spaces that follow. -/
def spacesAfter : List Char → Except Fault Nat
  | [] => .error .readOutOfBounds
  | c :: cs =>
    if c = ' ' then do
      let k ← spacesAfter cs
      pure (k + 1)
    else pure 0

/-- `if (count > 1) memmove (p2 + 1, p2 + count, strlen (p2 + count) + 1)` on the buffer from
    `p2`: the string after the run of `count` spaces, with its NUL, moved down to follow the
    first space. -/
def squeezeMove (b : List Char) (count : Nat) : Except Fault (List Char) :=
  if count > 1 then do
    let n ← strlen (b.drop count)
    memmove b 1 count (n + 1)
  else pure b

theorem length_squeezeMove {b b' : List Char} {count : Nat} (h : squeezeMove b count = .ok b') :
    b'.length = b.length := by
  unfold squeezeMove at h
  split at h
  · obtain ⟨n, -, h⟩ := bind_eq_ok.1 h
    unfold memmove at h
    split at h
    · exact length_of_memcpy h
    · cases h
  · cases h
    rfl

/-- The loop of lines 336-346 from `p2` over the rest of the buffer: a space is followed by no
    other, then `p2` moves on. -/
def squeezeLoop (b : List Char) : Except Fault (List Char) :=
  match b with
  | [] => .error .readOutOfBounds
  | c :: cs =>
    if c = nul then pure (c :: cs)
    else if c = ' ' then
      match spacesAfter cs with
      | .error e => .error e
      | .ok k =>
        match _hm : squeezeMove (c :: cs) (k + 1) with
        | .error e => .error e
        | .ok [] => .error .readOutOfBounds
        | .ok (c' :: cs') => do
          let cs' ← squeezeLoop cs'
          pure (c' :: cs')
    else do
      let cs ← squeezeLoop cs
      pure (c :: cs)
termination_by b.length
decreasing_by
  all_goals simp_wf
  have := length_squeezeMove _hm
  simp only [List.length_cons] at this
  omega

/-- `set_default_suffixes ()`: the value it gives `SUFFIXES`, empty under `-r`
    (`no_builtin_rules_flag`) or without a `.SUFFIXES` line. -/
def setDefaultSuffixes (junk : Nat → Char) (noBuiltinRulesFlag : Bool)
    (lines : List (List Char)) : Except Fault (List Char) :=
  if noBuiltinRulesFlag then pure []
  else do
    match ← suffixesLoop junk lines none with
    | none => pure []
    | some b => do
      let b ← tabsLoop b
      let b ← squeezeLoop b
      pure (cstr b)

/-! ## What the value is -/

/-- Two bytes that are not both spaces: what holds along the value, pair by pair. -/
def notTwoSpaces (a b : Char) : Prop := ¬(a = ' ' ∧ b = ' ')

instance instDecidableRelNotTwoSpaces : DecidableRel notTwoSpaces :=
  fun a b => inferInstanceAs (Decidable ¬(a = ' ' ∧ b = ' '))

/-- A tab made a space. -/
def untab (c : Char) : Char := if c = '\t' then ' ' else c

/-- The suffixes of a `.SUFFIXES` line: what follows the name, from its first byte above `' '`. -/
def suffixesOf (line : List Char) : List Char := skipleading (line.drop 9)

/-- The value of `SUFFIXES`: the suffixes of the `.SUFFIXES` lines joined by spaces (none before
    the first that is not empty), each tab made a space, and each run of spaces squeezed to one. -/
def suffixesValue (lines : List (List Char)) : List Char :=
  ((joinLines ' ' [] ((lines.filter isSuffixesLine).map suffixesOf)).map untab).destutter
    notTwoSpaces

/-- The words of a string from the word `cur` begun: its maximal runs of bytes that are not
    blanks. -/
def wordsFrom (cur : List Char) : List Char → List (List Char)
  | [] => if cur.isEmpty then [] else [cur]
  | c :: cs =>
    if isBlank c then (if cur.isEmpty then [] else [cur]) ++ wordsFrom [] cs
    else wordsFrom (cur ++ [c]) cs

/-- Modelled from the spec: the words of a string, as `PARSE_SIMPLE_SEQ` (read.c, not in src/)
    reads the prerequisites of `.SUFFIXES`. -/
def blankWords (s : List Char) : List (List Char) := wordsFrom [] s

/-! ## The loops -/

theorem tabsLoop_eq {r : List Char} : ∀ {s : List Char}, nul ∉ s →
    tabsLoop (s ++ nul :: r) = .ok (s.map untab ++ nul :: r)
  | [], _ => by simp [tabsLoop]
  | c :: s, h => by
    simp only [List.mem_cons, not_or] at h
    rw [List.cons_append, tabsLoop, if_neg (Ne.symm h.1), tabsLoop_eq h.2]
    rfl

theorem spacesAfter_eq {r : List Char} : ∀ {s : List Char}, nul ∉ s →
    spacesAfter (s ++ nul :: r) = .ok (s.takeWhile (· == ' ')).length
  | [], _ => by simp [spacesAfter, show nul ≠ ' ' by decide]
  | c :: s, h => by
    simp only [List.mem_cons, not_or] at h
    rw [List.cons_append, spacesAfter]
    by_cases hc : c = ' '
    · subst hc
      rw [if_pos rfl, spacesAfter_eq h.2]
      simp
    · rw [if_neg hc, List.takeWhile_cons_of_neg (by simpa using hc)]
      rfl

theorem destutter_cons_of_ne {c : Char} (hc : c ≠ ' ') (t : List Char) :
    (c :: t).destutter notTwoSpaces = c :: t.destutter notTwoSpaces := by
  cases t with
  | nil => rfl
  | cons b t =>
    rw [List.destutter_cons', List.destutter'_cons_pos _ fun h => hc h.1, List.destutter_cons']

/-- After a space, the spaces that follow go. -/
theorem destutter_space (t : List Char) :
    (' ' :: t).destutter notTwoSpaces =
      ' ' :: (t.dropWhile (· == ' ')).destutter notTwoSpaces := by
  rw [List.destutter_cons']
  induction t with
  | nil => rfl
  | cons b t ih =>
    by_cases hb : b = ' '
    · subst hb
      rw [List.destutter'_cons_neg _ fun h => h ⟨rfl, rfl⟩, ih, List.dropWhile_cons_of_pos rfl]
    · rw [List.destutter'_cons_pos _ fun h => hb h.2,
        List.dropWhile_cons_of_neg (by simpa using hb), List.destutter_cons']

theorem squeezeLoop_nul (r : List Char) : squeezeLoop (nul :: r) = .ok (nul :: r) := by
  rw [squeezeLoop, if_pos rfl]
  rfl

theorem squeezeLoop_of_ne {c : Char} (hn : c ≠ nul) (hs : c ≠ ' ') (cs : List Char) :
    squeezeLoop (c :: cs) = squeezeLoop cs >>= fun cs => pure (c :: cs) := by
  rw [squeezeLoop, if_neg hn, if_neg hs]

theorem squeezeLoop_space {cs cs' : List Char} {c' : Char} {k : Nat}
    (hk : spacesAfter cs = .ok k) (hm : squeezeMove (' ' :: cs) (k + 1) = .ok (c' :: cs')) :
    squeezeLoop (' ' :: cs) = squeezeLoop cs' >>= fun cs' => pure (c' :: cs') := by
  rw [squeezeLoop, if_neg (by decide), if_pos rfl]
  simp only [hk]
  split <;> rename_i h <;> rw [hm] at h <;> cases h
  rfl

/-- Over a run `w` of spaces after a space, the move shifts the rest of the string, NUL
    included, `w.length` places to the left. -/
theorem squeezeMove_run {w u r : List Char} (hu : nul ∉ u) :
    squeezeMove (' ' :: (w ++ u ++ nul :: r)) (w.length + 1) =
      .ok (' ' :: (u ++ nul :: (w ++ u ++ nul :: r).drop (u.length + 1))) := by
  rcases eq_or_ne w [] with rfl | hw
  · simp [squeezeMove, pure_eq_ok, List.drop_append_eq_append_drop]
  have hd : (' ' :: (w ++ u ++ nul :: r)).drop (w.length + 1) = u ++ nul :: r := by
    rw [List.drop_succ_cons, List.append_assoc, List.drop_left]
  have ht : (u ++ nul :: r).take (u.length + 1) = u ++ [nul] := by
    rw [List.take_append_eq_append_take, List.take_of_length_le (by omega),
      Nat.add_sub_cancel_left]
    rfl
  have hpos := List.length_pos.mpr hw
  rw [squeezeMove, if_pos (by omega), hd, strlen_append hu, ok_bind, memmove,
    if_pos (by simp; omega), hd, ht, memcpy_of_le (by simp; omega)]
  simp [Nat.add_comm 1]

/-- On a buffer holding the C string `s`, the `memmove` loop squeezes the runs of spaces of `s`;
    after the NUL is what the moves leave there. -/
theorem squeezeLoop_eq : ∀ (n : Nat) (s r : List Char), s.length ≤ n → nul ∉ s →
    ∃ r', squeezeLoop (s ++ nul :: r) = .ok (s.destutter notTwoSpaces ++ nul :: r')
  | _, [], r, _, _ => ⟨r, squeezeLoop_nul r⟩
  | 0, _ :: _, _, h, _ => absurd h (by simp)
  | n + 1, c :: t, r, hlen, hnul => by
    simp only [List.mem_cons, not_or] at hnul
    simp only [List.length_cons, Nat.add_le_add_iff_right] at hlen
    by_cases hc : c = ' '
    · -- a space: the run `w` of spaces after it is moved over
      subst hc
      obtain ⟨w, u, rfl, hw, hu⟩ : ∃ w u, t = w ++ u ∧ t.takeWhile (· == ' ') = w ∧
          t.dropWhile (· == ' ') = u :=
        ⟨_, _, (List.takeWhile_append_dropWhile _ _).symm, rfl, rfl⟩
      have hk := spacesAfter_eq (r := r) hnul.2
      rw [hw] at hk
      have hnu : nul ∉ u := fun h => hnul.2 (List.mem_append_right w h)
      obtain ⟨r', h⟩ := squeezeLoop_eq n u _
        (by simp only [List.length_append] at hlen; omega) hnu
      refine ⟨r', ?_⟩
      rw [List.cons_append, squeezeLoop_space hk (squeezeMove_run hnu), h, ok_bind,
        destutter_space, hu]
      rfl
    · obtain ⟨r', h⟩ := squeezeLoop_eq n t r hlen hnul.2
      refine ⟨r', ?_⟩
      rw [List.cons_append, squeezeLoop_of_ne (Ne.symm hnul.1) hc, h, ok_bind,
        destutter_cons_of_ne hc]
      rfl

/-- The buffer `suffixes` holds the C string `acc`, or is a null pointer and `acc` is empty. -/
def HoldsText (acc : List Char) : Option (List Char) → Prop
  | none => acc = []
  | some b => ∃ r, b = acc ++ nul :: r

theorem suffixesLength_of_holdsText {acc : List Char} {s : Option (List Char)} (hacc : nul ∉ acc)
    (hs : HoldsText acc s) : suffixesLength s = .ok acc.length := by
  cases s with
  | none => cases hs; rfl
  | some b => obtain ⟨r, rfl⟩ := hs; exact strlen_append hacc

theorem getD_of_holdsText {acc : List Char} {s : Option (List Char)} (hs : HoldsText acc s) :
    ∃ r, s.getD [] = acc ++ r := by
  cases s with
  | none => cases hs; exact ⟨[], rfl⟩
  | some b => obtain ⟨r, rfl⟩ := hs; exact ⟨_, rfl⟩

theorem nul_not_mem_suffixesOf {line : List Char} (h : nul ∉ line) : nul ∉ suffixesOf line :=
  nul_not_mem_skipleading fun hm => h ((List.drop_subset _ _) hm)

/-- One `.SUFFIXES` line: the buffer, grown by `xrealloc` to the exact size, gets the line's
    suffixes after the string, and a space between them when the string is not empty. -/
theorem suffixesLoop_cons (junk : Nat → Char) {line acc : List Char}
    {suffixes : Option (List Char)} (hl : isSuffixesLine line = true) (hline : nul ∉ line)
    (hacc : nul ∉ acc) (hs : HoldsText acc suffixes) (lines : List (List Char)) :
    ∃ b, HoldsText (joinLines ' ' acc [suffixesOf line]) (some b) ∧
      suffixesLoop junk (line :: lines) suffixes = suffixesLoop junk lines (some b) := by
  have hp : nul ∉ skipleading (line.drop 9) := nul_not_mem_suffixesOf hline
  obtain ⟨r, hr⟩ := getD_of_holdsText hs
  obtain ⟨d, hd, hdl⟩ := xrealloc_append acc r junk
    (n := acc.length + (skipleading (line.drop 9)).length + 2) (by omega)
  rw [suffixesLoop, if_pos hl, suffixesLength_of_holdsText hacc hs, ok_bind]
  simp only [cstr_of_nul_not_mem hp, hr, hd]
  rcases eq_or_ne acc [] with rfl | hne
  · -- the first string: no space before it
    rw [if_neg (by simp), pure_eq_ok, ok_bind, memcpy_append (by simp at hdl ⊢; omega), ok_bind]
    exact ⟨_, ⟨d.drop ((skipleading (line.drop 9)).length + 1),
      by simp [joinLines, suffixesOf]⟩, rfl⟩
  · obtain ⟨x, d, rfl⟩ :=
      List.exists_cons_of_ne_nil (show d ≠ [] by
        rintro rfl; simp only [List.length_nil] at hdl; omega)
    rw [if_pos (List.length_pos.mpr hne), store_append, ok_bind, pure_eq_ok, ok_bind,
      show acc ++ ' ' :: d = (acc ++ [' ']) ++ d by simp,
      show acc.length + 1 = (acc ++ [' ']).length by simp,
      memcpy_append (by simp at hdl ⊢; omega), ok_bind]
    exact ⟨_, ⟨d.drop ((skipleading (line.drop 9)).length + 1),
      by simp [joinLines, hne, suffixesOf]⟩, rfl⟩

/-- The loop over the lines joins the suffixes of the `.SUFFIXES` lines after the string. -/
theorem suffixesLoop_eq (junk : Nat → Char) : ∀ (lines : List (List Char)) {acc : List Char}
    {suffixes : Option (List Char)}, (∀ l ∈ lines, nul ∉ l) → nul ∉ acc →
    HoldsText acc suffixes →
    ∃ res, suffixesLoop junk lines suffixes = .ok res ∧
      HoldsText (joinLines ' ' acc ((lines.filter isSuffixesLine).map suffixesOf)) res
  | [], _, _, _, _, hs => ⟨_, rfl, hs⟩
  | line :: lines, acc, suffixes, hnul, hacc, hs => by
    simp only [List.mem_cons, forall_eq_or_imp] at hnul
    by_cases hl : isSuffixesLine line
    · obtain ⟨b, hb, h⟩ := suffixesLoop_cons junk hl hnul.1 hacc hs lines
      have hacc' : nul ∉ joinLines ' ' acc [suffixesOf line] :=
        nul_not_mem_joinLines (by decide) hacc (by simpa using nul_not_mem_suffixesOf hnul.1)
      rw [h, List.filter_cons_of_pos hl, List.map_cons]
      exact suffixesLoop_eq junk lines hnul.2 hacc' hb
    · rw [suffixesLoop, if_neg hl, List.filter_cons_of_neg hl]
      exact suffixesLoop_eq junk lines hnul.2 hacc hs

theorem nul_not_mem_suffixesValue {lines : List (List Char)} (hnul : ∀ l ∈ lines, nul ∉ l) :
    nul ∉ ((joinLines ' ' [] ((lines.filter isSuffixesLine).map suffixesOf)).map untab) := by
  have hj : nul ∉ joinLines ' ' [] ((lines.filter isSuffixesLine).map suffixesOf) :=
    nul_not_mem_joinLines (by decide) (List.not_mem_nil nul) fun s hs => by
      obtain ⟨l, hl, rfl⟩ := List.mem_map.1 hs
      exact nul_not_mem_suffixesOf (hnul l (List.mem_of_mem_filter hl))
  simp only [List.mem_map, not_exists, not_and]
  intro c hc hu
  rw [untab] at hu
  split at hu
  · cases hu
  · exact hj (hu ▸ hc)

/-- `set_default_suffixes` gives `SUFFIXES` the value `suffixesValue`, for every configuration
    of lines without a NUL: no store leaves its buffer. -/
theorem setDefaultSuffixes_eq (junk : Nat → Char) {lines : List (List Char)}
    (hnul : ∀ l ∈ lines, nul ∉ l) :
    setDefaultSuffixes junk false lines = .ok (suffixesValue lines) := by
  obtain ⟨res, hres, hh⟩ := suffixesLoop_eq junk lines hnul (List.not_mem_nil nul)
    (show HoldsText [] none from rfl)
  have hv := nul_not_mem_suffixesValue hnul
  rw [setDefaultSuffixes, if_neg Bool.false_ne_true, hres, ok_bind]
  cases res with
  | none => rw [suffixesValue, show joinLines _ _ _ = [] from hh]; rfl
  | some b =>
    obtain ⟨r, rfl⟩ := hh
    have hvj : nul ∉ joinLines ' ' [] ((lines.filter isSuffixesLine).map suffixesOf) :=
      fun h => hv (List.mem_map_of_mem untab h)
    obtain ⟨r', hsq⟩ := squeezeLoop_eq _ _ r le_rfl hv
    simp only [tabsLoop_eq hvj, ok_bind, hsq, pure_eq_ok]
    rw [cstr_append_nul fun h => hv ((List.destutter_sublist _ _).subset h), suffixesValue]

/-! ## The words of the value -/

theorem wordsFrom_cons (cur : List Char) (c : Char) (cs : List Char) :
    wordsFrom cur (c :: cs) =
      if isBlank c then (if cur.isEmpty then [] else [cur]) ++ wordsFrom [] cs
      else wordsFrom (cur ++ [c]) cs := rfl

theorem wordsFrom_nil_cons_of_isBlank {c : Char} (hc : isBlank c = true) (cs : List Char) :
    wordsFrom [] (c :: cs) = wordsFrom [] cs := by
  rw [wordsFrom_cons, if_pos hc, if_pos List.isEmpty_nil, List.nil_append]

theorem wordsFrom_append_blank {c : Char} (hc : isBlank c = true) (b : List Char) :
    ∀ cur a : List Char, wordsFrom cur (a ++ c :: b) = wordsFrom cur a ++ wordsFrom [] b
  | cur, [] => by rw [List.nil_append, wordsFrom_cons, if_pos hc, wordsFrom]
  | cur, x :: a => by
    rw [List.cons_append, wordsFrom_cons, wordsFrom_cons]
    split
    · rw [wordsFrom_append_blank hc b [] a, List.append_assoc]
    · exact wordsFrom_append_blank hc b _ a

theorem wordsFrom_dropWhile_space (t : List Char) :
    wordsFrom [] (t.dropWhile (· == ' ')) = wordsFrom [] t := by
  induction t with
  | nil => rfl
  | cons c t ih =>
    by_cases hc : c = ' '
    · subst hc
      rw [List.dropWhile_cons_of_pos rfl, ih, wordsFrom_nil_cons_of_isBlank (by decide)]
    · rw [List.dropWhile_cons_of_neg (by simpa using hc)]

/-- Squeezing the runs of spaces keeps the words. -/
theorem wordsFrom_destutter : ∀ cur s : List Char,
    wordsFrom cur (s.destutter notTwoSpaces) = wordsFrom cur s
  | _, [] => rfl
  | cur, c :: t => by
    by_cases hc : c = ' '
    · subst hc
      have hb : isBlank ' ' = true := by decide
      rw [destutter_space, wordsFrom_cons, wordsFrom_cons, if_pos hb, if_pos hb,
        wordsFrom_destutter [] (t.dropWhile _), wordsFrom_dropWhile_space]
    · rw [destutter_cons_of_ne hc, wordsFrom_cons, wordsFrom_cons, wordsFrom_destutter [] t,
        wordsFrom_destutter _ t]
termination_by _ s => s.length
decreasing_by
  all_goals simp_wf
  exact Nat.lt_succ_of_le (List.dropWhile_suffix _).length_le

/-- Making the tabs spaces keeps the words. -/
theorem wordsFrom_map_untab : ∀ cur s : List Char, wordsFrom cur (s.map untab) = wordsFrom cur s
  | _, [] => rfl
  | cur, c :: t => by
    rw [List.map_cons, wordsFrom_cons, wordsFrom_cons, wordsFrom_map_untab [] t]
    by_cases hc : c = '\t'
    · subst hc
      rfl
    · rw [untab, if_neg hc, wordsFrom_map_untab _ t]

/-- The words of joined strings are the words of each. -/
theorem wordsFrom_joinLines : ∀ (acc : List Char) (ss : List (List Char)),
    wordsFrom [] (joinLines ' ' acc ss) = wordsFrom [] acc ++ ss.flatMap (wordsFrom [])
  | acc, [] => by simp [joinLines]
  | acc, s :: ss => by
    rw [joinLines, wordsFrom_joinLines _ ss, List.flatMap_cons, ← List.append_assoc]
    congr 1
    split
    · rename_i h
      rw [List.isEmpty_iff.1 h]
      rfl
    · exact wordsFrom_append_blank (by decide) s [] acc

theorem tab_not_mem_suffixesValue (lines : List (List Char)) : '\t' ∉ suffixesValue lines := by
  intro h
  obtain ⟨c, -, hc⟩ := List.mem_map.1 ((List.destutter_sublist _ _).subset h)
  rw [untab] at hc
  split at hc
  · cases hc
  · contradiction

/-- The words of `SUFFIXES`, what `PARSE_SIMPLE_SEQ` reads as the prerequisites of `.SUFFIXES`,
    are the words of the `.SUFFIXES` lines, in order. -/
theorem blankWords_suffixesValue (lines : List (List Char)) :
    blankWords (suffixesValue lines) =
      (lines.filter isSuffixesLine).flatMap fun line => blankWords (suffixesOf line) := by
  rw [blankWords, suffixesValue, wordsFrom_destutter, wordsFrom_map_untab, wordsFrom_joinLines,
    List.flatMap_map]
  rfl

example : suffixesValue [".SUFFIXES .o\t .c".toList, "all: x".toList, ".SUFFIXES  .y ".toList] =
    ".o .c .y ".toList := by decide

/-- `set_default_suffixes` on every configuration file: no store leaves the buffer `xrealloc`
    sized, and `SUFFIXES` gets a value with no tab and no two spaces in a row, whose words are
    those of the `.SUFFIXES` lines of the file, in order. -/
theorem setDefaultSuffixes_spec (junk : Nat → Char) (file : List Char) :
    setDefaultSuffixes junk false (configLines file) = .ok (suffixesValue (configLines file)) ∧
      '\t' ∉ suffixesValue (configLines file) ∧
      (suffixesValue (configLines file)).Chain' notTwoSpaces ∧
      blankWords (suffixesValue (configLines file)) =
        ((configLines file).filter isSuffixesLine).flatMap fun line =>
          blankWords (suffixesOf line) :=
  ⟨setDefaultSuffixes_eq junk fun l hl => (configLineOk_of_mem_configLines file l hl).nul_not_mem,
    tab_not_mem_suffixesValue _, List.destutter_is_chain' _ _, blankWords_suffixesValue _⟩

end MakePlus
