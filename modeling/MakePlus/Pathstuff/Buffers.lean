import MakePlus.Pathstuff.RoundTrip

/-!
# The buffers of the Windows conversions

Both conversions of w32/pathstuff.c size their result in a dry run, allocate `size + 1` bytes,
and write the result in a second pass. `convert_Path_to_windows32` asserts that the pass wrote
exactly `size` bytes (line 217), `convert_vpath_from_windows32` that it wrote at most `size`
(line 114), and both then store the terminating NUL at `tgt`. This module runs the passes on the
bytes of the buffer: each store and the `memmove` that inserts a quote fault outside the buffer,
and the asserts are checked.

* `toWindowsPass_append`, `fromWindowsPass_append`: from a written part and room after it, each
  pass writes what the list model of its loop writes, as long as the room covers what the dry
  run counts for the rest of the input;
* `length_toWindowsLoop`, `length_convertLoop_le`: the list models write exactly the size of the
  dry run of `convert_Path_to_windows32`, and at most that of `convert_vpath_from_windows32`;
* `windowsConversions_fit_buffers`: for every input both functions run without a fault, the
  asserts hold, and the buffers they return hold the results of `convertPathToWindows32` and
  `convertVpathFromWindows32` with their NUL.
-/

namespace MakePlus

/-! ## `convert_Path_to_windows32` -/

/-- The dry run of lines 157-177 of `convert_Path_to_windows32` over `src`, from `size`: one
    byte for each byte copied, one for an escaped blank (its backslash dropped), one for each
    delimiter, and two for the quotes around a path that had an escaped blank. -/
def toWindowsSize (enquote instring : Bool) (size : Nat) : List Char → Nat
  | [] => if enquote then size + 2 else size
  | c :: src =>
    if c = nul then (if enquote then size + 2 else size)
    else if !instring && c = '\\' && src.head?.any isBlank then
      toWindowsSize true instring (size + 1) src.tail
    else if !instring && isBlank c then
      toWindowsSize false instring ((if enquote then size + 2 else size) + 1) src
    else toWindowsSize enquote (if c = '"' then !instring else instring) (size + 1) src
termination_by src => src.length
decreasing_by
  all_goals simp_wf
  all_goals
    try simp only [List.length_tail]
    omega

/-- Lines 190-194 (and 207-211): `*tgt++ = '"'`, the bytes from `mark` moved one byte up over it,
    and a quote at `mark`. -/
def enquoteAt (b : List Char) (tgt mark : Nat) : Except Fault (List Char × Nat) := do
  let b ← store b tgt '"'
  let b ← memmove b (mark + 1) mark (tgt + 1 - mark)
  let b ← store b mark '"'
  pure (b, tgt + 2)

/-- The conversion loop of lines 186-213 of `convert_Path_to_windows32` on the buffer `b`, with
    `tgt` the offset of the next byte and `mark` that of the current path: the buffer and the
    final `tgt`. -/
def toWindowsPass (delim : Char) (b : List Char) (tgt mark : Nat) (enquote instring : Bool) :
    List Char → Except Fault (List Char × Nat)
  | [] => if enquote then enquoteAt b tgt mark else pure (b, tgt)
  | c :: src =>
    if c = nul then (if enquote then enquoteAt b tgt mark else pure (b, tgt))
    else if !instring && c = '\\' && src.head?.any isBlank then do
      let b ← store b tgt ' '
      toWindowsPass delim b (tgt + 1) mark true instring src.tail
    else if !instring && isBlank c then do
      let (b, tgt) ← if enquote then enquoteAt b tgt mark else pure (b, tgt)
      let b ← store b tgt delim
      toWindowsPass delim b (tgt + 1) (tgt + 1) false instring src
    else do
      let b ← store b tgt c
      toWindowsPass delim b (tgt + 1) mark enquote (if c = '"' then !instring else instring) src
termination_by src => src.length
decreasing_by
  all_goals simp_wf
  all_goals
    try simp only [List.length_tail]
    omega

/-- `convert_Path_to_windows32 (Path, delim)` on the bytes of its buffer, allocated with the
    bytes `junk` gives: the buffer it returns, or `none` (`NULL`) for a blank `Path`. -/
def convertPathToWindows32Buf (junk : Nat → Char) (path : List Char) (delim : Char) :
    Except Fault (Option (List Char)) :=
  match path.dropWhile isBlank with
  | [] => pure none
  | c :: src =>
    if c = nul then pure none
    else do
      let size := toWindowsSize false false 0 (c :: src)
      let (b, tgt) ← toWindowsPass delim (alloc (size + 1) junk) 0 0 false false (c :: src)
      assert (tgt == size) 217
      let b ← store b tgt nul
      pure (some b)

/-- Moving the bytes `q :: p` one byte up leaves a copy of their first byte before them. -/
theorem memmove_up {u p r : List Char} {q z : Char} {n m : Nat} (hn : u.length = n)
    (hm : (q :: p).length = m) :
    memmove (u ++ q :: p ++ z :: r) (n + 1) n m = .ok (u ++ q :: q :: p ++ r) := by
  subst hn hm
  have h₁ : ((u ++ q :: p ++ z :: r).drop u.length).take (q :: p).length = q :: p := by simp
  have h₂ : u ++ q :: p ++ z :: r = (u ++ [q]) ++ (p ++ z :: r) := by simp
  rw [memmove, if_pos (by simp), h₁, h₂, show u.length + 1 = (u ++ [q]).length by simp,
    memcpy_append (by simp)]
  simp

/-- The quotes around the current path, inserted in the buffer, are those `enquoteFrom` adds. -/
theorem enquoteAt_append {w r : List Char} {mark : Nat} (hmark : mark ≤ w.length)
    (hr : 2 ≤ r.length) :
    enquoteAt (w ++ r) w.length mark = .ok (enquoteFrom w mark ++ r.drop 2, w.length + 2) := by
  obtain ⟨x, y, r, rfl⟩ : ∃ x y r', r = x :: y :: r' := by
    match r, hr with
    | x :: y :: r', _ => exact ⟨x, y, r', rfl⟩
  obtain ⟨q, p, hp⟩ := List.exists_cons_of_ne_nil (l := w.drop mark ++ ['"']) (by simp)
  have hb : w ++ '"' :: y :: r = w.take mark ++ q :: p ++ y :: r := by
    rw [List.append_assoc, ← hp, List.append_assoc, List.singleton_append, ← List.append_assoc,
      List.take_append_drop]
  have hu : (w.take mark).length = mark := by simp; omega
  have hs : store (w.take mark ++ q :: (q :: p ++ r)) mark '"' =
      .ok (w.take mark ++ '"' :: (q :: p ++ r)) := by
    have := @store_append (w.take mark) (q :: p ++ r) q '"'
    rwa [hu] at this
  rw [enquoteAt, store_append, ok_bind, hb, memmove_up hu (by rw [← hp]; simp; omega), ok_bind,
    List.append_assoc, List.cons_append, hs]
  simp [enquoteFrom, ← hp]

theorem le_toWindowsSize (enquote instring : Bool) (size : Nat) (src : List Char) :
    size ≤ toWindowsSize enquote instring size src := by
  induction enquote, instring, size, src using toWindowsSize.induct with
  | case1 instring size => simp [toWindowsSize]
  | case2 enquote instring size h => simp [toWindowsSize, h]
  | case3 instring size src => simp [toWindowsSize]
  | case4 enquote instring size src h => simp [toWindowsSize, h]
  | case5 enquote instring size c src hc hesc ih =>
    rw [toWindowsSize, if_neg hc, if_pos hesc]; omega
  | case6 enquote instring size c src hc hesc hblank ih =>
    rw [toWindowsSize, if_neg hc, if_neg hesc, if_pos hblank]
    cases enquote <;> simp only [dite_eq_ite, if_true, if_false, Bool.false_eq_true] at ih ⊢ <;>
      omega
  | case7 enquote instring size c src hc hesc hblank ih =>
    rw [toWindowsSize, if_neg hc, if_neg hesc, if_neg hblank]; simp only [dite_eq_ite] at ih; omega

theorem length_enquoteFrom {tgt : List Char} {mark : Nat} (hmark : mark ≤ tgt.length) :
    (enquoteFrom tgt mark).length = tgt.length + 2 := by
  simp [enquoteFrom]
  omega

/-- The list model writes exactly the bytes the dry run counts. -/
theorem length_toWindowsLoop (delim : Char) (tgt : List Char) (mark : Nat) (enquote instring : Bool)
    (src : List Char) (hmark : mark ≤ tgt.length) :
    (toWindowsLoop delim tgt mark enquote instring src).length =
      toWindowsSize enquote instring tgt.length src := by
  induction tgt, mark, enquote, instring, src using toWindowsLoop.induct delim with
  | case1 tgt mark instring => simp [toWindowsLoop, toWindowsSize, enquoteFrom]; omega
  | case2 tgt mark enquote instring he => simp [toWindowsLoop, toWindowsSize, he]
  | case3 tgt mark instring src => simp [toWindowsLoop, toWindowsSize, enquoteFrom]; omega
  | case4 tgt mark enquote instring src he => simp [toWindowsLoop, toWindowsSize, he]
  | case5 tgt mark enquote instring c src hc hesc ih =>
    rw [toWindowsLoop, toWindowsSize, if_neg hc, if_pos hesc, if_neg hc, if_pos hesc,
      ih (by simp; omega), List.length_append, List.length_singleton]
  | case6 tgt mark enquote instring c src hc hesc hblank tgt' ih =>
    unfold tgt' at ih
    rw [toWindowsLoop, toWindowsSize, if_neg hc, if_neg hesc, if_pos hblank, if_neg hc,
      if_neg hesc, if_pos hblank]
    cases enquote
    · simp only [Bool.false_eq_true, dite_false, if_false] at ih ⊢
      rw [ih (by simp), List.length_append, List.length_singleton]
    · simp only [dite_true, if_true] at ih ⊢
      rw [ih (by simp), List.length_append, List.length_singleton, length_enquoteFrom hmark]
  | case7 tgt mark enquote instring c src hc hesc hblank ih =>
    simp only [dite_eq_ite] at ih
    rw [toWindowsLoop, toWindowsSize, if_neg hc, if_neg hesc, if_neg hblank, if_neg hc,
      if_neg hesc, if_neg hblank, ih (by simp; omega), List.length_append, List.length_singleton]

/-- A byte stored right after the written part, where there is room. -/
theorem store_room {w r : List Char} {c : Char} (hr : 0 < r.length) :
    ∃ x r', r = x :: r' ∧ store (w ++ r) w.length c = .ok ((w ++ [c]) ++ r') := by
  cases r with
  | nil => simp at hr
  | cons x r' => exact ⟨x, r', rfl, by rw [store_append]; simp⟩

/-- The room left after one more byte written. -/
theorem drop_cons_sub (x : Char) (r : List Char) {S n : Nat} (h : n < S) :
    (x :: r).drop (S - n) = r.drop (S - (n + 1)) := by
  rw [show S - n = S - (n + 1) + 1 by omega]
  rfl

/-- The pass of `convert_Path_to_windows32` on a buffer, from the written part `w` and the room
    `r`, writes what `toWindowsLoop` writes when the room covers the count of the dry run. -/
theorem toWindowsPass_append (delim : Char) (w : List Char) (mark : Nat) (enquote instring : Bool)
    (src : List Char) :
    ∀ r : List Char, mark ≤ w.length →
      toWindowsSize enquote instring w.length src ≤ w.length + r.length →
      toWindowsPass delim (w ++ r) w.length mark enquote instring src =
        .ok (toWindowsLoop delim w mark enquote instring src ++
            r.drop (toWindowsSize enquote instring w.length src - w.length),
          toWindowsSize enquote instring w.length src) := by
  induction w, mark, enquote, instring, src using toWindowsLoop.induct delim with
  | case1 w mark instring =>
    intro r hmark hr
    simp only [toWindowsSize, if_true] at hr ⊢
    rw [toWindowsPass, if_pos rfl, enquoteAt_append hmark (by omega), toWindowsLoop, if_pos rfl]
    simp
  | case2 w mark enquote instring he =>
    intro r _ _
    simp [toWindowsPass, toWindowsLoop, toWindowsSize, he]
  | case3 w mark instring src =>
    intro r hmark hr
    simp only [toWindowsSize, if_true] at hr ⊢
    rw [toWindowsPass, if_pos rfl, if_pos rfl, enquoteAt_append hmark (by omega), toWindowsLoop,
      if_pos rfl, if_pos rfl]
    simp
  | case4 w mark enquote instring src he =>
    intro r _ _
    simp [toWindowsPass, toWindowsLoop, toWindowsSize, he]
  | case5 w mark enquote instring c src hc hesc ih =>
    intro r hmark hr
    rw [toWindowsSize, if_neg hc, if_pos hesc] at hr ⊢
    have hle := le_toWindowsSize true instring (w.length + 1) src.tail
    obtain ⟨x, r, rfl, hst⟩ := store_room (w := w) (r := r) (c := ' ') (by omega)
    simp only [List.length_cons] at hr
    rw [toWindowsPass, if_neg hc, if_pos hesc, hst, ok_bind, toWindowsLoop, if_neg hc, if_pos hesc]
    have := ih r (by simp; omega) (by simp; omega)
    rw [List.length_append, List.length_singleton] at this
    rw [this, drop_cons_sub _ _ (by omega)]
  | case6 w mark enquote instring c src hc hesc hblank w' ih =>
    unfold w' at ih
    intro r hmark hr
    rw [toWindowsSize, if_neg hc, if_neg hesc, if_pos hblank] at hr ⊢
    rw [toWindowsPass, if_neg hc, if_neg hesc, if_pos hblank, toWindowsLoop, if_neg hc,
      if_neg hesc, if_pos hblank]
    cases enquote
    · simp only [Bool.false_eq_true, dite_false, if_false] at ih hr ⊢
      have hle := le_toWindowsSize false instring (w.length + 1) src
      obtain ⟨x, r, rfl, hst⟩ := store_room (w := w) (r := r) (c := delim) (by omega)
      simp only [List.length_cons] at hr
      rw [pure_eq_ok, ok_bind, hst, ok_bind]
      have := ih r (by simp) (by simp; omega)
      rw [List.length_append, List.length_singleton] at this
      rw [this, drop_cons_sub _ _ (by omega)]
    · simp only [dite_true, if_true] at ih hr ⊢
      have hle := le_toWindowsSize false instring (w.length + 2 + 1) src
      have hq := length_enquoteFrom hmark
      obtain ⟨x, R, hR, hst⟩ := store_room (w := enquoteFrom w mark) (r := r.drop 2)
        (c := delim)
        (by simp; omega)
      rw [enquoteAt_append hmark (by omega), ok_bind]
      dsimp only
      rw [← hq, hst, ok_bind, hq]
      have := ih R (by simp) (by
        have := congrArg List.length hR
        simp only [List.length_drop, List.length_cons] at this
        simp only [List.length_append, List.length_singleton, hq]
        omega)
      rw [List.length_append, List.length_singleton, hq] at this
      rw [this, show toWindowsSize false instring (w.length + 2 + 1) src - w.length =
        2 + (toWindowsSize false instring (w.length + 2 + 1) src - (w.length + 2)) by omega,
        ← List.drop_drop, hR, drop_cons_sub _ _ (by omega)]
  | case7 w mark enquote instring c src hc hesc hblank ih =>
    simp only [dite_eq_ite] at ih
    intro r hmark hr
    rw [toWindowsSize, if_neg hc, if_neg hesc, if_neg hblank] at hr ⊢
    have hle := le_toWindowsSize enquote (if c = '"' then !instring else instring) (w.length + 1)
      src
    obtain ⟨x, r, rfl, hst⟩ := store_room (w := w) (r := r) (c := c) (by omega)
    simp only [List.length_cons] at hr
    rw [toWindowsPass, if_neg hc, if_neg hesc, if_neg hblank, hst, ok_bind, toWindowsLoop,
      if_neg hc, if_neg hesc, if_neg hblank]
    have := ih r (by simp; omega) (by simp; omega)
    rw [List.length_append, List.length_singleton] at this
    rw [this, drop_cons_sub _ _ (by omega)]

/-- The last byte of a buffer allocated one byte larger than the string written in it. -/
theorem drop_alloc_succ (n : Nat) (junk : Nat → Char) :
    ∃ x, (alloc (n + 1) junk).drop n = [x] :=
  List.length_eq_one.1 (by simp)

/-- The pass of `convert_Path_to_windows32` on the buffer of `size + 1` bytes writes exactly the
    `size` bytes of the dry run, those of the list model. -/
theorem toWindowsPass_alloc (junk : Nat → Char) (delim : Char) (src : List Char) :
    ∃ x, toWindowsPass delim (alloc (toWindowsSize false false 0 src + 1) junk) 0 0 false false
        src =
      .ok (toWindowsLoop delim [] 0 false false src ++ [x], toWindowsSize false false 0 src) := by
  have hpass := toWindowsPass_append delim [] 0 false false src
    (alloc (toWindowsSize false false 0 src + 1) junk) le_rfl (by simp)
  obtain ⟨x, hx⟩ := drop_alloc_succ (toWindowsSize false false 0 src) junk
  simp only [List.nil_append, List.length_nil, Nat.sub_zero, hx] at hpass
  exact ⟨x, hpass⟩

/-- `convert_Path_to_windows32` on its buffer: the assert at line 217 holds, nothing is stored
    outside the buffer, and the buffer holds the list model's result and its NUL. -/
theorem convertPathToWindows32Buf_eq (junk : Nat → Char) (path : List Char) (delim : Char) :
    convertPathToWindows32Buf junk path delim =
      .ok ((convertPathToWindows32 path delim).map (· ++ [nul])) := by
  unfold convertPathToWindows32Buf convertPathToWindows32
  cases path.dropWhile isBlank with
  | nil => rfl
  | cons c src =>
    by_cases hc : c = nul
    · simp [hc]
    · obtain ⟨x, hpass⟩ := toWindowsPass_alloc junk delim (c :: src)
      have hlen := length_toWindowsLoop delim [] 0 false false (c :: src) le_rfl
      rw [List.length_nil] at hlen
      simp only [if_neg hc]
      rw [hpass, ok_bind]
      dsimp only
      rw [beq_self_eq_true, assert_true, ok_bind, ← hlen, store_append]
      rfl

/-! ## `convert_vpath_from_windows32` -/

/-- Lines 97-98 and 115-116: `while (tgt > cpath && ISBLANK (*(tgt - 1))) tgt--;` on the buffer
    `b`, from the offset `tgt`. -/
def trimBlanks (b : List Char) : Nat → Except Fault Nat
  | 0 => pure 0
  | tgt + 1 => do
    let c ← load b tgt
    if isBlank c then trimBlanks b tgt else pure (tgt + 1)

/-- Lines 100-101: `while (ISBLANK (*(src + 1))) src++;` with `c` the byte at `src` and `src` the
    bytes after it: the byte `src` stops at, and the bytes after that one. -/
def skipBlanksBehind (c : Char) : List Char → Char × List Char
  | [] => (c, [])
  | d :: src => if isBlank d then skipBlanksBehind d src else (c, d :: src)

/-- Lines 108-111: after the byte `c` the next byte is escaped when `c` is a backslash outside
    quotes that is not itself escaped. -/
def nextEscaped (instring isescaped : Bool) (c : Char) : Bool :=
  if !instring && c = '\\' then !isescaped else false

theorem skipBlanksBehind_snd (c : Char) (src : List Char) :
    (skipBlanksBehind c src).2 = src.dropWhile isBlank := by
  induction src generalizing c with
  | nil => rfl
  | cons d src ih => by_cases hd : isBlank d <;> simp [skipBlanksBehind, hd, ih]

theorem length_skipBlanksBehind_le (c : Char) (src : List Char) :
    (skipBlanksBehind c src).2.length ≤ src.length := by
  rw [skipBlanksBehind_snd]
  exact (List.dropWhile_sublist _).length_le

/-- The conversion loop of lines 86-113 of `convert_vpath_from_windows32` on the buffer `b`,
    with `tgt` the offset of the next byte: the buffer and the final `tgt`. -/
def fromWindowsPass (delim : Char) (delimFound : Bool) (b : List Char) (tgt : Nat)
    (instring isescaped : Bool) : List Char → Except Fault (List Char × Nat)
  | [] => pure (b, tgt)
  | c :: src =>
    if c = nul then pure (b, tgt)
    else if c = '"' then
      fromWindowsPass delim delimFound b tgt (!instring) (nextEscaped (!instring) false c) src
    else if isBlank c && !isescaped && (instring || delimFound) then do
      let b ← store b tgt '\\'
      let b ← store b (tgt + 1) ' '
      fromWindowsPass delim delimFound b (tgt + 2) instring (nextEscaped instring isescaped c) src
    else if c == delim && !instring then do
      let tgt ← trimBlanks b tgt
      let b ← store b tgt ' '
      fromWindowsPass delim delimFound b (tgt + 1) instring
        (nextEscaped instring isescaped (skipBlanksBehind c src).1) (skipBlanksBehind c src).2
    else do
      let b ← store b tgt c
      fromWindowsPass delim delimFound b (tgt + 1) instring (nextEscaped instring isescaped c) src
termination_by src => src.length
decreasing_by
  all_goals simp_wf
  all_goals first
    | omega
    | exact Nat.lt_succ_of_le (length_skipBlanksBehind_le _ _)

/-- `convert_vpath_from_windows32 (Path, delim)` on the bytes of its buffer, allocated with the
    bytes `junk` gives: the buffer it returns, or `none` (`NULL`) for a blank `Path`. -/
def convertVpathFromWindows32Buf (junk : Nat → Char) (path : List Char) (delim : Char) :
    Except Fault (Option (List Char)) :=
  match path.dropWhile isBlank with
  | [] => pure none
  | c :: src =>
    if c = nul then pure none
    else do
      let (size, delimFound) := dryRun delim false (c :: src)
      let (b, tgt) ← fromWindowsPass delim delimFound (alloc (size + 1) junk) 0 false false
        (c :: src)
      assert (decide (tgt ≤ size)) 114
      let tgt ← trimBlanks b tgt
      let b ← store b tgt nul
      pure (some b)

/-! ### The dry run and the list model -/

theorem fst_dryRun_cons (delim : Char) (instring : Bool) {c : Char} (src : List Char)
    (hc : c ≠ nul) :
    (dryRun delim instring (c :: src)).1 =
      (dryRun delim (if c = '"' then !instring else instring) src).1 +
        if isBlank c then 2 else 1 := by
  rw [dryRun, if_neg hc]

/-- The count of the dry run does not depend on the quotes. -/
theorem fst_dryRun_eq (delim : Char) (instring instring' : Bool) (src : List Char) :
    (dryRun delim instring src).1 = (dryRun delim instring' src).1 := by
  induction src generalizing instring instring' with
  | nil => rfl
  | cons c src ih =>
    by_cases hc : c = nul
    · subst hc; rfl
    · rw [fst_dryRun_cons _ _ _ hc, fst_dryRun_cons _ _ _ hc,
        ih _ (if c = '"' then !instring' else instring')]

theorem fst_dryRun_cons_self (delim : Char) (instring : Bool) {c : Char} (src : List Char)
    (hc : c ≠ nul) :
    (dryRun delim instring (c :: src)).1 =
      (dryRun delim instring src).1 + if isBlank c then 2 else 1 := by
  rw [fst_dryRun_cons _ _ _ hc, fst_dryRun_eq delim _ instring src]

/-- Every byte before the NUL counts. -/
theorem fst_dryRun_lt_cons (delim : Char) (instring : Bool) {c : Char} (src : List Char)
    (hc : c ≠ nul) : (dryRun delim instring src).1 < (dryRun delim instring (c :: src)).1 := by
  rw [fst_dryRun_cons_self _ _ _ hc]
  split <;> omega

theorem fst_dryRun_dropWhile_le (delim : Char) (instring : Bool) (src : List Char) :
    (dryRun delim instring (src.dropWhile isBlank)).1 ≤ (dryRun delim instring src).1 := by
  induction src with
  | nil => exact le_rfl
  | cons d src ih =>
    by_cases hd : isBlank d
    · have hn : d ≠ nul := by rintro rfl; simp at hd
      rw [List.dropWhile_cons_of_pos hd, fst_dryRun_cons_self _ _ _ hn]
      omega
    · rw [List.dropWhile_cons_of_neg hd]

theorem nextEscaped_of_isBlank (instring isescaped : Bool) {c : Char} (hc : isBlank c) :
    nextEscaped instring isescaped c = false := by
  have : c ≠ '\\' := by rintro rfl; simp [isBlank] at hc
  simp [nextEscaped, this]

/-- The blanks the loop skips one by one after a delimiter are those the inner `while` of the
    source skips at once. -/
theorem convertLoop_skipBlanksBehind (delim : Char) (delimFound : Bool) (tgt : List Char)
    (instring isescaped : Bool) (c : Char) (src : List Char) :
    convertLoop delim delimFound tgt instring (nextEscaped instring isescaped c) true src =
      convertLoop delim delimFound tgt instring
        (nextEscaped instring isescaped (skipBlanksBehind c src).1) false
        (skipBlanksBehind c src).2 := by
  induction src generalizing c with
  | nil => simp [skipBlanksBehind, convertLoop]
  | cons d src ih =>
    by_cases hd : isBlank d
    · have hn : d ≠ nul := by rintro rfl; simp at hd
      rw [skipBlanksBehind, if_pos hd, ← ih d, nextEscaped_of_isBlank _ _ hd, convertLoop,
        if_neg hn, if_pos (by simp [hd])]
    · rw [skipBlanksBehind, if_neg hd]
      exact convertLoop_skipping delim delimFound src (by simpa using hd)

/-- The list model writes at most the bytes the dry run counts. -/
theorem length_convertLoop_le (delim : Char) (delimFound : Bool) (tgt : List Char)
    (instring isescaped skipping : Bool) (src : List Char) :
    (convertLoop delim delimFound tgt instring isescaped skipping src).length ≤
      tgt.length + (dryRun delim instring src).1 := by
  induction tgt, instring, isescaped, skipping, src using convertLoop.induct delim delimFound with
  | case1 => simp [convertLoop, dryRun]
  | case2 => simp [convertLoop]
  | case3 tgt instring isescaped skipping c src hn hskip ih =>
    have := fst_dryRun_lt_cons delim instring src hn
    rw [convertLoop, if_neg hn, if_pos hskip]
    omega
  | case4 tgt instring isescaped skipping src hn hskip ih =>
    have := fst_dryRun_lt_cons delim instring src hn
    rw [fst_dryRun_eq delim _ instring] at ih
    rw [convertLoop, if_neg hn, if_neg hskip, if_pos rfl]
    omega
  | case5 tgt instring isescaped skipping c src hn hskip hq hesc ih =>
    have hb : isBlank c := by simp_all
    rw [convertLoop, if_neg hn, if_neg hskip, if_neg hq, if_pos hesc,
      fst_dryRun_cons_self _ _ _ hn, if_pos hb]
    simp only [List.length_cons] at ih
    omega
  | case6 tgt instring isescaped skipping c src hn hskip hq hesc hdelim ih =>
    have := (List.dropWhile_sublist isBlank (l := tgt)).length_le
    have := fst_dryRun_lt_cons delim instring src hn
    rw [convertLoop, if_neg hn, if_neg hskip, if_neg hq, if_neg hesc, if_pos hdelim]
    simp only [List.length_cons] at ih
    omega
  | case7 tgt instring isescaped skipping c src hn hskip hq hesc hdelim ih =>
    have := fst_dryRun_lt_cons delim instring src hn
    rw [convertLoop, if_neg hn, if_neg hskip, if_neg hq, if_neg hesc, if_neg hdelim]
    simp only [List.length_cons] at ih
    omega

/-! ### The pass on the buffer -/

theorem trimBlanks_append (tgt : List Char) : ∀ r : List Char,
    trimBlanks (tgt.reverse ++ r) tgt.length = .ok (tgt.dropWhile isBlank).length := by
  induction tgt with
  | nil => intro r; rfl
  | cons x tgt ih =>
    intro r
    have hx := @load_append_cons tgt.reverse r x
    rw [List.length_reverse] at hx
    rw [List.reverse_cons, List.append_assoc, List.singleton_append, List.length_cons, trimBlanks,
      hx, ok_bind]
    by_cases hb : isBlank x
    · rw [if_pos hb, List.dropWhile_cons_of_pos hb]
      exact ih (x :: r)
    · rw [if_neg hb, List.dropWhile_cons_of_neg hb]
      rfl

/-- Taking back the blanks written last leaves them in the buffer, as room. -/
theorem reverse_append_eq_dropWhile (tgt r : List Char) :
    tgt.reverse ++ r =
      (tgt.dropWhile isBlank).reverse ++ ((tgt.takeWhile isBlank).reverse ++ r) := by
  calc tgt.reverse ++ r = (tgt.takeWhile isBlank ++ tgt.dropWhile isBlank).reverse ++ r := by
        rw [List.takeWhile_append_dropWhile]
    _ = _ := by rw [List.reverse_append, List.append_assoc]

/-- A byte stored after the written part `tgt.reverse`, where there is room. -/
theorem store_reverse_room {t r : List Char} {c : Char} (hr : 0 < r.length) :
    ∃ x r', r = x :: r' ∧ store (t.reverse ++ r) t.length c = .ok ((c :: t).reverse ++ r') := by
  obtain ⟨x, r', hr', hst⟩ := store_room (w := t.reverse) (r := r) (c := c) hr
  exact ⟨x, r', hr', by simpa using hst⟩

/-- The pass of `convert_vpath_from_windows32` on a buffer holding the bytes `out` (the list
    model keeps them last first) before the room `r` writes what `convertLoop` writes, when the
    room covers the count of the dry run; what it leaves of the room makes up the rest of the
    buffer. -/
theorem fromWindowsPass_append (delim : Char) (delimFound : Bool) (b : List Char) (tgt : Nat)
    (instring isescaped : Bool) (src : List Char) :
    ∀ out r : List Char, b = out.reverse ++ r → tgt = out.length →
      (dryRun delim instring src).1 ≤ r.length →
      ∃ r', (convertLoop delim delimFound out instring isescaped false src).length + r'.length =
          out.length + r.length ∧
        fromWindowsPass delim delimFound b tgt instring isescaped src =
          .ok ((convertLoop delim delimFound out instring isescaped false src).reverse ++ r',
            (convertLoop delim delimFound out instring isescaped false src).length) := by
  induction b, tgt, instring, isescaped, src using fromWindowsPass.induct delim delimFound with
  | case1 b tgt instring isescaped =>
    intro out r hb ht _
    subst hb ht
    exact ⟨r, rfl, by simp [fromWindowsPass, convertLoop]⟩
  | case2 b tgt instring isescaped src =>
    intro out r hb ht _
    subst hb ht
    exact ⟨r, by simp [convertLoop], by simp [fromWindowsPass, convertLoop]⟩
  | case3 b tgt instring isescaped src hn ih =>
    intro out r hb ht hr
    have hfalse : nextEscaped (!instring) false '"' = false := by simp [nextEscaped]
    rw [fst_dryRun_cons_self _ _ _ hn, fst_dryRun_eq delim _ (!instring)] at hr
    rw [hfalse] at ih
    obtain ⟨r', hlen, hpass⟩ := ih out r hb ht (by omega)
    have hloop : convertLoop delim delimFound out instring isescaped false ('"' :: src) =
        convertLoop delim delimFound out (!instring) false false src := by
      rw [convertLoop, if_neg hn, if_neg (by simp), if_pos rfl]
    rw [hloop, fromWindowsPass, if_neg hn, if_pos rfl, hfalse]
    exact ⟨r', hlen, hpass⟩
  | case4 b tgt instring isescaped c src hn hq hesc ih =>
    intro out r hb ht hr
    subst hb ht
    have hblank : isBlank c := by simp_all
    rw [fst_dryRun_cons_self _ _ _ hn, if_pos hblank] at hr
    obtain ⟨x, r₁, rfl, hst₁⟩ := store_reverse_room (t := out) (r := r) (c := '\\') (by omega)
    simp only [List.length_cons] at hr
    obtain ⟨y, r₂, rfl, hst₂⟩ :=
      store_reverse_room (t := '\\' :: out) (r := r₁) (c := ' ') (by omega)
    rw [List.length_cons] at hst₂
    simp only [List.length_cons] at hr
    rw [nextEscaped_of_isBlank _ _ hblank] at ih
    obtain ⟨r', hlen, hpass⟩ := ih _ (' ' :: '\\' :: out) r₂ rfl (by simp) (by omega)
    have hloop : convertLoop delim delimFound out instring isescaped false (c :: src) =
        convertLoop delim delimFound (' ' :: '\\' :: out) instring false false src := by
      rw [convertLoop, if_neg hn, if_neg (by simp), if_neg hq, if_pos hesc]
    rw [hloop, fromWindowsPass, if_neg hn, if_neg hq, if_pos hesc, hst₁, ok_bind, hst₂, ok_bind,
      nextEscaped_of_isBlank _ _ hblank]
    simp only [List.length_cons] at hlen ⊢
    exact ⟨r', by omega, hpass⟩
  | case5 b tgt instring isescaped c src hn hq hesc hdelim ih =>
    intro out r hb ht hr
    subst hb ht
    have hin : instring = false := by simp_all
    have hlt := fst_dryRun_lt_cons delim instring src hn
    have hdw := fst_dryRun_dropWhile_le delim instring src
    have hsplit := congrArg List.length (List.takeWhile_append_dropWhile isBlank out)
    rw [List.length_append] at hsplit
    obtain ⟨x, R, hR, hst⟩ := store_reverse_room (t := out.dropWhile isBlank)
      (r := (out.takeWhile isBlank).reverse ++ r) (c := ' ') (by simp; omega)
    have hRlen := congrArg List.length hR
    simp only [List.length_append, List.length_reverse, List.length_cons] at hRlen
    obtain ⟨r', hlen, hpass⟩ := ih (out.dropWhile isBlank).length _
      (' ' :: out.dropWhile isBlank) R rfl (by simp)
      (by rw [skipBlanksBehind_snd]; omega)
    have hloop : convertLoop delim delimFound out instring isescaped false (c :: src) =
        convertLoop delim delimFound (' ' :: out.dropWhile isBlank) instring
          (nextEscaped instring isescaped (skipBlanksBehind c src).1) false
          (skipBlanksBehind c src).2 := by
      rw [convertLoop, if_neg hn, if_neg (by simp), if_neg hq, if_neg hesc, if_pos hdelim,
        ← convertLoop_skipBlanksBehind, hin]
      simp [nextEscaped]
    rw [hloop, fromWindowsPass, if_neg hn, if_neg hq, if_neg hesc, if_pos hdelim,
      trimBlanks_append, ok_bind, reverse_append_eq_dropWhile, hst, ok_bind]
    simp only [List.length_cons] at hlen
    exact ⟨r', by omega, hpass⟩
  | case6 b tgt instring isescaped c src hn hq hesc hdelim ih =>
    intro out r hb ht hr
    subst hb ht
    have hlt := fst_dryRun_lt_cons delim instring src hn
    obtain ⟨x, R, rfl, hst⟩ := store_reverse_room (t := out) (r := r) (c := c) (by omega)
    simp only [List.length_cons] at hr
    obtain ⟨r', hlen, hpass⟩ := ih _ (c :: out) R rfl (by simp) (by omega)
    have hloop : convertLoop delim delimFound out instring isescaped false (c :: src) =
        convertLoop delim delimFound (c :: out) instring (nextEscaped instring isescaped c) false
          src := by
      rw [convertLoop, if_neg hn, if_neg (by simp), if_neg hq, if_neg hesc, if_neg hdelim]
      rfl
    rw [hloop, fromWindowsPass, if_neg hn, if_neg hq, if_neg hesc, if_neg hdelim, hst, ok_bind]
    simp only [List.length_cons] at hlen ⊢
    exact ⟨r', by omega, hpass⟩

/-- The pass of `convert_vpath_from_windows32` on the buffer of `size + 1` bytes writes the
    bytes of the list model, and leaves the rest of the buffer after them. -/
theorem fromWindowsPass_alloc (junk : Nat → Char) (delim : Char) (src : List Char) :
    ∃ r, (convertLoop delim (dryRun delim false src).2 [] false false false src).length +
        r.length = (dryRun delim false src).1 + 1 ∧
      fromWindowsPass delim (dryRun delim false src).2
          (alloc ((dryRun delim false src).1 + 1) junk) 0 false false src =
        .ok ((convertLoop delim (dryRun delim false src).2 [] false false false src).reverse ++ r,
          (convertLoop delim (dryRun delim false src).2 [] false false false src).length) := by
  obtain ⟨r, hlen, hpass⟩ := fromWindowsPass_append delim (dryRun delim false src).2
    (alloc ((dryRun delim false src).1 + 1) junk) 0 false false src [] _ rfl rfl (by simp)
  exact ⟨r, by simpa using hlen, hpass⟩

/-- `convert_vpath_from_windows32` on its buffer: the assert at line 114 holds, nothing is
    stored outside the buffer, and the buffer holds the list model's result and its NUL, with
    what the trimmed blanks and the unused bytes left after it. -/
theorem convertVpathFromWindows32Buf_eq (junk : Nat → Char) (path : List Char) (delim : Char) :
    ∃ rest, convertVpathFromWindows32Buf junk path delim =
      .ok ((convertVpathFromWindows32 path delim).map (· ++ nul :: rest)) := by
  unfold convertVpathFromWindows32Buf convertVpathFromWindows32
  cases path.dropWhile isBlank with
  | nil => exact ⟨[], rfl⟩
  | cons c src =>
    by_cases hc : c = nul
    · exact ⟨[], by simp [hc]⟩
    · obtain ⟨r, hlen, hpass⟩ := fromWindowsPass_alloc junk delim (c :: src)
      have hle := length_convertLoop_le delim (dryRun delim false (c :: src)).2 [] false false false
        (c :: src)
      rw [List.length_nil, Nat.zero_add] at hle
      simp only [if_neg hc]
      rw [hpass, ok_bind]
      dsimp only
      rw [decide_eq_true hle, assert_true, ok_bind, trimBlanks_append, ok_bind,
        reverse_append_eq_dropWhile]
      obtain ⟨x, R, _, hst⟩ := store_reverse_room
        (t := (convertLoop delim (dryRun delim false (c :: src)).2 [] false false false
          (c :: src)).dropWhile isBlank)
        (r := (List.takeWhile isBlank (convertLoop delim (dryRun delim false (c :: src)).2 [] false
          false false (c :: src))).reverse ++ r) (c := nul) (by simp; omega)
      rw [hst]
      exact ⟨R, by simp⟩

/-- Both conversions of w32/pathstuff.c fit their buffers, for every input: the pass of
    `convert_Path_to_windows32` writes exactly the size of its dry run and that of
    `convert_vpath_from_windows32` at most its size, so that the asserts at lines 217 and 114
    hold, and each function stores its NUL inside the `size + 1` bytes it allocated and returns
    the result of its list model. -/
theorem windowsConversions_fit_buffers (junk : Nat → Char) (delim : Char) (src path : List Char) :
    (∃ b, toWindowsPass delim (alloc (toWindowsSize false false 0 src + 1) junk) 0 0 false false
        src = .ok (b, toWindowsSize false false 0 src)) ∧
    (∃ b tgt, fromWindowsPass delim (dryRun delim false src).2
        (alloc ((dryRun delim false src).1 + 1) junk) 0 false false src = .ok (b, tgt) ∧
      tgt ≤ (dryRun delim false src).1) ∧
    convertPathToWindows32Buf junk path delim =
      .ok ((convertPathToWindows32 path delim).map (· ++ [nul])) ∧
    ∃ rest, convertVpathFromWindows32Buf junk path delim =
      .ok ((convertVpathFromWindows32 path delim).map (· ++ nul :: rest)) := by
  obtain ⟨x, hto⟩ := toWindowsPass_alloc junk delim src
  obtain ⟨r, _, hfrom⟩ := fromWindowsPass_alloc junk delim src
  have hle := length_convertLoop_le delim (dryRun delim false src).2 [] false false false src
  rw [List.length_nil, Nat.zero_add] at hle
  exact ⟨⟨_, hto⟩, ⟨_, _, hfrom, hle⟩, convertPathToWindows32Buf_eq junk path delim,
    convertVpathFromWindows32Buf_eq junk path delim⟩

end MakePlus
