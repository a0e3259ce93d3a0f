import MakePlus.Vpath.Construct

/-!
# The size of the array of directories

Before it parses a directory string, `construct_vpath_list` counts how many entries it can have,
`maxelem`, and allocates as many pointers: 2, one for the entry before the first separator and one
for the null pointer that ends the array, and one more for each separator and each blank that no
odd run of backslashes escapes. The counting loop carries the parity of the backslashes over the
whole string, the parse restarts it at each entry (`scanEntry`). They agree where an entry ends,
since an entry starts after a blank or a separator, or at the start of the string: the parity
only carries over a backslash, and a backslash that is a separator cannot start an entry.

* `scanEntry_stop`: the parse stops an entry at a NUL, a separator or a blank its parity leaves
  unescaped;
* `escapeAfter_entry`: both parities agree at the end of an entry;
* `length_entries_le`: the parse takes at most one entry more than the blanks and separators the
  counting loop counts.
-/

namespace MakePlus

/-- The loop of lines 228-238 from `maxelem`, with `isescaped` the parity of the backslashes just
    read: one more for each separator and each blank that no odd run of backslashes escapes, up to
    the end of the string. -/
def countLoop (pf : Platform) (isescaped : Bool) (maxelem : Nat) : List Char → Nat
  | [] => maxelem
  | c :: s =>
    if c = nul then maxelem
    else countLoop pf (if c = '\\' then !isescaped else false)
      (if (!isescaped && isBlank c) || c == pf.pathSeparatorChar then maxelem + 1 else maxelem) s

/-- `maxelem` for the directory string `dirpath`: the count from 2, over the string after the
    separators and blanks it starts with. -/
def maxelem (pf : Platform) (dirpath : List Char) : Nat :=
  countLoop pf false 2 (skipSeps pf dirpath)

/-- The parity of the backslashes at the end of each entry the parse takes from `s`: that of the
    counting loop, which runs over the whole string from `isescaped`, and that of the parse, which
    starts afresh with each entry. -/
def entryParities (pf : Platform) :
    (fuel : Nat) → (isescaped : Bool) → List Char → List (Bool × Bool)
  | 0, _, _ => []
  | fuel + 1, isescaped, s =>
    match s with
    | [] => []
    | c :: _ =>
      if c = nul then []
      else
        let n := scanEntry pf false 0 s
        (escapeAfter isescaped (s.take n), escapeAfter false (s.take n)) ::
          entryParities pf fuel
            (escapeAfter isescaped (s.take n ++ (s.drop n).takeWhile (isStop pf)))
            (skipSeps pf (s.drop n))

example : maxelem Platform.posix "a\\ b:c d".toList = 4 := by decide

/-! ## The counting loop -/

section Count

variable {pf : Platform}

theorem countLoop_eq_add (isescaped : Bool) (maxelem : Nat) (s : List Char) :
    countLoop pf isescaped maxelem s = maxelem + countLoop pf isescaped 0 s := by
  induction s generalizing isescaped maxelem with
  | nil => rfl
  | cons c s ih =>
    unfold countLoop
    split
    · rfl
    · rw [ih]
      conv_rhs => rw [ih]
      split <;> omega

theorem countLoop_append {isescaped : Bool} {maxelem : Nat} {v : List Char} (hv : nul ∉ v)
    (s : List Char) :
    countLoop pf isescaped maxelem (v ++ s) =
      countLoop pf (escapeAfter isescaped v) (countLoop pf isescaped maxelem v) s := by
  induction v generalizing isescaped maxelem with
  | nil => rfl
  | cons c v ih =>
    have hc : c ≠ nul := fun h => hv (h ▸ List.mem_cons_self c v)
    simp only [List.cons_append, countLoop, if_neg hc, escapeAfter_cons]
    exact ih fun h => hv (List.mem_cons_of_mem c h)

/-- A blank or separator the counting loop reads with a parity that does not escape it. -/
theorem countLoop_stop {isescaped : Bool} {t : Char} (ht : t ≠ nul)
    (hcount : ((!isescaped && isBlank t) || t == pf.pathSeparatorChar) = true) (s : List Char) :
    countLoop pf isescaped 0 (t :: s) =
      1 + countLoop pf (if t = '\\' then !isescaped else false) 0 s := by
  rw [countLoop, if_neg ht, if_pos hcount, countLoop_eq_add]

end Count

/-! ## Where an entry ends -/

section Entry

variable {pf : Platform}

/-- The parse stops an entry where `inEntry` fails, with the parity of the backslashes of the
    entry. -/
theorem scanEntry_stop (isescaped : Bool) (k : Nat) (s : List Char) :
    ∀ t ∈ (s.drop (scanEntry pf isescaped k s)).head?,
      inEntry pf (escapeAfter isescaped (s.take (scanEntry pf isescaped k s)))
        (k + scanEntry pf isescaped k s) t (s.drop (scanEntry pf isescaped k s + 1)) = false := by
  induction s generalizing isescaped k with
  | nil => simp
  | cons c cs ih =>
    unfold scanEntry
    split
    · intro t ht
      have := ih _ (k + 1) t (by simpa using ht)
      simpa [Nat.add_assoc, Nat.add_comm 1] using this
    · rename_i h
      simpa using h

/-- An entry ends at a NUL, or at a separator or blank, which the counting loop counts when it
    reads it with the parity of the entry. -/
theorem terminator_counted {isescaped : Bool} {k : Nat} {t : Char} {cs : List Char}
    (h : inEntry pf isescaped k t cs = false) (ht : t ≠ nul) :
    isStop pf t = true ∧ ((!isescaped && isBlank t) || t == pf.pathSeparatorChar) = true := by
  have hne : (t != nul) = true := by simpa using ht
  rw [inEntry, hne, Bool.true_and] at h
  by_cases hs : t = pf.pathSeparatorChar
  · simp [isStop, hs]
  · have hs' : (t != pf.pathSeparatorChar) = true := by simpa using hs
    rw [hs', Bool.true_or, Bool.true_and, Bool.or_eq_false_iff, Bool.not_eq_false'] at h
    simp [isStop, h.1, h.2]

/-- The parity after a string is set only when it ends in a backslash. -/
theorem getLast?_of_escapeAfter {isescaped : Bool} {s : List Char}
    (h : escapeAfter isescaped s = true) (hs : s ≠ []) : s.getLast? = some '\\' := by
  induction s using List.reverseRecOn with
  | nil => exact absurd rfl hs
  | append_singleton s c _ =>
    rw [escapeAfter_append, escapeAfter_cons, escapeAfter_nil] at h
    rw [List.getLast?_concat]
    by_cases hc : c = '\\' <;> simp_all

/-- Both parities agree at the end of an entry that starts with a character that stops nothing,
    unless it is a backslash read with the parity set. -/
theorem escapeAfter_entry {isescaped : Bool} {c : Char} (v : List Char)
    (he : isescaped = true → c ≠ '\\') :
    escapeAfter isescaped (c :: v) = escapeAfter false (c :: v) := by
  by_cases hc : c = '\\'
  · have : isescaped = false := by cases isescaped <;> simp_all
    subst this
    rfl
  · simp [hc]

/-- The parity at the start of the next entry: set only after a backslash that is a separator,
    which the entry cannot start with. -/
theorem fresh_next (isescaped : Bool) (v r : List Char)
    (hr : ∀ t ∈ r.head?, isStop pf t = true) :
    escapeAfter isescaped (v ++ r.takeWhile (isStop pf)) = true →
      ∀ c ∈ (skipSeps pf r).head?, c ≠ '\\' := by
  intro h c hc hback
  subst hback
  have hstop := isStop_head_skipSeps r '\\' hc
  cases r with
  | nil => simp [skipSeps] at hc
  | cons t r =>
    have ht := hr t rfl
    rw [List.takeWhile_cons_of_pos ht] at h
    have hlast := getLast?_of_escapeAfter h (by simp)
    have hmem : '\\' ∈ t :: r.takeWhile (isStop pf) := by
      rw [List.getLast?_append_of_ne_nil _ (List.cons_ne_nil _ _)] at hlast
      exact List.mem_of_getLast?_eq_some hlast
    have : isStop pf '\\' = true := by
      rcases List.mem_cons.mp hmem with h | h
      · exact h ▸ ht
      · exact List.mem_takeWhile_imp h
    simp_all

end Entry

section Skip

variable {pf : Platform}

/-- After an entry that ends at a blank or separator `t`, the parity of the counting loop at the
    next entry starts nothing with a backslash. -/
theorem fresh_after_stop {isescaped : Bool} {v r : List Char} {t : Char}
    (ht : isStop pf t = true)
    (hfresh : escapeAfter isescaped (v ++ (t :: r).takeWhile (isStop pf)) = true →
      ∀ d ∈ (skipSeps pf (t :: r)).head?, d ≠ '\\') :
    escapeAfter (if t = '\\' then !escapeAfter isescaped v else false) (r.takeWhile (isStop pf)) =
        true →
      ∀ d ∈ (skipSeps pf r).head?, d ≠ '\\' := by
  rw [List.takeWhile_cons_of_pos ht, escapeAfter_append, escapeAfter_cons, skipSeps,
    List.dropWhile_cons_of_pos ht] at hfresh
  exact hfresh

theorem entries_nul (fuel : Nat) (r : List Char) : entries pf fuel (nul :: r) = [] := by
  cases fuel <;> simp [entries]

theorem entries_nil (fuel : Nat) : entries pf fuel [] = [] := by
  cases fuel <;> rfl

end Skip

/-! ## One entry -/

section Round

variable {pf : Platform} (hsep : pf.pathSeparatorChar ≠ nul)
include hsep

theorem isStop_nul : isStop pf nul = false := by
  simp [isStop, Ne.symm hsep]

theorem nul_not_mem_takeWhile_isStop (r : List Char) :
    nul ∉ r.takeWhile (isStop pf) := fun h => by
  simpa [isStop_nul hsep] using List.mem_takeWhile_imp h

/-- The parse stops an entry at a NUL, at the end of the string, or at a blank or separator that
    the counting loop, at the parity of the entry, counts. -/
theorem entry_end {isescaped : Bool} {c : Char} (cs : List Char) (hc : c ≠ nul)
    (hs : isStop pf c = false) (he : isescaped = true → c ≠ '\\') :
    let n := scanEntry pf false 0 (c :: cs)
    let v := (c :: cs).take n
    escapeAfter isescaped v = escapeAfter false v ∧
      (escapeAfter isescaped (v ++ ((c :: cs).drop n).takeWhile (isStop pf)) = true →
        ∀ d ∈ (skipSeps pf ((c :: cs).drop n)).head?, d ≠ '\\') ∧
      ∀ t ∈ ((c :: cs).drop n).head?, t ≠ nul →
        isStop pf t = true ∧
          ((!escapeAfter false v && isBlank t) || t == pf.pathSeparatorChar) = true := by
  intro n v
  obtain ⟨m, hm⟩ : ∃ m, n = m + 1 := ⟨n - 1, by have := scanEntry_pos cs hc hs; omega⟩
  have hv : v = c :: cs.take m := by show (c :: cs).take n = _; rw [hm, List.take_succ_cons]
  have hagree : escapeAfter isescaped v = escapeAfter false v := hv ▸ escapeAfter_entry _ he
  have hstop : ∀ t ∈ ((c :: cs).drop n).head?, t ≠ nul →
      isStop pf t = true ∧
        ((!escapeAfter false v && isBlank t) || t == pf.pathSeparatorChar) = true :=
    fun t ht htn => terminator_counted (scanEntry_stop false 0 (c :: cs) t ht) htn
  refine ⟨hagree, fun h => ?_, hstop⟩
  generalize hr : (c :: cs).drop n = r at h hstop ⊢
  cases r with
  | nil => simp [skipSeps]
  | cons t r =>
    by_cases htn : t = nul
    · subst htn
      simp only [skipSeps, List.dropWhile_cons, isStop_nul hsep, Bool.false_eq_true, if_false,
        List.head?_cons, Option.mem_def, Option.some.injEq]
      rintro d rfl
      decide
    · refine fresh_next _ v (t :: r) (fun t' ht' => (hstop t' ht' ?_).1) h
      simp only [List.head?_cons, Option.mem_def, Option.some.injEq] at ht'
      exact ht' ▸ htn

/-- The blanks and separators between entries count at least nothing: the count over them and the
    next entry is at least that over the next entry. -/
theorem countLoop_skipSeps (isescaped : Bool) (r : List Char) :
    countLoop pf (escapeAfter isescaped (r.takeWhile (isStop pf))) 0 (skipSeps pf r) ≤
      countLoop pf isescaped 0 r := by
  conv_rhs => rw [← List.takeWhile_append_dropWhile (isStop pf) r]
  rw [countLoop_append (nul_not_mem_takeWhile_isStop hsep r),
    countLoop_eq_add _ (countLoop _ _ _ _)]
  exact Nat.le_add_left _ _

end Round

/-! ## The whole string -/

section Run

variable {pf : Platform} (hsep : pf.pathSeparatorChar ≠ nul)
include hsep

/-- The parse takes at most one entry more than the counting loop counts blanks and separators,
    from a string that starts an entry at a parity that does not escape a backslash there. -/
theorem length_entries_le (fuel : Nat) (isescaped : Bool) (s : List Char)
    (hs : ∀ c ∈ s.head?, isStop pf c = false)
    (he : isescaped = true → ∀ c ∈ s.head?, c ≠ '\\') :
    (entries pf fuel s).length ≤ countLoop pf isescaped 1 s := by
  induction fuel generalizing isescaped s with
  | zero => simp [entries]
  | succ fuel ih =>
    rcases s with _ | ⟨c, cs⟩
    · simp [entries]
    by_cases hc : c = nul
    · simp [entries, hc]
    obtain ⟨hagree, hfresh, hstop⟩ := entry_end hsep cs hc (hs c rfl) (he · c rfl)
    have hsplit := @countLoop_append pf isescaped 1 _
      (@nul_not_mem_take_scanEntry pf false 0 (c :: cs))
      ((c :: cs).drop (scanEntry pf false 0 (c :: cs)))
    rw [List.take_append_drop] at hsplit
    rw [entries, if_neg hc, List.length_cons, hsplit]
    generalize (c :: cs).take (scanEntry pf false 0 (c :: cs)) = v at *
    generalize (c :: cs).drop (scanEntry pf false 0 (c :: cs)) = r at *
    have h1 : 1 ≤ countLoop pf isescaped 1 v := by rw [countLoop_eq_add]; omega
    rw [countLoop_eq_add _ (countLoop _ _ _ _)]
    rcases r with _ | ⟨t, r⟩
    · simp only [skipSeps, List.dropWhile_nil, entries_nil, List.length_nil]
      omega
    by_cases ht : t = nul
    · subst ht
      rw [skipSeps, List.dropWhile_cons_of_neg (by simp [isStop_nul hsep]), entries_nul,
        List.length_nil]
      omega
    obtain ⟨htstop, hcount⟩ := hstop t rfl ht
    rw [← hagree] at hcount
    have hnext := ih _ (skipSeps pf r) (isStop_head_skipSeps r) (fresh_after_stop htstop hfresh)
    have hskip := countLoop_skipSeps hsep (if t = '\\' then !escapeAfter isescaped v else false) r
    rw [countLoop_eq_add] at hnext
    rw [countLoop_stop ht hcount, skipSeps, List.dropWhile_cons_of_pos htstop]
    unfold skipSeps at hnext hskip
    omega

/-- At the end of each entry the parse takes, the parity of the counting loop is that of the
    parse. -/
theorem entryParities_agree (fuel : Nat) (isescaped : Bool) (s : List Char)
    (hs : ∀ c ∈ s.head?, isStop pf c = false)
    (he : isescaped = true → ∀ c ∈ s.head?, c ≠ '\\') :
    ∀ x ∈ entryParities pf fuel isescaped s, x.1 = x.2 := by
  induction fuel generalizing isescaped s with
  | zero => simp [entryParities]
  | succ fuel ih =>
    rcases s with _ | ⟨c, cs⟩
    · simp [entryParities]
    by_cases hc : c = nul
    · simp [entryParities, hc]
    obtain ⟨hagree, hfresh, -⟩ := entry_end hsep cs hc (hs c rfl) (he · c rfl)
    rw [entryParities, if_neg hc]
    rintro x (_ | ⟨_, hx⟩)
    · exact hagree
    · exact ih _ _ (isStop_head_skipSeps _) hfresh x hx

end Run

theorem length_entryParities {pf : Platform} (fuel : Nat) (isescaped : Bool) (s : List Char) :
    (entryParities pf fuel isescaped s).length = (entries pf fuel s).length := by
  induction fuel generalizing isescaped s with
  | zero => rfl
  | succ fuel ih =>
    rcases s with _ | ⟨c, cs⟩
    · rfl
    · simp only [entryParities, entries]
      split <;> simp [ih]

/-! ## `maxelem` -/

/-- For every directory string, the parse stores at most `maxelem - 1` directories, so that the
    null pointer after them lands in the `maxelem` pointers allocated; and at the end of each
    entry it takes, the parity of the backslashes the counting loop reads there is that of the
    parse. -/
theorem length_searchpathOf_le_maxelem (pf : Platform) (hsep : pf.pathSeparatorChar ≠ nul)
    (dirpath : List Char) :
    2 ≤ maxelem pf dirpath ∧ (searchpathOf pf dirpath).length ≤ maxelem pf dirpath - 1 ∧
      (entryParities pf dirpath.length false (skipSeps pf dirpath)).length =
        (tokens pf dirpath).length ∧
      ∀ x ∈ entryParities pf dirpath.length false (skipSeps pf dirpath), x.1 = x.2 := by
  have hlen := length_entries_le hsep dirpath.length false (skipSeps pf dirpath)
    (isStop_head_skipSeps _) (by simp)
  have hfm : (searchpathOf pf dirpath).length ≤ (tokens pf dirpath).length :=
    List.length_filterMap_le _ _
  rw [countLoop_eq_add] at hlen
  unfold tokens at hfm
  refine ⟨?_, ?_, length_entryParities _ _ _,
    entryParities_agree hsep _ _ _ (isStop_head_skipSeps _) (by simp)⟩ <;>
  rw [maxelem, countLoop_eq_add] <;> omega

theorem length_searchpathOf_le_maxelem_escaped :
    Platform.posix.pathSeparatorChar ≠ nul ∧
      (2 ≤ maxelem Platform.posix "a\\ b:c d".toList ∧
        (searchpathOf Platform.posix "a\\ b:c d".toList).length ≤
          maxelem Platform.posix "a\\ b:c d".toList - 1 ∧
        (entryParities Platform.posix "a\\ b:c d".toList.length false
          (skipSeps Platform.posix "a\\ b:c d".toList)).length =
            (tokens Platform.posix "a\\ b:c d".toList).length ∧
        ∀ x ∈ entryParities Platform.posix "a\\ b:c d".toList.length false
          (skipSeps Platform.posix "a\\ b:c d".toList), x.1 = x.2) :=
  ⟨by decide, length_searchpathOf_le_maxelem Platform.posix (by decide) _⟩


end MakePlus
