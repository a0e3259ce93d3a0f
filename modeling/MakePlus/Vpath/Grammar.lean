import MakePlus.Vpath.Construct

/-!
# The grammar of a POSIX search path

A directory string of the POSIX build is a list of entries separated by delimiters: a `:`, or a
blank not preceded by an odd run of backslashes (a backslash escapes a blank, and two backslashes
are one). The tokens of a string are its maximal non-empty segments between delimiters
(`posixTokens`, through `List.splitOnP`); the directories of a search path are the tokens, each
without one trailing slash unless it is `/`, and without `.` (`posixDirs`).

The parse of `construct_vpath_list` carries the parity of the backslashes it has just read
(`isescaped`) from one character to the next and resets it at the start of each entry, and the
loops between entries skip separators and blanks. The declarative reading counts the backslashes
that precede each blank (`oddBackslashes`); the two agree because the parity of a prefix only
changes with the character added to it (`oddBackslashes_append_singleton`), and a delimiter is
never a backslash.

* `entries_posix`: the entries of the parse are the tokens;
* `constructVpathList_posix`: `construct_vpath_list` creates a search path exactly when a
  directory is left, with exactly those directories, in order, and the greatest of their lengths
  as `maxlen`.
-/

namespace MakePlus

/-- Whether the backslashes that end `pre` are an odd run. -/
def oddBackslashes (pre : List Char) : Bool :=
  (pre.reverse.takeWhile (· == '\\')).length % 2 == 1

/-- Whether `c`, after `pre`, delimits the entries of a POSIX search path: a `:`, or a blank not
    preceded by an odd run of backslashes. -/
def isDelim (pre : List Char) (c : Char) : Bool := c == ':' || (isBlank c && !oddBackslashes pre)

/-- The characters of `s`, after `pre`, each with whether it delimits. -/
def delimiters (pre : List Char) : List Char → List (Char × Bool)
  | [] => []
  | c :: cs => (c, isDelim pre c) :: delimiters (pre ++ [c]) cs

/-- The maximal non-empty segments of `l` between the characters marked as delimiters. -/
def segs (l : List (Char × Bool)) : List (List Char) :=
  ((l.splitOnP (·.2)).filter fun seg => !seg.isEmpty).map (·.map Prod.fst)

/-- The tokens of a POSIX search path. -/
def posixTokens (s : List Char) : List (List Char) := segs (delimiters [] s)

/-- A token without one trailing slash, unless it is `/`. -/
def stripToken (t : List Char) : List Char :=
  if 1 < t.length ∧ t.getLast? = some '/' then t.dropLast else t

/-- The directories of a POSIX search path: its tokens, stripped, but `.`. -/
def posixDirs (s : List Char) : List (List Char) :=
  ((posixTokens s).map stripToken).filter (· != ['.'])

/-! ## Delimiters -/

theorem succ_mod_two_beq_one (n : Nat) : ((n + 1) % 2 == 1) = !(n % 2 == 1) := by
  rcases Nat.mod_two_eq_zero_or_one n with h | h <;> simp [h, Nat.add_mod]

theorem oddBackslashes_append_singleton (pre : List Char) (c : Char) :
    oddBackslashes (pre ++ [c]) = (c == '\\' && !oddBackslashes pre) := by
  by_cases hc : c = '\\'
  · subst hc
    simp only [oddBackslashes, List.reverse_append, List.reverse_singleton, List.singleton_append,
      List.takeWhile_cons_of_pos (show ('\\' == '\\') = true from rfl), List.length_cons,
      beq_self_eq_true, Bool.true_and]
    exact succ_mod_two_beq_one _
  · simp [oddBackslashes, List.takeWhile_cons, hc]

theorem oddBackslashes_append_singleton_of_ne {c : Char} (hc : c ≠ '\\') (pre : List Char) :
    oddBackslashes (pre ++ [c]) = false := by
  simp [oddBackslashes_append_singleton, hc]

theorem delimiters_append (pre xs ys : List Char) :
    delimiters pre (xs ++ ys) = delimiters pre xs ++ delimiters (pre ++ xs) ys := by
  induction xs generalizing pre with
  | nil => simp [delimiters]
  | cons c xs ih => simp [delimiters, ih]

/-- The delimiters after `pre` depend on `pre` only through the parity of its last backslashes. -/
theorem delimiters_congr {pre pre' : List Char} (h : oddBackslashes pre = oddBackslashes pre')
    (s : List Char) : delimiters pre s = delimiters pre' s := by
  induction s generalizing pre pre' with
  | nil => rfl
  | cons c cs ih =>
    have h' : oddBackslashes (pre ++ [c]) = oddBackslashes (pre' ++ [c]) := by
      simp [oddBackslashes_append_singleton, h]
    simp only [delimiters, isDelim, h, ih h']

@[simp] theorem map_fst_delimiters (pre s : List Char) : (delimiters pre s).map Prod.fst = s := by
  induction s generalizing pre with
  | nil => rfl
  | cons c cs ih => simp [delimiters, ih]

theorem delimiters_ne_nil {pre s : List Char} (hs : s ≠ []) : delimiters pre s ≠ [] :=
  fun h => hs (by simpa [h] using (map_fst_delimiters pre s).symm)

theorem eq_of_isStop_posix {c : Char} (h : isStop Platform.posix c = true) :
    c = ' ' ∨ c = '\t' ∨ c = ':' := by
  simpa [isStop, isBlank, Platform.posix, or_assoc] using h

theorem ne_backslash_of_isStop_posix {c : Char} (h : isStop Platform.posix c = true) :
    c ≠ '\\' := by
  rcases eq_of_isStop_posix h with rfl | rfl | rfl <;> decide

/-- A run of separators and blanks after an even run of backslashes is all delimiters, and ends on
    an even run. -/
theorem delimiters_stops (pre xs : List Char)
    (hx : ∀ c ∈ xs, isStop Platform.posix c = true) (hp : oddBackslashes pre = false) :
    (∀ x ∈ delimiters pre xs, x.2 = true) ∧ oddBackslashes (pre ++ xs) = false := by
  induction xs generalizing pre with
  | nil => simpa [delimiters] using hp
  | cons c xs ih =>
    have hc := hx c (List.mem_cons_self c xs)
    obtain ⟨h₁, h₂⟩ := ih (pre ++ [c]) (fun c' h => hx c' (List.mem_cons_of_mem c h))
      (oddBackslashes_append_singleton_of_ne (ne_backslash_of_isStop_posix hc) pre)
    refine ⟨?_, by simpa using h₂⟩
    simp only [delimiters, List.mem_cons, forall_eq_or_imp]
    refine ⟨?_, h₁⟩
    rcases eq_of_isStop_posix hc with rfl | rfl | rfl <;> simp [isDelim, isBlank, hp]

/-! ## Segments -/

theorem segs_nil : segs [] = [] := rfl

theorem segs_cons_of_delim {x : Char × Bool} (hx : x.2 = true) (l : List (Char × Bool)) :
    segs (x :: l) = segs l := by
  simp [segs, List.splitOnP_cons, hx]

theorem segs_append_of_delims {xs : List (Char × Bool)} (hx : ∀ x ∈ xs, x.2 = true)
    (l : List (Char × Bool)) : segs (xs ++ l) = segs l := by
  induction xs with
  | nil => rfl
  | cons x xs ih =>
    simp only [List.mem_cons, forall_eq_or_imp] at hx
    rw [List.cons_append, segs_cons_of_delim hx.1, ih hx.2]

/-- A non-empty segment without delimiters, ended by a delimiter or by the end, is a token. -/
theorem segs_append_of_segment {xs l : List (Char × Bool)} (hne : xs ≠ [])
    (hx : ∀ x ∈ xs, x.2 = false) (hl : ∀ y ∈ l.head?, y.2 = true) :
    segs (xs ++ l) = xs.map Prod.fst :: segs l := by
  have hx' : ∀ x ∈ xs, ¬ x.2 = true := fun x h => by simp [hx x h]
  cases l with
  | nil => simp [segs, List.splitOnP_eq_single _ _ hx', hne]
  | cons y r =>
    have hy : y.2 = true := hl y rfl
    rw [segs_cons_of_delim hy]
    simp [segs, List.splitOnP_first _ _ hx' y hy, hne]

/-! ## The parse -/

/-- In the POSIX build a character belongs to an entry exactly when it is not a delimiter. -/
theorem inEntry_posix {c : Char} (hc : c ≠ nul) (pre : List Char) (k : Nat) (cs : List Char) :
    inEntry Platform.posix (oddBackslashes pre) k c cs = !isDelim pre c := by
  have hc' : (c != nul) = true := by simpa using hc
  simp only [inEntry, isDelim, Platform.posix, hc', Bool.true_and, Bool.false_and, Bool.or_false]
  cases isBlank c <;> cases oddBackslashes pre <;> simp [bne]

/-- The scan of an entry stops at the first delimiter: what it takes has none, and what follows
    starts with one. -/
theorem scanEntry_posix (pre : List Char) {s : List Char} (hnul : nul ∉ s) (k : Nat) :
    let n := scanEntry Platform.posix (oddBackslashes pre) k s
    (∀ x ∈ delimiters pre (s.take n), x.2 = false) ∧
      ∀ y ∈ (delimiters (pre ++ s.take n) (s.drop n)).head?, y.2 = true := by
  induction s generalizing pre k with
  | nil => simp [scanEntry, delimiters]
  | cons c cs ih =>
    simp only [List.mem_cons, not_or] at hnul
    rw [scanEntry, inEntry_posix (Ne.symm hnul.1)]
    cases hd : isDelim pre c
    · have hesc : (if c = '\\' then !oddBackslashes pre else false) =
          oddBackslashes (pre ++ [c]) := by
        by_cases h : c = '\\' <;> simp [oddBackslashes_append_singleton, h]
      obtain ⟨h₁, h₂⟩ := ih (pre ++ [c]) hnul.2 (k + 1)
      simp only [Bool.not_false, ite_true, hesc, List.take_succ_cons, List.drop_succ_cons,
        delimiters, List.mem_cons, forall_eq_or_imp, hd, true_and]
      exact ⟨h₁, by simpa using h₂⟩
    · simp [delimiters, hd]

/-- A delimiter of the POSIX build is a separator or a blank. -/
theorem isStop_of_isDelim {pre : List Char} {d : Char} (hd : isDelim pre d = true) :
    isStop Platform.posix d = true := by
  revert hd; simp only [isDelim, isStop, Platform.posix]; cases isBlank d <;> simp_all

/-- What follows an entry, its delimiter and a run of separators and blanks, adds no token and
    leaves an even run of backslashes before the next entry. -/
theorem segs_delim_stops {pre : List Char} {d : Char} (hd : isDelim pre d = true)
    (ys zs : List Char) (hys : ∀ c ∈ ys, isStop Platform.posix c = true) :
    segs (delimiters pre (d :: (ys ++ zs))) = segs (delimiters (pre ++ [d] ++ ys) zs) ∧
      oddBackslashes (pre ++ [d] ++ ys) = false := by
  have hd' := ne_backslash_of_isStop_posix (isStop_of_isDelim hd)
  obtain ⟨hys', hp⟩ :=
    delimiters_stops (pre ++ [d]) ys hys (oddBackslashes_append_singleton_of_ne hd' _)
  refine ⟨?_, hp⟩
  rw [delimiters, hd, segs_cons_of_delim rfl, delimiters_append, segs_append_of_delims hys']

/-- The entries of the parse, from a string that starts after an even run of backslashes and on
    no separator or blank, are its tokens, and none of them has a delimiter of its own. -/
theorem entries_posix (fuel : Nat) (pre : List Char) {s : List Char} (hnul : nul ∉ s)
    (hlen : s.length ≤ fuel) (hpre : oddBackslashes pre = false)
    (hs : ∀ c ∈ s.head?, isStop Platform.posix c = false) :
    entries Platform.posix fuel s = segs (delimiters pre s) ∧
      ∀ v ∈ entries Platform.posix fuel s, ∀ x ∈ delimiters [] v, x.2 = false := by
  induction fuel generalizing pre s with
  | zero =>
    obtain rfl : s = [] := List.eq_nil_of_length_eq_zero (by omega)
    simp [entries, delimiters, segs_nil]
  | succ fuel ih =>
    cases s with
    | nil => simp [entries, delimiters, segs_nil]
    | cons c cs =>
      have hc : c ≠ nul := fun h => hnul (h ▸ List.mem_cons_self c cs)
      have hn := scanEntry_pos cs hc (hs c rfl)
      obtain ⟨h₁, h₂⟩ := scanEntry_posix pre hnul 0
      rw [hpre] at h₁ h₂
      simp only [entries, if_neg hc]
      generalize scanEntry Platform.posix false 0 (c :: cs) = n at hn h₁ h₂ ⊢
      set t := (c :: cs).take n
      have ht : t ≠ [] := by simp [t, List.take_eq_nil_iff, hn.ne']
      have hown : ∀ x ∈ delimiters [] t, x.2 = false := by
        rwa [delimiters_congr (show oddBackslashes [] = oddBackslashes pre by rw [hpre]; rfl)]
      have hsplit : c :: cs = t ++ (c :: cs).drop n := (List.take_append_drop n _).symm
      -- the entry is the first token
      have hfirst := segs_append_of_segment (delimiters_ne_nil ht) h₁ h₂
      rw [map_fst_delimiters, ← delimiters_append, ← hsplit] at hfirst
      cases hu : (c :: cs).drop n with
      | nil =>
        have hend : entries Platform.posix fuel [] = [] := by cases fuel <;> rfl
        rw [hu, delimiters, segs_nil] at hfirst
        rw [skipSeps, List.dropWhile_nil, hend, hfirst]
        simpa using hown
      | cons d r =>
        rw [hu] at h₂ hsplit hfirst
        have hd : isDelim (pre ++ t) d = true := by simpa [delimiters] using h₂
        -- after the entry: its delimiter, a run of separators and blanks, and the next entry
        set zs := r.dropWhile (isStop Platform.posix)
        have hskip : skipSeps Platform.posix (d :: r) = zs := by
          simp [skipSeps, List.dropWhile_cons, isStop_of_isDelim hd, zs]
        obtain ⟨hafter, hp⟩ := segs_delim_stops hd (r.takeWhile (isStop Platform.posix)) zs
          (fun x hx => List.mem_takeWhile_imp hx)
        rw [List.takeWhile_append_dropWhile] at hafter
        have hzs : nul ∉ zs := fun h => hnul (hsplit ▸ List.mem_append_right t
          (List.mem_cons_of_mem d ((List.dropWhile_sublist _).subset h)))
        have hzlen : zs.length ≤ fuel := by
          have h₁ := congrArg List.length hsplit
          have h₂ : zs.length ≤ r.length := (List.dropWhile_sublist _).length_le
          have h₃ : 0 < t.length := List.length_pos.mpr ht
          simp only [List.length_cons, List.length_append] at h₁ hlen
          omega
        obtain ⟨ih₁, ih₂⟩ := ih _ hzs hzlen hp (isStop_head_skipSeps r)
        rw [hskip]
        refine ⟨by rw [ih₁, hfirst, hafter], ?_⟩
        simp only [List.mem_cons, forall_eq_or_imp]
        exact ⟨hown, ih₂⟩

/-- The entries of a POSIX directory string are its tokens; none is empty or has a delimiter of
    its own. -/
theorem tokens_posix {s : List Char} (hnul : nul ∉ s) :
    tokens Platform.posix s = posixTokens s ∧
      ∀ v ∈ tokens Platform.posix s, v ≠ [] ∧ ∀ x ∈ delimiters [] v, x.2 = false := by
  set ys := s.takeWhile (isStop Platform.posix)
  set zs := s.dropWhile (isStop Platform.posix)
  obtain ⟨hys, hp⟩ := delimiters_stops [] ys (fun x hx => List.mem_takeWhile_imp hx) rfl
  rw [List.nil_append] at hp
  have hzs : nul ∉ zs := fun h => hnul ((List.dropWhile_sublist _).subset h)
  obtain ⟨h₁, h₂⟩ := entries_posix s.length ys hzs (List.dropWhile_sublist _).length_le hp
    (isStop_head_skipSeps s)
  refine ⟨?_, fun v hv => ⟨(entries_skipSeps _ _ v hv).1, h₂ v hv⟩⟩
  rw [tokens, skipSeps, h₁, posixTokens,
    ← List.takeWhile_append_dropWhile (isStop Platform.posix) s,
    delimiters_append, segs_append_of_delims hys, List.nil_append]

/-! ## The directories -/

theorem take_stripLen_posix (v : List Char) :
    v.take (stripLen Platform.posix v) = stripToken v := by
  unfold stripLen stripToken
  simp only [Platform.posix, Bool.false_eq_true, if_false, Bool.and_eq_true, decide_eq_true_eq,
    beq_iff_eq]
  split_ifs <;> simp [List.dropLast_eq_take]

/-- An entry cut to `m` characters, `m` at least one, is kept (`len > 1 || *v != '.'`) exactly
    when it is not `.`. -/
theorem keep_iff {v : List Char} {m : Nat} (h₁ : 0 < m) (hm : m ≤ v.length) :
    (decide (m > 1) || v.head? != some '.') = (v.take m != ['.']) := by
  obtain ⟨a, w, rfl⟩ := List.exists_cons_of_length_pos (by omega : 0 < v.length)
  rcases Nat.lt_or_ge 1 m with h | h
  · obtain ⟨b, w', hw⟩ := List.exists_cons_of_ne_nil
      (List.ne_nil_of_length_pos (by simp at hm ⊢; omega) : w.take (m - 1) ≠ [])
    obtain ⟨k, rfl⟩ : ∃ k, m = k + 1 := ⟨m - 1, by omega⟩
    simp_all
  · obtain rfl : m = 1 := by omega
    rw [Bool.eq_iff_iff]
    simp

theorem filterMap_keep_posix {l : List (List Char)} (hl : ∀ v ∈ l, v ≠ []) :
    l.filterMap (fun v => if stripLen Platform.posix v > 1 || v.head? != some '.' then
        some (v.take (stripLen Platform.posix v)) else none) =
      (l.map stripToken).filter (· != ['.']) := by
  induction l with
  | nil => rfl
  | cons v l ih =>
    simp only [List.mem_cons, forall_eq_or_imp] at hl
    rw [List.filterMap_cons, List.map_cons, List.filter_cons, ih hl.2,
      keep_iff (stripLen_pos hl.1) (stripLen_le v), take_stripLen_posix]
    by_cases h : stripToken v = ['.'] <;> simp [h]

/-- The directories `construct_vpath_list` puts on a POSIX search path. -/
theorem searchpathOf_posix {s : List Char} (hnul : nul ∉ s) :
    searchpathOf Platform.posix s = posixDirs s := by
  obtain ⟨h₁, h₂⟩ := tokens_posix hnul
  rw [searchpathOf, filterMap_keep_posix (fun v hv => (h₂ v hv).1), h₁, posixDirs]

/-- The directories of a POSIX directory string are not empty, not `.`, and have no delimiter of
    their own: no `:` and no blank that an odd run of backslashes does not escape. -/
theorem mem_posixDirs {s d : List Char} (hnul : nul ∉ s) (hd : d ∈ posixDirs s) :
    d ≠ [] ∧ d ≠ ['.'] ∧ ∀ x ∈ delimiters [] d, x.2 = false := by
  obtain ⟨-, h₂⟩ := tokens_posix hnul
  have hd' := hd
  rw [← searchpathOf_posix hnul] at hd'
  simp only [posixDirs, List.mem_filter, List.mem_map, bne_iff_ne, ne_eq] at hd
  obtain ⟨⟨t, ht, rfl⟩, hdot⟩ := hd
  rw [← (tokens_posix hnul).1] at ht
  refine ⟨(mem_searchpathOf hd').1, hdot, ?_⟩
  have hnd := (h₂ t ht).2
  unfold stripToken
  split
  · rw [← List.dropLast_append_getLast (List.ne_nil_of_length_pos (by omega : 0 < t.length)),
      delimiters_append] at hnd
    exact fun x hx => hnd x (List.mem_append_left _ hx)
  · exact hnd

theorem foldl_max_eq_or_mem (ds : List (List Char)) (m : Nat) :
    ds.foldl (fun m d => max m d.length) m = m ∨
      ∃ d ∈ ds, d.length = ds.foldl (fun m d => max m d.length) m := by
  induction ds generalizing m with
  | nil => simp
  | cons d ds ih =>
    rw [List.foldl_cons]
    rcases ih (max m d.length) with h | ⟨e, he, h⟩
    · rw [h]
      rcases le_total m d.length with hm | hm
      · exact .inr ⟨d, List.mem_cons_self _ _, (max_eq_right hm).symm⟩
      · exact .inl (max_eq_left hm)
    · exact .inr ⟨e, List.mem_cons_of_mem _ he, h⟩

theorem exists_length_eq_maxLength {ds : List (List Char)} (h : ds ≠ []) :
    ∃ d ∈ ds, d.length = maxLength ds := by
  obtain ⟨d, ds', rfl⟩ := List.exists_cons_of_ne_nil h
  rcases foldl_max_eq_or_mem ds' d.length with h' | ⟨e, he, h'⟩
  · exact ⟨d, by simp, by simp [maxLength, h']⟩
  · exact ⟨e, by simp [he], by simpa [maxLength] using h'⟩

/-- In the POSIX build `construct_vpath_list` creates a search path exactly when a directory is
    left; its directories are then those of `posixDirs`, in order, `maxlen` is the greatest of
    their lengths, and the pattern is as `find_percent` leaves it. No directory is empty or `.`,
    and none has a `:` or a blank not escaped by an odd run of backslashes. -/
theorem constructVpathList_posix (pattern dirpath : List Char) (isTargetPath : Bool)
    (vpaths : List Vpath) (hnul : nul ∉ dirpath) :
    (∀ d ∈ posixDirs dirpath, d ≠ [] ∧ d ≠ ['.'] ∧
      ∀ x ∈ delimiters [] d, x.2 = false) ∧
      ((posixDirs dirpath = [] ∧
          constructVpathList Platform.posix (.add pattern dirpath isTargetPath) vpaths = vpaths) ∨
        ∃ v, constructVpathList Platform.posix (.add pattern dirpath isTargetPath) vpaths =
            v :: vpaths ∧
          v.searchpath = posixDirs dirpath ∧
          (∀ d ∈ v.searchpath, d.length ≤ v.maxlen) ∧
          (∃ d ∈ v.searchpath, d.length = v.maxlen) ∧
          v.targetGoal = isTargetPath ∧ v.pattern = (findPercent pattern).1 ∧
          v.percent = (findPercent pattern).2) := by
  refine ⟨fun d hd => mem_posixDirs hnul hd, ?_⟩
  have hadd : addedVpath Platform.posix pattern dirpath isTargetPath =
      newVpath Platform.posix pattern dirpath isTargetPath := rfl
  rw [← searchpathOf_posix hnul]
  rcases newVpath_spec Platform.posix pattern dirpath isTargetPath
    with ⟨h₁, h₂⟩ | ⟨v, h₁, h₂⟩
  · exact .inl ⟨h₁, by simp [constructVpathList, hadd, h₂]⟩
  · refine .inr ⟨v, by simp [constructVpathList, hadd, h₁],
      h₂.1, fun e he => ?_, ?_, h₂.2.2⟩
    · exact h₂.2.1 ▸ le_maxLength he
    · exact h₂.2.1 ▸ exists_length_eq_maxLength v.searchpath_ne_nil

theorem constructVpathList_posix_src :
    (∀ d ∈ posixDirs "src:lib".toList, d ≠ [] ∧ d ≠ ['.'] ∧
      ∀ x ∈ delimiters [] d, x.2 = false) ∧
      ((posixDirs "src:lib".toList = [] ∧
          constructVpathList Platform.posix (.add ['%'] "src:lib".toList false) [] = []) ∨
        ∃ v, constructVpathList Platform.posix (.add ['%'] "src:lib".toList false) [] = [v] ∧
          v.searchpath = posixDirs "src:lib".toList ∧
          (∀ d ∈ v.searchpath, d.length ≤ v.maxlen) ∧
          (∃ d ∈ v.searchpath, d.length = v.maxlen) ∧
          v.targetGoal = false ∧ v.pattern = (findPercent ['%']).1 ∧
          v.percent = (findPercent ['%']).2) :=
  constructVpathList_posix _ _ _ _ (by decide)

end MakePlus
