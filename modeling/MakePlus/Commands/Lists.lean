import MakePlus.Commands.Bounds
import MakePlus.Commands.Target
import MakePlus.Commands.Dedup

/-!
# What the prerequisite lists hold

`set_file_variables` writes `$+` from the prerequisites as they are listed, then makes an
order-only prerequisite normal, in the `struct dep` entries themselves, when the same name is
also listed as a normal one (`MakePlus.Commands.Dedup`), and writes `$^`, `$?` and `$|` from the
first prerequisite of each name, with its flag as that loop leaves it.

`prereqListsSpec` says what the lists are meant to hold, with `E` the prerequisites the lists
take and `rep (n)` the first of them named `n`: `$+` the word of each normal one of `E`, in
order; `$^` the word of `rep (n)` for each name `n` with a normal prerequisite, in the order the
names first occur; `$?` those of them whose `rep (n)` changed (all of them with
`always_make_flag`); `$|` the word of `rep (n)` for each name all of whose prerequisites are
order-only. A word is the escaped name, or the escaped member of an archive member.

* `putListed_take`, `killLastSpace_cstr`: a word and its separator written at a cursor, and the
  last separator turned into the terminator, leave the words joined by single separators;
* `plusLoop_take`, `listLoop_take`: what the two loops write, for every order of repeated,
  order-only, archive and escaped names;
* `prereqLists_eq_spec`: whenever the code runs without a fault, the lists are those the law
  says. It does not always: the sizes are computed before the loop removing repeats, and `$?`
  can overflow its buffer (`prereqLists_upgrade_overflows`).

The entries keep the change: a second call of `set_file_variables` on the same file, as make
makes for a rule whose prerequisites are expanded a second time, sees the first prerequisite of
such a name as normal, and `$<` and `$+` change (`setFileVariables_second_call`).
-/

namespace MakePlus

/-! ## The law -/

/-- The word a list gives a prerequisite named `name` (`w (d)`): the escaped member of an
    archive member `lib(member)`, else the escaped name. -/
def listedWord (name : List Char) : List Char :=
  match arName name with
  | .ok true => escapeName (memberOf name)
  | _ => escapeName name

/-- The words of the prerequisites `ds`. -/
def wordsOf (ds : List Dep) : List (List Char) := ds.map fun d => listedWord d.name

/-- Words joined by single separators. -/
def joinWords (ws : List (List Char)) : List Char := [fileListSeparator].intercalate ws

/-- The first prerequisite of each name of `E`, in the order the names first occur (`rep (n)`
    for each name `n`), with `seen` the names before `E`. -/
def firstEntries (seen : List (List Char)) : List Dep → List Dep
  | [] => []
  | d :: E =>
    let rest := firstEntries (seen ++ [d.name]) E
    if d.name ∈ seen then rest else d :: rest

/-- Of the first prerequisites `reps` of their names, those `$^`, `$?` and `$|` take, with `E`
    the prerequisites the lists take: a name with a normal prerequisite goes to `$^`, and to `$?`
    when its first prerequisite changed (or with `always_make_flag`, `amf`); a name all of whose
    prerequisites are order-only goes to `$|`. -/
def repLists (amf : Bool) (E reps : List Dep) : List Dep × List Dep × List Dep :=
  (reps.filter fun d => !allOrderOnly E d.name,
    reps.filter fun d => !allOrderOnly E d.name && (d.changed || amf),
    reps.filter fun d => allOrderOnly E d.name)

/-- What `set_file_variables` is meant to define as `$+`, `$^`, `$?` and `$|` for the
    prerequisites `deps`, with `always_make_flag` set to `amf`. -/
def prereqListsSpec (amf : Bool) (deps : List Dep) : PrereqLists :=
  let E := listedDeps deps
  let reps := repLists amf E (firstEntries [] E)
  ⟨joinWords (wordsOf (E.filter fun d => !d.ignoreMtime)), joinWords (wordsOf reps.1),
    joinWords (wordsOf reps.2.1), joinWords (wordsOf reps.2.2)⟩

example : prereqListsSpec false libMemberDeps =
    ⟨"a\\ b m.o a\\ b".toList, "a\\ b m.o".toList, "a\\ b".toList, "c".toList⟩ := by
  decide

/-! ## A word in a buffer -/

/-- The member of an archive member, and the `)` the separator overwrites. -/
theorem arName_member {name : List Char} (h : arName name = .ok true) :
    (name.dropWhile (· != '(')).drop 1 = memberOf name ++ [')'] := by
  unfold arName at h
  split at h
  · cases h
  · cases h
  · rename_i i _ hfind
    dsimp only at h
    split_ifs at h with h₁
    · cases h
    simp only [Bool.or_eq_true, decide_eq_true_eq, not_or, ne_eq, not_not] at h₁
    rw [memberOf, (takeWhile_dropWhile_of_findIdx? hfind).2]
    obtain ⟨hlast, hlen⟩ := h₁
    match hp : name.drop i with
    | [] => rw [hp] at hlast; cases hlast
    | [x] => rw [hp] at hlen; cases hlen rfl
    | x :: y :: p =>
      rw [hp, List.getLast?_cons_cons] at hlast
      exact (List.dropLast_append_getLast? _ hlast).symm

/-- The name `listedName` gives, cut at its length `len`, is the word. -/
theorem listedName_word {name c : List Char} {len : Nat} (h : listedName name = .ok (c, len)) :
    (escapeName c).take len = listedWord name ∧ len = (listedWord name).length ∧
      len ≤ (escapeName c).length := by
  unfold listedName at h
  cases ha : arName name with
  | error e => rw [ha] at h; cases h
  | ok b =>
    rw [ha, ok_bind] at h
    cases b
    · simp only [Bool.false_eq_true, if_false, pure_eq_ok, Except.ok.injEq, Prod.mk.injEq] at h
      obtain ⟨rfl, rfl⟩ := h
      simp [listedWord, ha, length_escapeName]
    · simp only [if_true, pure_eq_ok, Except.ok.injEq, Prod.mk.injEq] at h
      obtain ⟨rfl, rfl⟩ := h
      have hesc : escapeName (memberOf name ++ [')']) = escapeName (memberOf name) ++ [')'] := by
        simp [escapeName, List.flatMap_append]
      rw [arName_member ha, ← length_escapeName, hesc]
      simp [listedWord, ha]

theorem nul_not_mem_listedWord {name : List Char} (h : nul ∉ name) : nul ∉ listedWord name := by
  unfold listedWord
  split
  · exact nul_not_mem_escapeName (nul_not_mem_of_sublist ((List.dropLast_sublist _).trans
      ((List.drop_sublist _ _).trans (List.dropWhile_sublist _))) h)
  · exact nul_not_mem_escapeName h

/-- The bytes of the words `ws`, each followed by a separator. -/
def sepBytes (ws : List (List Char)) : List Char := (ws.map (· ++ [fileListSeparator])).flatten

@[simp] theorem sepBytes_nil : sepBytes [] = [] := rfl

@[simp] theorem sepBytes_cons (w : List Char) (ws : List (List Char)) :
    sepBytes (w :: ws) = w ++ [fileListSeparator] ++ sepBytes ws := rfl

/-- Each word followed by a separator: the words joined by single separators, and one more. -/
theorem sepBytes_cons_eq (w : List Char) (ws : List (List Char)) :
    sepBytes (w :: ws) = joinWords (w :: ws) ++ [fileListSeparator] := by
  induction ws generalizing w with
  | nil => simp [joinWords]
  | cons w' ws ih => rw [sepBytes_cons, ih, joinWords, joinWords, intercalate_cons_cons]; simp

/-- A word and its separator written at `cp`, inside the buffer: the bytes before the new cursor
    are those before `cp` and the word. -/
theorem putListed_take {buf buf' name c : List Char} {cp cp' len : Nat}
    (hl : listedName name = .ok (c, len)) (hcp : cp ≤ buf.length)
    (h : putListed buf cp c len = .ok (buf', cp')) :
    cp' ≤ buf'.length ∧ buf'.take cp' = buf.take cp ++ sepBytes [listedWord name] := by
  obtain ⟨hword, hlen, hle⟩ := listedName_word hl
  rw [putListed, copyEscapedName_eq _ _ hcp] at h
  simp only [Bool.false_eq_true, if_false, bind_pure] at h
  obtain ⟨b₁, h₁, h⟩ := bind_eq_ok.1 h
  obtain ⟨b₂, h₂, h⟩ := bind_eq_ok.1 h
  cases h
  obtain ⟨hin₁, rfl⟩ := eq_of_memcpy_eq_ok h₁
  obtain ⟨hin₂, rfl⟩ := eq_of_store_eq_ok h₂
  have htake : (buf.take cp ++ escapeName c ++ buf.drop (cp + (escapeName c).length)).take
      (cp + len) = buf.take cp ++ listedWord name := by
    rw [List.append_assoc, List.take_append_eq_append_take,
      List.take_of_length_le (by rw [List.length_take]; omega),
      List.length_take_of_le hcp, Nat.add_sub_cancel_left, List.take_append_of_le_length hle, hword]
  refine ⟨by simp only [List.length_append, List.length_take, List.length_cons,
    List.length_drop] at hin₂ ⊢; omega, ?_⟩
  rw [List.take_append_eq_append_take, List.take_of_length_le (by rw [List.length_take]; omega),
    List.length_take_of_le (by omega), show cp + len + 1 - (cp + len) = 1 by omega, htake]
  simp

/-- The last separator of the words written before `cp`, turned into the terminator, leaves the
    words joined by single separators (nothing, for no word). -/
theorem killLastSpace_cstr {buf buf' : List Char} {cp : Nat} {ws : List (List Char)}
    (hws : ∀ w ∈ ws, nul ∉ w) (hcp : cp ≤ buf.length) (htake : buf.take cp = sepBytes ws)
    (h : killLastSpace buf cp = .ok buf') : cstr buf' = joinWords ws := by
  obtain ⟨hin, rfl⟩ := eq_of_store_eq_ok h
  have hlen : cp = (sepBytes ws).length := by rw [← htake, List.length_take_of_le hcp]
  cases ws with
  | nil =>
    simp only [sepBytes_nil, List.length_nil] at hlen
    subst hlen
    simp [cstr, nul]
    rfl
  | cons w ws =>
    have hjoin := sepBytes_cons_eq w ws
    have hnul : nul ∉ sepBytes (w :: ws) := by
      simp only [sepBytes, List.mem_flatten, List.mem_map, not_exists, not_and]
      rintro _ ⟨x, hx, rfl⟩ hmem
      rcases List.mem_append.1 hmem with h' | h'
      · exact hws x hx h'
      · simp [fileListSeparator, nul] at h'
    rw [hjoin] at hnul htake hlen
    simp only [List.length_append, List.length_singleton] at hlen
    have hprefix : buf.take (cp - 1) = joinWords (w :: ws) := by
      rw [← Nat.min_eq_left (Nat.sub_le cp 1), ← List.take_take, htake, hlen,
        Nat.add_sub_cancel,
        List.take_left' rfl]
    rw [if_pos (by omega), Nat.sub_add_cancel (by omega), hprefix,
      cstr_append_nul (fun h => hnul (List.mem_append_left _ h))]

/-! ## `$+` -/

/-- `$+`: the words of the normal prerequisites, written from `cp` on. -/
theorem plusLoop_take (amf : Bool) : ∀ (deps : List Dep) (buf : List Char) (cp ns : Nat)
    (r : List Char × Nat × Nat), cp ≤ buf.length → plusLoop amf deps buf cp ns = .ok r →
    r.2.1 ≤ r.1.length ∧ r.1.take r.2.1 = buf.take cp ++
      sepBytes (wordsOf (deps.filter Dep.normal))
  | [], buf, cp, ns, r, hcp, h => by
    cases h
    exact ⟨hcp, by simp [wordsOf]⟩
  | d :: deps, buf, cp, ns, r, hcp, h => by
    have hcond : (!d.ignoreMtime && !d.need2ndExpansion && !d.ignoreAutomaticVars) = d.normal := by
      simp [Dep.normal, Dep.skipped, Bool.and_assoc]
    rw [plusLoop, hcond] at h
    cases hn : d.normal
    · -- a prerequisite `$+` leaves out
      rw [hn, if_neg (by simp)] at h
      rw [List.filter_cons_of_neg (by simp [hn])]
      exact plusLoop_take amf deps buf cp ns r hcp h
    · -- a normal prerequisite: its word, then the rest
      rw [hn, if_pos rfl] at h
      obtain ⟨⟨c, len⟩, hl, h⟩ := bind_eq_ok.1 h
      obtain ⟨⟨buf₁, cp₁⟩, hput, h⟩ := bind_eq_ok.1 h
      obtain ⟨hcp₁, htake₁⟩ := putListed_take hl hcp hput
      obtain ⟨hr, htake⟩ := plusLoop_take amf deps buf₁ cp₁ _ r hcp₁ h
      refine ⟨hr, ?_⟩
      rw [htake, htake₁, List.filter_cons_of_pos hn]
      simp [wordsOf]

/-! ## `$^`, `$?` and `$|` -/

/-- The first prerequisite of each name from the `i`-th prerequisite on, the names before it
    being seen. -/
def repsFrom (deps : List Dep) (i : Nat) : List Dep :=
  firstEntries ((listedDeps (deps.take i)).map Dep.name) (listedDeps (deps.drop i))

theorem listedDeps_cons (d : Dep) (deps : List Dep) :
    listedDeps (d :: deps) = if d.skipped then listedDeps deps else d :: listedDeps deps := by
  cases h : d.skipped <;> simp [listedDeps, List.filter_cons, h]

section Reps

variable {deps : List Dep} {i : Nat} {d : Dep} (hd : deps[i]? = some d)
include hd

theorem drop_eq_cons_of_getElem? : deps.drop i = d :: deps.drop (i + 1) := by
  obtain ⟨hi, rfl⟩ := List.getElem?_eq_some_iff.1 hd
  exact List.drop_eq_getElem_cons hi

/-- A prerequisite the lists leave out, or a later one of a name seen, is no first one. -/
theorem repsFrom_skip
    (h : d.skipped = true ∨ d.name ∈ (listedDeps (deps.take i)).map Dep.name) :
    repsFrom deps i = repsFrom deps (i + 1) := by
  rw [repsFrom, repsFrom, drop_eq_cons_of_getElem? hd, take_succ_of_getElem? hd,
    listedDeps_append_singleton, listedDeps_cons]
  by_cases hs : d.skipped
  · simp [hs]
  · simp only [hs, Bool.false_eq_true, if_false, List.map_append, List.map_singleton]
    rw [firstEntries, if_pos (h.resolve_left hs)]

/-- The first prerequisite of a name the lists take. -/
theorem repsFrom_first (hs : d.skipped = false)
    (h : d.name ∉ (listedDeps (deps.take i)).map Dep.name) :
    repsFrom deps i = d :: repsFrom deps (i + 1) := by
  rw [repsFrom, repsFrom, drop_eq_cons_of_getElem? hd, take_succ_of_getElem? hd,
    listedDeps_append_singleton, listedDeps_cons]
  simp only [hs, Bool.false_eq_true, if_false, List.map_append, List.map_singleton]
  rw [firstEntries, if_neg h]

/-- A prerequisite the lists take is the first of its name when no name before is its name. -/
theorem firstIndex_eq_self_iff (hs : d.skipped = false) :
    firstIndex deps d.name = some i ↔ d.name ∉ (listedDeps (deps.take i)).map Dep.name := by
  have hi : i < deps.length := (List.getElem?_eq_some_iff.1 hd).1
  have hsplit : deps = deps.take i ++ d :: deps.drop (i + 1) := by
    rw [← drop_eq_cons_of_getElem? hd, List.take_append_drop]
  rw [← firstIndex_eq_none_iff]
  conv_lhs => rw [hsplit]
  rw [firstIndex, List.findIdx?_append, ← firstIndex, List.findIdx?_cons]
  simp only [hs, Bool.not_false, beq_self_eq_true, Bool.and_self, cond_true, Option.map_some',
    Nat.zero_add, List.length_take_of_le hi.le]
  cases hf : firstIndex (deps.take i) d.name with
  | none => simp
  | some j =>
    have := lt_of_firstIndex_eq_some hf
    simp only [List.length_take_of_le hi.le] at this
    simp only [Option.or_some, Option.some.injEq, reduceCtorEq, iff_false]
    omega

end Reps

theorem repsFrom_of_length_le {deps : List Dep} {i : Nat} (h : deps.length ≤ i) :
    repsFrom deps i = [] := by
  simp [repsFrom, List.drop_eq_nil_of_le h, listedDeps, firstEntries]

/-- What the three lists hold so far: the bytes before each cursor. -/
def ListCursor.written (k : ListCursor) : List Char × List Char × List Char :=
  (k.sources.take k.cp, k.newsources.take k.qp, k.orderonly.take k.bp)

/-- Each cursor is inside its buffer. -/
structure ListCursor.Inside (k : ListCursor) : Prop where
  sources : k.cp ≤ k.sources.length
  newsources : k.qp ≤ k.newsources.length
  orderonly : k.bp ≤ k.orderonly.length

section ListLoop

variable (amf : Bool) {deps deps' : List Dep} {table : List (List Char × Nat)}
  (hT : ∀ n, table.lookup n = firstIndex deps n)
  (hstrip : ∀ k : Nat, (deps'[k]?).map Dep.strip = (deps[k]?).map Dep.strip)
  (hrep : ∀ (j : Nat) (d : Dep), deps[j]? = some d → firstIndex deps d.name = some j →
    deps'[j]? = some { d with ignoreMtime := allOrderOnly (listedDeps deps) d.name })
include hT hstrip hrep

/-- The loop of lines 342-372 over the entries `deps'` the loop removing repeats leaves, from
    the `i`-th: each cursor moves over the words of the first prerequisites of the names its
    list takes. -/
theorem listLoop_take : ∀ (rest : List Dep) (i : Nat) (k k' : ListCursor), deps'.drop i = rest →
    k.Inside → listLoop amf table i rest k = .ok k' →
    k'.Inside ∧ k'.written =
      (k.written.1 ++ sepBytes (wordsOf (repLists amf (listedDeps deps) (repsFrom deps i)).1),
        k.written.2.1 ++ sepBytes (wordsOf (repLists amf (listedDeps deps) (repsFrom deps i)).2.1),
        k.written.2.2 ++ sepBytes (wordsOf (repLists amf (listedDeps deps) (repsFrom deps i)).2.2))
  | [], i, k, k', hrest, hk, h => by
    cases h
    have hlen : deps.length ≤ i := by
      have := hstrip i
      rw [List.getElem?_eq_none (List.drop_eq_nil_iff.1 hrest), Option.map_none', eq_comm,
        Option.map_eq_none'] at this
      exact List.getElem?_eq_none_iff.1 this
    simp [repsFrom_of_length_le hlen, repLists, wordsOf, hk]
  | d' :: rest, i, k, k', hrest, hk, h => by
    have hd' : deps'[i]? = some d' := by
      have := List.getElem?_drop deps' i 0
      rw [hrest, Nat.add_zero, List.getElem?_cons_zero] at this
      exact this.symm
    have hrest' : deps'.drop (i + 1) = rest := by
      have := drop_eq_cons_of_getElem? hd'
      rw [hrest] at this
      exact (List.cons.inj this).2.symm
    obtain ⟨d, hd, hdd⟩ : ∃ d, deps[i]? = some d ∧ d.strip = d'.strip := by
      have := hstrip i
      rwa [hd', Option.map_some', eq_comm, Option.map_eq_some'] at this
    have hname : d'.name = d.name := by rw [← Dep.strip_name, ← hdd, Dep.strip_name]
    have hskip : d'.skipped = d.skipped := by rw [← Dep.strip_skipped, ← hdd, Dep.strip_skipped]
    rw [listLoop] at h
    by_cases hs : d.skipped = true
    · -- a prerequisite the lists leave out
      rw [if_pos (by simp [hskip, hs])] at h
      rw [repsFrom_skip hd (.inl hs)]
      exact listLoop_take rest (i + 1) k k' hrest' hk h
    have hs' : d.skipped = false := by simpa using hs
    by_cases hsel : firstIndex deps d.name = some i
    swap
    · -- a later prerequisite of a name seen
      rw [if_pos (by simp [hname, hT, hsel])] at h
      rw [repsFrom_skip hd (.inr (by simpa [firstIndex_eq_self_iff hd hs'] using hsel))]
      exact listLoop_take rest (i + 1) k k' hrest' hk h
    -- the first prerequisite of its name, with its flag as the loop removing repeats left it
    have hd'' := hrep i d hd hsel
    rw [hd', Option.some.injEq] at hd''
    subst hd''
    rw [if_neg (by simp [hs', hT, hsel])] at h
    rw [repsFrom_first hd hs' ((firstIndex_eq_self_iff hd hs').1 hsel)]
    obtain ⟨⟨c, len⟩, hl, h⟩ := bind_eq_ok.1 h
    cases hoo : allOrderOnly (listedDeps deps) d.name
    · -- `$^`, and `$?` when it changed
      simp only [hoo, Bool.false_eq_true, if_false] at h
      obtain ⟨⟨b, p⟩, hput, h⟩ := bind_eq_ok.1 h
      obtain ⟨hp, htake⟩ := putListed_take hl hk.sources hput
      cases hch : d.changed || amf
      · simp only [hch, Bool.false_eq_true, if_false] at h
        obtain ⟨hk', hw⟩ := listLoop_take rest (i + 1)
          ⟨b, p, k.newsources, k.qp, k.orderonly, k.bp⟩
          k' hrest' ⟨hp, hk.newsources, hk.orderonly⟩ h
        refine ⟨hk', ?_⟩
        rw [hw]
        simp [ListCursor.written, htake, repLists, hoo, hch, wordsOf]
      · simp only [hch, if_true] at h
        obtain ⟨⟨b', p'⟩, hput', h⟩ := bind_eq_ok.1 h
        obtain ⟨hp', htake'⟩ := putListed_take hl hk.newsources hput'
        obtain ⟨hk', hw⟩ := listLoop_take rest (i + 1)
          ⟨b, p, b', p', k.orderonly, k.bp⟩ k' hrest'
          ⟨hp, hp', hk.orderonly⟩ h
        refine ⟨hk', ?_⟩
        rw [hw]
        simp [ListCursor.written, htake, htake', repLists, hoo, hch, wordsOf]
    · -- `$|`
      simp only [hoo, if_true] at h
      obtain ⟨⟨b, p⟩, hput, h⟩ := bind_eq_ok.1 h
      obtain ⟨hp, htake⟩ := putListed_take hl hk.orderonly hput
      obtain ⟨hk', hw⟩ := listLoop_take rest (i + 1)
        ⟨k.sources, k.cp, k.newsources, k.qp, b, p⟩ k'
        hrest' ⟨hk.sources, hk.newsources, hp⟩ h
      refine ⟨hk', ?_⟩
      rw [hw]
      simp [ListCursor.written, htake, repLists, hoo, wordsOf]

end ListLoop

/-! ## The lists -/

theorem mem_of_mem_firstEntries {seen : List (List Char)} {E : List Dep} {d : Dep}
    (h : d ∈ firstEntries seen E) : d ∈ E := by
  induction E generalizing seen with
  | nil => cases h
  | cons e E ih =>
    rw [firstEntries] at h
    split at h
    · exact List.mem_cons_of_mem _ (ih h)
    · rcases List.mem_cons.1 h with rfl | h
      · exact List.mem_cons_self _ _
      · exact List.mem_cons_of_mem _ (ih h)

theorem nul_not_mem_wordsOf {ds : List Dep} (h : ∀ d ∈ ds, nul ∉ d.name) :
    ∀ w ∈ wordsOf ds, nul ∉ w := by
  simp only [wordsOf, List.mem_map]
  rintro _ ⟨d, hd, rfl⟩
  exact nul_not_mem_listedWord (h d hd)

/-- `$+` takes the normal prerequisites of `E`. -/
theorem filter_listedDeps_normal (deps : List Dep) :
    (listedDeps deps).filter (fun d => !d.ignoreMtime) = deps.filter Dep.normal := by
  simp only [listedDeps, List.filter_filter, Bool.and_comm]
  rfl

/-- Whenever `set_file_variables` writes its lists without a fault, for prerequisite names
    without a NUL, `$+`, `$^`, `$?` and `$|` are what `prereqListsSpec` says, whatever the static
    buffers held, for every order of repeated, order-only, archive and escaped names. -/
theorem prereqLists_eq_spec (junk : Nat → Char) (amf : Bool) (deps : List Dep) (s : Statics)
    (hnul : ∀ d ∈ deps, nul ∉ d.name) (r : PrereqLists × List Dep × Statics)
    (h : prereqLists junk amf deps s = .ok r) : r.1 = prereqListsSpec amf deps := by
  rcases hL : listLengths deps with ⟨sd, oo⟩
  rcases hD : dedup deps with ⟨deps', T⟩
  simp only [prereqLists, hL, hD] at h
  obtain ⟨⟨buf, cp, ns⟩, hplus, h⟩ := bind_eq_ok.1 h
  obtain ⟨buf₁, hkill, h⟩ := bind_eq_ok.1 h
  obtain ⟨k, hloop, h⟩ := bind_eq_ok.1 h
  obtain ⟨b₁, hb₁, h⟩ := bind_eq_ok.1 h
  obtain ⟨b₂, hb₂, h⟩ := bind_eq_ok.1 h
  obtain ⟨b₃, hb₃, h⟩ := bind_eq_ok.1 h
  cases h
  -- `$+`
  obtain ⟨hcp, hplus⟩ := plusLoop_take amf deps _ 0 _ _ (Nat.zero_le _) hplus
  -- `$^`, `$?` and `$|`, from the entries and the table the loop removing repeats leaves
  have hT (n : List Char) : T.lookup n = firstIndex deps n := by rw [← lookup_dedup, hD]
  have hstrip (j : Nat) : (deps'[j]?).map Dep.strip = (deps[j]?).map Dep.strip := by
    rw [← strip_dedup deps j, hD]
  have hrep (j : Nat) (d : Dep) (hd : deps[j]? = some d) (hj : firstIndex deps d.name = some j) :
      deps'[j]? = some { d with ignoreMtime := allOrderOnly (listedDeps deps) d.name } := by
    rw [← getElem?_dedup_first hd hj, hD]
  obtain ⟨hk, hwritten⟩ := listLoop_take amf hT hstrip hrep deps' 0 _ k (List.drop_zero _)
    ⟨Nat.zero_le _, Nat.zero_le _, Nat.zero_le _⟩ hloop
  simp only [ListCursor.written, List.take_zero, List.nil_append, Prod.mk.injEq] at hwritten
  -- no word has a NUL
  have hreps : ∀ d ∈ repsFrom deps 0, nul ∉ d.name := fun d hd => hnul d (by
    simp only [repsFrom, List.take_zero, List.drop_zero, listedDeps, List.filter_nil,
      List.map_nil] at hd
    exact List.mem_of_mem_filter (mem_of_mem_firstEntries hd))
  have hsub : ∀ ds : List Dep, (∀ d ∈ ds, d ∈ repsFrom deps 0) →
      ∀ w ∈ wordsOf ds, nul ∉ w :=
    fun ds hds => nul_not_mem_wordsOf fun d hd => hreps d (hds d hd)
  simp only [List.take_zero, List.nil_append] at hplus
  rw [killLastSpace_cstr (nul_not_mem_wordsOf fun d hd => hnul d (List.mem_of_mem_filter hd))
      hcp hplus hkill,
    killLastSpace_cstr (hsub _ fun d hd => List.mem_of_mem_filter hd) hk.sources hwritten.1 hb₁,
    killLastSpace_cstr (hsub _ fun d hd => List.mem_of_mem_filter hd) hk.newsources
      hwritten.2.1 hb₂,
    killLastSpace_cstr (hsub _ fun d hd => List.mem_of_mem_filter hd) hk.orderonly
      hwritten.2.2 hb₃]
  simp [prereqListsSpec, repsFrom, repLists, filter_listedDeps_normal]

theorem prereqLists_eq_spec_libMember :
    ∃ r, prereqLists (fun _ => ' ') false libMemberDeps ⟨[], [], []⟩ = .ok r ∧
      r.1 = prereqListsSpec false libMemberDeps := by
  obtain ⟨r, hr⟩ : ∃ r,
    prereqLists (fun _ => ' ') false libMemberDeps ⟨[], [], []⟩ = .ok r :=
    ⟨_, rfl⟩
  exact ⟨r, hr, prereqLists_eq_spec _ _ _ _ (by decide) r hr⟩

/-- An order-only `a` that changed, then a normal `a` that did not, on the first call: by the
    law `$^` and `$?` are `a`, but `newsources` was sized for no name, since the normal `a` did
    not change, and writing `a` and its separator into it overflows it. -/
theorem prereqLists_upgrade_overflows (junk : Nat → Char) :
    prereqListsSpec false
        [⟨"a".toList, true, false, false, true⟩, ⟨"a".toList, false, false, false, false⟩] =
      ⟨"a".toList, "a".toList, "a".toList, []⟩ ∧
    prereqLists junk false
        [⟨"a".toList, true, false, false, true⟩, ⟨"a".toList, false, false, false, false⟩]
        ⟨[], [], []⟩ = .error .writeOutOfBounds :=
  ⟨by decide, rfl⟩

/-! ## A second call -/


/-- The prerequisites `a` (order-only), `c` and `a`. -/
def upgradedDeps : List Dep :=
  [⟨"a".toList, true, false, false, false⟩, ⟨"c".toList, false, false, false, false⟩,
    ⟨"a".toList, false, false, false, false⟩]

/-- The first call makes the order-only `a` normal in the entries, and the second call, on those
    entries, takes it for `$<` and for `$+`. -/
theorem setFileVariables_second_call :
    (do
      let (vars₁, _, lists₁, deps₁, s₁) ← setFileVariables (fun _ => ' ') false "t".toList
        (some []) [] upgradedDeps false ⟨[], [], []⟩
      let (vars₂, _, lists₂, _, _) ← setFileVariables (fun _ => ' ') false "t".toList
        (some []) [] deps₁ false s₁
      pure ((vars₁.source, lists₁.sourcesDup), (vars₂.source, lists₂.sourcesDup))) =
    Except.ok (("c".toList, "c a".toList), ("a".toList, "a c a".toList)) := by
  decide

end MakePlus
