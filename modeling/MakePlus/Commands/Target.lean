import MakePlus.Commands.Variables

/-!
# The variables of the target

`set_file_variables` copies the archive and the member of an archive member `lib(member)` into
buffers from `alloca`, and escapes every name it defines with `dup_escaped_name`. For names
without a NUL every copy fits its buffer and each variable is the escaped name it stands for
(`targetVars_eq`): `$@` the archive or the target, `$%` the member, `$*` the stem the rule gives
or the target less the first suffix of `.SUFFIXES` it ends with (`stemOf`), and `$<` the first
normal prerequisite, or `$@` for the commands of `.DEFAULT`.

* `suffixStem_eq`: the loop over `.SUFFIXES`, which compares with `strneq` from an offset of the
  name, strips the first suffix the name is longer than and ends with;
* `archiveVars_eq`: the archive and the member fit the buffers `alloca` gives them.
-/

namespace MakePlus

/-- The archive of an archive member `lib(member)`: what precedes the `(`. -/
def archiveOf (name : List Char) : List Char := name.takeWhile (· != '(')

/-- The member of an archive member `lib(member)`: what follows the `(`, without the `)`. -/
def memberOf (name : List Char) : List Char := ((name.dropWhile (· != '(')).drop 1).dropLast

/-- The stem of `name`: `name` less the first of `suffixes` it is longer than and ends with, or
    nothing. -/
def stemOf (name : List Char) (suffixes : List (List Char)) : List Char :=
  match suffixes.find? fun dn => dn.length < name.length && dn.isSuffixOf name with
  | some dn => name.take (name.length - dn.length)
  | none => []

/-- What `set_file_variables` is meant to define for the target `name`, which `ar_name` takes
    for an archive member when `isAr` holds: the escaped names of the archive or the target, of
    the member, of the stem and of the first normal prerequisite (or of `$@`), and the stem. -/
def targetVarsSpec (name : List Char) (isAr : Bool) (stem : Option (List Char))
    (suffixes : List (List Char)) (deps : List Dep) (fromDefault : Bool) :
    TargetVars × List Char :=
  let t := if isAr then archiveOf name else name
  let s := stem.getD (stemOf (if isAr then memberOf name else name) suffixes)
  let src := match deps.find? fun d =>
      !d.ignoreMtime && !d.ignoreAutomaticVars && !d.need2ndExpansion with
    | some d => escapeName d.name
    | none => []
  (⟨escapeName t, if isAr then escapeName (memberOf name) else [], escapeName s,
    if fromDefault then escapeName t else src⟩, s)

/-! ## Reading the name -/

theorem nul_not_mem_of_sublist {s t : List Char} (h : s.Sublist t) (ht : nul ∉ t) : nul ∉ s :=
  fun hs => ht (h.subset hs)

theorem arName_eq_true {name : List Char} (h : arName name = .ok true) :
    ∃ i, name.findIdx? (· = '(') = some i ∧ name.drop (i + 1) ≠ [] := by
  unfold arName at h
  split at h
  · cases h
  · cases h
  · rename_i i _ hfind
    refine ⟨i, hfind, ?_⟩
    dsimp only at h
    split_ifs at h with h₁
    · cases h
    simp only [Bool.or_eq_true, decide_eq_true_eq, not_or, ne_eq, not_not] at h₁
    have h0 : (name.drop i).length ≠ 0 := fun h0 => by
      rw [List.length_eq_zero] at h0
      simp [h0] at h₁
    intro hnil
    have := congrArg List.length hnil
    simp only [List.length_drop, List.length_nil] at this h0 h₁
    omega

theorem takeWhile_dropWhile_of_findIdx? {name : List Char} {i : Nat}
    (h : name.findIdx? (· = '(') = some i) :
    name.takeWhile (· != '(') = name.take i ∧ name.dropWhile (· != '(') = name.drop i := by
  have hp : (fun a => !(a != '(')) = (fun a : Char => decide (a = '(')) := by
    funext a; by_cases ha : a = '(' <;> simp [ha]
  have hi := (List.findIdx?_eq_some_iff_findIdx_eq.1 h).2
  rw [List.takeWhile_eq_take_findIdx_not, List.dropWhile_eq_drop_findIdx_not, hp, hi]
  exact ⟨rfl, rfl⟩

theorem find?_congr {α : Type} {p q : α → Bool} {l : List α} (h : ∀ a ∈ l, p a = q a) :
    l.find? p = l.find? q := by
  induction l with
  | nil => rfl
  | cons a l ih =>
    simp only [List.find?_cons, h a (List.mem_cons_self a l),
      ih fun b hb => h b (List.mem_cons_of_mem a hb)]

/-! ## The stem -/

theorem strneq_drop_iff {dn w : List Char} {len : Nat} (hdn : nul ∉ dn) (hw : nul ∉ w)
    (hlen : len ≤ w.length) (hlt : dn.length < len) :
    strneq dn (w.drop (len - dn.length)) dn.length = true ↔ dn <:+ w.take len := by
  have h := strneq_getD_iff hdn (nul_not_mem_of_sublist (List.drop_sublist _ _) hw)
    (show dn.length ≤ (w.drop (len - dn.length)).length by simp; omega)
  have hend : dn.getD dn.length nul = nul := by
    rw [List.getD_eq_getElem?_getD, List.getElem?_eq_none le_rfl]; rfl
  rw [hend, and_iff_left rfl] at h
  rw [h, List.suffix_iff_eq_drop, List.length_take, min_eq_left hlen, List.drop_take,
    Nat.sub_sub_self hlt.le]

/-- The loop over `.SUFFIXES` on the first `len` bytes of `w`. -/
theorem suffixLoop_eq {w : List Char} (hw : nul ∉ w) {len : Nat} (hlen : len ≤ w.length)
    {suffixes : List (List Char)} (hsuf : ∀ dn ∈ suffixes, nul ∉ dn) :
    (match suffixes.find? fun dn =>
        len > dn.length && strneq dn (w.drop (len - dn.length)) dn.length with
      | some dn => cstr (w.take (len - dn.length))
      | none => []) = stemOf (w.take len) suffixes := by
  have hl : (w.take len).length = len := by simp [hlen]
  unfold stemOf
  rw [find?_congr (q := fun dn => dn.length < (w.take len).length && dn.isSuffixOf (w.take len))
    fun dn hdn => ?_]
  · cases suffixes.find? _ with
    | none => rfl
    | some dn =>
      dsimp only
      rw [cstr_of_nul_not_mem (nul_not_mem_of_sublist (List.take_sublist _ _) hw), hl,
        List.take_take, min_eq_left (Nat.sub_le _ _)]
  · rw [hl]
    by_cases hlt : dn.length < len
    · rw [Bool.eq_iff_iff, Bool.and_eq_true, Bool.and_eq_true, List.isSuffixOf_iff_suffix,
        strneq_drop_iff (hsuf dn hdn) hw hlen hlt]
    · simp [hlt]

/-- `$*` when the rule gives no stem: the target, or the member of an archive member, less the
    first suffix of `.SUFFIXES` it is longer than and ends with. -/
theorem suffixStem_eq {name : List Char} (hname : nul ∉ name) (isAr : Bool)
    {suffixes : List (List Char)} (hsuf : ∀ dn ∈ suffixes, nul ∉ dn) :
    suffixStem name isAr suffixes = stemOf (if isAr then memberOf name else name) suffixes := by
  unfold suffixStem
  cases isAr
  · simpa using suffixLoop_eq hname le_rfl hsuf
  · have hw : nul ∉ (name.dropWhile (· != '(')).drop 1 := nul_not_mem_of_sublist
      ((List.drop_sublist _ _).trans (List.dropWhile_sublist _)) hname
    simpa [memberOf, List.dropLast_eq_take] using suffixLoop_eq hw (Nat.sub_le _ 1) hsuf

theorem nul_not_mem_stemOf {name : List Char} (h : nul ∉ name) (suffixes : List (List Char)) :
    nul ∉ stemOf name suffixes := by
  unfold stemOf
  split
  · exact nul_not_mem_of_sublist (List.take_sublist _ _) h
  · simp

/-! ## The copies -/

theorem memcpy_store_alloc {β : Type} (junk : Nat → Char) {s : List Char} {n : Nat}
    (h : s.length = n) (c : Char) (f : List Char → Except Fault β) :
    (memcpy (alloc (n + 1) junk) 0 s >>= fun p => store p n c >>= f) = f (s ++ [c]) := by
  subst h
  have hb : alloc (s.length + 1) junk = [] ++ (alloc s.length junk ++ [junk s.length]) := by
    simp [alloc, List.range_succ]
  rw [hb, memcpy_of_le (by simp)]
  simp [store_append]

/-- `$@` and `$%` of an archive member: the archive and the member, escaped. -/
theorem archiveVars_eq (junk : Nat → Char) {name : List Char} (hname : nul ∉ name) {i : Nat}
    (hi : i < name.length) (hne : name.drop (i + 1) ≠ []) :
    archiveVars junk name i =
      .ok (escapeName (name.take i), escapeName (name.drop (i + 1)).dropLast) := by
  have hn₁ : nul ∉ name.take i := nul_not_mem_of_sublist (List.take_sublist _ _) hname
  have hn₂ : nul ∉ name.drop (i + 1) := nul_not_mem_of_sublist (List.drop_sublist _ _) hname
  unfold archiveVars
  generalize name.drop (i + 1) = w at hne hn₂ ⊢
  obtain ⟨m, hm⟩ : ∃ m, w.length = m + 1 :=
    ⟨_, (Nat.succ_pred_eq_of_pos (List.length_pos.2 hne)).symm⟩
  have hn₃ : nul ∉ w.take m := nul_not_mem_of_sublist (List.take_sublist _ _) hn₂
  have hdrop : w.dropLast = w.take m := by rw [List.dropLast_eq_take, hm]; rfl
  rw [memcpy_store_alloc junk (by simp; omega), cstr_append_nul (r := []) hn₁,
    dupEscapedName_eq junk hn₁, ok_bind]
  simp only [hm, Nat.add_sub_cancel]
  rw [memcpy_store_alloc junk (by simp; omega), cstr_append_nul (r := []) hn₃,
    dupEscapedName_eq junk hn₃, ok_bind, hdrop]
  rfl

/-- `$@` and `$%`: the archive and the member of what `ar_name` takes for an archive member,
    else the target and nothing, escaped. -/
theorem targetAndMember_eq (junk : Nat → Char) {name : List Char} (hname : nul ∉ name)
    {isAr : Bool} (ha : arName name = .ok isAr) :
    targetAndMember junk name isAr =
      .ok (escapeName (if isAr then archiveOf name else name),
        if isAr then escapeName (memberOf name) else []) := by
  cases isAr
  · simp [targetAndMember, dupEscapedName_eq junk hname]
  · obtain ⟨i, hfind, hne⟩ := arName_eq_true ha
    obtain ⟨htake, hdrop⟩ := takeWhile_dropWhile_of_findIdx? hfind
    have hi := (List.findIdx?_eq_some_iff_findIdx_eq.1 hfind).1
    simp only [targetAndMember, hfind, if_true, archiveOf, memberOf, htake, hdrop,
      List.drop_drop, Nat.add_comm 1 i]
    exact archiveVars_eq junk hname hi hne

/-- `$<`: the first normal prerequisite, escaped, or nothing. -/
theorem firstSource_eq (junk : Nat → Char) {deps : List Dep}
    (hdeps : ∀ d ∈ deps, nul ∉ d.name) :
    firstSource junk deps = .ok (match deps.find? fun d =>
        !d.ignoreMtime && !d.ignoreAutomaticVars && !d.need2ndExpansion with
      | some d => escapeName d.name
      | none => []) := by
  unfold firstSource
  cases h : deps.find? _ with
  | none => rfl
  | some d => exact dupEscapedName_eq junk (hdeps d (List.mem_of_find?_eq_some h))

/-! ## The variables -/

/-- For names without a NUL, `set_file_variables` defines `$@`, `$%`, `$*` and `$<` as
    `targetVarsSpec` says: every copy fits its buffer from `alloca`, and only a malformed
    archive member name stops it. -/
theorem targetVars_eq (junk : Nat → Char) {name : List Char} (hname : nul ∉ name)
    {stem : Option (List Char)} (hstem : ∀ s ∈ stem, nul ∉ s) {suffixes : List (List Char)}
    (hsuf : ∀ dn ∈ suffixes, nul ∉ dn) {deps : List Dep}
    (hdeps : ∀ d ∈ deps, nul ∉ d.name)
    (fromDefault : Bool) :
    targetVars junk name stem suffixes deps fromDefault =
      (arName name).map fun isAr => targetVarsSpec name isAr stem suffixes deps fromDefault := by
  cases ha : arName name with
  | error e => rw [targetVars, ha]; rfl
  | ok isAr =>
    have hbody : nul ∉ (if isAr then memberOf name else name) := by
      split
      · exact nul_not_mem_of_sublist ((List.dropLast_sublist _).trans
          ((List.drop_sublist _ _).trans (List.dropWhile_sublist _))) hname
      · exact hname
    have hs : nul ∉ stem.getD (stemOf (if isAr then memberOf name else name) suffixes) := by
      cases stem with
      | none => exact nul_not_mem_stemOf hbody suffixes
      | some s => exact hstem s rfl
    simp only [targetVars, ha, ok_bind, targetAndMember_eq junk hname ha,
      suffixStem_eq hname isAr hsuf, dupEscapedName_eq junk hs, firstSource_eq junk hdeps]
    rfl

example : targetVars (fun _ => '?') "lib(a b.o)".toList none [".c".toList, ".o".toList]
    [⟨"a b.c".toList, false, false, false, true⟩] false =
      .ok (⟨"lib".toList, "a\\ b.o".toList, "a\\ b".toList, "a\\ b.c".toList⟩,
        "a b".toList) := by
  decide

theorem targetVars_lib_member :
    targetVars (fun _ => '?') "lib(a b.o)".toList none [".c".toList, ".o".toList]
        [⟨"a b.c".toList, false, false, false, true⟩] false =
      (arName "lib(a b.o)".toList).map fun isAr => targetVarsSpec "lib(a b.o)".toList isAr none
        [".c".toList, ".o".toList] [⟨"a b.c".toList, false, false, false, true⟩] false :=
  targetVars_eq _ (by decide) (by simp) (by decide) (by decide) _

end MakePlus
