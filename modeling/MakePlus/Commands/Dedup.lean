import MakePlus.Commands.Variables

/-!
# The loop removing repeats

Lines 322-340 of `set_file_variables` put the first prerequisite of each name into the hash
table `dep_hash`, keyed by the name, and when a later prerequisite of the same name has the
other `ignore_mtime`, clear that flag in both, in the `struct dep` entries themselves. `$^`, `$?`
and `$|` are then written from the first prerequisite of each name, with its flag as this loop
leaves it.

The loop keeps `DedupInv`: the table gives each name seen so far the index of its first
prerequisite, and that prerequisite is order-only exactly when every prerequisite of its name
seen so far is (`dedupStep_inv`, one turn; `dedup_inv`, the whole loop). So at the end
(`lookup_dedup`, `getElem?_dedup_first`) the first prerequisite of a name is order-only when
every prerequisite of the name is, and normal as soon as one of them is, whatever their order;
the loop changes no other field (`strip_dedup`).
-/

namespace MakePlus

/-- The prerequisites the lists take (`E`): those neither expanded a second time nor left out of
    the automatic variables. -/
def listedDeps (deps : List Dep) : List Dep := deps.filter fun d => !d.skipped

@[simp] theorem listedDeps_nil : listedDeps [] = [] := rfl

/-- Every prerequisite of `E` named `n` is order-only. -/
def allOrderOnly (E : List Dep) (n : List Char) : Bool :=
  E.all fun e => e.name != n || e.ignoreMtime

/-- The index of the first prerequisite of `deps` named `n` that the lists take. -/
def firstIndex (deps : List Dep) (n : List Char) : Option Nat :=
  deps.findIdx? fun e => !e.skipped && e.name == n

/-- A prerequisite with its `ignore_mtime` cleared: the fields the loop does not change. -/
def Dep.strip (d : Dep) : Dep := { d with ignoreMtime := false }

@[simp] theorem Dep.strip_name (d : Dep) : d.strip.name = d.name := rfl

@[simp] theorem Dep.strip_skipped (d : Dep) : d.strip.skipped = d.skipped := rfl

@[simp] theorem Dep.strip_changed (d : Dep) : d.strip.changed = d.changed := rfl

@[simp] theorem Dep.strip_with (d : Dep) (b : Bool) : { d with ignoreMtime := b }.strip = d.strip :=
  rfl

@[simp] theorem Dep.skipped_with (d : Dep) (b : Bool) :
    { d with ignoreMtime := b }.skipped = d.skipped := rfl

/-- A prerequisite is its fields the loop keeps and its flag. -/
theorem Dep.eq_of_strip {d e : Dep} (hs : d.strip = e.strip) (hm : d.ignoreMtime = e.ignoreMtime) :
    d = e := by
  cases d; cases e
  simp only [Dep.strip, Dep.mk.injEq] at hs hm ⊢
  exact ⟨hs.1, hm, hs.2.2⟩

/-! ## One more prerequisite -/

section Append

variable (l : List Dep) (d : Dep)

theorem listedDeps_append_singleton :
    listedDeps (l ++ [d]) = listedDeps l ++ if d.skipped then [] else [d] := by
  cases h : d.skipped <;> simp [listedDeps, List.filter_append, h]

theorem allOrderOnly_append_singleton (E : List Dep) (n : List Char) :
    allOrderOnly (E ++ [d]) n = (allOrderOnly E n && (d.name != n || d.ignoreMtime)) := by
  simp [allOrderOnly, List.all_append]

theorem firstIndex_append_singleton (n : List Char) :
    firstIndex (l ++ [d]) n =
      (firstIndex l n).or (if !d.skipped && d.name == n then some l.length else none) := by
  by_cases h : (!d.skipped && d.name == n) = true <;> simp [firstIndex, h]

end Append

theorem take_succ_of_getElem? {deps : List Dep} {m : Nat} {d : Dep} (hd : deps[m]? = some d) :
    deps.take (m + 1) = deps.take m ++ [d] := by
  rw [List.take_succ, hd]
  rfl

theorem length_take_of_getElem? {deps : List Dep} {m : Nat} {d : Dep} (hd : deps[m]? = some d) :
    (deps.take m).length = m :=
  List.length_take_of_le (List.getElem?_eq_some_iff.1 hd).1.le

theorem firstIndex_eq_some {l : List Dep} {n : List Char} {j : Nat} (h : firstIndex l n = some j) :
    ∃ e, l[j]? = some e ∧ e.skipped = false ∧ e.name = n := by
  obtain ⟨hj, he, -⟩ := List.findIdx?_eq_some_iff_getElem.1 h
  simp only [Bool.and_eq_true, Bool.not_eq_true', beq_iff_eq] at he
  exact ⟨_, List.getElem?_eq_getElem hj, he⟩

theorem lt_of_firstIndex_eq_some {l : List Dep} {n : List Char} {j : Nat}
    (h : firstIndex l n = some j) : j < l.length :=
  (List.findIdx?_eq_some_iff_getElem.1 h).1

theorem firstIndex_eq_none_iff {l : List Dep} {n : List Char} :
    firstIndex l n = none ↔ n ∉ (listedDeps l).map Dep.name := by
  simp [firstIndex, listedDeps, List.findIdx?_eq_none_iff]

/-- No prerequisite of a name is listed: all of them are order-only. -/
theorem allOrderOnly_of_firstIndex_eq_none {l : List Dep} {n : List Char}
    (h : firstIndex l n = none) : allOrderOnly (listedDeps l) n = true := by
  simp only [firstIndex, List.findIdx?_eq_none_iff, Bool.and_eq_true, Bool.not_eq_true',
    beq_iff_eq, not_and] at h
  simp only [allOrderOnly, listedDeps, List.all_filter, List.all_eq_true, Bool.not_eq_true',
    Bool.or_eq_true, bne_iff_ne, ne_eq]
  intro e he
  by_cases hs : e.skipped <;> simp_all

/-- Once a name has a first prerequisite, a prerequisite more leaves every first index. -/
theorem firstIndex_append_of_isSome {l : List Dep} {d : Dep}
    (h : (firstIndex l d.name).isSome) (n : List Char) :
    firstIndex (l ++ [d]) n = firstIndex l n := by
  rw [firstIndex_append_singleton]
  by_cases hn : d.name = n
  · subst hn
    obtain ⟨j, hj⟩ := Option.isSome_iff_exists.1 h
    rw [hj]
    rfl
  · simp [hn]

/-- Writing the flag of the `i`-th entry changes no other field. -/
theorem map_strip_set {l : List Dep} {i : Nat} {e : Dep} (he : l[i]? = some e) (b : Bool)
    (k : Nat) :
    ((l.set i { e with ignoreMtime := b })[k]?).map Dep.strip = (l[k]?).map Dep.strip := by
  by_cases hk : i = k
  · subst hk
    have hi : i < l.length := (List.getElem?_eq_some_iff.1 he).1
    rw [List.getElem?_set_self hi, he]
    rfl
  · rw [List.getElem?_set_ne hk]

/-! ## The invariant -/

/-- What the loop keeps true after the turns `0, ..., m - 1`, for the entries and the table
    `s`: the entries keep their other fields, those from `m` on are untouched, the table gives
    the first index of each name seen, and the first prerequisite of a name is order-only
    exactly when every prerequisite of it seen is. -/
structure DedupInv (deps : List Dep) (m : Nat) (s : List Dep × List (List Char × Nat)) :
    Prop where
  strip : ∀ k : Nat, (s.1[k]?).map Dep.strip = (deps[k]?).map Dep.strip
  rest : ∀ k : Nat, m ≤ k → s.1[k]? = deps[k]?
  lookup : ∀ n, s.2.lookup n = firstIndex (deps.take m) n
  first : ∀ n (j : Nat), firstIndex (deps.take m) n = some j →
    (s.1[j]?).map Dep.ignoreMtime = some (allOrderOnly (listedDeps (deps.take m)) n)

section Step

variable {deps : List Dep} {m : Nat} {d : Dep} {cur : List Dep} {table : List (List Char × Nat)}
  (h : DedupInv deps m (cur, table)) (hd : deps[m]? = some d)
include h hd

/-- A prerequisite the lists leave out changes nothing. -/
theorem dedupInv_skipped (hs : d.skipped = true) : DedupInv deps (m + 1) (cur, table) where
  strip := h.strip
  rest k hk := h.rest k (by omega)
  lookup n := by
    rw [h.lookup, take_succ_of_getElem? hd, firstIndex_append_singleton]
    simp [hs]
  first n j hj := by
    rw [take_succ_of_getElem? hd, firstIndex_append_singleton] at hj
    simp only [hs, Bool.not_true, Bool.false_and, Bool.false_eq_true, if_false,
      Option.or_none] at hj
    rw [take_succ_of_getElem? hd, listedDeps_append_singleton, if_pos hs, List.append_nil]
    exact h.first n j hj

/-- The first prerequisite of a name goes into the table, its flag as it is. -/
theorem dedupInv_new (hs : d.skipped = false) (hl : table.lookup d.name = none) :
    DedupInv deps (m + 1) (cur, table ++ [(d.name, m)]) where
  strip := h.strip
  rest k hk := h.rest k (by omega)
  lookup n := by
    rw [List.lookup_append, h.lookup, take_succ_of_getElem? hd, firstIndex_append_singleton,
      length_take_of_getElem? hd]
    by_cases hn : d.name = n
    · subst hn; simp [hs]
    · have hb : (n == d.name) = false := beq_false_of_ne (Ne.symm hn)
      simp [hs, hn, List.lookup_cons, hb]
  first n j hj := by
    have hnone : firstIndex (deps.take m) d.name = none := (h.lookup d.name).symm.trans hl
    rw [take_succ_of_getElem? hd, listedDeps_append_singleton, if_neg (by simp [hs]),
      allOrderOnly_append_singleton]
    rw [take_succ_of_getElem? hd, firstIndex_append_singleton] at hj
    by_cases hn : d.name = n
    · subst hn
      rw [hnone] at hj
      simp only [hs, Bool.not_false, beq_self_eq_true, Bool.and_self, if_true, Option.none_or,
        length_take_of_getElem? hd, Option.some.injEq] at hj
      subst hj
      rw [h.rest m le_rfl, hd, allOrderOnly_of_firstIndex_eq_none hnone]
      simp
    · simp only [beq_false_of_ne hn, Bool.and_false, Bool.false_eq_true, if_false,
        Option.or_none] at hj
      rw [h.first n j hj]
      simp [hn]

/-- A later prerequisite of a name in the table: `hd`, the first one, is at `j`. -/
theorem dedupInv_repeat (hs : d.skipped = false) {j : Nat} (hl : table.lookup d.name = some j)
    {hd' : Dep} (hj : cur[j]? = some hd') :
    DedupInv deps (m + 1)
      (if d.ignoreMtime != hd'.ignoreMtime then
        ((cur.set m { d with ignoreMtime := false }).set j { hd' with ignoreMtime := false }, table)
      else (cur, table)) := by
  have hfirst : firstIndex (deps.take m) d.name = some j := (h.lookup d.name).symm.trans hl
  have hjm : j < m := length_take_of_getElem? hd ▸ lt_of_firstIndex_eq_some hfirst
  have hsome : (firstIndex (deps.take m) d.name).isSome := by rw [hfirst]; rfl
  -- the name was seen, so the first indices stay as they were
  have hidx (n : List Char) : firstIndex (deps.take (m + 1)) n = firstIndex (deps.take m) n := by
    rw [take_succ_of_getElem? hd, firstIndex_append_of_isSome hsome]
  have hflag := h.first _ _ hfirst
  rw [hj, Option.map_some', Option.some.injEq] at hflag
  -- the first prerequisite of any other name is at another index than `j` and `m`
  have hother : ∀ n j', n ≠ d.name →
      firstIndex (deps.take m) n = some j' → j' ≠ j ∧ j' < m := by
    intro n j' hn hj'
    obtain ⟨e, he, -, hen⟩ := firstIndex_eq_some hj'
    obtain ⟨e', he', -, hen'⟩ := firstIndex_eq_some hfirst
    refine ⟨fun hjj => hn ?_, length_take_of_getElem? hd ▸ lt_of_firstIndex_eq_some hj'⟩
    subst hjj
    rw [he] at he'
    cases he'
    rw [← hen, hen']
  have hlisted : listedDeps (deps.take (m + 1)) = listedDeps (deps.take m) ++ [d] := by
    rw [take_succ_of_getElem? hd, listedDeps_append_singleton, if_neg (by simp [hs])]
  split_ifs with hne
  · -- the two flags differ: both prerequisites become normal
    have hcm : cur[m]? = some d := (h.rest m le_rfl).trans hd
    constructor
    · intro k
      rw [map_strip_set (by rwa [List.getElem?_set_ne (by omega)]), map_strip_set hcm, h.strip]
    · intro k hk
      rw [List.getElem?_set_ne (by omega), List.getElem?_set_ne (by omega), h.rest k (by omega)]
    · intro n
      rw [h.lookup, hidx]
    · intro n j' hj'
      rw [hidx] at hj'
      rw [hlisted, allOrderOnly_append_singleton]
      by_cases hn : n = d.name
      · subst hn
        rw [hfirst, Option.some.injEq] at hj'
        subst hj'
        have hjl : j < (cur.set m { d with ignoreMtime := false }).length := by
          simp only [List.length_set]; exact (List.getElem?_eq_some_iff.1 hj).1
        have hand : (hd'.ignoreMtime && d.ignoreMtime) = false := by
          revert hne; cases hd'.ignoreMtime <;> cases d.ignoreMtime <;> decide
        rw [List.getElem?_set_self hjl, ← hflag]
        simp [hand]
      · obtain ⟨hjj, hj'm⟩ := hother n j' hn hj'
        rw [List.getElem?_set_ne (Ne.symm hjj), List.getElem?_set_ne (by omega), h.first n j' hj']
        simp [Ne.symm hn]
  · -- the same flag: nothing changes
    constructor
    · exact h.strip
    · exact fun k hk => h.rest k (by omega)
    · intro n
      rw [h.lookup, hidx]
    · intro n j' hj'
      rw [hidx] at hj'
      rw [hlisted, allOrderOnly_append_singleton]
      by_cases hn : n = d.name
      · subst hn
        rw [hfirst, Option.some.injEq] at hj'
        subst hj'
        rw [hj, Option.map_some', ← hflag]
        simp only [bne_iff_ne, ne_eq, Decidable.not_not] at hne
        simp [hne]
      · rw [h.first n j' hj']
        simp [Ne.symm hn]

end Step

/-- One turn of the loop keeps the invariant. -/
theorem dedupStep_inv {deps : List Dep} {m : Nat} {s : List Dep × List (List Char × Nat)}
    (h : DedupInv deps m s) (hm : m < deps.length) : DedupInv deps (m + 1) (dedupStep s m) := by
  obtain ⟨cur, table⟩ := s
  obtain ⟨d, hd⟩ : ∃ d, deps[m]? = some d := ⟨_, List.getElem?_eq_getElem hm⟩
  have hcm : cur[m]? = some d := (h.rest m le_rfl).trans hd
  unfold dedupStep
  simp only [hcm]
  cases hs : d.skipped
  · simp only [Bool.false_eq_true, if_false]
    cases hl : table.lookup d.name with
    | none => exact dedupInv_new h hd hs hl
    | some j =>
      obtain ⟨e, he, -⟩ := firstIndex_eq_some ((h.lookup d.name).symm.trans hl)
      have hjd : j < deps.length := by
        have := (List.getElem?_eq_some_iff.1 he).1; simp at this; omega
      have hcj := h.strip j
      rw [List.getElem?_eq_getElem hjd, Option.map_some', Option.map_eq_some'] at hcj
      obtain ⟨hd', hj, -⟩ := hcj
      simp only [hj]
      exact dedupInv_repeat h hd hs hl hj
  · simp only [if_true]
    exact dedupInv_skipped h hd hs

/-- The whole loop keeps the invariant. -/
theorem dedup_inv (deps : List Dep) : DedupInv deps deps.length (dedup deps) := by
  suffices ∀ m ≤ deps.length, DedupInv deps m ((List.range m).foldl dedupStep (deps, [])) from
    this _ le_rfl
  intro m
  induction m with
  | zero =>
    intro _
    exact ⟨fun _ => rfl, fun _ _ => rfl, fun _ => rfl, fun _ _ h => by cases h⟩
  | succ m ih =>
    intro hm
    rw [List.range_succ, List.foldl_append, List.foldl_cons, List.foldl_nil]
    exact dedupStep_inv (ih (by omega)) (by omega)

/-! ## After the loop -/

/-- The table gives each name the index of its first prerequisite that the lists take. -/
theorem lookup_dedup (deps : List Dep) (n : List Char) :
    (dedup deps).2.lookup n = firstIndex deps n := by
  rw [(dedup_inv deps).lookup, List.take_length]

/-- The loop changes no field but `ignore_mtime`. -/
theorem strip_dedup (deps : List Dep) (k : Nat) :
    ((dedup deps).1[k]?).map Dep.strip = (deps[k]?).map Dep.strip :=
  (dedup_inv deps).strip k

/-- The first prerequisite of a name ends order-only exactly when every prerequisite of the name
    is. -/
theorem getElem?_dedup_first {deps : List Dep} {j : Nat} {d : Dep} (hd : deps[j]? = some d)
    (hj : firstIndex deps d.name = some j) :
    (dedup deps).1[j]? = some { d with ignoreMtime := allOrderOnly (listedDeps deps) d.name } := by
  have hs := strip_dedup deps j
  have hm := (dedup_inv deps).first d.name j (by rwa [List.take_length])
  rw [List.take_length] at hm
  rw [hd] at hs
  cases hj' : (dedup deps).1[j]? with
  | none => rw [hj'] at hs; cases hs
  | some e =>
    simp only [hj', Option.map_some', Option.some.injEq] at hs hm
    exact congrArg some (Dep.eq_of_strip (by simpa using hs) hm)

end MakePlus
