import MakePlus.Commands.Variables

/-!
# The buffers of the prerequisite lists

`set_file_variables` sizes its three static buffers before it writes the lists into them:
`sourcesdup` from the escaped names of the normal prerequisites, `orderonly` from those of the
order-only ones, and `newsources` from the room of `$+` less the room of the normal
prerequisites that did not change. A name then takes `len` bytes and a separator (`room`), at
most its escaped length and one.

The loop removing repeats can make an order-only prerequisite normal after the sizes are fixed,
and `$?` then overflows (`prereqLists_newsources_overflow`). When no name is listed both as
order-only and as normal, nothing changes the flags, and every write stays inside its buffer:

* `plusLoop_room`: `$+` fills exactly its room, and `newsources_len` is what is left of it for
  the prerequisites that changed;
* `listLoop_room`: `$^`, `$?` and `$|` stay inside the room the flags leave them;
* `prereqLists_in_bounds`: only a malformed archive member name stops `set_file_variables`.
-/

namespace MakePlus

/-! ## The room of a name -/

theorem escapedNameLength_eq (name : List Char) :
    escapedNameLength name = name.length + name.count ' ' := foldl_count_space name _

theorem escapedNameLength_le_of_sublist {c name : List Char} (h : c.Sublist name) :
    escapedNameLength c ≤ escapedNameLength name := by
  rw [escapedNameLength_eq, escapedNameLength_eq]
  exact Nat.add_le_add h.length_le (h.count_le ' ')

/-- The length `len` a list gives the name of a prerequisite: the escaped length of the member
    of an archive member, less its `)`, else of the name. -/
def listedLength (name : List Char) : Nat :=
  match arName name with
  | .ok true => escapedNameLength ((name.dropWhile (· != '(')).drop 1) - 1
  | _ => escapedNameLength name

theorem listedLength_le (name : List Char) : listedLength name ≤ escapedNameLength name := by
  unfold listedLength
  split
  · have := escapedNameLength_le_of_sublist
      ((List.drop_sublist 1 _).trans (List.dropWhile_sublist (· != '(') (l := name)))
    omega
  · exact le_rfl

theorem arName_eq_error {name : List Char} {e : Fault} (h : arName name = .error e) :
    e = .fatal := by
  unfold arName at h
  split at h
  · cases h
  · cases h
  · dsimp only at h
    split_ifs at h <;> first | exact (Except.error.inj h).symm | cases h

/-- A name in a list: the member of an archive member, whose `)` the separator overwrites, or
    the name; `arName` fails only on a malformed member. -/
theorem listedName_spec (name : List Char) :
    (∃ c, listedName name = .ok (c, listedLength name) ∧
      escapedNameLength c ≤ listedLength name + 1) ∨ listedName name = .error .fatal := by
  cases ha : arName name with
  | error e => exact .inr (by rw [listedName, ha, arName_eq_error ha]; rfl)
  | ok b =>
    left
    have hlen : listedLength name = if b then
        escapedNameLength ((name.dropWhile (· != '(')).drop 1) - 1
        else escapedNameLength name := by
      cases b <;> simp [listedLength, ha]
    cases b
    · exact ⟨name, by simp [listedName, ha, hlen], by simp [hlen]⟩
    · exact ⟨(name.dropWhile (· != '(')).drop 1, by simp [listedName, ha, hlen],
        by simp only [hlen, if_true]; omega⟩

/-! ## Writes into a buffer -/

theorem memcpy_ok {b src : List Char} {off : Nat} (h : off + src.length ≤ b.length) :
    ∃ b', memcpy b off src = .ok b' ∧ b'.length = b.length :=
  ⟨_, memcpy_of_le h, length_of_memcpy (memcpy_of_le h)⟩

theorem store_ok {b : List Char} {i : Nat} (c : Char) (h : i < b.length) :
    ∃ b', store b i c = .ok b' ∧ b'.length = b.length :=
  memcpy_ok (by simpa using h)

/-- A name and its separator, `len + 1` bytes from `cp`, fit a buffer that has the room. -/
theorem putListed_ok (buf : List Char) (cp : Nat) {c : List Char} {len : Nat}
    (hc : escapedNameLength c ≤ len + 1) (h : cp + len + 1 ≤ buf.length) :
    ∃ buf', putListed buf cp c len = .ok (buf', cp + len + 1) ∧ buf'.length = buf.length := by
  obtain ⟨b₁, h₁, hl₁⟩ : ∃ b₁, memcpy buf cp (escapeName c) = .ok b₁ ∧
      b₁.length = buf.length :=
    memcpy_ok (by rw [length_escapeName]; omega)
  obtain ⟨b₂, h₂, hl₂⟩ := store_ok (b := b₁) (i := cp + len)
    fileListSeparator (by omega)
  refine ⟨b₂, ?_, hl₂.trans hl₁⟩
  rw [putListed, copyEscapedName_eq _ _ (by omega), h₁]
  simp [h₂]

/-- The last separator, or the first byte of an empty list, becomes the terminator. -/
theorem killLastSpace_ok (buf : List Char) (cp : Nat) (h : cp ≤ buf.length)
    (hpos : 0 < buf.length) :
    ∃ buf', killLastSpace buf cp = .ok buf' ∧ buf'.length = buf.length :=
  store_ok nul (by split <;> omega)

@[simp] theorem length_grow (buf : List Char) (len : Nat) (junk : Nat → Char) :
    (grow buf len junk).length = max buf.length len := by
  unfold grow
  split <;> rename_i h
  · simp only [List.length_append, length_alloc]
    rw [max_eq_right h.le]
    omega
  · exact (max_eq_left (Nat.le_of_not_lt h)).symm

theorem le_length_grow (buf : List Char) (len : Nat) (junk : Nat → Char) :
    len ≤ (grow buf len junk).length := by
  rw [length_grow]; exact le_max_right _ _

/-! ## The room of a list -/

/-- A normal prerequisite of the lists. -/
def Dep.normal (d : Dep) : Bool := !d.ignoreMtime && !d.skipped

/-- An order-only prerequisite of the lists. -/
def Dep.orderOnly (d : Dep) : Bool := d.ignoreMtime && !d.skipped

/-- A prerequisite `$?` takes, with `always_make_flag` set to `amf`. -/
def Dep.newer (amf : Bool) (d : Dep) : Bool := d.normal && (d.changed || amf)

/-- A normal prerequisite `$?` leaves out. -/
def Dep.older (amf : Bool) (d : Dep) : Bool := d.normal && !(d.changed || amf)

/-- The room the prerequisites that satisfy `p` take in a list: `len` and a separator
    each. -/
def room (p : Dep → Bool) : List Dep → Nat
  | [] => 0
  | d :: deps => (if p d then listedLength d.name + 1 else 0) + room p deps

@[simp] theorem room_nil (p : Dep → Bool) : room p [] = 0 := rfl

@[simp] theorem room_cons (p : Dep → Bool) (d : Dep) (deps : List Dep) :
    room p (d :: deps) = (if p d then listedLength d.name + 1 else 0) + room p deps := rfl

/-- `$?` takes the normal prerequisites that changed, and leaves the others. -/
theorem room_newer_add_older (amf : Bool) (deps : List Dep) :
    room (Dep.newer amf) deps + room (Dep.older amf) deps = room Dep.normal deps := by
  induction deps with
  | nil => rfl
  | cons d deps ih =>
    simp only [room_cons, Dep.newer, Dep.older, ← ih]
    by_cases hn : d.normal = true <;> by_cases hc : (d.changed || amf) = true <;>
      simp [hn, hc] <;> omega

/-- The counting loop of lines 224-233, from the counts `s` and `o`. -/
theorem listLengths_foldl (deps : List Dep) : ∀ s o : Nat,
    s + room Dep.normal deps ≤ (deps.foldl (fun (s, o) d =>
      if !d.need2ndExpansion && !d.ignoreAutomaticVars then
        if d.ignoreMtime then (s, o + escapedNameLength d.name + 1)
        else (s + escapedNameLength d.name + 1, o)
      else (s, o)) (s, o)).1 ∧
    o + room Dep.orderOnly deps ≤ (deps.foldl (fun (s, o) d =>
      if !d.need2ndExpansion && !d.ignoreAutomaticVars then
        if d.ignoreMtime then (s, o + escapedNameLength d.name + 1)
        else (s + escapedNameLength d.name + 1, o)
      else (s, o)) (s, o)).2 := by
  induction deps with
  | nil => simp
  | cons d deps ih =>
    intro s o
    have hle := listedLength_le d.name
    simp only [List.foldl_cons, room_cons, Dep.normal, Dep.orderOnly, Dep.skipped, Bool.not_or]
    cases hn : d.need2ndExpansion <;> cases ha : d.ignoreAutomaticVars <;>
      cases hm : d.ignoreMtime <;> simp only [Bool.not_false, Bool.not_true, Bool.and_false,
        Bool.and_true, Bool.false_and, Bool.true_and, Bool.false_eq_true, if_true, if_false,
        Nat.zero_add] <;>
      first
      | exact ⟨(ih _ _).1.trans' (by omega), (ih _ _).2⟩
      | exact ⟨(ih _ _).1, (ih _ _).2.trans' (by omega)⟩

/-- `sourcesdup_len` and `orderonly_len` leave room for the normal and for the order-only
    prerequisites, and are not 0. -/
theorem listLengths_room (deps : List Dep) :
    room Dep.normal deps ≤ (listLengths deps).1 ∧ 0 < (listLengths deps).1 ∧
      room Dep.orderOnly deps ≤ (listLengths deps).2 ∧ 0 < (listLengths deps).2 := by
  obtain ⟨h₁, h₂⟩ := listLengths_foldl deps 0 0
  simp only [Nat.zero_add] at h₁ h₂
  simp only [listLengths]
  split_ifs <;> omega

/-! ## `$+` -/

section Plus

variable (amf : Bool)

/-- `$+` fills its room from `cp`, and `newsources_len` loses the room of each normal
    prerequisite that did not change. -/
theorem plusLoop_room : ∀ (deps : List Dep) (buf : List Char) (cp ns : Nat),
    cp + room Dep.normal deps ≤ buf.length →
    (∃ buf', plusLoop amf deps buf cp ns =
        .ok (buf', cp + room Dep.normal deps, ns - room (Dep.older amf) deps) ∧
      buf'.length = buf.length) ∨ plusLoop amf deps buf cp ns = .error .fatal
  | [], buf, cp, ns, _ => .inl ⟨buf, rfl, rfl⟩
  | d :: deps, buf, cp, ns, h => by
    have hcond : (!d.ignoreMtime && !d.need2ndExpansion && !d.ignoreAutomaticVars) = d.normal := by
      simp [Dep.normal, Dep.skipped, Bool.and_assoc]
    have holder : Dep.older amf d = (d.normal && !(d.changed || amf)) := rfl
    rw [room_cons] at h
    rw [room_cons, room_cons, holder, plusLoop, hcond]
    cases hn : d.normal
    · -- a prerequisite `$+` leaves out
      simp only [hn, Bool.false_and, Bool.false_eq_true, if_false, Nat.zero_add] at h ⊢
      exact plusLoop_room deps buf cp ns h
    · -- a normal prerequisite: its name, then the rest
      simp only [hn, Bool.true_and, if_true] at h ⊢
      rcases listedName_spec d.name with ⟨c, hc, hlen⟩ | hc
      · obtain ⟨buf₁, hput, hl₁⟩ := putListed_ok buf cp hlen (by omega)
        rw [hc, ok_bind]
        simp only [hput, ok_bind]
        cases d.changed || amf <;>
          simp only [Bool.not_false, Bool.not_true, if_true, if_false, Bool.false_eq_true,
            Nat.zero_add] <;>
          rcases plusLoop_room deps buf₁ (cp + listedLength d.name + 1) _ (by omega) with
            ⟨buf', hrest, hl'⟩ | hrest
        all_goals first
          | exact .inr hrest
          | exact .inl ⟨buf', by rw [hrest]; simp only [Nat.sub_sub, Nat.add_assoc],
            hl'.trans hl₁⟩
      · rw [hc]
        exact .inr rfl

end Plus

/-! ## `$^`, `$?` and `$|` -/

/-- What the loop of lines 342-372 keeps true: each cursor leaves room, in its buffer, for what
    the prerequisites `deps` may still write there. -/
structure ListCursor.Room (amf : Bool) (deps : List Dep) (k : ListCursor) : Prop where
  sources : k.cp + room Dep.normal deps ≤ k.sources.length
  newsources : k.qp + room (Dep.newer amf) deps ≤ k.newsources.length
  orderonly : k.bp + room Dep.orderOnly deps ≤ k.orderonly.length

/-- The three buffers of `k'` are as long as those of `k`. -/
def ListCursor.SameLengths (k k' : ListCursor) : Prop :=
  k'.sources.length = k.sources.length ∧ k'.newsources.length = k.newsources.length ∧
    k'.orderonly.length = k.orderonly.length

theorem ListCursor.Room.tail {amf : Bool} {d : Dep} {deps : List Dep} {k : ListCursor}
    (h : k.Room amf (d :: deps)) : k.Room amf deps where
  sources := by have := h.sources; simp only [room_cons] at this; omega
  newsources := by have := h.newsources; simp only [room_cons] at this; omega
  orderonly := by have := h.orderonly; simp only [room_cons] at this; omega

section List

variable (amf : Bool) (table : List (List Char × Nat))

/-- `$^`, `$?` and `$|` stay inside their buffers while each cursor has the room its flags ask
    for: the loop ends with each cursor inside its buffer, or on a malformed archive member. -/
theorem listLoop_room : ∀ (i : Nat) (deps : List Dep) (k : ListCursor), k.Room amf deps →
    (∃ k', listLoop amf table i deps k = .ok k' ∧ k'.Room amf [] ∧ k.SameLengths k') ∨
      listLoop amf table i deps k = .error .fatal
  | _, [], k, h => .inl ⟨k, rfl, h, rfl, rfl, rfl⟩
  | i, d :: deps, k, h => by
    by_cases hskip : (d.skipped || table.lookup d.name != some i) = true
    · -- a prerequisite the lists leave out
      rw [listLoop, if_pos hskip]
      exact listLoop_room (i + 1) deps k h.tail
    rw [listLoop, if_neg hskip]
    have hs : d.skipped = false := by simp_all
    have hs' := h.sources
    have hn' := h.newsources
    have ho' := h.orderonly
    simp only [room_cons, Dep.normal, Dep.newer, Dep.orderOnly, hs, Bool.not_false,
      Bool.and_true] at hs' hn' ho'
    rcases listedName_spec d.name with ⟨c, hc, hlen⟩ | hc
    swap
    · rw [hc]
      exact .inr rfl
    rw [hc, ok_bind]
    dsimp only
    cases hm : d.ignoreMtime
    · -- a normal prerequisite: `$^`, and `$?` when it changed
      simp only [hm, Bool.not_false, if_true, Bool.true_and, Bool.false_eq_true,
        if_false, Nat.zero_add] at hs' hn' ho' ⊢
      obtain ⟨src, hput, hl⟩ := putListed_ok k.sources k.cp hlen (by omega)
      rw [hput, ok_bind]
      dsimp only
      cases hch : d.changed || amf
      · simp only [hch, Bool.false_eq_true, if_false, Nat.zero_add] at hn' ⊢
        rcases listLoop_room (i + 1) deps
            ⟨src, k.cp + listedLength d.name + 1, k.newsources, k.qp, k.orderonly, k.bp⟩
            ⟨by simp only; omega, hn', ho'⟩ with ⟨k', h', hr, hk⟩ | h'
        · exact .inl ⟨k', h', hr, hk.1.trans hl, hk.2⟩
        · exact .inr h'
      · simp only [hch, if_true] at hn' ⊢
        obtain ⟨nsrc, hput', hl'⟩ := putListed_ok k.newsources k.qp hlen
          (by omega)
        rw [hput', ok_bind]
        rcases listLoop_room (i + 1) deps
            ⟨src, k.cp + listedLength d.name + 1, nsrc, k.qp + listedLength d.name + 1,
              k.orderonly, k.bp⟩
            ⟨by simp only; omega, by simp only; omega, ho'⟩ with ⟨k', h', hr, hk⟩ | h'
        · exact .inl ⟨k', h', hr, hk.1.trans hl, hk.2.1.trans hl', hk.2.2⟩
        · exact .inr h'
    · -- an order-only prerequisite: `$|`
      simp only [hm, Bool.not_true, Bool.false_and, Bool.false_eq_true, if_false, if_true,
        Nat.zero_add] at hs' hn' ho' ⊢
      obtain ⟨oo, hput, hl⟩ := putListed_ok k.orderonly k.bp hlen (by omega)
      rw [hput, ok_bind]
      rcases listLoop_room (i + 1) deps
          ⟨k.sources, k.cp, k.newsources, k.qp, oo, k.bp + listedLength d.name + 1⟩
          ⟨hs', hn', by simp only; omega⟩ with ⟨k', h', hr, hk⟩ | h'
      · exact .inl ⟨k', h', hr, hk.1, hk.2.1, hk.2.2.trans hl⟩
      · exact .inr h'

end List

/-! ## The loop removing repeats -/

theorem mem_of_lookup_eq_some {table : List (List Char × Nat)} {n : List Char} {j : Nat}
    (h : table.lookup n = some j) : (n, j) ∈ table := by
  induction table with
  | nil => cases h
  | cons e table ih =>
    obtain ⟨m, k⟩ := e
    rw [List.lookup_cons] at h
    split at h
    · rename_i hnm
      cases h
      rw [beq_iff_eq.1 hnm]
      exact List.mem_cons_self _ _
    · exact List.mem_cons_of_mem _ (ih h)

/-- The table of the loop removing repeats names prerequisites the lists take, each at the
    index the table gives. -/
def TableOk (deps : List Dep) (table : List (List Char × Nat)) : Prop :=
  ∀ n j, (n, j) ∈ table → ∃ hd, deps[j]? = some hd ∧ hd.name = n ∧ hd.skipped = false

section Dedup

variable {deps : List Dep}
  (hmix : ∀ d ∈ deps, ∀ d' ∈ deps, d.skipped = false → d'.skipped = false →
    d.name = d'.name →
    d.ignoreMtime = d'.ignoreMtime)
include hmix

/-- When no name is both order-only and normal, a turn of the loop changes no flag. -/
theorem dedupStep_agree {table : List (List Char × Nat)} (ht : TableOk deps table) (i : Nat) :
    ∃ table', dedupStep (deps, table) i = (deps, table') ∧ TableOk deps table' := by
  unfold dedupStep
  dsimp only
  cases hi : deps[i]? with
  | none => exact ⟨table, rfl, ht⟩
  | some d =>
    dsimp only
    cases hs : d.skipped
    · cases hl : table.lookup d.name with
      | none =>
        refine ⟨_, rfl, fun n j hm => ?_⟩
        rcases List.mem_append.1 hm with hm | hm
        · exact ht n j hm
        · obtain ⟨rfl, rfl⟩ := Prod.mk.inj (List.mem_singleton.1 hm)
          exact ⟨d, hi, rfl, hs⟩
      | some j =>
        obtain ⟨hd, hj, hname, hs'⟩ := ht _ _ (mem_of_lookup_eq_some hl)
        have hm := hmix d (List.getElem?_mem hi) hd (List.getElem?_mem hj) hs hs'
          hname.symm
        simp only [Bool.false_eq_true, if_false, hj, hm, bne_self_eq_false]
        exact ⟨table, rfl, ht⟩
    · exact ⟨table, by simp, ht⟩

/-- When no name is both order-only and normal, the loop removing repeats changes no flag. -/
theorem dedup_agree : (dedup deps).1 = deps := by
  suffices ∀ (is : List Nat) (table : List (List Char × Nat)), TableOk deps table →
      (is.foldl dedupStep (deps, table)).1 = deps from this _ [] fun _ _ h => absurd h (by simp)
  intro is
  induction is with
  | nil => exact fun _ _ => rfl
  | cons i is ih =>
    intro table ht
    obtain ⟨table', h, ht'⟩ := dedupStep_agree hmix ht i
    rw [List.foldl_cons, h]
    exact ih table' ht'

end Dedup

/-! ## The lists -/

/-- When no name is listed both as order-only and as normal, `set_file_variables` writes `$+`,
    `$^`, `$?` and `$|` inside their buffers, whatever they held and however long they were:
    only a malformed archive member name stops it. -/
theorem prereqLists_in_bounds (junk : Nat → Char) (amf : Bool) (deps : List Dep) (s : Statics)
    (hmix : ∀ d ∈ deps, ∀ d' ∈ deps, d.skipped = false → d'.skipped = false →
      d.name = d'.name → d.ignoreMtime = d'.ignoreMtime) :
    (∃ r, prereqLists junk amf deps s = .ok r) ∨
    prereqLists junk amf deps s = .error .fatal := by
  obtain ⟨h₁, h₂, h₃, h₄⟩ := listLengths_room deps
  have hsplit := room_newer_add_older amf deps
  have hdedup : dedup deps = (deps, (dedup deps).2) := Prod.ext (dedup_agree hmix) rfl
  rcases hL : listLengths deps with ⟨sd, oo⟩
  rw [hL] at h₁ h₂ h₃ h₄
  dsimp only at h₁ h₂ h₃ h₄
  rcases plusLoop_room amf deps (grow s.sourcesdup sd junk) 0 (sd + 1) (by simp; omega) with
    ⟨buf, hplus, hl⟩ | hplus
  swap
  · right
    simp only [prereqLists, hL, hplus]
    rfl
  have hsrc : sd ≤ buf.length := hl ▸ le_length_grow s.sourcesdup sd junk
  obtain ⟨buf₁, hkill, hl₁⟩ := killLastSpace_ok buf (0 + room Dep.normal deps)
    (by omega) (by omega)
  have hns := le_length_grow s.newsources (sd + 1 - room (Dep.older amf) deps) junk
  have hoo := le_length_grow s.orderonly oo junk
  rcases listLoop_room amf (dedup deps).2 0 deps
      ⟨buf₁, 0, grow s.newsources (sd + 1 - room (Dep.older amf) deps) junk, 0,
        grow s.orderonly oo junk, 0⟩ ⟨by simp only; omega, by simp only; omega,
        by simp only; omega⟩ with ⟨k, hloop, hr, hk₁, hk₂, hk₃⟩ | hloop
  swap
  · right
    simp only [prereqLists, hL, hplus, ok_bind, hkill]
    rw [hdedup]
    simp only [hloop]
    rfl
  -- the three terminators
  obtain ⟨b₁, hb₁, -⟩ := killLastSpace_ok k.sources k.cp (by simpa using hr.sources)
    (by simp only at hk₁; omega)
  obtain ⟨b₂, hb₂, -⟩ := killLastSpace_ok k.newsources k.qp (by simpa using hr.newsources)
    (by simp only at hk₂; omega)
  obtain ⟨b₃, hb₃, -⟩ := killLastSpace_ok k.orderonly k.bp (by simpa using hr.orderonly)
    (by simp only at hk₃; omega)
  left
  simp only [prereqLists, hL, hplus, ok_bind, hkill]
  rw [hdedup]
  simp only [hloop, ok_bind, hb₁, hb₂, hb₃]
  exact ⟨_, rfl⟩

/-- The prerequisites `a\ b lib(m.o) a\ b | c`, with `a\ b` changed and `c` too. -/
def libMemberDeps : List Dep :=
  [⟨"a b".toList, false, false, false, true⟩,
    ⟨"lib(m.o)".toList, false, false, false, false⟩,
    ⟨"a b".toList, false, false, false, false⟩, ⟨"c".toList, true, false, false, true⟩]

theorem prereqLists_lib_member :
    (∃ r, prereqLists (fun _ => ' ') false libMemberDeps ⟨[], [], []⟩ = .ok r) ∨
      prereqLists (fun _ => ' ') false libMemberDeps ⟨[], [], []⟩ = .error .fatal :=
  prereqLists_in_bounds _ _ _ _ (by decide)

end MakePlus
