import Mathlib.Data.List.Basic

/-!
# C strings and scratch buffers

The C code of the repository works on NUL-terminated strings and on scratch buffers that it
fills with `memcpy` and single-byte stores (`alloca` in `selective_vpath_search`, the static
buffers of `set_file_variables`). A string is the list of its characters before the NUL; a
buffer is the list of its allocated bytes. A store past the allocation is a `Fault`, and so are
a failed `assert` and a fatal error: the modelled functions compute in `Except Fault`.

The bytes `alloca` hands back are whatever the stack held: a buffer starts as `alloc n junk`,
with `junk` an arbitrary function of the offset, and the results about buffers hold for every
`junk`. Loads are total inside the allocation, so a run never stops on a value it reads; a C
string read from a buffer (`cstr`) ends at its first NUL, or at the end of the allocation.

* `memcpy_append`: a copy right after the written part of a buffer extends that part;
* `cstr_append_nul`: a string read back from a buffer stops at the NUL stored after it;
* `strneq_getD_iff`: for C strings, `strncmp` on `n` bytes and a terminator at `n` say that one
  string is the first `n` bytes of the other.
-/

namespace MakePlus

/-- Results of the modelled C code can be compared, so that a run can be decided. -/
instance instDecidableEqExcept {ε α : Type} [DecidableEq ε] [DecidableEq α] :
    DecidableEq (Except ε α)
  | .error a, .error b => decidable_of_iff (a = b) (by simp)
  | .ok a, .ok b => decidable_of_iff (a = b) (by simp)
  | .error _, .ok _ => isFalse (by simp)
  | .ok _, .error _ => isFalse (by simp)

/-- The NUL character that terminates a C string. -/
def nul : Char := '\x00'

/-- Modelled from the spec: `ISBLANK`, the blanks of the search-path syntax (the `MAP_BLANK`
    class of makeint.h): a space or a tab. -/
def isBlank (c : Char) : Bool := c == ' ' || c == '\t'

@[simp] theorem isBlank_nul : isBlank nul = false := by decide

/-- What makes a run of the modelled C code go wrong. -/
inductive Fault
  /-- A store outside the allocated bytes of a buffer. -/
  | writeOutOfBounds
  /-- A load outside the allocated bytes of a buffer. -/
  | readOutOfBounds
  /-- A failed `assert`, by its line in the source. -/
  | assertion (line : Nat)
  /-- A fatal error: make stops with a message. -/
  | fatal
  /-- A `free` of a pointer that `malloc` did not return. -/
  | invalidFree
  deriving DecidableEq, Repr

/-- `assert (c)` at line `line`. -/
def assert (c : Bool) (line : Nat) : Except Fault Unit :=
  if c then .ok () else .error (.assertion line)

@[simp] theorem assert_true (line : Nat) : assert true line = .ok () := rfl

@[simp] theorem assert_false (line : Nat) : assert false line = .error (.assertion line) := rfl

@[simp] theorem pure_eq_ok {α : Type} (a : α) : (pure a : Except Fault α) = .ok a := rfl

@[simp] theorem ok_bind {α β : Type} (a : α) (f : α → Except Fault β) :
    (Except.ok a >>= f) = f a := rfl

@[simp] theorem error_bind {α β : Type} (e : Fault) (f : α → Except Fault β) :
    (Except.error e >>= f) = .error e := rfl

theorem bind_eq_ok {α β : Type} {x : Except Fault α} {f : α → Except Fault β} {b : β} :
    x >>= f = .ok b ↔ ∃ a, x = .ok a ∧ f a = .ok b := by
  cases x <;> simp [bind, Except.bind]

/-! ## Buffers -/

/-- A buffer of `n` bytes from `alloca` or `xmalloc`, holding whatever `junk` says. -/
def alloc (n : Nat) (junk : Nat → Char) : List Char := (List.range n).map junk

@[simp] theorem length_alloc (n : Nat) (junk : Nat → Char) : (alloc n junk).length = n := by
  simp [alloc]

/-- `memcpy (b + off, src, n)` with `src` the `n` bytes copied. -/
def memcpy (b : List Char) (off : Nat) (src : List Char) : Except Fault (List Char) :=
  if off + src.length ≤ b.length then .ok (b.take off ++ src ++ b.drop (off + src.length))
  else .error .writeOutOfBounds

/-- `b[i] = c`. -/
def store (b : List Char) (i : Nat) (c : Char) : Except Fault (List Char) := memcpy b i [c]

/-- `memmove (b + dst, b + src, n)`: the `n` bytes at `src` copied to `dst`, the two regions
    possibly overlapping. -/
def memmove (b : List Char) (dst src n : Nat) : Except Fault (List Char) :=
  if src + n ≤ b.length then memcpy b dst ((b.drop src).take n) else .error .readOutOfBounds

/-- The load `b[i]`. -/
def load (b : List Char) (i : Nat) : Except Fault Char :=
  match b.get? i with
  | some c => .ok c
  | none => .error .readOutOfBounds

/-- The C string at the start of `b`: its bytes up to the first NUL. -/
def cstr (b : List Char) : List Char := b.takeWhile (· != nul)

/-- `strchr (s, c)`: the offset of the first `c` in the C string `s`. -/
def strchr (s : List Char) (c : Char) : Option Nat := s.findIdx? (· == c)

theorem strchr_lt {s : List Char} {c : Char} {k : Nat} (h : strchr s c = some k) :
    k < s.length :=
  (List.findIdx?_eq_some_iff_getElem.mp h).1

theorem getElem?_of_strchr {s : List Char} {c : Char} {k : Nat} (h : strchr s c = some k) :
    s[k]? = some c ∧ ∀ j < k, s[j]? ≠ some c := by
  obtain ⟨hk, hc, hj⟩ := List.findIdx?_eq_some_iff_getElem.mp h
  refine ⟨by simpa [List.getElem?_eq_getElem hk] using hc, fun j hjk => ?_⟩
  rw [List.getElem?_eq_getElem (by omega)]
  simpa using hj j hjk

theorem getElem?_of_strchr_eq_none {s : List Char} {c : Char} (h : strchr s c = none) (j : Nat) :
    s[j]? ≠ some c := fun hj => by
  simpa using List.findIdx?_eq_none_iff.mp h _ (List.getElem?_mem hj)

theorem memcpy_of_le {b src : List Char} {off : Nat} (h : off + src.length ≤ b.length) :
    memcpy b off src = .ok (b.take off ++ src ++ b.drop (off + src.length)) := by
  simp [memcpy, h]

theorem memcpy_eq_error {b src : List Char} {off : Nat} :
    memcpy b off src = .error .writeOutOfBounds ↔ b.length < off + src.length := by
  unfold memcpy; split <;> simp_all

/-- A copy right after the written part `w` of a buffer extends it. -/
theorem memcpy_append {w r s : List Char} (h : s.length ≤ r.length) :
    memcpy (w ++ r) w.length s = .ok (w ++ s ++ r.drop s.length) := by
  rw [memcpy_of_le (by simp; omega)]
  simp [List.drop_append_eq_append_drop]

theorem store_append {w r : List Char} {x c : Char} :
    store (w ++ x :: r) w.length c = .ok (w ++ c :: r) := by
  simp [store, memcpy_append]

theorem length_of_memcpy {b b' src : List Char} {off : Nat} (h : memcpy b off src = .ok b') :
    b'.length = b.length := by
  unfold memcpy at h
  split at h
  · cases h; simp; omega
  · cases h

theorem lt_of_store_eq_ok {b b' : List Char} {i : Nat} {c : Char} (h : store b i c = .ok b') :
    i < b.length ∧ b'.length = b.length := by
  refine ⟨?_, length_of_memcpy h⟩
  by_contra hi
  rw [store, memcpy_eq_error.2 (by simp; omega)] at h
  cases h

/-- What a copy that stays inside the buffer leaves in it. -/
theorem eq_of_memcpy_eq_ok {b b' src : List Char} {off : Nat} (h : memcpy b off src = .ok b') :
    off + src.length ≤ b.length ∧ b' = b.take off ++ src ++ b.drop (off + src.length) := by
  unfold memcpy at h
  split at h
  · cases h; exact ⟨by assumption, rfl⟩
  · cases h

theorem eq_of_store_eq_ok {b b' : List Char} {i : Nat} {c : Char} (h : store b i c = .ok b') :
    i < b.length ∧ b' = b.take i ++ c :: b.drop (i + 1) := by
  obtain ⟨hle, rfl⟩ := eq_of_memcpy_eq_ok h
  exact ⟨by simpa using hle, by simp⟩

/-- A copy is a store of its first byte and a copy of the rest. -/
theorem memcpy_cons (b : List Char) (off : Nat) (c : Char) (s : List Char) :
    memcpy b off (c :: s) = store b off c >>= fun b => memcpy b (off + 1) s := by
  by_cases h : off + 1 + s.length ≤ b.length
  · obtain ⟨w, r, rfl, hw⟩ : ∃ w r, b = w ++ r ∧ w.length = off :=
      ⟨b.take off, b.drop off, (List.take_append_drop off b).symm, by simp; omega⟩
    subst hw
    obtain ⟨x, r', rfl⟩ := List.exists_cons_of_ne_nil
      (show r ≠ [] from List.ne_nil_of_length_pos (by simp at h; omega))
    have h₁ := memcpy_append (w := w ++ [c]) (r := r') (s := s) (by simp at h; omega)
    simp only [List.length_append, List.length_singleton, List.append_assoc,
      List.singleton_append] at h₁
    rw [memcpy_append (by simp at h ⊢; omega), store_append, ok_bind, h₁]
    simp
  · rw [memcpy_eq_error.2 (by simp; omega)]
    by_cases h₂ : off < b.length
    · obtain ⟨b', hb'⟩ : ∃ b', store b off c = .ok b' :=
        ⟨_, memcpy_of_le (by simp; omega)⟩
      have := length_of_memcpy hb'
      rw [hb', ok_bind, memcpy_eq_error.2 (by omega)]
    · rw [show store b off c = .error .writeOutOfBounds from memcpy_eq_error.2 (by simp; omega)]
      rfl

theorem load_append_cons {w r : List Char} {c : Char} : load (w ++ c :: r) w.length = .ok c := by
  simp [load, List.getElem?_append_right (Nat.le_refl _)]

/-- `strcpy` into a buffer allocated for the string and its NUL. -/
theorem strcpy_alloc (s : List Char) (c : Char) (junk : Nat → Char) :
    memcpy (alloc (s.length + 1) junk) 0 (s ++ [c]) = .ok (s ++ [c]) := by
  rw [memcpy_of_le (by simp)]
  simp

theorem cstr_of_nul_not_mem {w : List Char} (h : nul ∉ w) : cstr w = w :=
  List.takeWhile_eq_self_iff.2 fun c hc => by simpa using ne_of_mem_of_not_mem hc h

theorem cstr_append_nul {w r : List Char} (h : nul ∉ w) : cstr (w ++ nul :: r) = w := by
  induction w with
  | nil => simp [cstr]
  | cons c w ih =>
    simp only [List.mem_cons, not_or] at h
    rw [List.cons_append, cstr, List.takeWhile_cons_of_pos (by simpa using Ne.symm h.1)]
    exact congrArg (c :: ·) (ih h.2)

theorem cstr_prefix_self (b : List Char) : cstr b <+: b := List.takeWhile_prefix _

theorem nul_not_mem_cstr (b : List Char) : nul ∉ cstr b := fun h => by
  simpa using List.mem_takeWhile_imp h

/-- `strlen (s)` for the C string at the start of the buffer `b`: the offset of its NUL; a buffer
    without one is read past its end. -/
def strlen (b : List Char) : Except Fault Nat :=
  match strchr b nul with
  | some n => .ok n
  | none => .error .readOutOfBounds

/-- `strcat (b, s)`: `s` and its NUL copied over the NUL that ends the C string in `b`. -/
def strcat (b s : List Char) : Except Fault (List Char) := do
  let n ← strlen b
  memcpy b n (s ++ [nul])

theorem strchr_append_cons {w r : List Char} {c : Char} (h : c ∉ w) :
    strchr (w ++ c :: r) c = some w.length := by
  rw [strchr, List.findIdx?_append,
    List.findIdx?_eq_none_iff.2 fun x hx => by simpa using ne_of_mem_of_not_mem hx h]
  simp [List.findIdx?_cons]

theorem strlen_append {w r : List Char} (h : nul ∉ w) :
    strlen (w ++ nul :: r) = .ok w.length := by
  rw [strlen, strchr_append_cons h]

/-- `strcat` onto the C string `w` of a buffer with room for `s` after its NUL. -/
theorem strcat_append {w r s : List Char} (h : nul ∉ w) (hs : s.length ≤ r.length) :
    strcat (w ++ nul :: r) s = .ok (w ++ s ++ nul :: r.drop s.length) := by
  rw [strcat, strlen_append h, ok_bind, memcpy_append (by simpa using hs)]
  simp

/-! ## Escaped spaces -/

/-- A name with a backslash before each of its spaces: the bytes `copy_escaped_name` writes for
    it, and the canonical writing of one entry of a search path. -/
def escapeName (name : List Char) : List Char :=
  name.flatMap fun c => if c = ' ' then ['\\', ' '] else [c]

/-- The `isescaped` of the scanning loops after reading `s`, starting from `isescaped`: a
    backslash flips it and any other character clears it, so it says whether `s` ends in an odd
    run of backslashes (counting the run before it when `s` is all backslashes). -/
def escapeAfter (isescaped : Bool) (s : List Char) : Bool :=
  s.foldl (fun e c => if c = '\\' then !e else false) isescaped

@[simp] theorem escapeAfter_nil (isescaped : Bool) : escapeAfter isescaped [] = isescaped := rfl

@[simp] theorem escapeAfter_cons (isescaped : Bool) (c : Char) (s : List Char) :
    escapeAfter isescaped (c :: s) =
      escapeAfter (if c = '\\' then !isescaped else false) s := rfl

theorem escapeAfter_append (isescaped : Bool) (s t : List Char) :
    escapeAfter isescaped (s ++ t) = escapeAfter (escapeAfter isescaped s) t :=
  List.foldl_append _ _ _ _

@[simp] theorem escapeName_nil : escapeName [] = [] := rfl

theorem escapeName_cons (c : Char) (name : List Char) :
    escapeName (c :: name) = (if c = ' ' then ['\\', ' '] else [c]) ++ escapeName name :=
  List.flatMap_cons _ _ _

/-! ## Joining -/

theorem intercalate_cons_cons {α : Type} (sep x y : List α) (xs : List (List α)) :
    sep.intercalate (x :: y :: xs) = x ++ sep ++ sep.intercalate (y :: xs) := by
  simp [List.intercalate, List.intersperse]

@[simp] theorem intercalate_singleton {α : Type} (sep x : List α) : sep.intercalate [x] = x := by
  simp [List.intercalate]

/-! ## Comparisons -/

/-- `strneq (a, b, n)`, that is `strncmp (a, b, n) == 0`: the C strings `a` and `b` agree on their
    first `n` bytes, or up to a NUL they share. -/
def strneq : List Char → List Char → Nat → Bool
  | _, _, 0 => true
  | [], [], _ => true
  | [], b :: _, _ + 1 => b == nul
  | a :: _, [], _ + 1 => a == nul
  | a :: as, b :: bs, n + 1 => a == b && (a == nul || strneq as bs n)

/-- For C strings, `strneq` and the test of the terminator at `len` say that `gp` is the first
    `len` bytes of `file`. -/
theorem strneq_getD_iff {gp file : List Char} {len : Nat} (hgp : nul ∉ gp) (hf : nul ∉ file)
    (hlen : len ≤ file.length) :
    strneq gp file len = true ∧ gp.getD len nul = nul ↔ gp = file.take len := by
  induction len generalizing gp file with
  | zero =>
    cases gp with
    | nil => simp [strneq]
    | cons a as =>
      simp only [List.mem_cons, not_or] at hgp
      simp [strneq, Ne.symm hgp.1]
  | succ len ih =>
    obtain ⟨b, bs, rfl⟩ := List.exists_cons_of_length_pos (by omega : 0 < file.length)
    simp only [List.mem_cons, not_or] at hf
    cases gp with
    | nil => simp [strneq, Ne.symm hf.1]
    | cons a as =>
      simp only [List.mem_cons, not_or] at hgp
      have ih' := ih hgp.2 hf.2 (by simpa using hlen)
      simp only [List.getD_eq_getElem?_getD] at ih'
      simp only [strneq, Ne.symm hgp.1, List.getD_cons_succ, List.take_succ_cons, List.cons.injEq,
        Bool.and_eq_true, beq_iff_eq, false_or, and_assoc]
      exact and_congr_right fun _ => by simpa [Ne.symm hgp.1] using ih'

end MakePlus
