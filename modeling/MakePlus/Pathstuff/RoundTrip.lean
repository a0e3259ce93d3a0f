import Mathlib.Data.List.Infix
import MakePlus.Pathstuff

/-!
# The round trip through the Windows syntax

A canonical path list writes its entries separated by single spaces, with a backslash before
each space inside an entry (`escapeName`). `convert_Path_to_windows32` writes it the Windows
way, each entry with a space enclosed in double quotes (`windowsEntry`) and `;` between the
entries; `convert_vpath_from_windows32` reads that back. For a list in normal form, where no
entry starts or ends with a space or a backslash, none holds a tab, a quote or a `;`, and no
backslash stands before a space, the two are inverse:

* `toWindowsLoop_escapeName`: inside an entry, an escaped space is written as a space and asks
  for quotes, every other byte is copied;
* `convertLoop_windowsPathList`: reading the Windows list back escapes the spaces inside quotes
  and turns each `;` into a space, whether or not the dry run found a delimiter;
* `convertVpathFromWindows32_convertPathToWindows32`: the round trip gives back the list.
-/

namespace MakePlus

/-- An entry of a canonical path list in normal form. -/
structure NormalEntry (e : List Char) : Prop where
  ne_nil : e ≠ []
  head_ne_space : e.head? ≠ some ' '
  head_ne_backslash : e.head? ≠ some '\\'
  last_ne_space : e.getLast? ≠ some ' '
  last_ne_backslash : e.getLast? ≠ some '\\'
  tab_not_mem : '\t' ∉ e
  quote_not_mem : '"' ∉ e
  semicolon_not_mem : ';' ∉ e
  nul_not_mem : nul ∉ e
  no_backslash_space : ¬ ['\\', ' '] <:+: e

/-- The canonical path list of the entries `es`: each entry with its spaces escaped, and a single
    space between two entries. -/
def canonicalPathList (es : List (List Char)) : List Char := [' '].intercalate (es.map escapeName)

/-- An entry in the Windows syntax: enclosed in double quotes when it holds a space. -/
def windowsEntry (e : List Char) : List Char := if ' ' ∈ e then '"' :: (e ++ ['"']) else e

/-- The Windows path list of the entries `es`, separated by `;`. -/
def windowsPathList (es : List (List Char)) : List Char := [';'].intercalate (es.map windowsEntry)

/-! ## Facts about the entries -/

theorem escapeName_eq_self {e : List Char} (h : ' ' ∉ e) : escapeName e = e := by
  induction e with
  | nil => rfl
  | cons c e ih =>
    simp only [List.mem_cons, not_or] at h
    rw [escapeName_cons, if_neg (Ne.symm h.1), ih h.2]
    rfl

/-! ## Into the Windows syntax -/

/-- Inside an entry, an escaped space is written as a space and asks for quotes, and any other
    byte is copied: no backslash of the entry escapes the next byte. -/
theorem toWindowsLoop_escapeName (delim : Char) (mark : Nat) (e rest : List Char)
    (htab : '\t' ∉ e) (hquote : '"' ∉ e) (hnul : nul ∉ e) (hbs : ¬ ['\\', ' '] <:+: e)
    (hlast : e.getLast? = some '\\' → rest.head?.any isBlank = false) :
    ∀ (tgt : List Char) (enquote : Bool),
      toWindowsLoop delim tgt mark enquote false (escapeName e ++ rest) =
        toWindowsLoop delim (tgt ++ e) mark (enquote || decide (' ' ∈ e)) false rest := by
  induction e with
  | nil => simp
  | cons c e ih =>
    intro tgt enquote
    simp only [List.mem_cons, not_or] at htab hquote hnul
    have hbs' : ¬ ['\\', ' '] <:+: e := fun h => hbs (h.trans (List.suffix_cons c e).isInfix)
    have hlast' : e.getLast? = some '\\' → rest.head?.any isBlank = false := fun h =>
      hlast (by cases e with | nil => cases h | cons _ _ => simpa using h)
    have ih := ih htab.2 hquote.2 hnul.2 hbs' hlast'
    by_cases hsp : c = ' '
    · subst hsp
      simp only [escapeName_cons, if_pos, List.cons_append, List.nil_append]
      rw [toWindowsLoop, if_neg (by decide), if_pos (by simp [isBlank])]
      simp only [List.tail_cons, ih, List.append_assoc, List.singleton_append]
      simp
    · rw [escapeName_cons, if_neg hsp, List.singleton_append, List.cons_append, toWindowsLoop,
        if_neg (Ne.symm hnul.1)]
      have hblank : isBlank c = false := by simp [isBlank, hsp, Ne.symm htab.1]
      have hnext : c = '\\' → (escapeName e ++ rest).head?.any isBlank = false := by
        rintro rfl
        cases e with
        | nil => exact hlast rfl
        | cons d e =>
          have hd : d ≠ ' ' := fun hd => hbs ⟨[], e, by simp [hd]⟩
          simp only [List.mem_cons, not_or] at htab
          simp [escapeName_cons, hd, isBlank, Ne.symm htab.2.1]
      rw [if_neg (by cases hc : decide (c = '\\') <;> simp_all), if_neg (by simp [hblank]),
        if_neg (Ne.symm hquote.1), ih]
      simp [Ne.symm hsp]

theorem enquoteFrom_append (tgt e : List Char) :
    enquoteFrom (tgt ++ e) tgt.length = tgt ++ '"' :: (e ++ ['"']) := by
  simp [enquoteFrom]

/-- The quotes an entry gets once its end is known. -/
theorem enquote_windowsEntry (tgt e : List Char) :
    (if decide (' ' ∈ e) then enquoteFrom (tgt ++ e) tgt.length else tgt ++ e) =
      tgt ++ windowsEntry e := by
  by_cases h : ' ' ∈ e <;> simp [h, windowsEntry, enquoteFrom_append]

section Entry

variable {e : List Char} (he : NormalEntry e)
include he

theorem toWindowsLoop_entry (tgt rest : List Char) :
    toWindowsLoop ';' tgt tgt.length false false (escapeName e ++ ' ' :: rest) =
      toWindowsLoop ';' (tgt ++ windowsEntry e ++ [';'])
        (tgt ++ windowsEntry e ++ [';']).length false false rest := by
  rw [toWindowsLoop_escapeName ';' _ e _ he.tab_not_mem he.quote_not_mem he.nul_not_mem
    he.no_backslash_space (fun h => absurd h he.last_ne_backslash), toWindowsLoop,
    if_neg (by decide), if_neg (by simp), if_pos (by simp [isBlank])]
  simp only [Bool.false_or, enquote_windowsEntry, List.length_append, List.length_singleton]

theorem toWindowsLoop_last (tgt : List Char) :
    toWindowsLoop ';' tgt tgt.length false false (escapeName e) = tgt ++ windowsEntry e := by
  have := toWindowsLoop_escapeName ';' tgt.length e [] he.tab_not_mem he.quote_not_mem
    he.nul_not_mem he.no_backslash_space (fun _ => rfl) tgt false
  rw [List.append_nil] at this
  rw [this, toWindowsLoop, Bool.false_or, enquote_windowsEntry]

end Entry

theorem toWindowsLoop_canonicalPathList {es : List (List Char)}
    (hes : ∀ e ∈ es, NormalEntry e) :
    ∀ tgt : List Char, es ≠ [] →
      toWindowsLoop ';' tgt tgt.length false false (canonicalPathList es) =
        tgt ++ windowsPathList es := by
  induction es with
  | nil => intro _ h; exact absurd rfl h
  | cons e es ih =>
    intro tgt _
    have he := hes e (List.mem_cons_self _ _)
    cases es with
    | nil => simpa [canonicalPathList, windowsPathList] using toWindowsLoop_last he tgt
    | cons e' es =>
      have hrest := ih (fun x hx => hes x (List.mem_cons_of_mem _ hx))
      rw [canonicalPathList, List.map_cons, List.map_cons, intercalate_cons_cons,
        List.append_assoc, List.singleton_append, ← List.map_cons, ← canonicalPathList,
        toWindowsLoop_entry he, hrest _ (List.cons_ne_nil _ _)]
      simp [windowsPathList, intercalate_cons_cons]

/-- A canonical path list in normal form, written the Windows way: its entries, those with a
    space in double quotes, separated by `;`. -/
theorem convertPathToWindows32_canonicalPathList {es : List (List Char)} (hne : es ≠ [])
    (hes : ∀ e ∈ es, NormalEntry e) :
    convertPathToWindows32 (canonicalPathList es) ';' = some (windowsPathList es) := by
  obtain ⟨e, es', rfl⟩ := List.exists_cons_of_ne_nil hne
  have he := hes e (List.mem_cons_self _ _)
  obtain ⟨c, e', rfl⟩ := List.exists_cons_of_ne_nil he.ne_nil
  have hc : c ≠ ' ' := fun h => he.head_ne_space (by simp [h])
  have htab : c ≠ '\t' := fun h => he.tab_not_mem (by simp [h])
  have hnul : c ≠ nul := fun h => he.nul_not_mem (by simp [h])
  have hstart : ∃ s, canonicalPathList (((c :: e') :: es')) = c :: s := by
    cases es' <;> simp [canonicalPathList, escapeName_cons, hc, intercalate_cons_cons]
  obtain ⟨s, hs⟩ := hstart
  have hdrop : (canonicalPathList ((c :: e') :: es')).dropWhile isBlank =
      canonicalPathList ((c :: e') :: es') := by
    rw [hs, List.dropWhile_cons_of_neg (by simp [isBlank, hc, htab])]
  rw [convertPathToWindows32, hdrop]
  simp only [hs, if_neg hnul]
  rw [← hs]
  simpa using toWindowsLoop_canonicalPathList hes [] (List.cons_ne_nil _ _)

/-! ## Back to the canonical syntax -/

section Back

variable (delim : Char) (delimFound : Bool)

/-- Inside quotes, a space is escaped and every other byte copied, whether or not the dry run
    found a delimiter: the quotes alone ask for the escapes. -/
theorem convertLoop_quoted (e rest : List Char) (htab : '\t' ∉ e) (hquote : '"' ∉ e)
    (hnul : nul ∉ e) : ∀ tgt : List Char,
      convertLoop delim delimFound tgt true false false (e ++ rest) =
        convertLoop delim delimFound ((escapeName e).reverse ++ tgt) true false false rest := by
  induction e with
  | nil => simp
  | cons c e ih =>
    intro tgt
    simp only [List.mem_cons, not_or] at htab hquote hnul
    rw [List.cons_append, convertLoop, if_neg (Ne.symm hnul.1), if_neg (by simp),
      if_neg (Ne.symm hquote.1), escapeName_cons]
    by_cases hsp : c = ' '
    · subst hsp
      rw [if_pos (by simp [isBlank]), ih htab.2 hquote.2 hnul.2]
      simp
    · have hblank : isBlank c = false := by simp [isBlank, hsp, Ne.symm htab.1]
      rw [if_neg (by simp [hblank]), if_neg (by simp)]
      simp only [Bool.not_true, Bool.false_and, Bool.false_eq_true, if_false]
      rw [ih htab.2 hquote.2 hnul.2]
      simp [hsp]

/-- Outside quotes, an entry with no blank, quote or delimiter is copied, and `isescaped` follows
    its backslashes. -/
theorem convertLoop_plain (e rest : List Char) (hblank : ∀ c ∈ e, isBlank c = false)
    (hquote : '"' ∉ e) (hnul : nul ∉ e) (hdelim : delim ∉ e) :
    ∀ (tgt : List Char) (isescaped : Bool),
      convertLoop delim delimFound tgt false isescaped false (e ++ rest) =
        convertLoop delim delimFound (e.reverse ++ tgt) false (escapeAfter isescaped e) false
          rest := by
  induction e with
  | nil => simp
  | cons c e ih =>
    intro tgt isescaped
    simp only [List.mem_cons, not_or] at hquote hnul hdelim
    have hc := hblank c (List.mem_cons_self _ _)
    rw [List.cons_append, convertLoop, if_neg (Ne.symm hnul.1), if_neg (by simp),
      if_neg (Ne.symm hquote.1), if_neg (by simp [hc]), if_neg (by simp [Ne.symm hdelim.1]),
      ih (fun x hx => hblank x (List.mem_cons_of_mem _ hx)) hquote.2 hnul.2 hdelim.2]
    simp

/-- The skipping of blanks after a delimiter stops at once on a byte that is not blank. -/
theorem convertLoop_skipping {tgt : List Char} {instring isescaped : Bool} {c : Char}
    (src : List Char) (hc : isBlank c = false) :
    convertLoop delim delimFound tgt instring isescaped true (c :: src) =
      convertLoop delim delimFound tgt instring isescaped false (c :: src) := by
  simp [convertLoop, hc]

end Back

theorem escapeAfter_of_getLast? {e : List Char} (hne : e ≠ []) (h : e.getLast? ≠ some '\\')
    (isescaped : Bool) : escapeAfter isescaped e = false := by
  obtain ⟨e, c, rfl⟩ := List.eq_nil_or_concat e |>.resolve_left hne
  have hc : c ≠ '\\' := fun hc => h (by simp [hc])
  simp [escapeAfter_append, hc]

section Entry

variable {e : List Char} (he : NormalEntry e)
include he

theorem isBlank_of_mem {c : Char} (hc : c ∈ e) (hsp : ' ' ∉ e) : isBlank c = false := by
  have h1 : c ≠ ' ' := fun h => hsp (h ▸ hc)
  have h2 : c ≠ '\t' := fun h => he.tab_not_mem (h ▸ hc)
  simp [isBlank, h1, h2]

/-- What is written last for an entry is its last byte, which is not blank. -/
theorem dropWhile_reverse_escapeName (x : List Char) :
    ((escapeName e).reverse ++ x).dropWhile isBlank = (escapeName e).reverse ++ x := by
  obtain ⟨e', c, he'⟩ := List.eq_nil_or_concat e |>.resolve_left he.ne_nil
  rw [List.concat_eq_append] at he'
  subst he'
  have hsp : c ≠ ' ' := fun h => he.last_ne_space (by simp [h])
  have htab : c ≠ '\t' := fun h => he.tab_not_mem (by simp [h])
  rw [escapeName, List.flatMap_append, ← escapeName, ← escapeName]
  simp [escapeName_cons, hsp, htab, isBlank]

/-- The Windows form of an entry starts with a byte that is not blank and not NUL. -/
theorem windowsEntry_cons :
    ∃ c s, windowsEntry e = c :: s ∧ isBlank c = false ∧ c ≠ nul := by
  unfold windowsEntry
  split
  · exact ⟨_, _, rfl, by decide, by decide⟩
  · rename_i hsp
    obtain ⟨c, s, rfl⟩ := List.exists_cons_of_ne_nil he.ne_nil
    exact ⟨c, s, rfl, isBlank_of_mem he (List.mem_cons_self _ _) hsp,
      fun h => he.nul_not_mem (h ▸ List.mem_cons_self _ _)⟩

theorem convertLoop_entry (delimFound : Bool) (tgt rest : List Char) :
    convertLoop ';' delimFound tgt false false false (windowsEntry e ++ ';' :: rest) =
      convertLoop ';' delimFound (' ' :: ((escapeName e).reverse ++ tgt)) false false true
        rest := by
  have hsemi : convertLoop ';' delimFound ((escapeName e).reverse ++ tgt) false false false
      (';' :: rest) =
      convertLoop ';' delimFound (' ' :: ((escapeName e).reverse ++ tgt))
        false false true rest := by
    rw [convertLoop, if_neg (by decide), if_neg (by simp), if_neg (by decide),
      if_neg (by simp [isBlank]), if_pos (by decide), dropWhile_reverse_escapeName he]
    rfl
  unfold windowsEntry
  split
  · rw [List.cons_append, convertLoop, if_neg (by decide), if_neg (by simp), if_pos rfl,
      Bool.not_false, List.append_assoc, convertLoop_quoted _ _ _ _ he.tab_not_mem
        he.quote_not_mem he.nul_not_mem, List.singleton_append, convertLoop, if_neg (by decide),
      if_neg (by simp), if_pos rfl, Bool.not_true]
    exact hsemi
  · rename_i hsp
    rw [convertLoop_plain _ _ _ _ (fun c hc => isBlank_of_mem he hc hsp) he.quote_not_mem
      he.nul_not_mem he.semicolon_not_mem, escapeAfter_of_getLast? he.ne_nil
        he.last_ne_backslash]
    simpa only [escapeName_eq_self hsp] using hsemi

theorem convertLoop_last (delimFound : Bool) (tgt : List Char) :
    convertLoop ';' delimFound tgt false false false (windowsEntry e) =
      (escapeName e).reverse ++ tgt := by
  unfold windowsEntry
  split
  · rw [convertLoop, if_neg (by decide), if_neg (by simp), if_pos rfl, Bool.not_false,
      convertLoop_quoted _ _ _ _ he.tab_not_mem he.quote_not_mem he.nul_not_mem]
    simp [convertLoop]
  · rename_i hsp
    have := convertLoop_plain ';' delimFound e [] (fun c hc => isBlank_of_mem he hc hsp)
      he.quote_not_mem he.nul_not_mem he.semicolon_not_mem tgt false
    rw [List.append_nil] at this
    rw [this, escapeName_eq_self hsp]
    simp [convertLoop]

end Entry

/-- A Windows path list starts with a byte that is not blank and not NUL. -/
theorem windowsPathList_cons {e : List Char} (he : NormalEntry e) (es : List (List Char)) :
    ∃ c s, windowsPathList (e :: es) = c :: s ∧ isBlank c = false ∧ c ≠ nul := by
  obtain ⟨c, s, hcs, hc, hnul⟩ := windowsEntry_cons he
  refine ⟨c, s ++ (windowsPathList (e :: es)).drop (windowsEntry e).length, ?_, hc, hnul⟩
  cases es <;> simp [windowsPathList, intercalate_cons_cons, hcs]

/-- A canonical path list ends with its last entry. -/
theorem canonicalPathList_eq_append {es : List (List Char)} (hne : es ≠ []) :
    ∃ x, ∃ e ∈ es, canonicalPathList es = x ++ escapeName e := by
  induction es with
  | nil => exact absurd rfl hne
  | cons e es ih =>
    cases es with
    | nil => exact ⟨[], e, List.mem_cons_self _ _, by simp [canonicalPathList]⟩
    | cons e' es =>
      obtain ⟨x, l, hl, hx⟩ := ih (List.cons_ne_nil _ _)
      refine ⟨escapeName e ++ [' '] ++ x, l, List.mem_cons_of_mem _ hl, ?_⟩
      rw [canonicalPathList, List.map_cons, List.map_cons, intercalate_cons_cons,
        ← List.map_cons, ← canonicalPathList, hx]
      simp only [List.append_assoc]

theorem convertLoop_windowsPathList (delimFound : Bool) {es : List (List Char)}
    (hes : ∀ e ∈ es, NormalEntry e) : ∀ tgt : List Char, es ≠ [] →
      convertLoop ';' delimFound tgt false false false (windowsPathList es) =
        (canonicalPathList es).reverse ++ tgt := by
  induction es with
  | nil => intro _ h; exact absurd rfl h
  | cons e es ih =>
    intro tgt _
    have he := hes e (List.mem_cons_self _ _)
    cases es with
    | nil => simpa [canonicalPathList, windowsPathList] using convertLoop_last he delimFound tgt
    | cons e' es =>
      have he' := hes e' (List.mem_cons_of_mem _ (List.mem_cons_self _ _))
      have hrest := ih (fun x hx => hes x (List.mem_cons_of_mem _ hx))
      obtain ⟨c, s, hhead, hc, -⟩ := windowsPathList_cons he' es
      rw [windowsPathList, List.map_cons, List.map_cons, intercalate_cons_cons,
        List.append_assoc, List.singleton_append, convertLoop_entry he, ← List.map_cons,
        ← windowsPathList, hhead, convertLoop_skipping _ _ _ hc, ← hhead,
        hrest _ (List.cons_ne_nil _ _)]
      simp [canonicalPathList, intercalate_cons_cons]

/-- A canonical path list in normal form comes back unchanged from the Windows syntax. -/
theorem convertVpathFromWindows32_convertPathToWindows32 {es : List (List Char)} (hne : es ≠ [])
    (hes : ∀ e ∈ es, NormalEntry e) :
    (convertPathToWindows32 (canonicalPathList es) ';').bind (convertVpathFromWindows32 · ';') =
      some (canonicalPathList es) := by
  rw [convertPathToWindows32_canonicalPathList hne hes, Option.some_bind]
  obtain ⟨e, es', rfl⟩ := List.exists_cons_of_ne_nil hne
  obtain ⟨c, s, hhead, hc, hnul⟩ := windowsPathList_cons (hes e (List.mem_cons_self _ _)) es'
  obtain ⟨x, l, hl, hx⟩ := canonicalPathList_eq_append hne
  rw [convertVpathFromWindows32, hhead, List.dropWhile_cons_of_neg (by simp [hc])]
  simp only [if_neg hnul]
  rw [← hhead, convertLoop_windowsPathList _ hes [] hne, List.append_nil, hx,
    List.reverse_append, dropWhile_reverse_escapeName (hes l hl), ← List.reverse_append,
    List.reverse_reverse]

/-- The entries `a b` and `c`: the canonical list `a\ b c` is `"a b";c` on Windows. -/
theorem convertVpathFromWindows32_convertPathToWindows32_ab_c :
    ["a b".toList, "c".toList] ≠ [] ∧
      (∀ e ∈ ["a b".toList, "c".toList], NormalEntry e) ∧
      (convertPathToWindows32 (canonicalPathList ["a b".toList, "c".toList]) ';').bind
          (convertVpathFromWindows32 · ';') =
        some (canonicalPathList ["a b".toList, "c".toList]) :=
  have hes : ∀ e ∈ ["a b".toList, "c".toList], NormalEntry e := by
    simp only [List.mem_cons, List.mem_singleton, List.not_mem_nil, or_false, forall_eq_or_imp,
      forall_eq]
    exact ⟨⟨by decide, by decide, by decide, by decide, by decide, by decide, by decide,
        by decide, by decide, by decide⟩,
      ⟨by decide, by decide, by decide, by decide, by decide, by decide, by decide, by decide,
        by decide, by decide⟩⟩
  ⟨by decide, hes, convertVpathFromWindows32_convertPathToWindows32 (by decide) hes⟩

end MakePlus
