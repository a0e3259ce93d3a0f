import MakePlus.Commands.Variables

/-!
# Deleting the targets of an interrupted make

When make is killed (`SIGTERM`, `SIGINT`, `SIGHUP` or `SIGQUIT`), `fatal_error_signal`
(commands.c) passes the signal on to the children that would not get it, and calls
`delete_child_targets` for each child: unless the child's targets were deleted already, it calls
`delete_target` on the child's file and on each file of its `also_make` list, then marks the child.
`delete_target` leaves a precious or phony file alone, and an archive member too (it only says so
when the member's date is not the one make recorded); a file that `stat` finds regular and changed
since make last looked at it, it reports and unlinks.

The file system is a map from names to what `stat` finds there; the messages are events, each with
the text `error` or `perror_with_name` prints. The handler is modelled on a POSIX system, up to
`reap_children` and `remove_intermediates`, which are not in this file.

* `runFs_apply`: after a run of `delete_target` calls, a name is gone exactly when one of the calls
  is for a file, neither precious nor phony nor an archive member, that was there as a regular
  file changed since make looked at it, and that `unlink` may remove; every other name is as it
  was;
* `mem_runReported`, `mem_runReported_of_removed` and `count_runReported_le_one`: a run reports
  deleting only such files, reports every file it removes, and reports it once;
* `deleteChildrenTargets_spec`: the loop over the children is one such run over the targets of the
  children it does not skip, and a second loop does nothing;
* `fatalErrorSignal_spec`: for every signal, set of children and file system, what the handler
  sends and deletes.
-/

namespace MakePlus

/-! ## The model -/

/-- What `stat` finds under a name: whether it is a regular file (`S_ISREG`), its modification
    time as `FILE_TIMESTAMP_STAT_MODTIME` gives it, and whether `unlink` may remove it. -/
structure Inode where
  isReg : Bool
  mtime : Nat
  unlinkable : Bool
  deriving DecidableEq, Repr

/-- The file system: what is under each name. -/
abbrev Fs := List Char → Option Inode

/-- The `errno` of a failed `unlink`: `ENOENT` when nothing is under the name, and another one when
    what is there may not be removed. -/
inductive Errno
  | enoent
  | eacces
  deriving DecidableEq, Repr

/-- The file system less the name `name`. -/
def Fs.erase (fs : Fs) (name : List Char) : Fs := fun m => if m = name then none else fs m

@[simp] theorem Fs.erase_self (fs : Fs) (name : List Char) : fs.erase name name = none :=
  if_pos rfl

theorem Fs.erase_of_ne (fs : Fs) {name m : List Char} (h : m ≠ name) : fs.erase name m = fs m :=
  if_neg h

/-- `unlink (name)`. -/
def unlink (fs : Fs) (name : List Char) : Except Errno Fs :=
  match fs name with
  | none => .error .enoent
  | some i => if i.unlinkable then .ok (fs.erase name) else .error .eacces

/-- What `delete_target` reads of a `struct file`. -/
structure FileRec where
  name : List Char
  precious : Bool
  phony : Bool
  /-- `last_mtime`: the time make recorded when it last looked at the file. -/
  lastMtime : Nat
  deriving DecidableEq, Repr

/-- Modelled from the spec: `NONEXISTENT_MTIME` (filedef.h, not in src/), the `last_mtime` of a
    file make found missing. -/
def nonexistentMtime : Nat := 1

/-- What `delete_target` reports: the messages it gives `error`, and the call
    `perror_with_name ("unlink: ", name)` when `unlink` fails. -/
inductive Msg
  | bogusMember (onBehalfOf : Option (List Char)) (name : List Char)
  | deleting (onBehalfOf : Option (List Char)) (name : List Char)
  | unlinkFailed (name : List Char)
  deriving DecidableEq, Repr

/-- `*** [on_behalf_of] `, or `*** ` without one: how the messages of `delete_target` start. -/
def messageStart : Option (List Char) → List Char
  | some ob => "*** [".toList ++ ob ++ "] ".toList
  | none => "*** ".toList

/-- The text of a message: the format strings of lines 670-692 filled in, and for
    `perror_with_name` the two strings it prints before the system's message. -/
def Msg.text : Msg → List Char
  | .bogusMember ob name =>
    messageStart ob ++ "Archive member \x27".toList ++ name ++
      "\x27 may be bogus; not deleted".toList
  | .deleting ob name => messageStart ob ++ "Deleting file \x27".toList ++ name ++ "\x27".toList
  | .unlinkFailed name => "unlink: ".toList ++ name

example : (Msg.deleting (some "prog".toList) "prog.map".toList).text =
    "*** [prog] Deleting file \x27prog.map\x27".toList := by decide

/-- The part of `delete_target` after the test for an archive member (lines 682-693): a regular
    file changed since make looked at it is reported and unlinked. -/
def statDelete (file : FileRec) (onBehalfOf : Option (List Char)) (fs : Fs) : Fs × List Msg :=
  match fs file.name with
  | some st =>
    if st.isReg && st.mtime != file.lastMtime then
      match unlink fs file.name with
      | .ok fs' => (fs', [.deleting onBehalfOf file.name])
      | .error e =>
        (fs, .deleting onBehalfOf file.name ::
          if e != .enoent then [.unlinkFailed file.name] else [])
    else (fs, [])
  | none => (fs, [])

/-- The `struct child` as `delete_child_targets` and `fatal_error_signal` read it. -/
structure Child where
  file : FileRec
  /-- The files of `file->also_make`. -/
  alsoMake : List FileRec
  pid : Int
  remote : Bool
  deleted : Bool
  deriving DecidableEq, Repr

/-- The `delete_target` calls of `delete_child_targets`: the child's file, then each file of its
    `also_make` list on behalf of the child's file. -/
def childTargets (child : Child) : List (FileRec × Option (List Char)) :=
  (child.file, none) :: child.alsoMake.map fun f => (f, some child.file.name)

/-- `delete_child_targets` skips a child whose targets were deleted, or that has no process. -/
def Child.skipped (child : Child) : Bool := child.deleted || decide (child.pid < 0)

/-- A signal, as `fatal_error_signal` tells them apart. -/
inductive Signal
  | hup
  | int
  | quit
  | term
  | other (n : Nat)
  deriving DecidableEq, Repr

/-- A signal by which the user wanted to kill make (lines 595-602). -/
def Signal.killsMake : Signal → Bool
  | .hup | .int | .quit | .term => true
  | .other _ => false

/-- A signal the handler sends a child: `kill (pid, sig)` or `remote_kill (pid, sig)`. -/
inductive Sent
  | kill (pid : Int) (sig : Signal)
  | remoteKill (pid : Int) (sig : Signal)
  deriving DecidableEq, Repr

def Sent.pid : Sent → Int
  | .kill pid _ | .remoteKill pid _ => pid

/-- How the handler ends: `exit (MAKE_TROUBLE)` on `SIGQUIT`, or else the signal sent to make
    again, now with its default handling. -/
inductive Ending
  | exit (status : Nat)
  | raise (sig : Signal)
  deriving DecidableEq, Repr

/-- Modelled from the spec: `MAKE_TROUBLE` (makeint.h, not in src/). -/
def makeTrouble : Nat := 2

/-- What the handler does: the signals it sends, the children and the file system it leaves, its
    messages and how it ends. -/
structure Outcome where
  sent : List Sent
  children : List Child
  fs : Fs
  msgs : List Msg
  ending : Ending

/-- `kill (c->pid, SIGTERM)` for each local child with a process, on `SIGTERM` (lines 586-592). -/
def termKills (sig : Signal) (children : List Child) : List Sent :=
  if sig = .term then
    (children.filter fun c => !c.remote && decide (c.pid > 0)).map fun c => .kill c.pid .term
  else []

/-- `remote_kill (c->pid, sig)` for each remote child with a process, when the user wanted to kill
    make (lines 606-609). -/
def remoteKills (sig : Signal) (children : List Child) : List Sent :=
  if sig.killsMake then
    (children.filter fun c => c.remote && decide (c.pid > 0)).map fun c => .remoteKill c.pid sig
  else []

section
variable (arMemberDate : List Char → Int) (timestampS : Nat → Int)

/-- `delete_target (file, on_behalf_of)` (lines 654-697), with the date `ar_member_date` reads from
    the archive and `FILE_TIMESTAMP_S`. -/
def deleteTarget (file : FileRec) (onBehalfOf : Option (List Char)) (fs : Fs) :
    Except Fault (Fs × List Msg) :=
  if file.precious || file.phony then pure (fs, [])
  else do
    if ← arName file.name then
      let fileDate : Int :=
        if file.lastMtime = nonexistentMtime then -1 else timestampS file.lastMtime
      pure (fs,
        if arMemberDate file.name ≠ fileDate then [.bogusMember onBehalfOf file.name] else [])
    else pure (statDelete file onBehalfOf fs)

/-- A run of `delete_target` calls, each with its `on_behalf_of`. -/
def deleteTargets : List (FileRec × Option (List Char)) → Fs → Except Fault (Fs × List Msg)
  | [], fs => pure (fs, [])
  | (file, ob) :: ts, fs => do
    let (fs, ms) ← deleteTarget arMemberDate timestampS file ob fs
    let (fs, ms') ← deleteTargets ts fs
    pure (fs, ms ++ ms')

/-- `delete_child_targets (child)` (lines 704-719): the child, marked, the file system and the
    messages. -/
def deleteChildTargets (child : Child) (fs : Fs) : Except Fault (Child × Fs × List Msg) :=
  if child.skipped then pure (child, fs, [])
  else do
    let (fs, ms) ← deleteTargets arMemberDate timestampS (childTargets child) fs
    pure ({ child with deleted := true }, fs, ms)

/-- `for (c = children; c != 0; c = c->next) delete_child_targets (c);` -/
def deleteChildrenTargets : List Child → Fs → Except Fault (List Child × Fs × List Msg)
  | [], fs => pure ([], fs, [])
  | c :: cs, fs => do
    let (c, fs, ms) ← deleteChildTargets arMemberDate timestampS c fs
    let (cs, fs, ms') ← deleteChildrenTargets cs fs
    pure (c :: cs, fs, ms ++ ms')

/-- `fatal_error_signal (sig)` on a POSIX system (lines 547-648), up to `reap_children` and
    `remove_intermediates`. -/
def fatalErrorSignal (sig : Signal) (children : List Child) (fs : Fs) : Except Fault Outcome := do
  let (children', fs', msgs) ←
    if sig.killsMake then deleteChildrenTargets arMemberDate timestampS children fs
    else pure (children, fs, [])
  pure ⟨termKills sig children ++ remoteKills sig children, children', fs', msgs,
    if sig = .quit then .exit makeTrouble else .raise sig⟩

end

/-! ## What a call deletes -/

/-- `ar_name` finds no archive member in the name. -/
def plainName (name : List Char) : Bool := (arName name).toOption == some false

/-- `delete_target` may delete the file: it is neither precious nor phony nor an archive member. -/
def FileRec.deletable (file : FileRec) : Bool :=
  !(file.precious || file.phony) && plainName file.name

/-- `ar_name` does not stop make in `delete_target`: it is not asked, or not fatal on the name. -/
def FileRec.callOk (file : FileRec) : Bool :=
  file.precious || file.phony || (arName file.name).toBool

/-- `delete_target` reports deleting `file`, given what `stat` finds under its name: the file may
    be deleted, and is there as a regular file changed since make looked at it. -/
def reportsDeleting (file : FileRec) : Option Inode → Bool
  | some i => file.deletable && i.isReg && i.mtime != file.lastMtime
  | none => false

/-- `delete_target` removes `file`: it reports deleting it, and `unlink` may remove it. -/
def deletesFile (file : FileRec) : Option Inode → Bool
  | some i => reportsDeleting file (some i) && i.unlinkable
  | none => false

/-- The file system after the call of `delete_target` on `file`. -/
def afterTarget (file : FileRec) (fs : Fs) : Fs :=
  if deletesFile file (fs file.name) then fs.erase file.name else fs

/-- The name a message reports deleting. -/
def Msg.deletedName : Msg → Option (List Char)
  | .deleting _ name => some name
  | _ => none

/-- The file system after a run of `delete_target` calls. -/
def runFs : List (FileRec × Option (List Char)) → Fs → Fs
  | [], fs => fs
  | t :: ts, fs => runFs ts (afterTarget t.1 fs)

/-- The names a run of `delete_target` calls reports deleting, in order. -/
def runReported : List (FileRec × Option (List Char)) → Fs → List (List Char)
  | [], _ => []
  | t :: ts, fs =>
    (if reportsDeleting t.1 (fs t.1.name) then [t.1.name] else []) ++
      runReported ts (afterTarget t.1 fs)

theorem reportsDeleting_of_deletesFile {file : FileRec} {st : Option Inode}
    (h : deletesFile file st = true) : reportsDeleting file st = true := by
  cases st with
  | none => cases h
  | some i =>
    simp only [deletesFile, Bool.and_eq_true] at h
    exact h.1

theorem deletesFile_none (file : FileRec) : deletesFile file none = false := rfl

theorem afterTarget_of_ne {file : FileRec} {n : List Char} (h : n ≠ file.name) (fs : Fs) :
    afterTarget file fs n = fs n := by
  unfold afterTarget
  split
  · exact Fs.erase_of_ne fs h
  · rfl

theorem afterTarget_self (file : FileRec) (fs : Fs) :
    afterTarget file fs file.name =
      if deletesFile file (fs file.name) then none else fs file.name := by
  unfold afterTarget
  split <;> simp

/-- A name is gone after a run exactly when a call of the run removes it from the file system as it
    was at the start: a file removed stays removed, and a call finds every other name as it was. -/
theorem runFs_apply : ∀ (ts : List (FileRec × Option (List Char))) (fs : Fs) (n : List Char),
    runFs ts fs n =
      if ts.any (fun t => t.1.name == n && deletesFile t.1 (fs n)) then none else fs n
  | [], _, _ => rfl
  | t :: ts, fs, n => by
    rw [runFs, runFs_apply ts, List.any_cons]
    by_cases hn : t.1.name = n
    · subst hn
      rw [afterTarget_self]
      cases hr : deletesFile t.1 (fs t.1.name)
      · simp only [hr, Bool.false_eq_true, if_false, Bool.and_false, Bool.false_or]
      · simp [deletesFile_none]
    · simp only [afterTarget_of_ne (Ne.symm hn), beq_false_of_ne hn, Bool.false_and,
        Bool.false_or]

/-- A run reports deleting only files that may be deleted and that were there, regular and
    changed since make looked at them. -/
theorem mem_runReported : ∀ {ts : List (FileRec × Option (List Char))} {fs : Fs} {n : List Char},
    n ∈ runReported ts fs → ∃ t ∈ ts, t.1.name = n ∧ reportsDeleting t.1 (fs n) = true
  | t :: ts, fs, n, h => by
    rw [runReported, List.mem_append] at h
    rcases h with h | h
    · split at h
      · rename_i hr
        obtain rfl := List.mem_singleton.1 h
        exact ⟨t, List.mem_cons_self _ _, rfl, hr⟩
      · cases h
    · obtain ⟨t', ht', rfl, hr⟩ := mem_runReported h
      refine ⟨t', List.mem_cons_of_mem _ ht', rfl, ?_⟩
      by_cases hn : t'.1.name = t.1.name
      · rw [hn] at hr ⊢
        rw [afterTarget_self] at hr
        split at hr
        · cases hr
        · exact hr
      · rwa [afterTarget_of_ne hn] at hr

/-- A run removes no file without reporting it. -/
theorem mem_runReported_of_removed : ∀ (ts : List (FileRec × Option (List Char))) (fs : Fs)
    (n : List Char), fs n ≠ none → runFs ts fs n = none → n ∈ runReported ts fs
  | [], _, _, h, h' => absurd h' h
  | t :: ts, fs, n, h, h' => by
    rw [runReported, List.mem_append]
    by_cases hn : t.1.name = n
    · subst hn
      by_cases hr : deletesFile t.1 (fs t.1.name)
      · exact .inl (by simp [reportsDeleting_of_deletesFile hr])
      · have hs : afterTarget t.1 fs t.1.name = fs t.1.name := by rw [afterTarget_self, if_neg hr]
        exact .inr (mem_runReported_of_removed ts _ _ (hs ▸ h) h')
    · exact .inr (mem_runReported_of_removed ts _ _ (by rwa [afterTarget_of_ne (Ne.symm hn)]) h')

/-- A run reports deleting a file `unlink` may remove at most once: after the report it is gone. -/
theorem count_runReported_le_one : ∀ (ts : List (FileRec × Option (List Char))) (fs : Fs)
    (n : List Char), (fs n).all (·.unlinkable) = true → (runReported ts fs).count n ≤ 1
  | [], _, _, _ => by simp [runReported]
  | t :: ts, fs, n, h => by
    rw [runReported, List.count_append]
    by_cases hn : t.1.name = n
    · subst hn
      by_cases hr : reportsDeleting t.1 (fs t.1.name)
      · -- the call reports the file and so removes it: the rest finds nothing
        have hrm : deletesFile t.1 (fs t.1.name) = true := by
          cases hs : fs t.1.name with
          | none => rw [hs] at hr; cases hr
          | some i => rw [hs] at hr h; simpa [deletesFile, hr] using h
        have hnone : (afterTarget t.1 fs) t.1.name = none := by rw [afterTarget_self, if_pos hrm]
        have hz : (runReported ts (afterTarget t.1 fs)).count t.1.name = 0 :=
          List.count_eq_zero.2 fun hm => by
            obtain ⟨t', -, ht', hr'⟩ := mem_runReported hm
            rw [hnone] at hr'
            cases hr'
        simp [hr, hz]
      · have hs : afterTarget t.1 fs t.1.name = fs t.1.name := by
          rw [afterTarget_self, if_neg fun hrm => hr (reportsDeleting_of_deletesFile hrm)]
        simpa [hr] using count_runReported_le_one ts _ t.1.name (hs ▸ h)
    · have hc : [t.1.name].count n = 0 := by simp [Ne.symm hn]
      have := count_runReported_le_one ts (afterTarget t.1 fs) n
        (by rwa [afterTarget_of_ne (Ne.symm hn)])
      split <;> simp only [hc, List.count_nil] <;> omega

theorem runFs_append (ts ts' : List (FileRec × Option (List Char))) (fs : Fs) :
    runFs (ts ++ ts') fs = runFs ts' (runFs ts fs) := by
  induction ts generalizing fs with
  | nil => rfl
  | cons t ts ih => exact ih _

theorem runReported_append (ts ts' : List (FileRec × Option (List Char))) (fs : Fs) :
    runReported (ts ++ ts') fs = runReported ts fs ++ runReported ts' (runFs ts fs) := by
  induction ts generalizing fs with
  | nil => rfl
  | cons t ts ih => rw [List.cons_append, runReported, runReported, ih, List.append_assoc]; rfl

/-! ## The calls -/

theorem reportsDeleting_of_not_deletable {file : FileRec} (hd : file.deletable = false) :
    ∀ st, reportsDeleting file st = false
  | none => rfl
  | some _ => by simp [reportsDeleting, hd]

theorem afterTarget_of_not_deletable {file : FileRec} (hd : file.deletable = false) (fs : Fs) :
    afterTarget file fs = fs :=
  if_neg fun h => by
    have := reportsDeleting_of_deletesFile h
    rw [reportsDeleting_of_not_deletable hd] at this
    cases this

theorem statDelete_eq {file : FileRec} (hd : file.deletable = true) (ob : Option (List Char))
    (fs : Fs) :
    (statDelete file ob fs).1 = afterTarget file fs ∧
      (statDelete file ob fs).2.filterMap Msg.deletedName =
        if reportsDeleting file (fs file.name) then [file.name] else [] := by
  unfold statDelete afterTarget
  cases h : fs file.name with
  | none => simp [deletesFile, reportsDeleting]
  | some i =>
    by_cases hc : (i.isReg && i.mtime != file.lastMtime) = true
    · cases hu : i.unlinkable <;> simp [deletesFile, reportsDeleting, hd, hc, hu, unlink, h,
        Msg.deletedName]
    · simp only [deletesFile, reportsDeleting, hd, Bool.true_and, hc, if_false]
      simp_all

section
variable (arMemberDate : List Char → Int) (timestampS : Nat → Int)

/-- One call of `delete_target`, when `ar_name` does not stop make: the file system it leaves,
    and the names it reports deleting. -/
theorem deleteTarget_ok {file : FileRec} (h : file.callOk = true) (ob : Option (List Char))
    (fs : Fs) :
    ∃ ms, deleteTarget arMemberDate timestampS file ob fs = .ok (afterTarget file fs, ms) ∧
      ms.filterMap Msg.deletedName =
        if reportsDeleting file (fs file.name) then [file.name] else [] := by
  unfold deleteTarget
  by_cases hp : (file.precious || file.phony) = true
  · -- precious or phony: left alone
    have hd : file.deletable = false := by simp [FileRec.deletable, hp]
    refine ⟨[], ?_, ?_⟩
    · rw [if_pos hp, afterTarget_of_not_deletable hd]; rfl
    · simp [reportsDeleting_of_not_deletable hd]
  · rw [if_neg hp]
    obtain ⟨b, hb⟩ : ∃ b, arName file.name = .ok b := by
      cases ha : arName file.name with
      | error e => simp [FileRec.callOk, hp, ha, Except.toBool] at h
      | ok b => exact ⟨b, rfl⟩
    cases b with
    | true =>
      -- an archive member: at most a message, no report of deleting
      have hd : file.deletable = false := by
        simp [FileRec.deletable, plainName, hb, Except.toOption]
      refine ⟨_, by rw [hb, ok_bind, if_pos rfl, afterTarget_of_not_deletable hd]; rfl, ?_⟩
      rw [reportsDeleting_of_not_deletable hd, if_neg Bool.false_ne_true]
      split <;> split <;> rfl
    | false =>
      have hd : file.deletable = true := by
        simp_all [FileRec.deletable, plainName, Except.toOption]
      obtain ⟨h1, h2⟩ := statDelete_eq hd ob fs
      exact ⟨_, by rw [hb, ok_bind, if_neg Bool.false_ne_true, ← h1]; rfl, h2⟩

/-- A run of `delete_target` calls on which `ar_name` does not stop make: the file system it
    leaves, and the names it reports deleting. -/
theorem deleteTargets_ok : ∀ (ts : List (FileRec × Option (List Char))) (fs : Fs),
    (∀ t ∈ ts, t.1.callOk = true) → ∃ ms,
      deleteTargets arMemberDate timestampS ts fs = .ok (runFs ts fs, ms) ∧
        ms.filterMap Msg.deletedName = runReported ts fs
  | [], _, _ => ⟨[], rfl, rfl⟩
  | (file, ob) :: ts, fs, h => by
    obtain ⟨ms, h1, hms⟩ := deleteTarget_ok arMemberDate timestampS (h _ (List.mem_cons_self _ _))
      ob fs
    obtain ⟨ms', h2, hms'⟩ := deleteTargets_ok ts (afterTarget file fs) fun t ht =>
      h t (List.mem_cons_of_mem _ ht)
    refine ⟨ms ++ ms', ?_, ?_⟩
    · rw [deleteTargets, h1, ok_bind]
      simp only [h2, ok_bind]
      rfl
    · rw [List.filterMap_append, hms, hms', runReported]

end

/-! ## The children -/

/-- The `delete_target` calls of the loop over the children, in order: those of each child
    `delete_child_targets` does not skip. -/
def liveTargets (children : List Child) : List (FileRec × Option (List Char)) :=
  children.flatMap fun c => if c.skipped then [] else childTargets c

theorem liveTargets_cons (c : Child) (cs : List Child) :
    liveTargets (c :: cs) = (if c.skipped then [] else childTargets c) ++ liveTargets cs :=
  List.flatMap_cons _ _ _

/-- The child as `delete_child_targets` leaves it: marked, unless skipped. -/
def Child.marked (c : Child) : Child := if c.skipped then c else { c with deleted := true }

theorem Child.skipped_marked (c : Child) : c.marked.skipped = true := by
  unfold Child.marked
  split
  · assumption
  · simp [Child.skipped]

section
variable (arMemberDate : List Char → Int) (timestampS : Nat → Int)

theorem deleteChildrenTargets_of_skipped : ∀ {cs : List Child}, (∀ c ∈ cs, c.skipped = true) →
    ∀ fs, deleteChildrenTargets arMemberDate timestampS cs fs = .ok (cs, fs, [])
  | [], _, _ => rfl
  | c :: cs, h, fs => by
    simp only [List.mem_cons, forall_eq_or_imp] at h
    rw [deleteChildrenTargets, deleteChildTargets, if_pos h.1, pure_eq_ok, ok_bind]
    simp only [deleteChildrenTargets_of_skipped h.2, ok_bind]
    rfl

/-- The loop over the children is one run of `delete_target` calls over the targets of the
    children not skipped, and marks these children. -/
theorem deleteChildrenTargets_ok : ∀ (children : List Child) (fs : Fs),
    (∀ t ∈ liveTargets children, t.1.callOk = true) → ∃ ms,
      deleteChildrenTargets arMemberDate timestampS children fs =
        .ok (children.map Child.marked, runFs (liveTargets children) fs, ms) ∧
      ms.filterMap Msg.deletedName = runReported (liveTargets children) fs
  | [], _, _ => ⟨[], rfl, rfl⟩
  | c :: cs, fs, h => by
    rw [liveTargets_cons] at h ⊢
    by_cases hs : c.skipped
    · -- skipped: the child and the file system as they were
      rw [if_pos hs, List.nil_append] at h ⊢
      obtain ⟨ms, h1, hms⟩ := deleteChildrenTargets_ok cs fs h
      refine ⟨ms, ?_, hms⟩
      rw [deleteChildrenTargets, deleteChildTargets, if_pos hs, pure_eq_ok, ok_bind]
      simp only [h1, ok_bind, List.map_cons, Child.marked, if_pos hs]
      rfl
    · rw [if_neg hs] at h ⊢
      obtain ⟨ms, h1, hms⟩ := deleteTargets_ok arMemberDate timestampS (childTargets c) fs
        fun t ht => h t (List.mem_append_left _ ht)
      obtain ⟨ms', h2, hms'⟩ := deleteChildrenTargets_ok cs (runFs (childTargets c) fs)
        fun t ht => h t (List.mem_append_right _ ht)
      refine ⟨ms ++ ms', ?_, ?_⟩
      · rw [deleteChildrenTargets, deleteChildTargets, if_neg hs, h1, ok_bind]
        simp only [ok_bind, pure_eq_ok, h2, runFs_append, List.map_cons, Child.marked, if_neg hs]
      · rw [List.filterMap_append, hms, hms', runReported_append]

end

/-! ## The signals sent -/

theorem filter_local_append_filter_remote_perm (p : Child → Bool) (cs : List Child) :
    (cs.filter (fun c => !c.remote && p c) ++ cs.filter (fun c => c.remote && p c)).Perm
      (cs.filter p) := by
  have h := List.filter_append_perm (fun c : Child => !c.remote) (cs.filter p)
  simp only [List.filter_filter, Bool.not_not] at h
  exact h

/-- Every child with a process is sent one signal on `SIGTERM`; on another signal that kills make,
    the remote children with a process are, and no child on any other signal. -/
theorem map_pid_sent_perm (sig : Signal) (cs : List Child) :
    ((termKills sig cs ++ remoteKills sig cs).map Sent.pid).Perm
      ((cs.filter fun c => decide (c.pid > 0) && (sig == .term || sig.killsMake && c.remote)).map
        Child.pid) := by
  by_cases ht : sig = .term
  · -- the local children by `kill`, the remote ones by `remote_kill`
    subst ht
    have h := (filter_local_append_filter_remote_perm (fun c => decide (c.pid > 0)) cs).map
      Child.pid
    simpa [termKills, remoteKills, Signal.killsMake, List.map_map, Function.comp_def] using h
  · cases hk : sig.killsMake
    · simp [termKills, remoteKills, ht, hk]
    · simp [termKills, remoteKills, ht, hk, beq_false_of_ne ht, Sent.pid, List.map_map,
        Bool.and_comm, Function.comp_def]

/-- A local child is sent `SIGTERM` by `kill`, a remote one the signal by `remote_kill`. -/
theorem mem_sent {sig : Signal} {cs : List Child} {s : Sent}
    (h : s ∈ termKills sig cs ++ remoteKills sig cs) :
    ∃ c ∈ cs, c.pid > 0 ∧ s = if c.remote then .remoteKill c.pid sig else .kill c.pid .term := by
  rw [List.mem_append, termKills, remoteKills] at h
  rcases h with h | h <;> split at h <;>
    simp only [List.mem_map, List.mem_filter, List.not_mem_nil, Bool.and_eq_true,
      decide_eq_true_eq, Bool.not_eq_true'] at h
  · obtain ⟨c, ⟨hc, hr, hp⟩, rfl⟩ := h
    exact ⟨c, hc, hp, by rw [if_neg (by simp [hr])]⟩
  · obtain ⟨c, ⟨hc, hr, hp⟩, rfl⟩ := h
    exact ⟨c, hc, hp, by rw [if_pos hr]⟩

/-! ## Whole runs -/

/-- What a run of `delete_target` calls over the targets `ts` does, from the file system `fs` to
    `fs'`, with the messages `ms`. -/
structure DeletesAsSpecified (ts : List (FileRec × Option (List Char))) (fs fs' : Fs)
    (ms : List Msg) : Prop where
  /-- A name is gone exactly when one of the calls removes its file; every other name is as it
      was. -/
  fs_eq : ∀ n, fs' n =
    if ts.any (fun t => t.1.name == n && deletesFile t.1 (fs n)) then none else fs n
  /-- The run reports deleting only files that may be deleted, there as regular files changed
      since make looked at them. -/
  reported : ∀ n ∈ ms.filterMap Msg.deletedName,
    ∃ t ∈ ts, t.1.name = n ∧ reportsDeleting t.1 (fs n) = true
  /-- It reports every file it removes. -/
  removed_reported : ∀ n, fs n ≠ none → fs' n = none → n ∈ ms.filterMap Msg.deletedName
  /-- It reports a file `unlink` may remove at most once. -/
  reported_once : ∀ n, (fs n).all (·.unlinkable) = true → (ms.filterMap Msg.deletedName).count n ≤ 1

theorem deletesAsSpecified_runFs {ts : List (FileRec × Option (List Char))} {fs : Fs}
    {ms : List Msg} (h : ms.filterMap Msg.deletedName = runReported ts fs) :
    DeletesAsSpecified ts fs (runFs ts fs) ms where
  fs_eq := runFs_apply ts fs
  reported _ hn := mem_runReported (h ▸ hn)
  removed_reported n h1 h2 := h ▸ mem_runReported_of_removed ts fs n h1 h2
  reported_once n hn := h ▸ count_runReported_le_one ts fs n hn

section
variable (arMemberDate : List Char → Int) (timestampS : Nat → Int)

/-- The loop of `fatal_error_signal` over the children, on every set of children and every file
    system on which `ar_name` does not stop make: it marks each child it does not skip, deletes
    as `DeletesAsSpecified` says over the targets of these children, and a second loop does
    nothing. -/
theorem deleteChildrenTargets_spec (children : List Child) (fs : Fs)
    (hok : ∀ t ∈ liveTargets children, t.1.callOk = true) :
    ∃ fs' ms, deleteChildrenTargets arMemberDate timestampS children fs =
        .ok (children.map Child.marked, fs', ms) ∧
      DeletesAsSpecified (liveTargets children) fs fs' ms ∧
      deleteChildrenTargets arMemberDate timestampS (children.map Child.marked) fs' =
        .ok (children.map Child.marked, fs', []) := by
  obtain ⟨ms, h, hms⟩ := deleteChildrenTargets_ok arMemberDate timestampS children fs hok
  refine ⟨_, ms, h, deletesAsSpecified_runFs hms, deleteChildrenTargets_of_skipped _ _ ?_ _⟩
  simp [Child.skipped_marked]

theorem deleteChildrenTargets_prog :
    (∀ t ∈ liveTargets [⟨⟨"prog".toList, false, false, 5⟩, [⟨"prog.map".toList, true, false, 5⟩],
        42, false, false⟩], t.1.callOk = true) ∧
      ∃ fs' ms, deleteChildrenTargets (fun _ => 0) (fun _ => 0)
          [⟨⟨"prog".toList, false, false, 5⟩, [⟨"prog.map".toList, true, false, 5⟩], 42, false,
            false⟩] (fun _ => some ⟨true, 7, true⟩) =
          .ok ([⟨⟨"prog".toList, false, false, 5⟩, [⟨"prog.map".toList, true, false, 5⟩], 42, false,
            false⟩].map Child.marked, fs', ms) ∧
        DeletesAsSpecified (liveTargets [⟨⟨"prog".toList, false, false, 5⟩,
          [⟨"prog.map".toList, true, false, 5⟩], 42, false, false⟩]) (fun _ => some ⟨true, 7, true⟩)
          fs' ms ∧
        deleteChildrenTargets (fun _ => 0) (fun _ => 0)
          ([⟨⟨"prog".toList, false, false, 5⟩, [⟨"prog.map".toList, true, false, 5⟩], 42, false,
            false⟩].map Child.marked) fs' =
          .ok ([⟨⟨"prog".toList, false, false, 5⟩, [⟨"prog.map".toList, true, false, 5⟩], 42, false,
            false⟩].map Child.marked, fs', []) :=
  ⟨by decide, deleteChildrenTargets_spec _ _ _ _ (by decide)⟩

/-- `fatal_error_signal`, for every signal, every set of children and every file system on which
    `ar_name` does not stop make: on `SIGTERM` it sends each child with a process one signal
    (`kill` with `SIGTERM` to a local child, `remote_kill` to a remote one), on another signal
    that kills make the signal to each remote child with a process, and on any other signal none.
    On a signal that kills make it deletes the targets of the children it does not skip, as
    `DeletesAsSpecified` says, and marks these children; on any other signal it leaves the
    children and the file system as they were. -/
theorem fatalErrorSignal_spec (sig : Signal) (children : List Child) (fs : Fs)
    (hok : ∀ t ∈ liveTargets children, t.1.callOk = true) :
    ∃ o, fatalErrorSignal arMemberDate timestampS sig children fs = .ok o ∧
      (o.sent.map Sent.pid).Perm ((children.filter fun c =>
          decide (c.pid > 0) && (sig == .term || sig.killsMake && c.remote)).map Child.pid) ∧
      (∀ s ∈ o.sent, ∃ c ∈ children, c.pid > 0 ∧
        s = if c.remote then .remoteKill c.pid sig else .kill c.pid .term) ∧
      if sig.killsMake then
        o.children = children.map Child.marked ∧
          DeletesAsSpecified (liveTargets children) fs o.fs o.msgs
      else o.children = children ∧ o.fs = fs ∧ o.msgs = [] := by
  by_cases hk : sig.killsMake
  · obtain ⟨ms, h, hms⟩ := deleteChildrenTargets_ok arMemberDate timestampS children fs hok
    refine ⟨_, by rw [fatalErrorSignal, if_pos hk, h, ok_bind]; rfl, map_pid_sent_perm sig children,
      fun _ => mem_sent, ?_⟩
    rw [if_pos hk]
    exact ⟨rfl, deletesAsSpecified_runFs hms⟩
  · refine ⟨_, by rw [fatalErrorSignal, if_neg hk, pure_eq_ok, ok_bind]; rfl,
      map_pid_sent_perm sig children, fun _ => mem_sent, ?_⟩
    rw [if_neg hk]
    exact ⟨rfl, rfl, rfl⟩

theorem fatalErrorSignal_term_prog :
    (∀ t ∈ liveTargets [⟨⟨"prog".toList, false, false, 5⟩, [], 42, false, false⟩],
        t.1.callOk = true) ∧
      ∃ o, fatalErrorSignal (fun _ => 0) (fun _ => 0) .term
          [⟨⟨"prog".toList, false, false, 5⟩, [], 42, false, false⟩]
          (fun _ => some ⟨true, 7, true⟩) = .ok o ∧
        (o.sent.map Sent.pid).Perm
          (([⟨⟨"prog".toList, false, false, 5⟩, [], 42, false, false⟩].filter fun c : Child =>
            decide (c.pid > 0) && (Signal.term == .term || Signal.term.killsMake && c.remote)).map
              Child.pid) ∧
        (∀ s ∈ o.sent, ∃ c ∈ [(⟨⟨"prog".toList, false, false, 5⟩, [], 42, false, false⟩ : Child)],
          c.pid > 0 ∧ s = if c.remote then .remoteKill c.pid .term else .kill c.pid .term) ∧
        if Signal.term.killsMake then
          o.children = [⟨⟨"prog".toList, false, false, 5⟩, [], 42, false, false⟩].map Child.marked ∧
            DeletesAsSpecified
              (liveTargets [⟨⟨"prog".toList, false, false, 5⟩, [], 42, false, false⟩])
              (fun _ => some ⟨true, 7, true⟩) o.fs o.msgs
        else o.children = [⟨⟨"prog".toList, false, false, 5⟩, [], 42, false, false⟩] ∧
          o.fs = (fun _ => some ⟨true, 7, true⟩) ∧ o.msgs = [] :=
  ⟨by decide, fatalErrorSignal_spec _ _ _ _ _ (by decide)⟩

end

end MakePlus
