import HMailServer.Util.UsageFileKept

/- Threads that save and clear the sending quota (`SaveUsage_`, `ClearAccountUsage`
   and `CheckAndConsume_` of `Common/Util/RateLimiter.cpp`), one atomic section a
   step. A save takes its snapshot under one lock and writes it under another; when it
   cannot write, it puts the dirty flag back in a section of its own. A clear empties
   the map under the first lock and deletes the file under the second. -/
namespace HMailServer.RateLimiter

/-- What a thread has left to do. -/
inductive Task
  | write (serialized : WString)
  /-- The writer was busy or the write failed. -/
  | restore
  | delete

structure World where
  limiter : State := {}
  file : Option WString := none
  tasks : Nat → Option Task := fun _ => none

inductive Section
  | checkAndConsume (key : WString) (addition : Counter → Nat) (limits : AccountSendingLimits) (now : Nat)
  /-- The part of `SaveUsage_` under the account lock. -/
  | snapshot (force : Bool) (interval now : Nat)
  /-- The part under the save lock; a thread that finds it held does not write. -/
  | write (succeeds : Bool)
  | restore
  | clear (now : Nat)
  | delete (succeeds : Bool)

namespace World

def setTask (w : World) (thread : Nat) (task : Option Task) : World :=
  { w with tasks := fun t => if t = thread then task else w.tasks t }

/-- Whether a save goes on to its snapshot: something has changed, and the last write
    is an interval ago. -/
def saves (s : State) (force : Bool) (interval now : Nat) : Bool :=
  s.usageDirty && !(force = false ∧ now - min s.lastSaveTime now < interval)

/-- A section of a thread; `none` where the thread is not at that section. -/
def step (w : World) (thread : Nat) : Section → Option World
  | .checkAndConsume key addition limits now =>
    match w.tasks thread with
    | none => some { w with limiter := (checkAndConsume w.limiter key addition limits now).2 }
    | some _ => none
  | .snapshot force interval now =>
    match w.tasks thread with
    | none =>
      let limiter := saveUsage w.limiter force interval now
      if saves w.limiter force interval now then
        some ({ w with limiter }.setTask thread (some (.write (serializeUsage limiter.accountUsage now).1)))
      else some { w with limiter }
    | some _ => none
  | .write succeeds =>
    match w.tasks thread with
    | some (.write serialized) =>
      if succeeds then some ({ w with file := some serialized }.setTask thread none)
      else some (w.setTask thread (some .restore))
    | _ => none
  | .restore =>
    match w.tasks thread with
    | some .restore => some ({ w with limiter := { w.limiter with usageDirty := true } }.setTask thread none)
    | _ => none
  | .clear now =>
    match w.tasks thread with
    | none =>
      let limiter := { w.limiter with accountUsage := {}, lastSaveTime := now, usageDirty := false }
      some ({ w with limiter }.setTask thread (some .delete))
    | some _ => none
  | .delete succeeds =>
    match w.tasks thread with
    | some .delete => some ({ w with file := if succeeds then none else w.file }.setTask thread none)
    | _ => none

/-- The world after the sections of an interleaving. -/
def run (w : World) : List (Nat × Section) → Option World
  | [] => some w
  | (thread, sec) :: rest => (w.step thread sec).bind fun next => next.run rest

/-- No thread is between the sections of a save or a clear. -/
def Idle (w : World) : Prop := ∀ thread, w.tasks thread = none

/-- The file is that of the map, as of the last save; after a clear there is none. -/
def Current (w : World) : Prop :=
  w.file = some (serializeUsage w.limiter.accountUsage w.limiter.lastSaveTime).1 ∨
    w.file = none ∧ ∀ account ∈ w.limiter.accountUsage.entries, account.2 = []

/-- A call that is not counted leaves its account as it is. -/
def Quiet (s : State) (key : WString) (addition : Counter → Nat) (limits : AccountSendingLimits) (now : Nat) : Prop :=
  s.accountUsage.size < kMaxAccountEntries ∧
    (pruneUsage (s.usage key) now (getPeriodSeconds limits) = s.usage key ∨
      ∀ c, exceeds limits (pruneUsage (s.usage key) now (getPeriodSeconds limits)) addition c = false)

/-- The condition on a section: saves and clears come one after another, a call that
    is not counted changes nothing that was written, and a file to be deleted goes. -/
def Sound (w : World) : Section → Prop
  | .checkAndConsume key addition limits now => w.limiter.usageDirty = false → Quiet w.limiter key addition limits now
  | .snapshot force interval now => saves w.limiter force interval now = true → w.Idle
  | .clear _ => w.Idle
  | .delete succeeds => succeeds = true
  | .write _ => True
  | .restore => True

/-- Every section of an interleaving meets the condition in the world it finds. -/
def SoundRun (w : World) : List (Nat × Section) → Prop
  | [] => True
  | (thread, sec) :: rest => w.Sound sec ∧ ∀ next, w.step thread sec = some next → next.SoundRun rest

end World

/-! ## A call that is not counted -/

section Consume

variable {s : State} {key : WString} {addition : Counter → Nat} {limits : AccountSendingLimits} {now : Nat}

/-- An account put back as it was, or added without counts, changes no text. -/
theorem serializeAccounts_setEntry (t : Nat) (entries : List (WString × UsageBuckets)) :
    ∀ result, (serializeAccounts t result (AccountTable.setEntry key ((entries.lookup key).getD []) entries)).1 =
      (serializeAccounts t result entries).1 := by
  induction entries with
  | nil =>
    intro result
    show (serializeAccounts t result [(key, [])]).1 = result
    rw [serializeAccounts]
    split
    · rfl
    split
    · rfl
    · exact List.append_nil result
  | cons entry rest ih =>
    intro result
    by_cases hkey : key = entry.1
    · have hlookup : ((entry :: rest).lookup key).getD [] = entry.2 := by
        rw [List.lookup_cons, beq_iff_eq.2 hkey]
        rfl
      rw [hlookup, AccountTable.setEntry, if_pos hkey, hkey]
    · have hlookup : (entry :: rest).lookup key = rest.lookup key := by
        rw [List.lookup_cons, beq_false_of_ne hkey]
      rw [hlookup, AccountTable.setEntry, if_neg hkey, serializeAccounts, serializeAccounts]
      split
      · rfl
      split
      · exact ih result
      · exact ih _

theorem mem_of_lookup {entries : List (WString × UsageBuckets)} {buckets : UsageBuckets}
    (h : entries.lookup key = some buckets) : (key, buckets) ∈ entries := by
  obtain ⟨before, after, rfl, _⟩ := List.lookup_eq_some_iff.1 h
  exact List.mem_append_right _ List.mem_cons_self

theorem entries_setEntry_empty {entries : List (WString × UsageBuckets)} (h : ∀ account ∈ entries, account.2 = []) :
    ∀ account ∈ AccountTable.setEntry key ((entries.lookup key).getD []) entries, account.2 = [] := by
  have hown : (entries.lookup key).getD [] = [] := by
    cases hlookup : entries.lookup key with
    | none => rfl
    | some buckets => exact h _ (mem_of_lookup hlookup)
  rw [hown]
  induction entries with
  | nil => exact fun account hmem => by rw [List.mem_singleton.1 hmem]
  | cons entry rest ih =>
    obtain ⟨hfirst, hrest⟩ := List.forall_mem_cons.1 h
    rw [AccountTable.setEntry]
    split
    · exact List.forall_mem_cons.2 ⟨rfl, hrest⟩
    · refine List.forall_mem_cons.2 ⟨hfirst, ih hrest ?_⟩
      cases hlookup : rest.lookup key with
      | none => rfl
      | some buckets => exact hrest _ (mem_of_lookup hlookup)

/-- A call never takes the flag away. -/
theorem clean_of_checkAndConsume (h : (checkAndConsume s key addition limits now).2.usageDirty = false) :
    s.usageDirty = false := by
  have hentry : ∀ t : State, (checkAndConsumeEntry t key addition limits now).2.usageDirty = false → t.usageDirty = false := by
    intro t ht
    rw [checkAndConsumeEntry] at ht
    dsimp only at ht
    split at ht
    · exact ht
    split at ht
    · exact ht
    · cases ht
  have hsweep : (if kMaxAccountEntries ≤ s.accountUsage.size then
      { s with accountUsage := s.accountUsage.dropDeadAccounts now } else s).usageDirty = s.usageDirty := by
    split <;> rfl
  rw [checkAndConsume] at h
  split at h
  · exact hentry s h
  · rw [← hsweep]
    dsimp only at h
    generalize (if kMaxAccountEntries ≤ s.accountUsage.size then
      { s with accountUsage := s.accountUsage.dropDeadAccounts now } else s) = swept at h ⊢
    split at h
    · exact h
    · exact hentry swept h

/-- A call that leaves the flag alone leaves the table as it was, but for an entry
    without counts. -/
theorem checkAndConsume_quiet (h : World.Quiet s key addition limits now)
    (hstill : (checkAndConsume s key addition limits now).2.usageDirty = false) :
    (checkAndConsume s key addition limits now).2 =
      { s with accountUsage := s.accountUsage.set key (s.usage key) } := by
  obtain ⟨hcap, hquiet⟩ := h
  rw [checkAndConsume_eq hcap] at hstill ⊢
  rw [checkAndConsumeEntry] at hstill ⊢
  dsimp only at hstill ⊢
  obtain hsame | hroom := hquiet
  · rw [hsame] at hstill ⊢
    split at hstill
    · rename_i hexceeds
      rw [if_pos hexceeds]
    split at hstill
    · rename_i hmessages hrecipients
      rw [if_neg hmessages, if_pos hrecipients]
    · cases hstill
  · rw [if_neg (by rw [hroom]; exact Bool.false_ne_true), if_neg (by rw [hroom]; exact Bool.false_ne_true)] at hstill
    cases hstill

end Consume

/-! ## Interleavings -/

namespace World

/-- At most one thread saves or clears; what it has in hand is what the map calls for,
    as long as nothing has changed since. -/
structure Inv (w : World) : Prop where
  alone : ∀ i j, w.tasks i ≠ none → w.tasks j ≠ none → i = j
  current : w.Idle → w.limiter.usageDirty = false → w.Current
  writing : ∀ i serialized, w.tasks i = some (.write serialized) → w.limiter.usageDirty = false →
    serialized = (serializeUsage w.limiter.accountUsage w.limiter.lastSaveTime).1
  deleting : ∀ i, w.tasks i = some .delete → w.limiter.usageDirty = false →
    ∀ account ∈ w.limiter.accountUsage.entries, account.2 = []

theorem inv_start : Inv {} where
  alone _ _ hi := absurd rfl hi
  current _ _ := .inr ⟨rfl, fun _ h => absurd h List.not_mem_nil⟩
  writing _ _ h := by cases h
  deleting _ h := by cases h

variable {w : World} {thread : Nat}

theorem tasks_setTask (task : Option Task) (i : Nat) :
    (w.setTask thread task).tasks i = if i = thread then task else w.tasks i := rfl

/-- The only thread at work comes to rest. -/
theorem idle_setTask (h : ∀ i j, w.tasks i ≠ none → w.tasks j ≠ none → i = j) (hbusy : w.tasks thread ≠ none) :
    (w.setTask thread none).Idle := by
  intro i
  rw [tasks_setTask]
  split
  · rfl
  · rename_i hne
    by_contra hi
    exact hne (h i thread hi hbusy)

/-- A thread at rest gets to work while the others rest. -/
theorem alone_setTask (h : w.Idle) (task : Option Task) (i j : Nat) (hi : (w.setTask thread task).tasks i ≠ none)
    (hj : (w.setTask thread task).tasks j ≠ none) : i = j := by
  have hone : ∀ i, (w.setTask thread task).tasks i ≠ none → i = thread := by
    intro i hi
    by_contra hne
    rw [tasks_setTask, if_neg hne] at hi
    exact hi (h i)
  exact (hone i hi).trans (hone j hj).symm

theorem inv_checkAndConsume (h : w.Inv) {key : WString} {addition : Counter → Nat} {limits : AccountSendingLimits} {now : Nat}
    (hsound : w.Sound (.checkAndConsume key addition limits now)) :
    Inv { w with limiter := (checkAndConsume w.limiter key addition limits now).2 } := by
  have hsame : (checkAndConsume w.limiter key addition limits now).2.usageDirty = false → w.limiter.usageDirty = false ∧
      (checkAndConsume w.limiter key addition limits now).2.lastSaveTime = w.limiter.lastSaveTime ∧
      (∀ t, (serializeUsage (checkAndConsume w.limiter key addition limits now).2.accountUsage t).1 =
        (serializeUsage w.limiter.accountUsage t).1) ∧
      ((∀ account ∈ w.limiter.accountUsage.entries, account.2 = []) →
        ∀ account ∈ (checkAndConsume w.limiter key addition limits now).2.accountUsage.entries, account.2 = []) := by
    intro hstill
    have hclean := clean_of_checkAndConsume hstill
    rw [checkAndConsume_quiet (hsound hclean) hstill]
    refine ⟨hclean, rfl, fun t => ?_, fun hempty => ?_⟩
    · exact serializeAccounts_setEntry t w.limiter.accountUsage.entries versionText
    · exact entries_setEntry_empty hempty
  refine ⟨h.alone, fun hidle hstill => ?_, fun i serialized hi hstill => ?_, fun i hi hstill => ?_⟩
  · obtain ⟨hclean, hlast, htext, hempty⟩ := hsame hstill
    obtain hfile | ⟨hnone, hnothing⟩ := h.current hidle hclean
    · left
      show w.file = _
      rw [hfile, hlast, htext]
    · exact .inr ⟨hnone, hempty hnothing⟩
  · obtain ⟨hclean, hlast, htext, _⟩ := hsame hstill
    rw [hlast, htext]
    exact h.writing i serialized hi hclean
  · obtain ⟨hclean, _, _, hempty⟩ := hsame hstill
    exact hempty (h.deleting i hi hclean)

/-- A save that does not go on leaves the limiter, or only its clock. -/
theorem saveUsage_of_not_saves {s : State} {force : Bool} {interval now : Nat} (h : saves s force interval now = false) :
    s.usageDirty = false ∧ saveUsage s force interval now = s ∨ (saveUsage s force interval now).usageDirty = true := by
  rw [saves, Bool.and_eq_false_iff, Bool.not_eq_false', decide_eq_true_eq] at h
  rw [saveUsage]
  by_cases hclean : s.usageDirty = false
  · exact .inl ⟨hclean, if_pos hclean⟩
  · rw [if_neg hclean]
    dsimp only
    rw [if_pos (h.resolve_left hclean)]
    exact .inr (Bool.eq_true_of_not_eq_false hclean)

theorem saveUsage_of_saves {s : State} {force : Bool} {interval now : Nat} (h : saves s force interval now = true) :
    (saveUsage s force interval now).usageDirty = false ∧ (saveUsage s force interval now).lastSaveTime = now := by
  rw [saves, Bool.and_eq_true, Bool.not_eq_true', decide_eq_false_iff_not] at h
  rw [saveUsage, if_neg (by rw [h.1]; exact (by decide))]
  dsimp only
  rw [if_neg h.2]
  exact ⟨rfl, rfl⟩

/-- One section. -/
theorem inv_step (h : w.Inv) {sec : Section} (hsound : w.Sound sec) {next : World} (hstep : w.step thread sec = some next) :
    next.Inv := by
  cases sec with
  | checkAndConsume key addition limits now =>
    rw [step] at hstep
    split at hstep
    · rw [← Option.some.inj hstep]
      exact inv_checkAndConsume h hsound
    · cases hstep
  | snapshot force interval now =>
    rw [step] at hstep
    split at hstep
    · dsimp only at hstep
      split at hstep
      · rename_i hsaves
        obtain ⟨hclean, hlast⟩ := saveUsage_of_saves hsaves
        have hidle : w.Idle := hsound hsaves
        rw [← Option.some.inj hstep]
        refine ⟨alone_setTask (w := { w with limiter := saveUsage w.limiter force interval now }) hidle _,
          fun hrest _ => ?_, fun i serialized hi _ => ?_, fun i hi _ => ?_⟩
        · have hbusy := hrest thread
          rw [tasks_setTask, if_pos rfl] at hbusy
          cases hbusy
        · rw [tasks_setTask] at hi
          split at hi
          · rw [Option.some.injEq, Task.write.injEq] at hi
            show serialized = (serializeUsage (saveUsage w.limiter force interval now).accountUsage
              (saveUsage w.limiter force interval now).lastSaveTime).1
            rw [hlast, ← hi]
          · rw [show w.tasks i = none from hidle i] at hi
            cases hi
        · rw [tasks_setTask] at hi
          split at hi
          · cases hi
          · rw [show w.tasks i = none from hidle i] at hi
            cases hi
      · rename_i hsaves
        rw [← Option.some.inj hstep]
        obtain ⟨_, hsame⟩ | hdirty := saveUsage_of_not_saves (Bool.eq_false_iff.2 hsaves)
        · rw [hsame]
          exact h
        · have hnot : (saveUsage w.limiter force interval now).usageDirty ≠ false := by
            rw [hdirty]
            decide
          exact ⟨h.alone, fun _ hclean => absurd hclean hnot, fun _ _ _ hclean => absurd hclean hnot,
            fun _ _ hclean => absurd hclean hnot⟩
    · cases hstep
  | write succeeds =>
    rw [step] at hstep
    split at hstep
    · rename_i serialized htask
      have hbusy : w.tasks thread ≠ none := by
        rw [htask]
        exact Option.some_ne_none _
      have hothers : ∀ i, i ≠ thread → w.tasks i = none := by
        intro i hne
        by_contra hi
        exact hne (h.alone i thread hi hbusy)
      split at hstep
      · have hidle := @idle_setTask { w with file := some serialized } thread h.alone hbusy
        rw [← Option.some.inj hstep]
        refine ⟨fun i _ hi => absurd (hidle i) hi, fun _ hclean => .inl ?_, fun i _ hi => ?_, fun i hi => ?_⟩
        · exact congrArg some (h.writing thread serialized htask hclean)
        · rw [hidle i] at hi
          cases hi
        · rw [hidle i] at hi
          cases hi
      · rw [← Option.some.inj hstep]
        refine ⟨fun i j hi hj => ?_, fun hrest => ?_, fun i _ hi => ?_, fun i hi => ?_⟩
        · have hone : ∀ k, (w.setTask thread (some .restore)).tasks k ≠ none → k = thread := by
            intro k hk
            by_contra hne
            rw [tasks_setTask, if_neg hne] at hk
            exact hk (hothers k hne)
          exact (hone i hi).trans (hone j hj).symm
        · have hrestore := hrest thread
          rw [tasks_setTask, if_pos rfl] at hrestore
          cases hrestore
        · rw [tasks_setTask] at hi
          split at hi
          · cases hi
          · rename_i hne
            rw [hothers i hne] at hi
            cases hi
        · rw [tasks_setTask] at hi
          split at hi
          · cases hi
          · rename_i hne
            rw [hothers i hne] at hi
            cases hi
    · cases hstep
  | restore =>
    rw [step] at hstep
    split at hstep
    · rename_i htask
      have hidle := @idle_setTask { w with limiter := { w.limiter with usageDirty := true } } thread h.alone
        (by rw [show w.tasks thread = some .restore from htask]; exact Option.some_ne_none _)
      rw [← Option.some.inj hstep]
      exact ⟨fun i _ hi => absurd (hidle i) hi, fun _ hclean => (nomatch hclean), fun _ _ _ hclean => (nomatch hclean),
        fun _ _ hclean => (nomatch hclean)⟩
    · cases hstep
  | clear now =>
    rw [step] at hstep
    split at hstep
    · have hidle : w.Idle := hsound
      rw [← Option.some.inj hstep]
      refine ⟨alone_setTask (w := { w with
          limiter := { w.limiter with accountUsage := {}, lastSaveTime := now, usageDirty := false } }) hidle _,
        fun hrest _ => ?_, fun i _ hi _ => ?_, fun _ _ _ account hmem => absurd hmem List.not_mem_nil⟩
      · have hdelete := hrest thread
        rw [tasks_setTask, if_pos rfl] at hdelete
        cases hdelete
      · rw [tasks_setTask] at hi
        split at hi
        · cases hi
        · rw [show w.tasks i = none from hidle i] at hi
          cases hi
    · cases hstep
  | delete succeeds =>
    rw [step] at hstep
    split at hstep
    · rename_i htask
      have hgone : succeeds = true := hsound
      have hidle := @idle_setTask { w with file := if succeeds then none else w.file } thread h.alone
        (by rw [show w.tasks thread = some .delete from htask]; exact Option.some_ne_none _)
      rw [← Option.some.inj hstep]
      refine ⟨fun i _ hi => absurd (hidle i) hi, fun _ hclean => .inr ⟨if_pos hgone, h.deleting thread htask hclean⟩,
        fun i _ hi => ?_, fun i hi => ?_⟩
      · rw [hidle i] at hi
        cases hi
      · rw [hidle i] at hi
        cases hi
    · cases hstep

/-- An interleaving. -/
theorem inv_run (h : w.Inv) {sections : List (Nat × Section)} (hsound : w.SoundRun sections) {final : World}
    (hrun : w.run sections = some final) : final.Inv := by
  induction sections generalizing w with
  | nil =>
    rw [run] at hrun
    rwa [← Option.some.inj hrun]
  | cons first rest ih =>
    rw [run] at hrun
    obtain ⟨next, hnext, hrun⟩ := Option.bind_eq_some_iff.1 hrun
    exact ih (inv_step h hsound.1 hnext) (hsound.2 next hnext) hrun

end World

/-- In every interleaving in which saves and clears come one after another, a call
    that is not counted changes nothing that was written, and a cleared file goes, the
    file is that of the map whenever no save or clear is under way and the flag is off. -/
theorem file_current (sections : List (Nat × Section)) (w : World) (hsound : World.SoundRun {} sections)
    (hrun : World.run {} sections = some w) (hidle : w.Idle) (hclean : w.limiter.usageDirty = false) : w.Current :=
  (World.inv_run World.inv_start hsound hrun).current hidle hclean

/-- A message of an account, a message a minute at most. -/
def sends (thread : Nat) (address : String) (now : Nat) : Nat × Section :=
  (thread, .checkAndConsume (wide address) (countsOf 1 0) oneAnHour now)

/-- A save that ends while another thread's message waits for the next one. -/
def orderly : List (Nat × Section) :=
  [sends 1 "a@b" 3600, (1, .snapshot true 10 3600), sends 2 "c@d" 3601, (1, .write true), (2, .snapshot true 10 3602), (2, .write true)]

theorem soundRun_cons {w next : World} {thread : Nat} {sec : Section} {rest : List (Nat × Section)}
    (hsound : w.Sound sec) (hstep : w.step thread sec = some next) (hrest : next.SoundRun rest) :
    w.SoundRun ((thread, sec) :: rest) := by
  refine ⟨hsound, fun other hother => ?_⟩
  rw [hstep] at hother
  rwa [← Option.some.inj hother]

theorem soundRun_orderly : World.SoundRun {} orderly := by
  refine soundRun_cons (fun _ => ⟨by decide, .inl rfl⟩) rfl ?_
  refine soundRun_cons (fun _ _ => rfl) rfl ?_
  refine soundRun_cons (fun _ => ⟨by decide, .inl rfl⟩) rfl ?_
  refine soundRun_cons trivial rfl ?_
  refine soundRun_cons (fun _ t => ?_) rfl ?_
  · show (if t = 1 then none else if t = 1 then _ else none) = none
    split_ifs <;> rfl
  exact soundRun_cons trivial rfl trivial

theorem file_current_orderly : ∃ w, World.run {} orderly = some w ∧ w.Current := by
  refine ⟨_, rfl, file_current orderly _ soundRun_orderly rfl (fun t => ?_) rfl⟩
  show (if t = 2 then none else if t = 2 then _ else if t = 1 then none else if t = 1 then _ else none) = none
  split_ifs <;> rfl

/-- One recipient an hour. -/
def oneRecipient : AccountSendingLimits where
  max
    | .messages => 0
    | .recipients => 1
  periodHours := 1
  max_le := by
    intro c
    cases c <;> decide

/-- The older of two snapshots is written last. -/
def staleSave : List (Nat × Section) :=
  [sends 1 "a@b" 3600, (1, .snapshot true 10 3600), sends 2 "c@d" 3601, (2, .snapshot true 10 3601), (2, .write true), (1, .write true)]

/-- A snapshot is written after the file was deleted. -/
def staleAfterClear : List (Nat × Section) :=
  [sends 1 "a@b" 3600, (1, .snapshot true 10 3600), (2, .clear 3601), (2, .delete true), (1, .write true)]

/-- A refused call drops an expired bucket. -/
def refusedAfterSave : List (Nat × Section) :=
  [(1, .checkAndConsume (wide "a@b") (countsOf 0 1) oneRecipient 3600), (1, .snapshot true 10 3600), (1, .write true),
    (1, .checkAndConsume (wide "a@b") (countsOf 0 2) oneRecipient 7300)]

theorem not_current {w : World} {text : WString} (hfile : w.file = some text)
    (hne : text ≠ (serializeUsage w.limiter.accountUsage w.limiter.lastSaveTime).1) : ¬w.Current := by
  intro h
  obtain h | h := h
  · rw [hfile] at h
    exact hne (Option.some.inj h)
  · rw [hfile] at h
    cases h.1

/-- Each leaves a file that is not that of the map, with the flag off and nobody at
    work. -/
theorem stale_files :
    (∃ w, World.run {} staleSave = some w ∧ w.Idle ∧ w.limiter.usageDirty = false ∧ ¬w.Current) ∧
    (∃ w, World.run {} staleAfterClear = some w ∧ w.Idle ∧ w.limiter.usageDirty = false ∧ ¬w.Current) ∧
    (∃ w, World.run {} refusedAfterSave = some w ∧ w.Idle ∧ w.limiter.usageDirty = false ∧ ¬w.Current) := by
  refine ⟨⟨_, rfl, fun t => ?_, rfl, not_current rfl (by decide +kernel)⟩,
    ⟨_, rfl, fun t => ?_, rfl, not_current rfl (by decide +kernel)⟩,
    ⟨_, rfl, fun t => ?_, rfl, not_current rfl (by decide +kernel)⟩⟩
  · show (if t = 1 then none else if t = 2 then none else if t = 2 then _ else if t = 1 then _ else none) = none
    split_ifs <;> rfl
  · show (if t = 1 then none else if t = 2 then none else if t = 2 then _ else if t = 1 then _ else none) = none
    split_ifs <;> rfl
  · show (if t = 1 then none else if t = 1 then _ else none) = none
    split_ifs <;> rfl

end HMailServer.RateLimiter
