import HMailServer.Tcp.Completions

/- A completed operation leaves the queue, but where an exception or an early
   return jumps over the `Pop`. -/
namespace HMailServer.Tcp.Completions

open OperationQueue

/-! ## The steps that reach the `Pop` -/

/-- The handlers that no `Pop` waits behind, and `ParseData`, whose exceptions
    are caught. -/
def Handler.guarded : Handler → Bool
  | .onConnected | .parseData | .onConnectionTimeout => true
  | .onReadError | .onExcessiveDataReceived | .onDataSent | .onHandshakeCompleted | .onHandshakeFailed => false

/-- Whether an exception here jumps over a `Pop` of the function that is running. -/
def popNext : List Code → Bool
  | .left _ :: rest => popNext rest
  | .pop _ :: _ => true
  | _ => false

/-- No write fails once the connection is not connected, no exception leaves a
    handler that is not guarded, and `ProcessOperationQueue_` does not reach its
    recursion limit below a `Pop`. -/
def Meets (s : Strand) : Act → Prop
  | .goes choice =>
    match s.raised, s.code with
    | none, .asyncWriteCompleted _ error :: _ => error = .success ∨ s.connection.connectionState = .connected
    | none, .processOperationQueue level :: rest => level ≤ 10 ∨ popNext rest = false
    | none, .call handler :: _ => handler.guarded = true ∨ ∀ exception, choice ≠ .throws exception
    | some _, .call handler :: _ => handler.guarded = true ∨ choice = .goes
    | _, _ => True
  | _ => True

/-- The strands a new connection reaches. -/
inductive Reached (allowed : Strand → Act → Prop) : Strand → Prop
  | init : Reached allowed {}
  | step {s s' : Strand} (act : Act) : Reached allowed s → allowed s act → step s act = some s' → Reached allowed s'

/-- What the completion handlers owe: the operation is out of the ongoing list
    and was removed once; between two events only operations whose asynchronous
    call is still under way are ongoing. -/
structure Retires (s : Strand) : Prop where
  finished : ∀ operation ∈ s.connection.finished,
    operation ∉ s.connection.operationQueue.ongoingOperations ∧ s.connection.popped.count operation = 1
  idle : s.idle → ∀ operation ∈ s.connection.operationQueue.ongoingOperations, operation ∈ s.connection.underWay

/-! ## The stack -/

/-- The operations that the stack will still pop, in its order. An exception
    pops what the `catch` clauses pop; `gone` has been popped before. -/
def Owes : List Code → Bool → List IOOperation → List IOOperation → Prop
  | [], _, _, owed => owed = []
  | .call handler :: rest, _, gone, owed =>
    Owes rest false gone owed ∧ (handler.guarded = true → Owes rest true gone owed)
  | .left operation :: rest, raising, gone, owed => operation ∈ gone ∧ Owes rest raising gone owed
  | .rethrow _ :: rest, _, gone, owed => Owes rest true gone owed
  | .endTry operation :: rest, true, gone, owed =>
    ∃ owed', owed = operation :: owed' ∧ Owes rest true (operation :: gone) owed'
  | _ :: rest, true, gone, owed => Owes rest true gone owed
  | .endTry _ :: rest, false, gone, owed => Owes rest false gone owed
  | .pop operation :: rest, false, gone, owed =>
    ∃ owed', owed = operation :: owed' ∧ Owes rest false (operation :: gone) owed'
  | .processOperationQueue _ :: rest, false, gone, owed =>
    Owes rest false gone owed ∧ (popNext rest = true ∨ Owes rest true gone owed)
  | .enqueueDisconnect :: rest, false, gone, owed =>
    Owes rest false gone owed ∧ (popNext rest = true ∨ Owes rest true gone owed)
  | .asyncWriteCompleted operation _ :: rest, false, gone, owed =>
    ∃ owed', owed = operation :: owed' ∧ Owes rest false (operation :: gone) owed' ∧
      (popNext rest = true ∨ Owes rest true (operation :: gone) owed')
  | .asyncReadCompleted operation _ :: rest, false, _, owed => rest = [] ∧ owed = [operation]
  | .asyncCompressedReadCompleted operation _ :: rest, false, _, owed => rest = [] ∧ owed = [operation]
  | .asyncHandshakeCompleted operation _ :: rest, false, _, owed => rest = [] ∧ owed = [operation]
  | .asyncDelayCompleted operation :: rest, false, _, owed => rest = [] ∧ owed = [operation]

theorem Owes.mono {code : List Code} {raising : Bool} {gone gone' owed : List IOOperation}
    (h : Owes code raising gone owed) (hsub : gone ⊆ gone') : Owes code raising gone' owed := by
  induction code generalizing raising gone gone' owed with
  | nil => exact h
  | cons first rest ih =>
    cases first with
    | call handler => exact ⟨ih h.1 hsub, fun hguarded => ih (h.2 hguarded) hsub⟩
    | left operation => exact ⟨hsub h.1, ih h.2 hsub⟩
    | rethrow exception => exact ih h hsub
    | endTry operation =>
      cases raising with
      | true =>
        obtain ⟨owed', rfl, h⟩ := h
        exact ⟨owed', rfl, ih h (List.cons_subset_cons _ hsub)⟩
      | false => exact ih h hsub
    | pop operation =>
      cases raising with
      | true => exact ih h hsub
      | false =>
        obtain ⟨owed', rfl, h⟩ := h
        exact ⟨owed', rfl, ih h (List.cons_subset_cons _ hsub)⟩
    | processOperationQueue level =>
      cases raising with
      | true => exact ih h hsub
      | false => exact ⟨ih h.1 hsub, h.2.imp_right fun h => ih h hsub⟩
    | enqueueDisconnect =>
      cases raising with
      | true => exact ih h hsub
      | false => exact ⟨ih h.1 hsub, h.2.imp_right fun h => ih h hsub⟩
    | asyncWriteCompleted operation error =>
      cases raising with
      | true => exact ih h hsub
      | false =>
        obtain ⟨owed', rfl, h, h'⟩ := h
        exact ⟨owed', rfl, ih h (List.cons_subset_cons _ hsub), h'.imp_right fun h => ih h (List.cons_subset_cons _ hsub)⟩
    | asyncReadCompleted operation error =>
      cases raising with
      | true => exact ih h hsub
      | false => exact h
    | asyncCompressedReadCompleted operation error =>
      cases raising with
      | true => exact ih h hsub
      | false => exact h
    | asyncHandshakeCompleted operation error =>
      cases raising with
      | true => exact ih h hsub
      | false => exact h
    | asyncDelayCompleted operation =>
      cases raising with
      | true => exact ih h hsub
      | false => exact h

/-- What `Pop` and the completion handlers end with. -/
theorem owes_last {operation : IOOperation} {rest : List Code} {gone owed : List IOOperation}
    (h : Owes rest false (operation :: gone) owed) (hraise : popNext rest = true ∨ Owes rest true (operation :: gone) owed)
    (level : Nat) :
    Owes (.pop operation :: .processOperationQueue level :: .left operation :: rest) false gone (operation :: owed) := by
  have hmem : operation ∈ operation :: gone := List.mem_cons_self
  exact ⟨owed, rfl, ⟨hmem, h⟩, hraise.imp_right fun h => ⟨hmem, h⟩⟩

/-! ## The operations -/

/-- Each ongoing operation is under way or on the stack. -/
structure Kept (c : Connection) (owed : List IOOperation) : Prop where
  compatible : Compatible IOOperation.type c.operationQueue.ongoingOperations
  accounted : c.operationQueue.ongoingOperations.Perm (c.underWay ++ owed)
  distinct : (c.popped ++ c.operationQueue.ongoingOperations ++ c.operationQueue.queueOperations).Nodup
  fresh : ∀ operation ∈ c.popped ++ c.operationQueue.ongoingOperations ++ c.operationQueue.queueOperations,
    operation.id < c.nextId
  finished : c.finished ⊆ c.popped

variable {c : Connection} {owed : List IOOperation}

theorem Kept.push (h : Kept c owed) (type : OperationType) (enables : Bool) : Kept (c.push type enables) owed := by
  have hnew : (⟨c.nextId, type, enables⟩ : IOOperation) ∉
      c.popped ++ c.operationQueue.ongoingOperations ++ c.operationQueue.queueOperations := by
    intro hmem
    have hlt : c.nextId < c.nextId := h.fresh _ hmem
    omega
  refine ⟨h.compatible, h.accounted, ?_, ?_, h.finished⟩
  · show (c.popped ++ c.operationQueue.ongoingOperations ++ (c.operationQueue.queueOperations ++ [_])).Nodup
    rw [← List.append_assoc]
    exact List.nodup_append.2 ⟨h.distinct, List.nodup_singleton _, fun a ha b hb hab => hnew (by
      rw [List.mem_singleton] at hb
      rwa [hab, hb] at ha)⟩
  · intro operation hmem
    show operation.id < c.nextId + 1
    have hcases : operation ∈ c.popped ++ c.operationQueue.ongoingOperations ++ c.operationQueue.queueOperations ∨
        operation = ⟨c.nextId, type, enables⟩ := by
      change operation ∈ c.popped ++ c.operationQueue.ongoingOperations ++ (c.operationQueue.queueOperations ++ [_]) at hmem
      rwa [← List.append_assoc, List.mem_append, List.mem_singleton] at hmem
    rcases hcases with hold | hnew
    · have hlt := h.fresh operation hold
      omega
    · rw [hnew]
      exact Nat.lt_succ_self _

/-- What `Front` returns is ongoing and not under way yet. -/
theorem Kept.front (h : Kept c owed) {operation : IOOperation}
    (hfront : (front IOOperation.type c.operationQueue).1 = some operation) :
    Kept { c with operationQueue := (OperationQueue.front IOOperation.type c.operationQueue).2 } (operation :: owed) := by
  obtain ⟨rest, hqueue, hall, hnext⟩ := front_some hfront
  have hmoved : (c.popped ++ (c.operationQueue.ongoingOperations ++ [operation]) ++ rest).Perm
      (c.popped ++ c.operationQueue.ongoingOperations ++ c.operationQueue.queueOperations) := by
    rw [hqueue, List.append_assoc, List.append_assoc, List.append_assoc, List.singleton_append]
  rw [hnext]
  refine ⟨?_, ?_, ?_, ?_, h.finished⟩
  · exact List.pairwise_append.2 ⟨h.compatible, List.pairwise_singleton _ _, fun ongoing hongoing later hlater => by
      rw [List.mem_singleton.1 hlater]
      exact hall ongoing hongoing⟩
  · calc (c.operationQueue.ongoingOperations ++ [operation]).Perm (operation :: c.operationQueue.ongoingOperations) :=
          List.perm_append_singleton _ _
      _ |>.Perm (operation :: (c.underWay ++ owed)) := h.accounted.cons _
      _ |>.Perm (c.underWay ++ operation :: owed) := List.perm_middle.symm
  · exact hmoved.nodup_iff.2 h.distinct
  · exact fun other hmem => h.fresh other (hmoved.mem_iff.1 hmem)

theorem Kept.starts {operation : IOOperation} (h : Kept c (operation :: owed)) : Kept (c.starts operation) owed := by
  refine ⟨h.compatible, ?_, h.distinct, h.fresh, h.finished⟩
  show c.operationQueue.ongoingOperations.Perm (c.underWay ++ [operation] ++ owed)
  rw [List.append_assoc, List.singleton_append]
  exact h.accounted

/-- The asynchronous call is over. -/
theorem Kept.completes {operation : IOOperation} (h : Kept c []) (hmem : operation ∈ c.underWay) :
    Kept { c with underWay := c.underWay.erase operation } [operation] := by
  refine ⟨h.compatible, ?_, h.distinct, h.fresh, h.finished⟩
  have haccounted := h.accounted
  rw [List.append_nil] at haccounted
  exact haccounted.trans ((List.perm_cons_erase hmem).trans (List.perm_append_singleton _ _).symm)

theorem mem_ongoing {operation : IOOperation} (h : Kept c (operation :: owed)) :
    operation ∈ c.operationQueue.ongoingOperations :=
  h.accounted.mem_iff.2 (List.mem_append_right _ List.mem_cons_self)

/-- `Pop` is by type, but no other ongoing operation has the type. -/
theorem pop_owed {operation : IOOperation} (h : Kept c (operation :: owed)) :
    (c.pop operation.type).popped = operation :: c.popped ∧
    (c.pop operation.type).operationQueue.queueOperations = c.operationQueue.queueOperations ∧
    (operation :: (c.pop operation.type).operationQueue.ongoingOperations).Perm c.operationQueue.ongoingOperations ∧
    ((c.pop operation.type).operationQueue.ongoingOperations).Sublist c.operationQueue.ongoingOperations := by
  obtain ⟨i, hi, hget⟩ := List.mem_iff_getElem.1 (mem_ongoing h)
  have hpop := pop_ongoing h.compatible hi
  rw [hget] at hpop
  have hfind : c.operationQueue.ongoingOperations.find? (fun oper => oper.type == operation.type) = some operation := by
    cases hcases : c.operationQueue.ongoingOperations.find? (fun oper => oper.type == operation.type) with
    | none =>
      have hnone := List.find?_eq_none.1 hcases operation (mem_ongoing h)
      exact absurd (beq_self_eq_true _) hnone
    | some other =>
      have htype := List.find?_some hcases
      have hsame := List.inj_on_of_nodup_map h.compatible.nodup (List.mem_of_find?_eq_some hcases) (mem_ongoing h)
        (eq_of_beq htype)
      rw [hsame]
  refine ⟨?_, ?_, ?_, ?_⟩
  · show (c.operationQueue.ongoingOperations.find? _).toList ++ c.popped = _
    rw [hfind]
    rfl
  · show (OperationQueue.pop _ _ _).1.queueOperations = _
    rw [hpop]
  · show (operation :: (OperationQueue.pop _ _ _).1.ongoingOperations).Perm _
    rw [hpop, ← hget]
    exact List.getElem_cons_eraseIdx_perm hi
  · show ((OperationQueue.pop _ _ _).1.ongoingOperations).Sublist _
    rw [hpop]
    exact List.eraseIdx_sublist _ _

theorem Kept.pop {operation : IOOperation} (h : Kept c (operation :: owed)) : Kept (c.pop operation.type) owed := by
  obtain ⟨hpopped, hqueue, hperm, hsub⟩ := pop_owed h
  have hmoved : ((c.pop operation.type).popped ++ (c.pop operation.type).operationQueue.ongoingOperations ++
      (c.pop operation.type).operationQueue.queueOperations).Perm
      (c.popped ++ c.operationQueue.ongoingOperations ++ c.operationQueue.queueOperations) := by
    rw [hpopped, hqueue]
    apply List.Perm.append_right
    rw [List.cons_append]
    exact List.perm_middle.symm.trans (hperm.append_left _)
  refine ⟨h.compatible.sublist hsub, ?_, hmoved.nodup_iff.2 h.distinct, ?_, ?_⟩
  · apply List.Perm.cons_inv (a := operation)
    exact hperm.trans (h.accounted.trans List.perm_middle)
  · exact fun other hmem => h.fresh other (hmoved.mem_iff.1 hmem)
  · rw [hpopped]
    exact fun other hmem => List.mem_cons_of_mem _ (h.finished hmem)

/-! ## One step -/

/-- What holds between the steps of a run. -/
def Sound (s : Strand) : Prop :=
  ∃ owed, Owes s.code s.raised.isSome s.connection.popped owed ∧ Kept s.connection owed

variable {gone : List IOOperation} {rest : List Code}

theorem owes_left_raising {operation : IOOperation} (h : popNext rest = true ∨ Owes rest true gone owed)
    (hmem : operation ∈ gone) : popNext (.left operation :: rest) = true ∨ Owes (.left operation :: rest) true gone owed :=
  h.imp_right fun h => ⟨hmem, h⟩

theorem owes_last_nil (operation : IOOperation) (gone : List IOOperation) :
    Owes [.pop operation, .processOperationQueue 0, .left operation] false gone [operation] := by
  have hnil : ∀ raising, Owes [] raising (operation :: gone) [] := fun _ => rfl
  exact owes_last (hnil false) (.inr (hnil true)) 0

theorem sound_asyncHandshake {operation : IOOperation} (choice : Choice) (h : Kept c (operation :: owed))
    (hrest : Owes rest false c.popped owed) (hraise : popNext rest = true ∨ Owes rest true c.popped owed) :
    Sound (execute.settle (asyncHandshake c operation choice) rest) := by
  unfold asyncHandshake
  split
  · have hsub : c.popped ⊆ operation :: c.popped := List.subset_cons_self _ _
    have hmem : operation ∈ operation :: c.popped := List.mem_cons_self
    refine ⟨operation :: owed, ?_, ⟨h.compatible, h.accounted, h.distinct, h.fresh, h.finished⟩⟩
    exact ⟨⟨owed, rfl, ⟨hmem, hrest.mono hsub⟩, owes_left_raising (hraise.imp_right fun h => h.mono hsub) hmem⟩,
      fun hguarded => nomatch hguarded⟩
  · have hstarted : Kept ({ c with handshakeInProgress := true }.starts operation) owed :=
      Kept.starts ⟨h.compatible, h.accounted, h.distinct, h.fresh, h.finished⟩
    exact ⟨owed, hrest, hstarted⟩

theorem sound_asyncWrite {operation : IOOperation} (choice : Choice) (h : Kept c (operation :: owed))
    (hrest : Owes rest false c.popped owed) (hraise : popNext rest = true ∨ Owes rest true c.popped owed) :
    Sound (execute.settle (asyncWrite c operation choice) rest) := by
  unfold asyncWrite
  split
  · have hsub : c.popped ⊆ operation :: c.popped := List.subset_cons_self _ _
    exact ⟨operation :: owed, ⟨owed, rfl, hrest.mono hsub, hraise.imp_right fun h => h.mono hsub⟩, h⟩
  · exact ⟨owed, hrest, h.starts⟩

/-- The queue starts one operation, or none. -/
theorem sound_processOperationQueue (level : Nat) (choice : Choice) (h : Kept c owed)
    (hrest : Owes rest false c.popped owed) (hraise : popNext rest = true ∨ Owes rest true c.popped owed)
    (hlevel : level ≤ 10 ∨ popNext rest = false) :
    Sound (execute.settle (processOperationQueue c level choice) rest) := by
  unfold processOperationQueue
  by_cases hlimit : 10 < level
  · rw [if_pos hlimit]
    have hnext : popNext rest = false := hlevel.resolve_left (by omega)
    exact ⟨owed, hraise.resolve_left (by rw [hnext]; decide), h⟩
  · rw [if_neg hlimit]
    cases hfront : (front IOOperation.type c.operationQueue).1 with
    | none => exact ⟨owed, hrest, h⟩
    | some operation =>
      have hkept := h.front hfront
      have hnext : Owes (.processOperationQueue (level + 1) :: rest) false c.popped owed := ⟨hrest, hraise⟩
      have hpop : Owes (.pop operation :: .processOperationQueue (level + 1) :: rest) false c.popped (operation :: owed) :=
        ⟨owed, rfl, hnext.mono (List.subset_cons_self _ _)⟩
      cases htype : operation.type with
      | handshake =>
        simp only [htype]
        exact sound_asyncHandshake choice hkept hrest hraise
      | write =>
        simp only [htype]
        by_cases henables : operation.enablesCompression = true
        · rw [if_pos henables]
          exact sound_asyncWrite choice
            ⟨hkept.compatible, hkept.accounted, hkept.distinct, hkept.fresh, hkept.finished⟩ hrest hraise
        · rw [if_neg henables]
          exact sound_asyncWrite choice hkept hrest hraise
      | read =>
        simp only [htype]
        exact ⟨owed, hnext, hkept.starts⟩
      | delay =>
        simp only [htype]
        exact ⟨owed, hrest, hkept.starts⟩
      | shutdownSend =>
        simp only [htype]
        exact ⟨operation :: owed, hpop, hkept⟩
      | disconnect =>
        simp only [htype]
        exact ⟨operation :: owed, hpop,
          ⟨hkept.compatible, hkept.accounted, hkept.distinct, hkept.fresh, hkept.finished⟩⟩

theorem sound_enqueueDisconnect (h : Kept c owed) (hrest : Owes rest false c.popped owed)
    (hraise : popNext rest = true ∨ Owes rest true c.popped owed) :
    Sound ⟨(enqueueDisconnect c).1, (enqueueDisconnect c).2 ++ rest, none⟩ := by
  unfold enqueueDisconnect
  split
  · exact ⟨owed, hrest, h⟩
  · have hpending : Kept { c with connectionState := .pendingDisconnect } owed :=
      ⟨h.compatible, h.accounted, h.distinct, h.fresh, h.finished⟩
    exact ⟨owed, ⟨hrest, hraise⟩, hpending.push .disconnect false⟩

/-- A call of the deriving class, which goes on or may see an exception. -/
theorem sound_callApi (api : Api) (choice : Choice) (h : Kept c owed) (hrest : Owes rest false c.popped owed)
    (hraise : Owes rest true c.popped owed) : Sound (execute.settle (callApi c choice api) rest) := by
  have hqueued : ∀ (c' : Connection) (type : OperationType) (enables : Bool), Kept c' owed → c'.popped = c.popped →
      Sound ⟨c'.push type enables, .processOperationQueue 0 :: rest, none⟩ := by
    intro c' type enables h' hpopped
    refine ⟨owed, ?_, h'.push type enables⟩
    show Owes (.processOperationQueue 0 :: rest) false c'.popped owed
    rw [hpopped]
    exact ⟨hrest, .inr hraise⟩
  cases api with
  | enqueue type =>
    dsimp only [callApi]
    split
    · exact ⟨owed, hraise, h⟩
    · exact hqueued c type false h rfl
  | enqueueDisconnect => exact sound_enqueueDisconnect h hrest (.inr hraise)
  | enableCompression =>
    dsimp only [callApi]
    split
    · exact ⟨owed, hrest, h⟩
    · split
      · exact ⟨owed, hraise, h⟩
      · exact hqueued { c with compressionReadEnabled := true } .write true
          ⟨h.compatible, h.accounted, h.distinct, h.fresh, h.finished⟩ rfl
  | setReceiveBinary binary => exact ⟨owed, hrest, ⟨h.compatible, h.accounted, h.distinct, h.fresh, h.finished⟩⟩

theorem sound_call {handler : Handler} (choice : Choice) (h : Kept c owed)
    (hcode : Owes (.call handler :: rest) false c.popped owed)
    (hmeets : handler.guarded = true ∨ ∀ exception, choice ≠ .throws exception) :
    Sound (execute c choice rest (.call handler)) := by
  cases choice with
  | calls api => exact sound_callApi api .goes h hcode hcode
  | throws exception =>
    have hguarded := hmeets.resolve_right fun hnever => hnever exception rfl
    exact ⟨owed, hcode.2 hguarded, h⟩
  | fails => exact sound_callApi .enableCompression .fails h hcode hcode
  | goes => exact ⟨owed, hcode.1, h⟩
  | inflated result => exact ⟨owed, hcode.1, h⟩

theorem sound_asyncReadCompleted {operation : IOOperation} (error : ErrorCode) (h : Kept c [operation]) :
    Sound ⟨c, asyncReadCompleted c operation error ++ [], none⟩ := by
  have hmem : operation ∈ operation :: c.popped := List.mem_cons_self
  have hdone : ∀ raising, Owes [.left operation] raising (operation :: c.popped) [] := fun _ => ⟨hmem, rfl⟩
  have hprocess : Owes [.processOperationQueue 0, .left operation] false (operation :: c.popped) [] :=
    ⟨hdone false, .inr (hdone true)⟩
  have hlast : Owes ([Code.pop operation] ++ (if error = .eof then [Code.enqueueDisconnect] else []) ++
      [Code.processOperationQueue 0, .left operation]) false c.popped [operation] := by
    refine ⟨[], rfl, ?_⟩
    split
    · exact ⟨hprocess, .inr (hdone true)⟩
    · exact hprocess
  have hthrown : Owes ([Code.pop operation] ++ (if error = .eof then [Code.enqueueDisconnect] else []) ++
      [Code.processOperationQueue 0, .left operation]) true (operation :: c.popped) [] := by
    split
    · exact hdone true
    · exact hdone true
  have hdisconnect : Owes (Code.enqueueDisconnect :: ([Code.pop operation] ++ (if error = .eof then [Code.enqueueDisconnect] else []) ++
      [Code.processOperationQueue 0, .left operation])) false c.popped [operation] := ⟨hlast, .inl rfl⟩
  refine ⟨[operation], ?_, h⟩
  show Owes (asyncReadCompleted c operation error ++ []) false c.popped [operation]
  rw [List.append_nil]
  unfold asyncReadCompleted
  dsimp only
  split
  · split
    · exact ⟨[], rfl, hprocess⟩
    · refine ⟨?_, fun hguarded => nomatch hguarded⟩
      split
      · exact ⟨hdisconnect, fun hguarded => nomatch hguarded⟩
      · exact hdisconnect
  -- an exception of ParseData finds the operation still to pop
  · exact ⟨hlast, fun _ => ⟨[], rfl, hthrown⟩⟩

theorem sound_asyncCompressedReadCompleted {operation : IOOperation} (error : ErrorCode) (choice : Choice)
    (h : Kept c [operation]) :
    Sound ⟨(asyncCompressedReadCompleted c operation error choice).1,
      (asyncCompressedReadCompleted c operation error choice).2 ++ [], none⟩ := by
  have hmem : operation ∈ operation :: c.popped := List.mem_cons_self
  have hread : ∀ error, Sound ⟨c, [.asyncReadCompleted operation error], none⟩ := fun _ => ⟨[operation], ⟨rfl, rfl⟩, h⟩
  have hunreadable : Sound ⟨c, [.pop operation, .enqueueDisconnect, .left operation], none⟩ :=
    ⟨[operation], ⟨[], rfl, ⟨hmem, rfl⟩, .inr ⟨hmem, rfl⟩⟩, h⟩
  unfold asyncCompressedReadCompleted
  split
  · exact hread error
  · cases choice with
    | inflated result =>
      cases result with
      | unreadable => exact hunreadable
      | satisfied => exact hread .success
      | full => exact hread .notFound
      | more => exact ⟨[], rfl, h.starts⟩
    | goes => exact hunreadable
    | fails => exact hunreadable
    | calls api => exact hunreadable
    | throws exception => exact hunreadable

theorem sound_asyncWriteCompleted {operation : IOOperation} (error : ErrorCode) (h : Kept c (operation :: owed))
    (hrest : Owes rest false (operation :: c.popped) owed)
    (hraise : popNext rest = true ∨ Owes rest true (operation :: c.popped) owed)
    (hmeets : error = .success ∨ c.connectionState = .connected) :
    Sound ⟨(asyncWriteCompleted c operation error).1, (asyncWriteCompleted c operation error).2 ++ rest, none⟩ := by
  have hlast := owes_last hrest hraise 0
  unfold asyncWriteCompleted
  dsimp only
  split
  · rename_i herror
    rw [if_neg (not_not.2 (hmeets.resolve_left herror))]
    exact ⟨operation :: owed, ⟨hlast, .inl rfl⟩, h⟩
  · have hcode : Owes ((if containsQueuedSendOperation c.operationQueue then [] else [Code.call .onDataSent]) ++
        [Code.pop operation, .processOperationQueue 0, .left operation] ++ rest) false c.popped (operation :: owed) := by
      split
      · exact hlast
      · exact ⟨hlast, fun hguarded => nomatch hguarded⟩
    split
    · exact ⟨operation :: owed, hcode, ⟨h.compatible, h.accounted, h.distinct, h.fresh, h.finished⟩⟩
    · exact ⟨operation :: owed, hcode, h⟩

theorem sound_asyncHandshakeCompleted {operation : IOOperation} (error : ErrorCode) (h : Kept c [operation]) :
    Sound ⟨(asyncHandshakeCompleted c operation error).1, (asyncHandshakeCompleted c operation error).2 ++ [], none⟩ := by
  have hlast := owes_last_nil operation c.popped
  refine ⟨[operation], ?_, ⟨h.compatible, h.accounted, h.distinct, h.fresh, h.finished⟩⟩
  show Owes ((asyncHandshakeCompleted c operation error).2 ++ []) false c.popped [operation]
  rw [List.append_nil]
  unfold asyncHandshakeCompleted
  dsimp only
  split
  · exact ⟨hlast, fun hguarded => nomatch hguarded⟩
  · exact ⟨⟨hlast, .inl rfl⟩, fun hguarded => nomatch hguarded⟩

/-- The first statement of the stack. -/
theorem sound_execute {s : Strand} {first : Code} (choice : Choice) (hs : Sound s) (hraised : s.raised = none)
    (hcode : s.code = first :: rest) (hmeets : Meets s (.goes choice)) : Sound (execute s.connection choice rest first) := by
  obtain ⟨owed, howes, hkept⟩ := hs
  rw [hcode, hraised] at howes
  unfold Meets at hmeets
  rw [hraised, hcode] at hmeets
  cases first with
  | processOperationQueue level => exact sound_processOperationQueue level choice hkept howes.1 howes.2 hmeets
  | pop operation =>
    obtain ⟨owed', rfl, hrest⟩ := howes
    refine ⟨owed', ?_, hkept.pop⟩
    show Owes rest false (s.connection.pop operation.type).popped owed'
    rw [(pop_owed hkept).1]
    exact hrest
  | enqueueDisconnect => exact sound_enqueueDisconnect hkept howes.1 howes.2
  | call handler => exact sound_call choice hkept howes hmeets
  | endTry operation => exact ⟨owed, howes, hkept⟩
  | rethrow exception => exact ⟨owed, howes, hkept⟩
  | asyncReadCompleted operation error =>
    obtain ⟨rfl, rfl⟩ := howes
    exact sound_asyncReadCompleted error hkept
  | asyncCompressedReadCompleted operation error =>
    obtain ⟨rfl, rfl⟩ := howes
    exact sound_asyncCompressedReadCompleted error choice hkept
  | asyncWriteCompleted operation error =>
    obtain ⟨owed', rfl, hrest, hraise⟩ := howes
    exact sound_asyncWriteCompleted error hkept hrest hraise hmeets
  | asyncHandshakeCompleted operation error =>
    obtain ⟨rfl, rfl⟩ := howes
    exact sound_asyncHandshakeCompleted error hkept
  | asyncDelayCompleted operation =>
    obtain ⟨rfl, rfl⟩ := howes
    exact ⟨[operation], owes_last_nil operation _, hkept⟩
  | left operation =>
    refine ⟨owed, howes.2, ⟨hkept.compatible, hkept.accounted, hkept.distinct, hkept.fresh, ?_⟩⟩
    exact List.cons_subset.2 ⟨howes.1, hkept.finished⟩

/-- An exception passes the first statement of the stack, or is caught there. -/
theorem sound_unwind {s : Strand} {exception : Exception} (choice : Choice) (hs : Sound s)
    (hraised : s.raised = some exception) (hmeets : Meets s (.goes choice)) :
    Sound (unwind s.connection exception choice s.code) := by
  obtain ⟨owed, howes, hkept⟩ := hs
  rw [hraised] at howes
  unfold Meets at hmeets
  rw [hraised] at hmeets
  cases hcode : s.code with
  | nil =>
    rw [hcode] at howes
    exact ⟨owed, howes, hkept⟩
  | cons first rest =>
    rw [hcode] at howes hmeets
    cases first with
    | endTry operation =>
      obtain ⟨owed', rfl, hrest⟩ := howes
      cases exception with
      | disconnected => exact ⟨operation :: owed', ⟨owed', rfl, hrest⟩, hkept⟩
      | other => exact ⟨operation :: owed', ⟨owed', rfl, hrest, .inr hrest⟩, hkept⟩
    | call handler =>
      dsimp only [unwind]
      split
      · exact ⟨owed, howes, hkept⟩
      · rename_i hgoes
        exact ⟨owed, howes.2 (hmeets.resolve_right hgoes), hkept⟩
    | left operation =>
      refine ⟨owed, howes.2, ⟨hkept.compatible, hkept.accounted, hkept.distinct, hkept.fresh, ?_⟩⟩
      exact List.cons_subset.2 ⟨howes.1, hkept.finished⟩
    | processOperationQueue level => exact ⟨owed, howes, hkept⟩
    | pop operation => exact ⟨owed, howes, hkept⟩
    | enqueueDisconnect => exact ⟨owed, howes, hkept⟩
    | rethrow exception => exact ⟨owed, howes, hkept⟩
    | asyncReadCompleted operation error => exact ⟨owed, howes, hkept⟩
    | asyncCompressedReadCompleted operation error => exact ⟨owed, howes, hkept⟩
    | asyncWriteCompleted operation error => exact ⟨owed, howes, hkept⟩
    | asyncHandshakeCompleted operation error => exact ⟨owed, howes, hkept⟩
    | asyncDelayCompleted operation => exact ⟨owed, howes, hkept⟩

/-- Between two events nothing is owed. -/
theorem owed_of_idle {s : Strand} (hs : Sound s) (hidle : s.idle) : Kept s.connection [] := by
  obtain ⟨owed, howes, hkept⟩ := hs
  rw [hidle.1] at howes
  have hnil : owed = [] := howes
  rwa [hnil] at hkept

theorem sound_completes {s s' : Strand} {operation : IOOperation} {error : ErrorCode} {inflates : Bool} (hs : Sound s)
    (h : step s (.completes operation error inflates) = some s') : Sound s' := by
  dsimp only [step] at h
  split at h
  · rename_i hnew
    obtain ⟨hidle, hunder, _⟩ := hnew
    have hkept := (owed_of_idle hs hidle).completes hunder
    obtain ⟨code, hcode, rfl⟩ := Option.map_eq_some_iff.1 h
    refine ⟨[operation], ?_, hkept⟩
    unfold completion at hcode
    split at hcode
    · obtain rfl := Option.some.inj hcode
      cases inflates with
      | true => exact ⟨rfl, rfl⟩
      | false => exact ⟨rfl, rfl⟩
    · obtain rfl := Option.some.inj hcode
      exact ⟨[], rfl, rfl, .inr rfl⟩
    · obtain rfl := Option.some.inj hcode
      exact ⟨rfl, rfl⟩
    · obtain rfl := Option.some.inj hcode
      exact ⟨rfl, rfl⟩
    · cases hcode
    · cases hcode
  · cases h

theorem sound_step {s s' : Strand} (act : Act) (hs : Sound s) (hmeets : Meets s act) (h : step s act = some s') :
    Sound s' := by
  cases act with
  | start =>
    dsimp only [step] at h
    split at h
    · rename_i hnew
      obtain rfl := Option.some.inj h
      have hkept := owed_of_idle hs hnew.1
      exact ⟨[], ⟨rfl, fun _ => rfl⟩, ⟨hkept.compatible, hkept.accounted, hkept.distinct, hkept.fresh, hkept.finished⟩⟩
    · cases h
  | completes operation error inflates => exact sound_completes hs h
  | timeout =>
    dsimp only [step] at h
    split at h
    · rename_i hidle
      have hkept := owed_of_idle hs hidle
      obtain rfl := Option.some.inj h
      split
      · obtain ⟨owed, howes, _⟩ := hs
        exact ⟨[], by rw [hidle.1]; rfl, ⟨hkept.compatible, hkept.accounted, hkept.distinct, hkept.fresh, hkept.finished⟩⟩
      · refine ⟨[], ?_, hkept⟩
        rw [hidle.2]
        exact ⟨⟨rfl, .inr rfl⟩, fun _ => rfl⟩
    · cases h
  | sessionCeilingReached =>
    dsimp only [step] at h
    split at h
    · rename_i hidle
      have hkept := owed_of_idle hs hidle
      obtain rfl := Option.some.inj h
      exact ⟨[], by rw [hidle.1]; rfl, ⟨hkept.compatible, hkept.accounted, hkept.distinct, hkept.fresh, hkept.finished⟩⟩
    · cases h
  | dispatched =>
    dsimp only [step] at h
    split at h
    · rename_i hidle
      have hkept := owed_of_idle hs hidle
      obtain rfl := Option.some.inj h
      refine ⟨[], ?_, hkept⟩
      rw [hidle.2]
      exact ⟨rfl, .inr rfl⟩
    · cases h
  | pushed type enables =>
    obtain rfl := Option.some.inj h
    obtain ⟨owed, howes, hkept⟩ := hs
    exact ⟨owed, howes, hkept.push type enables⟩
  | disconnecting =>
    obtain rfl := Option.some.inj h
    obtain ⟨owed, howes, hkept⟩ := hs
    exact ⟨owed, howes, ⟨hkept.compatible, hkept.accounted, hkept.distinct, hkept.fresh, hkept.finished⟩⟩
  | goes choice =>
    dsimp only [step] at h
    cases hraised : s.raised with
    | some exception =>
      rw [hraised] at h
      obtain rfl := Option.some.inj h
      exact sound_unwind choice hs hraised hmeets
    | none =>
      cases hcode : s.code with
      | nil =>
        rw [hraised, hcode] at h
        cases h
      | cons first rest =>
        rw [hraised, hcode] at h
        obtain rfl := Option.some.inj h
        exact sound_execute choice hs hraised hcode hmeets

theorem Reached.sound {s : Strand} (h : Reached Meets s) : Sound s := by
  induction h with
  | init =>
    refine ⟨[], rfl, ⟨List.Pairwise.nil, List.Perm.refl _, List.nodup_nil, ?_, List.nil_subset _⟩⟩
    intro operation hmem
    cases hmem
  | step act _ hmeets hstep ih => exact sound_step act ih hmeets hstep

theorem Sound.retires {s : Strand} (hs : Sound s) : Retires s := by
  constructor
  · intro operation hfinished
    obtain ⟨owed, _, hkept⟩ := hs
    have hpopped := hkept.finished hfinished
    have hdistinct := (List.nodup_append.1 hkept.distinct).1
    refine ⟨fun hongoing => ?_, ?_⟩
    · exact (List.nodup_append.1 hdistinct).2.2 operation hpopped operation hongoing rfl
    · exact List.count_eq_one_of_mem (List.nodup_append.1 hdistinct).1 hpopped
  · intro hidle operation hongoing
    have hmem := (owed_of_idle hs hidle).accounted.mem_iff.1 hongoing
    rwa [List.append_nil] at hmem

/-- A run, as its steps. -/
def run (s : Strand) (acts : List Act) : Option Strand := acts.foldlM step s

/-- Every step of the run is allowed. -/
def Along (allowed : Strand → Act → Prop) : Strand → List Act → Prop
  | _, [] => True
  | s, act :: acts => allowed s act ∧ ∀ s' ∈ step s act, Along allowed s' acts

theorem along_of_forall {allowed : Strand → Act → Prop} (h : ∀ s act, allowed s act) (s : Strand) (acts : List Act) :
    Along allowed s acts := by
  induction acts generalizing s with
  | nil => trivial
  | cons act acts ih => exact ⟨h s act, fun s' _ => ih s'⟩

theorem reached_run {allowed : Strand → Act → Prop} {s s' : Strand} (h : Reached allowed s) (acts : List Act)
    (hallowed : Along allowed s acts) (hrun : s' ∈ run s acts) : Reached allowed s' := by
  induction acts generalizing s with
  | nil =>
    obtain rfl := Option.some.inj hrun
    exact h
  | cons act acts ih =>
    unfold run at hrun
    rw [List.foldlM_cons] at hrun
    obtain ⟨s₁, hstep, hrun⟩ := Option.bind_eq_some_iff.1 hrun
    exact ih (.step act h hallowed.1 hstep) (hallowed.2 s₁ hstep) hrun

/-- In every run whose steps reach the `Pop` a completion handler leaves its
    operation out of the ongoing list, removed once, and what is ongoing while
    nothing runs is under way. -/
theorem completed_operations_retire (s : Strand) (h : Reached Meets s) : Retires s := h.sound.retires

/-- A greeting that is sent before the peer closes the connection. -/
theorem completed_operations_retire_greeting :
    ∃ s ∈ run {} [.start, .goes (.calls (.enqueue .write)), .goes .goes, .goes .goes,
      .completes ⟨0, .write, false⟩ .success false, .goes .goes, .goes .goes, .goes .goes, .goes .goes, .goes .goes],
      Retires s := by
  have hruns : (run {} [.start, .goes (.calls (.enqueue .write)), .goes .goes, .goes .goes,
      .completes ⟨0, .write, false⟩ .success false, .goes .goes, .goes .goes, .goes .goes, .goes .goes,
      .goes .goes]).isSome = true := by decide
  obtain ⟨s, hs⟩ := Option.isSome_iff_exists.1 hruns
  refine ⟨s, hs, completed_operations_retire s (reached_run .init _ ?_ hs)⟩
  refine ⟨trivial, fun s h => ?_⟩
  obtain rfl := Option.some.inj h
  refine ⟨.inl rfl, fun s h => ?_⟩
  obtain rfl := Option.some.inj h
  refine ⟨.inl (by decide), fun s h => ?_⟩
  obtain rfl := Option.some.inj h
  refine ⟨.inl rfl, fun s h => ?_⟩
  obtain rfl := Option.some.inj h
  refine ⟨trivial, fun s h => ?_⟩
  obtain rfl := Option.some.inj h
  refine ⟨.inl rfl, fun s h => ?_⟩
  obtain rfl := Option.some.inj h
  refine ⟨.inr (fun _ h => nomatch h), fun s h => ?_⟩
  obtain rfl := Option.some.inj h
  refine ⟨trivial, fun s h => ?_⟩
  obtain rfl := Option.some.inj h
  refine ⟨.inl (by decide), fun s h => ?_⟩
  obtain rfl := Option.some.inj h
  exact ⟨trivial, fun _ _ => trivial⟩

/-- A greeting, and a farewell that the peer does not wait for. -/
def farewell : List Act :=
  [.start, .goes (.calls (.enqueue .write)), .goes .goes, .goes (.calls .enqueueDisconnect), .goes .goes, .goes .goes,
    .completes ⟨0, .write, false⟩ .other false, .goes .goes, .goes .goes]

/-- The write that fails behind a queued disconnect stays ongoing, and the
    disconnect is never started. -/
theorem failed_write_blocks_disconnect : ¬∀ s, Reached (fun _ _ => True) s → Retires s := by
  intro h
  have hrun : (run {} farewell).isSome = true := by decide
  obtain ⟨s, hs⟩ := Option.isSome_iff_exists.1 hrun
  have hretires := h s (reached_run .init farewell (along_of_forall (fun _ _ => trivial) _ _) hs)
  have hfinished : ∀ s ∈ run {} farewell, (⟨0, .write, false⟩ : IOOperation) ∈ s.connection.finished ∧
      (⟨0, .write, false⟩ : IOOperation) ∈ s.connection.operationQueue.ongoingOperations := by decide
  exact (hretires.finished _ (hfinished s hs).1).1 (hfinished s hs).2

end HMailServer.Tcp.Completions
