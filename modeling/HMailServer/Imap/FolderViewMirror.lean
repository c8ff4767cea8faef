import HMailServer.Imap.FolderView

/- A client that mirrors its mailbox from the EXPUNGE numbers. Every run of the
   view's operations keeps the entries in UID order and the index map exact
   (`Sound`); appending only grows the list at its end; and a client that deletes
   by the returned numbers, one after the other, ends with the view's entries. -/
namespace HMailServer.IMAPFolderView
open SequenceDeletion

/-- The entries are in UID order, and the map holds exactly their indices. -/
structure Sound (v : IMAPFolderView) : Prop where
  increasing : v.entries.Pairwise fun a b => a.uid < b.uid
  offsets : ∀ id i, v.offsetByMessageId id = some i ↔ (v.entries[i]?).map IMAPViewEntry.messageId = some id

/-- Two messages with one id are one message. -/
def DistinctIds (messages : List IMAPViewEntry) : Prop :=
  ∀ m ∈ messages, ∀ m' ∈ messages, m.messageId = m'.messageId → m = m'

/-- What every operation keeps, the messages of the run being `known`. -/
structure Inv (known : List IMAPViewEntry) (v : IMAPFolderView) : Prop extends Sound v where
  highest : ∀ e ∈ v.entries, e.uid ≤ v.highestUidSeen
  known : ∀ e ∈ v.entries, e ∈ known

def Snapshot.messages (messages : Snapshot) : List IMAPViewEntry := (messages.getD []).filterMap id

theorem Inv.empty (known : List IMAPViewEntry) (vanished : List Int) :
    Inv known ⟨[], fun _ => none, vanished, 0⟩ where
  increasing := List.Pairwise.nil
  offsets := by simp
  highest := by simp
  known := by simp

/-! ## Growing -/

/-- A message above all UIDs seen has an id the view does not hold. -/
theorem Inv.fresh {known : List IMAPViewEntry} {v : IMAPFolderView} (hv : Inv known v)
    (hids : DistinctIds known) {m : IMAPViewEntry} (hm : m ∈ known) (hnew : v.highestUidSeen < m.uid) :
    ∀ e ∈ v.entries, e.messageId ≠ m.messageId := by
  intro e he hid
  have heq := hids e (hv.known e he) m hm hid
  have hle := hv.highest e he
  rw [heq] at hle
  omega

theorem appendMessage_inv {known : List IMAPViewEntry} (hids : DistinctIds known)
    {s : IMAPFolderView × Nat} (hs : Inv known s.1) {message : Option IMAPViewEntry}
    (hm : ∀ m, message = some m → m ∈ known) :
    Inv known (appendMessage s message).1 ∧ s.1.entries <+: (appendMessage s message).1.entries := by
  unfold appendMessage
  split
  · exact ⟨hs, List.prefix_refl _⟩
  · rename_i m
    split
    · exact ⟨hs, List.prefix_refl _⟩
    · rename_i hnew
      have hknown := hm m rfl
      have hfresh := hs.fresh hids hknown (by omega)
      refine ⟨⟨⟨?_, ?_⟩, ?_, ?_⟩, List.prefix_append _ _⟩
      · refine List.pairwise_append.mpr ⟨hs.increasing, List.pairwise_singleton _ _, ?_⟩
        intro a ha b hb
        rw [List.mem_singleton] at hb
        have hle := hs.highest a ha
        rw [hb]
        omega
      · intro id i
        dsimp only
        rw [List.getElem?_append]
        by_cases hid : id = m.messageId
        · rw [if_pos hid]
          split
          · rename_i hi
            refine iff_of_false (by simp; omega) ?_
            intro h
            rw [List.getElem?_eq_getElem hi, Option.map_some, Option.some_inj, hid] at h
            exact hfresh _ (List.getElem_mem hi) h
          · rename_i hi
            rw [List.getElem?_singleton]
            split
            · rename_i h0
              refine iff_of_true ?_ (by simp [hid])
              rw [Option.some_inj]
              omega
            · rename_i h0
              refine iff_of_false ?_ (by simp)
              intro h
              rw [Option.some_inj] at h
              omega
        · rw [if_neg hid, hs.offsets id i]
          split
          · rfl
          · rename_i hi
            rw [List.getElem?_eq_none (by omega), List.getElem?_singleton]
            refine iff_of_false (by simp) ?_
            split
            · intro h
              rw [Option.map_some, Option.some_inj] at h
              exact hid h.symm
            · simp
      · intro e he
        rw [List.mem_append, List.mem_singleton] at he
        rcases he with he | rfl
        · have hle := hs.highest e he
          show e.uid ≤ m.uid
          omega
        · exact le_refl _
      · intro e he
        rw [List.mem_append, List.mem_singleton] at he
        rcases he with he | rfl
        · exact hs.known e he
        · exact hknown

theorem appendMessages_inv {known : List IMAPViewEntry} (hids : DistinctIds known)
    (snapshot : List (Option IMAPViewEntry)) : ∀ s : IMAPFolderView × Nat, Inv known s.1 →
      (∀ m ∈ snapshot.filterMap id, m ∈ known) →
      Inv known (snapshot.foldl appendMessage s).1 ∧
        s.1.entries <+: (snapshot.foldl appendMessage s).1.entries := by
  induction snapshot with
  | nil => exact fun s hs _ => ⟨hs, List.prefix_refl _⟩
  | cons message rest ih =>
    intro s hs hm
    have hone : ∀ m, message = some m → m ∈ known := by
      intro m h
      exact hm m (by simp [h])
    have hrest : ∀ m ∈ rest.filterMap id, m ∈ known := by
      intro m h
      refine hm m ?_
      rw [List.filterMap_cons]
      split
      · exact h
      · exact List.mem_cons_of_mem _ h
    obtain ⟨h1, p1⟩ := appendMessage_inv hids hs hone
    obtain ⟨h2, p2⟩ := ih _ h1 hrest
    exact ⟨h2, p1.trans p2⟩

/-- Appending keeps the entries there are and their numbers. -/
theorem appendNewMessages_inv {known : List IMAPViewEntry} (hids : DistinctIds known)
    {v : IMAPFolderView} (hv : Inv known v) {messages : Snapshot}
    (hm : ∀ m ∈ Snapshot.messages messages, m ∈ known) :
    Inv known (v.appendNewMessages messages).1 ∧
      v.entries <+: (v.appendNewMessages messages).1.entries := by
  cases messages with
  | none => exact ⟨hv, List.prefix_refl _⟩
  | some snapshot => exact appendMessages_inv hids snapshot (v, 0) hv hm

theorem initializeView_inv {known : List IMAPViewEntry} (hids : DistinctIds known)
    (v : IMAPFolderView) {messages : Snapshot} (hm : ∀ m ∈ Snapshot.messages messages, m ∈ known) :
    Inv known (v.initializeView messages) :=
  (appendNewMessages_inv hids (Inv.empty known []) hm).1

/-! ## Shrinking -/

/-- An id stands in one place only. -/
theorem Sound.index_unique {v : IMAPFolderView} (hv : v.Sound) {i j : Nat} {a b : IMAPViewEntry}
    (ha : v.entries[i]? = some a) (hb : v.entries[j]? = some b) (hid : a.messageId = b.messageId) :
    i = j := by
  have hi := (hv.offsets a.messageId i).mpr (by rw [ha]; rfl)
  have hj := (hv.offsets a.messageId j).mpr (by rw [hb, hid]; rfl)
  rw [hi] at hj
  exact Option.some.inj hj

theorem Sound.nodup {v : IMAPFolderView} (hv : v.Sound) :
    (v.entries.map IMAPViewEntry.messageId).Nodup := by
  rw [List.nodup_iff_injective_get]
  intro ⟨i, hi⟩ ⟨j, hj⟩ hij
  rw [List.length_map] at hi hj
  simp only [List.get_eq_getElem, List.getElem_map] at hij
  have h := hv.index_unique (List.getElem?_eq_getElem hi) (List.getElem?_eq_getElem hj) hij
  exact Fin.ext h

/-- The loop of `Rebuild_`: with distinct ids the map is exact. -/
theorem rebuild_offsets (entries : List IMAPViewEntry) :
    (entries.map IMAPViewEntry.messageId).Nodup → ∀ id i,
    (entries.zipIdx.foldl (fun offsets e id => if id = e.1.messageId then some e.2 else offsets id)
      fun _ => none) id = some i ↔ (entries[i]?).map IMAPViewEntry.messageId = some id := by
  induction entries using List.reverseRecOn with
  | nil => intro _ id i; simp
  | append_singleton l e ih =>
    intro hn id i
    rw [List.map_append, List.nodup_append] at hn
    obtain ⟨hl, -, hd⟩ := hn
    rw [List.zipIdx_append, List.foldl_append, List.getElem?_append]
    simp only [List.zipIdx_singleton, Nat.zero_add, List.foldl_cons, List.foldl_nil]
    by_cases hid : id = e.messageId
    · rw [if_pos hid]
      split
      · rename_i hi
        refine iff_of_false (by simp; omega) ?_
        intro h
        rw [List.getElem?_eq_getElem hi, Option.map_some, Option.some_inj] at h
        exact hd _ (List.mem_map_of_mem (List.getElem_mem hi)) e.messageId (by simp) (by rw [h, hid])
      · rename_i hi
        rw [List.getElem?_singleton]
        split
        · rename_i h0
          refine iff_of_true ?_ (by simp [hid])
          rw [Option.some_inj]
          omega
        · rename_i h0
          refine iff_of_false ?_ (by simp)
          intro h
          rw [Option.some_inj] at h
          omega
    · rw [if_neg hid, ih hl]
      split
      · rfl
      · rename_i hi
        rw [List.getElem?_eq_none (by omega), List.getElem?_singleton]
        refine iff_of_false (by simp) ?_
        split
        · intro h
          rw [Option.map_some, Option.some_inj] at h
          exact hid h.symm
        · simp

/-- Taking entries out and rebuilding the map. -/
theorem Inv.filter_rebuild {known : List IMAPViewEntry} {v : IMAPFolderView} (hv : Inv known v)
    (q : IMAPViewEntry → Bool) (vanished : List Int) :
    Inv known (rebuild { v with entries := v.entries.filter q, vanished := vanished }) := by
  have hsub : (v.entries.filter q).Sublist v.entries := List.filter_sublist
  refine ⟨⟨hv.increasing.sublist hsub, ?_⟩, fun e he => hv.highest e (hsub.subset he),
    fun e he => hv.known e (hsub.subset he)⟩
  exact rebuild_offsets _ (hv.nodup.sublist (hsub.map _))

/-- What the first loop of `RemoveMessages` has collected from the ids it passed. -/
structure Collected (v : IMAPFolderView) (passed : List Int) (s : List Int × List Int) : Prop where
  nodup : s.2.Nodup
  mem : ∀ id, id ∈ s.2 ↔ id ∈ passed ∧ (v.offsetByMessageId id).isSome
  numbers : s.1 = s.2.filterMap fun id => (v.offsetByMessageId id).map fun o : Nat => (o : Int) + 1

theorem collect_collected {v : IMAPFolderView} {passed : List Int} {s : List Int × List Int}
    (hs : Collected v passed s) (id : Int) : Collected v (passed ++ [id]) (v.collect s id) := by
  unfold collect
  split
  · rename_i hnone
    refine ⟨hs.nodup, fun x => ?_, hs.numbers⟩
    rw [hs.mem, List.mem_append, List.mem_singleton]
    constructor
    · exact fun h => ⟨.inl h.1, h.2⟩
    · intro h
      obtain ⟨hx | rfl, hsome⟩ := h
      · exact ⟨hx, hsome⟩
      · rw [hnone] at hsome
        cases hsome
  · rename_i o ho
    split
    · rename_i hmem
      refine ⟨hs.nodup, fun x => ?_, hs.numbers⟩
      rw [hs.mem, List.mem_append, List.mem_singleton]
      constructor
      · exact fun h => ⟨.inl h.1, h.2⟩
      · intro h
        obtain ⟨hx | rfl, hsome⟩ := h
        · exact ⟨hx, hsome⟩
        · exact (hs.mem x).mp hmem
    · rename_i hmem
      refine ⟨?_, fun x => ?_, ?_⟩
      · refine List.nodup_append.mpr ⟨hs.nodup, by simp, ?_⟩
        intro x hx y hy he
        rw [List.mem_singleton] at hy
        exact hmem (hy ▸ he ▸ hx)
      · rw [List.mem_append, List.mem_singleton, hs.mem, List.mem_append, List.mem_singleton]
        constructor
        · intro h
          rcases h with h | rfl
          · exact ⟨.inl h.1, h.2⟩
          · exact ⟨.inr rfl, by rw [ho]; rfl⟩
        · intro h
          obtain ⟨hx | rfl, hsome⟩ := h
          · exact .inl ⟨hx, hsome⟩
          · exact .inr rfl
      · rw [List.filterMap_append, hs.numbers]
        simp [ho]

theorem collect_run (v : IMAPFolderView) (ids : List Int) : ∀ passed s, Collected v passed s →
    Collected v (passed ++ ids) (ids.foldl v.collect s) := by
  induction ids with
  | nil =>
    intro passed s hs
    rw [List.append_nil]
    exact hs
  | cons id rest ih =>
    intro passed s hs
    have h := ih _ _ (collect_collected hs id)
    rwa [List.append_assoc] at h

/-- The collected numbers, sorted, are the positions of the removed entries. -/
theorem Collected.sorted {v : IMAPFolderView} (hv : v.Sound) {passed : List Int}
    {s : List Int × List Int} (hs : Collected v passed s) :
    s.1.mergeSort = positions (fun e => decide (e.messageId ∈ s.2)) 0 v.entries := by
  refine mergeSort_eq_positions _ ?_ fun n => ?_
  · -- two ids with one number would be one entry
    rw [hs.numbers]
    refine hs.nodup.filterMap ?_
    intro a b n ha hb
    rw [Option.mem_def, Option.map_eq_some_iff] at ha hb
    obtain ⟨i, hi, hni⟩ := ha
    obtain ⟨j, hj, hnj⟩ := hb
    have hij : i = j := by omega
    subst hij
    have h := (hv.offsets a i).mp hi
    rw [(hv.offsets b i).mp hj, Option.some_inj] at h
    exact h.symm
  · rw [hs.numbers, List.mem_filterMap, mem_positions]
    constructor
    · intro ⟨id, hid, h⟩
      obtain ⟨i, hi, hn⟩ := Option.map_eq_some_iff.mp h
      obtain ⟨e, he, hid'⟩ := Option.map_eq_some_iff.mp ((hv.offsets id i).mp hi)
      exact ⟨i, e, he, by rw [hid']; simpa using hid, by push_cast; omega⟩
    · intro ⟨i, e, he, hmem, hn⟩
      refine ⟨e.messageId, by simpa using hmem, ?_⟩
      rw [(hv.offsets e.messageId i).mpr (by rw [he]; rfl), Option.map_some, Option.some_inj]
      push_cast at hn
      omega

/-- `RemoveMessages` returns; the numbers it hands back lead a client from the
entries before to the entries after, and the UIDs are those of the deleted
entries, in the order of the deletions. -/
theorem removeMessages_spec {known : List IMAPViewEntry} {v : IMAPFolderView} (hv : Inv known v)
    (ids : List Int) (before : Option (List Nat)) :
    ∃ v' sequences after deleted, v.removeMessages ids before = some (v', sequences, after) ∧
      Inv known v' ∧ deleteEach sequences v.entries = some (v'.entries, deleted) ∧
      after = before.map fun uids =>
        if deleted = [] then uids else deleted.map IMAPViewEntry.uid := by
  have hc : Collected v ids (ids.foldl v.collect ([], [])) := by
    have h := collect_run v ids [] ([], []) ⟨List.nodup_nil, by simp, rfl⟩
    rwa [List.nil_append] at h
  unfold removeMessages
  generalize ids.foldl v.collect ([], []) = s at hc
  dsimp only
  split
  · rename_i hempty
    rw [List.isEmpty_iff] at hempty
    have hs : s.1 = [] := by rw [hc.numbers, hempty]; rfl
    refine ⟨v, s.1, before, [], rfl, hv, by rw [hs]; rfl, ?_⟩
    cases before <;> rfl
  · rename_i hne
    rw [List.isEmpty_iff] at hne
    have hsorted := hc.sorted hv.toSound
    have hdelete := deleteEach_positions (fun e => decide (e.messageId ∈ s.2)) v.entries
    have huids := mapM_numbered (fun e => decide (e.messageId ∈ s.2)) IMAPViewEntry.uid v.entries []
    -- some entry goes, so the caller's vector is written
    have hdeleted : v.entries.filter (fun e => decide (e.messageId ∈ s.2)) ≠ [] := by
      obtain ⟨id, hid⟩ := List.exists_mem_of_ne_nil _ hne
      obtain ⟨i, hi⟩ := Option.isSome_iff_exists.mp ((hc.mem id).mp hid).2
      obtain ⟨e, he, hid'⟩ := Option.map_eq_some_iff.mp ((hv.offsets id i).mp hi)
      refine List.ne_nil_of_mem (a := e) ?_
      rw [List.mem_filter]
      exact ⟨List.mem_of_getElem? he, by rw [hid']; simpa using hid⟩
    have hreport : reportUids v s.1.mergeSort before =
        some (before.map fun _ =>
          (v.entries.filter fun e => decide (e.messageId ∈ s.2)).map IMAPViewEntry.uid) := by
      cases before with
      | none => rfl
      | some uids =>
        rw [reportUids, hsorted]
        exact congrArg (Option.map some) huids
    rw [hreport, Option.map_some, hsorted, shifted_eq_zipIdx]
    refine ⟨_, _, _, v.entries.filter fun e => decide (e.messageId ∈ s.2), rfl,
      hv.filter_rebuild _ _, ?_, ?_⟩
    · rw [hdelete]
      simp [rebuild]
    · simp only [if_neg hdeleted]

/-! ## Runs -/

theorem markVanished_inv {known : List IMAPViewEntry} {v : IMAPFolderView} (hv : Inv known v)
    (id : Int) : Inv known (v.markVanished id) ∧ (v.markVanished id).entries = v.entries := by
  unfold markVanished
  split
  · exact ⟨hv, rfl⟩
  · split
    · exact ⟨hv, rfl⟩
    · exact ⟨⟨⟨hv.increasing, hv.offsets⟩, hv.highest, hv.known⟩, rfl⟩

/-- The messages an operation brings. -/
def Operation.messages : Operation → List IMAPViewEntry
  | .initializeView messages => Snapshot.messages messages
  | .appendNewMessages messages => Snapshot.messages messages
  | _ => []

/-- What an operation tells the client, and that it leads the client from the
entries before to the entries after. A caller's UID vector is written when
something is removed; the callers of the source hand in an empty one. -/
def InStep (v v' : IMAPFolderView) : Operation → Reply → Prop
  | .initializeView _, _ => True
  | .appendNewMessages _, _ => v.entries <+: v'.entries
  | .removeMessages _ before, .removed sequences after =>
    ∃ deleted, deleteEach sequences v.entries = some (v'.entries, deleted) ∧
      ∀ uids, before = some uids → uids = [] ∨ deleted ≠ [] →
        after = some (deleted.map IMAPViewEntry.uid)
  | .removeMessages _ _, _ => False
  | .markVanished _, _ => v'.entries = v.entries
  | .takeVanished, _ => v'.entries = v.entries

/-- One operation. -/
theorem step_inv {known : List IMAPViewEntry} (hids : DistinctIds known) {v : IMAPFolderView}
    (hv : Inv known v) (op : Operation) (hm : ∀ m ∈ op.messages, m ∈ known) :
    ∃ v' reply, v.step op = some (v', reply) ∧ Inv known v' ∧ InStep v v' op reply := by
  cases op with
  | initializeView messages =>
    exact ⟨_, _, rfl, initializeView_inv hids v hm, trivial⟩
  | appendNewMessages messages =>
    obtain ⟨h1, h2⟩ := appendNewMessages_inv hids hv hm
    exact ⟨_, _, rfl, h1, h2⟩
  | removeMessages ids before =>
    obtain ⟨v', sequences, after, deleted, hrun, hinv, hdel, hafter⟩ := removeMessages_spec hv ids before
    refine ⟨v', .removed sequences after, by rw [step, hrun]; rfl, hinv, deleted, hdel, ?_⟩
    intro uids hbefore hwritten
    rw [hafter, hbefore, Option.map_some, Option.some_inj]
    split
    · rename_i hnil
      rcases hwritten with rfl | hne
      · rw [hnil]
        rfl
      · exact absurd hnil hne
    · rfl
  | markVanished id =>
    obtain ⟨h1, h2⟩ := markVanished_inv hv id
    exact ⟨_, _, rfl, h1, h2⟩
  | takeVanished =>
    exact ⟨_, _, rfl, ⟨⟨hv.increasing, hv.offsets⟩, hv.highest, hv.known⟩, rfl⟩

theorem run_inv {known : List IMAPViewEntry} (hids : DistinctIds known) (ops : List Operation) :
    ∀ v, Inv known v → (∀ op ∈ ops, ∀ m ∈ op.messages, m ∈ known) →
      ∃ v', run v ops = some v' ∧ Inv known v' := by
  induction ops with
  | nil => exact fun v hv _ => ⟨v, rfl, hv⟩
  | cons op rest ih =>
    intro v hv hm
    obtain ⟨v₁, reply, hstep, hv₁, -⟩ := step_inv hids hv op (hm op (by simp))
    obtain ⟨v₂, hrun, hv₂⟩ := ih v₁ hv₁ fun op' hop => hm op' (by simp [hop])
    refine ⟨v₂, ?_, hv₂⟩
    rw [run, hstep]
    exact hrun

/-- A client that mirrors the mailbox stays in step. In every run from a freshly
initialised view over messages with distinct ids, each operation finds the view
sound, returns, leaves it sound, and leads the client from the entries before to
the entries after. -/
theorem client_in_step (v₀ : IMAPFolderView) (messages : Snapshot) (ops : List Operation)
    (hids : DistinctIds (Snapshot.messages messages ++ ops.flatMap Operation.messages)) :
    (v₀.initializeView messages).Sound ∧
      ∀ done op rest, ops = done ++ op :: rest →
        ∃ v v' reply, run (v₀.initializeView messages) done = some v ∧ v.Sound ∧
          v.step op = some (v', reply) ∧ v'.Sound ∧ InStep v v' op reply := by
  have hstart : Inv (Snapshot.messages messages ++ ops.flatMap Operation.messages)
      (v₀.initializeView messages) :=
    initializeView_inv hids v₀ fun m hm => List.mem_append_left _ hm
  have hknown : ∀ op ∈ ops, ∀ m ∈ op.messages,
      m ∈ Snapshot.messages messages ++ ops.flatMap Operation.messages := by
    intro op hop m hm
    exact List.mem_append_right _ (List.mem_flatMap.mpr ⟨op, hop, hm⟩)
  refine ⟨hstart.toSound, ?_⟩
  intro done op rest hops
  obtain ⟨v, hrun, hv⟩ := run_inv hids done _ hstart fun op' hop =>
    hknown op' (by rw [hops]; simp [hop])
  obtain ⟨v', reply, hstep, hv', hin⟩ := step_inv hids hv op (hknown op (by rw [hops]; simp))
  exact ⟨v, v', reply, hrun, hv.toSound, hstep, hv'.toSound, hin⟩

/-- Four messages; the second and the last go, one of them named twice, beside an
id the view never held. -/
theorem client_in_step_two_removed :
    ∃ v v' reply,
      run (initializeView {} (some [some ⟨7, 1⟩, some ⟨8, 3⟩, some ⟨9, 4⟩]))
        [.appendNewMessages (some [some ⟨9, 4⟩, none, some ⟨5, 6⟩])] = some v ∧ v.Sound ∧
      v.step (.removeMessages [5, 8, 5, 44] (some [])) = some (v', reply) ∧ v'.Sound ∧
      InStep v v' (.removeMessages [5, 8, 5, 44] (some [])) reply := by
  have h := client_in_step {} (some [some ⟨7, 1⟩, some ⟨8, 3⟩, some ⟨9, 4⟩])
    [.appendNewMessages (some [some ⟨9, 4⟩, none, some ⟨5, 6⟩]),
      .removeMessages [5, 8, 5, 44] (some [])] (by unfold DistinctIds; decide)
  exact h.2 [.appendNewMessages (some [some ⟨9, 4⟩, none, some ⟨5, 6⟩])] _ [] rfl

end HMailServer.IMAPFolderView
