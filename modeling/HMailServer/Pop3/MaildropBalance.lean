import Mathlib
import HMailServer.Pop3.MaildropLock

/- The maildrop lock is balanced but for one login: the one that takes the lock
   and cannot load the inbox. Whatever an event does to the lock is one of a
   few changes of the session, from which the invariants of a run follow. -/
namespace HMailServer.Pop3
open LockLedger

/-! ## What an event can do -/

/-- The changes of the members `account_`, `mailbox_locked_`, `current_state_`
    and of the login under way. -/
inductive Change (locked : Finset AccountId) (account : Option AccountId) (mailboxLocked answering : Bool)
    (state : ConnectionState) (event : Event) (h : Handled) : Prop
  | kept (haccount : h.session.account = account) (hflag : h.session.mailboxLocked = mailboxLocked)
      (hanswering : h.session.answering = answering) (hstate : h.session.currentState = state)
      (hlocked : h.locked = locked) (hentry : h.entry = none)
  | loaded (haccount : h.session.account = account) (hflag : h.session.mailboxLocked = mailboxLocked)
      (hstate : h.session.currentState = .transaction) (hlocked : h.locked = locked) (hentry : h.entry = none)
  | failed (hevent : event = .answered false) (haccount : h.session.account = account)
      (hflag : h.session.mailboxLocked = mailboxLocked) (hlocked : h.locked = locked) (hentry : h.entry = none)
  | refused (hbefore : state = .authorization) (hidle : answering = false) (haccount : h.session.account = none)
      (hlocked : h.locked = locked) (hentry : h.entry = none)
  | acquired (a : AccountId) (hbefore : state = .authorization) (hidle : answering = false) (hfree : a ∉ locked)
      (haccount : h.session.account = some a) (hflag : h.session.mailboxLocked = true)
      (hanswering : h.session.answering = true) (hlocked : h.locked = insert a locked)
      (hentry : h.entry = some (.acquired () a))
  | released (a : AccountId) (hbefore : account = some a) (haccount : h.session.account = none)
      (hlocked : h.locked = locked.erase a) (hentry : h.entry = some (.released () a))
  | forgotten (hbefore : mailboxLocked = false) (haccount : h.session.account = none) (hlocked : h.locked = locked)
      (hentry : h.entry = none)

/-- A mechanism waits in the AUTHORIZATION state only, and not behind a login. -/
def LoginSession.Tidy (s : LoginSession) : Prop :=
  s.exchange = none ∨ (s.currentState = .authorization ∧ s.answering = false)

/-- The change an event makes, and that the exchanges stay in order. -/
def Changes (locked : Finset AccountId) (s : LoginSession) (event : Event) (h : Handled) : Prop :=
  Change locked s.account s.mailboxLocked s.answering s.currentState event h ∧ h.session.Tidy

section
variable {locked : Finset AccountId} {s : LoginSession} {event : Event} {login : Login}

theorem unlockMailbox_changes (htidy : s.Tidy) (text : List AnsiString) (result : ParseResult) :
    Changes locked s event (unlockMailbox s locked text result) := by
  rw [unlockMailbox]
  split
  · exact ⟨.kept rfl rfl rfl rfl rfl rfl, htidy⟩
  · rename_i a haccount
    split
    · exact ⟨.released a haccount rfl rfl rfl, htidy⟩
    · rename_i hflag
      exact ⟨.forgotten (Bool.eq_false_iff.2 hflag) rfl rfl rfl, htidy⟩

theorem handleSuccessfulLogin_changes (hstate : s.currentState = .authorization) (hidle : s.answering = false)
    (hexchange : s.exchange = none) (a : AccountId) :
    Changes locked s event (handleSuccessfulLogin login a s locked) := by
  rw [handleSuccessfulLogin]
  split
  · exact ⟨.refused hstate hidle rfl rfl rfl, .inl hexchange⟩
  · split
    · exact ⟨.refused hstate hidle rfl rfl rfl, .inl hexchange⟩
    · rename_i hfree
      exact ⟨.acquired a hstate hidle hfree rfl rfl rfl rfl rfl, .inl hexchange⟩

theorem finishPasswordLogin_changes (hstate : s.currentState = .authorization) (hidle : s.answering = false)
    (hexchange : s.exchange = none) : Changes locked s event (finishPasswordLogin login s locked) := by
  rw [finishPasswordLogin]
  split
  · exact ⟨.refused hstate hidle rfl rfl rfl, .inl hexchange⟩
  · simp only
    split
    · exact ⟨.refused hstate hidle rfl rfl rfl, .inl hexchange⟩
    · split
      · exact ⟨.refused hstate hidle rfl rfl rfl, .inl hexchange⟩
      · exact ⟨.refused hstate hidle rfl rfl rfl, .inl hexchange⟩
  · exact handleSuccessfulLogin_changes hstate hidle hexchange _

theorem finishExchange_changes (hstate : s.currentState = .authorization) (hidle : s.answering = false)
    (hexchange : s.exchange = none) (mechanism : Mechanism) :
    Changes locked s event (finishExchange mechanism login s locked) := by
  rw [finishExchange]
  split
  · simp only
    split
    · exact ⟨.kept rfl rfl rfl rfl rfl rfl, .inl hexchange⟩
    · exact ⟨.kept rfl rfl rfl rfl rfl rfl, .inl hexchange⟩
  · exact handleSuccessfulLogin_changes hstate hidle hexchange _

theorem handleResponse_changes (hstate : s.currentState = .authorization) (hidle : s.answering = false)
    (mechanism : Mechanism) : Changes locked s event (handleResponse mechanism login s locked) := by
  rw [handleResponse]
  split
  · exact ⟨.kept rfl rfl rfl rfl rfl rfl, .inl rfl⟩
  · exact ⟨.kept rfl rfl rfl rfl rfl rfl, .inl rfl⟩
  · exact ⟨.kept rfl rfl rfl rfl rfl rfl, .inr ⟨hstate, hidle⟩⟩
  · simp only
    split
    · exact finishPasswordLogin_changes (s := { s with exchange := none }) hstate hidle rfl
    · exact finishExchange_changes (s := { s with exchange := none }) hstate hidle rfl mechanism

theorem protocolAUTH_changes (hstate : s.currentState = .authorization) (hidle : s.answering = false)
    (hexchange : s.exchange = none) (mechanism : Option Mechanism) (initialResponse : Bool) :
    Changes locked s event (protocolAUTH mechanism initialResponse login s locked) := by
  cases mechanism with
  | none => exact ⟨.kept rfl rfl rfl rfl rfl rfl, .inl hexchange⟩
  | some mechanism =>
    rw [protocolAUTH]
    split
    · exact ⟨.kept rfl rfl rfl rfl rfl rfl, .inl hexchange⟩
    · split
      · exact handleResponse_changes hstate hidle mechanism
      · exact ⟨.kept rfl rfl rfl rfl rfl rfl, .inr ⟨hstate, hidle⟩⟩

/-- What the AUTHORIZATION state does not admit is refused. -/
theorem handleVerb_changes (hidle : s.answering = false) (hexchange : s.exchange = none) (verb : Verb) :
    Changes locked s event (handleVerb login s locked (admitted s.currentState verb)) := by
  have hkept : ∀ text result, Changes locked s event { session := s, locked, text, result } := by
    intro text result
    exact ⟨.kept rfl rfl rfl rfl rfl rfl, .inl hexchange⟩
  by_cases hstate : s.currentState = .authorization
  · rw [hstate]
    cases verb with
    | quit => exact unlockMailbox_changes (.inl hexchange) _ _
    | user name =>
      rw [admitted, if_pos rfl, handleVerb]
      split
      · exact hkept _ _
      · split
        · exact hkept _ _
        · exact ⟨.kept rfl rfl rfl rfl rfl rfl, .inl hexchange⟩
    | pass =>
      rw [admitted, if_pos rfl, handleVerb]
      split
      · exact hkept _ _
      · exact finishPasswordLogin_changes hstate hidle hexchange
    | auth mechanism initialResponse => exact protocolAUTH_changes hstate hidle hexchange mechanism initialResponse
    | stls =>
      rw [admitted, if_pos rfl, handleVerb]
      split
      · exact ⟨.kept rfl rfl rfl rfl rfl rfl, .inl hexchange⟩
      · exact hkept _ _
    | _ => exact hkept _ _
  · cases verb with
    | quit => exact unlockMailbox_changes (.inl hexchange) _ _
    | noop | help | capa | invalid => exact hkept _ _
    | user _ | pass | auth _ _ | stls | utf8 =>
      rw [admitted, if_neg hstate]
      exact hkept _ _
    | stat | list | retr | top | rset | dele | uidl =>
      rw [admitted]
      split
      · exact hkept _ _
      · exact hkept _ _

theorem handleRequest_changes (htidy : s.Tidy) (hidle : s.answering = false) (verb : Verb) :
    Changes locked s event (handleRequest verb login s locked) := by
  rw [handleRequest]
  split
  · rename_i mechanism hexchange
    have hwaits := htidy.resolve_left (by rw [hexchange]; exact Option.some_ne_none _)
    exact handleResponse_changes hwaits.1 hidle mechanism
  · rename_i hexchange
    exact handleVerb_changes hidle hexchange verb

theorem answerLogin_changes (htidy : s.Tidy) (hanswering : s.answering = true) (loaded : Bool) :
    Changes locked s (.answered loaded) (answerLogin loaded s locked) := by
  have hexchange : s.exchange = none := by
    apply htidy.resolve_right
    intro h
    rw [hanswering] at h
    exact Bool.noConfusion h.2
  cases loaded with
  | true => exact ⟨.loaded rfl rfl rfl rfl rfl, .inl hexchange⟩
  | false => exact ⟨.failed rfl rfl rfl rfl rfl, .inl hexchange⟩

theorem handleEvent_changes (htidy : s.Tidy) {h : Handled} (hevent : handleEvent s locked event = some h) :
    Changes locked s event h := by
  cases event with
  | connected => exact absurd hevent nofun
  | request verb login =>
    rw [handleEvent] at hevent
    split at hevent
    · exact absurd hevent nofun
    · rename_i hidle
      cases hevent
      exact handleRequest_changes htidy (Bool.eq_false_iff.2 hidle) verb
  | answered loaded =>
    rw [handleEvent] at hevent
    split at hevent
    · rename_i hanswering
      cases hevent
      exact answerLogin_changes htidy hanswering loaded
    · exact absurd hevent nofun
  | timeout =>
    rw [handleEvent] at hevent
    split at hevent
    · exact absurd hevent nofun
    · cases hevent
      exact unlockMailbox_changes htidy _ _
  | disconnected =>
    rw [handleEvent] at hevent
    split at hevent
    · exact absurd hevent nofun
    · cases hevent
      exact unlockMailbox_changes htidy _ _

end

/-! ## One event of the server -/

theorem unlockMailbox_account (s : LoginSession) (locked : Finset AccountId) (text : List AnsiString) (result : ParseResult) :
    (unlockMailbox s locked text result).session.account = none := by
  rw [unlockMailbox]
  split
  · assumption
  · split <;> rfl

/-- The session is there afterwards, unless it is gone without an account. -/
theorem maildropStep_cases {w w' : Maildrops} {i : Nat} {event : Event} {entry : Option (Entry Nat AccountId)}
    (h : maildropStep w i event = some (w', entry)) :
    (w.session i = none ∧ w' = { w with session := Function.update w.session i (some {}) } ∧ entry = none) ∨
    ∃ s handled left, w.session i = some s ∧ handleEvent s w.locked event = some handled ∧
      (left = some handled.session ∨ (left = none ∧ handled.session.account = none)) ∧
      w' = { session := Function.update w.session i left, locked := handled.locked } ∧
      entry = handled.entry.map (signed i) := by
  cases hsession : w.session i with
  | none =>
    simp only [maildropStep, hsession] at h
    split at h
    · cases h
      exact .inl ⟨rfl, rfl, rfl⟩
    · exact absurd h nofun
    · rename_i heq
      exact absurd heq nofun
  | some s =>
    simp only [maildropStep, hsession] at h
    obtain ⟨handled, hhandled, hw⟩ := Option.map_eq_some_iff.1 h
    cases hw
    refine .inr ⟨s, handled, _, rfl, hhandled, ?_, rfl, rfl⟩
    cases event with
    | disconnected =>
      refine .inr ⟨rfl, ?_⟩
      rw [handleEvent] at hhandled
      split at hhandled
      · exact absurd hhandled nofun
      · cases hhandled
        exact unlockMailbox_account s w.locked _ _
    | _ => exact .inl rfl

/-! ## Who has a lock -/

/-- Who lets a lock go has it: a session that knows an account took its lock. -/
structure Owned (w : Maildrops) (history : List (Entry Nat AccountId)) : Prop where
  tidy : ∀ i s, w.session i = some s → s.Tidy
  table : ∀ a, a ∈ w.locked ↔ ∃ i, holder a history = some i
  account : ∀ i s a, w.session i = some s → s.account = some a → s.mailboxLocked = true ∧ holder a history = some i
  disciplined : Disciplined history

/-- No lock is left behind: who took a lock knows its account, and is answered or
    in the TRANSACTION state. -/
structure Held (w : Maildrops) (history : List (Entry Nat AccountId)) : Prop where
  session : ∀ i a, holder a history = some i → ∃ s, w.session i = some s ∧ s.account = some a
  ready : ∀ i s a, w.session i = some s → s.account = some a → s.answering = true ∨ s.currentState = .transaction

theorem Owned.start : Owned {} [] where
  tidy := nofun
  table a := iff_of_false (Finset.notMem_empty a) nofun
  account := nofun
  disciplined := disciplined_nil

theorem Held.start : Held {} [] where
  session := nofun
  ready := nofun

section
variable {w w' : Maildrops} {history : List (Entry Nat AccountId)} {i : Nat} {event : Event}
  {entry : Option (Entry Nat AccountId)} {s : LoginSession} {handled : Handled} {left : Option LoginSession}

theorem session_update {j : Nat} {t : LoginSession} (h : Function.update w.session i left j = some t) :
    (j = i ∧ left = some t) ∨ (j ≠ i ∧ w.session j = some t) := by
  by_cases hj : j = i
  · rw [hj, Function.update_self] at h
    exact .inl ⟨hj, h⟩
  · rw [Function.update_of_ne hj] at h
    exact .inr ⟨hj, h⟩

/-- An event without an entry: the session keeps its account, or forgets it. -/
theorem Owned.quiet (h : Owned w history) (hleft : ∀ t, left = some t → t.Tidy ∧
      (t.account = none ∨ ∃ s, w.session i = some s ∧ t.account = s.account ∧ t.mailboxLocked = s.mailboxLocked)) :
    Owned { session := Function.update w.session i left, locked := w.locked } history where
  tidy j t hj := by
    rcases session_update hj with ⟨-, ht⟩ | ⟨-, ht⟩
    · exact (hleft t ht).1
    · exact h.tidy j t ht
  table := h.table
  account j t a hj ha := by
    rcases session_update hj with ⟨rfl, ht⟩ | ⟨-, ht⟩
    · rcases (hleft t ht).2 with hnone | ⟨s, hs, haccount, hflag⟩
      · rw [hnone] at ha
        exact absurd ha nofun
      · rw [hflag]
        exact h.account j s a hs (haccount ▸ ha)
    · exact h.account j t a ht ha
  disciplined := h.disciplined

theorem Owned.acquire (h : Owned w history) {a : AccountId} (hfree : a ∉ w.locked)
    (hleft : ∀ t, left = some t → t.Tidy ∧ t.account = some a ∧ t.mailboxLocked = true) :
    Owned { session := Function.update w.session i left, locked := insert a w.locked }
      (history ++ [.acquired i a]) where
  tidy j t hj := by
    rcases session_update hj with ⟨-, ht⟩ | ⟨-, ht⟩
    · exact (hleft t ht).1
    · exact h.tidy j t ht
  table b := by
    rw [Finset.mem_insert, h.table]
    by_cases hb : b = a
    · subst hb
      rw [holder_acquired_self]
      exact iff_of_true (.inl rfl) ⟨i, rfl⟩
    · rw [holder_acquired_of_ne (Ne.symm hb)]
      exact or_iff_right hb
  account j t b hj hb := by
    rcases session_update hj with ⟨rfl, ht⟩ | ⟨-, ht⟩
    · obtain ⟨-, haccount, hflag⟩ := hleft t ht
      rw [haccount] at hb
      cases hb
      exact ⟨hflag, holder_acquired_self ..⟩
    · have hother := h.account j t b ht hb
      have hne : a ≠ b := by
        rintro rfl
        exact hfree ((h.table a).2 ⟨j, hother.2⟩)
      rw [holder_acquired_of_ne hne]
      exact hother
  disciplined := by
    apply h.disciplined.append
    simp only
    rw [Option.eq_none_iff_forall_not_mem]
    exact fun j hj => hfree ((h.table a).2 ⟨j, hj⟩)

theorem Owned.release (h : Owned w history) (hs : w.session i = some s) {a : AccountId} (haccount : s.account = some a)
    (hleft : ∀ t, left = some t → t.Tidy ∧ t.account = none) :
    Owned { session := Function.update w.session i left, locked := w.locked.erase a }
      (history ++ [.released i a]) where
  tidy j t hj := by
    rcases session_update hj with ⟨-, ht⟩ | ⟨-, ht⟩
    · exact (hleft t ht).1
    · exact h.tidy j t ht
  table b := by
    rw [Finset.mem_erase, h.table]
    by_cases hb : b = a
    · subst hb
      rw [holder_released_self]
      exact iff_of_false (fun hmem => hmem.1 rfl) nofun
    · rw [holder_released_of_ne (Ne.symm hb)]
      exact and_iff_right hb
  account j t b hj hb := by
    rcases session_update hj with ⟨-, ht⟩ | ⟨hj', ht⟩
    · rw [(hleft t ht).2] at hb
      exact absurd hb nofun
    · have hother := h.account j t b ht hb
      have hne : a ≠ b := by
        rintro rfl
        have hmine := (h.account i s a hs haccount).2
        rw [hother.2] at hmine
        exact hj' (Option.some.inj hmine)
      rw [holder_released_of_ne hne]
      exact hother
  disciplined := h.disciplined.append (h.account i s a hs haccount).2

theorem Owned.step (h : Owned w history) (hstep : maildropStep w i event = some (w', entry)) :
    Owned w' (history ++ entry.toList) := by
  rcases maildropStep_cases hstep with ⟨-, rfl, rfl⟩ | ⟨s, handled, left, hsome, hhandled, hleft, rfl, rfl⟩
  · rw [Option.toList_none, List.append_nil]
    exact h.quiet fun t ht => ⟨.inl (Option.some.inj ht ▸ rfl), .inl (Option.some.inj ht ▸ rfl)⟩
  · obtain ⟨hchange, htidy⟩ := handleEvent_changes (h.tidy i s hsome) hhandled
    have hafter : ∀ t, left = some t → t = handled.session := by
      intro t ht
      rcases hleft with hstays | hgone
      · exact Option.some.inj (ht.symm.trans hstays)
      · exact absurd (ht.symm.trans hgone.1) nofun
    have hquiet : handled.locked = w.locked → handled.entry = none →
        (handled.session.account = none ∨
          (handled.session.account = s.account ∧ handled.session.mailboxLocked = s.mailboxLocked)) →
        Owned { session := Function.update w.session i left, locked := handled.locked }
          (history ++ (handled.entry.map (signed i)).toList) := by
      intro hlocked hentry hkept
      rw [hlocked, hentry, Option.map_none, Option.toList_none, List.append_nil]
      apply h.quiet
      intro t ht
      rw [hafter t ht]
      exact ⟨htidy, hkept.imp_right fun hsame => ⟨s, hsome, hsame⟩⟩
    cases hchange with
    | kept haccount hflag _ _ hlocked hentry => exact hquiet hlocked hentry (.inr ⟨haccount, hflag⟩)
    | loaded haccount hflag _ hlocked hentry => exact hquiet hlocked hentry (.inr ⟨haccount, hflag⟩)
    | failed _ haccount hflag hlocked hentry => exact hquiet hlocked hentry (.inr ⟨haccount, hflag⟩)
    | refused _ _ haccount hlocked hentry => exact hquiet hlocked hentry (.inl haccount)
    | forgotten _ haccount hlocked hentry => exact hquiet hlocked hentry (.inl haccount)
    | acquired a _ _ hfree haccount hflag _ hlocked hentry =>
      rw [hlocked, hentry]
      exact h.acquire hfree fun t ht => hafter t ht ▸ ⟨htidy, haccount, hflag⟩
    | released a hbefore haccount hlocked hentry =>
      rw [hlocked, hentry]
      exact h.release hsome hbefore fun t ht => hafter t ht ▸ ⟨htidy, haccount⟩

/-- Whose lock it is after the event. -/
theorem Held.of_session (h : Held w history) {history' : List (Entry Nat AccountId)} {locked : Finset AccountId}
    (hothers : ∀ j a, j ≠ i → holder a history' = some j → holder a history = some j)
    (hmine : ∀ a, holder a history' = some i → ∃ t, left = some t ∧ t.account = some a)
    (hready : ∀ t a, left = some t → t.account = some a → t.answering = true ∨ t.currentState = .transaction) :
    Held { session := Function.update w.session i left, locked } history' where
  session j a hj := by
    by_cases hji : j = i
    · subst hji
      obtain ⟨t, ht, ha⟩ := hmine a hj
      exact ⟨t, (Function.update_self ..).trans ht, ha⟩
    · obtain ⟨t, ht, ha⟩ := h.session j a (hothers j a hji hj)
      exact ⟨t, (Function.update_of_ne hji ..).trans ht, ha⟩
  ready j t a hj ha := by
    rcases session_update hj with ⟨-, ht⟩ | ⟨-, ht⟩
    · exact hready t a ht ha
    · exact h.ready j t a ht ha

theorem Held.step (h : Held w history) (howned : Owned w history) (hloads : event ≠ .answered false)
    (hstep : maildropStep w i event = some (w', entry)) : Held w' (history ++ entry.toList) := by
  rcases maildropStep_cases hstep with ⟨hnone, rfl, rfl⟩ | ⟨s, handled, left, hsome, hhandled, hleft, rfl, rfl⟩
  · rw [Option.toList_none, List.append_nil]
    apply h.of_session (fun j a _ hj => hj)
    · intro a ha
      obtain ⟨s, hs, -⟩ := h.session i a ha
      cases hnone.symm.trans hs
    · intro t a ht ha
      rw [← Option.some.inj ht] at ha
      cases ha
  · have hchange := (handleEvent_changes (howned.tidy i s hsome) hhandled).1
    have hafter : ∀ t, left = some t → t = handled.session := by
      intro t ht
      rcases hleft with hstays | hgone
      · exact Option.some.inj (ht.symm.trans hstays)
      · cases ht.symm.trans hgone.1
    -- An account that is still known has not left the table of sessions.
    have hstays : ∀ a, handled.session.account = some a → left = some handled.session := by
      intro a ha
      apply hleft.resolve_right
      intro hgone
      rw [hgone.2] at ha
      cases ha
    have hold : ∀ a, holder a history = some i → s.account = some a := by
      intro a ha
      obtain ⟨t, ht, hta⟩ := h.session i a ha
      rwa [Option.some.inj (hsome.symm.trans ht)]
    have hquiet : handled.entry = none → (∀ a, holder a history = some i → handled.session.account = some a) →
        (∀ a, handled.session.account = some a →
          handled.session.answering = true ∨ handled.session.currentState = .transaction) →
        Held { session := Function.update w.session i left, locked := handled.locked }
          (history ++ (handled.entry.map (signed i)).toList) := by
      intro hentry hmine hready
      rw [hentry, Option.map_none, Option.toList_none, List.append_nil]
      apply h.of_session (fun j a _ hj => hj)
      · exact fun a ha => ⟨handled.session, hstays a (hmine a ha), hmine a ha⟩
      · intro t a ht ha
        rw [hafter t ht] at ha ⊢
        exact hready a ha
    cases hchange with
    | kept haccount _ hanswering hstate _ hentry =>
      apply hquiet hentry (fun a ha => haccount.trans (hold a ha))
      intro a ha
      rw [hanswering, hstate]
      exact h.ready i s a hsome (haccount.symm.trans ha)
    | loaded haccount _ hstate _ hentry =>
      exact hquiet hentry (fun a ha => haccount.trans (hold a ha)) fun _ _ => .inr hstate
    | failed hevent => exact absurd hevent hloads
    | refused hbefore hidle haccount _ hentry =>
      apply hquiet hentry
      · -- Nobody who may log in has a lock.
        intro a ha
        rcases h.ready i s a hsome (hold a ha) with hanswering | hstate
        · cases hanswering.symm.trans hidle
        · cases hstate.symm.trans hbefore
      · exact fun a ha => by cases haccount.symm.trans ha
    | forgotten hbefore haccount _ hentry =>
      apply hquiet hentry
      · intro a ha
        have hflag := (howned.account i s a hsome (hold a ha)).1
        cases hflag.symm.trans hbefore
      · exact fun a ha => by cases haccount.symm.trans ha
    | acquired a hbefore hidle hfree haccount _ hanswering hlocked hentry =>
      rw [hentry]
      apply h.of_session
      · intro j b hj hb
        by_cases hab : a = b
        · subst hab
          rw [Option.map_some, signed, Option.toList_some, holder_acquired_self] at hb
          exact absurd (Option.some.inj hb).symm hj
        · rwa [Option.map_some, signed, Option.toList_some, holder_acquired_of_ne hab] at hb
      · intro b hb
        by_cases hab : a = b
        · exact ⟨handled.session, hstays a haccount, hab ▸ haccount⟩
        · rw [Option.map_some, signed, Option.toList_some, holder_acquired_of_ne hab] at hb
          rcases h.ready i s b hsome (hold b hb) with hanswering | hstate
          · cases hanswering.symm.trans hidle
          · cases hstate.symm.trans hbefore
      · intro t b ht _
        rw [hafter t ht]
        exact .inl hanswering
    | released a hbefore haccount hlocked hentry =>
      rw [hentry]
      apply h.of_session
      · intro j b _ hb
        by_cases hab : a = b
        · subst hab
          rw [Option.map_some, signed, Option.toList_some, holder_released_self] at hb
          cases hb
        · rwa [Option.map_some, signed, Option.toList_some, holder_released_of_ne hab] at hb
      · intro b hb
        by_cases hab : a = b
        · subst hab
          rw [Option.map_some, signed, Option.toList_some, holder_released_self] at hb
          cases hb
        · rw [Option.map_some, signed, Option.toList_some, holder_released_of_ne hab] at hb
          exact absurd (Option.some.inj (hbefore.symm.trans (hold b hb))) hab
      · intro t b ht hb
        rw [hafter t ht, haccount] at hb
        cases hb

end

/-! ## Runs -/

theorem MaildropRun.owned {steps : List (Nat × Event)} {w : Maildrops} {history : List (Entry Nat AccountId)}
    (h : MaildropRun steps w history) : Owned w history := by
  induction h with
  | start => exact .start
  | step _ hstep ih => exact ih.step hstep

theorem MaildropRun.held {steps : List (Nat × Event)} {w : Maildrops} {history : List (Entry Nat AccountId)}
    (h : MaildropRun steps w history) (hloads : ∀ step ∈ steps, step.2 ≠ .answered false) : Held w history := by
  induction h with
  | start => exact .start
  | @step steps _ _ _ i event _ before hstep ih =>
    have hbefore : ∀ step ∈ steps, step.2 ≠ .answered false := fun step hmem =>
      hloads step (List.mem_append_left _ hmem)
    exact (ih hbefore).step before.owned (hloads (i, event) (List.mem_append_right _ (List.mem_singleton_self _))) hstep

/-- The session is in the TRANSACTION state for the account, or between taking
    its lock and answering the login. -/
def InTransaction (w : Maildrops) (i : Nat) (a : AccountId) : Prop :=
  ∃ s, w.session i = some s ∧ s.account = some a ∧ (s.currentState = .transaction ∨ s.answering = true)

/-- An account is locked iff exactly one session is in the TRANSACTION state for
    it. -/
def Balanced (w : Maildrops) : Prop := ∀ a, a ∈ w.locked ↔ ∃! i, InTransaction w i a

theorem Held.balanced {w : Maildrops} {history : List (Entry Nat AccountId)} (h : Held w history)
    (howned : Owned w history) : Balanced w := by
  intro a
  rw [howned.table]
  constructor
  · intro hlocked
    obtain ⟨i, hi⟩ := hlocked
    obtain ⟨s, hs, ha⟩ := h.session i a hi
    refine ⟨i, ⟨s, hs, ha, (h.ready i s a hs ha).symm⟩, fun j hj => ?_⟩
    obtain ⟨t, ht, hta, -⟩ := hj
    have hj := (howned.account j t a ht hta).2
    exact Option.some.inj (hj.symm.trans hi)
  · intro hone
    obtain ⟨i, ⟨s, hs, ha, -⟩, -⟩ := hone
    exact ⟨i, (howned.account i s a hs ha).2⟩

/-- A step of another session leaves a session alone. -/
theorem maildropStep_session {w w' : Maildrops} {i j : Nat} {event : Event} {entry : Option (Entry Nat AccountId)}
    (h : maildropStep w i event = some (w', entry)) (hj : j ≠ i) : w'.session j = w.session j := by
  rcases maildropStep_cases h with ⟨-, rfl, -⟩ | ⟨s, handled, left, -, -, -, rfl, -⟩
  · exact Function.update_of_ne hj ..
  · exact Function.update_of_ne hj ..

theorem MaildropRun.session_eq_none {steps : List (Nat × Event)} {w : Maildrops} {history : List (Entry Nat AccountId)}
    (h : MaildropRun steps w history) {i : Nat} (hi : ∀ step ∈ steps, step.1 ≠ i) : w.session i = none := by
  induction h with
  | start => rfl
  | @step steps _ _ _ j event _ _ hstep ih =>
    have hj : j ≠ i := hi (j, event) (List.mem_append_right _ (List.mem_singleton_self _))
    rw [maildropStep_session hstep hj.symm]
    exact ih fun step hmem => hi step (List.mem_append_left _ hmem)

/-- In every run, whatever the logins meet, a session lets go only what it took. -/
theorem MaildropRun.disciplined {steps : List (Nat × Event)} {w : Maildrops} {history : List (Entry Nat AccountId)}
    (h : MaildropRun steps w history) : Disciplined history := h.owned.disciplined

/-- In a run in which every login that takes the lock can load the inbox, the
    lock is balanced, and when every session has ended no account is locked. -/
theorem maildrop_lock_balanced {steps : List (Nat × Event)} {w : Maildrops} {history : List (Entry Nat AccountId)}
    (h : MaildropRun steps w history) (hloads : ∀ step ∈ steps, step.2 ≠ .answered false) :
    Balanced w ∧ Disciplined history ∧ ((∀ i, w.session i = none) → w.locked = ∅) := by
  have hbalanced := (h.held hloads).balanced h.owned
  refine ⟨hbalanced, h.owned.disciplined, fun hended => ?_⟩
  rw [Finset.eq_empty_iff_forall_notMem]
  intro a ha
  obtain ⟨i, ⟨s, hs, -⟩, -⟩ := (hbalanced a).1 ha
  exact absurd ((hended i).symm.trans hs) nofun

/-- A login by USER and PASS, and its end. -/
def servedLogin : List (Nat × Event) :=
  [(0, .connected), (0, .request (.user (wide "a@b")) {}), (0, .request .pass { logon := .accepted 7 }), (0, .answered true)]

theorem maildrop_lock_balanced_served :
    ∃ w history, MaildropRun servedLogin w history ∧ 7 ∈ w.locked ∧
      (Balanced w ∧ Disciplined history ∧ ((∀ i, w.session i = none) → w.locked = ∅)) := by
  have hrun : MaildropRun servedLogin _ _ :=
    .step (.step (.step (.step .start rfl) rfl) rfl) rfl
  refine ⟨_, _, hrun, by decide, maildrop_lock_balanced hrun ?_⟩
  simp [servedLogin]

/-- The inbox cannot be loaded, and the client tries again with a wrong
    password. -/
def leakingLogin : List (Nat × Event) :=
  [(0, .connected), (0, .request (.user (wide "a@b")) {}), (0, .request .pass { logon := .accepted 7 }),
    (0, .answered false), (0, .request .pass {}), (0, .disconnected)]

/-- The account stays locked when no session is left. -/
theorem maildrop_lock_leaks :
    ∃ w history, MaildropRun leakingLogin w history ∧ (∀ i, w.session i = none) ∧ 7 ∈ w.locked ∧ ¬Balanced w := by
  have hrun : ∃ w history, MaildropRun leakingLogin w history ∧ w.session 0 = none ∧ 7 ∈ w.locked :=
    ⟨_, _, .step (.step (.step (.step (.step (.step .start rfl) rfl) rfl) rfl) rfl) rfl, rfl, by decide⟩
  obtain ⟨w, history, hrun, hfirst, hlocked⟩ := hrun
  have hended : ∀ i, w.session i = none := by
    intro i
    by_cases hi : i = 0
    · rw [hi, hfirst]
    · apply hrun.session_eq_none
      simp [leakingLogin, Ne.symm hi]
  refine ⟨w, history, hrun, hended, hlocked, fun hbalanced => ?_⟩
  obtain ⟨i, ⟨s, hs, -⟩, -⟩ := (hbalanced 7).1 hlocked
  exact absurd ((hended i).symm.trans hs) nofun

end HMailServer.Pop3
