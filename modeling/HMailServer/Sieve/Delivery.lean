import HMailServer.Sieve.Include

/- What combined delivery actions do to the message. The outcome is a function of
   the actions a script executes, in their order; the statements say for which
   orders it is what the actions mean. -/
namespace HMailServer

namespace SieveAction

/-- The actions that keep a local copy. -/
def keeps : SieveAction → Bool
  | .keep | .fileinto _ => true
  | _ => false

/-- The actions that cancel a reject. -/
def delivers : SieveAction → Bool
  | .keep | .fileinto _ | .redirect _ _ => true
  | _ => false

/-- The actions that settle what happens to the local copy. -/
def decides : SieveAction → Bool
  | .keep | .fileinto _ | .discard | .redirect _ false | .reject _ => true
  | _ => false

/-- A redirect with `:copy`. -/
def copies : SieveAction → Bool
  | .redirect _ true => true
  | _ => false

/-- A redirect without `:copy`. -/
def redirectsAway : SieveAction → Bool
  | .redirect _ false => true
  | _ => false

def rejects : SieveAction → Bool
  | .reject _ => true
  | _ => false

theorem decides_of_keeps {a : SieveAction} (h : a.keeps = true) : a.decides = true := by
  cases a <;> first | rfl | cases h

theorem decides_of_rejects {a : SieveAction} (h : a.rejects = true) : a.decides = true := by
  cases a <;> first | rfl | cases h

/-- What delivers and leaves the local copy open is a redirect with `:copy`. -/
theorem copies_of_delivers {a : SieveAction} (h : a.delivers = true) (hopen : a.decides = false) : a.copies = true := by
  cases a with
  | redirect target copy => cases copy <;> first | rfl | cases hopen
  | _ => simp_all [delivers, decides]

end SieveAction

open SieveAction

namespace Outcome

/-- The outcome of executed actions. -/
def ofActions (T : List SieveAction) : Outcome := T.foldl perform {}

theorem ofActions_concat (T : List SieveAction) (a : SieveAction) : ofActions (T ++ [a]) = (ofActions T).perform a :=
  List.foldl_append

@[simp] theorem cancelReject_rejectGiven (o : Outcome) : o.cancelReject.rejectGiven = false := by
  cases h : o.rejectGiven <;> simp [cancelReject, h]

@[simp] theorem cancelReject_keepLocal (o : Outcome) : o.cancelReject.keepLocal = o.keepLocal := by
  unfold cancelReject
  split <;> rfl

@[simp] theorem cancelReject_localDecided (o : Outcome) : o.cancelReject.localDecided = o.localDecided := by
  unfold cancelReject
  split <;> rfl

@[simp] theorem cancelReject_redirects (o : Outcome) : o.cancelReject.redirects = o.redirects := by
  unfold cancelReject
  split <;> rfl

@[simp] theorem cancelReject_fileInto (o : Outcome) : o.cancelReject.fileInto = o.fileInto := by
  unfold cancelReject
  split <;> rfl

/-! ## One action -/

theorem perform_localDecided (o : Outcome) (a : SieveAction) :
    (o.perform a).localDecided = (o.localDecided || a.decides) := by
  cases a with
  | redirect target copy => cases copy <;> cases h : o.localDecided <;> simp [perform, decides, h]
  | reject reason => cases h : o.localDecided <;> simp [perform, decides, h]
  | _ => simp [perform, decides]

theorem perform_keepLocal (o : Outcome) (a : SieveAction) :
    (o.perform a).keepLocal =
      (a.keeps || (a ≠ .discard && o.keepLocal && (o.localDecided || !a.decides))) := by
  cases a with
  | redirect target copy => cases copy <;> cases h : o.localDecided <;> simp [perform, keeps, decides, h]
  | reject reason => cases h : o.localDecided <;> simp [perform, keeps, decides, h]
  | _ => simp [perform, keeps, decides]

theorem perform_rejectGiven (o : Outcome) (a : SieveAction) :
    (o.perform a).rejectGiven = (!a.delivers && (o.rejectGiven || (a.rejects && !o.localDecided))) := by
  cases a with
  | redirect target copy => cases copy <;> cases h : o.localDecided <;> simp [perform, delivers, h]
  | reject reason => cases h : o.localDecided <;> simp [perform, delivers, rejects, h]
  | _ => simp [perform, delivers, rejects]

theorem cancelReject_rejectReason {o : Outcome} (h : o.rejectGiven = false → o.rejectReason = []) :
    o.cancelReject.rejectReason = [] := by
  cases hgiven : o.rejectGiven with
  | false => simpa [cancelReject, hgiven] using h hgiven
  | true => simp [cancelReject, hgiven]

/-- There is a reason only where there is a reject. -/
theorem perform_rejectReason {o : Outcome} (h : o.rejectGiven = false → o.rejectReason = []) (a : SieveAction)
    (hgiven : (o.perform a).rejectGiven = false) : (o.perform a).rejectReason = [] := by
  cases a with
  | keep => exact cancelReject_rejectReason h
  | fileinto mailbox => exact cancelReject_rejectReason h
  | discard => exact h hgiven
  | redirect target copy =>
    unfold perform
    dsimp only
    split <;> exact cancelReject_rejectReason h
  | reject reason =>
    cases hdecided : o.localDecided with
    | false => simp [perform, hdecided] at hgiven
    | true =>
      have hsame : o.perform (.reject reason) = o := by simp [perform, hdecided]
      rw [hsame] at hgiven ⊢
      exact h hgiven
  | noted token => exact h hgiven

theorem perform_redirects (o : Outcome) (a : SieveAction) :
    (o.perform a).redirects = o.redirects ++ (match a with | .redirect target _ => [target] | _ => []) := by
  cases a with
  | redirect target copy => cases copy <;> cases h : o.localDecided <;> simp [perform, h]
  | reject reason => cases h : o.localDecided <;> simp [perform, h]
  | _ => simp [perform]

theorem perform_fileInto (o : Outcome) (a : SieveAction) :
    (o.perform a).fileInto =
      (match a with | .fileinto mailbox => mailbox | .discard => [] | _ => o.fileInto) := by
  cases a with
  | redirect target copy => cases copy <;> cases h : o.localDecided <;> simp [perform, h]
  | reject reason => cases h : o.localDecided <;> simp [perform, h]
  | _ => simp [perform]

/-! ## A run of actions -/

theorem ofActions_localDecided (T : List SieveAction) : (ofActions T).localDecided = T.any decides := by
  induction T using List.reverseRecOn with
  | nil => rfl
  | append_singleton T a ih =>
    rw [ofActions_concat, perform_localDecided, ih, List.any_append]
    simp

/-- A local copy is asked for and no discard comes after the last time. -/
def LastKept (T : List SieveAction) : Prop :=
  ∃ pre a post, T = pre ++ a :: post ∧ a.keeps = true ∧ .discard ∉ post

theorem lastKept_concat {T : List SieveAction} {a : SieveAction} :
    LastKept (T ++ [a]) ↔ a.keeps = true ∨ (LastKept T ∧ a ≠ .discard) := by
  constructor
  · rintro ⟨pre, k, post, hT, hk, hpost⟩
    induction post using List.reverseRecOn with
    | nil =>
      obtain ⟨_, rfl⟩ := List.append_inj' hT rfl |>.imp_right fun h => by simpa using h
      exact .inl hk
    | append_singleton post b _ =>
      have hsplit : T ++ [a] = (pre ++ k :: post) ++ [b] := by simpa using hT
      obtain ⟨rfl, hab⟩ := List.append_inj' hsplit rfl
      cases hab
      refine .inr ⟨⟨pre, k, post, rfl, hk, fun h => hpost (by simp [h])⟩, ?_⟩
      rintro rfl
      exact hpost (by simp)
  · rintro (ha | ⟨⟨pre, k, post, rfl, hk, hpost⟩, ha⟩)
    · exact ⟨T, a, [], rfl, ha, by simp⟩
    · exact ⟨pre, k, post ++ [a], by simp, hk, by simp [hpost, ha.symm]⟩

theorem decides_of_lastKept {T : List SieveAction} (h : LastKept T) : T.any decides = true := by
  obtain ⟨pre, a, post, rfl, ha, _⟩ := h
  simp [decides_of_keeps ha]

theorem ofActions_keepLocal (T : List SieveAction) :
    (ofActions T).keepLocal = true ↔ LastKept T ∨ T.any decides = false := by
  induction T using List.reverseRecOn with
  | nil => simp [ofActions]
  | append_singleton T a ih =>
    have hkept := @decides_of_lastKept T
    rw [ofActions_concat, perform_keepLocal, lastKept_concat, ofActions_localDecided, List.any_append]
    -- an action that decides after nothing was decided settles it alone
    cases hT : T.any decides <;> rw [hT] at ih hkept <;> cases a with
    | redirect target copy => cases copy <;> simp_all [keeps, decides]
    | _ => simp_all [keeps, decides]

/-- A reject stands: it came before anything else that decides, and no delivery
    action came after it. -/
def RejectStands (T : List SieveAction) : Prop :=
  ∃ pre reason post, T = pre ++ .reject reason :: post ∧ pre.any decides = false ∧ post.any delivers = false

theorem decides_of_rejectStands {T : List SieveAction} (h : RejectStands T) : T.any decides = true := by
  obtain ⟨pre, reason, post, rfl, _⟩ := h
  simp [decides]

theorem rejectStands_concat {T : List SieveAction} {a : SieveAction} :
    RejectStands (T ++ [a]) ↔
      a.delivers = false ∧ (RejectStands T ∨ (a.rejects = true ∧ T.any decides = false)) := by
  constructor
  · rintro ⟨pre, reason, post, hT, hpre, hpost⟩
    induction post using List.reverseRecOn with
    | nil =>
      obtain ⟨rfl, ha⟩ := List.append_inj' hT rfl
      cases ha
      exact ⟨rfl, .inr ⟨rfl, hpre⟩⟩
    | append_singleton post b _ =>
      have hsplit : T ++ [a] = (pre ++ .reject reason :: post) ++ [b] := by simpa using hT
      obtain ⟨rfl, hab⟩ := List.append_inj' hsplit rfl
      cases hab
      rw [List.any_append, Bool.or_eq_false_iff] at hpost
      exact ⟨by simpa using hpost.2, .inl ⟨pre, reason, post, rfl, hpre, hpost.1⟩⟩
  · rintro ⟨ha, ⟨pre, reason, post, rfl, hpre, hpost⟩ | ⟨hreject, hT⟩⟩
    · exact ⟨pre, reason, post ++ [a], by simp, hpre, by rw [List.any_append, hpost]; simp [ha]⟩
    · cases a with
      | reject reason => exact ⟨T, reason, [], rfl, hT, rfl⟩
      | _ => cases hreject

theorem ofActions_rejectGiven (T : List SieveAction) : (ofActions T).rejectGiven = true ↔ RejectStands T := by
  induction T using List.reverseRecOn with
  | nil =>
    refine iff_of_false (by simp [ofActions]) ?_
    intro h
    cases decides_of_rejectStands h
  | append_singleton T a ih =>
    rw [ofActions_concat, perform_rejectGiven, ofActions_localDecided, rejectStands_concat, ← ih]
    simp

theorem ofActions_rejectReason (T : List SieveAction) (h : (ofActions T).rejectGiven = false) :
    (ofActions T).rejectReason = [] := by
  induction T using List.reverseRecOn with
  | nil => rfl
  | append_singleton T a ih =>
    rw [ofActions_concat] at h ⊢
    exact perform_rejectReason ih a h

/-- The redirects are the targets executed. -/
theorem ofActions_redirects (T : List SieveAction) :
    (ofActions T).redirects ≠ [] ↔ ∃ a ∈ T, a.copies = true ∨ a.redirectsAway = true := by
  induction T using List.reverseRecOn with
  | nil => simp [ofActions]
  | append_singleton T a ih =>
    have hmem : (∃ b ∈ T ++ [a], b.copies = true ∨ b.redirectsAway = true) ↔
        (∃ b ∈ T, b.copies = true ∨ b.redirectsAway = true) ∨ (a.copies = true ∨ a.redirectsAway = true) := by
      simp only [List.mem_append, List.mem_singleton, or_and_right, exists_or, exists_eq_left]
    rw [ofActions_concat, perform_redirects, hmem, ← ih]
    cases a with
    | redirect target copy => cases copy <;> simp [copies, redirectsAway]
    | _ => simp [copies, redirectsAway]

/-! ## What the rejects among the actions leave alone -/

/-- The actions other than rejects. -/
def withoutRejects (T : List SieveAction) : List SieveAction := T.filter fun a => !a.rejects

theorem withoutRejects_concat (T : List SieveAction) (a : SieveAction) :
    withoutRejects (T ++ [a]) = if a.rejects then withoutRejects T else withoutRejects T ++ [a] := by
  unfold withoutRejects
  rw [List.filter_append]
  cases h : a.rejects <;> simp [h]

theorem ofActions_fileInto (T : List SieveAction) : (ofActions (withoutRejects T)).fileInto = (ofActions T).fileInto := by
  induction T using List.reverseRecOn with
  | nil => rfl
  | append_singleton T a ih =>
    rw [withoutRejects_concat, ofActions_concat, perform_fileInto]
    cases a with
    | reject reason => exact ih
    | _ => simp [rejects, ofActions_concat, perform_fileInto, ih]

theorem ofActions_redirects_eq (T : List SieveAction) :
    (ofActions (withoutRejects T)).redirects = (ofActions T).redirects := by
  induction T using List.reverseRecOn with
  | nil => rfl
  | append_singleton T a ih =>
    rw [withoutRejects_concat, ofActions_concat, perform_redirects, ← ih]
    cases a with
    | reject reason => simp [rejects]
    | _ => rw [if_neg (by simp [rejects]), ofActions_concat, perform_redirects]

theorem lastKept_withoutRejects (T : List SieveAction) : LastKept (withoutRejects T) ↔ LastKept T := by
  induction T using List.reverseRecOn with
  | nil => rfl
  | append_singleton T a ih =>
    rw [withoutRejects_concat, lastKept_concat, ← ih]
    cases a with
    | reject reason => simp [rejects, keeps]
    | _ => rw [if_neg (by simp [rejects]), lastKept_concat]

/-! ## The orders of actions that go wrong -/

/-- Every discard after a keep or fileinto has another keep or fileinto after it. -/
def Undiscarded (T : List SieveAction) : Prop :=
  ∀ pre post, T = pre ++ .discard :: post → pre.any keeps = true → post.any keeps = true

/-- A redirect with `:copy` comes after a reject. -/
def RejectedThenCopied (T : List SieveAction) : Prop :=
  ∃ pre reason post, T = pre ++ .reject reason :: post ∧ post.any copies = true

/-- A reject stands although a redirect with `:copy` came before it. -/
def CopiedThenRejected (T : List SieveAction) : Prop :=
  ∃ pre reason post, T = pre ++ .reject reason :: post ∧ pre.any decides = false ∧ pre.any copies = true ∧
    post.any delivers = false

theorem undiscarded_concat {T : List SieveAction} {a : SieveAction} (ha : a.keeps = false) :
    Undiscarded (T ++ [a]) ↔ Undiscarded T ∧ (a = .discard → T.any keeps = false) := by
  constructor
  · intro h
    refine ⟨?_, ?_⟩
    · rintro pre post rfl hpre
      have hpost := h pre (post ++ [a]) (by simp) hpre
      rw [List.any_append] at hpost
      simpa [ha] using hpost
    · rintro rfl
      have hlast := h T [] rfl
      simpa using hlast
  · rintro ⟨h, hlast⟩ pre post hT hpre
    induction post using List.reverseRecOn with
    | nil =>
      obtain ⟨rfl, hab⟩ := List.append_inj' hT rfl
      cases hab
      rw [hlast rfl] at hpre
      cases hpre
    | append_singleton post b _ =>
      have hsplit : T ++ [a] = (pre ++ .discard :: post) ++ [b] := by simpa using hT
      obtain ⟨rfl, hab⟩ := List.append_inj' hsplit rfl
      rw [List.any_append, h pre post rfl hpre, Bool.true_or]

theorem lastKept_iff {T : List SieveAction} (h : T.any keeps = true) : LastKept T ↔ Undiscarded T := by
  induction T using List.reverseRecOn with
  | nil => cases h
  | append_singleton T a ih =>
    rw [lastKept_concat]
    cases ha : a.keeps with
    | true =>
      refine iff_of_true (.inl rfl) ?_
      intro pre post hT hpre
      induction post using List.reverseRecOn with
      | nil =>
        obtain ⟨_, hab⟩ := List.append_inj' hT rfl
        cases hab
        cases ha
      | append_singleton post b _ =>
        have hsplit : T ++ [a] = (pre ++ .discard :: post) ++ [b] := by simpa using hT
        obtain ⟨_, hab⟩ := List.append_inj' hsplit rfl
        cases hab
        simp [ha]
    | false =>
      have hT : T.any keeps = true := by
        rw [List.any_append] at h
        simpa [ha] using h
      rw [undiscarded_concat ha, ih hT, hT]
      simp

/-- Where only rejects and copies were executed, a reject stands unless a copy
    came after one. -/
theorem rejectStands_iff {T : List SieveAction} (hreject : T.any rejects = true)
    (hothers : ∀ a ∈ T, a.decides = true → a.rejects = true) : RejectStands T ↔ ¬RejectedThenCopied T := by
  constructor
  · rintro ⟨p, r, q, rfl, hp, hq⟩ ⟨pre, reason, post, hT, hpost⟩
    have hcopied : ∀ {xs : List SieveAction}, xs.any copies = true → xs.any delivers = true := by
      intro xs h
      obtain ⟨a, ha, hcopies⟩ := List.any_eq_true.1 h
      exact List.any_eq_true.2 ⟨a, ha, by cases a <;> first | rfl | cases hcopies⟩
    -- no reject comes before the one that stands
    obtain ⟨as, rfl, has⟩ | ⟨bs, rfl, hbs⟩ := List.append_eq_append_iff.1 hT
    · have hq' : q.any delivers = true := by
        cases as with
        | nil =>
          cases has
          exact hcopied hpost
        | cons b bs =>
          rw [List.cons_append] at has
          rw [(List.cons_eq_cons.1 has).2, List.any_append, List.any_cons, hcopied hpost, Bool.or_true, Bool.or_true]
      rw [hq] at hq'
      cases hq'
    · cases bs with
      | nil =>
        cases hbs
        rw [hcopied hpost] at hq
        cases hq
      | cons b bs =>
        obtain ⟨rfl, _⟩ := List.cons_eq_cons.1 hbs
        rw [List.any_append, List.any_cons] at hp
        simp [decides] at hp
  · intro hcopied
    obtain ⟨first, hfirst⟩ := Option.isSome_iff_exists.1 (List.find?_isSome.2 (List.any_eq_true.1 hreject))
    obtain ⟨hr, pre, post, rfl, hpre⟩ := List.find?_eq_some_iff_append.1 hfirst
    cases first with
    | reject reason =>
      refine ⟨pre, reason, post, rfl, ?_, ?_⟩
      · rw [List.any_eq_false]
        intro a ha hdecides
        exact absurd (hothers a (by simp [ha]) hdecides) (by simpa using hpre a ha)
      · rw [List.any_eq_false]
        intro a ha hdelivers
        refine hcopied ⟨pre, reason, post, rfl, List.any_eq_true.2 ⟨a, ha, ?_⟩⟩
        have hundecided : a.decides = true → a.rejects = true := hothers a (by simp [ha])
        cases a with
        | redirect target copy => cases copy <;> simp_all [decides, copies, rejects]
        | _ => simp_all [decides, delivers, rejects]
    | _ => cases hr

end Outcome

open Outcome SieveEvaluator

/-! ## The result of executed actions -/

theorem close_keepLocal (T : List SieveAction) :
    (Outcome.close (ofActions T)).keepLocal = true ↔ LastKept T ∨ T.any decides = false := by
  unfold Outcome.close
  rw [← ofActions_keepLocal, ofActions_localDecided]
  split
  · rfl
  · rename_i h
    rw [ofActions_keepLocal]
    exact iff_of_true rfl (.inr (by simpa using h))

/-- The local copy is what the actions ask for, exactly where no discard undoes a
    keep and no `:copy` cancels the only decision. -/
theorem close_keepLocal_asked (T : List SieveAction) :
    (((Outcome.close (ofActions T)).keepLocal = true ↔
        T.any keeps = true ∨ (.discard ∉ T ∧ T.any redirectsAway = false ∧ (ofActions T).rejectGiven = false)) ↔
      Undiscarded T ∧
        (T.any keeps = true ∨ .discard ∈ T ∨ T.any redirectsAway = true ∨ ¬RejectedThenCopied T)) := by
  rw [close_keepLocal, ← Bool.not_eq_true (ofActions T).rejectGiven, ofActions_rejectGiven]
  cases hkeeps : T.any keeps with
  | true =>
    have hdecides : T.any decides = true := by
      obtain ⟨a, ha, hk⟩ := List.any_eq_true.1 hkeeps
      exact List.any_eq_true.2 ⟨a, ha, decides_of_keeps hk⟩
    simp [lastKept_iff hkeeps, hdecides]
  | false =>
    have hlast : ¬LastKept T := by
      rintro ⟨pre, a, post, rfl, ha, _⟩
      simp [ha] at hkeeps
    have hundiscarded : Undiscarded T := by
      rintro pre post rfl hpre
      simp [hpre] at hkeeps
    by_cases hdiscard : .discard ∈ T
    · have hdecides : T.any decides = true := List.any_eq_true.2 ⟨_, hdiscard, rfl⟩
      simp [hlast, hundiscarded, hdiscard, hdecides]
    cases haway : T.any redirectsAway with
    | true =>
      have hdecides : T.any decides = true := by
        obtain ⟨a, ha, hr⟩ := List.any_eq_true.1 haway
        refine List.any_eq_true.2 ⟨a, ha, ?_⟩
        cases a with
        | redirect target copy => cases copy <;> first | rfl | cases hr
        | _ => cases hr
      simp [hlast, hundiscarded, hdecides]
    | false =>
      -- what is left decides by rejects alone
      have hothers : ∀ a ∈ T, a.decides = true → a.rejects = true := by
        intro a ha hdecides
        cases a with
        | keep => exact absurd (List.any_eq_false.1 hkeeps _ ha) (by simp [keeps])
        | fileinto mailbox => exact absurd (List.any_eq_false.1 hkeeps _ ha) (by simp [keeps])
        | discard => exact absurd ha hdiscard
        | redirect target copy =>
          cases copy with
          | false => exact absurd (List.any_eq_false.1 haway _ ha) (by simp [redirectsAway])
          | true => cases hdecides
        | reject reason => rfl
        | noted token => cases hdecides
      cases hreject : T.any rejects with
      | true =>
        have hdecides : T.any decides = true := by
          obtain ⟨a, ha, hr⟩ := List.any_eq_true.1 hreject
          exact List.any_eq_true.2 ⟨a, ha, decides_of_rejects hr⟩
        simp [hlast, hundiscarded, hdecides, hdiscard, rejectStands_iff hreject hothers]
      | false =>
        have hdecides : T.any decides = false := by
          rw [List.any_eq_false]
          intro a ha hd
          exact List.any_eq_false.1 hreject a ha (hothers a ha hd)
        have hnone : ¬RejectedThenCopied T := by
          rintro ⟨pre, reason, post, rfl, _⟩
          simp [rejects] at hreject
        have hstands : ¬RejectStands T := by
          intro h
          rw [decides_of_rejectStands h] at hdecides
          cases hdecides
        simp [hundiscarded, hdecides, hdiscard, hnone, hstands]

/-- A reject is combined with a delivery exactly where it stands after a redirect
    with `:copy`. -/
theorem reject_alone (T : List SieveAction) :
    (¬((ofActions T).rejectGiven = true ∧
        ((Outcome.close (ofActions T)).keepLocal = true ∨ (ofActions T).redirects ≠ []))) ↔
      ¬CopiedThenRejected T := by
  rw [not_iff_not, close_keepLocal, ofActions_rejectGiven, ofActions_redirects]
  constructor
  · rintro ⟨⟨pre, reason, post, rfl, hpre, hpost⟩, hdelivered⟩
    refine ⟨pre, reason, post, rfl, hpre, ?_, hpost⟩
    have hdelivers : ∃ a ∈ pre ++ .reject reason :: post, a.delivers = true := by
      obtain (⟨p, a, q, hT, ha, _⟩ | hundecided) | ⟨a, ha, h⟩ := hdelivered
      · exact ⟨a, by rw [hT]; simp, by cases a <;> first | rfl | cases ha⟩
      · simp [decides] at hundecided
      · exact ⟨a, ha, by cases a <;> first | rfl | (obtain h | h := h <;> cases h)⟩
    obtain ⟨a, ha, hd⟩ := hdelivers
    obtain ha | rfl | ha : a ∈ pre ∨ a = .reject reason ∨ a ∈ post := by simpa using ha
    · exact List.any_eq_true.2 ⟨a, ha, copies_of_delivers hd (by simpa using List.any_eq_false.1 hpre a ha)⟩
    · cases hd
    · exact absurd hd (List.any_eq_false.1 hpost a ha)
  · rintro ⟨pre, reason, post, rfl, hpre, hcopied, hpost⟩
    refine ⟨⟨pre, reason, post, rfl, hpre, hpost⟩, .inr ?_⟩
    obtain ⟨a, ha, hc⟩ := List.any_eq_true.1 hcopied
    exact ⟨a, by simp [ha], .inl hc⟩

/-- Without its rejects a script in which one was cancelled has the same result,
    exactly where the actions left decide and no reject among them stands. -/
theorem finish_without_reject (p : Progress) {T T' : List SieveAction} (hsame : withoutRejects T = withoutRejects T')
    (hreject : T.any rejects = true) (hcancelled : (ofActions T).rejectGiven = false) :
    finish p (ofActions T') = finish p (ofActions T) ↔ T'.any decides = true ∧ ¬RejectStands T' := by
  have hdecides : T.any decides = true := by
    obtain ⟨a, ha, hr⟩ := List.any_eq_true.1 hreject
    exact List.any_eq_true.2 ⟨a, ha, decides_of_rejects hr⟩
  have hkept : LastKept T ↔ LastKept T' := by
    rw [← lastKept_withoutRejects T, hsame, lastKept_withoutRejects]
  have hredirects : (ofActions T').redirects = (ofActions T).redirects := by
    rw [← ofActions_redirects_eq T, hsame, ofActions_redirects_eq]
  have hfileInto : (ofActions T').fileInto = (ofActions T).fileInto := by
    rw [← ofActions_fileInto T, hsame, ofActions_fileInto]
  have hkeepT := close_keepLocal T
  have hkeepT' := close_keepLocal T'
  constructor
  · intro h
    have hkeep : (Outcome.close (ofActions T')).keepLocal = (Outcome.close (ofActions T)).keepLocal :=
      congrArg SieveResult.keepLocal h
    have hgiven : (ofActions T').rejectGiven = (ofActions T).rejectGiven := congrArg SieveResult.rejectGiven h
    refine ⟨?_, ?_⟩
    · by_contra hundecided
      have hkeptT : LastKept T := by
        rw [hkeep, hkeepT] at hkeepT'
        simpa [hdecides] using hkeepT'.2 (.inr (by simpa using hundecided))
      exact hundecided (decides_of_lastKept (hkept.1 hkeptT))
    · rw [← ofActions_rejectGiven, hgiven, hcancelled]
      exact Bool.false_ne_true
  · rintro ⟨hdecides', hstands⟩
    have hgiven : (ofActions T').rejectGiven = false := by
      rwa [← ofActions_rejectGiven, Bool.not_eq_true] at hstands
    have hkeep : (Outcome.close (ofActions T')).keepLocal = (Outcome.close (ofActions T)).keepLocal := by
      rw [Bool.eq_iff_iff, hkeepT, hkeepT', hkept, hdecides, hdecides']
    unfold finish
    rw [hkeep, hredirects, hfileInto, hgiven, hcancelled, ofActions_rejectReason T hcancelled,
      ofActions_rejectReason T' hgiven]

end HMailServer
