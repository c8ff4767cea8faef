import HMailServer.Util.JsonMeaning

/- Values, arrays, objects and whole texts of the JSON reader against the grammar. -/
namespace HMailServer.JsonDocument
open Json

/-! ## White space -/

theorem skipWhitespace_eq (s : Text) : ∃ w, Ws w ∧ s = w ++ skipWhitespace s :=
  ⟨s.takeWhile isSpace, fun _ hc => List.mem_takeWhile_imp hc, List.takeWhile_append_dropWhile.symm⟩

theorem skipWhitespace_append {w s : Text} (hw : Ws w) (hs : ∀ c ∈ s.head?, isSpace c = false) :
    skipWhitespace (w ++ s) = s := by
  rw [skipWhitespace, List.dropWhile_append_of_pos hw]
  cases s with
  | nil => rfl
  | cons c s =>
    rw [List.dropWhile_cons, hs c rfl]
    rfl

theorem stringText_iff {s t : Text} : StringText s t ↔ ∃ body, Chars body t ∧ s = 34 :: body ++ [34] := by
  constructor
  · rintro ⟨h⟩
    exact ⟨_, h, rfl⟩
  · rintro ⟨body, h, rfl⟩
    exact .mk h

theorem ends_ws {w : Text} (hw : Ws w) {c : UInt8} (hc : c = 44 ∨ c = 93 ∨ c = 125) (rest : Text) : Ends (w ++ c :: rest) := by
  intro d hd
  cases w with
  | nil =>
    cases hd
    exact .inr hc
  | cons e w =>
    cases hd
    exact .inl (hw d List.mem_cons_self)

/-! ## Values -/

/-- The grammar that the reader turns out to have. -/
abbrev Lax : Nat → Text → JsonValue → Prop := ValueText Digits maxDepth

theorem valueText_depth {IntPart : Text → Prop} {d : Nat} {t : Text} {v : JsonValue} (h : ValueText IntPart maxDepth d t v) :
    d ≤ maxDepth := by
  cases h <;> assumption

/-- A value does not begin with white space or a closing bracket. -/
theorem valueText_head {d : Nat} {t : Text} {v : JsonValue} (h : Lax d t v) :
    ∃ c s, t = c :: s ∧ isSpace c = false ∧ c ≠ 93 := by
  cases h with
  | number _ h =>
    obtain ⟨c, s, rfl, hc⟩ := number_head h
    refine ⟨c, s, rfl, ?_, ?_⟩
    · cases hspace : isSpace c with
      | false => rfl
      | true =>
        have hfacts := (ends_facts (.inl hspace)).1
        obtain rfl | hc := hc
        · exact absurd hspace (by decide)
        · simp [isDigit, hc] at hfacts
    · rintro rfl
      exact absurd hc (by decide)
  | string _ h =>
    cases h
    exact ⟨34, _, rfl, by decide, by decide⟩
  | null _ => exact ⟨110, _, rfl, by decide, by decide⟩
  | true _ => exact ⟨116, _, rfl, by decide, by decide⟩
  | false _ => exact ⟨102, _, rfl, by decide, by decide⟩
  | emptyArray _ _ => exact ⟨91, _, rfl, by decide, by decide⟩
  | array _ _ _ _ => exact ⟨91, _, rfl, by decide, by decide⟩
  | emptyObject _ _ => exact ⟨123, _, rfl, by decide, by decide⟩
  | object _ _ _ _ _ => exact ⟨123, _, rfl, by decide, by decide⟩

theorem skipWhitespace_value {d : Nat} {w t : Text} {v : JsonValue} (hw : Ws w) (h : Lax d t v) (rest : Text) :
    skipWhitespace (w ++ (t ++ rest)) = t ++ rest := by
  obtain ⟨c, s, rfl, hc, _⟩ := valueText_head h
  refine skipWhitespace_append hw fun d hd => ?_
  cases hd
  exact hc

/-- A reader of the values of a depth. -/
structure Reads (d : Nat) (value : Text → Except Failure (JsonValue × Text)) : Prop where
  sound : ∀ {s rest : Text} {v : JsonValue}, value s = .ok (v, rest) → ∃ t, Lax d t v ∧ s = t ++ rest
  complete : ∀ {t : Text} {v : JsonValue}, Lax d t v → ∀ {rest : Text}, Ends rest → value (t ++ rest) = .ok (v, rest)

/-! ## Arrays -/

section

variable {d : Nat} {value : Text → Except Failure (JsonValue × Text)} (hvalue : Reads (d + 1) value)
include hvalue

theorem parseItems_sound (n : Nat) (items : List JsonValue) (s : Text) {v : JsonValue} {rest : Text}
    (h : parseItems value n items s = .ok (v, rest)) :
    ∃ its : List Item, its ≠ [] ∧ (∀ i ∈ its, Ws i.left ∧ Ws i.right) ∧ (∀ i ∈ its, Lax (d + 1) i.text i.value) ∧
      s = [44].intercalate (its.map Item.whole) ++ 93 :: rest ∧ v = .array (items ++ its.map Item.value) := by
  induction n generalizing items s with
  | zero => cases h
  | succ n ih =>
    obtain ⟨⟨item, rest₀⟩, hitem, h⟩ := bind_ok.1 h
    obtain ⟨t, ht, hskip⟩ := hvalue.sound hitem
    obtain ⟨left, hleft, hs⟩ := skipWhitespace_eq s
    obtain ⟨right, hright, hrest₀⟩ := skipWhitespace_eq rest₀
    have hwhole : s = left ++ t ++ right ++ skipWhitespace rest₀ := by
      conv_lhs => rw [hs, hskip, hrest₀]
      simp
    dsimp only at h
    split at h
    · cases h
    · rename_i c rest₁ hrest₁
      rw [hrest₁] at hwhole
      split_ifs at h with h44 h93
      · obtain ⟨its, hne, hws, hlax, rfl, rfl⟩ := ih _ _ h
        refine ⟨⟨left, t, right, item⟩ :: its, List.cons_ne_nil _ _, ?_, ?_, ?_, by simp⟩
        · exact List.forall_mem_cons.2 ⟨⟨hleft, hright⟩, hws⟩
        · exact List.forall_mem_cons.2 ⟨ht, hlax⟩
        · rw [hwhole, h44, List.map_cons, List.intercalate_cons_of_ne_nil (by simp [hne])]
          simp [Item.whole]
      · cases h
        refine ⟨[⟨left, t, right, item⟩], List.cons_ne_nil _ _, ?_, ?_, ?_, rfl⟩
        · exact List.forall_mem_cons.2 ⟨⟨hleft, hright⟩, fun _ h => absurd h List.not_mem_nil⟩
        · exact List.forall_mem_cons.2 ⟨ht, fun _ h => absurd h List.not_mem_nil⟩
        · rw [hwhole, h93]
          simp [Item.whole]

theorem parseItems_complete {its : List Item} (hne : its ≠ []) (hws : ∀ i ∈ its, Ws i.left ∧ Ws i.right)
    (hlax : ∀ i ∈ its, Lax (d + 1) i.text i.value) {n : Nat} (hn : its.length ≤ n) (items : List JsonValue) (rest : Text) :
    parseItems value n items ([44].intercalate (its.map Item.whole) ++ 93 :: rest) =
      .ok (.array (items ++ its.map Item.value), rest) := by
  induction its generalizing n items with
  | nil => exact absurd rfl hne
  | cons i its ih =>
    obtain ⟨⟨hleft, hright⟩, hws⟩ := List.forall_mem_cons.1 hws
    obtain ⟨ht, hlax⟩ := List.forall_mem_cons.1 hlax
    obtain ⟨n, rfl⟩ : ∃ m, n = m + 1 := ⟨n - 1, by rw [List.length_cons] at hn; omega⟩
    rw [List.map_cons, parseItems]
    by_cases hits : its = []
    · have hs : [44].intercalate (i.whole :: its.map Item.whole) ++ 93 :: rest =
          i.left ++ (i.text ++ (i.right ++ 93 :: rest)) := by
        rw [hits]
        simp [Item.whole]
      rw [hs, skipWhitespace_value hleft ht]
      refine bind_ok.2 ⟨_, hvalue.complete ht (ends_ws hright (by decide) rest), ?_⟩
      dsimp only
      rw [skipWhitespace_append hright (by rintro c ⟨⟩; rfl), hits]
      rfl
    · have hs : [44].intercalate (i.whole :: its.map Item.whole) ++ 93 :: rest =
          i.left ++ (i.text ++ (i.right ++ 44 :: ([44].intercalate (its.map Item.whole) ++ 93 :: rest))) := by
        rw [List.intercalate_cons_of_ne_nil (by simp [hits])]
        simp [Item.whole]
      rw [hs, skipWhitespace_value hleft ht]
      refine bind_ok.2 ⟨_, hvalue.complete ht (ends_ws hright (by decide) _), ?_⟩
      dsimp only
      rw [skipWhitespace_append hright (by rintro c ⟨⟩; rfl)]
      dsimp only
      rw [if_pos rfl, ih hits hws hlax (by rw [List.length_cons] at hn; omega)]
      simp

end

/-- There are at least as many characters as pieces, but for one. -/
theorem length_intercalate (pieces : List Text) : pieces.length ≤ ([44].intercalate pieces).length + 1 := by
  induction pieces with
  | nil => exact Nat.zero_le _
  | cons p ps ih =>
    by_cases hps : ps = []
    · rw [hps]
      simp
    · rw [List.intercalate_cons_of_ne_nil hps]
      simp only [List.length_append, List.length_cons, List.length_nil]
      omega

section

variable {d : Nat} {value : Text → Except Failure (JsonValue × Text)}

theorem parseArray_sound (hd : d ≤ maxDepth) (hvalue : Reads (d + 1) value) {s rest : Text} {v : JsonValue} (h : parseArray value s = .ok (v, rest)) :
    ∃ t, Lax d (91 :: t) v ∧ s = t ++ rest := by
  obtain ⟨w, hw, hs⟩ := skipWhitespace_eq s
  unfold parseArray at h
  split at h
  · rename_i rest' hskip
    cases h
    exact ⟨w ++ [93], .emptyArray hd hw, by rw [hs, hskip]; simp⟩
  · obtain ⟨its, hne, hws, hlax, hskip, rfl⟩ := parseItems_sound hvalue _ _ _ h
    obtain ⟨i, its, rfl⟩ := List.exists_cons_of_ne_nil hne
    -- the white space in front belongs to the first item
    have hfirst : [44].intercalate ((⟨w ++ i.left, i.text, i.right, i.value⟩ :: its : List Item).map Item.whole) =
        w ++ [44].intercalate ((i :: its).map Item.whole) := by
      rw [List.map_cons, List.map_cons, Separated.intercalate_cons, Separated.intercalate_cons]
      simp [Item.whole]
    refine ⟨w ++ [44].intercalate ((i :: its).map Item.whole) ++ [93], ?_, ?_⟩
    · rw [← hfirst]
      refine @ValueText.array _ _ _ (⟨w ++ i.left, i.text, i.right, i.value⟩ :: its) hd (List.cons_ne_nil _ _) ?_ ?_
      · obtain ⟨⟨hleft, hright⟩, hws⟩ := List.forall_mem_cons.1 hws
        refine List.forall_mem_cons.2 ⟨⟨fun c hc => ?_, hright⟩, hws⟩
        exact (List.mem_append.1 hc).elim (hw c) (hleft c)
      · obtain ⟨ht, hlax⟩ := List.forall_mem_cons.1 hlax
        exact List.forall_mem_cons.2 ⟨ht, hlax⟩
    · rw [hs, hskip]
      simp

theorem parseArray_empty {w : Text} (hw : Ws w) (rest : Text) : parseArray value (w ++ 93 :: rest) = .ok (.array [], rest) := by
  rw [parseArray, skipWhitespace_append hw (by rintro c ⟨⟩; rfl)]
  rfl

theorem parseArray_items (hvalue : Reads (d + 1) value) {its : List Item} (hne : its ≠ []) (hws : ∀ i ∈ its, Ws i.left ∧ Ws i.right)
    (hlax : ∀ i ∈ its, Lax (d + 1) i.text i.value) (rest : Text) :
    parseArray value ([44].intercalate (its.map Item.whole) ++ 93 :: rest) = .ok (.array (its.map Item.value), rest) := by
  obtain ⟨i, its, rfl⟩ := List.exists_cons_of_ne_nil hne
  have hi := List.forall_mem_cons.1 hws
  obtain ⟨ht, _⟩ := List.forall_mem_cons.1 hlax
  -- without the white space in front of the first item
  have hfirst : [44].intercalate ((i :: its).map Item.whole) ++ 93 :: rest =
      i.left ++ ([44].intercalate ((⟨[], i.text, i.right, i.value⟩ :: its : List Item).map Item.whole) ++ 93 :: rest) := by
    rw [List.map_cons, List.map_cons, Separated.intercalate_cons, Separated.intercalate_cons]
    simp [Item.whole]
  obtain ⟨c, t, htext, hspace, hclose⟩ := valueText_head ht
  obtain ⟨tail, htail⟩ : ∃ tail, [44].intercalate ((⟨[], i.text, i.right, i.value⟩ :: its : List Item).map Item.whole) ++
      93 :: rest = c :: tail := by
    rw [List.map_cons, Separated.intercalate_cons, Item.whole, htext]
    exact ⟨_, rfl⟩
  have hskip : skipWhitespace ([44].intercalate ((i :: its).map Item.whole) ++ 93 :: rest) = c :: tail := by
    rw [hfirst, htail]
    exact skipWhitespace_append hi.1.1 (by rintro d ⟨⟩; exact hspace)
  rw [parseArray, hskip]
  split
  · rename_i hcons
    exact absurd (List.cons_eq_cons.1 hcons).1 hclose
  · rw [← htail]
    refine parseItems_complete hvalue (List.cons_ne_nil _ _) ?_ ?_ ?_ [] rest
    · exact List.forall_mem_cons.2 ⟨⟨fun _ h => absurd h List.not_mem_nil, hi.1.2⟩, hi.2⟩
    · exact List.forall_mem_cons.2 ⟨ht, (List.forall_mem_cons.1 hlax).2⟩
    · have hle := length_intercalate ((⟨[], i.text, i.right, i.value⟩ :: its : List Item).map Item.whole)
      simp only [List.length_map, List.length_append, List.length_cons] at hle ⊢
      omega

end

/-! ## Objects -/

/-- The loop keeps the first member of every name. -/
theorem foldl_keep (ms members : List (Text × JsonValue)) :
    ms.foldl keep members = members ++ (firstOfName ms).filter fun m => !members.any (·.1 == m.1) := by
  induction ms generalizing members with
  | nil => simp [firstOfName]
  | cons m ms ih =>
    rw [List.foldl_cons, ih, firstOfName, List.filter_cons, List.filter_filter]
    by_cases hany : members.any (·.1 == m.1) = true
    · rw [keep, if_pos hany, hany, Bool.not_true, if_neg Bool.false_ne_true]
      congr 1
      refine List.filter_congr fun other _ => ?_
      -- a member of the name is kept already
      by_cases hname : other.1 = m.1
      · rw [hname, hany]
        rfl
      · simp [hname]
    · have hfalse : members.any (·.1 == m.1) = false := Bool.eq_false_iff.2 hany
      rw [keep, if_neg hany, hfalse, Bool.not_false, if_pos rfl, List.append_assoc, List.singleton_append]
      congr 2
      refine List.filter_congr fun other _ => ?_
      by_cases hname : other.1 = m.1
      · simp [List.any_append, hname]
      · simp [List.any_append, hname, Ne.symm hname]

theorem foldl_keep_nil (ms : List (Text × JsonValue)) : ms.foldl keep [] = firstOfName ms := by
  rw [foldl_keep]
  simp

def pairOf (m : Member) : Text × JsonValue := (m.name, m.item.value)

section

variable {d : Nat} {value : Text → Except Failure (JsonValue × Text)} (hvalue : Reads (d + 1) value)
include hvalue

theorem parseMember_sound {s rest : Text} {p : Text × JsonValue} (h : parseMember value s = .ok (p, rest)) :
    ∃ before nameText after left text, Ws before ∧ Ws after ∧ Ws left ∧ StringText nameText p.1 ∧ Lax (d + 1) text p.2 ∧
      s = before ++ nameText ++ after ++ 58 :: (left ++ text ++ rest) := by
  obtain ⟨before, hbefore, hs⟩ := skipWhitespace_eq s
  unfold parseMember at h
  split at h
  · rename_i s₁ hskip
    obtain ⟨⟨key, rest₁⟩, hkey, hbehind⟩ := bind_ok.1 h
    obtain ⟨body, t, hchars, hs₁, ht⟩ := parseString_sound s₁ [] hkey
    obtain ⟨after, hafter, hrest₁⟩ := skipWhitespace_eq rest₁
    rw [List.nil_append] at ht
    dsimp only at hbehind
    split at hbehind
    · rename_i rest₂ hcolon
      obtain ⟨⟨member, rest₃⟩, hmember, hbehind⟩ := bind_ok.1 hbehind
      cases hbehind
      obtain ⟨text, htext, hskip₂⟩ := hvalue.sound hmember
      obtain ⟨left, hleft, hrest₂⟩ := skipWhitespace_eq rest₂
      refine ⟨before, 34 :: body ++ [34], after, left, text, hbefore, hafter, hleft, ?_, htext, ?_⟩
      · rw [ht]
        exact .mk hchars
      · rw [hs, hskip, hs₁, hrest₁, hcolon, hrest₂, hskip₂]
        simp
    · cases hbehind
  · cases h

theorem parseMember_complete {m : Member} (hbefore : Ws m.before) (hafter : Ws m.after) (hleft : Ws m.item.left)
    (hname : StringText m.nameText m.name) (hlax : Lax (d + 1) m.item.text m.item.value) {rest : Text} (hrest : Ends rest) :
    parseMember value (m.before ++ m.nameText ++ m.after ++ 58 :: (m.item.left ++ m.item.text ++ rest)) =
      .ok (pairOf m, rest) := by
  obtain ⟨body, hchars, hnameText⟩ := stringText_iff.1 hname
  have hs : m.before ++ m.nameText ++ m.after ++ 58 :: (m.item.left ++ m.item.text ++ rest) =
      m.before ++ 34 :: (body ++ 34 :: (m.after ++ 58 :: (m.item.left ++ (m.item.text ++ rest)))) := by
    rw [hnameText]
    simp
  rw [hs, parseMember, skipWhitespace_append hbefore (by rintro c ⟨⟩; rfl)]
  refine bind_ok.2 ⟨_, parseString_complete hchars [] _, ?_⟩
  dsimp only
  rw [skipWhitespace_append hafter (by rintro c ⟨⟩; rfl)]
  refine bind_ok.2 ⟨(m.item.value, rest), ?_, rfl⟩
  show value (skipWhitespace (m.item.left ++ (m.item.text ++ rest))) = _
  rw [skipWhitespace_value hleft hlax]
  exact hvalue.complete hlax hrest

/-- What the grammar asks of the members of an object. -/
structure MembersOk (d : Nat) (ms : List Member) : Prop where
  ws : ∀ m ∈ ms, Ws m.before ∧ Ws m.after ∧ Ws m.item.left ∧ Ws m.item.right
  name : ∀ m ∈ ms, StringText m.nameText m.name
  value : ∀ m ∈ ms, Lax (d + 1) m.item.text m.item.value

omit hvalue in
theorem membersOk_cons {m : Member} {ms : List Member} :
    MembersOk d (m :: ms) ↔ MembersOk d [m] ∧ MembersOk d ms := by
  constructor
  · intro h
    refine ⟨⟨fun n hn => h.ws n ?_, fun n hn => h.name n ?_, fun n hn => h.value n ?_⟩,
      ⟨fun n hn => h.ws n ?_, fun n hn => h.name n ?_, fun n hn => h.value n ?_⟩⟩
    iterate 3 exact List.mem_cons.2 (.inl (List.mem_singleton.1 hn))
    iterate 3 exact List.mem_cons_of_mem _ hn
  · rintro ⟨h, h'⟩
    refine ⟨fun n hn => ?_, fun n hn => ?_, fun n hn => ?_⟩
    · exact (List.mem_cons.1 hn).elim (fun hn => h.ws n (List.mem_singleton.2 hn)) (h'.ws n)
    · exact (List.mem_cons.1 hn).elim (fun hn => h.name n (List.mem_singleton.2 hn)) (h'.name n)
    · exact (List.mem_cons.1 hn).elim (fun hn => h.value n (List.mem_singleton.2 hn)) (h'.value n)

theorem parseMembers_sound (n : Nat) (members : List (Text × JsonValue)) (s : Text) {v : JsonValue} {rest : Text}
    (h : parseMembers value n members s = .ok (v, rest)) :
    ∃ ms : List Member, ms ≠ [] ∧ MembersOk d ms ∧ s = [44].intercalate (ms.map Member.whole) ++ 125 :: rest ∧
      v = .object ((ms.map pairOf).foldl keep members) := by
  induction n generalizing members s with
  | zero => cases h
  | succ n ih =>
    obtain ⟨⟨member, rest₀⟩, hmember, h⟩ := bind_ok.1 h
    obtain ⟨before, nameText, after, left, text, hbefore, hafter, hleft, hname, htext, hs⟩ := parseMember_sound hvalue hmember
    obtain ⟨right, hright, hrest₀⟩ := skipWhitespace_eq rest₀
    have hfirst : MembersOk d [⟨before, nameText, after, member.1, ⟨left, text, right, member.2⟩⟩] := by
      refine ⟨fun m hm => ?_, fun m hm => ?_, fun m hm => ?_⟩ <;> rw [List.mem_singleton.1 hm]
      · exact ⟨hbefore, hafter, hleft, hright⟩
      · exact hname
      · exact htext
    have hwhole : s = before ++ nameText ++ after ++ 58 :: (left ++ text ++ right) ++ skipWhitespace rest₀ := by
      conv_lhs => rw [hs, hrest₀]
      simp
    dsimp only at h
    split at h
    · cases h
    · rename_i c rest₁ hrest₁
      rw [hrest₁] at hwhole
      split_ifs at h with h44 h125
      · obtain ⟨ms, hne, hok, rfl, rfl⟩ := ih _ _ h
        refine ⟨_ :: ms, List.cons_ne_nil _ _, membersOk_cons.2 ⟨hfirst, hok⟩, ?_, rfl⟩
        rw [hwhole, h44, List.map_cons, List.intercalate_cons_of_ne_nil (by simp [hne])]
        simp [Member.whole, Item.whole]
      · cases h
        refine ⟨[_], List.cons_ne_nil _ _, hfirst, ?_, rfl⟩
        rw [hwhole, h125]
        simp [Member.whole, Item.whole]

theorem parseMembers_complete {ms : List Member} (hne : ms ≠ []) (hok : MembersOk d ms) {n : Nat} (hn : ms.length ≤ n)
    (members : List (Text × JsonValue)) (rest : Text) :
    parseMembers value n members ([44].intercalate (ms.map Member.whole) ++ 125 :: rest) =
      .ok (.object ((ms.map pairOf).foldl keep members), rest) := by
  induction ms generalizing n members with
  | nil => exact absurd rfl hne
  | cons m ms ih =>
    obtain ⟨hm, hok⟩ := membersOk_cons.1 hok
    obtain ⟨hbefore, hafter, hleft, hright⟩ := hm.ws m List.mem_cons_self
    have hname := hm.name m List.mem_cons_self
    have hlax := hm.value m List.mem_cons_self
    obtain ⟨n, rfl⟩ : ∃ k, n = k + 1 := ⟨n - 1, by rw [List.length_cons] at hn; omega⟩
    rw [List.map_cons, parseMembers]
    by_cases hms : ms = []
    · have hs : [44].intercalate (m.whole :: ms.map Member.whole) ++ 125 :: rest =
          m.before ++ m.nameText ++ m.after ++ 58 :: (m.item.left ++ m.item.text ++ (m.item.right ++ 125 :: rest)) := by
        rw [hms]
        simp [Member.whole, Item.whole]
      rw [hs]
      refine bind_ok.2
        ⟨_, parseMember_complete hvalue hbefore hafter hleft hname hlax (ends_ws hright (by decide) rest), ?_⟩
      dsimp only
      rw [skipWhitespace_append hright (by rintro c ⟨⟩; rfl), hms]
      rfl
    · have hs : [44].intercalate (m.whole :: ms.map Member.whole) ++ 125 :: rest =
          m.before ++ m.nameText ++ m.after ++ 58 :: (m.item.left ++ m.item.text ++
            (m.item.right ++ 44 :: ([44].intercalate (ms.map Member.whole) ++ 125 :: rest))) := by
        rw [List.intercalate_cons_of_ne_nil (by simp [hms])]
        simp [Member.whole, Item.whole]
      rw [hs]
      refine bind_ok.2
        ⟨_, parseMember_complete hvalue hbefore hafter hleft hname hlax (ends_ws hright (by decide) _), ?_⟩
      dsimp only
      rw [skipWhitespace_append hright (by rintro c ⟨⟩; rfl)]
      dsimp only
      rw [if_pos rfl]
      exact ih hms hok (by rw [List.length_cons] at hn; omega) _

end

section

variable {d : Nat} {value : Text → Except Failure (JsonValue × Text)}

theorem parseObject_sound (hd : d ≤ maxDepth) (hvalue : Reads (d + 1) value) {s rest : Text} {v : JsonValue} (h : parseObject value s = .ok (v, rest)) :
    ∃ t, Lax d (123 :: t) v ∧ s = t ++ rest := by
  obtain ⟨w, hw, hs⟩ := skipWhitespace_eq s
  unfold parseObject at h
  split at h
  · rename_i rest' hskip
    cases h
    exact ⟨w ++ [125], .emptyObject hd hw, by rw [hs, hskip]; simp⟩
  · obtain ⟨ms, hne, hok, hskip, rfl⟩ := parseMembers_sound hvalue _ _ _ h
    obtain ⟨m, ms, rfl⟩ := List.exists_cons_of_ne_nil hne
    -- the white space in front belongs to the first member
    have hfirst : [44].intercalate (({ m with before := w ++ m.before } :: ms : List Member).map Member.whole) =
        w ++ [44].intercalate ((m :: ms).map Member.whole) := by
      rw [List.map_cons, List.map_cons, Separated.intercalate_cons, Separated.intercalate_cons]
      simp [Member.whole, Item.whole]
    obtain ⟨hm, hok⟩ := membersOk_cons.1 hok
    obtain ⟨hbefore, hrest⟩ := hm.ws m List.mem_cons_self
    have hok' : MembersOk d ({ m with before := w ++ m.before } :: ms) := by
      refine membersOk_cons.2 ⟨⟨fun n hn => ?_, fun n hn => ?_, fun n hn => ?_⟩, hok⟩ <;> rw [List.mem_singleton.1 hn]
      · exact ⟨fun c hc => (List.mem_append.1 hc).elim (hw c) (hbefore c), hrest⟩
      · exact hm.name m List.mem_cons_self
      · exact hm.value m List.mem_cons_self
    refine ⟨w ++ [44].intercalate ((m :: ms).map Member.whole) ++ [125], ?_, ?_⟩
    · have hlax := @ValueText.object Digits maxDepth d ({ m with before := w ++ m.before } :: ms) hd
        (List.cons_ne_nil _ _) hok'.ws hok'.name hok'.value
      rw [hfirst] at hlax
      rw [foldl_keep_nil]
      exact hlax
    · rw [hs, hskip]
      simp

theorem parseObject_empty {w : Text} (hw : Ws w) (rest : Text) : parseObject value (w ++ 125 :: rest) = .ok (.object [], rest) := by
  rw [parseObject, skipWhitespace_append hw (by rintro c ⟨⟩; rfl)]
  rfl

theorem parseObject_members (hvalue : Reads (d + 1) value) {ms : List Member} (hne : ms ≠ []) (hok : MembersOk d ms) (rest : Text) :
    parseObject value ([44].intercalate (ms.map Member.whole) ++ 125 :: rest) =
      .ok (.object (firstOfName (ms.map pairOf)), rest) := by
  obtain ⟨m, ms, rfl⟩ := List.exists_cons_of_ne_nil hne
  obtain ⟨hm, hok⟩ := membersOk_cons.1 hok
  obtain ⟨hbefore, hrest⟩ := hm.ws m List.mem_cons_self
  -- without the white space in front of the first member
  have hfirst : [44].intercalate ((m :: ms).map Member.whole) ++ 125 :: rest =
      m.before ++ ([44].intercalate (({ m with before := [] } :: ms : List Member).map Member.whole) ++ 125 :: rest) := by
    rw [List.map_cons, List.map_cons, Separated.intercalate_cons, Separated.intercalate_cons]
    simp [Member.whole, Item.whole]
  obtain ⟨tail, htail⟩ : ∃ tail, [44].intercalate (({ m with before := [] } :: ms : List Member).map Member.whole) ++
      125 :: rest = 34 :: tail := by
    obtain ⟨body, _, hbody⟩ := stringText_iff.1 (hm.name m List.mem_cons_self)
    rw [List.map_cons, Separated.intercalate_cons, Member.whole, hbody]
    exact ⟨_, rfl⟩
  have hskip : skipWhitespace ([44].intercalate ((m :: ms).map Member.whole) ++ 125 :: rest) = 34 :: tail := by
    rw [hfirst, htail]
    exact skipWhitespace_append hbefore (by rintro c ⟨⟩; rfl)
  have hok' : MembersOk d ({ m with before := [] } :: ms) := by
    refine membersOk_cons.2 ⟨⟨fun n hn => ?_, fun n hn => ?_, fun n hn => ?_⟩, hok⟩ <;> rw [List.mem_singleton.1 hn]
    · exact ⟨fun c hc => absurd hc List.not_mem_nil, hrest⟩
    · exact hm.name m List.mem_cons_self
    · exact hm.value m List.mem_cons_self
  rw [parseObject, hskip]
  show parseMembers value ((34 :: tail).length + 1) [] (34 :: tail) = _
  rw [← htail, parseMembers_complete hvalue (List.cons_ne_nil _ _) hok', foldl_keep_nil]
  · rfl
  · have hle := length_intercalate (({ m with before := [] } :: ms : List Member).map Member.whole)
    simp only [List.length_map, List.length_append, List.length_cons] at hle ⊢
    omega

end

/-! ## Values and texts -/

theorem expect_iff {literal s rest : Text} : expect literal s = .ok rest ↔ s = literal ++ rest := by
  unfold expect
  constructor
  · intro h
    split at h
    · rename_i hprefix
      obtain ⟨tail, rfl⟩ := List.isPrefixOf_iff_prefix.1 hprefix
      rw [List.drop_left] at h
      rw [Except.ok.inj h]
    · cases h
  · rintro rfl
    rw [if_pos (List.isPrefixOf_iff_prefix.2 ⟨rest, rfl⟩), List.drop_left]

/-- With this many levels left the values of this depth are read. -/
theorem parseValue_reads (levels : Nat) : ∀ d, levels + d = maxDepth + 1 → Reads d (parseValue levels) := by
  induction levels with
  | zero =>
    intro d hd
    refine ⟨fun h => (by cases h), fun h => ?_⟩
    exact absurd (valueText_depth h) (by omega)
  | succ levels ih =>
    intro d hlevels
    have hd : d ≤ maxDepth := by omega
    have hvalue := ih (d + 1) (by omega)
    refine ⟨?_, ?_⟩
    · intro s rest v h
      cases s with
      | nil => cases h
      | cons c s =>
        rw [parseValue] at h
        split_ifs at h with h1 h2 h3 h4 h5 h6 h7
        · obtain ⟨t, ht, rfl⟩ := parseObject_sound hd hvalue h
          exact ⟨123 :: t, ht, by rw [h1]; rfl⟩
        · obtain ⟨t, ht, rfl⟩ := parseArray_sound hd hvalue h
          exact ⟨91 :: t, ht, by rw [h2]; rfl⟩
        · obtain ⟨⟨text, rest'⟩, htext, h⟩ := bind_ok.1 h
          cases h
          obtain ⟨body, t, hchars, rfl, rfl⟩ := parseString_sound s [] htext
          exact ⟨34 :: body ++ [34], .string hd (.mk hchars), by rw [h3]; simp⟩
        · obtain ⟨rest', hexpect, h⟩ := bind_ok.1 h
          cases h
          exact ⟨_, .true hd, expect_iff.1 hexpect⟩
        · obtain ⟨rest', hexpect, h⟩ := bind_ok.1 h
          cases h
          exact ⟨_, .false hd, expect_iff.1 hexpect⟩
        · obtain ⟨rest', hexpect, h⟩ := bind_ok.1 h
          cases h
          exact ⟨_, .null hd, expect_iff.1 hexpect⟩
        · obtain ⟨raw, hraw, hs, rfl⟩ := parseNumber_sound h
          exact ⟨raw, .number hd hraw, hs⟩
    · intro t v h rest hrest
      cases h with
      | null _ => exact bind_ok.2 ⟨rest, expect_iff.2 rfl, rfl⟩
      | true _ => exact bind_ok.2 ⟨rest, expect_iff.2 rfl, rfl⟩
      | false _ => exact bind_ok.2 ⟨rest, expect_iff.2 rfl, rfl⟩
      | number _ h =>
        obtain ⟨c, s, rfl, hc⟩ := number_head h
        have hne : ∀ k : UInt8, ¬(k = 45 ∨ 48 ≤ k ∧ k ≤ 57) → c ≠ k := fun k hk heq => hk (heq ▸ hc)
        have hnumber := parseNumber_complete h hrest
        rw [List.cons_append] at hnumber ⊢
        rw [parseValue, if_neg (hne _ (by decide)), if_neg (hne _ (by decide)), if_neg (hne _ (by decide)),
          if_neg (hne _ (by decide)), if_neg (hne _ (by decide)), if_neg (hne _ (by decide)), if_pos hc, hnumber]
      | @string _ s t _ h =>
        obtain ⟨body, hchars, rfl⟩ := stringText_iff.1 h
        have hs : 34 :: body ++ [34] ++ rest = 34 :: (body ++ 34 :: rest) := by simp
        rw [hs]
        exact bind_ok.2 ⟨_, parseString_complete hchars [] rest, rfl⟩
      | @emptyArray _ w _ hw =>
        have hs : 91 :: w ++ [93] ++ rest = 91 :: (w ++ 93 :: rest) := by simp
        rw [hs]
        exact parseArray_empty hw rest
      | @array _ items _ hne hws h =>
        have hs : ∀ t : Text, 91 :: t ++ [93] ++ rest = 91 :: (t ++ 93 :: rest) := fun t => by simp
        rw [hs]
        exact parseArray_items hvalue hne hws h rest
      | @emptyObject _ w _ hw =>
        have hs : 123 :: w ++ [125] ++ rest = 123 :: (w ++ 125 :: rest) := by simp
        rw [hs]
        exact parseObject_empty hw rest
      | @object _ members _ hne hws hname h =>
        have hs : ∀ t : Text, 123 :: t ++ [125] ++ rest = 123 :: (t ++ 125 :: rest) := fun t => by simp
        rw [hs]
        exact parseObject_members hvalue hne ⟨hws, hname, h⟩ rest

theorem parse_eq_ok {text : Text} {v : JsonValue} : parse text = .ok v ↔ parseText text = .ok v := by
  unfold parse
  cases parseText text with
  | ok value => exact ⟨fun h => by rw [Except.ok.inj h], fun h => by rw [Except.ok.inj h]⟩
  | error e => exact ⟨fun h => (by cases h), fun h => (by cases h)⟩

/-- The reader accepts the texts of the grammar whose integer parts are any
    digits. -/
theorem parse_iff_lax (text : Text) (v : JsonValue) : parse text = .ok v ↔ JsonText Digits maxDepth text v := by
  have hreads := parseValue_reads (maxDepth + 1) 0 rfl
  rw [parse_eq_ok]
  constructor
  · intro h
    obtain ⟨⟨value, rest⟩, hvalue, h⟩ := bind_ok.1 h
    obtain ⟨t, ht, hskip⟩ := hreads.sound hvalue
    obtain ⟨left, hleft, htext⟩ := skipWhitespace_eq text
    obtain ⟨right, hright, hrest⟩ := skipWhitespace_eq rest
    dsimp only at h
    split at h
    · rename_i hend
      rw [hend, List.append_nil] at hrest
      rw [htext, hskip, hrest, ← List.append_assoc, ← Except.ok.inj h]
      exact .mk hleft hright ht
    · cases h
  · rintro @⟨left, t, right, _, hleft, hright, ht⟩
    have hend : Ends right := by
      intro c hc
      exact .inl (hright c (List.mem_of_mem_head? hc))
    have hnone : skipWhitespace right = [] := List.dropWhile_eq_nil_iff.2 hright
    unfold parseText
    rw [List.append_assoc, skipWhitespace_value hleft ht]
    refine bind_ok.2 ⟨_, hreads.complete ht hend, ?_⟩
    dsimp only
    rw [hnone, if_pos rfl]

end HMailServer.JsonDocument
