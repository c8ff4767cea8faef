import HMailServer.Mime.FieldScan

/- When `SetParameter` sets the parameter it names, and `RemoveParameter` removes
   it. Both take the first name that begins with the attribute for it: a
   parameter `name2` is found for `name`, and of the sections of RFC 2231 only
   the first is replaced, which `GetParameter` then reads together with the
   others. -/
namespace HMailServer.MimeField
open AnsiString

/-- What is promised of one field value, attribute and value. -/
structure SetsParameter (f : FieldValue) (attr v : AnsiString) : Prop where
  set_get : getParameter (setParameter f.text attr v) attr = some v
  set_other : ∀ b, equalsNoCase b attr = false →
    getParameter (setParameter f.text attr v) b = getParameter f.text b
  remove_get : getParameter (removeParameter f.text attr) attr = none
  remove_other : ∀ b, equalsNoCase b attr = false →
    getParameter (removeParameter f.text attr) b = getParameter f.text b
  remove_value : getValue (removeParameter f.text attr) = getValue f.text

/-- Of the parameters whose names begin with the attribute the first is the
    attribute itself, the others have nothing in their values, and none of the
    attribute's own is written in the encoded form. -/
def OnlyItself (attr : AnsiString) (params : List Parameter) : Prop :=
  match params.filter (Parameter.begins attr) with
  | [] => True
  | p :: rest => equalsNoCase p.base attr = true ∧ (∀ q ∈ rest, q.value.content = []) ∧
      ∀ q ∈ p :: rest, equalsNoCase q.base attr = true → q.encoded = false

/-! ## Base names -/

theorem Parameter.WellFormed.cstr_base {p : Parameter} (h : p.WellFormed) : cstr p.base = p.base :=
  cstr_eq fun c hc => (h.name.chars c ((List.takeWhile_prefix _).subset hc)).2.2.2.1

theorem IsAttribute.cstr {attr : AnsiString} (h : IsAttribute attr) : AnsiString.cstr attr = attr :=
  cstr_eq fun c hc => (h.chars c hc).1.2.2.2.1

/-- A name begins with the attribute exactly if its base does. -/
theorem begins_iff {p : Parameter} {attr : AnsiString} (ha : IsAttribute attr) :
    p.begins attr = true ↔ lower attr <+: lower p.base := by
  have hname : lower p.name = lower p.base ++ lower (p.name.dropWhile (· != 42)) := by
    rw [← lower_append]
    exact congrArg lower List.takeWhile_append_dropWhile.symm
  rw [Parameter.begins, List.isPrefixOf_iff_prefix, hname]
  refine ⟨fun h => Scan.prefix_of_append h fun x hx hmem => ?_, fun h => h.trans (List.prefix_append _ _)⟩
  have hstar : x = 42 := by
    have hdrop := List.head?_dropWhile_not (· != (42 : UInt8)) p.name
    cases hd : p.name.dropWhile (· != 42) with
    | nil =>
      rw [hd] at hx
      cases hx
    | cons c t =>
      rw [hd, List.head?_cons] at hdrop
      rw [hd] at hx
      have hc : c = 42 := by simpa using hdrop
      rw [hc] at hx
      exact (Option.some.inj hx).symm
  obtain ⟨c, hc, hcx⟩ := List.mem_map.1 hmem
  rw [hstar] at hcx
  exact (ha.chars c hc).2 (toLower_eq (by decide) hcx)

theorem begins_of_base {p : Parameter} (hp : p.WellFormed) {attr : AnsiString} (ha : IsAttribute attr)
    (h : equalsNoCase p.base attr = true) : p.begins attr = true := by
  rw [equalsNoCase_iff, hp.cstr_base, ha.cstr] at h
  rw [begins_iff ha, h]

/-- Parameters with one base name begin with the attribute together. -/
theorem begins_of_begins {p q : Parameter} (hp : p.WellFormed) (hq : q.WellFormed) {attr b : AnsiString}
    (ha : IsAttribute attr) (hpb : equalsNoCase p.base b = true) (hqb : equalsNoCase q.base b = true)
    (h : p.begins attr = true) : q.begins attr = true := by
  rw [equalsNoCase_iff, hp.cstr_base] at hpb
  rw [equalsNoCase_iff, hq.cstr_base] at hqb
  rw [begins_iff ha] at h ⊢
  rw [hqb, ← hpb]
  exact h

/-! ## Reading -/

theorem readParameter_congr {attr : AnsiString} {ps qs : List Parameter} (h : named attr ps = named attr qs) :
    readParameter attr ps = readParameter attr qs := by
  rw [readParameter, readParameter, h]

theorem readParameter_eq_none_iff {attr : AnsiString} {ps : List Parameter} :
    readParameter attr ps = none ↔ contents (named attr ps) = [] := by
  unfold readParameter
  split <;> simp_all

theorem contents_eq_nil_iff {ps : List Parameter} : contents ps = [] ↔ ∀ p ∈ ps, p.value.content = [] :=
  List.flatMap_eq_nil_iff

theorem decodeRFC2184_head (s : AnsiString) : (decodeRFC2184 s).head? = some 61 := rfl

theorem trimRight_last {s : AnsiString} {c : UInt8} (h : (trimRight s).getLast? = some c) : isSpace c = false := by
  have hne : trimRight s ≠ [] := by
    intro hnil
    rw [hnil] at h
    cases h
  have hlast := List.rdropWhile_last_not isSpace s hne
  rw [List.getLast?_eq_some_getLast hne] at h
  rw [← Option.some.inj h]
  simpa [trimRight] using hlast

/-- What is read is never empty. -/
theorem readParameter_ne_nil (attr : AnsiString) (ps : List Parameter) : readParameter attr ps ≠ some [] := by
  unfold readParameter
  split
  · simp
  rename_i hne
  rw [ne_eq, Option.some.injEq]
  split
  · rw [trimLeft, List.dropWhile_eq_nil_iff]
    intro hall
    exact absurd (hall 61 (List.mem_of_mem_head? (decodeRFC2184_head _))) (by decide)
  · rw [trimLeft, List.dropWhile_eq_nil_iff]
    intro hall
    obtain ⟨p, hp, hcontent⟩ : ∃ p ∈ named attr ps, p.value.content ≠ [] := by
      by_contra hno
      push Not at hno
      exact hne (contents_eq_nil_iff.2 hno)
    obtain ⟨c, hc⟩ : ∃ c, p.value.content.getLast? = some c := ⟨_, List.getLast?_eq_some_getLast hcontent⟩
    have hspace := hall c (List.mem_flatMap.2 ⟨p, hp, List.mem_of_getLast? hc⟩)
    cases hv : p.value with
    | token s =>
      rw [hv] at hc
      rw [trimRight_last hc] at hspace
      cases hspace
    | quoted s =>
      rw [hv] at hc
      rw [trimRight_last hc] at hspace
      cases hspace

/-! ## Decoding never gives what was set -/

theorem length_decodePercent (s : AnsiString) : s.length ≤ (decodePercent s).length + 2 := by
  fun_induction decodePercent s with
  | case1 => exact Nat.zero_le _
  | case2 => simp
  | case3 => simp
  | case4 d => simp
  | case5 c d h ih =>
    simp only [List.length_cons, List.length_nil] at ih ⊢
    omega
  | case6 d e rest ih =>
    simp only [List.length_cons]
    omega
  | case7 c d e rest h ih =>
    simp only [List.length_cons] at ih ⊢
    omega

/-- The decoder puts two characters in front of the character set, so that its
    answer has no apostrophe where its input has the first one. -/
theorem decodeRFC2184_ne (v more : AnsiString) : decodeRFC2184 (v ++ more) ≠ v := by
  intro h
  have hlen := congrArg List.length h
  unfold decodeRFC2184 at h hlen
  cases hfind : (v ++ more).findIdx? (· == 39) with
  | none =>
    have hno : findApostrophe (v ++ more) 0 = -1 := by
      rw [findApostrophe, List.drop_zero, hfind]
    have hdecoded := length_decodePercent (v ++ more)
    rw [hno] at hlen
    simp [hno, ansi] at hlen hdecoded
    omega
  | some i =>
    have hcharset : findApostrophe (v ++ more) 0 = i := by
      simp [findApostrophe, hfind]
    obtain ⟨hi, hquote, hfirst⟩ := List.findIdx?_eq_some_iff_getElem.1 hfind
    rw [hcharset] at h hlen
    simp only [Int.toNat_natCast] at h hlen
    -- The character set with what stands in front of it.
    obtain ⟨tail, htail⟩ : ∃ tail, v = [61, 63] ++ (v ++ more).take i ++ tail :=
      ⟨_, by rw [List.append_assoc, List.append_assoc] at h; exact h.symm⟩
    have hlength : i + 2 ≤ v.length := by
      simp [ansi] at hlen hi
      omega
    have hat : v[i]? = some 39 := by
      have happend : (v ++ more)[i]? = v[i]? := List.getElem?_append_left (by omega)
      rw [← happend, List.getElem?_eq_getElem hi]
      simpa using hquote
    rw [htail, List.getElem?_append_left (by simp; omega)] at hat
    rcases i with _ | _ | j
    · simp at hat
    · simp at hat
    · have hj := hfirst j (by omega)
      simp [List.getElem?_eq_getElem (by omega : j < (v ++ more).length)] at hat
      simp [hat] at hj

/-! ## Reading what was set -/

variable {f : FieldValue} {attr v : AnsiString}

theorem Settable.trimLeft_append (hv : Settable v) (hne : v ≠ []) (more : AnsiString) :
    trimLeft (v ++ more) = v ++ more := by
  cases v with
  | nil => exact absurd rfl hne
  | cons c rest =>
    rw [trimLeft, List.cons_append, List.dropWhile_cons_of_neg]
    simp [hv.first c rfl]

theorem Settable.content (hv : Settable v) : (ParameterValue.quoted v).content = v := by
  rw [ParameterValue.content, trimRight, List.rdropWhile_eq_self_iff]
  intro hne
  simpa using hv.last _ (List.getLast?_eq_some_getLast hne)

/-- What stands in the first of the parameters is read, if nothing in the others
    comes in its way. -/
theorem readParameter_set_iff (hv : Settable v) (hne : v ≠ []) {params rest : List Parameter} {p : Parameter}
    (hnamed : named attr params = p :: rest) (hp : p.value = .quoted v) :
    readParameter attr params = some v ↔
      (∀ q ∈ rest, q.value.content = []) ∧ ∀ q ∈ p :: rest, q.encoded = false := by
  have hcontents : contents (named attr params) = v ++ contents rest := by
    rw [hnamed, contents, List.flatMap_cons, ← contents, hp, hv.content]
  have hnil : v ++ contents rest ≠ [] := fun h => hne (List.append_eq_nil_iff.1 h).1
  rw [readParameter, hcontents, if_neg hnil, Option.some.injEq, ← contents_eq_nil_iff, hnamed]
  cases hencoded : (p :: rest).any Parameter.encoded with
  | false =>
    have hno : ∀ q ∈ p :: rest, q.encoded = false := by simpa [-List.any_cons] using hencoded
    rw [if_neg Bool.false_ne_true, hv.trimLeft_append hne, List.append_right_eq_self]
    exact (and_iff_left hno).symm
  | true =>
    obtain ⟨q, hq, hqe⟩ := List.any_eq_true.1 hencoded
    have htrim : trimLeft (decodeRFC2184 (v ++ contents rest)) = decodeRFC2184 (v ++ contents rest) := rfl
    rw [if_pos rfl, htrim]
    constructor
    · exact fun h => absurd h (decodeRFC2184_ne v _)
    · intro h
      rw [h.2 q hq] at hqe
      cases hqe

/-! ## The parameters that begin with the attribute -/

theorem IsAttribute.added_wellFormed (ha : IsAttribute attr) (hv : Settable v) : (added attr v).WellFormed where
  name :=
    { ne_nil := ha.ne_nil
      base := fun h => (ha.chars 42 (List.mem_of_mem_head? h)).2 rfl
      chars := fun c hc => (ha.chars c hc).1 }
  value := hv.chars

theorem IsAttribute.added_base (ha : IsAttribute attr) : (added attr v).base = attr := by
  change attr.takeWhile (· != 42) = attr
  rw [List.takeWhile_eq_self_iff]
  exact fun c hc => bne_iff_ne.2 (ha.chars c hc).2

/-- The attribute's own parameters are among those that begin with it. -/
theorem named_begins {params : List Parameter} (hwf : ∀ p ∈ params, p.WellFormed) (ha : IsAttribute attr) :
    named attr (params.filter (Parameter.begins attr)) = named attr params := by
  rw [named, List.filter_filter, named]
  apply List.filter_congr
  intro p hp
  cases hbase : equalsNoCase p.base attr with
  | false => rfl
  | true => simp [begins_of_base (hwf p hp) ha hbase]

/-- The parameters of one base name stay together in the removal. -/
theorem named_removed {params : List Parameter} (hwf : ∀ p ∈ params, p.WellFormed) (ha : IsAttribute attr)
    {b : AnsiString} {q : Parameter} (hq : q ∈ params) (hqa : q.begins attr = true)
    (hqb : equalsNoCase q.base b = true) : named b (params.filter fun p => !p.begins attr) = [] := by
  rw [named, List.filter_filter, List.filter_eq_nil_iff]
  intro p hp
  rw [Bool.and_eq_true, not_and]
  intro hpb
  rw [begins_of_begins (hwf q hq) (hwf p hp) ha hqb hpb hqa]
  exact Bool.false_ne_true

theorem named_kept {params : List Parameter} {b : AnsiString}
    (hno : ∀ q ∈ params, q.begins attr = true → equalsNoCase q.base b = false) :
    named b (params.filter fun p => !p.begins attr) = named b params := by
  rw [named, List.filter_filter, named]
  apply List.filter_congr
  intro p hp
  cases hbegins : p.begins attr with
  | false => simp
  | true => simp [hno p hp hbegins]

/-! ## The claim of one field value -/

theorem removed_wellFormed (hf : f.WellFormed) (attr : AnsiString) :
    FieldValue.WellFormed ⟨f.type, f.params.filter fun p => !p.begins attr⟩ :=
  hf.of_params fun p hp => hf.params p (List.mem_of_mem_filter hp)

section
variable (hf : f.WellFormed) (ha : IsAttribute attr)
include hf ha

/-- The removal leaves nothing to read under the attribute's name. -/
theorem remove_get : getParameter (removeParameter f.text attr) attr = none := by
  have hwf := removed_wellFormed hf attr
  rw [removeParameter_text hf ha, getParameter_text hwf, readParameter_eq_none_iff, contents_eq_nil_iff]
  intro p hp
  obtain ⟨hp, hbase⟩ := List.mem_filter.1 hp
  obtain ⟨hp, hbegins⟩ := List.mem_filter.1 hp
  rw [begins_of_base (hf.params p hp) ha hbase] at hbegins
  cases hbegins

/-- The removal takes with it only parameters in which there is nothing to
    read. -/
theorem remove_other_iff : (∀ b, equalsNoCase b attr = false →
      getParameter (removeParameter f.text attr) b = getParameter f.text b) ↔
    ∀ q ∈ f.params, q.begins attr = true → equalsNoCase q.base attr = false → q.value.content = [] := by
  have hwf := removed_wellFormed hf attr
  rw [removeParameter_text hf ha]
  simp only [getParameter_text hwf, getParameter_text hf]
  constructor
  · intro h q hq hbegins hbase
    have hgone : readParameter q.base (f.params.filter fun p => !p.begins attr) = none := by
      rw [readParameter_eq_none_iff, named_removed hf.params ha hq hbegins (equalsNoCase_refl _)]
      rfl
    have hnone := (h q.base hbase).symm.trans hgone
    rw [readParameter_eq_none_iff, contents_eq_nil_iff] at hnone
    exact hnone q (List.mem_filter.2 ⟨hq, equalsNoCase_refl _⟩)
  · intro h b hb
    by_cases hex : ∃ q ∈ f.params, q.begins attr = true ∧ equalsNoCase q.base b = true
    · obtain ⟨q, hq, hbegins, hbase⟩ := hex
      -- All parameters of this name go, and there was nothing in them.
      have hgone : readParameter b (f.params.filter fun p => !p.begins attr) = none := by
        rw [readParameter_eq_none_iff, named_removed hf.params ha hq hbegins hbase]
        rfl
      rw [hgone, eq_comm, readParameter_eq_none_iff, contents_eq_nil_iff]
      intro p hp
      obtain ⟨hp, hpb⟩ := List.mem_filter.1 hp
      apply h p hp (begins_of_begins (hf.params q hq) (hf.params p hp) ha hbase hpb hbegins)
      rw [equalsNoCase_trans hpb, hb]
    · push Not at hex
      exact readParameter_congr (named_kept fun q hq hbegins => by simpa using hex q hq hbegins)

theorem remove_value : getValue (removeParameter f.text attr) = getValue f.text := by
  have hwf := removed_wellFormed hf attr
  rw [removeParameter_text hf ha, getValue_text hwf, getValue_text hf]

/-- Where no name begins with the attribute the parameter is added. -/
theorem getParameter_added (hv : Settable v) (hnone : ∀ p ∈ f.params, p.begins attr = false) (b : AnsiString) :
    getParameter (setParameter f.text attr v) b = readParameter b (f.params ++ [added attr v]) := by
  have hwf : ∀ p ∈ f.params ++ [added attr v], p.WellFormed := by
    intro p hp
    rcases List.mem_append.1 hp with hp | hp
    · exact hf.params p hp
    · rw [List.mem_singleton.1 hp]
      exact ha.added_wellFormed hv
  rw [setParameter_none hf ha hnone hv, getParameter_text (hf.of_params hwf)]

/-- Where a name begins with the attribute the first one's value is replaced. -/
theorem getParameter_replaced (hv : Settable v) {pre post : List Parameter} {p : Parameter}
    (hparams : f.params = pre ++ p :: post) (hpre : ∀ q ∈ pre, q.begins attr = false) (hp : p.begins attr = true) :
    (∀ q ∈ pre ++ { p with value := .quoted v } :: post, q.WellFormed) ∧
    ∀ b, getParameter (setParameter f.text attr v) b =
      readParameter b (pre ++ { p with value := .quoted v } :: post) := by
  have hwf : ∀ q ∈ pre ++ { p with value := .quoted v } :: post, q.WellFormed := by
    intro q hq
    simp only [List.mem_append, List.mem_cons] at hq
    rcases hq with hq | rfl | hq
    · exact hf.params q (by simp [hparams, hq])
    · exact ⟨(hf.params p (by simp [hparams])).name, hv.chars⟩
    · exact hf.params q (by simp [hparams, hq])
  refine ⟨hwf, fun b => ?_⟩
  rw [setParameter_first hf ha hparams hpre hp hv, getParameter_text (hf.of_params hwf)]

/-- An empty value cannot be read back. -/
theorem getParameter_set_ne_nil (hv : Settable v) : getParameter (setParameter f.text attr v) attr ≠ some [] := by
  rcases first_begins attr f.params with hnone | ⟨pre, p, post, hparams, hpre, hp⟩
  · rw [getParameter_added hf ha hv hnone]
    exact readParameter_ne_nil _ _
  · rw [(getParameter_replaced hf ha hv hparams hpre hp).2]
    exact readParameter_ne_nil _ _

theorem setsParameter_none (hv : Settable v) (hne : v ≠ []) (hnone : ∀ p ∈ f.params, p.begins attr = false) :
    SetsParameter f attr v := by
  have hget := getParameter_added hf ha hv hnone
  have hnamed : named attr f.params = [] := by
    rw [named, List.filter_eq_nil_iff]
    intro p hp hbase
    have hbegins := begins_of_base (hf.params p hp) ha hbase
    rw [hnone p hp] at hbegins
    cases hbegins
  constructor
  · have hown : named attr (f.params ++ [added attr v]) = [added attr v] := by
      rw [named, List.filter_append, ← named, hnamed, List.nil_append, List.filter_cons, ha.added_base,
        equalsNoCase_refl, if_pos rfl]
      rfl
    have hplain : (added attr v).encoded = false := by
      rw [Parameter.encoded, Bool.and_eq_false_iff]
      right
      rw [beq_eq_false_iff_ne]
      exact fun h => (ha.chars 42 (List.mem_of_getLast? h)).2 rfl
    rw [hget, readParameter_set_iff hv hne hown rfl]
    exact ⟨fun q hq => absurd hq List.not_mem_nil, fun q hq => by rw [List.mem_singleton.1 hq, hplain]⟩
  · intro b hb
    rw [hget, getParameter_text hf]
    apply readParameter_congr
    rw [named, List.filter_append, ← named, List.filter_cons, ha.added_base, equalsNoCase_comm, hb]
    simp
  · exact remove_get hf ha
  · rw [remove_other_iff hf ha]
    intro q hq hbegins
    rw [hnone q hq] at hbegins
    cases hbegins
  · exact remove_value hf ha

theorem setsParameter_first_iff (hv : Settable v) (hne : v ≠ []) {pre post : List Parameter} {p : Parameter}
    (hparams : f.params = pre ++ p :: post) (hpre : ∀ q ∈ pre, q.begins attr = false) (hp : p.begins attr = true) :
    SetsParameter f attr v ↔ OnlyItself attr f.params := by
  let p' := { p with value := ParameterValue.quoted v }
  have hmem : ∀ q, q ∈ f.params ↔ q ∈ pre ∨ q = p ∨ q ∈ post := by simp [hparams]
  obtain ⟨hwf', hget⟩ : (∀ q ∈ pre ++ p' :: post, q.WellFormed) ∧
      ∀ b, getParameter (setParameter f.text attr v) b = readParameter b (pre ++ p' :: post) :=
    getParameter_replaced hf ha hv hparams hpre hp
  have hbegins : ∀ q : Parameter, q.begins attr = true →
      (pre ++ q :: post).filter (Parameter.begins attr) = q :: post.filter (Parameter.begins attr) := by
    intro q hq
    rw [List.filter_append, List.filter_eq_nil_iff.2 fun r hr => by simp [hpre r hr], List.nil_append,
      List.filter_cons, if_pos hq]
  have hnamed' : equalsNoCase p.base attr = true →
      named attr (pre ++ p' :: post) = p' :: named attr (post.filter (Parameter.begins attr)) := by
    intro hbase
    rw [← named_begins hwf' ha, hbegins p' hp, named, List.filter_cons, if_pos (show equalsNoCase p'.base attr = true from hbase)]
    rfl
  rw [OnlyItself, hparams, hbegins p hp]
  constructor
  · intro h
    have hblank := (remove_other_iff hf ha).1 h.remove_other
    have hbase : equalsNoCase p.base attr = true := by
      -- Else the value has gone into a parameter of another name.
      by_contra hother
      rw [Bool.not_eq_true] at hother
      have hbefore : readParameter p.base f.params = none := by
        rw [readParameter_eq_none_iff, contents_eq_nil_iff]
        intro q hq
        obtain ⟨hq, hqb⟩ := List.mem_filter.1 hq
        have hpwf := hf.params p ((hmem p).2 (.inr (.inl rfl)))
        apply hblank q hq (begins_of_begins hpwf (hf.params q hq) ha (equalsNoCase_refl _) hqb hp)
        rw [equalsNoCase_trans hqb, hother]
      have hset := h.set_other p.base hother
      rw [hget, getParameter_text hf, hbefore, readParameter_eq_none_iff, contents_eq_nil_iff] at hset
      have hcontent := hset p' (List.mem_filter.2 ⟨by simp, equalsNoCase_refl _⟩)
      exact hne (hv.content.symm.trans hcontent)
    have hown := h.set_get
    rw [hget, readParameter_set_iff hv hne (hnamed' hbase) rfl] at hown
    obtain ⟨hrest, hplain⟩ := hown
    refine ⟨hbase, ?_, ?_⟩
    · intro q hq
      cases hqb : equalsNoCase q.base attr with
      | true => exact hrest q (List.mem_filter.2 ⟨hq, hqb⟩)
      | false =>
        obtain ⟨hq, hqbegins⟩ := List.mem_filter.1 hq
        exact hblank q ((hmem q).2 (.inr (.inr hq))) hqbegins hqb
    · intro q hq hqb
      rcases List.mem_cons.1 hq with rfl | hq
      · exact hplain p' List.mem_cons_self
      · exact hplain q (List.mem_cons_of_mem _ (List.mem_filter.2 ⟨hq, hqb⟩))
  · rintro ⟨hbase, hrest, hplain⟩
    constructor
    · rw [hget, readParameter_set_iff hv hne (hnamed' hbase) rfl]
      refine ⟨fun q hq => hrest q (List.mem_of_mem_filter hq), ?_⟩
      intro q hq
      rcases List.mem_cons.1 hq with rfl | hq
      · exact hplain p List.mem_cons_self hbase
      · obtain ⟨hq, hqb⟩ := List.mem_filter.1 hq
        exact hplain q (List.mem_cons_of_mem _ hq) hqb
    · intro b hb
      have hpb : equalsNoCase p.base b = false := by
        rw [equalsNoCase_trans hbase, equalsNoCase_comm, hb]
      rw [hget, getParameter_text hf, hparams]
      apply readParameter_congr
      simp [named, hpb, show p'.base = p.base from rfl]
    · exact remove_get hf ha
    · rw [remove_other_iff hf ha]
      intro q hq hqbegins hqb
      rcases (hmem q).1 hq with hq | rfl | hq
      · rw [hpre q hq] at hqbegins
        cases hqbegins
      · rw [hbase] at hqb
        cases hqb
      · exact hrest q (List.mem_filter.2 ⟨hq, hqbegins⟩)
    · exact remove_value hf ha

end

/-- A parameter is set, and the others are left alone, exactly if the value is
    not empty and the scan finds nothing but the attribute's own parameter. -/
theorem set_parameter_sets_iff (hf : f.WellFormed) (ha : IsAttribute attr) (hv : Settable v) :
    SetsParameter f attr v ↔ v ≠ [] ∧ OnlyItself attr f.params := by
  by_cases hne : v = []
  · constructor
    · intro h
      have hget := h.set_get
      rw [hne] at hv hget
      exact absurd hget (getParameter_set_ne_nil hf ha hv)
    · exact fun h => absurd hne h.1
  rw [and_iff_right hne]
  rcases first_begins attr f.params with hnone | ⟨pre, p, post, hparams, hpre, hp⟩
  · refine ⟨fun _ => ?_, fun _ => setsParameter_none hf ha hv hne hnone⟩
    rw [OnlyItself, List.filter_eq_nil_iff.2 fun p hp => by simp [hnone p hp]]
    trivial
  · exact setsParameter_first_iff hf ha hv hne hparams hpre hp

/-- `attachment; name2=x`. -/
def otherName : FieldValue := ⟨ansi "attachment", [⟨1, ansi "name2", 0, 0, .token (ansi "x")⟩]⟩

theorem otherName_wellFormed : otherName.WellFormed where
  type_chars := by decide +kernel
  type_last := fun c hc => by
    cases hc
    rfl
  params := by
    intro p hp
    rw [List.mem_singleton.1 hp]
    refine ⟨⟨by decide, by decide, by decide +kernel⟩, by decide, by decide +kernel, fun c hc => ?_⟩
    cases hc
    rfl

theorem isAttribute_name : IsAttribute (ansi "name") := ⟨by decide, by decide +kernel⟩

theorem settable_y : Settable (ansi "y") where
  chars := by decide +kernel
  first := fun c hc => by
    cases hc
    rfl
  last := fun c hc => by
    cases hc
    rfl

theorem set_parameter_size_sets_iff : SetsParameter otherName (ansi "size") (ansi "y") ↔
    ansi "y" ≠ [] ∧ OnlyItself (ansi "size") otherName.params :=
  set_parameter_sets_iff otherName_wellFormed ⟨by decide, by decide +kernel⟩ settable_y

/-- `name` is written into `name2`, and neither can be read afterwards as it
    should. -/
theorem set_parameter_name_lost : otherName.WellFormed ∧ IsAttribute (ansi "name") ∧ Settable (ansi "y") ∧
    otherName.text = ansi "attachment; name2=x" ∧
    setParameter otherName.text (ansi "name") (ansi "y") = ansi "attachment; name2=\"y\"" ∧
    ¬ SetsParameter otherName (ansi "name") (ansi "y") := by
  refine ⟨otherName_wellFormed, isAttribute_name, settable_y, by decide, by decide, fun h => ?_⟩
  exact absurd h.set_get (by decide)

end HMailServer.MimeField
