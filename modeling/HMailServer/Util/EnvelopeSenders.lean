import HMailServer.Util.BATV

/- Rewritten envelope senders come back: what `Reverse` and `Verify` answer for
   an address that `Forward` or `Sign` made, and for which accepted addresses
   `Forward` or `Sign` would make the same tag again. -/
namespace HMailServer
open Cut

/-- What the code relies on of the digest: sixty-four hexadecimal digits have
    eight characters to take, and none of them is `=` or NUL. -/
def SigningEnvironment.HexDigest (env : SigningEnvironment) : Prop :=
  ∀ secret text, 8 ≤ (env.computeHMACSHA256Hex secret text).length ∧
    ∀ c ∈ env.computeHMACSHA256Hex secret text, c ≠ 61 ∧ c ≠ 0

/-- The keyed hash, cut to `n` characters and read without case, determines the
    text it is of. -/
def SigningEnvironment.InjectiveHash (env : SigningEnvironment) (n : Nat) (secret : WString) : Prop :=
  ∀ x y, WString.equalsNoCase ((env.computeHMACSHA256Hex (env.toAnsi secret) x).take n)
    ((env.computeHMACSHA256Hex (env.toAnsi secret) y).take n) = true → x = y

namespace WString

theorem equalsNoCase_refl (s : WString) : equalsNoCase s s = true := beq_self_eq_true _

theorem equalsNoCase_comm (s t : WString) : equalsNoCase s t = equalsNoCase t s := Bool.beq_comm

theorem equalsNoCase_trans {s t u : WString} (h : equalsNoCase s t = true) (h' : equalsNoCase t u = true) :
    equalsNoCase s u = true := by
  rw [equalsNoCase, beq_iff_eq] at *
  exact h.trans h'

theorem equalsNoCase_cstr (s t : WString) : equalsNoCase (cstr s) t = equalsNoCase s t := by
  have h : cstr (cstr s) = cstr s := by
    rw [cstr, cstr, List.takeWhile_idem]
  rw [equalsNoCase, equalsNoCase, h]

theorem zero_notMem_cstr (s : WString) : 0 ∉ cstr s := by
  intro h
  have hne := List.mem_takeWhile_imp h
  simp at hne

theorem cstr_eq {s : WString} (h : 0 ∉ s) : cstr s = s := by
  rw [cstr, List.takeWhile_eq_self_iff]
  intro c hc
  have hne : c ≠ 0 := fun e => h (e ▸ hc)
  simpa using hne

end WString

/-! ## SRS -/

namespace SRS

variable {env : SigningEnvironment}

/-- The days between two clocks, on a wheel of 1024. -/
def InWindow (now now' : Nat) : Prop :=
  ((now' / 86400 : Nat) - (now / 86400 : Nat) : Int) % 1024 ≤ 21 ∨
    ((now' / 86400 : Nat) - (now / 86400 : Nat) : Int) % 1024 = 1023

instance (now now' : Nat) : Decidable (InWindow now now') := inferInstanceAs (Decidable (_ ∨ _))

theorem timeSlotInRange_iff (now now' : Nat) :
    timeSlotInRange now' (currentTimeSlot now) = true ↔ InWindow now now' := by
  have key : ∀ d d' : Nat,
      (((if ((d' % 1024 : Nat) : Int) - (d % 1024 : Nat) < 0 then ((d' % 1024 : Nat) : Int) - (d % 1024 : Nat) + 1024
        else ((d' % 1024 : Nat) : Int) - (d % 1024 : Nat)) ≤ 21 ∨
        1023 ≤ (if ((d' % 1024 : Nat) : Int) - (d % 1024 : Nat) < 0
          then ((d' % 1024 : Nat) : Int) - (d % 1024 : Nat) + 1024
          else ((d' % 1024 : Nat) : Int) - (d % 1024 : Nat))) ↔
      (((d' : Int) - d) % 1024 ≤ 21 ∨ ((d' : Int) - d) % 1024 = 1023)) := by
    intro d d'
    split <;> omega
  rw [timeSlotInRange, Bool.or_eq_true, decide_eq_true_eq, decide_eq_true_eq]
  exact key (now / 86400) (now' / 86400)

theorem inWindow_self (now : Nat) : InWindow now now := by
  left
  rw [sub_self]
  decide

theorem findIdx_letter : ∀ i < 32, base32Alphabet.findIdx? (· == base32Alphabet.getD i 0) = some i := by decide

theorem decode_encode {slot : Nat} (h : slot < 1024) : decodeTimeSlot (encodeTimeSlot slot) = some slot := by
  unfold encodeTimeSlot decodeTimeSlot
  dsimp only
  rw [Nat.mod_eq_of_lt h, findIdx_letter _ (by omega), findIdx_letter _ (Nat.mod_lt _ (by decide))]
  dsimp only
  rw [Nat.div_add_mod']

theorem currentTimeSlot_lt (now : Nat) : currentTimeSlot now < 1024 := Nat.mod_lt _ (by decide)

theorem decode_spec {tt : WString} {slot : Nat} (h : decodeTimeSlot tt = some slot) :
    slot < 1024 ∧ encodeTimeSlot slot = tt := by
  unfold decodeTimeSlot at h
  split at h
  · rename_i hi lo
    split at h
    · rename_i high low hhigh hlow
      cases h
      obtain ⟨hlt, heq, _⟩ := List.findIdx?_eq_some_iff_getElem.1 hhigh
      obtain ⟨hlt', heq', _⟩ := List.findIdx?_eq_some_iff_getElem.1 hlow
      have hlen : base32Alphabet.length = 32 := by decide
      have hb : high < 32 := hlen ▸ hlt
      have hb' : low < 32 := hlen ▸ hlt'
      have hdiv : (high * 32 + low) % 1024 / 32 = high := by omega
      have hmod : (high * 32 + low) % 1024 % 32 = low := by omega
      refine ⟨by omega, ?_⟩
      rw [encodeTimeSlot, hdiv, hmod, List.getD_eq_getElem _ _ hlt, List.getD_eq_getElem _ _ hlt',
        beq_iff_eq.1 heq, beq_iff_eq.1 heq']
    · cases h
  · cases h

theorem letter_chars : ∀ i < 32, base32Alphabet.getD i 0 ≠ 61 ∧ base32Alphabet.getD i 0 ≠ 0 := by decide

theorem encodeTimeSlot_chars (slot : Nat) :
    61 ∉ encodeTimeSlot slot ∧ 0 ∉ encodeTimeSlot slot ∧ encodeTimeSlot slot ≠ [] := by
  have hlt : slot % 1024 / 32 < 32 := by omega
  obtain ⟨hhigh, hhigh0⟩ := letter_chars _ hlt
  obtain ⟨hlow, hlow0⟩ := letter_chars (slot % 1024 % 32) (Nat.mod_lt _ (by decide))
  refine ⟨?_, ?_, List.cons_ne_nil _ _⟩
  · simp only [encodeTimeSlot, List.mem_cons, List.not_mem_nil, or_false, not_or]
    exact ⟨hhigh.symm, hlow.symm⟩
  · simp only [encodeTimeSlot, List.mem_cons, List.not_mem_nil, or_false, not_or]
    exact ⟨hhigh0.symm, hlow0.symm⟩

theorem computeHash_chars (hhex : env.HexDigest) (secret tt d l : WString) :
    61 ∉ computeHash env secret tt d l ∧ 0 ∉ computeHash env secret tt d l ∧ computeHash env secret tt d l ≠ [] := by
  obtain ⟨hlen, hchars⟩ := hhex (env.toAnsi secret) (canonical env tt d l)
  refine ⟨fun h => ?_, fun h => ?_, fun h => ?_⟩
  · exact (hchars 61 (List.mem_of_mem_take h)).1 rfl
  · exact (hchars 0 (List.mem_of_mem_take h)).2 rfl
  · have hzero := congrArg List.length h
    rw [computeHash, List.length_take, List.length_nil] at hzero
    simp only [hashHexLength] at hzero
    omega

/-- The text in front of the forwarder of an SRS0 address with these fields. -/
def localPart (hash tt d l : WString) : WString := wide "SRS0=" ++ hash ++ 61 :: tt ++ 61 :: d ++ 61 :: l

theorem splitPayload_fields {hash tt d l : WString} (hne : hash ≠ []) (hh : 61 ∉ hash) (ht : 61 ∉ tt) (hd : 61 ∉ d) :
    splitPayload (hash ++ 61 :: (tt ++ 61 :: (d ++ 61 :: l))) = some (hash, tt, d, l) := by
  rw [splitPayload, cut_append hh]
  dsimp only
  rw [if_neg hne, cut_append ht]
  dsimp only
  rw [cut_append hd]

theorem splitPayload_spec {payload hash tt d l : WString} (h : splitPayload payload = some (hash, tt, d, l)) :
    payload = hash ++ 61 :: (tt ++ 61 :: (d ++ 61 :: l)) ∧ 61 ∉ d := by
  unfold splitPayload at h
  split at h
  · cases h
  rename_i hash' rest hcut
  split at h
  · cases h
  split at h
  · cases h
  rename_i tt' rest' hcut'
  split at h
  · cases h
  rename_i d' l' hcut''
  cases h
  obtain ⟨h1, _⟩ := eq_of_cut hcut
  obtain ⟨h2, _⟩ := eq_of_cut hcut'
  obtain ⟨h3, hd⟩ := eq_of_cut hcut''
  exact ⟨by rw [h1, h2, h3], hd⟩

theorem localPart_drop (hash tt d l : WString) :
    (localPart hash tt d l).drop 5 = hash ++ 61 :: (tt ++ 61 :: (d ++ 61 :: l)) := by
  have h5 : (wide "SRS0=").length = 5 := by decide
  rw [localPart, List.append_assoc, List.append_assoc, List.append_assoc]
  simp only [List.cons_append]
  exact List.drop_left' h5

/-- `Reverse` on an address with these fields. -/
theorem reverse_fields (now : Nat) {secret hash tt d l fwd : WString} (hsecret : secret ≠ []) (hne : hash ≠ [])
    (hh : 61 ∉ hash) (htne : tt ≠ []) (ht : 61 ∉ tt) (hdne : d ≠ []) (hd : 61 ∉ d) (hl : l ≠ []) (hf : 64 ∉ fwd) :
    reverse env now (localPart hash tt d l ++ 64 :: fwd) secret =
      if !WString.equalsNoCase (computeHash env secret tt d l) hash then none
      else match decodeTimeSlot tt with
        | none => none
        | some slot => if timeSlotInRange now slot then some (l ++ 64 :: d) else none := by
  have hcut : cutLast 64 (localPart hash tt d l ++ 64 :: fwd) = some (localPart hash tt d l, fwd) := cutLast_append hf
  have his : isSRS0 (localPart hash tt d l ++ 64 :: fwd) = true := by
    unfold isSRS0
    rw [hcut]
    simp [localPart, wide, WString.equalsNoCase, WString.cstr, WString.classicLower]
  unfold reverse
  rw [if_neg (by simp [hsecret, his]), hcut]
  dsimp only [Option.map_some, Option.getD_some]
  rw [localPart_drop, splitPayload_fields hne hh ht hd]
  exact if_neg (by simp [htne, hdne, hl])

theorem forward_eq {now : Nat} {m fwd secret l d : WString} (hm : cutLast 64 m = some (l, d)) (hl : l ≠ [])
    (hd : d ≠ []) (hf : fwd ≠ []) (hs : secret ≠ []) :
    forward env now m fwd secret =
      formatAddress (computeHash env secret (encodeTimeSlot (currentTimeSlot now)) d l)
        (encodeTimeSlot (currentTimeSlot now)) d l fwd := by
  have hne : m ≠ [] := by
    intro h
    rw [h] at hm
    cases hm
  unfold forward
  rw [if_neg (by simp [hne, hf, hs]), hm]
  dsimp only
  rw [if_neg (by simp [hl, hd])]

theorem forward_localPart (hhex : env.HexDigest) {now : Nat} {m fwd secret l d : WString}
    (hm : cutLast 64 m = some (l, d)) (hl : l ≠ []) (hd : d ≠ []) (hf : fwd ≠ []) (hs : secret ≠ []) :
    forward env now m fwd secret =
      localPart (computeHash env secret (encodeTimeSlot (currentTimeSlot now)) d l)
        (encodeTimeSlot (currentTimeSlot now)) (WString.cstr d) (WString.cstr l) ++ 64 :: WString.cstr fwd := by
  obtain ⟨_, ht0, _⟩ := encodeTimeSlot_chars (currentTimeSlot now)
  obtain ⟨_, hh0, _⟩ := computeHash_chars hhex secret (encodeTimeSlot (currentTimeSlot now)) d l
  rw [forward_eq hm hl hd hf hs, formatAddress, WString.cstr_eq hh0, WString.cstr_eq ht0, localPart]

theorem forward_ne_nil {now : Nat} {m fwd secret : WString} (h : forward env now m fwd secret ≠ []) :
    fwd ≠ [] ∧ secret ≠ [] ∧ ∃ l d, cutLast 64 m = some (l, d) ∧ l ≠ [] ∧ d ≠ [] := by
  unfold forward at h
  split at h
  · exact absurd rfl h
  rename_i hargs
  simp only [not_or] at hargs
  split at h
  · exact absurd rfl h
  rename_i l d hm
  split at h
  · exact absurd rfl h
  rename_i hld
  simp only [not_or] at hld
  exact ⟨hargs.2.1, hargs.2.2, l, d, hm, hld⟩

/-- The round trip: what `Forward` wrote comes back inside the window, and only
    there. -/
theorem reverse_forward (hhex : env.HexDigest) {now now' : Nat} {m fwd secret : WString} (hm : 0 ∉ m)
    (hf : 64 ∉ WString.cstr fwd) (hne : forward env now m fwd secret ≠ [])
    (hd : ∀ l d, cutLast 64 m = some (l, d) → 61 ∉ d) :
    reverse env now' (forward env now m fwd secret) secret = if InWindow now now' then some m else none := by
  obtain ⟨hfwd, hsecret, l, d, hcut, hl, hdne⟩ := forward_ne_nil hne
  obtain ⟨rfl, _⟩ := eq_of_cutLast hcut
  have hl0 : 0 ∉ l := fun h => hm (by simp [h])
  have hd0 : 0 ∉ d := fun h => hm (by simp [h])
  obtain ⟨ht, _, htne⟩ := encodeTimeSlot_chars (currentTimeSlot now)
  obtain ⟨hh, _, hhne⟩ := computeHash_chars hhex secret (encodeTimeSlot (currentTimeSlot now)) d l
  rw [forward_localPart hhex hcut hl hdne hfwd hsecret, WString.cstr_eq hd0, WString.cstr_eq hl0,
    reverse_fields now' hsecret hhne hh htne ht hdne (hd l d hcut) hl hf, WString.equalsNoCase_refl,
    decode_encode (currentTimeSlot_lt now)]
  simp only [Bool.not_true, Bool.false_eq_true, if_false, timeSlotInRange_iff]

/-- The fields of an accepted address. -/
theorem reverse_spec {now : Nat} {address secret m : WString} (h : reverse env now address secret = some m) :
    ∃ hash tt d l slot, splitPayload ((((cutLast 64 address).map Prod.fst).getD []).drop 5) = some (hash, tt, d, l) ∧
      secret ≠ [] ∧ d ≠ [] ∧ l ≠ [] ∧ decodeTimeSlot tt = some slot ∧
      WString.equalsNoCase (computeHash env secret tt d l) hash = true ∧ m = l ++ 64 :: d := by
  unfold reverse at h
  split at h
  · cases h
  rename_i hguard
  simp only [not_or] at hguard
  dsimp only at h
  split at h
  · cases h
  rename_i hash tt d l hsplit
  split at h
  · cases h
  rename_i hne
  simp only [not_or] at hne
  split at h
  · cases h
  rename_i hhash
  split at h
  · cases h
  rename_i slot hslot
  split at h
  · cases h
    exact ⟨hash, tt, d, l, slot, hsplit, hguard.1, hne.2.1, hne.2.2, hslot, by simpa using hhash, rfl⟩
  · cases h

/-- An accepted address holds every character of its original. -/
theorem mem_of_reverse {now : Nat} {address secret m : WString} {c : WChar}
    (h : reverse env now address secret = some m) (hc : c ∈ m) (hat : c ≠ 64) : c ∈ address := by
  obtain ⟨hash, tt, d, l, slot, hsplit, _, _, _, _, _, rfl⟩ := reverse_spec h
  obtain ⟨hpayload, _⟩ := splitPayload_spec hsplit
  have hmem : c ∈ (((cutLast 64 address).map Prod.fst).getD []).drop 5 := by
    rw [hpayload]
    rw [List.mem_append, List.mem_cons] at hc
    obtain hc | hc | hc := hc
    · simp [hc]
    · exact absurd hc hat
    · simp [hc]
  have hlocal := List.mem_of_mem_drop hmem
  cases hcut : cutLast 64 address with
  | none =>
    rw [hcut] at hlocal
    cases hlocal
  | some p =>
    rw [hcut] at hlocal
    obtain ⟨haddress, _⟩ := eq_of_cutLast (a := p.1) (b := p.2) hcut
    rw [haddress]
    exact List.mem_append_left _ hlocal

/-- What `Forward` wrote comes back in its window and only there, exactly when
    the original has no NUL and the forwarder no at sign. -/
theorem comes_back_iff (hhex : env.HexDigest) {now : Nat} {m fwd secret : WString}
    (hne : forward env now m fwd secret ≠ []) (hd : ∀ l d, cutLast 64 m = some (l, d) → 61 ∉ d) :
    (∀ now', reverse env now' (forward env now m fwd secret) secret = some m ↔ InWindow now now') ↔
      0 ∉ m ∧ 64 ∉ WString.cstr fwd := by
  constructor
  · intro h
    have hback := (h now).2 (inWindow_self now)
    obtain ⟨hfwd, hsecret, l, d, hcut, hl, hdne⟩ := forward_ne_nil hne
    have heq := @forward_localPart env hhex now m fwd secret l d hcut hl hdne hfwd hsecret
    obtain ⟨ht, ht0, htne⟩ := encodeTimeSlot_chars (currentTimeSlot now)
    obtain ⟨hh, hh0, hhne⟩ := computeHash_chars hhex secret (encodeTimeSlot (currentTimeSlot now)) d l
    have hm : 0 ∉ m := by
      -- No formatted address holds a NUL.
      intro h0
      have hmem := mem_of_reverse hback h0 (by decide)
      rw [heq, localPart] at hmem
      simp only [List.mem_append, List.mem_cons] at hmem
      have hsrs : 0 ∉ wide "SRS0=" := by decide
      have hcstr := WString.zero_notMem_cstr
      simp_all
    refine ⟨hm, fun hat => ?_⟩
    obtain ⟨⟨x, y⟩, hxy⟩ : ∃ p, cutLast 64 (WString.cstr fwd) = some p :=
      Option.ne_none_iff_exists'.1 fun hnone => cutLast_eq_none.1 hnone hat
    obtain ⟨hsplit, hy⟩ := eq_of_cutLast hxy
    obtain ⟨rfl, _⟩ := eq_of_cutLast hcut
    have hl0 : 0 ∉ l := fun h => hm (by simp [h])
    have hd0 : 0 ∉ d := fun h => hm (by simp [h])
    have hmove : localPart (computeHash env secret (encodeTimeSlot (currentTimeSlot now)) d l)
        (encodeTimeSlot (currentTimeSlot now)) d l ++ 64 :: (x ++ 64 :: y) =
        localPart (computeHash env secret (encodeTimeSlot (currentTimeSlot now)) d l)
          (encodeTimeSlot (currentTimeSlot now)) d (l ++ 64 :: x) ++ 64 :: y := by
      simp [localPart]
    rw [heq, hsplit, WString.cstr_eq hd0, WString.cstr_eq hl0, hmove] at hback
    -- The text in front of the forwarder's at sign joins the local part.
    obtain ⟨hash, tt, d', l', slot, hpayload, _, _, _, _, _, hm'⟩ := reverse_spec hback
    rw [cutLast_append hy, Option.map_some, Option.getD_some, localPart_drop,
      splitPayload_fields hhne hh ht (hd l d hcut)] at hpayload
    cases hpayload
    have hlen := congrArg List.length hm'
    simp only [List.length_append, List.length_cons] at hlen
    omega
  · rintro ⟨hm, hf⟩ now'
    rw [reverse_forward hhex hm hf hne hd]
    simp

/-- `Forward`, run on the day `slot`, gives the original `m` an address with
    this hash and day. -/
def SameTag (env : SigningEnvironment) (secret fwd hash tt m : WString) (slot : Nat) : Prop :=
  ∀ now, currentTimeSlot now = slot → ∃ h l d, cutLast 64 m = some (l, d) ∧
    forward env now m fwd secret = formatAddress h tt d l fwd ∧ WString.equalsNoCase h hash = true

/-- The domain field has no at sign; or what `Forward` signs for the original,
    split at its last at sign, happens to be the string that was signed. -/
def BoundaryKept (env : SigningEnvironment) (tt d l : WString) : Prop :=
  64 ∉ d ∨ ∃ x y, d = x ++ 64 :: y ∧ 64 ∉ y ∧ y ≠ [] ∧ canonical env tt y (l ++ 64 :: x) = canonical env tt d l

theorem formatAddress_hash_inj {h h' tt d l fwd : WString}
    (he : formatAddress h tt d l fwd = formatAddress h' tt d l fwd) : WString.cstr h = WString.cstr h' := by
  unfold formatAddress at he
  simp only [List.append_assoc, List.append_cancel_left_eq] at he
  exact List.append_cancel_right he

/-- For an accepted address, `Forward` makes the same tag of the original again
    exactly when the boundary between domain and local part is kept. -/
theorem sameTag_iff {now : Nat} {address secret m fwd : WString} (hinj : env.InjectiveHash hashHexLength secret)
    (hfwd : fwd ≠ []) (h : reverse env now address secret = some m) :
    ∃ hash tt d l slot, splitPayload ((((cutLast 64 address).map Prod.fst).getD []).drop 5) = some (hash, tt, d, l) ∧
      decodeTimeSlot tt = some slot ∧ m = l ++ 64 :: d ∧
      (SameTag env secret fwd hash tt m slot ↔ BoundaryKept env tt d l) := by
  obtain ⟨hash, tt, d, l, slot, hsplit, hsecret, hd, hl, hslot, hhash, rfl⟩ := reverse_spec h
  refine ⟨hash, tt, d, l, slot, hsplit, hslot, rfl, ?_⟩
  obtain ⟨hlt, hencode⟩ := decode_spec hslot
  by_cases hat : 64 ∈ d
  · -- The last at sign of the original is inside the domain field.
    obtain ⟨⟨x, y⟩, hxy⟩ : ∃ p, cutLast 64 d = some p :=
      Option.ne_none_iff_exists'.1 fun hnone => cutLast_eq_none.1 hnone hat
    obtain ⟨rfl, hy⟩ := eq_of_cutLast hxy
    have hcut : cutLast 64 (l ++ 64 :: (x ++ 64 :: y)) = some (l ++ 64 :: x, y) := by
      have happend : l ++ 64 :: (x ++ 64 :: y) = l ++ 64 :: x ++ 64 :: y := by simp
      rw [happend]
      exact cutLast_append hy
    constructor
    · intro hsame
      obtain ⟨h', l', d', hcut', hforward, heq⟩ := hsame (slot * 86400) (by
        rw [currentTimeSlot, Nat.mul_div_cancel _ (by decide), Nat.mod_eq_of_lt hlt])
      rw [hcut] at hcut'
      cases hcut'
      have hyne : y ≠ [] := by
        intro hnil
        subst hnil
        unfold forward at hforward
        rw [hcut] at hforward
        simp [formatAddress, wide] at hforward
      refine .inr ⟨x, y, rfl, hy, hyne, ?_⟩
      have hslot' : encodeTimeSlot (currentTimeSlot (slot * 86400)) = tt := by
        rw [currentTimeSlot, Nat.mul_div_cancel _ (by decide), Nat.mod_eq_of_lt hlt, hencode]
      rw [forward_eq hcut (by simp) hyne hfwd hsecret, hslot'] at hforward
      have hcstr := formatAddress_hash_inj hforward
      have hsign : WString.equalsNoCase (computeHash env secret tt y (l ++ 64 :: x)) hash = true := by
        rw [← WString.equalsNoCase_cstr, hcstr, WString.equalsNoCase_cstr]
        exact heq
      apply hinj
      refine WString.equalsNoCase_trans hsign ?_
      rw [WString.equalsNoCase_comm]
      exact hhash
    · intro hkept now' hnow
      rcases hkept with hno | ⟨x', y', hxy', hy', hyne, hcanon⟩
      · exact absurd hat hno
      · obtain ⟨rfl, rfl⟩ := append_cons_inj_last hy hy' hxy'
        refine ⟨computeHash env secret tt y (l ++ 64 :: x), _, _, hcut, ?_, ?_⟩
        · rw [forward_eq hcut (by simp) hyne hfwd hsecret, hnow, hencode]
        · rw [computeHash, hcanon]
          exact hhash
  · have hcut : cutLast 64 (l ++ 64 :: d) = some (l, d) := cutLast_append hat
    refine iff_of_true (fun now' hnow => ⟨_, l, d, hcut, ?_, hhash⟩) (.inl hat)
    rw [forward_eq hcut hl hd hfwd hsecret, hnow, hencode]

end SRS

/-! ## BATV -/

namespace BATV

variable {env : SigningEnvironment}

/-- The days between two clocks, on a wheel of 1000. -/
def InWindow (now now' : Nat) : Prop :=
  ((now' / 86400 : Nat) - (now / 86400 : Nat) : Int) % 1000 ≤ 7 ∨
    ((now' / 86400 : Nat) - (now / 86400 : Nat) : Int) % 1000 = 999

instance (now now' : Nat) : Decidable (InWindow now now') := inferInstanceAs (Decidable (_ ∨ _))

theorem inWindow_self (now : Nat) : InWindow now now := by
  left
  rw [sub_self]
  decide

theorem dayNumberInRange_iff (now now' : Nat) :
    dayNumberInRange now' (currentDayNumber now) = true ↔ InWindow now now' := by
  have key : ∀ d d' : Nat,
      (((if ((d' % 1000 : Nat) : Int) - (d % 1000 : Nat) < 0 then ((d' % 1000 : Nat) : Int) - (d % 1000 : Nat) + 1000
        else ((d' % 1000 : Nat) : Int) - (d % 1000 : Nat)) ≤ 7 ∨
        1000 - 1 ≤ (if ((d' % 1000 : Nat) : Int) - (d % 1000 : Nat) < 0
          then ((d' % 1000 : Nat) : Int) - (d % 1000 : Nat) + 1000
          else ((d' % 1000 : Nat) : Int) - (d % 1000 : Nat))) ↔
      (((d' : Int) - d) % 1000 ≤ 7 ∨ ((d' : Int) - d) % 1000 = 999)) := by
    intro d d'
    split <;> omega
  rw [dayNumberInRange, Bool.or_eq_true, decide_eq_true_eq, decide_eq_true_eq]
  exact key (now / 86400) (now' / 86400)

theorem currentDayNumber_lt (now : Nat) : currentDayNumber now < 1000 := Nat.mod_lt _ (by decide)

/-- The number three digits write. -/
def dayNumber (digits : WString) : Nat :=
  digitValue (digits.getD 0 0) * 100 + digitValue (digits.getD 1 0) * 10 + digitValue (digits.getD 2 0)

theorem dayNumber_formatDay {day : Nat} (h : day < 1000) : dayNumber (formatDay day) = day := by
  have key : ∀ day : Nat, day < 1000 →
      (48 + day / 100 - 48) * 100 + (48 + day / 10 % 10 - 48) * 10 + (48 + day % 10 - 48) = day := by
    intro day h
    omega
  exact key day h

theorem formatDay_digits {day : Nat} (h : day < 1000) :
    (formatDay day).all (fun c => 48 ≤ c && c ≤ 57) = true := by
  have key : ∀ day : Nat, day < 1000 → (48 ≤ 48 + day / 100 ∧ 48 + day / 100 ≤ 57) ∧
      (48 ≤ 48 + day / 10 % 10 ∧ 48 + day / 10 % 10 ≤ 57) ∧ 48 ≤ 48 + day % 10 ∧ 48 + day % 10 ≤ 57 := by
    intro day h
    omega
  simp only [formatDay, List.all_cons, List.all_nil, Bool.and_true, Bool.and_eq_true, decide_eq_true_eq]
  exact key day h

theorem formatDay_dayNumber {a b c : WChar} (h : [a, b, c].all (fun c => 48 ≤ c && c ≤ 57) = true) :
    dayNumber [a, b, c] < 1000 ∧ formatDay (dayNumber [a, b, c]) = [a, b, c] := by
  have key : ∀ a b c : Nat, 48 ≤ a ∧ a ≤ 57 → 48 ≤ b ∧ b ≤ 57 → 48 ≤ c ∧ c ≤ 57 →
      (a - 48) * 100 + (b - 48) * 10 + (c - 48) < 1000 ∧
      48 + ((a - 48) * 100 + (b - 48) * 10 + (c - 48)) / 100 = a ∧
      48 + ((a - 48) * 100 + (b - 48) * 10 + (c - 48)) / 10 % 10 = b ∧
      48 + ((a - 48) * 100 + (b - 48) * 10 + (c - 48)) % 10 = c := by
    intro a b c ha hb hc
    omega
  simp only [List.all_cons, List.all_nil, Bool.and_true, Bool.and_eq_true, decide_eq_true_eq] at h
  obtain ⟨hlt, h1, h2, h3⟩ := key a b c h.1 h.2.1 h.2.2
  refine ⟨hlt, ?_⟩
  change [_, _, _] = [a, b, c]
  rw [List.cons.injEq, List.cons.injEq, List.cons.injEq]
  exact ⟨h1, h2, h3, rfl⟩

theorem keyAndDay_no_nul (day : Nat) : 0 ∉ keyNumber :: formatDay day := by
  have key : ∀ n : Nat, 0 ≠ 48 + n := by
    intro n
    omega
  simp only [formatDay, List.mem_cons, List.not_mem_nil, or_false, not_or]
  exact ⟨by decide, key _, key _, key _⟩

theorem computeHash_chars (hhex : env.HexDigest) (secret kd m : WString) :
    (computeHash env secret kd m).length = 6 ∧ 0 ∉ computeHash env secret kd m := by
  obtain ⟨hlen, hchars⟩ := hhex (env.toAnsi secret) (canonical env kd m)
  refine ⟨?_, fun h => ?_⟩
  · rw [computeHash, List.length_take, hashHexLength]
    omega
  · exact (hchars 0 (List.mem_of_mem_take h)).2 rfl

/-- The text in front of the domain of a tagged address. -/
def localPart (head kd hash l : WString) : WString := head ++ (kd ++ (hash ++ 61 :: l))

/-- The fields have the widths of a tag, and the marker reads `prvs=`. -/
structure Tagged (head dd hash l dom : WString) : Prop where
  head_length : head.length = 5
  head_prvs : WString.equalsNoCase head (wide "prvs=") = true
  digits_length : dd.length = 3
  hash_length : hash.length = 6
  local_ne : l ≠ []
  domain_no_at : 64 ∉ dom

theorem Tagged.isPrvs {head dd hash l dom : WString} (t : Tagged head dd hash l dom) (k : WChar) :
    isPrvs (localPart head (k :: dd) hash l ++ 64 :: dom) = true := by
  have hhead : (localPart head (k :: dd) hash l).take 5 = head := List.take_left' t.head_length
  have hsep : (localPart head (k :: dd) hash l).getD 15 0 = 61 := by
    rw [localPart, List.getD_append_right _ _ _ _ (by rw [t.head_length]; decide), t.head_length,
      List.getD_append_right _ _ _ _ (by rw [List.length_cons, t.digits_length]; decide), List.length_cons,
      t.digits_length, List.getD_append_right _ _ _ _ (by rw [t.hash_length]), t.hash_length]
    rfl
  have hpos : 0 < l.length := List.length_pos_of_ne_nil t.local_ne
  have hlen : 17 ≤ (localPart head (k :: dd) hash l).length := by
    simp only [localPart, List.length_append, List.length_cons, t.head_length, t.digits_length, t.hash_length]
    omega
  have hne : localPart head (k :: dd) hash l ≠ [] := by
    intro h
    rw [h] at hlen
    simp at hlen
  unfold BATV.isPrvs
  rw [cutLast_append t.domain_no_at]
  dsimp only [tagValueLength]
  rw [hhead, hsep, t.head_prvs]
  simp [hne, hlen]

theorem isPrvs_spec {address : WString} (h : isPrvs address = true) :
    ∃ head k dd hash l dom, address = localPart head (k :: dd) hash l ++ 64 :: dom ∧ Tagged head dd hash l dom := by
  unfold isPrvs at h
  split at h
  · cases h
  rename_i lp dom hcut
  obtain ⟨rfl, hdom⟩ := eq_of_cutLast hcut
  simp only [Bool.and_eq_true, decide_eq_true_eq, beq_iff_eq, tagValueLength] at h
  obtain ⟨⟨⟨_, hlen⟩, hprvs⟩, hsep⟩ := h
  have hlen : 17 ≤ lp.length := of_decide_eq_true hlen
  obtain ⟨k, dd, hkd⟩ : ∃ k dd, (lp.drop 5).take 4 = k :: dd := by
    cases hc : (lp.drop 5).take 4 with
    | nil =>
      have := congrArg List.length hc
      simp at this
      omega
    | cons k dd => exact ⟨k, dd, rfl⟩
  have hsplit : lp = localPart (lp.take 5) (k :: dd) ((lp.drop 9).take 6) (lp.drop 16) := by
    have h15 : lp.drop 15 = 61 :: lp.drop 16 := by
      rw [List.drop_eq_getElem_cons (by omega), ← List.getD_eq_getElem lp 0 (by omega), hsep]
    have h9 : lp.drop 9 = (lp.drop 9).take 6 ++ lp.drop 15 := by
      rw [← List.drop_drop (i := 6) (j := 9), List.take_append_drop]
    have h5 : lp.drop 5 = (lp.drop 5).take 4 ++ lp.drop 9 := by
      rw [← List.drop_drop (i := 4) (j := 5), List.take_append_drop]
    calc lp = lp.take 5 ++ lp.drop 5 := (List.take_append_drop 5 lp).symm
      _ = lp.take 5 ++ (k :: dd ++ lp.drop 9) := by rw [h5, hkd]
      _ = lp.take 5 ++ (k :: dd ++ ((lp.drop 9).take 6 ++ 61 :: lp.drop 16)) := by rw [← h15, ← h9]
  have hdd := congrArg List.length hkd
  simp only [List.length_take, List.length_drop, List.length_cons] at hdd
  refine ⟨lp.take 5, k, dd, (lp.drop 9).take 6, lp.drop 16, dom, by rw [← hsplit], ?_, hprvs, ?_, ?_, ?_, hdom⟩
  · rw [List.length_take]
    omega
  · omega
  · rw [List.length_take, List.length_drop]
    omega
  · intro hnil
    have := List.drop_eq_nil_iff.1 hnil
    omega

/-- `Verify` on a tagged address with these fields. -/
theorem verify_fields (now : Nat) {secret head dd hash l dom : WString} (k : WChar) (hsecret : secret ≠ [])
    (t : Tagged head dd hash l dom) :
    verify env now (localPart head (k :: dd) hash l ++ 64 :: dom) secret =
      if !dd.all (fun c => 48 ≤ c && c ≤ 57) then none
      else if !WString.equalsNoCase (computeHash env secret (k :: dd) (l ++ 64 :: dom)) hash then none
      else if dayNumberInRange now (dayNumber dd) then some (l ++ 64 :: dom) else none := by
  have hkd : (k :: dd).length = 4 := by rw [List.length_cons, t.digits_length]
  have hpayload : (localPart head (k :: dd) hash l).drop 5 = k :: dd ++ hash ++ 61 :: l := by
    rw [localPart, List.drop_left' t.head_length, List.append_assoc]
  have hten : (k :: dd ++ hash).length = 10 := by rw [List.length_append, hkd, t.hash_length]
  have htag : (k :: dd ++ hash ++ 61 :: l).take 10 = k :: dd ++ hash := List.take_left' hten
  have horiginal : (k :: dd ++ hash ++ 61 :: l).drop 11 = l := by
    rw [← List.drop_drop (i := 1) (j := 10), List.drop_left' hten]
    rfl
  have htake : (k :: dd ++ hash).take 4 = k :: dd := List.take_left' hkd
  have hdrop : (k :: dd ++ hash).drop 4 = hash := List.drop_left' hkd
  have hdigits : WString.mid (k :: dd) 1 3 = dd := by
    rw [WString.mid, List.drop_one, List.tail_cons, List.take_of_length_le t.digits_length.le]
  unfold verify
  rw [if_neg (by simp [hsecret, t.isPrvs k]), cutLast_append t.domain_no_at]
  dsimp only [tagValueLength]
  rw [hpayload, htag, horiginal, htake, hdrop, hdigits, if_neg t.local_ne]
  rfl

theorem sign_eq {now : Nat} {m secret l d : WString} (hm : cutLast 64 m = some (l, d)) (hl : l ≠ []) (hd : d ≠ [])
    (hp : isPrvs m = false) (hs : secret ≠ []) :
    sign env now m secret =
      formatAddress (keyNumber :: formatDay (currentDayNumber now))
        (computeHash env secret (keyNumber :: formatDay (currentDayNumber now)) m) l d := by
  have hne : m ≠ [] := by
    intro h
    rw [h] at hm
    cases hm
  unfold sign
  rw [if_neg (by simp [hne, hs]), hp, hm]
  dsimp only
  rw [if_neg (by decide), if_neg (by simp [hl, hd])]

theorem sign_ne_nil {now : Nat} {m secret : WString} (h : sign env now m secret ≠ []) :
    secret ≠ [] ∧ isPrvs m = false ∧ ∃ l d, cutLast 64 m = some (l, d) ∧ l ≠ [] ∧ d ≠ [] := by
  unfold sign at h
  split at h
  · exact absurd rfl h
  rename_i hargs
  simp only [not_or] at hargs
  split at h
  · exact absurd rfl h
  rename_i hprvs
  split at h
  · exact absurd rfl h
  rename_i l d hm
  split at h
  · exact absurd rfl h
  rename_i hld
  simp only [not_or] at hld
  exact ⟨hargs.2, by simpa using hprvs, l, d, hm, hld⟩

/-- The round trip: what `Sign` wrote comes back inside the window, and only
    there. -/
theorem verify_sign (hhex : env.HexDigest) {now now' : Nat} {m secret : WString} (hm : 0 ∉ m)
    (hne : sign env now m secret ≠ []) :
    verify env now' (sign env now m secret) secret = if InWindow now now' then some m else none := by
  obtain ⟨hsecret, hprvs, l, d, hcut, hl, hdne⟩ := sign_ne_nil hne
  obtain ⟨rfl, hd⟩ := eq_of_cutLast hcut
  have hl0 : 0 ∉ l := fun h => hm (by simp [h])
  have hd0 : 0 ∉ d := fun h => hm (by simp [h])
  have hday := currentDayNumber_lt now
  obtain ⟨hlen, hh0⟩ := computeHash_chars hhex secret (keyNumber :: formatDay (currentDayNumber now)) (l ++ 64 :: d)
  have hform := @sign_eq env now _ secret l d hcut hl hdne hprvs hsecret
  rw [formatAddress, WString.cstr_eq hh0, WString.cstr_eq hl0, WString.cstr_eq hd0,
    WString.cstr_eq (keyAndDay_no_nul _)] at hform
  have htagged : Tagged (wide "prvs=") (formatDay (currentDayNumber now)) _ l d := ⟨rfl, rfl, rfl, hlen, hl, hd⟩
  have hfields := @verify_fields env now' secret _ _ _ l d keyNumber hsecret htagged
  rw [localPart, ← List.append_assoc, ← List.append_assoc, ← hform] at hfields
  rw [hfields, formatDay_digits hday, WString.equalsNoCase_refl, dayNumber_formatDay hday]
  simp only [Bool.not_true, Bool.false_eq_true, if_false, dayNumberInRange_iff]

/-- The fields of an accepted address. -/
theorem verify_spec {now : Nat} {address secret m : WString} (h : verify env now address secret = some m) :
    ∃ head k dd hash l dom, address = localPart head (k :: dd) hash l ++ 64 :: dom ∧ Tagged head dd hash l dom ∧
      secret ≠ [] ∧ dd.all (fun c => 48 ≤ c && c ≤ 57) = true ∧
      WString.equalsNoCase (computeHash env secret (k :: dd) (l ++ 64 :: dom)) hash = true ∧ m = l ++ 64 :: dom := by
  have hguard : secret ≠ [] ∧ isPrvs address = true := by
    unfold verify at h
    split at h
    · cases h
    · rename_i hguard
      simpa using hguard
  obtain ⟨head, k, dd, hash, l, dom, rfl, t⟩ := isPrvs_spec hguard.2
  rw [verify_fields now k hguard.1 t] at h
  split at h
  · cases h
  rename_i hdigits
  split at h
  · cases h
  rename_i hhash
  split at h
  · cases h
    exact ⟨head, k, dd, hash, l, dom, rfl, t, hguard.1, by simpa using hdigits, by simpa using hhash, rfl⟩
  · cases h

/-- What `Sign` wrote comes back in its window and only there, exactly when the
    mailbox has no NUL. -/
theorem comes_back_iff (hhex : env.HexDigest) {now : Nat} {m secret : WString} (hne : sign env now m secret ≠ []) :
    (∀ now', verify env now' (sign env now m secret) secret = some m ↔ InWindow now now') ↔ 0 ∉ m := by
  constructor
  · intro h h0
    have hback := (h now).2 (inWindow_self now)
    obtain ⟨hsecret, hprvs, l, d, hcut, hl, hdne⟩ := sign_ne_nil hne
    obtain ⟨_, hh0⟩ := computeHash_chars hhex secret (keyNumber :: formatDay (currentDayNumber now)) m
    have hkd := keyAndDay_no_nul (currentDayNumber now)
    obtain ⟨head, k, dd, hash, l', dom, haddress, _, _, _, _, rfl⟩ := verify_spec hback
    -- No formatted address holds a NUL.
    have hmem : 0 ∈ localPart head (k :: dd) hash l' ++ 64 :: dom := by
      simp only [localPart, List.mem_append, List.mem_cons] at h0 ⊢
      tauto
    rw [← haddress, sign_eq hcut hl hdne hprvs hsecret, formatAddress] at hmem
    simp only [List.mem_append, List.mem_cons] at hmem
    have hmarker : 0 ∉ wide "prvs=" := by decide
    have hcstr := WString.zero_notMem_cstr
    simp_all
  · intro hm now'
    rw [verify_sign hhex hm hne]
    simp

/-- `Sign`, run on the day the digits write, gives the original `m` an address
    with this hash and day. -/
def SameTag (env : SigningEnvironment) (secret dd hash m : WString) : Prop :=
  ∀ now, currentDayNumber now = dayNumber dd → ∃ h l d, cutLast 64 m = some (l, d) ∧
    sign env now m secret = formatAddress (keyNumber :: dd) h l d ∧ WString.equalsNoCase h hash = true

/-- The key character converts as the one key `Sign` knows, and `Sign` accepts
    the original. -/
def Signable (env : SigningEnvironment) (k : WChar) (dd l dom : WString) : Prop :=
  env.toAnsi (k :: dd) = env.toAnsi (keyNumber :: dd) ∧ isPrvs (l ++ 64 :: dom) = false ∧ dom ≠ []

theorem formatAddress_hash_inj {h h' kd l d : WString} (he : formatAddress kd h l d = formatAddress kd h' l d) :
    WString.cstr h = WString.cstr h' := by
  unfold formatAddress at he
  simp only [List.append_assoc, List.append_cancel_left_eq] at he
  exact List.append_cancel_right he

/-- For an accepted address, `Sign` makes the same tag of the original again
    exactly when it is signable with the same key. -/
theorem sameTag_iff {now : Nat} {address secret m : WString} (hinj : env.InjectiveHash hashHexLength secret)
    (h : verify env now address secret = some m) :
    ∃ head k dd hash l dom, address = localPart head (k :: dd) hash l ++ 64 :: dom ∧ Tagged head dd hash l dom ∧
      m = l ++ 64 :: dom ∧ (SameTag env secret dd hash m ↔ Signable env k dd l dom) := by
  obtain ⟨head, k, dd, hash, l, dom, haddress, t, hsecret, hdigits, hhash, rfl⟩ := verify_spec h
  refine ⟨head, k, dd, hash, l, dom, haddress, t, rfl, ?_⟩
  have hcut : cutLast 64 (l ++ 64 :: dom) = some (l, dom) := cutLast_append t.domain_no_at
  obtain ⟨a, b, c, rfl⟩ := List.length_eq_three.1 t.digits_length
  obtain ⟨hlt, hformat⟩ := formatDay_dayNumber hdigits
  constructor
  · intro hsame
    have hday : currentDayNumber (dayNumber [a, b, c] * 86400) = dayNumber [a, b, c] := by
      rw [currentDayNumber, Nat.mul_div_cancel _ (by decide), dayModulus, Nat.mod_eq_of_lt hlt]
    obtain ⟨h', l', d', hcut', hsign, heq⟩ := hsame _ hday
    rw [hcut] at hcut'
    cases hcut'
    have hne : sign env (dayNumber [a, b, c] * 86400) (l ++ 64 :: dom) secret ≠ [] := by
      rw [hsign]
      simp [formatAddress, wide]
    obtain ⟨_, hprvs, l', d', hcut', hl, hd⟩ := sign_ne_nil hne
    rw [hcut] at hcut'
    cases hcut'
    rw [sign_eq hcut hl hd hprvs hsecret, hday, hformat] at hsign
    have hcstr := formatAddress_hash_inj hsign
    have hnew : WString.equalsNoCase (computeHash env secret (keyNumber :: [a, b, c]) (l ++ 64 :: dom)) hash = true := by
      rw [← WString.equalsNoCase_cstr, hcstr, WString.equalsNoCase_cstr]
      exact heq
    have hcanon : canonical env (k :: [a, b, c]) (l ++ 64 :: dom) =
        canonical env (keyNumber :: [a, b, c]) (l ++ 64 :: dom) := by
      apply hinj
      refine WString.equalsNoCase_trans hhash ?_
      rw [WString.equalsNoCase_comm]
      exact hnew
    exact ⟨List.append_cancel_right hcanon, hprvs, hd⟩
  · intro ⟨hkey, hprvs, hd⟩ now' hnow
    refine ⟨computeHash env secret (keyNumber :: [a, b, c]) (l ++ 64 :: dom), l, dom, hcut, ?_, ?_⟩
    · rw [sign_eq hcut t.local_ne hd hprvs hsecret, hnow, hformat]
    · rw [computeHash, canonical, ← hkey]
      exact hhash

end BATV

/-! ## Both schemes -/

/-- Rewritten senders come back in their window and only there, and an accepted
    address is one the server would write again, under the conditions the two
    schemes need. -/
theorem rewritten_senders (env : SigningEnvironment) (hhex : env.HexDigest) (secret : WString) :
    (∀ now m fwd, SRS.forward env now m fwd secret ≠ [] → (∀ l d, cutLast 64 m = some (l, d) → 61 ∉ d) →
      ((∀ now', SRS.reverse env now' (SRS.forward env now m fwd secret) secret = some m ↔ SRS.InWindow now now') ↔
        0 ∉ m ∧ 64 ∉ WString.cstr fwd)) ∧
    (∀ now m, BATV.sign env now m secret ≠ [] →
      ((∀ now', BATV.verify env now' (BATV.sign env now m secret) secret = some m ↔ BATV.InWindow now now') ↔
        0 ∉ m)) ∧
    (env.InjectiveHash SRS.hashHexLength secret → ∀ now address m fwd, fwd ≠ [] →
      SRS.reverse env now address secret = some m →
      ∃ hash tt d l slot,
        SRS.splitPayload ((((cutLast 64 address).map Prod.fst).getD []).drop 5) = some (hash, tt, d, l) ∧
        SRS.decodeTimeSlot tt = some slot ∧ m = l ++ 64 :: d ∧
        (SRS.SameTag env secret fwd hash tt m slot ↔ SRS.BoundaryKept env tt d l)) ∧
    (env.InjectiveHash BATV.hashHexLength secret → ∀ now address m, BATV.verify env now address secret = some m →
      ∃ head k dd hash l dom,
        address = BATV.localPart head (k :: dd) hash l ++ 64 :: dom ∧ BATV.Tagged head dd hash l dom ∧
        m = l ++ 64 :: dom ∧ (BATV.SameTag env secret dd hash m ↔ BATV.Signable env k dd l dom)) := by
  refine ⟨?_, ?_, ?_, ?_⟩
  · intro now m fwd hne hd
    exact SRS.comes_back_iff hhex hne hd
  · intro now m hne
    exact BATV.comes_back_iff hhex hne
  · intro hinj now address m fwd hfwd h
    exact SRS.sameTag_iff hinj hfwd h
  · intro hinj now address m h
    exact BATV.sameTag_iff hinj h

/-- A digest that determines its text: the code of the text, then filler. -/
def idealEnvironment : SigningEnvironment where
  loc := classicLocale
  toAnsi s := s
  computeHMACSHA256Hex _ text := (200 + Encodable.encode text) :: List.replicate 63 97

theorem idealEnvironment_hex : idealEnvironment.HexDigest := by
  have key : ∀ n : Nat, 200 + n ≠ 61 ∧ 200 + n ≠ 0 := by
    intro n
    omega
  intro secret text
  refine ⟨by simp [idealEnvironment], fun c hc => ?_⟩
  simp only [idealEnvironment, List.mem_cons, List.mem_replicate] at hc
  obtain rfl | ⟨_, rfl⟩ := hc
  · exact key _
  · decide

theorem idealEnvironment_injective {n : Nat} (hn : 0 < n) (secret : WString) :
    idealEnvironment.InjectiveHash n secret := by
  have key : ∀ m : Nat, (200 + m != 0) = true ∧ WString.classicLower (200 + m) = 200 + m := by
    intro m
    have hbig : ¬200 + m ≤ 90 := by omega
    refine ⟨by simp, ?_⟩
    rw [WString.classicLower, if_neg]
    exact fun h => hbig h.2
  intro x y h
  obtain ⟨n, rfl⟩ := Nat.exists_eq_add_of_lt hn
  simp only [idealEnvironment, Nat.zero_add, List.take_succ_cons, WString.equalsNoCase, WString.cstr,
    List.takeWhile_cons, (key _).1, if_true, List.map_cons, (key _).2, beq_iff_eq, List.cons.injEq] at h
  exact Encodable.encode_injective (Nat.add_left_cancel h.1)

theorem rewritten_senders_ideal :
    SRS.forward idealEnvironment 0 (wide "u@a") (wide "f") (wide "s") ≠ [] ∧
    SRS.reverse idealEnvironment 1814400 (SRS.forward idealEnvironment 0 (wide "u@a") (wide "f") (wide "s"))
      (wide "s") = some (wide "u@a") := by
  have hne : SRS.forward idealEnvironment 0 (wide "u@a") (wide "f") (wide "s") ≠ [] := by
    simp [SRS.forward, SRS.formatAddress, wide, cutLast]
  have hcut : cutLast 64 (wide "u@a") = some (wide "u", wide "a") := rfl
  refine ⟨hne, ?_⟩
  have hback := (rewritten_senders idealEnvironment idealEnvironment_hex (wide "s")).1 0 (wide "u@a") (wide "f") hne
    (fun l d h => by
      rw [hcut] at h
      cases h
      decide)
  exact ((hback.2 (by decide)) 1814400).2 (by decide)

/-- The sender `@ac@b` is forwarded, and the boundary behind its domain moved:
    the result is accepted as `c@b@a`, which `Forward` signs differently. -/
theorem shifted_boundary_accepted :
    ∃ hash : WString,
      idealEnvironment.HexDigest ∧ idealEnvironment.InjectiveHash SRS.hashHexLength (wide "s") ∧
      SRS.forward idealEnvironment 0 (wide "@ac@b") (wide "f") (wide "s") =
        SRS.localPart hash (wide "AA") (wide "b") (wide "@ac") ++ wide "@f" ∧
      SRS.reverse idealEnvironment 0 (SRS.localPart hash (wide "AA") (wide "b@a") (wide "c") ++ wide "@f") (wide "s") =
        some (wide "c@b@a") ∧
      SRS.decodeTimeSlot (wide "AA") = some 0 ∧
      ¬ SRS.SameTag idealEnvironment (wide "s") (wide "f") hash (wide "AA") (wide "c@b@a") 0 := by
  let hash := SRS.computeHash idealEnvironment (wide "s") (wide "AA") (wide "b@a") (wide "c")
  have hinj : idealEnvironment.InjectiveHash SRS.hashHexLength (wide "s") := idealEnvironment_injective (by decide) _
  obtain ⟨hh, _, hhne⟩ := SRS.computeHash_chars idealEnvironment_hex (wide "s") (wide "AA") (wide "b@a") (wide "c")
  have hreverse : SRS.reverse idealEnvironment 0
      (SRS.localPart hash (wide "AA") (wide "b@a") (wide "c") ++ wide "@f") (wide "s") = some (wide "c@b@a") := by
    have hfields := @SRS.reverse_fields idealEnvironment 0 (wide "s") hash (wide "AA") (wide "b@a") (wide "c")
      (wide "f") (by decide) hhne hh (by decide) (by decide) (by decide) (by decide) (by decide) (by decide)
    refine hfields.trans ?_
    rw [WString.equalsNoCase_refl]
    rfl
  refine ⟨hash, idealEnvironment_hex, hinj, ?_, hreverse, rfl, ?_⟩
  · exact @SRS.forward_localPart idealEnvironment idealEnvironment_hex 0 (wide "@ac@b") (wide "f") (wide "s")
      (wide "@ac") (wide "b") rfl (by decide) (by decide) (by decide) (by decide)
  · obtain ⟨hash', tt, d, l, slot, hsplit, hslot, _, hiff⟩ :=
      @SRS.sameTag_iff idealEnvironment 0 _ _ _ (wide "f") hinj (by decide) hreverse
    have hcut : cutLast 64 (SRS.localPart hash (wide "AA") (wide "b@a") (wide "c") ++ wide "@f") =
        some (SRS.localPart hash (wide "AA") (wide "b@a") (wide "c"), wide "f") := cutLast_append (by decide)
    rw [hcut, Option.map_some, Option.getD_some, SRS.localPart_drop,
      SRS.splitPayload_fields hhne hh (by decide) (by decide)] at hsplit
    cases hsplit
    have hslot : 0 = slot := Option.some.inj hslot
    subst hslot
    rw [hiff]
    rintro (hat | ⟨x, y, hxy, hy, _, hcanon⟩)
    · exact hat (by decide)
    · have hcut : cutLast 64 (wide "b@a") = some (x, y) := by
        rw [hxy]
        exact cutLast_append hy
      cases hcut
      exact absurd hcanon (by decide)

end HMailServer
