import HMailServer.AntiSpam.Dmarc.FromAddress
import HMailServer.Lib.Mailbox
import HMailServer.Lib.Scan

/- Which From fields DMARC reads as their readers do. The four scanners agree
   with the grammar of a mailbox on what is quoted, what is a comment and what
   stands between the angle brackets; the domain that they end up with is the one
   of the mailbox if no white space is left beside it, and, for an address
   without angle brackets, if the text taken for the address is the address. -/
namespace HMailServer.DMARC
open AddresslistParser Mailbox

/-! ## The scanners, one character at a time -/

theorem stripComments_cons {c : WChar} (hc : c ≠ 92) (depth : Nat) (quoted : Bool) (s : WString) :
    stripComments depth quoted (c :: s) =
      if quoted then c :: stripComments depth (c ≠ 34) s
      else if 0 < depth then
        if c = 40 then stripComments (depth + 1) quoted s
        else if c = 41 then stripComments (depth - 1) quoted s
        else stripComments depth quoted s
      else if c = 34 then c :: stripComments depth true s
      else if c = 40 then stripComments (depth + 1) quoted s
      else c :: stripComments depth quoted s := by
  cases s with
  | nil =>
    conv_lhs => rw [stripComments, if_neg hc]
    simp only [stripComments, ite_self]
    by_cases h34 : c = 34
    · subst h34
      simp
    · rw [if_neg h34]
  | cons d s => rw [stripComments, if_neg hc]

theorem stripComments_pair (depth : Nat) (quoted : Bool) (d : WChar) (s : WString) :
    stripComments depth quoted (92 :: d :: s) =
      if depth = 0 then 92 :: d :: stripComments depth quoted s else stripComments depth quoted s := by
  rw [stripComments, if_pos rfl]

theorem compounds_cons {c : WChar} (hc : c ≠ 92) (n : Nat) (quoted : Bool) (word s : WString) :
    compounds (n + 1) quoted word (c :: s) =
      if c = 34 then compounds n (!quoted) (word ++ [c]) s
      else if quoted = false ∧ c = 44 then word :: compounds n quoted [] s
      else compounds n quoted (word ++ [c]) s := by
  cases s with
  | nil =>
    conv_lhs => rw [compounds]
    by_cases h34 : c = 34
    · subst h34
      simp [compounds]
    · rw [if_neg h34]
  | cons d s => rw [compounds, if_neg hc]

theorem closeQuote_cons {c : WChar} (hc : c ≠ 92) (s : WString) :
    closeQuote (c :: s) = if c = 34 then some [] else (closeQuote s).map (c :: ·) := by
  cases s with
  | nil => rfl
  | cons d s => rw [closeQuote, if_neg hc]

theorem extractQuotedString_cons {c : WChar} (hc : c ≠ 92) (s : WString) :
    extractQuotedString (c :: s) = if c = 34 then (closeQuote s).getD [] else extractQuotedString s := by
  cases s with
  | nil =>
    simp [extractQuotedString, closeQuote]
  | cons d s => rw [extractQuotedString, if_neg hc]

theorem extractWithinGTLT_cons {c : WChar} (hc : c ≠ 92) (quoted : Bool) (opened : Option WString) (s : WString) :
    extractWithinGTLT quoted opened (c :: s) =
      if c = 34 then extractWithinGTLT (!quoted) (opened.map (· ++ [c])) s
      else if quoted = false ∧ c = 60 then extractWithinGTLT quoted (some []) s
      else if quoted = false ∧ c = 62 then opened.getD []
      else extractWithinGTLT quoted (opened.map (· ++ [c])) s := by
  cases s with
  | nil =>
    simp only [extractWithinGTLT]
    by_cases h34 : c = 34
    · subst h34
      simp
    · by_cases h60 : c = 60
      · subst h60
        simp
      · simp [h34, h60, and_comm]
  | cons d s => rw [extractWithinGTLT, if_neg hc]

/-! ## The scanners on a well-formed text -/

theorem ne_of_notMem {c d : Nat} {s : List Nat} (h : c ∉ s) (hd : d ∈ s) : c ≠ d := by
  rintro rfl
  exact h hd

theorem isQtext_ne {c : Nat} (hc : isQtext c = true ∨ isWs c = true) : c ≠ 92 ∧ c ≠ 34 := by
  obtain hc | hc := hc
  · simp only [isQtext, decide_eq_true_eq] at hc
    exact ⟨hc.2.2.2, hc.2.2.1⟩
  · exact ⟨ne_of_notMem (isWs_plain hc) (by decide), ne_of_notMem (isWs_plain hc) (by decide)⟩

theorem isCtext_ne {c : Nat} (hc : isCtext c = true ∨ isWs c = true) : c ≠ 92 ∧ c ≠ 40 ∧ c ≠ 41 := by
  obtain hc | hc := hc
  · simp only [isCtext, decide_eq_true_eq] at hc
    exact ⟨hc.2.2.2.2, hc.2.2.1, hc.2.2.2.1⟩
  · have hplain := isWs_plain hc
    exact ⟨ne_of_notMem hplain (by decide), ne_of_notMem hplain (by decide), ne_of_notMem hplain (by decide)⟩

/-- A comment is passed as a whole. -/
theorem stripComments_comment {inner : WString} (h : CommentText inner) (depth : Nat) (rest : WString) :
    stripComments (depth + 1) false (inner ++ rest) = stripComments (depth + 1) false rest := by
  induction h generalizing depth rest with
  | nil => rfl
  | char hc _ ih =>
    obtain ⟨hbackslash, hopen, hclose⟩ := isCtext_ne hc
    rw [List.cons_append, stripComments_cons hbackslash, if_neg (by simp), if_pos (by omega), if_neg hopen, if_neg hclose]
    exact ih depth rest
  | pair _ _ ih =>
    rw [List.cons_append, List.cons_append, stripComments_pair, if_neg (by omega)]
    exact ih depth rest
  | @nested inner s _ _ ihinner ih =>
    rw [List.cons_append, List.append_assoc, List.cons_append, stripComments_cons (by decide), if_neg (by simp),
      if_pos (by omega), if_pos rfl, ihinner (depth + 1) (41 :: (s ++ rest)), stripComments_cons (by decide), if_neg (by simp),
      if_pos (by omega), if_neg (by decide), if_pos rfl]
    exact ih depth rest

theorem stripComments_quoted {q : WString} (h : QuotedText q) (rest : WString) :
    stripComments 0 true (q ++ rest) = q ++ stripComments 0 true rest := by
  induction h with
  | nil => rfl
  | char hc _ ih =>
    obtain ⟨hbackslash, hquote⟩ := isQtext_ne hc
    rw [List.cons_append, stripComments_cons hbackslash, if_pos rfl, decide_eq_true hquote, ih]
    rfl
  | pair _ _ ih =>
    rw [List.cons_append, List.cons_append, stripComments_pair, if_pos rfl, ih]
    rfl

/-- `StripComments_` leaves what a mailbox is without its comments. -/
theorem stripComments_uncommented {s t : WString} (h : Uncommented s t) : stripComments 0 false s = t := by
  induction h with
  | nil => rfl
  | char hc _ ih =>
    rw [stripComments_cons (ne_of_notMem hc (by decide)), if_neg (by simp), if_neg (by simp),
      if_neg (ne_of_notMem hc (by decide)), if_neg (ne_of_notMem hc (by decide)), ih]
  | quoted hq _ ih =>
    rw [stripComments_cons (by decide), if_neg (by simp), if_neg (by simp), if_pos rfl, stripComments_quoted hq,
      stripComments_cons (by decide), if_pos rfl, decide_eq_false (by simp), ih]
  | comment hinner _ ih =>
    rw [stripComments_cons (by decide), if_neg (by simp), if_neg (by simp), if_neg (by decide), if_pos rfl,
      stripComments_comment hinner, stripComments_cons (by decide), if_neg (by simp), if_pos (by omega), if_neg (by decide),
      if_pos rfl, ih]

theorem closeQuote_quoted {q : WString} (h : QuotedText q) (rest : WString) : closeQuote (q ++ 34 :: rest) = some q := by
  induction h with
  | nil => rw [List.nil_append, closeQuote_cons (by decide), if_pos rfl]
  | char hc _ ih =>
    obtain ⟨hbackslash, hquote⟩ := isQtext_ne hc
    rw [List.cons_append, closeQuote_cons hbackslash, if_neg hquote, ih]
    rfl
  | pair _ _ ih =>
    rw [List.cons_append, List.cons_append, closeQuote, if_pos rfl, ih]
    rfl

/-- Quoted text is no part of what the scanner for brackets looks for. -/
theorem extractWithinGTLT_quoted {q : WString} (h : QuotedText q) (opened : Option WString) (rest : WString) :
    extractWithinGTLT true opened (q ++ rest) = extractWithinGTLT true (opened.map (· ++ q)) rest := by
  induction h generalizing opened with
  | nil => simp
  | char hc _ ih =>
    obtain ⟨hbackslash, hquote⟩ := isQtext_ne hc
    rw [List.cons_append, extractWithinGTLT_cons hbackslash, if_neg hquote, if_neg (by simp), if_neg (by simp), ih,
      Option.map_map]
    congr 2
    funext o
    simp
  | pair _ _ ih =>
    rw [List.cons_append, List.cons_append, extractWithinGTLT, if_pos rfl, ih, Option.map_map]
    congr 2
    funext o
    simp

theorem extractWithinGTLT_tokens {s : WString} (h : Tokens s) (opened : Option WString) (rest : WString) :
    extractWithinGTLT false opened (s ++ rest) = extractWithinGTLT false (opened.map (· ++ s)) rest := by
  induction h generalizing opened with
  | nil => simp
  | char hc _ ih =>
    rw [List.cons_append, extractWithinGTLT_cons (ne_of_notMem hc (by decide)), if_neg (ne_of_notMem hc (by decide)),
      if_neg (fun h => ne_of_notMem hc (by decide) h.2), if_neg (fun h => ne_of_notMem hc (by decide) h.2), ih,
      Option.map_map]
    congr 2
    funext o
    simp
  | @quoted q s hq _ ih =>
    rw [List.cons_append, List.append_assoc, List.cons_append, extractWithinGTLT_cons (by decide), if_pos rfl, Bool.not_false,
      extractWithinGTLT_quoted hq, extractWithinGTLT_cons (by decide), if_pos rfl, Bool.not_true, ih, Option.map_map,
      Option.map_map, Option.map_map]
    congr 2
    funext o
    simp

/-- The rest of the list is one compound. -/
def OneCompound (quoted : Bool) (s : WString) : Prop :=
  ∀ n word, word ++ s ≠ [] → compounds n quoted word s = [word ++ s]

theorem oneCompound_nil (quoted : Bool) : OneCompound quoted [] := by
  intro n word hne
  rw [List.append_nil] at hne ⊢
  cases n <;> rw [compounds, if_neg hne]

theorem compounds_zero (quoted : Bool) (word : WString) (c : WChar) (s : WString) :
    compounds 0 quoted word (c :: s) = [word ++ c :: s] := by
  rw [compounds]
  exact List.cons_ne_nil _ _

theorem OneCompound.char {quoted : Bool} {c : WChar} {s : WString} (hc : c ≠ 92) (hquote : c ≠ 34)
    (hcomma : quoted = true ∨ c ≠ 44) (h : OneCompound quoted s) : OneCompound quoted (c :: s) := by
  intro n word _
  cases n with
  | zero => exact compounds_zero quoted word c s
  | succ n =>
    have hnot : ¬ (quoted = false ∧ c = 44) := by
      rintro ⟨hquoted, h44⟩
      rcases hcomma with h | h
      · rw [hquoted] at h
        cases h
      · exact h h44
    rw [compounds_cons hc, if_neg hquote, if_neg hnot, h n (word ++ [c]) (by simp), List.append_assoc]
    rfl

theorem OneCompound.pair {quoted : Bool} {d : WChar} {s : WString} (h : OneCompound quoted s) :
    OneCompound quoted (92 :: d :: s) := by
  intro n word _
  cases n with
  | zero => exact compounds_zero quoted word 92 (d :: s)
  | succ n =>
    rw [compounds, if_pos rfl, h n (word ++ [92, d]) (by simp), List.append_assoc]
    rfl

theorem OneCompound.quote {quoted : Bool} {s : WString} (h : OneCompound (!quoted) s) : OneCompound quoted (34 :: s) := by
  intro n word _
  cases n with
  | zero => exact compounds_zero quoted word 34 s
  | succ n =>
    rw [compounds_cons (by decide), if_pos rfl, h n (word ++ [34]) (by simp), List.append_assoc]
    rfl

theorem OneCompound.quotedText {q s : WString} (hq : QuotedText q) (h : OneCompound true s) : OneCompound true (q ++ s) := by
  induction hq with
  | nil => exact h
  | char hc _ ih =>
    obtain ⟨hbackslash, hquote⟩ := isQtext_ne hc
    exact ih.char hbackslash hquote (.inl rfl)
  | pair _ _ ih => exact ih.pair

/-- No comma outside quotes. -/
theorem OneCompound.tokens {s t : WString} (hs : Tokens s) (h : OneCompound false t) : OneCompound false (s ++ t) := by
  induction hs with
  | nil => exact h
  | char hc _ ih =>
    exact ih.char (ne_of_notMem hc (by decide)) (ne_of_notMem hc (by decide)) (.inr (ne_of_notMem hc (by decide)))
  | quoted hq _ ih =>
    rw [List.cons_append, List.append_assoc, List.cons_append]
    exact .quote (.quotedText hq (.quote ih))

/-! ## What is unescaped and encoded -/

theorem replacePair_subset (a b r : WChar) (s : WString) : ∀ c ∈ WString.replacePair a b r s, c ∈ s ∨ c = r := by
  fun_induction WString.replacePair a b r s with
  | case1 x y s _ ih =>
    intro c hc
    rcases List.mem_cons.1 hc with rfl | hc
    · exact .inr rfl
    · exact (ih c hc).imp_left fun hmem => List.mem_cons_of_mem _ (List.mem_cons_of_mem _ hmem)
  | case2 x y s _ ih =>
    intro c hc
    rcases List.mem_cons.1 hc with rfl | hc
    · exact .inl List.mem_cons_self
    · exact (ih c hc).imp_left (List.mem_cons_of_mem _)
  | case3 => exact fun c hc => .inl hc

/-- Nothing is replaced across a character that is no part of a pair. -/
theorem replacePair_append {a b r c : WChar} (ha : c ≠ a) (hb : c ≠ b) (s t : WString) :
    WString.replacePair a b r (s ++ c :: t) = WString.replacePair a b r s ++ c :: WString.replacePair a b r t := by
  have hcons : ∀ {x : WChar} (u : WString), x ≠ a → WString.replacePair a b r (x :: u) = x :: WString.replacePair a b r u := by
    intro x u hx
    cases u with
    | nil => rfl
    | cons y u => rw [WString.replacePair, if_neg fun h => hx h.1]
  fun_induction WString.replacePair a b r s with
  | case1 x y s h ih =>
    rw [List.cons_append, List.cons_append, WString.replacePair, if_pos h, ih, List.cons_append]
  | case2 x y s h ih =>
    rw [List.cons_append, List.cons_append, WString.replacePair, if_neg h, ← List.cons_append, ih, List.cons_append]
  | case3 s hshort =>
    match s, hshort with
    | [], _ => rw [List.nil_append, hcons t ha]; rfl
    | [x], _ =>
      rw [List.cons_append, List.nil_append, WString.replacePair, if_neg fun h => hb h.2, hcons t ha]
      rfl
    | x :: y :: u, hshort => exact absurd rfl (hshort x y u)

theorem replacePair_of_notMem {a b r : WChar} {s : WString} (h : a ∉ s) : WString.replacePair a b r s = s := by
  fun_induction WString.replacePair a b r s with
  | case1 x y s hpair _ => exact absurd (by rw [hpair.1]; exact List.mem_cons_self) h
  | case2 x y s _ ih =>
    rw [List.mem_cons, not_or] at h
    rw [ih h.2]
  | case3 => rfl

/-- The domain of an address is not touched. -/
theorem unescapeString_at {s t : WString} (ht : 92 ∉ t) : ∃ s', unescapeString (s ++ 64 :: t) = s' ++ 64 :: t := by
  refine ⟨unescapeString s, ?_⟩
  rw [unescapeString, replacePair_append (by decide) (by decide), replacePair_of_notMem ht,
    replacePair_append (by decide) (by decide), replacePair_of_notMem ht]
  rfl

theorem unescapeString_eq_nil {s : WString} (h : unescapeString s = []) : s = [] := by
  have hnil : ∀ {b r : WChar} {s : WString}, WString.replacePair 92 b r s = [] → s = [] := by
    intro b r s h
    match s with
    | [] => rfl
    | [x] => cases h
    | x :: y :: s =>
      rw [WString.replacePair] at h
      split at h <;> cases h
  exact hnil (hnil h)

/-- Printable text without white space is not encoded. -/
theorem isProperlyEncoded_printable {s : WString} (h : ∀ c ∈ s, 33 ≤ c ∧ c ≤ 126) (inside : Bool) :
    Charset.isProperlyEncoded inside s = true := by
  have hbounds : ∀ {inside : Bool} {c : Nat}, 33 ≤ c ∧ c ≤ 126 → (if inside then 33 else 32) ≤ c ∧ c ≤ 126 := by
    intro inside c hc
    cases inside
    · exact ⟨Nat.le_trans (by decide) hc.1, hc.2⟩
    · exact hc
  fun_induction Charset.isProperlyEncoded inside s with
  | case1 => rfl
  | case2 inside c => exact decide_eq_true (hbounds (h c List.mem_cons_self))
  | case3 inside c d s _ ih => exact ih fun x hx => h x (List.mem_cons_of_mem _ (List.mem_cons_of_mem _ hx))
  | case4 inside c d s _ _ ih => exact ih fun x hx => h x (List.mem_cons_of_mem _ (List.mem_cons_of_mem _ hx))
  | case5 inside c d s _ _ ih =>
    rw [Bool.and_eq_true]
    exact ⟨decide_eq_true (hbounds (h c List.mem_cons_self)), ih fun x hx => h x (List.mem_cons_of_mem _ hx)⟩

theorem encode_printable (env : AddressEnvironment) {s : WString} (h : ∀ c ∈ s, 33 ≤ c ∧ c ≤ 126) :
    Charset.encode env s = s := by
  rw [Charset.encode, if_pos (isProperlyEncoded_printable h false)]

/-- What is encoded has no at sign that was not there. -/
theorem at_notMem_encode (env : AddressEnvironment) {s : WString} (h : 64 ∉ s) : 64 ∉ Charset.encode env s := by
  rw [Charset.encode]
  split
  · exact h
  · rw [Charset.b64Encode, List.mem_append, List.mem_append, not_or, not_or]
    refine ⟨⟨by decide, ?_⟩, by decide⟩
    rw [Charset.base64Encode]
    split
    · exact List.not_mem_nil
    · intro hmem
      obtain ⟨c, hc, hat⟩ := List.mem_map.1 hmem
      have hcode := MimeCodeBase64.isBase64_encode _ c hc
      have hc64 : c = 64 := UInt8.toNat_inj.1 hat
      rw [hc64] at hcode
      exact absurd hcode (by decide)

/-- The conversion of ASCII text keeps its length. -/
def NarrowsAscii (env : AddressEnvironment) : Prop :=
  ∀ s : WString, (∀ c ∈ s, c < 128) → (env.narrow s).length = s.length

/-- An encoded text is not shorter. -/
theorem length_encode_le {env : AddressEnvironment} (henv : NarrowsAscii env) {s : WString} (h : ∀ c ∈ s, c < 128) :
    s.length ≤ (Charset.encode env s).length := by
  rw [Charset.encode]
  split
  · exact Nat.le_refl _
  · rw [Charset.b64Encode, List.length_append, List.length_append, Charset.base64Encode]
    split
    · rename_i hnil
      rw [hnil]
      exact Nat.zero_le _
    · rw [List.length_map, MimeCodeBase64.length_encode, henv s h]
      omega

/-! ## Valid addresses -/

/-- The characters of a valid domain. -/
def IsDomainChar (c : Nat) : Prop :=
  48 ≤ c ∧ c ≤ 57 ∨ 65 ≤ c ∧ c ≤ 90 ∨ 97 ≤ c ∧ c ≤ 122 ∨ c = 45 ∨ c = 46 ∨ c = 58 ∨ c = 91 ∨ c = 93

theorem isLabel_chars {s : WString} (h : StringParser.isLabel s = true) {c : Nat} (hc : c ∈ s) : IsDomainChar c := by
  simp only [StringParser.isLabel, Bool.and_eq_true, List.all_eq_true, Bool.or_eq_true, decide_eq_true_eq] at h
  obtain halnum | rfl := h.2 c hc
  · simp only [StringParser.isAlnum, decide_eq_true_eq] at halnum
    unfold IsDomainChar
    tauto
  · unfold IsDomainChar
    tauto

theorem isAddressLiteral_chars {s : WString} (h : StringParser.isAddressLiteral s = true) {c : Nat} (hc : c ∈ s) :
    IsDomainChar c := by
  unfold StringParser.isAddressLiteral at h
  split at h
  · rename_i rest
    simp only [Bool.and_eq_true, Bool.or_eq_true, List.all_eq_true, decide_eq_true_eq] at h
    obtain ⟨hlast, hinner⟩ := h
    have hrest : rest = rest.dropLast ++ [93] := (List.dropLast_append_getLast? 93 hlast).symm
    rw [hrest, List.mem_cons, List.mem_append, List.mem_singleton] at hc
    rcases hc with rfl | hc | rfl
    · unfold IsDomainChar
      tauto
    · obtain ⟨_, hoctets⟩ | ⟨⟨htag, _⟩, hgroups⟩ := hinner
      · obtain rfl | ⟨octet, hoctet, hc⟩ := Separated.mem_or_mem_splitOn 46 hc
        · unfold IsDomainChar
          tauto
        · have hdigit := (hoctets octet hoctet).2 c hc
          exact .inl hdigit
      · -- behind the tag come groups of hexadecimal digits
        rw [← List.take_append_drop 5 rest.dropLast, List.mem_append, htag] at hc
        rcases hc with hc | hc
        · have htags : ∀ c ∈ wide "IPv6:", IsDomainChar c := by
            unfold IsDomainChar
            decide
          exact htags c hc
        · obtain rfl | ⟨group, hgroup, hc⟩ := Separated.mem_or_mem_splitOn 58 hc
          · unfold IsDomainChar
            tauto
          · have hdigit := (hgroups group hgroup).2 c hc
            simp only [StringParser.isHexDigit, decide_eq_true_eq] at hdigit
            have hhex : ∀ n : Nat, 48 ≤ n ∧ n ≤ 57 ∨ 65 ≤ n ∧ n ≤ 70 ∨ 97 ≤ n ∧ n ≤ 102 → IsDomainChar n := by
              unfold IsDomainChar
              omega
            exact hhex c hdigit
    · unfold IsDomainChar
      tauto
  · cases h

theorem isValidDomain_chars {s : WString} (h : StringParser.isValidDomain s = true) {c : Nat} (hc : c ∈ s) :
    IsDomainChar c := by
  simp only [StringParser.isValidDomain, Bool.or_eq_true, Bool.and_eq_true, List.all_eq_true] at h
  obtain hliteral | ⟨_, hlabels⟩ := h
  · exact isAddressLiteral_chars hliteral hc
  · obtain rfl | ⟨label, hlabel, hc⟩ := Separated.mem_or_mem_splitOn 46 hc
    · unfold IsDomainChar
      tauto
    · exact isLabel_chars (hlabels label hlabel) hc

theorem isDomainChar_plain {c : Nat} (h : IsDomainChar c) : (33 ≤ c ∧ c ≤ 126) ∧ c ≠ 62 ∧ c ≠ 64 ∧ isWs c = false := by
  unfold IsDomainChar at h
  refine ⟨by omega, by omega, by omega, ?_⟩
  rw [Bool.eq_false_iff]
  simp only [isWs, ne_eq, decide_eq_true_eq]
  omega

/-- A valid address has a domain behind its last at sign. -/
theorem isValidEmailAddress_domain {s : WString} (h : StringParser.isValidEmailAddress s = true) :
    ∃ localPart, s = localPart ++ 64 :: StringParser.extractDomain s ∧ StringParser.extractDomain s ≠ [] ∧
      ∀ c ∈ StringParser.extractDomain s, (33 ≤ c ∧ c ≤ 126) ∧ c ≠ 62 ∧ c ≠ 64 ∧ isWs c = false := by
  rw [StringParser.isValidEmailAddress, Bool.and_eq_true] at h
  obtain ⟨_, h⟩ := h
  split at h
  · cases h
  · rename_i localPart domain hcut
    rw [Bool.and_eq_true] at h
    have hdomain : StringParser.extractDomain s = domain := by
      rw [StringParser.extractDomain, hcut]
      rfl
    rw [hdomain]
    refine ⟨localPart, (Cut.eq_of_cutLast hcut).1, ?_, fun c hc => isDomainChar_plain (isValidDomain_chars h.2 hc)⟩
    rintro rfl
    exact absurd h.2 (by decide)

/-! ## One mailbox -/

/-- White space below 128 is what it is in every locale. -/
def PlainSpaces (loc : Locale) : Prop := ∀ c < 128, loc.isSpace c = classicLocale.isSpace c

theorem isSpace_of_isWs {loc : Locale} (hloc : PlainSpaces loc) {c : Nat} (hc : isWs c = true) : loc.isSpace c = true := by
  simp only [isWs, decide_eq_true_eq] at hc
  rcases hc with rfl | rfl | rfl | rfl <;> rw [hloc _ (by decide)] <;> decide

theorem isSpace_of_printable {loc : Locale} (hloc : PlainSpaces loc) {c : Nat} (hc : 33 ≤ c ∧ c ≤ 126) :
    loc.isSpace c = false := by
  have hlt : c < 128 := by omega
  have hclassic : ((c == 32 || (decide (9 ≤ c) && decide (c ≤ 13))) : Bool) = false := by
    rw [Bool.eq_false_iff]
    simp only [ne_eq, Bool.or_eq_true, beq_iff_eq, Bool.and_eq_true, decide_eq_true_eq]
    omega
  rw [hloc c hlt]
  exact hclassic

theorem trim_bounded {loc : Locale} (hloc : PlainSpaces loc) {l s r : WString} (hl : ∀ c ∈ l, isWs c = true) (hs : Bounded s)
    (hr : ∀ c ∈ r, isWs c = true) : WString.trim loc (l ++ s ++ r) = s := by
  have hfront : (l ++ s ++ r).dropWhile loc.isSpace = s ++ r := by
    rw [List.append_assoc, List.dropWhile_append_of_pos fun c hc => isSpace_of_isWs hloc (hl c hc)]
    obtain ⟨c, rest, rfl⟩ := List.exists_cons_of_ne_nil hs.ne_nil
    rw [List.cons_append, List.dropWhile_cons_of_neg]
    rw [isSpace_of_printable hloc (hs.head c rfl)]
    exact Bool.false_ne_true
  have hbehind : ∀ r : WString, (∀ c ∈ r, isWs c = true) → (s ++ r).rdropWhile loc.isSpace = s := by
    intro r hr
    induction r using List.reverseRecOn with
    | nil =>
      rw [List.append_nil, List.rdropWhile_eq_self_iff]
      intro hne
      rw [isSpace_of_printable hloc (hs.last _ (List.getLast?_eq_some_getLast hne))]
      exact Bool.false_ne_true
    | append_singleton r c ih =>
      have hc : loc.isSpace c = true := isSpace_of_isWs hloc (hr c (by simp))
      rw [← List.append_assoc, List.rdropWhile_concat_pos _ _ _ hc]
      exact ih fun d hd => hr d (List.mem_append_left _ hd)
  rw [WString.trim, hfront, hbehind r hr]

/-- What is answered for the compound `V` of the field `value`. -/
def answer (env : AddressEnvironment) (value V : WString) : WString :=
  let parts := extractParts env V
  let domain := Charset.encode env (parts.2.2.filter (· ≠ 62))
  if domain = [] then value else Charset.encode env (parts.2.1.filter (· ≠ 60)) ++ wide "@" ++ domain

/-- A field with one mailbox: what is left of it without comments is one
    compound. -/
theorem extractAddress_eq {env : AddressEnvironment} (hloc : PlainSpaces env.loc) {l value r value' l' V r' : WString}
    (hl : ∀ c ∈ l, isWs c = true) (hr : ∀ c ∈ r, isWs c = true) (hvalue : Bounded value)
    (hstrip : Uncommented value value') (hone : OneCompound false value') (hV : value' = l' ++ V ++ r')
    (hl' : ∀ c ∈ l', isWs c = true) (hr' : ∀ c ∈ r', isWs c = true) (hbounded : Bounded V) :
    extractAddressFromHeaderValue env (l ++ value ++ r) = answer env value V := by
  have hne : [] ++ value' ≠ [] := by
    rw [hV, List.nil_append]
    exact List.append_ne_nil_of_left_ne_nil (List.append_ne_nil_of_right_ne_nil _ hbounded.ne_nil) _
  have hcompound : compounds 1000000 false [] value' = [value'] := hone 1000000 [] hne
  rw [extractAddressFromHeaderValue, trim_bounded hloc hl hvalue hr, stripComments_uncommented hstrip, parseList, hcompound,
    List.map_singleton, hV, trim_bounded hloc hl' hbounded hr']
  rfl

theorem extractDomain_append (s : WString) {d : WString} (hd : 64 ∉ d) : StringParser.extractDomain (s ++ 64 :: d) = d := by
  rw [StringParser.extractDomain, Cut.cutLast_append hd]
  rfl

/-- The domain of the answer is the encoded domain of the compound, or that of
    the whole field. -/
theorem extractDomain_answer (env : AddressEnvironment) (value : WString) {V : WString}
    (hat : 64 ∉ (extractParts env V).2.2) :
    StringParser.extractDomain (answer env value V) =
      if Charset.encode env ((extractParts env V).2.2.filter (· ≠ 62)) = [] then StringParser.extractDomain value
      else Charset.encode env ((extractParts env V).2.2.filter (· ≠ 62)) := by
  rw [answer]
  split
  · rfl
  · rw [List.append_assoc]
    exact extractDomain_append _ (at_notMem_encode env fun hmem => hat (List.mem_of_mem_filter hmem))

/-- Behind a display name the address between the angle brackets is taken. -/
theorem extractParts_angle (env : AddressEnvironment) {x p d : WString} (hx : Tokens x) (hp : Tokens (p ++ 64 :: d))
    (hbackslash : 92 ∉ d) (hat : 64 ∉ d) : (extractParts env (x ++ 60 :: (p ++ 64 :: d ++ [62]))).2.2 = d := by
  have hwithin : extractWithinGTLT false none (x ++ 60 :: (p ++ 64 :: d ++ [62])) = p ++ 64 :: d := by
    rw [extractWithinGTLT_tokens hx, extractWithinGTLT_cons (by decide), if_neg (by decide), if_pos ⟨rfl, rfl⟩,
      extractWithinGTLT_tokens hp, extractWithinGTLT_cons (by decide), if_neg (by decide), if_neg (by decide),
      if_pos ⟨rfl, rfl⟩]
    rfl
  obtain ⟨p', hunescaped⟩ := unescapeString_at (s := p) hbackslash
  have hne : p' ++ 64 :: d ≠ [] := by simp
  rw [extractParts, hwithin, hunescaped]
  dsimp only
  rw [if_neg fun h => hne h.1]
  exact extractDomain_append p' hat

/-- Without angle brackets the first quoted string is taken for the address, or
    the whole compound, if it is a valid one. -/
theorem extractParts_plain (env : AddressEnvironment) {V guess : WString} (hV : Tokens V)
    (hguess : guess = unescapeString (extractQuotedString V) ∧ guess ≠ [] ∨
      unescapeString (extractQuotedString V) = [] ∧ 60 ∉ V ∧ guess = V) :
    (extractParts env V).2.2 = if StringParser.isValidEmailAddress guess then StringParser.extractDomain guess else [] := by
  have hwithin : extractWithinGTLT false none V = [] := by
    have h := extractWithinGTLT_tokens hV none []
    rw [List.append_nil] at h
    rw [h]
    rfl
  have hdomain : ∀ fullName : WString,
      StringParser.extractDomain (if unescapeString [] = [] ∧ StringParser.isValidEmailAddress fullName = true then fullName
        else unescapeString []) =
      if StringParser.isValidEmailAddress fullName then StringParser.extractDomain fullName else [] := by
    intro fullName
    have hnil : unescapeString [] = [] := rfl
    by_cases hvalid : StringParser.isValidEmailAddress fullName = true
    · rw [if_pos ⟨hnil, hvalid⟩, if_pos hvalid]
    · rw [if_neg fun h => hvalid h.2, if_neg hvalid]
      rfl
  rw [extractParts, hwithin]
  dsimp only
  rw [hdomain]
  obtain ⟨hquoted, hne⟩ | ⟨hquoted, hangle, rfl⟩ := hguess
  · rw [← hquoted]
    cases guess with
    | nil => exact absurd rfl hne
    | cons c rest => simp
  · have hfind : WString.findFrom guess 60 0 = none := by
      rw [WString.findFrom, List.drop_zero, Scan.findIdx?_none]
      · rfl
      · intro c hc
        rw [beq_eq_false_iff_ne]
        exact fun h => hangle (h ▸ hc)
    have hnil : unescapeString [] = [] := rfl
    rw [hquoted, hfind]
    simp [hnil]

/-- The address without its comments and the blanks at its ends. -/
def addressText (a : AddrSpec) : WString :=
  a.localPart.text ++ bareBlanks a.afterLocal ++ 64 :: (bareBlanks a.beforeDomain ++ a.domain.text)

/-- What is taken for the address where there are no angle brackets: the text of
    a quoted local part, if there is any. -/
def guess (a : AddrSpec) : WString :=
  match a.localPart with
  | .quoted (c :: q) => unescapeString (c :: q)
  | _ => addressText a

/-- In angle brackets no white space is left between the at sign and the closing
    bracket. Without them the text taken for the address has the domain, if it is
    a valid address; else nothing but the domain may stand behind the at sign. -/
def StandsAlone : Mailbox → Prop
  | .nameAddr _ _ a _ => ∀ c ∈ a.bareDomain, isWs c = false
  | .addrSpec a =>
    if StringParser.isValidEmailAddress (guess a) then StringParser.extractDomain (guess a) = a.domain.name
    else a.beforeDomain = [] ∧ (∀ b ∈ a.afterDomain, b.IsSpace) ∧ ∀ c ∈ a.domain.text, isWs c = false

theorem filter_bareBlanks {bs : List Blank} (hbs : BlanksWellFormed bs) : (bareBlanks bs).filter (!isWs ·) = [] := by
  rw [List.filter_eq_nil_iff]
  intro c hc
  rw [isWs_of_mem_bareBlanks hbs hc]
  decide

/-- A mailbox that DMARC reads as it is written. -/
def ReadAsWritten (m : Mailbox) : Prop := m.address.domain.Plain ∧ StandsAlone m

section Address

variable {a : AddrSpec} (h : a.WellFormed) (hplain : a.domain.Plain)
include h

theorem bareDomain_chars : ∀ c ∈ a.bareDomain, isWs c = true ∨ 33 ≤ c ∧ c ≤ 126 := by
  intro c hc
  rw [AddrSpec.bareDomain, List.mem_append, List.mem_append] at hc
  rcases hc with (hc | hc) | hc
  · exact .inl (isWs_of_mem_bareBlanks h.beforeDomain hc)
  · exact (h.domain.chars c hc).1
  · exact .inl (isWs_of_mem_bareBlanks h.afterDomain hc)

/-- The domain is what is written behind the at sign but for blanks. -/
theorem name_eq : a.domain.name = a.bareDomain.filter (!isWs ·) := by
  rw [AddrSpec.bareDomain, List.filter_append, List.filter_append, filter_bareBlanks h.beforeDomain,
    filter_bareBlanks h.afterDomain, List.nil_append, List.append_nil]
  rfl

/-- The domain between the brackets comes out if no white space is left in it. -/
theorem encode_bareDomain_iff {env : AddressEnvironment} (henv : NarrowsAscii env) :
    Charset.encode env a.bareDomain = a.domain.name ↔ ∀ c ∈ a.bareDomain, isWs c = false := by
  rw [name_eq h]
  constructor
  · intro heq c hc
    by_contra hws
    rw [Bool.not_eq_false] at hws
    have hascii : ∀ c ∈ a.bareDomain, c < 128 := by
      intro c hc
      obtain hc | hc := bareDomain_chars h c hc
      · simp only [isWs, decide_eq_true_eq] at hc
        omega
      · omega
    have hlonger := length_encode_le henv hascii
    have hshorter : (a.bareDomain.filter (!isWs ·)).length < a.bareDomain.length := by
      apply List.length_filter_lt_length_iff_exists.2
      exact ⟨c, hc, by rw [hws]; decide⟩
    rw [heq] at hlonger
    omega
  · intro hnone
    rw [List.filter_eq_self.2 fun c hc => by rw [hnone c hc]; rfl]
    apply encode_printable
    intro c hc
    obtain hws | hprintable := bareDomain_chars h c hc
    · rw [hnone c hc] at hws
      cases hws
    · exact hprintable

include hplain

theorem bareDomain_plain : ∀ c ∈ a.bareDomain, c ∉ delimiters := by
  intro c hc
  rw [AddrSpec.bareDomain, List.mem_append, List.mem_append] at hc
  rcases hc with (hc | hc) | hc
  · exact isWs_plain (isWs_of_mem_bareBlanks h.beforeDomain hc)
  · exact h.domain.plain hplain c hc
  · exact isWs_plain (isWs_of_mem_bareBlanks h.afterDomain hc)

end Address

theorem encode_ne_nil (env : AddressEnvironment) {s : WString} (h : s ≠ []) : Charset.encode env s ≠ [] := by
  rw [Charset.encode]
  split
  · exact h
  · rw [Charset.b64Encode, List.append_assoc]
    exact List.cons_ne_nil _ _

theorem bareDomain_ne_nil {a : AddrSpec} (h : a.WellFormed) : a.bareDomain ≠ [] :=
  List.append_ne_nil_of_left_ne_nil (List.append_ne_nil_of_right_ne_nil _ h.domain.bounded.ne_nil) _

theorem Uncommented.addrSpec {a : AddrSpec} (h : a.WellFormed) (hplain : a.domain.Plain) : Uncommented a.text a.bare := by
  have hdomain : Uncommented a.domainText a.bareDomain :=
    ((Uncommented.ofBlanks h.beforeDomain).append (Uncommented.ofTokens (Tokens.plain (h.domain.plain hplain)))).append
      (Uncommented.ofBlanks h.afterDomain)
  exact (((Uncommented.ofBlanks h.beforeLocal).append (Uncommented.ofTokens h.localPart.tokens)).append
    (Uncommented.ofBlanks h.afterLocal)).append (.char (by decide) hdomain)

theorem Uncommented.display {display : List Word} (h : ∀ w ∈ display, w.WellFormed) :
    Uncommented (display.flatMap Word.text) (display.flatMap Word.bare) := by
  induction display with
  | nil => exact .nil
  | cons w display ih =>
    have hw := h w List.mem_cons_self
    rw [List.flatMap_cons, List.flatMap_cons]
    exact (((Uncommented.ofBlanks hw.before).append (Uncommented.ofTokens hw.core.tokens)).append
      (Uncommented.ofBlanks hw.after)).append (ih fun v hv => h v (List.mem_cons_of_mem _ hv))

/-- What stands between the blanks at the ends of a mailbox in angle brackets. -/
theorem nameAddr_middle {display : List Word} {before after : List Blank} {a : AddrSpec}
    (h : (Mailbox.nameAddr display before a after).WellFormed) (hplain : a.domain.Plain) :
    ∃ front M x, (Mailbox.nameAddr display before a after).text = blanks front ++ M ++ blanks after ∧
      BlanksWellFormed front ∧ Bounded M ∧ Uncommented M (x ++ 60 :: (a.bare ++ [62])) ∧ Tokens x ∧
      Bounded (x ++ 60 :: (a.bare ++ [62])) := by
  obtain ⟨hdisplay, hbefore, ha, hafter⟩ := h
  have hangles : Uncommented (60 :: (a.text ++ [62])) (60 :: (a.bare ++ [62])) :=
    .char (by decide) ((Uncommented.addrSpec ha hplain).append (.char (by decide) .nil))
  have hopen : ∀ s : WString, Bounded (60 :: (s ++ [62])) := fun s =>
    Bounded.append (bounded_singleton (by decide)) (bounded_singleton (by decide)) s
  have hends : ∀ {core : WString} (s t : WString), Bounded core → Bounded (core ++ s ++ 60 :: (t ++ [62])) :=
    fun s t hcore => hcore.append (hopen t) s
  cases display with
  | nil =>
    refine ⟨before, 60 :: (a.text ++ [62]), [], ?_, hbefore, hopen _, hangles, .nil, hopen _⟩
    simp [Mailbox.text]
  | cons w display =>
    have hw := hdisplay w List.mem_cons_self
    have hrest := fun v hv => hdisplay v (List.mem_cons_of_mem _ hv)
    refine ⟨w.before, w.core.text ++ (blanks w.after ++ display.flatMap Word.text ++ blanks before) ++ 60 :: (a.text ++ [62]),
      w.core.text ++ (bareBlanks w.after ++ display.flatMap Word.bare ++ bareBlanks before), ?_, hw.before,
      hends _ _ hw.core.bounded, ?_, ?_, hends _ _ hw.core.bounded⟩
    · simp [Mailbox.text, Word.text]
    · exact ((Uncommented.ofTokens hw.core.tokens).append
        (((Uncommented.ofBlanks hw.after).append (Uncommented.display hrest)).append (Uncommented.ofBlanks hbefore))).append
        hangles
    · exact hw.core.tokens.append
        (((tokens_bareBlanks hw.after).append (tokens_display hrest)).append (tokens_bareBlanks hbefore))

/-- A display name, if any, and an address in angle brackets. -/
theorem nameAddr_domain {env : AddressEnvironment} (hloc : PlainSpaces env.loc) {display : List Word} {before after : List Blank}
    {a : AddrSpec} (h : (Mailbox.nameAddr display before a after).WellFormed) (hplain : a.domain.Plain) :
    StringParser.extractDomain (extractAddressFromHeaderValue env (Mailbox.nameAddr display before a after).text) =
      Charset.encode env a.bareDomain := by
  obtain ⟨front, M, x, htext, hfront, hM, hbare, hx, hV⟩ := nameAddr_middle h hplain
  obtain ⟨_, _, ha, hafter⟩ := h
  obtain ⟨l, bs₁, hl, hlws, hbs₁, hhead⟩ := blanks_front hfront
  obtain ⟨bs₂, r, hr, hrws, hbs₂, hlast, _⟩ := blanks_behind hafter
  have hstrip := ((Uncommented.ofBlanks hbs₁).append hbare).append (Uncommented.ofBlanks hbs₂)
  have hone : OneCompound false (bareBlanks bs₁ ++ (x ++ 60 :: (a.bare ++ [62])) ++ bareBlanks bs₂) := by
    have hblanks : OneCompound false (bareBlanks bs₂ ++ []) := .tokens (tokens_bareBlanks hbs₂) (oneCompound_nil false)
    rw [List.append_nil] at hblanks
    have hclose : OneCompound false (a.bare ++ 62 :: bareBlanks bs₂) :=
      .tokens (ha.tokens hplain) (hblanks.char (by decide) (by decide) (.inr (by decide)))
    have hangle : OneCompound false (bareBlanks bs₁ ++ x ++ 60 :: (a.bare ++ 62 :: bareBlanks bs₂)) :=
      .tokens ((tokens_bareBlanks hbs₁).append hx) (hclose.char (by decide) (by decide) (.inr (by decide)))
    simpa using hangle
  have hfield : (Mailbox.nameAddr display before a after).text = l ++ (blanks bs₁ ++ M ++ blanks bs₂) ++ r := by
    rw [htext, hl, hr]
    simp
  have hdomain := bareDomain_plain ha hplain
  have hbackslash : 92 ∉ a.bareDomain := fun hc => hdomain 92 hc (by decide)
  have hat : 64 ∉ a.bareDomain := fun hc => hdomain 64 hc (by decide)
  have hparts : (extractParts env (x ++ 60 :: (a.bare ++ [62]))).2.2 = a.bareDomain :=
    extractParts_angle env hx (ha.tokens hplain) hbackslash hat
  have hfilter : a.bareDomain.filter (· ≠ 62) = a.bareDomain := by
    rw [List.filter_eq_self]
    intro c hc
    rw [decide_eq_true_eq]
    rintro rfl
    exact hdomain 62 hc (by decide)
  rw [hfield, extractAddress_eq hloc hlws hrws (bounded_blanks hhead hM hlast) hstrip hone rfl
    (fun c hc => isWs_of_mem_bareBlanks hbs₁ hc) (fun c hc => isWs_of_mem_bareBlanks hbs₂ hc) hV,
    extractDomain_answer env _ (by rw [hparts]; exact hat), hparts, hfilter, if_neg (encode_ne_nil env (bareDomain_ne_nil ha))]

/-! ## An address without angle brackets -/

/-- Every at sign is inside a comment, which is closed behind it. -/
def Closed (s : WString) : Prop := ∀ u v, s = u ++ 64 :: v → 41 ∈ v

theorem Closed.append {s t : WString} (hs : Closed s) (ht : Closed t) : Closed (s ++ t) := by
  intro u v h
  obtain ⟨a, hu, hrest⟩ | ⟨a, hsplit, hrest⟩ := List.append_eq_append_iff.1 h
  · exact ht a v hrest
  · cases a with
    | nil => exact ht [] v hrest.symm
    | cons c a =>
      obtain ⟨rfl, rfl⟩ := List.cons.inj hrest
      exact List.mem_append_left _ (hs u a hsplit)

theorem closed_of_notMem {s : WString} (h : 64 ∉ s) : Closed s := by
  rintro u v rfl
  exact absurd (by simp) h

theorem closed_blanks {bs : List Blank} (h : BlanksWellFormed bs) : Closed (blanks bs) := by
  induction bs with
  | nil => exact closed_of_notMem List.not_mem_nil
  | cons b bs ih =>
    rw [blanks, List.flatMap_cons]
    refine Closed.append ?_ (ih fun b hb => h b (List.mem_cons_of_mem _ hb))
    have hb := h b List.mem_cons_self
    cases b with
    | space c =>
      apply closed_of_notMem
      rw [Blank.text, List.mem_singleton]
      rintro rfl
      exact isWs_plain hb (by decide)
    | comment inner =>
      intro u v heq
      rw [Blank.text, ← List.cons_append] at heq
      rcases List.eq_nil_or_concat v with rfl | ⟨v, c, rfl⟩
      · have hlast := congrArg List.getLast? heq
        rw [List.getLast?_concat, List.getLast?_concat] at hlast
        cases hlast
      · have hlast := congrArg List.getLast? heq
        rw [List.concat_eq_append, ← List.cons_append, ← List.append_assoc, List.getLast?_concat, List.getLast?_concat] at hlast
        rw [← Option.some.inj hlast]
        simp

/-- A blank is seen in the text. -/
theorem blanks_eq_nil {bs : List Blank} (h : BlanksWellFormed bs) (hnone : ∀ c ∈ blanks bs, isWs c = false ∧ c ≠ 40) :
    bs = [] := by
  cases bs with
  | nil => rfl
  | cons b bs =>
    have hb := h b List.mem_cons_self
    cases b with
    | space c =>
      have hws : isWs c = true := hb
      rw [(hnone c (by simp [blanks, Blank.text])).1] at hws
      cases hws
    | comment inner => exact absurd rfl (hnone 40 (by simp [blanks, Blank.text])).2

/-- Nothing but the domain stands behind the at sign, if what is found there is
    the domain. -/
theorem rawDomain_iff {a : AddrSpec} (h : a.WellFormed) (hplain : a.domain.Plain) {bs : List Blank} (hbs : BlanksWellFormed bs)
    (s : WString) :
    StringParser.extractDomain (s ++ 64 :: (blanks a.beforeDomain ++ a.domain.text ++ blanks bs)) = a.domain.name ↔
      a.beforeDomain = [] ∧ bs = [] ∧ ∀ c ∈ a.domain.text, isWs c = false := by
  have hname : ∀ c ∈ a.domain.name, c ∉ delimiters ∧ isWs c = false := by
    intro c hc
    obtain ⟨hmem, hws⟩ := List.mem_filter.1 hc
    exact ⟨h.domain.plain hplain c hmem, by simpa using hws⟩
  have hdomain : 64 ∉ a.domain.text := fun hc => h.domain.plain hplain 64 hc (by decide)
  constructor
  · intro hread
    by_cases hat : 64 ∈ blanks a.beforeDomain ++ a.domain.text ++ blanks bs
    · -- the last at sign is inside a comment, which ends behind it
      cases hcut : Cut.cutLast 64 (blanks a.beforeDomain ++ a.domain.text ++ blanks bs) with
      | none => exact absurd hat (Cut.cutLast_eq_none.1 hcut)
      | some parts =>
        obtain ⟨u, v⟩ := parts
        obtain ⟨hsplit, hv⟩ := Cut.eq_of_cutLast hcut
        have hclosed := (((closed_blanks h.beforeDomain).append (closed_of_notMem hdomain)).append (closed_blanks hbs)) u v hsplit
        have hwhole : s ++ 64 :: (u ++ 64 :: v) = (s ++ 64 :: u) ++ 64 :: v := by simp
        rw [hsplit, hwhole, extractDomain_append _ hv] at hread
        rw [hread] at hclosed
        exact absurd (by decide) (hname 41 hclosed).1
    · rw [extractDomain_append s hat] at hread
      have hall : ∀ c ∈ blanks a.beforeDomain ++ a.domain.text ++ blanks bs, isWs c = false ∧ c ≠ 40 := by
        intro c hc
        rw [hread] at hc
        exact ⟨(hname c hc).2, ne_of_notMem (hname c hc).1 (by decide)⟩
      exact ⟨blanks_eq_nil h.beforeDomain fun c hc => hall c (by simp [hc]), blanks_eq_nil hbs fun c hc => hall c (by simp [hc]),
        fun c hc => (hall c (by simp [hc])).1⟩
  · rintro ⟨hbefore, rfl, hnone⟩
    have halone : blanks a.beforeDomain ++ a.domain.text ++ blanks [] = a.domain.text := by
      rw [hbefore]
      simp [blanks]
    rw [halone, extractDomain_append s hdomain, Domain.name, List.filter_eq_self.2]
    intro c hc
    rw [hnone c hc]
    rfl

/-- The text taken for an address is its quoted local part, or the address. -/
theorem guess_spec {a : AddrSpec} (h : a.WellFormed) (hplain : a.domain.Plain) :
    guess a = unescapeString (extractQuotedString (addressText a)) ∧ guess a ≠ [] ∨
      unescapeString (extractQuotedString (addressText a)) = [] ∧ 60 ∉ addressText a ∧ guess a = addressText a := by
  have hblanks : ∀ {bs : List Blank}, BlanksWellFormed bs → ∀ c ∈ bareBlanks bs, c ∉ delimiters :=
    fun hbs c hc => isWs_plain (isWs_of_mem_bareBlanks hbs hc)
  have hrest : ∀ c ∈ bareBlanks a.afterLocal ++ 64 :: (bareBlanks a.beforeDomain ++ a.domain.text), c = 64 ∨ c ∉ delimiters := by
    intro c hc
    rw [List.mem_append, List.mem_cons, List.mem_append] at hc
    rcases hc with hc | hc | hc | hc
    · exact .inr (hblanks h.afterLocal c hc)
    · exact .inl hc
    · exact .inr (hblanks h.beforeDomain c hc)
    · exact .inr (h.domain.plain hplain c hc)
  have hnoQuote : ∀ s : WString, (∀ c ∈ s, c = 64 ∨ c ∉ delimiters) → extractQuotedString s = [] ∧ 60 ∉ s := by
    intro s hs
    constructor
    · induction s with
      | nil => rfl
      | cons c s ih =>
        have hc : c ≠ 92 ∧ c ≠ 34 := by
          rcases hs c List.mem_cons_self with rfl | hc
          · decide
          · exact ⟨ne_of_notMem hc (by decide), ne_of_notMem hc (by decide)⟩
        rw [extractQuotedString_cons hc.1, if_neg hc.2]
        exact ih fun d hd => hs d (List.mem_cons_of_mem _ hd)
    · intro hmem
      rcases hs 60 hmem with hc | hc
      · cases hc
      · exact hc (by decide)
  have hwf := h.localPart
  rw [addressText, List.append_assoc]
  cases hlocal : a.localPart with
  | dotAtom parts =>
    rw [hlocal] at hwf
    right
    have hall : ∀ c ∈ dotted parts ++ (bareBlanks a.afterLocal ++ 64 :: (bareBlanks a.beforeDomain ++ a.domain.text)),
        c = 64 ∨ c ∉ delimiters := by
      intro c hc
      rcases List.mem_append.1 hc with hc | hc
      · exact .inr (dotted_plain hwf c hc).2.2.2
      · exact hrest c hc
    obtain ⟨hquoted, hangle⟩ := hnoQuote _ hall
    refine ⟨?_, hangle, ?_⟩
    · show unescapeString (extractQuotedString (dotted parts ++ _)) = []
      rw [hquoted]
      rfl
    · rw [guess, hlocal, addressText, hlocal, List.append_assoc]
  | quoted q =>
    rw [hlocal] at hwf
    have hextract : extractQuotedString ((LocalPart.quoted q).text ++
        (bareBlanks a.afterLocal ++ 64 :: (bareBlanks a.beforeDomain ++ a.domain.text))) = q := by
      rw [LocalPart.text, List.cons_append, List.append_assoc, extractQuotedString_cons (by decide), if_pos rfl,
        List.singleton_append, closeQuote_quoted hwf]
      rfl
    rw [hextract]
    cases q with
    | nil =>
      right
      refine ⟨rfl, ?_, ?_⟩
      · intro hmem
        rw [LocalPart.text, List.mem_append] at hmem
        rcases hmem with hmem | hmem
        · exact absurd hmem (by decide)
        · exact (hnoQuote _ hrest).2 hmem
      · rw [guess, hlocal, addressText, hlocal, List.append_assoc]
    | cons c q =>
      left
      have hguess : guess a = unescapeString (c :: q) := by rw [guess, hlocal]
      rw [hguess]
      exact ⟨rfl, fun hnil => absurd (unescapeString_eq_nil hnil) (List.cons_ne_nil _ _)⟩

theorem addressText_chars {a : AddrSpec} (h : a.WellFormed) (hplain : a.domain.Plain) :
    ∀ c ∈ bareBlanks a.beforeDomain ++ a.domain.text, c ∉ delimiters := by
  intro c hc
  rcases List.mem_append.1 hc with hc | hc
  · exact isWs_plain (isWs_of_mem_bareBlanks h.beforeDomain hc)
  · exact h.domain.plain hplain c hc

/-- An address alone: the domain of the text taken for it, if that is a valid
    address, else what stands behind the last at sign of the field. -/
theorem addrSpec_domain {env : AddressEnvironment} (hloc : PlainSpaces env.loc) {a : AddrSpec} (h : a.WellFormed)
    (hplain : a.domain.Plain) :
    ∃ s bs, BlanksWellFormed bs ∧ ((∀ b ∈ a.afterDomain, b.IsSpace) ↔ bs = []) ∧
      StringParser.extractDomain (extractAddressFromHeaderValue env (Mailbox.addrSpec a).text) =
        if StringParser.isValidEmailAddress (guess a) then StringParser.extractDomain (guess a)
        else StringParser.extractDomain (s ++ 64 :: (blanks a.beforeDomain ++ a.domain.text ++ blanks bs)) := by
  obtain ⟨l, bs₁, hl, hlws, hbs₁, hhead⟩ := blanks_front h.beforeLocal
  obtain ⟨bs₂, r, hr, hrws, hbs₂, hlast, hspaces⟩ := blanks_behind h.afterDomain
  refine ⟨blanks bs₁ ++ a.localPart.text ++ blanks a.afterLocal, bs₂, hbs₂, hspaces, ?_⟩
  have hdomain : Tokens a.domain.text := Tokens.plain (h.domain.plain hplain)
  have hV : Bounded (addressText a) := by
    have hends := h.localPart.bounded.append h.domain.bounded (bareBlanks a.afterLocal ++ 64 :: bareBlanks a.beforeDomain)
    simpa [addressText] using hends
  have htokens : Tokens (addressText a) :=
    (h.localPart.tokens.append (tokens_bareBlanks h.afterLocal)).append
      (.char (by decide) ((tokens_bareBlanks h.beforeDomain).append hdomain))
  have hmiddle : Bounded (a.localPart.text ++ blanks a.afterLocal ++ 64 :: (blanks a.beforeDomain ++ a.domain.text)) := by
    have hends := h.localPart.bounded.append h.domain.bounded (blanks a.afterLocal ++ 64 :: blanks a.beforeDomain)
    simpa using hends
  have hbare : Uncommented (a.localPart.text ++ blanks a.afterLocal ++ 64 :: (blanks a.beforeDomain ++ a.domain.text))
      (addressText a) :=
    ((Uncommented.ofTokens h.localPart.tokens).append (Uncommented.ofBlanks h.afterLocal)).append
      (.char (by decide) ((Uncommented.ofBlanks h.beforeDomain).append (Uncommented.ofTokens hdomain)))
  have hstrip := ((Uncommented.ofBlanks hbs₁).append hbare).append (Uncommented.ofBlanks hbs₂)
  have hone : OneCompound false (bareBlanks bs₁ ++ addressText a ++ bareBlanks bs₂) := by
    have hall := ((tokens_bareBlanks hbs₁).append htokens).append (tokens_bareBlanks hbs₂)
    have hone := OneCompound.tokens hall (oneCompound_nil false)
    rwa [List.append_nil] at hone
  have hfield : (Mailbox.addrSpec a).text = l ++ (blanks bs₁ ++
      (a.localPart.text ++ blanks a.afterLocal ++ 64 :: (blanks a.beforeDomain ++ a.domain.text)) ++ blanks bs₂) ++ r := by
    rw [Mailbox.text, AddrSpec.text, AddrSpec.domainText, hl, hr]
    simp
  have hparts := extractParts_plain env htokens (guess_spec h hplain)
  have hvalue : blanks bs₁ ++ a.localPart.text ++ blanks a.afterLocal ++
      64 :: (blanks a.beforeDomain ++ a.domain.text ++ blanks bs₂) = blanks bs₁ ++
      (a.localPart.text ++ blanks a.afterLocal ++ 64 :: (blanks a.beforeDomain ++ a.domain.text)) ++ blanks bs₂ := by simp
  rw [hfield, extractAddress_eq hloc hlws hrws (bounded_blanks hhead hmiddle hlast) hstrip hone rfl
    (fun c hc => isWs_of_mem_bareBlanks hbs₁ hc) (fun c hc => isWs_of_mem_bareBlanks hbs₂ hc) hV, hvalue]
  by_cases hvalid : StringParser.isValidEmailAddress (guess a) = true
  · rw [if_pos hvalid] at hparts ⊢
    obtain ⟨_, _, hne, hchars⟩ := isValidEmailAddress_domain hvalid
    have hfilter : (StringParser.extractDomain (guess a)).filter (· ≠ 62) = StringParser.extractDomain (guess a) := by
      rw [List.filter_eq_self]
      intro c hc
      rw [decide_eq_true_eq]
      exact (hchars c hc).2.1
    rw [extractDomain_answer env _ (by rw [hparts]; exact fun hc => (hchars 64 hc).2.2.1 rfl), hparts, hfilter,
      encode_printable env fun c hc => (hchars c hc).1, if_neg hne]
  · rw [if_neg hvalid] at hparts ⊢
    have hnil : Charset.encode env (([] : WString).filter (· ≠ 62)) = [] := rfl
    rw [extractDomain_answer env _ (by rw [hparts]; exact List.not_mem_nil), hparts, if_pos hnil]

/-- A valid address with dots and atoms in front of the at sign is read as it is
    written. -/
theorem dotAtom_readAsWritten {a : AddrSpec} (h : a.WellFormed) (hplain : a.domain.Plain) {parts : List Text}
    (hlocal : a.localPart = .dotAtom parts) (hvalid : StringParser.isValidEmailAddress (guess a) = true) :
    ReadAsWritten (.addrSpec a) := by
  refine ⟨hplain, ?_⟩
  have hguess : guess a = addressText a := by rw [guess, hlocal]
  have hat : 64 ∉ bareBlanks a.beforeDomain ++ a.domain.text := fun hc => addressText_chars h hplain 64 hc (by decide)
  have hdomain : StringParser.extractDomain (guess a) = bareBlanks a.beforeDomain ++ a.domain.text := by
    rw [hguess, addressText]
    exact extractDomain_append _ hat
  obtain ⟨_, _, _, hchars⟩ := isValidEmailAddress_domain hvalid
  rw [StandsAlone, if_pos hvalid]
  rw [hdomain] at hchars ⊢
  calc bareBlanks a.beforeDomain ++ a.domain.text
      = (bareBlanks a.beforeDomain ++ a.domain.text).filter (!isWs ·) := by
        rw [List.filter_eq_self.2 fun c hc => by rw [(hchars c hc).2.2.2]; rfl]
    _ = a.domain.name := by
        rw [List.filter_append, filter_bareBlanks h.beforeDomain, List.nil_append]
        rfl

/-- A server with the classic locale. -/
def sampleEnvironment : AddressEnvironment := ⟨classicLocale, List.map UInt8.ofNat⟩

/-- `"Smith, J." (Bob) <ceo@(x)bank.example>`. -/
def namedMailbox : Mailbox :=
  .nameAddr [⟨[], .quoted (wide "Smith, J."), [.space 32, .comment (wide "Bob"), .space 32]⟩] []
    ⟨[], .dotAtom [wide "ceo"], [], [.comment (wide "x")], .dotAtom [wide "bank", wide "example"], []⟩ []

theorem namedMailbox_wellFormed : namedMailbox.WellFormed := by
  have hno : BlanksWellFormed [] := nofun
  refine ⟨?_, hno, ⟨hno, ⟨by decide, by decide⟩, hno, ?_, ⟨by decide, by decide⟩, hno⟩, hno⟩
  · intro w hw
    rw [List.mem_singleton.1 hw]
    refine ⟨hno, QuotedText.chars (by decide), ?_⟩
    intro b hb
    simp only [List.mem_cons, List.not_mem_nil, or_false] at hb
    rcases hb with rfl | rfl | rfl
    · exact (by decide : isWs 32 = true)
    · exact CommentText.chars (by decide)
    · exact (by decide : isWs 32 = true)
  · intro b hb
    rw [List.mem_singleton.1 hb]
    exact CommentText.chars (by decide)

/-- `"ceo@bank.example"@evil.example`. -/
def quotedMailbox : Mailbox :=
  .addrSpec ⟨[], .quoted (wide "ceo@bank.example"), [], [], .dotAtom [wide "evil", wide "example"], []⟩

end HMailServer.DMARC
