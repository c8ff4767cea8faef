import HMailServer.Util.ScramSha256

/- The user's name of a SCRAM exchange through the escapes of a saslname
   (RFC 5802, section 5.1). -/
namespace HMailServer.ScramSha256
open AnsiString StringParser Cut

/-! ## Replacing -/

/-- What is left of a text once a longer one has been replaced by a shorter. -/
theorem length_replaceFrom_le {old new : AnsiString} (hlength : new.length < old.length) (s : AnsiString) :
    ∀ skip ≤ s.length, (replaceFrom old new skip s).length ≤ s.length - skip := by
  induction s with
  | nil => exact fun skip _ => Nat.zero_le _
  | cons c s ih =>
    intro skip hskip
    cases skip with
    | succ skip =>
      rw [List.length_cons] at hskip
      have hrest := ih skip (by omega)
      rw [replaceFrom, List.length_cons]
      omega
    | zero =>
      rw [replaceFrom]
      split
      · rename_i hprefix
        have hle := (List.isPrefixOf_iff_prefix.1 hprefix).length_le
        rw [List.length_cons] at hle
        have hrest := ih (old.length - 1) (by omega)
        rw [List.length_append, List.length_cons]
        omega
      · have hrest := ih 0 (Nat.zero_le _)
        rw [List.length_cons, List.length_cons]
        omega

theorem length_replaceFrom_lt {old new : AnsiString} (hlength : new.length < old.length) {s : AnsiString}
    (h : old <:+: s) : (replaceFrom old new 0 s).length < s.length := by
  induction s with
  | nil =>
    rw [List.eq_nil_of_infix_nil h] at hlength
    cases hlength
  | cons c s ih =>
    rw [replaceFrom]
    split
    · rename_i hprefix
      have hle := (List.isPrefixOf_iff_prefix.1 hprefix).length_le
      rw [List.length_cons] at hle
      have hrest := length_replaceFrom_le hlength s (old.length - 1) (by omega)
      rw [List.length_append, List.length_cons]
      omega
    · rename_i hprefix
      obtain hhead | htail := List.infix_cons_iff.1 h
      · exact absurd (List.isPrefixOf_iff_prefix.2 hhead) hprefix
      · rw [List.length_cons, List.length_cons]
        exact Nat.succ_lt_succ (ih htail)

/-- Nothing is replaced exactly where there is nothing to replace. -/
theorem replaceFrom_eq_self {old new : AnsiString} (hlength : new.length < old.length) (s : AnsiString) :
    replaceFrom old new 0 s = s ↔ ¬old <:+: s := by
  constructor
  · intro h hinfix
    have hlt := length_replaceFrom_lt hlength hinfix
    rw [h] at hlt
    exact Nat.lt_irrefl _ hlt
  · intro h
    induction s with
    | nil => rfl
    | cons c s ih =>
      rw [List.infix_cons_iff, not_or] at h
      rw [replaceFrom, if_neg fun hprefix => h.1 (List.isPrefixOf_iff_prefix.1 hprefix), ih h.2]

/-! ## Names -/

/-- The escapes of RFC 5802. -/
def escapeChar (c : UInt8) : AnsiString := if c = 61 then ansi "=3D" else if c = 44 then ansi "=2C" else [c]

def saslname (user : AnsiString) : AnsiString := user.flatMap escapeChar

/-- The name with its equals signs still escaped. -/
def escapeEquals (user : AnsiString) : AnsiString := user.flatMap fun c => if c = 61 then ansi "=3D" else [c]

theorem saslname_cons (c : UInt8) (user : AnsiString) : saslname (c :: user) = escapeChar c ++ saslname user := rfl

theorem escapeEquals_cons (c : UInt8) (user : AnsiString) :
    escapeEquals (c :: user) = (if c = 61 then ansi "=3D" else [c]) ++ escapeEquals user := rfl

theorem replace_comma (user : AnsiString) : replaceFrom (ansi "=2C") (ansi ",") 0 (saslname user) = escapeEquals user := by
  induction user with
  | nil => rfl
  | cons c user ih =>
    rw [saslname_cons, escapeEquals_cons, ← ih, escapeChar]
    by_cases h61 : c = 61
    · rw [if_pos h61, if_pos h61]
      rfl
    rw [if_neg h61, if_neg h61]
    by_cases h44 : c = 44
    · rw [if_pos h44, h44]
      show replaceFrom [61, 50, 67] [44] 0 (61 :: 50 :: 67 :: saslname user) = _
      rw [replaceFrom, if_pos (by simp [List.isPrefixOf])]
      rfl
    · rw [if_neg h44]
      show replaceFrom [61, 50, 67] [44] 0 (c :: saslname user) = _
      rw [replaceFrom, if_neg (by simp [List.isPrefixOf, Ne.symm h61])]
      rfl

theorem replace_lower_comma (user : AnsiString) :
    replaceFrom (ansi "=2c") (ansi ",") 0 (escapeEquals user) = escapeEquals user := by
  induction user with
  | nil => rfl
  | cons c user ih =>
    rw [escapeEquals_cons]
    by_cases h61 : c = 61
    · rw [if_pos h61]
      show replaceFrom [61, 50, 99] [44] 0 (61 :: 51 :: 68 :: escapeEquals user) = 61 :: 51 :: 68 :: escapeEquals user
      rw [replaceFrom, if_neg (by simp [List.isPrefixOf]), replaceFrom, if_neg (by simp [List.isPrefixOf]), replaceFrom,
        if_neg (by simp [List.isPrefixOf])]
      exact congrArg (fun s : AnsiString => 61 :: 51 :: 68 :: s) ih
    · rw [if_neg h61]
      show replaceFrom [61, 50, 99] [44] 0 (c :: escapeEquals user) = c :: escapeEquals user
      rw [replaceFrom, if_neg (by simp [List.isPrefixOf, Ne.symm h61])]
      exact congrArg (c :: ·) ih

theorem replace_equals (user : AnsiString) : replaceFrom (ansi "=3D") (ansi "=") 0 (escapeEquals user) = user := by
  induction user with
  | nil => rfl
  | cons c user ih =>
    rw [escapeEquals_cons]
    by_cases h61 : c = 61
    · rw [if_pos h61, h61]
      show replaceFrom [61, 51, 68] [61] 0 (61 :: 51 :: 68 :: escapeEquals user) = 61 :: user
      rw [replaceFrom, if_pos (by simp [List.isPrefixOf])]
      exact congrArg (61 :: ·) ih
    · rw [if_neg h61]
      show replaceFrom [61, 51, 68] [61] 0 (c :: escapeEquals user) = c :: user
      rw [replaceFrom, if_neg (by simp [List.isPrefixOf, Ne.symm h61])]
      exact congrArg (c :: ·) ih

/-- The last replacement reads what the third one wrote. -/
theorem unescapeName_saslname (user : AnsiString) :
    unescapeName (saslname user) = replaceFrom (ansi "=3d") (ansi "=") 0 user := by
  rw [unescapeName, replace_comma, replace_lower_comma, replace_equals]

theorem unescapeName_eq (user : AnsiString) : unescapeName (saslname user) = user ↔ ¬ansi "=3d" <:+: user := by
  rw [unescapeName_saslname]
  exact replaceFrom_eq_self (by decide) user

/-- The name that a salt is derived from is the user's exactly where it is so
    letter by letter. -/
theorem lower_unescapeName_eq (user : AnsiString) :
    lower (unescapeName (saslname user)) = lower user ↔ ¬ansi "=3d" <:+: user := by
  constructor
  · intro h hinfix
    have hlt := @length_replaceFrom_lt (ansi "=3d") (ansi "=") (by decide) user hinfix
    rw [← unescapeName_saslname, ← length_lower, h, length_lower] at hlt
    exact Nat.lt_irrefl _ hlt
  · exact fun h => congrArg lower ((unescapeName_eq user).2 h)

/-! ## Messages -/

/-- The client's first message: the gs2 header, an extension in front of the name,
    the name as a saslname, the nonce and the extensions behind it. -/
structure ClientFirst where
  cbindFlag : AnsiString
  authzid : AnsiString
  mext : Option AnsiString
  name : AnsiString
  nonce : AnsiString
  extensions : List AnsiString
  cbindFlag_comma : 44 ∉ cbindFlag
  authzid_comma : 44 ∉ authzid
  mext_ok : ∀ value ∈ mext, 44 ∉ value
  name_ne : name ≠ []
  name_comma : 44 ∉ name
  name_nul : 0 ∉ name
  nonce_ne : nonce ≠ []
  nonce_ok : ∀ c ∈ nonce, 33 ≤ c ∧ c ≤ 126 ∧ c ≠ 44
  extensions_comma : ∀ e ∈ extensions, 44 ∉ e

/-- The attributes in the order in which they stand. -/
def ClientFirst.attributes (m : ClientFirst) : List AnsiString :=
  (m.mext.map (ansi "m=" ++ ·)).toList ++ (ansi "n=" ++ m.name) :: (ansi "r=" ++ m.nonce) :: m.extensions

def ClientFirst.bare (m : ClientFirst) : AnsiString := [44].intercalate m.attributes

def ClientFirst.text (m : ClientFirst) : AnsiString := m.cbindFlag ++ 44 :: (m.authzid ++ 44 :: m.bare)

theorem gs2Fields_text (m : ClientFirst) : gs2Fields m.text = some (m.cbindFlag, m.authzid, m.bare) := by
  rw [gs2Fields, ClientFirst.text, cut_append m.cbindFlag_comma]
  dsimp only
  rw [cut_append m.authzid_comma]

/-! ## Attributes -/

theorem attributes_comma (m : ClientFirst) : ∀ a ∈ m.attributes, 44 ∉ a := by
  intro a h
  rw [ClientFirst.attributes, List.mem_append, List.mem_cons, List.mem_cons, Option.mem_toList,
    Option.map_eq_some_iff] at h
  have hnonce : 44 ∉ m.nonce := fun hmem => (m.nonce_ok 44 hmem).2.2 rfl
  obtain ⟨value, hvalue, rfl⟩ | rfl | rfl | h := h
  · have hcomma := m.mext_ok value hvalue
    simp [ansi, hcomma]
  · simp [ansi, m.name_comma]
  · simp [ansi, hnonce]
  · exact m.extensions_comma a h

/-- The bare message is split at its commas; the name and the nonce come out whole. -/
theorem splitString_bare (m : ClientFirst) : ∃ rest, splitString m.bare (ansi ",") =
    (m.mext.map fun value => cstr (ansi "m=" ++ value)).toList ++ (ansi "n=" ++ m.name) :: (ansi "r=" ++ m.nonce) :: rest := by
  have hpieces : splitPieces (ansi ",") 0 m.bare = m.attributes := by
    show splitPieces [44] 0 m.bare = m.attributes
    rw [splitPieces_singleton, ClientFirst.bare]
    exact List.splitOn_intercalate 44 (attributes_comma m) (by simp [ClientFirst.attributes])
  have hname : cstr (ansi "n=" ++ m.name) = ansi "n=" ++ m.name := by
    refine cstr_eq fun c hc => ?_
    rintro rfl
    simp [ansi, m.name_nul] at hc
  have hnonce : cstr (ansi "r=" ++ m.nonce) = ansi "r=" ++ m.nonce := by
    refine cstr_eq fun c hc => ?_
    rintro rfl
    have hnul : 0 ∉ m.nonce := fun hmem => absurd (m.nonce_ok 0 hmem).1 (by decide)
    simp [ansi, hnul] at hc
  have hconverted : m.attributes.map cstr = (m.mext.map fun value => cstr (ansi "m=" ++ value)).toList ++
      (ansi "n=" ++ m.name) :: (ansi "r=" ++ m.nonce) :: m.extensions.map cstr := by
    rw [ClientFirst.attributes, List.map_append, List.map_cons, List.map_cons, hname, hnonce]
    cases m.mext <;> rfl
  have hsplit : splitString m.bare (ansi ",") =
      if (m.attributes.map cstr).getLast? = some [] then (m.attributes.map cstr).dropLast else m.attributes.map cstr := by
    rw [splitString, hpieces]
    split
    · -- one piece would be too few
      rename_i h
      have hlength := congrArg List.length h
      simp [ClientFirst.attributes] at hlength
      omega
    · rfl
  rw [hsplit, hconverted]
  split
  · rename_i hlast
    cases hextensions : m.extensions.map cstr with
    | nil =>
      rw [hextensions, List.getLast?_append, List.getLast?_cons_cons, List.getLast?_singleton] at hlast
      cases hlast
    | cons e es =>
      refine ⟨(e :: es).dropLast, ?_⟩
      rw [List.dropLast_append_cons, List.dropLast_cons_cons, List.dropLast_cons_cons]
  · exact ⟨_, rfl⟩

/-- The extension in front of the name is neither a name nor a nonce. -/
theorem find_bare (m : ClientFirst) {c : UInt8} (hc : startsWith (ansi "m=") [c, 61] = false) (rest : List AnsiString) :
    ((m.mext.map fun value => cstr (ansi "m=" ++ value)).toList ++ rest).find? (fun part => startsWith part [c, 61]) =
      rest.find? fun part => startsWith part [c, 61] := by
  cases m.mext with
  | none => rfl
  | some value =>
    have htake : ∀ t : AnsiString, startsWith (109 :: 61 :: t) [c, 61] = startsWith (ansi "m=") [c, 61] := fun t => rfl
    show List.find? _ ((109 :: 61 :: cstr value) :: rest) = _
    rw [List.find?_cons, htake, hc]

theorem getAttribute_name (m : ClientFirst) : getAttribute m.bare 110 = m.name := by
  obtain ⟨rest, hsplit⟩ := splitString_bare m
  have hstart : startsWith (ansi "n=" ++ m.name) [110, 61] = true := by
    show equalsNoCase (ansi "n=") [110, 61] = true
    decide
  rw [getAttribute, hsplit, find_bare m (by decide), List.find?_cons, hstart]
  rfl

theorem getAttribute_nonce (m : ClientFirst) : getAttribute m.bare 114 = m.nonce := by
  obtain ⟨rest, hsplit⟩ := splitString_bare m
  have hname : startsWith (ansi "n=" ++ m.name) [114, 61] = false := by
    show equalsNoCase (ansi "n=") [114, 61] = false
    decide
  have hstart : startsWith (ansi "r=" ++ m.nonce) [114, 61] = true := by
    show equalsNoCase (ansi "r=") [114, 61] = true
    decide
  rw [getAttribute, hsplit, find_bare m (by decide), List.find?_cons, hname, List.find?_cons, hstart]
  rfl

theorem extractUsername_text (m : ClientFirst) : extractUsername m.text = some (unescapeName m.name) := by
  rw [extractUsername, gs2Fields_text]
  dsimp only
  rw [getAttribute_name, if_neg m.name_ne]

/-! ## The exchange -/

/-- The first message ends the exchange. -/
def Refused (lib : Library) (settings : Settings) (serverNonce : AnsiString) (randomPassword : List UInt8)
    (s : ScramSession) (m : ClientFirst) (stored : AnsiString) : Prop :=
  extractUsername m.text = none ∨ processClientFirst lib settings serverNonce randomPassword s m.text stored = none

/-- A message is processed wherever its gs2 header is one for the mechanism, and
    without a stored key the salt is derived from the probed name. -/
theorem processClientFirst_text (lib : Library) (settings : Settings) (serverNonce : AnsiString)
    (randomPassword : List UInt8) {s : ScramSession} {m : ClientFirst} (stored : AnsiString)
    (hflag : cbindFlagAccepted s m.cbindFlag = true) (hauthzid : m.authzid = []) :
    ∃ s', processClientFirst lib settings serverNonce randomPassword s m.text stored = some s' ∧
      (parseStoredPbkdf2 lib stored = none → s'.serverFirst =
        ansi "r=" ++ (m.nonce ++ serverNonce) ++ ansi ",s=" ++
          base64Encode (deriveAntiEnumerationSalt lib settings (probedUser m.bare)) ++ ansi ",i=" ++ formatInt 210000) := by
  rw [processClientFirst, gs2Fields_text]
  dsimp only
  rw [hflag, getAttribute_nonce, if_neg (by simp), if_neg (by simp [hauthzid]), if_neg m.nonce_ne]
  refine ⟨_, rfl, fun hstored => ?_⟩
  rw [hstored]
  rfl

/-- A user's name comes out of its saslname, and the salt of an unknown account
    is derived from it, exactly where it does not hold `=3d`; and no message is
    refused for its saslname, whatever stands behind an equals sign. -/
theorem saslname_survives_iff (m : ClientFirst) :
    (∀ user, m.name = saslname user →
      (extractUsername m.text = some user ∧ lower (probedUser m.bare) = lower user ↔ ¬ansi "=3d" <:+: user)) ∧
    ∀ lib settings serverNonce randomPassword s stored, cbindFlagAccepted s m.cbindFlag = true → m.authzid = [] →
      ¬Refused lib settings serverNonce randomPassword s m stored := by
  refine ⟨fun user hname => ?_, ?_⟩
  · rw [extractUsername_text, Option.some.injEq, probedUser, getAttribute_name, hname, unescapeName_eq,
      lower_unescapeName_eq]
    exact and_self_iff
  · intro lib settings serverNonce randomPassword s stored hflag hauthzid hrefused
    obtain hrefused | hrefused := hrefused
    · rw [extractUsername_text] at hrefused
      cases hrefused
    · obtain ⟨s', hs', _⟩ := processClientFirst_text lib settings serverNonce randomPassword stored hflag hauthzid
      rw [hs'] at hrefused
      cases hrefused

/-- The message of the user `jo,e=`. -/
def joMessage : ClientFirst where
  cbindFlag := ansi "n"
  authzid := []
  mext := none
  name := ansi "jo=2Ce=3D"
  nonce := ansi "fyko"
  extensions := []
  cbindFlag_comma := by decide
  authzid_comma := by decide
  mext_ok := by simp
  name_ne := by decide
  name_comma := by decide
  name_nul := by decide
  nonce_ne := by decide
  nonce_ok := by decide +kernel
  extensions_comma := by simp

theorem saslname_survives_iff_jo :
    extractUsername joMessage.text = some (ansi "jo,e=") ∧
      ∃ lib settings, ¬Refused lib settings [] [] {} joMessage [] := by
  have hname : joMessage.name = saslname (ansi "jo,e=") := by decide +kernel
  have hescape : ¬ansi "=3d" <:+: ansi "jo,e=" := (@replaceFrom_eq_self (ansi "=3d") (ansi "=") (by decide) _).1 (by decide +kernel)
  refine ⟨(((saslname_survives_iff joMessage).1 _ hname).2 hescape).1, ⟨fun _ _ => [], fun _ => none, fun _ => 0⟩,
    ⟨[], [], [], []⟩, ?_⟩
  exact (saslname_survives_iff joMessage).2 _ _ [] [] {} [] (by decide +kernel) rfl

/-- The name `a=3db` is answered as `a=b`, and `a=b` is a name to the server. -/
theorem lower_escape_lost :
    extractUsername (ansi "n,,n=" ++ saslname (ansi "a=3db") ++ ansi ",r=fyko") = some (ansi "a=b") ∧
      extractUsername (ansi "n,,n=a=b,r=fyko") = some (ansi "a=b") := by
  decide +kernel

end HMailServer.ScramSha256
