import HMailServer.Lib.Cut
import HMailServer.Lib.Scan
import HMailServer.Lib.Separated
import HMailServer.Smtp.StsPolicyKept

/- What a policy file says, read as RFC 8461 reads it (sections 3.2 and 4.1),
   and what `ParseStsPolicyBody_` and `HostMatchesStsPolicy` make of it. The two
   take the same fields from the lines and match hosts alike. They part where a
   key is repeated: the file means its first line of that key, the loop keeps the
   last one, and it gives up on any later version line that it does not know. -/
namespace HMailServer.TlsPolicy

/-! ## The host decision -/

/-- One turn of the loop of `HostMatchesStsPolicy`. -/
def patternMatches (loc : Locale) (host pattern : WString) : Bool :=
  let pattern := WString.makeLower loc pattern
  if pattern = host then true
  else if WString.equalsNoCase (pattern.take 2) (wide "*.") then
    let suffix := pattern.drop 1
    if host.length ≤ suffix.length then false
    else if host.drop (host.length - suffix.length) ≠ suffix then false
    else
      let label := host.take (host.length - suffix.length)
      !label.isEmpty && !label.contains 46
  else false

/-- `HostMatchesStsPolicy`. -/
def hostMatchesStsPolicy (loc : Locale) (hostName : WString) (policy : StsPolicy) : Bool :=
  policy.mxPatterns.any (patternMatches loc (WString.makeLower loc hostName))

/-- A pattern covers a host if the two are the same but for the case, or if the
    host has exactly one label where the pattern has its asterisk. -/
def Covers (loc : Locale) (pattern hostName : WString) : Prop :=
  WString.makeLower loc pattern = WString.makeLower loc hostName ∨
    ∃ label rest, WString.makeLower loc pattern = wide "*." ++ rest ∧
      WString.makeLower loc hostName = label ++ wide "." ++ rest ∧ label ≠ [] ∧ 46 ∉ label

/-- No capital letter folds to an asterisk or a dot. -/
theorem startsWith_asterisk_iff (s : WString) :
    WString.equalsNoCase (s.take 2) (wide "*.") = true ↔ ∃ rest, s = wide "*." ++ rest := by
  have hfold : ∀ {n d : Nat}, d < 65 → (if 65 ≤ n ∧ n ≤ 90 then n + 32 else n) = d → n = d := by
    intro n d hd h
    split at h <;> omega
  have hstar : (WString.cstr (wide "*.")).map WString.classicLower = [42, 46] := by decide
  constructor
  · intro h
    rw [WString.equalsNoCase, hstar, beq_iff_eq] at h
    cases s with
    | nil => cases h
    | cons c s =>
      have hc : c ≠ 0 := by
        intro hzero
        subst hzero
        cases h
      cases s with
      | nil => simp [WString.cstr, hc] at h
      | cons d s =>
        have hd : d ≠ 0 := by
          intro hzero
          subst hzero
          simp [WString.cstr, hc] at h
        simp only [List.take_succ_cons, List.take_zero, WString.cstr, bne_iff_ne, ne_eq, hc, hd, not_false_eq_true,
          List.takeWhile_cons_of_pos, List.takeWhile_nil, List.map_cons, List.map_nil, List.cons.injEq, and_true] at h
        exact ⟨s, by rw [hfold (by decide) h.1, hfold (by decide) h.2]; rfl⟩
  · rintro ⟨rest, rfl⟩
    rfl

theorem patternMatches_iff (loc : Locale) (hostName pattern : WString) :
    patternMatches loc (WString.makeLower loc hostName) pattern = true ↔ Covers loc pattern hostName := by
  rw [patternMatches, Covers]
  generalize WString.makeLower loc pattern = p
  generalize WString.makeLower loc hostName = host
  by_cases hsame : p = host
  · simp [hsame]
  · rw [if_neg hsame, or_iff_right hsame]
    by_cases hstar : ∃ rest, p = wide "*." ++ rest
    · rw [if_pos ((startsWith_asterisk_iff p).2 hstar)]
      obtain ⟨rest, rfl⟩ := hstar
      show (if host.length ≤ (46 :: rest).length then false
        else if host.drop (host.length - (46 :: rest).length) ≠ 46 :: rest then false
        else !(host.take (host.length - (46 :: rest).length)).isEmpty &&
          !(host.take (host.length - (46 :: rest).length)).contains 46) = true ↔ _
      constructor
      · intro h
        split at h
        · cases h
        · split at h
          · cases h
          · rename_i hlonger hends
            rw [not_not] at hends
            refine ⟨host.take (host.length - (46 :: rest).length), rest, rfl, ?_, ?_, ?_⟩
            · calc host = host.take (host.length - (46 :: rest).length) ++ host.drop (host.length - (46 :: rest).length) :=
                    (List.take_append_drop _ _).symm
                _ = _ := by rw [hends, List.append_assoc]; rfl
            · intro hnil
              rw [hnil] at h
              cases h
            · intro hdot
              rw [List.contains_iff_mem.2 hdot, Bool.not_true, Bool.and_false] at h
              cases h
      · rintro ⟨label, tail, htail, rfl, hlabel, hdot⟩
        obtain rfl : rest = tail := List.append_cancel_left htail
        have hlength : (label ++ wide "." ++ rest).length - (46 :: rest).length = label.length := by
          simp [wide]
        have hpositive : 0 < label.length := List.length_pos_of_ne_nil hlabel
        have hlonger : ¬ (label ++ wide "." ++ rest).length ≤ (46 :: rest).length := by omega
        have hcut : label ++ wide "." ++ rest = label ++ 46 :: rest := by rw [List.append_assoc]; rfl
        rw [if_neg hlonger, hlength, hcut, List.drop_left, if_neg (by simp), List.take_left]
        simp [hlabel, hdot]
    · rw [if_neg (by rw [startsWith_asterisk_iff]; exact hstar)]
      refine ⟨fun h => (by cases h), ?_⟩
      rintro ⟨label, rest, h, _⟩
      exact absurd ⟨rest, h⟩ hstar

/-- A host is let through exactly if one of the patterns covers it. -/
theorem hostMatchesStsPolicy_iff (loc : Locale) (hostName : WString) (policy : StsPolicy) :
    hostMatchesStsPolicy loc hostName policy = true ↔ ∃ pattern ∈ policy.mxPatterns, Covers loc pattern hostName := by
  rw [hostMatchesStsPolicy, List.any_eq_true]
  exact exists_congr fun pattern => and_congr_right fun _ => patternMatches_iff loc hostName pattern

/-! ## The fields of a policy file -/

/-- A line `key: value`: the text in front of the first colon, in lower case,
    and the text behind it, without the white space around them. -/
def fieldOf (line : AnsiString) : Option (AnsiString × AnsiString) := do
  let (name, value) ← Cut.cut 58 line
  if AnsiString.trim name = [] then none else some (makeLower (AnsiString.trim name), AnsiString.trim value)

/-- `IsNumeric`, which reads a wide string. -/
def isNumeric (env : Environment) (value : AnsiString) : Bool := (env.widen value).all fun c => 48 ≤ c ∧ c ≤ 57

/-- What one field adds to the file. -/
def takeField (env : Environment) (file : PolicyFile) (key value : AnsiString) : Option PolicyFile :=
  if key = ansi "version" then
    if value = ansi "STSv1" then some { file with versionSeen := true } else none
  else if key = ansi "mode" then
    let mode :=
      if makeLower value = ansi "enforce" then .enforce
      else if makeLower value = ansi "testing" then .testing
      else .none
    some { file with policy := { file.policy with mode } }
  else if key = ansi "mx" then
    if value.isEmpty then some file
    else some { file with policy := { file.policy with mxPatterns := file.policy.mxPatterns ++ [env.widen value] } }
  else if key = ansi "max_age" then
    if isNumeric env value then some { file with maxAge := env.atoi value } else some file
  else some file

/-- The carriage returns at the end of a line are white space like any other. -/
theorem trim_crs (line : AnsiString) : AnsiString.trim (line.rdropWhile (· == 13)) = AnsiString.trim line := by
  have hsplit : line.rdropWhile (· == 13) ++ line.rtakeWhile (· == 13) = line := List.rdropWhile_append_rtakeWhile
  have hcrs : ∀ c ∈ line.rtakeWhile (· == 13), AnsiString.isSpace c = true := by
    intro c hc
    have h13 : c = 13 := by simpa using List.mem_rtakeWhile_imp hc
    rw [h13]
    rfl
  calc AnsiString.trim (line.rdropWhile (· == 13))
      = AnsiString.trim ([] ++ line.rdropWhile (· == 13) ++ line.rtakeWhile (· == 13)) :=
        (AnsiString.trim_pad _ (by simp) hcrs).symm
    _ = AnsiString.trim line := by rw [List.nil_append, hsplit]

/-- A text without a colon. -/
theorem noColon {s : AnsiString} (hs : 58 ∉ s) : ∀ c ∈ s, (c == 58) = false := by
  intro c hc
  rw [beq_eq_false_iff_ne]
  exact fun h => hs (h ▸ hc)

/-- `parseLine` sees the field of the line, if there is one. -/
theorem parseLine_eq (env : Environment) (file : PolicyFile) (line : AnsiString) :
    parseLine env file line = match fieldOf line with
      | none => some file
      | some (key, value) => takeField env file key value := by
  obtain ⟨l, r, hline, hl, hr⟩ := AnsiString.exists_trim line
  have hcolon : ∀ {s : AnsiString}, (∀ c ∈ s, AnsiString.isSpace c = true) → 58 ∉ s := by
    intro s hs hmem
    exact absurd (hs 58 hmem) (by decide)
  rw [parseLine, trim_crs]
  by_cases h58 : 58 ∈ AnsiString.trim line
  · -- the first colon of the trimmed text is the first colon of the line
    obtain ⟨a, b, hab, ha⟩ := List.eq_append_cons_of_mem h58
    have hla : 58 ∉ l ++ a := by
      rw [List.mem_append, not_or]
      exact ⟨hcolon hl, ha⟩
    have hcut : line = l ++ a ++ 58 :: (b ++ r) := by
      rw [hab] at hline
      simpa using hline
    have hname : AnsiString.trim (l ++ a) = AnsiString.trim a := by
      simpa using AnsiString.trim_pad a hl (r := []) (by simp)
    have hvalue : AnsiString.trim (b ++ r) = AnsiString.trim b := by
      simpa using AnsiString.trim_pad b (l := []) (by simp) hr
    have hfield : fieldOf line =
        if AnsiString.trim a = [] then none else some (makeLower (AnsiString.trim a), AnsiString.trim b) := by
      rw [fieldOf, hcut, Cut.cut_append hla, ← hname, ← hvalue]
      rfl
    rw [hfield, hab, Scan.findIdx?_append (noColon ha) (by decide)]
    by_cases hempty : a = []
    · subst hempty
      rfl
    · have hnamed : AnsiString.trim a ≠ [] := by
        obtain ⟨c, rest, rfl⟩ := List.exists_cons_of_ne_nil hempty
        have hc : AnsiString.isSpace c = false := AnsiString.trim_head c (by rw [hab]; rfl)
        exact List.ne_nil_of_mem (AnsiString.mem_trim List.mem_cons_self hc)
      have hpos : a.length ≠ 0 := fun h => hempty (List.length_eq_zero_iff.1 h)
      rw [if_neg hnamed]
      dsimp only
      rw [if_neg hpos, List.take_left, List.drop_append, List.drop_of_length_le (by omega)]
      simp [takeField, isNumeric]
  · have hline58 : 58 ∉ line := by
      rw [hline, List.mem_append, List.mem_append]
      rintro ((h | h) | h)
      · exact hcolon hl h
      · exact h58 h
      · exact hcolon hr h
    have hfield : fieldOf line = none := by
      rw [fieldOf, Cut.cut_eq_none hline58]
      rfl
    rw [hfield, Scan.findIdx?_none (noColon h58)]

/-! ## The policy that a file means -/

def valuesOf (key : AnsiString) (fields : List (AnsiString × AnsiString)) : List AnsiString :=
  (fields.filter fun field => field.1 = key).map Prod.snd

/-- The mode that a value names; anything but the two words is no mode. -/
def modeOf (value : Option AnsiString) : StsMode :=
  match value with
  | none => .none
  | some value =>
    if makeLower value = ansi "enforce" then .enforce
    else if makeLower value = ansi "testing" then .testing
    else .none

/-- The `mx` lines name the patterns, in their order. -/
def patternsOf (env : Environment) (fields : List (AnsiString × AnsiString)) : List WString :=
  ((valuesOf (ansi "mx") fields).filter (· ≠ [])).map env.widen

/-- What the loop has gathered from the fields it has seen. -/
def gathered (env : Environment) (fields : List (AnsiString × AnsiString)) : PolicyFile where
  policy := { mode := modeOf (valuesOf (ansi "mode") fields).getLast?, mxPatterns := patternsOf env fields }
  maxAge := (((valuesOf (ansi "max_age") fields).filter (isNumeric env)).getLast?.map env.atoi).getD 0
  versionSeen := !(valuesOf (ansi "version") fields).isEmpty

theorem valuesOf_append (key : AnsiString) (fields more : List (AnsiString × AnsiString)) :
    valuesOf key (fields ++ more) = valuesOf key fields ++ valuesOf key more := by
  rw [valuesOf, List.filter_append, List.map_append]
  rfl

theorem valuesOf_same (key value : AnsiString) : valuesOf key [(key, value)] = [value] := by
  simp [valuesOf]

theorem valuesOf_other {key k : AnsiString} (h : k ≠ key) (value : AnsiString) : valuesOf key [(k, value)] = [] := by
  simp [valuesOf, h]

/-- The version lines must all be of the known version. -/
def Versions (fields : List (AnsiString × AnsiString)) : Prop :=
  ∀ value ∈ valuesOf (ansi "version") fields, value = ansi "STSv1"

instance (fields : List (AnsiString × AnsiString)) : Decidable (Versions fields) := by
  unfold Versions
  infer_instance

/-- One more field. -/
theorem takeField_gathered (env : Environment) (fields : List (AnsiString × AnsiString)) (key value : AnsiString) :
    takeField env (gathered env fields) key value =
      if key = ansi "version" ∧ value ≠ ansi "STSv1" then none else some (gathered env (fields ++ [(key, value)])) := by
  have hother : ∀ {k : AnsiString}, key ≠ k → valuesOf k (fields ++ [(key, value)]) = valuesOf k fields := by
    intro k hk
    rw [valuesOf_append, valuesOf_other hk, List.append_nil]
  unfold takeField
  by_cases hversion : key = ansi "version"
  · subst hversion
    by_cases hvalue : value = ansi "STSv1"
    · rw [if_pos rfl, if_pos hvalue, if_neg (fun h => h.2 hvalue)]
      simp only [gathered, patternsOf, hother (k := ansi "mode") (by decide), hother (k := ansi "mx") (by decide),
        hother (k := ansi "max_age") (by decide), valuesOf_append, valuesOf_same]
      simp
    · rw [if_pos rfl, if_neg hvalue, if_pos ⟨rfl, hvalue⟩]
  · have hknown : ¬ (key = ansi "version" ∧ value ≠ ansi "STSv1") := fun h => hversion h.1
    rw [if_neg hversion, if_neg hknown]
    by_cases hmode : key = ansi "mode"
    · subst hmode
      rw [if_pos rfl]
      simp only [gathered, patternsOf, hother (k := ansi "version") (by decide), hother (k := ansi "mx") (by decide),
        hother (k := ansi "max_age") (by decide), valuesOf_append, valuesOf_same, List.getLast?_concat]
      rfl
    · rw [if_neg hmode]
      by_cases hmx : key = ansi "mx"
      · subst hmx
        rw [if_pos rfl]
        simp only [gathered, patternsOf, hother (k := ansi "version") (by decide), hother (k := ansi "mode") (by decide),
          hother (k := ansi "max_age") (by decide), valuesOf_append, valuesOf_same, List.filter_append, List.map_append]
        cases value <;> simp
      · rw [if_neg hmx]
        by_cases hage : key = ansi "max_age"
        · subst hage
          rw [if_pos rfl]
          simp only [gathered, patternsOf, hother (k := ansi "version") (by decide), hother (k := ansi "mode") (by decide),
            hother (k := ansi "mx") (by decide), valuesOf_append, valuesOf_same, List.filter_append]
          by_cases hnumeric : isNumeric env value = true
          · rw [if_pos hnumeric]
            simp [hnumeric]
          · rw [if_neg hnumeric]
            simp [hnumeric]
        · rw [if_neg hage]
          simp only [gathered, patternsOf, hother hversion, hother hmode, hother hmx, hother hage]

/-- The loop over the lines, from what it has gathered so far. -/
theorem foldlM_parseLine (env : Environment) (lines : List AnsiString) (fields : List (AnsiString × AnsiString))
    (hfields : Versions fields) :
    lines.foldlM (parseLine env) (gathered env fields) =
      if Versions (fields ++ lines.filterMap fieldOf) then some (gathered env (fields ++ lines.filterMap fieldOf))
      else none := by
  induction lines generalizing fields with
  | nil => rw [List.filterMap_nil, List.append_nil, if_pos hfields, List.foldlM_nil]; rfl
  | cons line lines ih =>
    rw [List.foldlM_cons, parseLine_eq]
    cases hfield : fieldOf line with
    | none =>
      rw [List.filterMap_cons_none hfield]
      exact ih fields hfields
    | some field =>
      obtain ⟨key, value⟩ := field
      rw [List.filterMap_cons_some hfield, List.append_cons]
      show (takeField env (gathered env fields) key value).bind _ = _
      rw [takeField_gathered]
      by_cases hunknown : key = ansi "version" ∧ value ≠ ansi "STSv1"
      · -- the loop ends at a version that it does not know
        rw [if_pos hunknown, if_neg]
        · rfl
        · intro hall
          refine hunknown.2 (hall value ?_)
          rw [valuesOf_append, valuesOf_append, hunknown.1, valuesOf_same]
          simp
      · rw [if_neg hunknown]
        refine ih (fields ++ [(key, value)]) fun v hv => ?_
        rw [valuesOf_append, List.mem_append] at hv
        obtain hv | hv := hv
        · exact hfields v hv
        · by_cases hkey : key = ansi "version"
          · rw [hkey, valuesOf_same, List.mem_singleton] at hv
            rw [hv]
            exact not_not.1 fun hvalue => hunknown ⟨hkey, hvalue⟩
          · rw [valuesOf_other hkey] at hv
            cases hv

/-- The fields of a policy file. The lines are what `SplitString` makes of the
    body: its text between the line feeds, through the platform's conversion to
    wide characters and back. -/
def fields (env : Environment) (body : AnsiString) : List (AnsiString × AnsiString) :=
  (splitString env body 10).filterMap fieldOf

/-- `ParseStsPolicyBody_` by the fields. -/
theorem parseStsPolicyBody_eq (env : Environment) (body : AnsiString) :
    parseStsPolicyBody env body =
      if valuesOf (ansi "version") (fields env body) = [] ∨ ¬ Versions (fields env body) ∨
          (gathered env (fields env body)).policy.mode = .enforce ∧ patternsOf env (fields env body) = [] then none
      else some ((gathered env (fields env body)).policy, (gathered env (fields env body)).maxAge) := by
  have hfold := foldlM_parseLine env (splitString env body 10) [] (by simp [Versions, valuesOf])
  rw [List.nil_append] at hfold
  have hinit : gathered env [] = {} := rfl
  rw [hinit] at hfold
  rw [parseStsPolicyBody, hfold]
  by_cases hversions : Versions (fields env body)
  · have hkept : Versions (List.filterMap fieldOf (splitString env body 10)) := hversions
    rw [if_pos hkept]
    by_cases hseen : valuesOf (ansi "version") (fields env body) = []
    · have hunseen : (gathered env (fields env body)).versionSeen = false := by simp [gathered, hseen]
      rw [if_pos (.inl hseen)]
      show (if (!(gathered env (fields env body)).versionSeen) = true then _ else _) = _
      rw [hunseen]
      rfl
    · have hversion : (gathered env (fields env body)).versionSeen = true := by simp [gathered, hseen]
      show (if (!(gathered env (fields env body)).versionSeen) = true then _ else _) = _
      rw [hversion]
      simp only [hseen, hversions, not_true, false_or]
      rfl
  · have hlost : ¬ Versions (List.filterMap fieldOf (splitString env body 10)) := hversions
    rw [if_neg hlost, if_pos (.inr (.inl hversions))]
    rfl

/-- A policy as the file means it. -/
structure Meaning where
  mode : StsMode
  maxAge : Nat
  patterns : List WString

/-- The number that a value spells, of any length. -/
def numberOf (env : Environment) (value : Option AnsiString) : Nat :=
  match value with
  | none => 0
  | some value => if isNumeric env value then WString.digitsValue (env.widen value) else 0

/-- An age between the bounds that `FetchStsPolicy_` holds it in. -/
def held (age : Nat) : Nat := min (max age minStsCacheSeconds) maxStsMaxAge

/-- The policy that a file means: of each key but `mx` the first line counts,
    the version must be the known one, and to enforce without a pattern is no
    policy. -/
def meaningOf (env : Environment) (body : AnsiString) : Option Meaning :=
  let first := fun key => (valuesOf key (fields env body)).head?
  if first (ansi "version") ≠ some (ansi "STSv1") then none
  else if modeOf (first (ansi "mode")) = .enforce ∧ patternsOf env (fields env body) = [] then none
  else some {
    mode := modeOf (first (ansi "mode"))
    maxAge := held (numberOf env (first (ansi "max_age")))
    patterns := patternsOf env (fields env body) }

/-- The policy and the age that were read are what the file means, for every
    host name. -/
def ReadsAs (loc : Locale) : Option (StsPolicy × Nat) → Option Meaning → Prop
  | none, none => True
  | some (policy, maxAge), some meaning =>
    policy.mode = meaning.mode ∧ maxAge = meaning.maxAge ∧
      ∀ hostName, hostMatchesStsPolicy loc hostName policy = true ↔
        ∃ pattern ∈ meaning.patterns, Covers loc pattern hostName
  | _, _ => False

/-- The last line of each key says what the first one says. A file that is to be
    enforced without a pattern may also be given up for its later versions. -/
def LastAsFirst (env : Environment) (body : AnsiString) : Prop :=
  let values := fun key => valuesOf key (fields env body)
  (values (ansi "version")).head? ≠ some (ansi "STSv1") ∨
    (modeOf (values (ansi "mode")).head? = .enforce ∧ patternsOf env (fields env body) = []) ∧
      (Versions (fields env body) → modeOf (values (ansi "mode")).getLast? = .enforce) ∨
    Versions (fields env body) ∧ modeOf (values (ansi "mode")).getLast? = modeOf (values (ansi "mode")).head? ∧
      held ((((values (ansi "max_age")).filter (isNumeric env)).getLast?.map env.atoi).getD 0).toNat =
        held (numberOf env (values (ansi "max_age")).head?)

/-- The fetched policy is the one that the file means exactly if the last line
    of each key agrees with the first. -/
theorem policy_meant_iff (env : Environment) (body : AnsiString) :
    ReadsAs env.loc (fetchStsPolicy env (some body)) (meaningOf env body) ↔ LastAsFirst env body := by
  have hfetch : fetchStsPolicy env (some body) =
      (parseStsPolicyBody env body).bind fun read => some (read.1, held read.2.toNat) := rfl
  rw [hfetch, parseStsPolicyBody_eq, meaningOf, LastAsFirst]
  generalize fields env body = fs
  dsimp only
  by_cases hfirst : (valuesOf (ansi "version") fs).head? = some (ansi "STSv1")
  · have hseen : valuesOf (ansi "version") fs ≠ [] := by
      intro hnil
      rw [hnil] at hfirst
      cases hfirst
    have hknown : ¬ (valuesOf (ansi "version") fs).head? ≠ some (ansi "STSv1") := not_not.2 hfirst
    have hmode : (gathered env fs).policy.mode = modeOf (valuesOf (ansi "mode") fs).getLast? := rfl
    rw [if_neg hknown, or_iff_right hknown]
    simp only [hseen, false_or, hmode]
    by_cases hversions : Versions fs
    · simp only [hversions, not_true, false_or, true_imp_iff, true_and]
      by_cases hmeant : modeOf (valuesOf (ansi "mode") fs).head? = .enforce ∧ patternsOf env fs = []
      · by_cases hread : modeOf (valuesOf (ansi "mode") fs).getLast? = .enforce
        · rw [if_pos ⟨hread, hmeant.2⟩, if_pos hmeant]
          exact ⟨fun _ => .inl ⟨hmeant, hread⟩, fun _ => trivial⟩
        · rw [if_neg fun h => hread h.1, if_pos hmeant]
          refine ⟨fun h => h.elim, ?_⟩
          rintro (h | h)
          · exact hread h.2
          · exact hread (h.1.trans hmeant.1)
      · by_cases hread : modeOf (valuesOf (ansi "mode") fs).getLast? = .enforce ∧ patternsOf env fs = []
        · rw [if_pos hread, if_neg hmeant]
          refine ⟨fun h => h.elim, ?_⟩
          rintro (h | h)
          · exact hmeant h.1
          · exact hmeant ⟨h.1.symm.trans hread.1, hread.2⟩
        · -- both are policies, with the same patterns
          rw [if_neg hread, if_neg hmeant]
          constructor
          · rintro ⟨hmodes, hages, _⟩
            exact .inr ⟨hmodes, hages⟩
          · rintro (h | ⟨hmodes, hages⟩)
            · exact absurd h.1 hmeant
            · exact ⟨hmodes, hages, fun hostName => hostMatchesStsPolicy_iff env.loc hostName _⟩
    · rw [if_pos (.inl hversions)]
      simp only [hversions, false_imp_iff, and_true, false_and, or_false]
      by_cases hmeant : modeOf (valuesOf (ansi "mode") fs).head? = .enforce ∧ patternsOf env fs = []
      · rw [if_pos hmeant]
        exact ⟨fun _ => hmeant, fun _ => trivial⟩
      · rw [if_neg hmeant]
        exact ⟨fun h => h.elim, fun h => hmeant h⟩
  · -- a file whose first version is another or missing is given up
    rw [if_pos hfirst, if_pos]
    · exact ⟨fun _ => .inl hfirst, fun _ => trivial⟩
    · by_cases hseen : valuesOf (ansi "version") fs = []
      · exact .inl hseen
      · refine .inr (.inl fun hversions => hfirst ?_)
        obtain ⟨value, more, hvalues⟩ := List.exists_cons_of_ne_nil hseen
        rw [hvalues, List.head?_cons, hversions value (by rw [hvalues]; exact List.mem_cons_self)]

/-- Conversions that keep ASCII text as it is. -/
def KeepsAscii (env : Environment) : Prop :=
  ∀ text : AnsiString, (∀ c ∈ text, 0 < c ∧ c < 128) → env.narrow (env.widen text) = text

/-- The lines of an ASCII file are its text between the line feeds, but for
    nothing behind the last of them. -/
theorem splitString_ascii {env : Environment} (henv : KeepsAscii env) {body : AnsiString}
    (hbody : ∀ c ∈ body, 0 < c ∧ c < 128) :
    splitString env body 10 = body.splitOn 10 ∨ splitString env body 10 ++ [[]] = body.splitOn 10 := by
  have hkept : ∀ {parts : List AnsiString}, parts ⊆ body.splitOn 10 →
      (parts.map fun part => env.narrow (env.widen part)) = parts := by
    intro parts hparts
    calc parts.map (fun part => env.narrow (env.widen part)) = parts.map id :=
          List.map_congr_left fun part hpart =>
            henv part fun c hc => hbody c (Separated.mem_of_mem_splitOn (hparts hpart) hc)
      _ = parts := List.map_id parts
  have hparts : ∀ {parts : List AnsiString}, parts ⊆ body.splitOn 10 →
      (if 10 ∈ body then parts.map fun part => env.narrow (env.widen part) else parts) = parts := by
    intro parts h
    split
    · exact hkept h
    · rfl
  rw [splitString]
  by_cases hlast : (body.splitOn 10).getLast? = some []
  · right
    rw [if_pos hlast, hparts (List.dropLast_subset _)]
    exact List.dropLast_append_getLast? [] hlast
  · left
    rw [if_neg hlast, hparts (List.Subset.refl _)]

theorem held_eq_of_unrepeated {env : Environment} {ages : List AnsiString} (hages : ages.length ≤ 1)
    (hatoi : ∀ value ∈ ages, isNumeric env value = true → env.atoi value = WString.digitsValue (env.widen value)) :
    held (((ages.filter (isNumeric env)).getLast?.map env.atoi).getD 0).toNat = held (numberOf env ages.head?) := by
  match ages, hages with
  | [], _ => rfl
  | [value], _ =>
    by_cases hnumeric : isNumeric env value = true
    · rw [List.filter_cons_of_pos hnumeric]
      simp [numberOf, hnumeric, hatoi value List.mem_cons_self hnumeric]
    · rw [List.filter_cons_of_neg hnumeric]
      simp [numberOf, hnumeric]

/-- A file that repeats no key is read as it is meant, if its age is one that
    `atoi` can give. -/
theorem policy_meant_of_unrepeated {env : Environment} {body : AnsiString}
    (hkeys : ∀ key, key ≠ ansi "mx" → (valuesOf key (fields env body)).length ≤ 1)
    (hatoi : ∀ value ∈ valuesOf (ansi "max_age") (fields env body), isNumeric env value = true →
      env.atoi value = WString.digitsValue (env.widen value)) :
    ReadsAs env.loc (fetchStsPolicy env (some body)) (meaningOf env body) := by
  rw [policy_meant_iff, LastAsFirst]
  have hlast : ∀ {values : List AnsiString}, values.length ≤ 1 → values.getLast? = values.head? := by
    intro values hvalues
    match values, hvalues with
    | [], _ => rfl
    | [_], _ => rfl
  by_cases hfirst : (valuesOf (ansi "version") (fields env body)).head? = some (ansi "STSv1")
  · refine .inr (.inr ⟨?_, ?_, ?_⟩)
    · intro value hvalue
      have hsingle := hkeys (ansi "version") (by decide)
      match hvalues : valuesOf (ansi "version") (fields env body) with
      | [] => rw [hvalues] at hvalue; cases hvalue
      | version :: more =>
        rw [hvalues] at hfirst hvalue hsingle
        obtain rfl : more = [] := List.length_eq_zero_iff.1 (by simpa using hsingle)
        rw [List.mem_singleton.1 hvalue]
        exact Option.some.inj hfirst
    · rw [hlast (hkeys _ (by decide))]
    · exact held_eq_of_unrepeated (hkeys _ (by decide)) hatoi
  · exact .inl hfirst

/-- A policy of two modes: it means the first, and the second is read. -/
def modeTwice : AnsiString := ansi "version: STSv1\nmode: none\nmode: enforce\nmx: mx.example.com\nmax_age: 86400\n"

theorem second_mode_read :
    fetchStsPolicy asciiEnvironment (some modeTwice) =
        some ({ mode := .enforce, mxPatterns := [wide "mx.example.com"] }, 86400) ∧
      ¬ ReadsAs asciiEnvironment.loc (fetchStsPolicy asciiEnvironment (some modeTwice))
        (meaningOf asciiEnvironment modeTwice) := by
  have hread : fetchStsPolicy asciiEnvironment (some modeTwice) =
      some ({ mode := .enforce, mxPatterns := [wide "mx.example.com"] }, 86400) := by decide +kernel
  have hmeant : (meaningOf asciiEnvironment modeTwice).map Meaning.mode = some .none := by decide +kernel
  refine ⟨hread, ?_⟩
  rw [hread]
  intro h
  obtain ⟨meaning, hmeaning, hmode⟩ := Option.map_eq_some_iff.1 hmeant
  rw [hmeaning] at h
  exact absurd (h.1.trans hmode) (by decide)

end HMailServer.TlsPolicy
