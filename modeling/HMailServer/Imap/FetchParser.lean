import HMailServer.Util.WideString

/- The items of a FETCH command (`IMAP/IMAPFetchParser.cpp`): `ParseString_` cuts the
   argument at brackets and spaces, and cleans what is left of it after each item. A
   position is an integer, -1 where a search fails. -/
namespace HMailServer.IMAPFetchParser

/-- `Find` of one character; a start of -1 is behind every end. -/
def find (s : WString) (c : WChar) (start : Int) : Int :=
  if start < 0 then -1
  else match WString.findFrom s c start.toNat with
    | some position => position
    | none => -1

/-- `Mid` to the end of the string. -/
def midFrom (s : WString) (first : Int) : WString := s.drop first.toNat

/-- `SafeGetAt`, whose index is unsigned: NUL behind the end, and for -1. -/
def safeGetAt (s : WString) (index : Int) : WChar :=
  if index < 0 then 0 else s.getD index.toNat 0

/-- `if (sString.Left(1) == first) sString = sString.Mid(1)`. -/
def stripFirst (first s : WString) : WString := if s.take 1 = first then midFrom s 1 else s

def cleanFetchString (s : WString) : WString :=
  let s := stripFirst (wide "(") (stripFirst (wide " ") s)
  if s.drop (s.length - 1) = wide ")" then s.take (s.length - 1) else s

/-- One turn of the loop over a string that is not empty: the items it adds and the
    string it leaves, or the `break` of an item that is never closed. -/
def parseTurn (s : WString) : Option (List WString × WString) :=
  let firstLeftBracket := find s 91 0
  let firstSpace := find s 32 0
  if 0 ≤ firstLeftBracket ∧ firstLeftBracket < firstSpace then
    let firstRightBracket := find s 93 firstLeftBracket
    let firstRightBracket :=
      if safeGetAt s (firstRightBracket + 1) = 60 then find s 62 firstRightBracket
      else firstRightBracket
    if firstRightBracket < 0 then none
    else if firstRightBracket = 0 then some ([], midFrom s (firstRightBracket + 1))
    else
      some ([s.take (firstRightBracket + 1).toNat],
        cleanFetchString (midFrom s (firstRightBracket + 1)))
  else if 0 ≤ firstSpace then
    some ([s.take firstSpace.toNat], cleanFetchString (midFrom s (firstSpace + 1)))
  else some ([s], cleanFetchString [])

/-- The loop; `none` where the fuel runs out before it ends. -/
def parseLoop : Nat → WString → List WString → Option (List WString)
  | 0, _, _ => none
  | fuel + 1, s, result =>
    if s.isEmpty then some result
    else match parseTurn s with
      | none => some result
      | some (items, rest) => parseLoop fuel rest (result ++ items)

/-- `ParseString_`. -/
def parseString (fuel : Nat) (s : WString) : Option (List WString) :=
  parseLoop fuel (cleanFetchString s) []

/-! ## The loop ends -/

theorem length_midFrom (s : WString) (first : Int) :
    (midFrom s first).length = s.length - first.toNat := List.length_drop

theorem length_stripFirst_le (first s : WString) : (stripFirst first s).length ≤ s.length := by
  unfold stripFirst
  split
  · rw [length_midFrom]
    omega
  · exact le_rfl

theorem length_cleanFetchString_le (s : WString) : (cleanFetchString s).length ≤ s.length := by
  have hspace := length_stripFirst_le (wide " ") s
  have hleft := length_stripFirst_le (wide "(") (stripFirst (wide " ") s)
  unfold cleanFetchString
  dsimp only
  split
  · rw [List.length_take]
    omega
  · omega

/-- A turn that does not break the loop consumes at least one character. -/
theorem length_midFrom_lt {s : WString} {position : Int} (hne : s ≠ []) (hpos : 0 ≤ position) :
    (midFrom s (position + 1)).length < s.length := by
  have hlen := List.length_pos_of_ne_nil hne
  rw [length_midFrom]
  omega

theorem length_parseTurn_lt {s rest : WString} {items : List WString} (hne : s ≠ [])
    (h : parseTurn s = some (items, rest)) : rest.length < s.length := by
  have hcleaned : ∀ position : Int, 0 ≤ position →
      (cleanFetchString (midFrom s (position + 1))).length < s.length := by
    intro position hpos
    exact lt_of_le_of_lt (length_cleanFetchString_le _) (length_midFrom_lt hne hpos)
  unfold parseTurn at h
  dsimp only at h
  split at h
  case isTrue hbracket =>
    generalize (if safeGetAt s (find s 93 (find s 91 0) + 1) = 60 then
      find s 62 (find s 93 (find s 91 0)) else find s 93 (find s 91 0)) = right at h
    split at h
    case isTrue hopen => exact absurd h (by simp)
    case isFalse hclosed =>
      split at h
      case isTrue hzero =>
        injection h with h
        injection h with _ hrest
        rw [← hrest]
        exact length_midFrom_lt hne (by omega)
      case isFalse hlater =>
        injection h with h
        injection h with _ hrest
        rw [← hrest]
        exact hcleaned right (by omega)
  case isFalse hnoBracket =>
    split at h
    case isTrue hspace =>
      injection h with h
      injection h with _ hrest
      rw [← hrest]
      exact hcleaned _ hspace
    case isFalse hnoSpace =>
      injection h with h
      injection h with _ hrest
      have hlen := List.length_pos_of_ne_nil hne
      rw [← hrest]
      exact lt_of_le_of_lt (length_cleanFetchString_le _) hlen

theorem parseLoop_returns (s : WString) (result : List WString) :
    ∃ items, ∀ fuel, s.length < fuel → parseLoop fuel s result = some items := by
  induction hlen : s.length using Nat.strong_induction_on generalizing s result with
  | _ n ih =>
    by_cases hempty : s = []
    · refine ⟨result, ?_⟩
      intro fuel hfuel
      obtain ⟨fuel, rfl⟩ : ∃ k, fuel = k + 1 := ⟨fuel - 1, by omega⟩
      rw [hempty]
      rfl
    · have hnot : s.isEmpty = false := by simpa using hempty
      cases hturn : parseTurn s with
      | none =>
        refine ⟨result, ?_⟩
        intro fuel hfuel
        obtain ⟨fuel, rfl⟩ : ∃ k, fuel = k + 1 := ⟨fuel - 1, by omega⟩
        unfold parseLoop
        simp [hnot, hturn]
      | some turn =>
        obtain ⟨items, rest⟩ := turn
        have hlt := length_parseTurn_lt hempty hturn
        obtain ⟨final, hfinal⟩ := ih rest.length (by omega) rest (result ++ items) rfl
        refine ⟨final, ?_⟩
        intro fuel hfuel
        obtain ⟨fuel, rfl⟩ : ∃ k, fuel = k + 1 := ⟨fuel - 1, by omega⟩
        unfold parseLoop
        simp only [hnot, hturn]
        exact hfinal fuel (by omega)

/-- The splitter ends on every string: it makes at most one turn for each character. -/
theorem parseString_ends (s : WString) :
    ∃ items, ∀ fuel, s.length < fuel → parseString fuel s = some items := by
  obtain ⟨items, hitems⟩ := parseLoop_returns (cleanFetchString s) []
  refine ⟨items, ?_⟩
  intro fuel hfuel
  exact hitems fuel (lt_of_le_of_lt (length_cleanFetchString_le s) hfuel)

end HMailServer.IMAPFetchParser
