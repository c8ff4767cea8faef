import Mathlib
import HMailServer.Lib.Glob
import HMailServer.Lib.Replacement
import HMailServer.Sql.ParameterSubstitution

/- The wildcards of a stored address (`ConvertWildcardToLike` and
   `ConvertLikeToWildcard` of `Common/SQL/SQLStatement.cpp`). A wildcard string
   becomes an SQL `LIKE` pattern, which is read with the escape character `/`,
   and the pattern becomes a wildcard string again. Both ways are chains of
   replacements over the whole string. -/
namespace HMailServer.Sql

open Glob (Token)

/-! ## The conversions -/

/-- `SQLStatement::ConvertWildcardToLike`. -/
def convertWildcardToLike (input : WString) : WString :=
  let input := replace 47 (wide "//") input
  let input := replace 37 (wide "/%") input
  let input := replace 95 (wide "/_") input
  let input := replace 63 (wide "_") input
  replace 42 (wide "%") input

/-- The texts that stand for an escaped wildcard in between. -/
def escapedPercentage : WString := wide "¤¤¤ESCAPED¤¤¤PERCENTAGE¤¤¤"
def escapedUnderscore : WString := wide "¤¤¤ESCAPED¤¤¤UNDERSCORE¤¤¤"

/-- `SQLStatement::ConvertLikeToWildcard`. -/
def convertLikeToWildcard (input : WString) : WString :=
  let input := Replacement.replace (wide "//") (wide "/") input
  let input := Replacement.replace (wide "/%") escapedPercentage input
  let input := Replacement.replace (wide "/_") escapedUnderscore input
  let input := replace 95 (wide "?") input
  let input := replace 37 (wide "*") input
  let input := Replacement.replace escapedPercentage (wide "%") input
  Replacement.replace escapedUnderscore (wide "_") input

/-! ## What they stand for -/

/-- A wildcard string: `*` is any run, `?` one character. -/
def wildcardTokens : WString → List (Token WChar)
  | [] => []
  | c :: w => (if c = 42 then .star else if c = 63 then .one else .char c) :: wildcardTokens w

/-- A `LIKE` pattern with the escape character `/`. -/
def likeTokens : WString → List (Token WChar)
  | [] => []
  | [c] => [if c = 37 then .star else if c = 95 then .one else .char c]
  | c :: d :: p =>
    if c = 47 then .char d :: likeTokens p
    else (if c = 37 then .star else if c = 95 then .one else .char c) :: likeTokens (d :: p)

/-- The pattern of one character. -/
def likeOf (c : WChar) : WString :=
  if c = 47 then [47, 47]
  else if c = 37 then [47, 37]
  else if c = 95 then [47, 95]
  else if c = 63 then [95]
  else if c = 42 then [37]
  else [c]

theorem convertWildcardToLike_eq (w : WString) : convertWildcardToLike w = w.flatMap likeOf := by
  have hstart : replace 47 (wide "//") w = w.flatMap fun c => if c = 47 then [47, 47] else [c] := rfl
  rw [convertWildcardToLike, hstart]
  simp only [flatMap_flatMap_replace]
  apply congrArg (fun f => w.flatMap f)
  funext c
  rw [likeOf]
  split
  · rfl
  · rename_i hslash
    by_cases hpercent : c = 37
    · subst hpercent
      rfl
    by_cases hunderscore : c = 95
    · subst hunderscore
      rfl
    by_cases hone : c = 63
    · subst hone
      rfl
    by_cases hrun : c = 42
    · subst hrun
      rfl
    simp [replace, hpercent, hunderscore, hone, hrun]

theorem likeTokens_cons {c : WChar} (hslash : c ≠ 47) (p : WString) :
    likeTokens (c :: p) = (if c = 37 then .star else if c = 95 then .one else .char c) :: likeTokens p := by
  cases p with
  | nil => rfl
  | cons d p => rw [likeTokens, if_neg hslash]

theorem likeTokens_escaped (d : WChar) (p : WString) : likeTokens (47 :: d :: p) = .char d :: likeTokens p := by
  rw [likeTokens, if_pos rfl]

/-- The pattern says of every character what the wildcard string says. -/
theorem likeTokens_convertWildcardToLike (w : WString) : likeTokens (convertWildcardToLike w) = wildcardTokens w := by
  rw [convertWildcardToLike_eq]
  induction w with
  | nil => rfl
  | cons c w ih =>
    rw [List.flatMap_cons, likeOf, wildcardTokens, ← ih]
    by_cases hslash : c = 47
    · subst hslash
      exact likeTokens_escaped 47 _
    by_cases hpercent : c = 37
    · subst hpercent
      exact likeTokens_escaped 37 _
    by_cases hunderscore : c = 95
    · subst hunderscore
      exact likeTokens_escaped 95 _
    by_cases hone : c = 63
    · subst hone
      exact likeTokens_cons (by decide) _
    by_cases hrun : c = 42
    · subst hrun
      exact likeTokens_cons (by decide) _
    simp only [hslash, hpercent, hunderscore, hone, hrun, if_false, List.cons_append, List.nil_append]
    rw [likeTokens_cons hslash, if_neg hpercent, if_neg hunderscore]

/-! ## The way back

The first five steps leave a character for a character, but for the escaped
wildcards, whose place a marker holds. A slash in front of a typed wildcard is
taken for the escape of it. -/

/-- The typed slashes that are read as escapes. -/
def misread (w : WString) : WString :=
  Replacement.replace (wide "/?") (wide "_") (Replacement.replace (wide "/*") (wide "%") w)

def marked (c : WChar) : WString :=
  if c = 37 then escapedPercentage else if c = 95 then escapedUnderscore else [c]

/-- The last two steps. -/
def unmark (s : WString) : WString :=
  Replacement.replace escapedUnderscore (wide "_") (Replacement.replace escapedPercentage (wide "%") s)

/-- Once the doubled slashes are single. -/
def halved (c : WChar) : WString :=
  if c = 37 then [47, 37] else if c = 95 then [47, 95] else if c = 63 then [95] else if c = 42 then [37] else [c]

theorem replace_doubled (w : WString) : Replacement.replace (wide "//") (wide "/") (w.flatMap likeOf) = w.flatMap halved := by
  have hold : wide "//" = [47, 47] := rfl
  rw [hold]
  induction w with
  | nil => rfl
  | cons c w ih =>
    -- A slash behind which no second one stands, and a character that is none.
    have hescape : ∀ d ≠ 47, ∀ s, Replacement.replace [47, 47] (wide "/") (47 :: d :: s) =
        47 :: d :: Replacement.replace [47, 47] (wide "/") s := by
      intro d hd s
      rw [Replacement.replace_cons_of_not, Replacement.replace_cons_of_not]
      · exact fun h => hd (List.cons_prefix_cons.1 h).1.symm
      · exact fun h => hd (List.cons_prefix_cons.1 (List.cons_prefix_cons.1 h).2).1.symm
    have hplain : ∀ d ≠ 47, ∀ s, Replacement.replace [47, 47] (wide "/") (d :: s) =
        d :: Replacement.replace [47, 47] (wide "/") s := by
      intro d hd s
      exact Replacement.replace_cons_of_not fun h => hd (List.cons_prefix_cons.1 h).1.symm
    rw [List.flatMap_cons, List.flatMap_cons, ← ih, likeOf, halved]
    by_cases hslash : c = 47
    · subst hslash
      exact Replacement.replace_append_old (by decide)
    by_cases hpercent : c = 37
    · subst hpercent
      exact hescape 37 (by decide) _
    by_cases hunderscore : c = 95
    · subst hunderscore
      exact hescape 95 (by decide) _
    by_cases hone : c = 63
    · subst hone
      exact hplain 95 (by decide) _
    by_cases hrun : c = 42
    · subst hrun
      exact hplain 37 (by decide) _
    simp only [hslash, hpercent, hunderscore, hone, hrun, if_false, List.cons_append, List.nil_append]
    exact hplain c hslash _

/-- A step that marks the escaped `mark`: it reads a slash in front of `wild`,
    which `f` writes as a plain `mark`, as an escape too. -/
theorem replace_escape {f : WChar → WString} (mark wild : WChar) {new : WString} (hslash : f 47 = [47])
    (hmark : f mark = [47, mark]) (hwild : f wild = [mark]) (hhead : ∀ c, c ≠ wild → ∀ s t : WString, f c ++ s ≠ mark :: t)
    (hpassed : ∀ c, c ≠ 47 → c ≠ mark → ∀ s : WString,
      Replacement.replace [47, mark] new (f c ++ s) = f c ++ Replacement.replace [47, mark] new s) (w : WString) :
    Replacement.replace [47, mark] new (w.flatMap f) =
      (Replacement.replace [47, wild] [mark] w).flatMap fun c => if c = mark then new else f c := by
  have hwritten : ∀ s : WString, Replacement.replace [47, mark] new (47 :: mark :: s) =
      new ++ Replacement.replace [47, mark] new s := fun s => Replacement.replace_append_old (List.cons_ne_nil _ _)
  have hpair : ([47, wild] : WString) ≠ [] := List.cons_ne_nil _ _
  induction w using Replacement.replace_induction hpair with
  | hnil => rfl
  | hpassed w ih =>
    rw [Replacement.replace_append_old hpair, List.flatMap_append, List.flatMap_append, ← ih]
    simp only [List.flatMap_cons, List.flatMap_nil, List.append_nil, hslash, hwild, if_true]
    exact hwritten _
  | hcons c w hnot ih =>
    rw [Replacement.replace_cons_of_not hnot, List.flatMap_cons, List.flatMap_cons, ← ih]
    by_cases hc : c = mark
    · subst hc
      rw [if_pos rfl, hmark]
      exact hwritten _
    rw [if_neg hc]
    by_cases hcSlash : c = 47
    · subst hcSlash
      rw [hslash]
      apply Replacement.replace_cons_of_not
      intro h
      have hbehind : [mark] <+: w.flatMap f := (List.cons_prefix_cons.1 h).2
      cases w with
      | nil => exact absurd (List.prefix_nil.1 hbehind) nofun
      | cons d w =>
        by_cases hd : d = wild
        · subst hd
          exact hnot (List.prefix_append [47, d] w)
        · obtain ⟨rest, hrest⟩ := hbehind
          exact hhead d hd _ rest hrest.symm
    · exact hpassed c hcSlash hc _

theorem escapedPercentage_eq : escapedPercentage =
    [164, 164, 164, 69, 83, 67, 65, 80, 69, 68, 164, 164, 164, 80, 69, 82, 67, 69, 78, 84, 65, 71, 69, 164, 164, 164] := by
  decide

theorem escapedUnderscore_eq : escapedUnderscore =
    [164, 164, 164, 69, 83, 67, 65, 80, 69, 68, 164, 164, 164, 85, 78, 68, 69, 82, 83, 67, 79, 82, 69, 164, 164, 164] := by
  decide

theorem escapedPercentage_ne_nil : escapedPercentage ≠ [] := by
  rw [escapedPercentage_eq]
  exact List.cons_ne_nil _ _

theorem escapedUnderscore_ne_nil : escapedUnderscore ≠ [] := by
  rw [escapedUnderscore_eq]
  exact List.cons_ne_nil _ _

theorem length_escapedPercentage : escapedPercentage.length = 26 := by rw [escapedPercentage_eq]; rfl
theorem length_escapedUnderscore : escapedUnderscore.length = 26 := by rw [escapedUnderscore_eq]; rfl

theorem replace_percentage (w : WString) :
    Replacement.replace (wide "/%") escapedPercentage (w.flatMap halved) =
      (Replacement.replace (wide "/*") (wide "%") w).flatMap
        fun c => if c = 37 then escapedPercentage else halved c := by
  apply replace_escape 37 42 rfl rfl rfl
  · intro c hc s t
    rw [halved]
    split_ifs with hpercent
    · exact fun h => absurd (List.cons.inj h).1 (by decide)
    · exact fun h => absurd (List.cons.inj h).1 (by decide)
    · exact fun h => absurd (List.cons.inj h).1 (by decide)
    · exact fun h => hpercent (List.cons.inj h).1
  · intro c hslash hc s
    rw [halved, if_neg hc]
    split_ifs with hunderscore hone hrun
    · rw [List.cons_append, Replacement.replace_cons_of_not, List.cons_append, Replacement.replace_cons_of_not]
      · rfl
      · exact fun h => absurd (List.cons_prefix_cons.1 h).1 (by decide)
      · exact fun h => absurd (List.cons_prefix_cons.1 (List.cons_prefix_cons.1 h).2).1 (by decide)
    · exact Replacement.replace_append_of_notMem (by decide)
    · exact Replacement.replace_append_of_notMem (by decide)
    · exact Replacement.replace_append_of_notMem (by rwa [List.mem_singleton, eq_comm])

theorem replace_underscore (w : WString) :
    Replacement.replace (wide "/_") escapedUnderscore (w.flatMap fun c => if c = 37 then escapedPercentage else halved c) =
      (Replacement.replace (wide "/?") (wide "_") w).flatMap
        fun c => if c = 95 then escapedUnderscore else if c = 37 then escapedPercentage else halved c := by
  apply replace_escape 95 63 rfl rfl rfl
  · intro c hc s t
    rw [halved]
    split_ifs with hpercent hunderscore
    · rw [escapedPercentage_eq]
      exact fun h => absurd (List.cons.inj h).1 (by decide)
    · exact fun h => absurd (List.cons.inj h).1 (by decide)
    · exact fun h => absurd (List.cons.inj h).1 (by decide)
    · exact fun h => hunderscore (List.cons.inj h).1
  · intro c hslash hc s
    rw [halved, if_neg hc]
    split_ifs with hpercent hone hrun
    · exact Replacement.replace_append_of_notMem (by rw [escapedPercentage_eq]; decide)
    · exact Replacement.replace_append_of_notMem (by decide)
    · exact Replacement.replace_append_of_notMem (by decide)
    · exact Replacement.replace_append_of_notMem (by rwa [List.mem_singleton, eq_comm])

/-- Together the two conversions mark the wildcards of what is read, and take
    the marks out. -/
theorem convertLikeToWildcard_convert (w : WString) :
    convertLikeToWildcard (convertWildcardToLike w) = unmark ((misread w).flatMap marked) := by
  rw [convertLikeToWildcard, convertWildcardToLike_eq, replace_doubled, replace_percentage, replace_underscore]
  simp only [flatMap_flatMap_replace]
  rw [unmark, misread]
  congr 3
  funext c
  by_cases hunderscore : c = 95
  · rw [hunderscore, marked, if_pos rfl, if_neg (by decide), if_pos rfl, escapedUnderscore_eq]
    decide
  by_cases hpercent : c = 37
  · rw [hpercent, marked, if_pos rfl, if_neg (by decide), if_pos rfl, escapedPercentage_eq]
    decide
  by_cases hone : c = 63
  · subst hone
    rfl
  by_cases hrun : c = 42
  · subst hrun
    rfl
  simp [replace, marked, halved, hpercent, hunderscore, hone, hrun]

/-! ## Slashes -/

theorem count_marked (v : WString) : (v.flatMap marked).count 47 = v.count 47 := by
  induction v with
  | nil => rfl
  | cons c v ih =>
    have hsame : (marked c).count 47 = [c].count 47 := by
      by_cases hpercent : c = 37
      · rw [hpercent, marked, if_pos rfl, escapedPercentage_eq]
        rfl
      by_cases hunderscore : c = 95
      · rw [hunderscore, marked, if_neg (by decide), if_pos rfl, escapedUnderscore_eq]
        rfl
      rw [marked, if_neg hpercent, if_neg hunderscore]
    rw [List.flatMap_cons, List.count_append, hsame, ih, ← List.count_append]
    rfl

theorem count_unmark (v : WString) : (unmark (v.flatMap marked)).count 47 = v.count 47 := by
  rw [unmark, Replacement.count_replace_eq, Replacement.count_replace_eq, count_marked]
  · exact escapedPercentage_ne_nil
  · rw [escapedPercentage_eq]
    rfl
  · exact escapedUnderscore_ne_nil
  · rw [escapedUnderscore_eq]
    rfl

/-- A typed slash that is read as an escape is lost. -/
theorem misread_of_count {w : WString} (h : (misread w).count 47 = w.count 47) :
    ¬wide "/*" <:+: w ∧ ¬wide "/?" <:+: w := by
  have hfirst : (Replacement.replace (wide "/*") (wide "%") w).count 47 ≤ w.count 47 :=
    Replacement.count_replace_le (by decide) (by decide)
  have hsecond : (misread w).count 47 ≤ (Replacement.replace (wide "/*") (wide "%") w).count 47 :=
    Replacement.count_replace_le (by decide) (by decide)
  have hrun : ¬wide "/*" <:+: w := by
    intro hinfix
    have hless : (Replacement.replace (wide "/*") (wide "%") w).count 47 < w.count 47 :=
      Replacement.count_replace_lt (by decide) (by decide) hinfix
    omega
  refine ⟨hrun, fun hinfix => ?_⟩
  rw [misread, Replacement.replace_of_not_infix hrun] at h
  have hless : (Replacement.replace (wide "/?") (wide "_") w).count 47 < w.count 47 :=
    Replacement.count_replace_lt (by decide) (by decide) hinfix
  omega

theorem misread_eq_self {w : WString} (hrun : ¬wide "/*" <:+: w) (hone : ¬wide "/?" <:+: w) : misread w = w := by
  rw [misread, Replacement.replace_of_not_infix hrun, Replacement.replace_of_not_infix hone]

/-! ## Typed markers -/

/-- Whether the text begins with the marker, where a character of `fill`, being
    written as a marker, makes up for up to three of the marker's last
    characters. -/
def begins (fill : List WChar) : WString → WString → Bool
  | [], _ => true
  | _ :: _, [] => false
  | m :: ms, c :: v => if c ∈ fill then ms.length < 3 else m = c && begins fill ms v

/-- No marker is typed, or completed by a typed `%` or `_`, and none is
    completed by what is typed behind a `_`. -/
def Unmarked : WString → Prop
  | [] => True
  | c :: v =>
    (if c = 37 then True
      else if c = 95 then ∀ k ∈ [1, 2, 3], begins [37, 95] (escapedPercentage.drop k) v = false
      else begins [37, 95] escapedPercentage (c :: v) = false ∧ begins [95] escapedUnderscore (c :: v) = false) ∧
    Unmarked v

instance : ∀ v, Decidable (Unmarked v)
  | [] => inferInstanceAs (Decidable True)
  | _ :: v =>
    have : Decidable (Unmarked v) := instDecidableUnmarked v
    inferInstanceAs (Decidable (_ ∧ Unmarked v))

/-- Where only marks stand behind a `_` or in place of the text. -/
def underscored (c : WChar) : WString := if c = 95 then escapedUnderscore else [c]

theorem prefix_iff_begins {f : WChar → WString} {fill : List WChar} {marker : WString}
    (hplain : ∀ c ∉ fill, f c = [c])
    (hfill : ∀ c ∈ fill, ∀ k, 0 < k → k < marker.length → ∀ s, marker.drop k <+: f c ++ s ↔ marker.length ≤ k + 3)
    (v : WString) : ∀ k, 0 < k → (marker.drop k <+: v.flatMap f ↔ begins fill (marker.drop k) v = true) := by
  induction v with
  | nil =>
    intro k _
    rw [List.flatMap_nil, List.prefix_nil]
    cases marker.drop k with
    | nil => exact iff_of_true rfl rfl
    | cons m ms => exact iff_of_false nofun nofun
  | cons c v ih =>
    intro k hk
    by_cases hend : marker.length ≤ k
    · rw [List.drop_eq_nil_of_le hend]
      exact iff_of_true List.nil_prefix rfl
    · have hlt : k < marker.length := Nat.lt_of_not_le hend
      have hdrop := List.drop_eq_getElem_cons hlt
      rw [List.flatMap_cons]
      by_cases hc : c ∈ fill
      · rw [hfill c hc k hk hlt, hdrop, begins, if_pos hc, decide_eq_true_eq, List.length_drop]
        omega
      · rw [hplain c hc, hdrop, begins, if_neg hc, Bool.and_eq_true, decide_eq_true_eq, ← ih (k + 1) (Nat.succ_pos k)]
        exact List.cons_prefix_cons

theorem prefix_cons_iff_begins {f : WChar → WString} {fill : List WChar} {marker : WString}
    (h : ∀ v : WString, marker.drop 1 <+: v.flatMap f ↔ begins fill (marker.drop 1) v = true) {c : WChar} (hc : c ∉ fill)
    (v : WString) : marker <+: c :: v.flatMap f ↔ begins fill marker (c :: v) = true := by
  cases marker with
  | nil => exact iff_of_true List.nil_prefix rfl
  | cons m ms =>
    rw [begins, if_neg hc, Bool.and_eq_true, decide_eq_true_eq, List.cons_prefix_cons]
    exact and_congr_right fun _ => h v

/-- What the end of a marker and the start of a marker share. -/
theorem overlap_iff {marker : WString} (other : WString) {k : Nat} (hlength : other.length = marker.length)
    (h : ∀ k < marker.length, 0 < k → ((marker.drop k).isPrefixOf other = true ↔ marker.length ≤ k + 3)) (hk : 0 < k)
    (hlt : k < marker.length) (s : WString) : marker.drop k <+: other ++ s ↔ marker.length ≤ k + 3 := by
  rw [← h k hlt hk, List.isPrefixOf_iff_prefix]
  constructor
  · intro hp
    apply List.prefix_of_prefix_length_le hp (List.prefix_append other s)
    rw [List.length_drop]
    omega
  · exact fun hp => hp.trans (List.prefix_append other s)

theorem marked_plain : ∀ c ∉ ([37, 95] : List WChar), marked c = [c] := by
  intro c hc
  rw [List.mem_cons, List.mem_singleton, not_or] at hc
  rw [marked, if_neg hc.1, if_neg hc.2]

theorem percentage_prefix_iff {k : Nat} (hk : 0 < k) (v : WString) :
    escapedPercentage.drop k <+: v.flatMap marked ↔ begins [37, 95] (escapedPercentage.drop k) v = true := by
  refine prefix_iff_begins marked_plain (fun c hc k hk hlt s => ?_) v k hk
  rw [List.mem_cons, List.mem_singleton] at hc
  rcases hc with rfl | rfl
  · apply overlap_iff escapedPercentage rfl _ hk hlt
    rw [escapedPercentage_eq]
    decide
  · apply overlap_iff escapedUnderscore (length_escapedUnderscore.trans length_escapedPercentage.symm) _ hk hlt
    rw [escapedPercentage_eq, escapedUnderscore_eq]
    decide

theorem underscore_prefix_iff {k : Nat} (hk : 0 < k) (v : WString) :
    escapedUnderscore.drop k <+: v.flatMap underscored ↔ begins [95] (escapedUnderscore.drop k) v = true := by
  refine prefix_iff_begins (fun c hc => ?_) (fun c hc k hk hlt s => ?_) v k hk
  · rw [underscored, if_neg (by rwa [List.mem_singleton] at hc)]
  · rw [List.mem_singleton] at hc
    subst hc
    apply overlap_iff escapedUnderscore rfl _ hk hlt
    rw [escapedUnderscore_eq]
    decide

/-- A marker begins within the other one only at its last three characters. -/
theorem percentage_within_iff {i : Nat} (hi : i < 26) (s : WString) :
    escapedPercentage <+: escapedUnderscore.drop i ++ s ↔ 23 ≤ i ∧ escapedPercentage.drop (26 - i) <+: s := by
  have hfront : ∀ i < 26, (escapedUnderscore.drop i = escapedPercentage.take (26 - i) ↔ 23 ≤ i) := by
    rw [escapedUnderscore_eq, escapedPercentage_eq]
    decide
  have hdrop : (escapedUnderscore.drop i).length = 26 - i := by
    rw [List.length_drop, length_escapedUnderscore]
  constructor
  · intro h
    have hshared : escapedUnderscore.drop i <+: escapedPercentage := by
      apply List.prefix_of_prefix_length_le (List.prefix_append _ s) h
      rw [hdrop, length_escapedPercentage]
      omega
    have htake := List.prefix_iff_eq_take.1 hshared
    rw [hdrop] at htake
    refine ⟨(hfront i hi).1 htake, ?_⟩
    rw [htake] at h
    nth_rewrite 1 [← List.take_append_drop (26 - i) escapedPercentage] at h
    exact (List.prefix_append_right_inj _).1 h
  · intro h
    rw [(hfront i hi).2 h.1]
    nth_rewrite 1 [← List.take_append_drop (26 - i) escapedPercentage]
    exact (List.prefix_append_right_inj _).2 h.2

theorem percentage_cons_iff {c : WChar} (hpercent : c ≠ 37) (hunderscore : c ≠ 95) (v : WString) :
    escapedPercentage <+: c :: v.flatMap marked ↔ begins [37, 95] escapedPercentage (c :: v) = true :=
  prefix_cons_iff_begins (percentage_prefix_iff Nat.one_pos) (by simp [hpercent, hunderscore]) v

theorem underscore_cons_iff {c : WChar} (hunderscore : c ≠ 95) (v : WString) :
    escapedUnderscore <+: c :: v.flatMap underscored ↔ begins [95] escapedUnderscore (c :: v) = true :=
  prefix_cons_iff_begins (underscore_prefix_iff Nat.one_pos) (by simp [hunderscore]) v

/-- Behind a `_` the marker begins where what is typed completes it. -/
theorem percentage_behind_iff (v : WString) :
    (∀ i < 26, ¬escapedPercentage <+: escapedUnderscore.drop i ++ v.flatMap marked) ↔
      ∀ k ∈ [1, 2, 3], begins [37, 95] (escapedPercentage.drop k) v = false := by
  constructor
  · intro h k hk
    have hrange : 1 ≤ k ∧ k ≤ 3 := by
      simp only [List.mem_cons, List.not_mem_nil, or_false] at hk
      omega
    have hnot := h (26 - k) (by omega)
    rw [percentage_within_iff (by omega), percentage_prefix_iff (by omega), show 26 - (26 - k) = k by omega] at hnot
    exact Bool.eq_false_iff.2 fun hbegins => hnot ⟨by omega, hbegins⟩
  · intro h i hi hp
    rw [percentage_within_iff hi, percentage_prefix_iff (by omega)] at hp
    have hk : 26 - i ∈ [1, 2, 3] := by
      simp only [List.mem_cons, List.not_mem_nil, or_false]
      omega
    exact absurd hp.2 (by rw [h _ hk]; exact Bool.false_ne_true)

/-- The first step of taking the marks out, where no marker is typed. -/
theorem replace_marked {v : WString} (h : Unmarked v) :
    Replacement.replace escapedPercentage (wide "%") (v.flatMap marked) = v.flatMap underscored := by
  induction v with
  | nil => rfl
  | cons c v ih =>
    obtain ⟨hhere, hrest⟩ := h
    rw [List.flatMap_cons, List.flatMap_cons, ← ih hrest]
    by_cases hpercent : c = 37
    · subst hpercent
      exact Replacement.replace_append_old escapedPercentage_ne_nil
    by_cases hunderscore : c = 95
    · subst hunderscore
      rw [if_neg hpercent, if_pos rfl, ← percentage_behind_iff] at hhere
      exact Replacement.replace_append_of_not fun i hi => hhere i (length_escapedUnderscore ▸ hi)
    rw [if_neg hpercent, if_neg hunderscore, ← Bool.not_eq_true, ← percentage_cons_iff hpercent hunderscore] at hhere
    rw [marked, if_neg hpercent, if_neg hunderscore, underscored, if_neg hunderscore]
    exact Replacement.replace_cons_of_not hhere.1

/-- The second step. -/
theorem replace_underscored {v : WString} (h : Unmarked v) :
    Replacement.replace escapedUnderscore (wide "_") (v.flatMap underscored) = v := by
  induction v with
  | nil => rfl
  | cons c v ih =>
    obtain ⟨hhere, hrest⟩ := h
    have hkept := ih hrest
    rw [List.flatMap_cons]
    by_cases hunderscore : c = 95
    · subst hunderscore
      exact (Replacement.replace_append_old escapedUnderscore_ne_nil).trans (congrArg (95 :: ·) hkept)
    rw [underscored, if_neg hunderscore, List.cons_append, List.nil_append, Replacement.replace_cons_of_not, hkept]
    rw [underscore_cons_iff hunderscore]
    by_cases hpercent : c = 37
    · subst hpercent
      rw [escapedUnderscore_eq]
      exact Bool.false_ne_true
    rw [if_neg hpercent, if_neg hunderscore] at hhere
    exact Bool.eq_false_iff.1 hhere.2

/-- A run in which the marker begins comes out shorter. -/
theorem not_run_prefix {s : WString} :
    ∀ run, (∃ j < run, escapedPercentage <+: List.replicate (run - j) 164 ++ s) →
      ¬List.replicate run 164 <+: Replacement.replace escapedPercentage (wide "%") (List.replicate run 164 ++ s) := by
  intro run
  induction run with
  | zero =>
    intro h _
    obtain ⟨j, hj, -⟩ := h
    exact Nat.not_lt_zero j hj
  | succ run ih =>
    intro h hprefix
    by_cases hhere : escapedPercentage <+: List.replicate (run + 1) 164 ++ s
    · obtain ⟨rest, -, hreplaced⟩ := Replacement.replace_of_prefix (wide "%") escapedPercentage_ne_nil hhere
      rw [hreplaced] at hprefix
      exact absurd (List.cons_prefix_cons.1 hprefix).1 (by decide)
    · rw [List.replicate_succ, List.cons_append] at hhere hprefix
      rw [Replacement.replace_cons_of_not hhere] at hprefix
      refine ih ?_ (List.cons_prefix_cons.1 hprefix).2
      obtain ⟨j, hj, hj'⟩ := h
      cases j with
      | zero =>
        rw [Nat.sub_zero, List.replicate_succ] at hj'
        exact absurd hj' hhere
      | succ j => exact ⟨j, Nat.lt_of_succ_lt_succ hj, by rwa [Nat.add_sub_add_right] at hj'⟩

/-- What comes out begins with another character when a marker is completed
    behind a `_`. -/
theorem unmark_underscore {s : WString} (h : ∃ i < 26, escapedPercentage <+: escapedUnderscore.drop i ++ s) (t : WString) :
    unmark (escapedUnderscore ++ s) ≠ 95 :: t := by
  obtain ⟨i, hi, hbegins⟩ := h
  have hwithin := (percentage_within_iff hi s).1 hbegins
  have htail : ∀ i < 26, 23 ≤ i → escapedUnderscore.drop i = List.replicate (26 - i) 164 := by
    rw [escapedUnderscore_eq]
    decide
  have hfront : escapedUnderscore = escapedUnderscore.take 23 ++ List.replicate 3 164 := by
    rw [escapedUnderscore_eq]
    rfl
  have hpassed : Replacement.replace escapedPercentage (wide "%") (escapedUnderscore ++ s) =
      escapedUnderscore.take 23 ++ Replacement.replace escapedPercentage (wide "%") (List.replicate 3 164 ++ s) := by
    nth_rewrite 1 [hfront]
    rw [List.append_assoc]
    apply Replacement.replace_append_of_not
    intro j hj hp
    have hj23 : j < 23 := by
      rw [List.length_take] at hj
      omega
    rw [← List.append_assoc, ← List.drop_append_of_le_length hj.le, ← hfront] at hp
    have hlate := ((percentage_within_iff (by omega) s).1 hp).1
    omega
  have hrun := not_run_prefix (s := s) 3 ⟨i - 23, by omega, by
    rw [htail i hi hwithin.1] at hbegins
    rwa [show 3 - (i - 23) = 26 - i by omega]⟩
  have hhead : escapedUnderscore.take 23 = 164 :: (escapedUnderscore.take 23).tail := by
    rw [escapedUnderscore_eq]
    rfl
  rw [unmark, hpassed, hhead, List.cons_append, Replacement.replace_cons_of_not]
  · exact fun heq => absurd (List.cons.inj heq).1 (by decide)
  · rw [← List.cons_append, ← hhead]
    nth_rewrite 1 [hfront]
    rwa [List.prefix_append_right_inj]

/-- A percent sign is passed. -/
theorem replace_escapedUnderscore_percent (s : WString) :
    Replacement.replace escapedUnderscore (wide "_") (37 :: s) = 37 :: Replacement.replace escapedUnderscore (wide "_") s := by
  apply Replacement.replace_cons_of_not
  rw [escapedUnderscore_eq]
  exact fun h => absurd (List.cons_prefix_cons.1 h).1 (by decide)

theorem unmarked_of_unmark {v : WString} (h : unmark (v.flatMap marked) = v) : Unmarked v := by
  induction v with
  | nil => trivial
  | cons c v ih =>
    rw [List.flatMap_cons] at h
    by_cases hpercent : c = 37
    · subst hpercent
      have hpassed : unmark (escapedPercentage ++ v.flatMap marked) = 37 :: unmark (v.flatMap marked) := by
        rw [unmark, Replacement.replace_append_old escapedPercentage_ne_nil]
        exact replace_escapedUnderscore_percent _
      exact ⟨trivial, ih (List.cons.inj (hpassed.symm.trans h)).2⟩
    by_cases hunderscore : c = 95
    · subst hunderscore
      have hnone : ∀ i < 26, ¬escapedPercentage <+: escapedUnderscore.drop i ++ v.flatMap marked := by
        intro i hi hp
        exact unmark_underscore ⟨i, hi, hp⟩ v h
      have hpassed : unmark (escapedUnderscore ++ v.flatMap marked) = 95 :: unmark (v.flatMap marked) := by
        rw [unmark, Replacement.replace_append_of_not fun i hi => hnone i (length_escapedUnderscore ▸ hi),
          Replacement.replace_append_old escapedUnderscore_ne_nil]
        rfl
      refine ⟨?_, ih (List.cons.inj (hpassed.symm.trans h)).2⟩
      rw [if_neg hpercent, if_pos rfl]
      exact (percentage_behind_iff v).1 hnone
    rw [marked, if_neg hpercent, if_neg hunderscore, List.cons_append, List.nil_append, unmark] at h
    have hfirst : ¬escapedPercentage <+: c :: v.flatMap marked := by
      intro hp
      obtain ⟨rest, -, hreplaced⟩ := Replacement.replace_of_prefix (wide "%") escapedPercentage_ne_nil hp
      rw [hreplaced] at h
      exact hpercent (List.cons.inj ((replace_escapedUnderscore_percent _).symm.trans h)).1.symm
    rw [Replacement.replace_cons_of_not hfirst] at h
    have hsecond : ¬escapedUnderscore <+: c :: Replacement.replace escapedPercentage (wide "%") (v.flatMap marked) := by
      intro hp
      obtain ⟨rest, -, hreplaced⟩ := Replacement.replace_of_prefix (wide "_") escapedUnderscore_ne_nil hp
      rw [hreplaced] at h
      exact hunderscore (List.cons.inj h).1.symm
    rw [Replacement.replace_cons_of_not hsecond] at h
    have hrest := ih (List.cons.inj h).2
    rw [replace_marked hrest] at hsecond
    refine ⟨?_, hrest⟩
    rw [if_neg hpercent, if_neg hunderscore, ← Bool.not_eq_true, ← Bool.not_eq_true,
      ← percentage_cons_iff hpercent hunderscore, ← underscore_cons_iff hunderscore]
    exact ⟨hfirst, hsecond⟩

/-! ## Both ways -/

/-- The stored pattern accepts what the wildcard string does, under every
    comparison of characters, and reads back as it was typed. -/
def MeansWhatWasTyped (w : WString) : Prop :=
  (∀ (same : WChar → WChar → Prop) (v : WString),
      Glob.Accepts same (likeTokens (convertWildcardToLike w)) v ↔ Glob.Accepts same (wildcardTokens w) v) ∧
    convertLikeToWildcard (convertWildcardToLike w) = w

/-- It does exactly when no typed wildcard follows a slash and no marker is
    typed. -/
theorem means_what_was_typed_iff (w : WString) :
    MeansWhatWasTyped w ↔ ¬wide "/*" <:+: w ∧ ¬wide "/?" <:+: w ∧ Unmarked w := by
  have hpattern : ∀ (same : WChar → WChar → Prop) (v : WString),
      Glob.Accepts same (likeTokens (convertWildcardToLike w)) v ↔ Glob.Accepts same (wildcardTokens w) v := by
    intro same v
    rw [likeTokens_convertWildcardToLike]
  rw [MeansWhatWasTyped, convertLikeToWildcard_convert]
  constructor
  · intro h
    have hcount : (misread w).count 47 = w.count 47 := by
      rw [← count_unmark, h.2]
    obtain ⟨hrun, hone⟩ := misread_of_count hcount
    refine ⟨hrun, hone, unmarked_of_unmark ?_⟩
    have hback := h.2
    rwa [misread_eq_self hrun hone] at hback
  · intro h
    refine ⟨hpattern, ?_⟩
    rw [misread_eq_self h.1 h.2.1, unmark, replace_marked h.2.2, replace_underscored h.2.2]

/-- A network written with a slash comes back as another one. -/
theorem slash_wildcard_misread :
    convertLikeToWildcard (convertWildcardToLike (wide "10.0.0.0/*")) = wide "10.0.0.0%" ∧
      ¬MeansWhatWasTyped (wide "10.0.0.0/*") := by
  have hread : misread (wide "10.0.0.0/*") = wide "10.0.0.0%" := by decide +kernel
  have hunmarked : Unmarked (wide "10.0.0.0%") := by decide +kernel
  have hback : convertLikeToWildcard (convertWildcardToLike (wide "10.0.0.0/*")) = wide "10.0.0.0%" := by
    rw [convertLikeToWildcard_convert, hread, unmark, replace_marked hunmarked, replace_underscored hunmarked]
  refine ⟨hback, fun h => ?_⟩
  have hsame := congrArg (List.count 47) h.2
  rw [hback] at hsame
  exact absurd hsame (by decide +kernel)

end HMailServer.Sql
