import HMailServer.Lib.Glob
import HMailServer.Sieve.Evaluator

/- `:matches` (`SieveEvaluator::WildcardMatchWithCaptures_`). The matcher descends
   into the pattern and tries the longest run first at each `*`. What is left of the
   pattern and of the value from an index on is a suffix of it. -/
namespace HMailServer.SieveEvaluator
open Glob

/-! ## The code -/

/-- The loop at a `*`: down from the longest run. -/
def longestFirst {α : Type} (attempt : Nat → Option α) : Nat → Option α
  | 0 => attempt 0
  | take + 1 =>
    match attempt (take + 1) with
    | some result => some result
    | none => longestFirst attempt take

/-- `matchFrom`, with the spans of the wildcards. -/
def matchFrom : WString → Nat → WString → Option (List (Nat × Nat))
  | [], _, v => if v = [] then some [] else none
  | pc :: p, vi, v =>
    if pc = 92 ∧ p ≠ [] then
      match p, v with
      | e :: p, d :: v => if d = e then matchFrom p (vi + 1) v else none
      | _, _ => none
    else if pc = 63 then
      match v with
      | [] => none
      | _ :: v => (matchFrom p (vi + 1) v).map ((vi, vi + 1) :: ·)
    else if pc = 42 then
      longestFirst (fun take => (matchFrom p (vi + take) (v.drop take)).map ((vi, vi + take) :: ·)) v.length
    else
      match v with
      | [] => none
      | d :: v => if d = pc then matchFrom p (vi + 1) v else none

/-- `WildcardMatchWithCaptures_`: the captures, the whole value in front. -/
def wildcardMatchWithCaptures (loc : Locale) (pattern value : WString) (caseSensitive : Bool) : Option (List WString) :=
  let p := if caseSensitive then pattern else WString.makeLower loc pattern
  let v := if caseSensitive then value else WString.makeLower loc value
  (matchFrom p 0 v).map fun spans => value :: spans.map fun span => value.mid span.1 (span.2 - span.1)

/-! ## The pattern -/

/-- RFC 5228, section 2.7.1. A backslash with nothing behind it stands for itself. -/
def tokens : WString → List (Token WChar)
  | [] => []
  | pc :: p =>
    if pc = 92 ∧ p ≠ [] then
      match p with
      | e :: p => .char e :: tokens p
      | [] => []
    else if pc = 63 then .one :: tokens p
    else if pc = 42 then .star :: tokens p
    else .char pc :: tokens p

/-- The comparators take characters for one another that they fold alike. -/
def fold (loc : Locale) (caseSensitive : Bool) : WChar → WChar := if caseSensitive then id else loc.toLower

/-- What the comparator sees of a text. -/
def compared (caseSensitive : Bool) (s : WString) : WString := if caseSensitive then s else WString.cstr s

theorem tokens_escape {c : WChar} {e : WChar} {p : WString} (h : c = 92 ∧ e :: p ≠ []) :
    tokens (c :: e :: p) = .char e :: tokens p := by
  rw [tokens.eq_def]
  exact if_pos h

theorem tokens_one (p : WString) : tokens (63 :: p) = .one :: tokens p := by
  rw [tokens.eq_def]
  dsimp only
  rw [if_neg fun h => absurd h.1 (by decide), if_pos rfl]

theorem tokens_star (p : WString) : tokens (42 :: p) = .star :: tokens p := by
  rw [tokens.eq_def]
  dsimp only
  rw [if_neg fun h => absurd h.1 (by decide), if_neg (by decide), if_pos rfl]

theorem tokens_char {c : WChar} {p : WString} (hescape : ¬(c = 92 ∧ p ≠ [])) (hone : c ≠ 63) (hstar : c ≠ 42) :
    tokens (c :: p) = .char c :: tokens p := by
  rw [tokens.eq_def]
  dsimp only
  rw [if_neg hescape, if_neg hone, if_neg hstar]

/-- The lower case of a locale leaves alone what means something in a pattern, and
    a NUL. -/
def KeepsPatterns (loc : Locale) : Prop := ∀ k ∈ ([0, 42, 63, 92] : List WChar), ∀ c, loc.toLower c = k ↔ c = k

/-! ## The matcher -/

theorem longestFirst_spec {α : Type} (attempt : Nat → Option α) (most : Nat) :
    (longestFirst attempt most = none ∧ ∀ n ≤ most, attempt n = none) ∨
    ∃ n ≤ most, ∃ result, longestFirst attempt most = some result ∧ attempt n = some result ∧
      ∀ m ≤ most, m > n → attempt m = none := by
  induction most with
  | zero =>
    rw [longestFirst]
    cases h : attempt 0 with
    | none => exact .inl ⟨rfl, fun n hn => Nat.le_zero.1 hn ▸ h⟩
    | some result => exact .inr ⟨0, Nat.le_refl _, result, rfl, h, fun m hm hgt => absurd hm (Nat.not_le.2 hgt)⟩
  | succ most ih =>
    rw [longestFirst]
    cases h : attempt (most + 1) with
    | some result => exact .inr ⟨most + 1, Nat.le_refl _, result, rfl, h, fun m hm hgt => absurd hm (Nat.not_le.2 hgt)⟩
    | none =>
      rcases ih with ⟨hnone, hall⟩ | ⟨n, hn, result, hsome, hattempt, hmore⟩
      · refine .inl ⟨hnone, fun n hn => ?_⟩
        rcases Nat.le_succ_iff.1 hn with hle | rfl
        · exact hall n hle
        · exact h
      · refine .inr ⟨n, Nat.le_succ_of_le hn, result, hsome, hattempt, fun m hm hgt => ?_⟩
        rcases Nat.le_succ_iff.1 hm with hle | rfl
        · exact hmore m hle hgt
        · exact h

/-- What the matcher is to find at a place of the pattern. -/
def Found (pattern : List (Token WChar)) (v : WString) (vi : Nat) (result : Option (List (Nat × Nat))) : Prop :=
  (result = none ∧ ¬ Accepts (· = ·) pattern v) ∨
    ∃ parts, result = some (spans pattern vi parts) ∧ Chosen (· = ·) (· > ·) pattern v parts

theorem Found.char {pattern : List (Token WChar)} {c : WChar} {attempt : WString → Option (List (Nat × Nat))} {vi : Nat}
    (h : ∀ v, Found pattern v (vi + 1) (attempt v)) (v : WString) :
    Found (.char c :: pattern) v vi (match v with | [] => none | d :: v => if d = c then attempt v else none) := by
  cases v with
  | nil => exact .inl ⟨rfl, fun ⟨_, hp⟩ => by cases hp⟩
  | cons d v =>
    dsimp only
    by_cases hd : d = c
    · rw [if_pos hd]
      rcases h v with ⟨hnone, hno⟩ | ⟨parts, hsome, hparts⟩
      · refine .inl ⟨hnone, fun ⟨_, hp⟩ => ?_⟩
        cases hp with
        | char _ rest => exact hno ⟨_, rest⟩
      · exact .inr ⟨parts, hsome, .char hd.symm hparts⟩
    · rw [if_neg hd]
      refine .inl ⟨rfl, fun ⟨_, hp⟩ => ?_⟩
      cases hp with
      | char heq _ => exact hd heq.symm

theorem Found.one {pattern : List (Token WChar)} {attempt : WString → Option (List (Nat × Nat))} {vi : Nat}
    (h : ∀ v, Found pattern v (vi + 1) (attempt v)) (v : WString) :
    Found (.one :: pattern) v vi (match v with | [] => none | _ :: v => (attempt v).map ((vi, vi + 1) :: ·)) := by
  cases v with
  | nil => exact .inl ⟨rfl, fun ⟨_, hp⟩ => by cases hp⟩
  | cons d v =>
    dsimp only
    rcases h v with ⟨hnone, hno⟩ | ⟨parts, hsome, hparts⟩
    · refine .inl ⟨by rw [hnone, Option.map_none], fun ⟨_, hp⟩ => ?_⟩
      cases hp with
      | one _ rest => exact hno ⟨_, rest⟩
    · exact .inr ⟨[d] :: parts, by rw [hsome]; rfl, .one d hparts⟩

theorem Found.star {pattern : List (Token WChar)} {attempt : Nat → WString → Option (List (Nat × Nat))} {vi : Nat}
    (h : ∀ take v, Found pattern v (vi + take) (attempt take v)) (v : WString) :
    Found (.star :: pattern) v vi
      (longestFirst (fun take => (attempt take (v.drop take)).map ((vi, vi + take) :: ·)) v.length) := by
  have hnone : ∀ take, (attempt take (v.drop take)).map ((vi, vi + take) :: ·) = none →
      ¬ Accepts (· = ·) pattern (v.drop take) := by
    intro take hmap
    rcases h take (v.drop take) with ⟨_, hno⟩ | ⟨parts, hsome, _⟩
    · exact hno
    · rw [hsome] at hmap
      exact absurd hmap (by simp)
  rcases longestFirst_spec (fun take => (attempt take (v.drop take)).map ((vi, vi + take) :: ·)) v.length with
    ⟨hfirst, hall⟩ | ⟨take, htake, result, hfirst, hattempt, hmore⟩
  · refine .inl ⟨hfirst, fun ⟨_, hp⟩ => ?_⟩
    cases hp with
    | @star n _ _ _ hn rest => exact hnone n (hall n hn) ⟨_, rest⟩
  · rcases h take (v.drop take) with ⟨hn, _⟩ | ⟨parts, hsome, hparts⟩
    · rw [hn] at hattempt
      exact absurd hattempt (by simp)
    · rw [hsome, Option.map_some] at hattempt
      refine .inr ⟨v.take take :: parts, ?_, .star htake (fun m hm hgt => hnone m (hmore m hm hgt)) hparts⟩
      rw [hfirst, ← hattempt, spans, List.length_take_of_le htake]

/-- The matcher finds the parts with the longest runs, or there are none. -/
theorem matchFrom_spec (p : WString) (vi : Nat) (v : WString) : Found (tokens p) v vi (matchFrom p vi v) := by
  induction p using tokens.induct generalizing vi v with
  | case1 =>
    cases v with
    | nil => exact .inr ⟨[], rfl, .nil⟩
    | cons d v => exact .inl ⟨rfl, fun ⟨_, h⟩ => by cases h⟩
  | case2 pc e p hescape ih =>
    have hstep : matchFrom (pc :: e :: p) vi v =
        match v with | [] => none | d :: v => if d = e then matchFrom p (vi + 1) v else none := by
      rw [matchFrom.eq_def]
      dsimp only
      rw [if_pos hescape]
      cases v <;> rfl
    rw [tokens_escape hescape, hstep]
    exact .char (fun v => ih (vi + 1) v) v
  | case3 pc hescape => exact absurd rfl hescape.2
  | case4 p hescape ih =>
    rw [tokens_one, matchFrom.eq_def]
    dsimp only
    rw [if_neg hescape, if_pos rfl]
    exact .one (fun v => ih (vi + 1) v) v
  | case5 p hescape hone ih =>
    rw [tokens_star, matchFrom.eq_def]
    dsimp only
    rw [if_neg hescape, if_neg hone, if_pos rfl]
    exact .star (fun take v => ih (vi + take) v) v
  | case6 pc p hescape hone hstar ih =>
    rw [tokens_char hescape hone hstar, matchFrom.eq_def]
    dsimp only
    rw [if_neg hescape, if_neg hone, if_neg hstar]
    exact .char (fun v => ih (vi + 1) v) v

/-! ## What is compared -/

section
variable {loc : Locale} (hloc : KeepsPatterns loc)
include hloc

theorem tokens_map (p : WString) : tokens (p.map loc.toLower) = (tokens p).map (Token.map loc.toLower) := by
  have hbackslash : ∀ c, loc.toLower c = 92 ↔ c = 92 := hloc 92 (by decide)
  have hquestion : ∀ c, loc.toLower c = 63 ↔ c = 63 := hloc 63 (by decide)
  have hasterisk : ∀ c, loc.toLower c = 42 ↔ c = 42 := hloc 42 (by decide)
  induction p using tokens.induct with
  | case1 => rfl
  | case2 pc e p hescape ih =>
    have hmapped : loc.toLower pc = 92 ∧ loc.toLower e :: p.map loc.toLower ≠ [] :=
      ⟨(hbackslash pc).2 hescape.1, List.cons_ne_nil _ _⟩
    rw [List.map_cons, List.map_cons, tokens_escape hmapped, tokens_escape hescape, ih]
    rfl
  | case3 pc hescape => exact absurd rfl hescape.2
  | case4 p _ ih =>
    rw [List.map_cons, (hquestion 63).2 rfl, tokens_one, tokens_one, ih]
    rfl
  | case5 p _ _ ih =>
    rw [List.map_cons, (hasterisk 42).2 rfl, tokens_star, tokens_star, ih]
    rfl
  | case6 pc p hescape hone hstar ih =>
    have hmapped : ¬(loc.toLower pc = 92 ∧ p.map loc.toLower ≠ []) := by
      rw [hbackslash, ne_eq, List.map_eq_nil_iff]
      exact hescape
    rw [List.map_cons, tokens_char hmapped (mt (hquestion pc).1 hone) (mt (hasterisk pc).1 hstar),
      tokens_char hescape hone hstar, ih]
    rfl

theorem makeLower_eq (s : WString) : WString.makeLower loc s = (WString.cstr s).map loc.toLower := by
  have hnul : ∀ c, loc.toLower c = 0 ↔ c = 0 := hloc 0 (by decide)
  have hsame : ((· != 0) ∘ loc.toLower) = (· != (0 : WChar)) := by
    funext c
    rw [Function.comp_apply, Bool.eq_iff_iff, bne_iff_ne, bne_iff_ne, ne_eq, hnul]
  rw [WString.makeLower, WString.cstr, WString.cstr, List.takeWhile_map, hsame]

variable (caseSensitive : Bool)

/-- What the matcher looks at is what is compared, folded. -/
theorem folded (s : WString) :
    (if caseSensitive then s else WString.makeLower loc s) = (compared caseSensitive s).map (fold loc caseSensitive) := by
  cases caseSensitive with
  | true => exact (List.map_id s).symm
  | false => exact makeLower_eq hloc s

theorem tokens_fold (p : WString) :
    tokens (p.map (fold loc caseSensitive)) = (tokens p).map (Token.map (fold loc caseSensitive)) := by
  cases caseSensitive with
  | true =>
    have hid : Token.map (id : WChar → WChar) = id := by
      funext token
      cases token <;> rfl
    rw [fold, if_pos rfl, List.map_id, hid, List.map_id]
  | false => exact tokens_map hloc p

/-- The captures of a match, or that there is none. -/
theorem wildcardMatch_spec (pattern value : WString) :
    (wildcardMatchWithCaptures loc pattern value caseSensitive = none ∧
      ¬ Accepts (SameUnder (fold loc caseSensitive)) (tokens (compared caseSensitive pattern)) (compared caseSensitive value)) ∨
    ∃ parts, wildcardMatchWithCaptures loc pattern value caseSensitive = some (value :: parts) ∧
      Chosen (SameUnder (fold loc caseSensitive)) (· > ·) (tokens (compared caseSensitive pattern))
        (compared caseSensitive value) parts := by
  have hspec := matchFrom_spec ((compared caseSensitive pattern).map (fold loc caseSensitive)) 0
    ((compared caseSensitive value).map (fold loc caseSensitive))
  rw [tokens_fold hloc] at hspec
  rw [wildcardMatchWithCaptures, folded hloc, folded hloc]
  rcases hspec with ⟨hnone, hno⟩ | ⟨folds, hsome, hchosen⟩
  · exact .inl ⟨by rw [hnone, Option.map_none], fun haccepts => hno (accepts_map.2 haccepts)⟩
  · obtain ⟨parts, rfl, hparts⟩ := exists_chosen_of_map hchosen
    refine .inr ⟨parts, ?_, hparts⟩
    obtain ⟨behind, hbehind⟩ : ∃ behind, compared caseSensitive value ++ behind = value := by
      cases caseSensitive with
      | true => exact ⟨[], List.append_nil _⟩
      | false => exact ⟨_, List.takeWhile_append_dropWhile⟩
    have hspans := hparts.toParts.spans_map [] behind
    rw [List.nil_append, hbehind] at hspans
    rw [hsome, Option.map_some, spans_map]
    exact congrArg (fun captures => some (value :: captures)) hspans

end

/-! ## Quoted wildcards -/

/-- The value of `:quotewildcard`. -/
def quoteWildcards (s : WString) : WString := s.flatMap fun c => if c = 42 ∨ c = 63 ∨ c = 92 then [92, c] else [c]

theorem modifyValue_quotewildcard (env : SieveEnvironment) (s : WString) :
    modifyValue env [wide "quotewildcard"] s = quoteWildcards s := by
  have hlower : wide "lower" ∉ [wide "quotewildcard"] := by decide
  have hupper : wide "upper" ∉ [wide "quotewildcard"] := by decide
  have hlowerfirst : wide "lowerfirst" ∉ [wide "quotewildcard"] := by decide
  have hupperfirst : wide "upperfirst" ∉ [wide "quotewildcard"] := by decide
  have hlength : wide "length" ∉ [wide "quotewildcard"] := by decide
  have hquote : wide "quotewildcard" ∈ [wide "quotewildcard"] := List.mem_singleton_self _
  have hfirst : ∀ c : WChar, ∀ rest, (if wide "lowerfirst" ∈ [wide "quotewildcard"] then env.loc.toLower c :: rest
      else if wide "upperfirst" ∈ [wide "quotewildcard"] then env.loc.toUpper c :: rest else c :: rest) = c :: rest :=
    fun c rest => by rw [if_neg hlowerfirst, if_neg hupperfirst]
  rw [modifyValue, if_neg hlower, if_neg hupper, if_pos hquote, if_neg hlength]
  cases s with
  | nil => rfl
  | cons c s => exact congrArg quoteWildcards (hfirst c s)

theorem quoteWildcards_cons (c : WChar) (s : WString) :
    quoteWildcards (c :: s) = (if c = 42 ∨ c = 63 ∨ c = 92 then [92, c] else [c]) ++ quoteWildcards s := rfl

/-- A quoted text has no wildcards. -/
theorem tokens_quoteWildcards (s : WString) : tokens (quoteWildcards s) = s.map .char := by
  induction s with
  | nil => rfl
  | cons c s ih =>
    rw [quoteWildcards_cons]
    split
    · rw [List.cons_append, List.singleton_append, tokens_escape ⟨rfl, List.cons_ne_nil _ _⟩, ih, List.map_cons]
    · rename_i hplain
      rw [not_or, not_or] at hplain
      rw [List.singleton_append, tokens_char (fun h => hplain.2.2 h.1) hplain.2.1 hplain.1, ih, List.map_cons]

theorem compared_quoteWildcards (caseSensitive : Bool) (s : WString) :
    compared caseSensitive (quoteWildcards s) = quoteWildcards (compared caseSensitive s) := by
  cases caseSensitive with
  | true => rfl
  | false =>
    show WString.cstr (quoteWildcards s) = quoteWildcards (WString.cstr s)
    induction s with
    | nil => rfl
    | cons c s ih =>
      by_cases hnul : c = 0
      · subst hnul
        rfl
      · have hcstr : ∀ t, WString.cstr (c :: t) = c :: WString.cstr t := fun t =>
          List.takeWhile_cons_of_pos (bne_iff_ne.2 hnul)
        rw [hcstr, quoteWildcards_cons, quoteWildcards_cons]
        split
        · have hback : ∀ t, WString.cstr (92 :: t) = 92 :: WString.cstr t := fun t => List.takeWhile_cons_of_pos rfl
          rw [List.cons_append, List.singleton_append, hback, hcstr, ih]
          rfl
        · rw [List.singleton_append, hcstr, ih]
          rfl

/-- `:matches` accepts what the pattern stands for, with the longest runs from left
    to right as its captures; a quoted text accepts itself. -/
theorem wildcard_longest {loc : Locale} (hloc : KeepsPatterns loc) (caseSensitive : Bool) (pattern value : WString) :
    ((wildcardMatchWithCaptures loc pattern value caseSensitive).isSome = true ↔
      Accepts (SameUnder (fold loc caseSensitive)) (tokens (compared caseSensitive pattern)) (compared caseSensitive value)) ∧
    (∀ captures, wildcardMatchWithCaptures loc pattern value caseSensitive = some captures ↔
      ∃ parts, captures = value :: parts ∧ Chosen (SameUnder (fold loc caseSensitive)) (· > ·)
        (tokens (compared caseSensitive pattern)) (compared caseSensitive value) parts) ∧
    (∀ captures, wildcardMatchWithCaptures loc pattern value caseSensitive = some captures →
      (rebuild (tokens (compared caseSensitive pattern)) captures.tail).map (fold loc caseSensitive) =
        (compared caseSensitive value).map (fold loc caseSensitive)) ∧
    ∀ (env : SieveEnvironment) (s : WString),
      (wildcardMatchWithCaptures loc (modifyValue env [wide "quotewildcard"] s) value caseSensitive).isSome = true ↔
        (compared caseSensitive s).map (fold loc caseSensitive) = (compared caseSensitive value).map (fold loc caseSensitive) := by
  have hsome : ∀ pattern, (wildcardMatchWithCaptures loc pattern value caseSensitive).isSome = true ↔
      Accepts (SameUnder (fold loc caseSensitive)) (tokens (compared caseSensitive pattern)) (compared caseSensitive value) := by
    intro pattern
    rcases wildcardMatch_spec hloc caseSensitive pattern value with ⟨hnone, hno⟩ | ⟨parts, hsome, hchosen⟩
    · exact iff_of_false (by rw [hnone]; exact Bool.false_ne_true) hno
    · exact iff_of_true (by rw [hsome]; rfl) ⟨parts, hchosen.toParts⟩
  have hcaptures : ∀ captures, wildcardMatchWithCaptures loc pattern value caseSensitive = some captures ↔
      ∃ parts, captures = value :: parts ∧ Chosen (SameUnder (fold loc caseSensitive)) (· > ·)
        (tokens (compared caseSensitive pattern)) (compared caseSensitive value) parts := by
    intro captures
    rcases wildcardMatch_spec hloc caseSensitive pattern value with ⟨hnone, hno⟩ | ⟨parts, hsome, hchosen⟩
    · rw [hnone]
      exact iff_of_false (by simp) fun ⟨parts, _, hchosen⟩ => hno ⟨parts, hchosen.toParts⟩
    · rw [hsome, Option.some.injEq]
      constructor
      · rintro rfl
        exact ⟨parts, rfl, hchosen⟩
      · rintro ⟨parts', rfl, hchosen'⟩
        rw [hchosen.unique (fun m n hne => (Nat.lt_or_gt_of_ne hne).symm) hchosen']
  refine ⟨hsome pattern, hcaptures, fun captures h => ?_, fun env s => ?_⟩
  · obtain ⟨parts, rfl, hchosen⟩ := (hcaptures captures).1 h
    exact forall₂_sameUnder.1 (hchosen.toParts.rebuilds fun _ => rfl)
  · rw [modifyValue_quotewildcard, hsome, compared_quoteWildcards, tokens_quoteWildcards, accepts_chars, forall₂_sameUnder]

theorem classicLower_eq_iff {k : Nat} (hk : k < 65 ∨ 90 < k ∧ k < 97) (c : Nat) : WString.classicLower c = k ↔ c = k := by
  show (if (65 : Nat) ≤ c ∧ (90 : Nat) ≥ c then c + 32 else c) = k ↔ c = k
  split <;> omega

theorem classicLocale_keepsPatterns : KeepsPatterns classicLocale := by
  have hbounds : ∀ k ∈ ([0, 42, 63, 92] : List Nat), k < 65 ∨ 90 < k ∧ k < 97 := by decide
  exact fun k hk c => classicLower_eq_iff (hbounds k hk) c

/-- Two runs with a dash between them, of the three in the value. -/
theorem last_dash_captured :
    Chosen (SameUnder id) (· > ·) (tokens (wide "*-*")) (wide "a-b-c-d") [wide "a-b-c", wide "d"] := by
  obtain ⟨parts, hcaptures, hchosen⟩ := ((wildcard_longest classicLocale_keepsPatterns true (wide "*-*") (wide "a-b-c-d")).2.1
    [wide "a-b-c-d", wide "a-b-c", wide "d"]).1 (by decide +kernel)
  rw [(List.cons.inj hcaptures).2]
  exact hchosen

/-- The captures are not the shortest, and a NUL ends what is compared without
    case. -/
theorem shortest_not_captured :
    (∃ captures, wildcardMatchWithCaptures classicLocale (wide "*-*") (wide "a-b-c") true = some captures ∧
      ¬ Chosen (SameUnder id) (· < ·) (tokens (wide "*-*")) (wide "a-b-c") captures.tail) ∧
    (wildcardMatchWithCaptures classicLocale (wide "a") [97, 0, 98] false).isSome = true ∧
      ¬ Accepts (SameUnder classicLocale.toLower) (tokens (wide "a")) [97, 0, 98] := by
  have hshortest : Chosen (SameUnder id) (· < ·) (tokens (wide "*-*")) (wide "a-b-c") [wide "a", wide "b-c"] := by
    refine .star (n := 1) (by decide) (fun m _ hlt haccepts => ?_) (.char rfl (.star (n := 3) (by decide) ?_ .nil))
    · obtain rfl : m = 0 := Nat.lt_one_iff.1 hlt
      obtain ⟨_, h⟩ := haccepts
      cases h with
      | char h _ =>
        have hdash : (45 : Nat) = 97 := h
        exact absurd hdash (by decide)
    · intro m _ hlt haccepts
      obtain ⟨_, h⟩ := haccepts
      interval_cases m <;> cases h
  refine ⟨⟨[wide "a-b-c", wide "a-b", wide "c"], by decide +kernel, fun h => ?_⟩, by decide +kernel, ?_⟩
  · have heq := h.unique (fun m n hne => Nat.lt_or_gt_of_ne hne) hshortest
    exact absurd heq (by decide)
  · rintro ⟨_, h⟩
    cases h with
    | char _ rest => cases rest

end HMailServer.SieveEvaluator
