import HMailServer.AntiSpam.OrganizationalDomain
import HMailServer.Lib.BinarySearch
import HMailServer.Lib.Separated

/- The lookup in the Public Suffix List
   (`Common/AntiSpam/DMARC/PublicSuffixList.cpp`) against the algorithm of
   publicsuffix.org. The generated tables are a parameter, with what the generator
   guarantees of them. -/
namespace HMailServer
open DmarcTreeWalk

/-! ## The code -/

/-- `wcscmp(left, right) < 0`. -/
def wcscmpLess (left right : WString) : Bool := WString.compare (WString.cstr left) (WString.cstr right) == .lt

/-- A generated table of C strings. -/
structure RuleTable where
  rules : List WString
  noNul : ∀ r ∈ rules, 0 ∉ r
  sorted : rules.Pairwise fun x y => wcscmpLess x y = true

/-- The labels of a rule. -/
def ruleLabels (rule : WString) : List WString := rule.splitOn 46

structure PublicSuffixListData where
  normalRules : RuleTable
  -- without their leading "*."
  wildcardRules : RuleTable
  exceptionRules : RuleTable
  maxRuleLabels : Nat
  exception_labels : ∀ r ∈ exceptionRules.rules, 2 ≤ (ruleLabels r).length
  normal_max : ∀ r ∈ normalRules.rules, (ruleLabels r).length ≤ maxRuleLabels
  wildcard_max : ∀ r ∈ wildcardRules.rules, (ruleLabels r).length + 1 ≤ maxRuleLabels
  exception_max : ∀ r ∈ exceptionRules.rules, (ruleLabels r).length ≤ maxRuleLabels

namespace PublicSuffixList

def containsRule (table : RuleTable) (candidate : WString) : Bool :=
  BinarySearch.contains wcscmpLess table.rules candidate

structure Longest where
  longestExceptionMatch : Nat := 0
  longestListMatch : Nat := 0

/-- The loop behind the candidate of `count` labels, with the labels in front of
    it, the nearest first. -/
def probe (data : PublicSuffixListData) : Nat → WString → List WString → Longest → Longest
  | _, _, [], longest => longest
  | previousCount, previousCandidate, label :: labels, longest =>
    let count := previousCount + 1
    let candidate := if count = 1 then label else label ++ [46] ++ previousCandidate
    let exceptionMatch := if containsRule data.exceptionRules candidate then count else longest.longestExceptionMatch
    let listMatch := if containsRule data.normalRules candidate then count else longest.longestListMatch
    let listMatch := if 2 ≤ count ∧ containsRule data.wildcardRules previousCandidate then count else listMatch
    probe data count candidate labels ⟨exceptionMatch, listMatch⟩

def getPublicSuffixLabelCount (data : PublicSuffixListData) (labels : List WString) : Nat :=
  if data.normalRules.rules = [] then 0
  else
    let longest := probe data 0 [] (labels.reverse.take data.maxRuleLabels) {}
    if 1 < longest.longestExceptionMatch then longest.longestExceptionMatch - 1
    else if 0 < longest.longestListMatch then longest.longestListMatch
    else 1

/-! ## The algorithm of the list -/

/-- An exception rule matches that many labels. -/
def ExceptionMatches (data : PublicSuffixListData) (labels : List WString) (n : Nat) : Prop :=
  ∃ r ∈ data.exceptionRules.rules, ruleLabels r <:+ labels ∧ n = (ruleLabels r).length

/-- A normal or wildcard rule matches that many labels; a wildcard stands for one
    label. -/
inductive ListMatches (data : PublicSuffixListData) (labels : List WString) : Nat → Prop where
  | normal {r : WString} (mem : r ∈ data.normalRules.rules) (suffix : ruleLabels r <:+ labels) :
    ListMatches data labels (ruleLabels r).length
  | wildcard {r l : WString} (mem : r ∈ data.wildcardRules.rules) (suffix : l :: ruleLabels r <:+ labels) :
    ListMatches data labels ((ruleLabels r).length + 1)

/-- The label count of the prevailing rule. -/
inductive Prevails (data : PublicSuffixListData) (labels : List WString) : Nat → Prop where
  | exceptionRule {n : Nat} (found : ExceptionMatches data labels n)
    (longest : ∀ m, ExceptionMatches data labels m → m ≤ n) : Prevails data labels (n - 1)
  | listed {n : Nat} (noException : ∀ m, ¬ ExceptionMatches data labels m) (found : ListMatches data labels n)
    (longest : ∀ m, ListMatches data labels m → m ≤ n) : Prevails data labels n
  | unlisted (noException : ∀ m, ¬ ExceptionMatches data labels m) (none : ∀ m, ¬ ListMatches data labels m) :
    Prevails data labels 1

/-! ## The order of the tables -/

theorem compare_lt_iff (s t : WString) : WString.compare s t = .lt ↔ s < t := by
  induction s generalizing t with
  | nil => cases t <;> simp [WString.compare]
  | cons a s ih =>
    cases t with
    | nil => simp [WString.compare]
    | cons b t =>
      rw [WString.compare, List.cons_lt_cons_iff]
      rcases Nat.lt_trichotomy a b with hab | rfl | hba
      · simp [hab]
      · simp [ih]
      · simp [hba, Nat.lt_asymm hba, Nat.ne_of_gt hba]

theorem wcscmpLess_iff (s t : WString) : wcscmpLess s t = true ↔ WString.cstr s < WString.cstr t := by
  rw [wcscmpLess, beq_iff_eq, compare_lt_iff]

theorem wcscmpLess_trans (s t u : WString) (hst : wcscmpLess s t = true) (htu : wcscmpLess t u = true) :
    wcscmpLess s u = true := by
  rw [wcscmpLess_iff] at *
  exact lt_trans hst htu

theorem wcscmpLess_neither {s t : WString} (hst : wcscmpLess s t = false) (hts : wcscmpLess t s = false) :
    WString.cstr s = WString.cstr t := by
  rw [Bool.eq_false_iff, ne_eq, wcscmpLess_iff, not_lt] at hst hts
  exact le_antisymm hts hst

theorem cstr_of_noNul {s : WString} (h : 0 ∉ s) : WString.cstr s = s := by
  rw [WString.cstr, List.takeWhile_eq_self_iff]
  rintro c hc
  rw [bne_iff_ne]
  rintro rfl
  exact h hc

/-- The search finds what is in the table. -/
theorem containsRule_iff (table : RuleTable) {candidate : WString} (h : 0 ∉ candidate) :
    containsRule table candidate = true ↔ candidate ∈ table.rules := by
  rw [containsRule, BinarySearch.contains_iff wcscmpLess_trans table.sorted]
  constructor
  · rintro ⟨r, hr, hless, hgreater⟩
    have heq := wcscmpLess_neither hless hgreater
    rw [cstr_of_noNul (table.noNul r hr), cstr_of_noNul h] at heq
    rw [← heq]
    exact hr
  · intro hmem
    have hirrefl : wcscmpLess candidate candidate = false := by
      rw [Bool.eq_false_iff, ne_eq, wcscmpLess_iff]
      exact lt_irrefl _
    exact ⟨candidate, hmem, hirrefl, hirrefl⟩

/-! ## The loop -/

/-- The longest of the counts up to `m` with the property, or 0. -/
structure IsLongest (P : Nat → Prop) (m r : Nat) : Prop where
  found : r ≠ 0 → P r
  le : r ≤ m
  above : ∀ k, r < k → k ≤ m → ¬ P k

theorem IsLongest.zero (P : Nat → Prop) : IsLongest P 0 0 :=
  ⟨fun h => absurd rfl h, Nat.le_refl 0, fun k hk hk' => by omega⟩

theorem IsLongest.hit {P : Nat → Prop} {m : Nat} (h : P (m + 1)) : IsLongest P (m + 1) (m + 1) :=
  ⟨fun _ => h, Nat.le_refl _, fun k hk hk' => by omega⟩

theorem IsLongest.miss {P : Nat → Prop} {m r : Nat} (hr : IsLongest P m r) (h : ¬ P (m + 1)) : IsLongest P (m + 1) r := by
  refine ⟨hr.found, Nat.le_succ_of_le hr.le, fun k hk hk' => ?_⟩
  by_cases hlast : k = m + 1
  · rw [hlast]
    exact h
  · exact hr.above k hk (by omega)

/-- The last `k` labels. -/
def lastLabels (labels : List WString) (k : Nat) : List WString := (labels.reverse.take k).reverse

theorem lastLabels_suffix (labels : List WString) (k : Nat) : lastLabels labels k <:+ labels := by
  rw [lastLabels, ← List.reverse_prefix, List.reverse_reverse]
  exact List.take_prefix _ _

theorem length_lastLabels {labels : List WString} {k : Nat} (hk : k ≤ labels.length) : (lastLabels labels k).length = k := by
  rw [lastLabels, List.length_reverse, List.length_take, List.length_reverse, Nat.min_eq_left hk]

theorem lastLabels_of_suffix {labels ls : List WString} (h : ls <:+ labels) : lastLabels labels ls.length = ls := by
  have hpre : ls.reverse <+: labels.reverse := List.reverse_prefix.2 h
  have htake := List.prefix_iff_eq_take.1 hpre
  rw [List.length_reverse] at htake
  rw [lastLabels, ← htake, List.reverse_reverse]

theorem lastLabels_succ {labels : List WString} {k : Nat} {label : WString} (h : labels.reverse[k]? = some label) :
    lastLabels labels (k + 1) = label :: lastLabels labels k := by
  rw [lastLabels, List.take_add_one, h, Option.toList_some, List.reverse_append, List.reverse_singleton,
    List.singleton_append, lastLabels]

section
variable {labels : List WString}

/-- The candidate of `k` labels is in a table exactly if a rule of `k` labels
    matches. -/
theorem dotted_mem_iff (hdot : ∀ l ∈ labels, 46 ∉ l) (rules : List WString) {k : Nat} (hk : k ≠ 0)
    (hk' : k ≤ labels.length) :
    dotted (lastLabels labels k) ∈ rules ↔ ∃ r ∈ rules, ruleLabels r <:+ labels ∧ k = (ruleLabels r).length := by
  constructor
  · intro h
    have hlabels : ruleLabels (dotted (lastLabels labels k)) = lastLabels labels k := by
      apply List.splitOn_intercalate
      · exact fun l hl => hdot l ((lastLabels_suffix labels k).subset hl)
      · rw [← List.length_pos_iff, length_lastLabels hk']
        omega
    refine ⟨_, h, ?_, ?_⟩
    · rw [hlabels]
      exact lastLabels_suffix labels k
    · rw [hlabels, length_lastLabels hk']
  · rintro ⟨r, hr, hsuffix, rfl⟩
    rw [lastLabels_of_suffix hsuffix, dotted, ruleLabels, List.intercalate_splitOn]
    exact hr

def ExceptionAt (data : PublicSuffixListData) (labels : List WString) (k : Nat) : Prop :=
  dotted (lastLabels labels k) ∈ data.exceptionRules.rules

def ListedAt (data : PublicSuffixListData) (labels : List WString) (k : Nat) : Prop :=
  dotted (lastLabels labels k) ∈ data.normalRules.rules ∨
    2 ≤ k ∧ dotted (lastLabels labels (k - 1)) ∈ data.wildcardRules.rules

theorem dotted_noNul (hnul : ∀ l ∈ labels, 0 ∉ l) : 0 ∉ dotted labels := by
  cases labels with
  | nil => exact List.not_mem_nil
  | cons l ls =>
    rw [dotted_cons, List.mem_append, List.mem_flatMap, not_or]
    refine ⟨hnul l List.mem_cons_self, ?_⟩
    rintro ⟨m, hm, h⟩
    rcases List.mem_cons.1 h with h | h
    · cases h
    · exact hnul m (List.mem_cons_of_mem _ hm) h

variable (hnul : ∀ l ∈ labels, 0 ∉ l)
include hnul

theorem containsRule_lastLabels (table : RuleTable) (k : Nat) :
    containsRule table (dotted (lastLabels labels k)) = true ↔ dotted (lastLabels labels k) ∈ table.rules :=
  containsRule_iff table (dotted_noNul fun l hl => hnul l ((lastLabels_suffix labels k).subset hl))

/-- The loop finds the longest matches. -/
theorem probe_spec (data : PublicSuffixListData) (rest : List WString) (count : Nat) (hrest : ∃ more, labels.reverse.drop count = rest ++ more)
    (longest : Longest) (hexception : IsLongest (ExceptionAt data labels) count longest.longestExceptionMatch)
    (hlisted : IsLongest (ListedAt data labels) count longest.longestListMatch) :
    IsLongest (ExceptionAt data labels) (count + rest.length)
      (probe data count (dotted (lastLabels labels count)) rest longest).longestExceptionMatch ∧
    IsLongest (ListedAt data labels) (count + rest.length)
      (probe data count (dotted (lastLabels labels count)) rest longest).longestListMatch := by
  induction rest generalizing count longest with
  | nil => exact ⟨hexception, hlisted⟩
  | cons label rest ih =>
    obtain ⟨more, hmore⟩ := hrest
    have hget : labels.reverse[count]? = some label := by
      rw [← List.head?_drop, hmore]
      rfl
    have hcandidate : (if count + 1 = 1 then label else label ++ [46] ++ dotted (lastLabels labels count)) =
        dotted (lastLabels labels (count + 1)) := by
      rw [lastLabels_succ hget]
      by_cases hzero : count = 0
      · rw [hzero, if_pos rfl]
        simp [lastLabels, dotted]
      · rw [if_neg (by omega)]
        have hlt : count < labels.length := by
          obtain ⟨hlt, _⟩ := List.getElem?_eq_some_iff.1 hget
          rwa [List.length_reverse] at hlt
        obtain ⟨m, ms, hms⟩ := List.exists_cons_of_length_pos
          (show 0 < (lastLabels labels count).length by rw [length_lastLabels (by omega)]; omega)
        rw [hms, dotted_cons, dotted_cons, List.flatMap_cons]
        simp
    have hnext : ∃ more', labels.reverse.drop (count + 1) = rest ++ more' := by
      refine ⟨more, ?_⟩
      rw [← List.tail_drop, hmore]
      rfl
    have hlength : count + (label :: rest).length = count + 1 + rest.length := by
      rw [List.length_cons]
      omega
    rw [probe, hcandidate, hlength]
    apply ih _ hnext
    · dsimp only
      split
      · rename_i hfound
        exact .hit ((containsRule_lastLabels hnul _ _).1 hfound)
      · rename_i hnot
        exact hexception.miss fun h => hnot ((containsRule_lastLabels hnul _ _).2 h)
    · dsimp only
      by_cases hwildcard : 2 ≤ count + 1 ∧ containsRule data.wildcardRules (dotted (lastLabels labels count))
      · rw [if_pos hwildcard]
        exact .hit (Or.inr ⟨hwildcard.1, (containsRule_lastLabels hnul _ _).1 hwildcard.2⟩)
      · rw [if_neg hwildcard]
        split
        · rename_i hfound
          exact .hit (Or.inl ((containsRule_lastLabels hnul _ _).1 hfound))
        · rename_i hnormal
          apply hlisted.miss
          rintro (h | h)
          · exact hnormal ((containsRule_lastLabels hnul _ _).2 h)
          · exact hwildcard ⟨h.1, (containsRule_lastLabels hnul _ _).2 h.2⟩

end

/-! ## The prevailing rule -/

/-- Matches have at least one label, and no more than the labels and the tables
    have. -/
theorem ExceptionMatches.bounds {data : PublicSuffixListData} {labels : List WString} {n : Nat}
    (h : ExceptionMatches data labels n) :
    2 ≤ n ∧ n ≤ labels.length ∧ n ≤ data.maxRuleLabels := by
  obtain ⟨r, hr, hsuffix, rfl⟩ := h
  exact ⟨data.exception_labels r hr, hsuffix.length_le, data.exception_max r hr⟩

theorem ListMatches.bounds {data : PublicSuffixListData} {labels : List WString} {n : Nat}
    (h : ListMatches data labels n) :
    n ≠ 0 ∧ n ≤ labels.length ∧ n ≤ data.maxRuleLabels := by
  cases h with
  | @normal r hr hsuffix =>
    have hpos : 0 < (ruleLabels r).length := List.length_pos_iff.2 (List.splitOn_ne_nil 46 r)
    exact ⟨by omega, hsuffix.length_le, data.normal_max r hr⟩
  | @wildcard r l hr hsuffix => exact ⟨by omega, hsuffix.length_le, data.wildcard_max r hr⟩

section
variable {data : PublicSuffixListData} {labels : List WString} (hdot : ∀ l ∈ labels, 46 ∉ l)
include hdot

theorem exceptionAt_iff {k : Nat} (hk : k ≠ 0) (hk' : k ≤ labels.length) :
    ExceptionAt data labels k ↔ ExceptionMatches data labels k := dotted_mem_iff hdot _ hk hk'

theorem listedAt_iff {k : Nat} (hk : k ≠ 0) (hk' : k ≤ labels.length) : ListedAt data labels k ↔ ListMatches data labels k := by
  constructor
  · rintro (h | ⟨htwo, h⟩)
    · obtain ⟨r, hr, hsuffix, rfl⟩ := (dotted_mem_iff hdot _ hk hk').1 h
      exact .normal hr hsuffix
    · obtain ⟨r, hr, hsuffix, hlength⟩ := (dotted_mem_iff hdot _ (by omega) (by omega)).1 h
      obtain ⟨j, rfl⟩ : ∃ j, k = j + 1 := ⟨k - 1, by omega⟩
      rw [Nat.add_sub_cancel] at hlength
      have hlt : j < labels.reverse.length := by
        rw [List.length_reverse]
        omega
      obtain ⟨label, hget⟩ : ∃ label, labels.reverse[j]? = some label := ⟨_, List.getElem?_eq_getElem hlt⟩
      have hwhole := lastLabels_suffix labels (j + 1)
      rw [lastLabels_succ hget, hlength, lastLabels_of_suffix hsuffix] at hwhole
      rw [hlength]
      exact .wildcard hr hwhole
  · intro h
    cases h with
    | normal hr hsuffix => exact .inl ((dotted_mem_iff hdot _ hk hk').2 ⟨_, hr, hsuffix, rfl⟩)
    | @wildcard r l hr hsuffix =>
      have hpos : 0 < (ruleLabels r).length := List.length_pos_iff.2 (List.splitOn_ne_nil 46 r)
      refine .inr ⟨by omega, ?_⟩
      rw [Nat.add_sub_cancel]
      exact (dotted_mem_iff hdot _ (by omega) (by omega)).2 ⟨r, hr, (List.suffix_cons _ _).trans hsuffix, rfl⟩

/-- The lookup answers the count of the prevailing rule. -/
theorem prevails_getPublicSuffixLabelCount (hrules : data.normalRules.rules ≠ []) (hnul : ∀ l ∈ labels, 0 ∉ l) :
    Prevails data labels (getPublicSuffixLabelCount data labels) := by
  have hstart : dotted (lastLabels labels 0) = [] := rfl
  have htake : ∃ more, labels.reverse.drop 0 = labels.reverse.take data.maxRuleLabels ++ more :=
    ⟨_, (List.take_append_drop data.maxRuleLabels labels.reverse).symm⟩
  obtain ⟨hexception, hlisted⟩ := probe_spec hnul data (labels.reverse.take data.maxRuleLabels) 0 htake {}
    (.zero _) (.zero _)
  rw [hstart, List.length_take, List.length_reverse, Nat.zero_add] at hexception hlisted
  rw [getPublicSuffixLabelCount, if_neg hrules]
  dsimp only
  generalize probe data 0 [] (labels.reverse.take data.maxRuleLabels) {} = longest at hexception hlisted
  have hno : longest.longestExceptionMatch = 0 → ∀ m, ¬ ExceptionMatches data labels m := by
    intro hzero m hm
    obtain ⟨htwo, hlabels, hmax⟩ := ExceptionMatches.bounds hm
    exact hexception.above m (by omega) (by omega) ((exceptionAt_iff hdot (by omega) hlabels).2 hm)
  split
  · rename_i hmatch
    have hle := hexception.le
    refine .exceptionRule ((exceptionAt_iff hdot (by omega) (by omega)).1 (hexception.found (by omega))) fun m hm => ?_
    obtain ⟨htwo, hlabels, hmax⟩ := ExceptionMatches.bounds hm
    by_contra hlt
    exact hexception.above m (by omega) (by omega) ((exceptionAt_iff hdot (by omega) hlabels).2 hm)
  · rename_i hfew
    have hzero : longest.longestExceptionMatch = 0 := by
      by_contra hne
      have hle := hexception.le
      obtain ⟨htwo, _⟩ := ExceptionMatches.bounds ((exceptionAt_iff hdot hne (by omega)).1 (hexception.found hne))
      exact hfew htwo
    have hle := hlisted.le
    have hlongest : ∀ m, ListMatches data labels m → m ≤ longest.longestListMatch := by
      intro m hm
      obtain ⟨hpos, hlabels, hmax⟩ := hm.bounds
      by_contra hlt
      exact hlisted.above m (by omega) (by omega) ((listedAt_iff hdot hpos hlabels).2 hm)
    split
    · rename_i hpos
      exact .listed (hno hzero) ((listedAt_iff hdot (by omega) (by omega)).1 (hlisted.found (by omega))) hlongest
    · rename_i hnone
      refine .unlisted (hno hzero) fun m hm => ?_
      have hpos := hm.bounds.1
      have hlast := hlongest m hm
      omega

end

theorem Prevails.ne_zero {data : PublicSuffixListData} {labels : List WString} {n : Nat} (h : Prevails data labels n) :
    n ≠ 0 := by
  cases h with
  | exceptionRule found _ =>
    have htwo := found.bounds.1
    omega
  | listed _ found _ => exact found.bounds.1
  | unlisted => exact Nat.one_ne_zero

theorem Prevails.unique {data : PublicSuffixListData} {labels : List WString} {n m : Nat} (hn : Prevails data labels n)
    (hm : Prevails data labels m) : n = m := by
  cases hn with
  | @exceptionRule n found longest =>
    cases hm with
    | @exceptionRule m found' longest' =>
      have hle := longest m found'
      have hle' := longest' n found
      omega
    | listed noException => exact absurd found (noException _)
    | unlisted noException => exact absurd found (noException _)
  | listed noException found longest =>
    cases hm with
    | exceptionRule found' => exact absurd found' (noException _)
    | listed _ found' longest' => exact Nat.le_antisymm (longest' n found) (longest m found')
    | unlisted _ none => exact absurd found (none _)
  | unlisted noException none =>
    cases hm with
    | exceptionRule found' => exact absurd found' (noException _)
    | listed _ found' => exact absurd found' (none _)
    | unlisted => rfl

/-! ## The organizational domain -/

theorem mem_dotted {labels : List WString} {l : WString} (hl : l ∈ labels) {c : WChar} (hc : c ∈ l) : c ∈ dotted labels := by
  cases labels with
  | nil => cases hl
  | cons m ms =>
    rw [dotted_cons, List.mem_append, List.mem_flatMap]
    rcases List.mem_cons.1 hl with rfl | hl
    · exact .inl hc
    · exact .inr ⟨l, hl, List.mem_cons_of_mem _ hc⟩

/-- The labels of a name have neither dots nor NULs. -/
theorem splitString_normalize_chars (loc : Locale) (domain : WString) :
    ∀ l ∈ WString.splitString (normalize loc domain) 46, 46 ∉ l ∧ 0 ∉ l := by
  intro l hl
  constructor
  · have hpiece : l ∈ (normalize loc domain).splitOn 46 := by
      rw [WString.splitString] at hl
      split at hl
      · exact List.dropLast_subset _ hl
      · exact hl
    exact Separated.notMem_of_mem_splitOn hpiece
  · intro hnul
    have hname := mem_dotted hl hnul
    rw [dotted_splitString (normalize_last loc domain), DmarcTreeWalk.normalize] at hname
    have hlower := (List.rdropWhile_prefix _ _).subset hname
    rw [WString.makeLower, WString.cstr] at hlower
    have hne := List.mem_takeWhile_imp hlower
    cases hne

theorem drop_eq_lastLabels {labels : List WString} (k : Nat) : labels.drop (labels.length - k) = lastLabels labels k := by
  rw [lastLabels, List.reverse_take, List.reverse_reverse, List.length_reverse]

/-- A list with `jp`, `*.kobe.jp` and `!city.kobe.jp`. -/
def kobeRules : PublicSuffixListData where
  normalRules := ⟨[wide "jp"], by decide, by decide⟩
  wildcardRules := ⟨[wide "kobe.jp"], by decide, by decide⟩
  exceptionRules := ⟨[wide "city.kobe.jp"], by decide, by decide⟩
  maxRuleLabels := 3
  exception_labels := by decide
  normal_max := by decide
  wildcard_max := by decide
  exception_max := by decide

def listEnvironment (data : PublicSuffixListData) : DmarcEnvironment where
  loc := classicLocale
  getTXTRecords _ := none
  treeWalkEnabled := false
  publicSuffixLabelCount := getPublicSuffixLabelCount data

/-- The same list without its normal rule. -/
def noNormalRules : PublicSuffixListData :=
  { kobeRules with normalRules := ⟨[], by decide, by decide⟩, normal_max := by decide }

end PublicSuffixList
end HMailServer
