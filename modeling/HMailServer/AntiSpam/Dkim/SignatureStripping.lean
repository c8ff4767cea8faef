import HMailServer.AntiSpam.Dkim.TagList
import HMailServer.Lib.Scan

/- Both strippers against the tag parser. `GetDKIMWithoutSignature_` walks the
   semicolons as the parser does and always agrees with it.
   `StripSealSignatureValue_` walks from equal sign to semicolon and compares
   without case, so that a piece without an equal sign hides the signature
   behind it and a tag `B` loses its value. -/
namespace HMailServer.Dkim
open AnsiString

/-! ## Pieces -/

theorem stops_semicolon {s : AnsiString} (h : ∀ c, s.head? = some c → c = 59) : Scan.Stops (· != 59) s := by
  intro c hc
  simp [h c hc]

theorem follows_semicolon (ps : List AnsiString) : ∀ c, (ps.flatMap ((59 : UInt8) :: ·)).head? = some c → c = 59 := by
  intro c hc
  cases ps with
  | nil => cases hc
  | cons p ps => exact (Option.some.inj hc).symm

theorem head_equals (s : AnsiString) : ∀ c, (s.dropWhile (· != 61)).head? = some c → c = 61 := by
  intro c hc
  have hnot := List.head?_dropWhile_not (· != (61 : UInt8)) s
  rw [hc] at hnot
  simpa using hnot

/-- A tag is its name, the equal sign and its value. -/
theorem tag_eq {tag : AnsiString} (h : 61 ∈ tag) : tag = tag.takeWhile (· != 61) ++ 61 :: tagValue tag := by
  have hsplit : tag.takeWhile (· != 61) ++ tag.dropWhile (· != 61) = tag := List.takeWhile_append_dropWhile
  have hdrop : tag.dropWhile (· != 61) = 61 :: tagValue tag := by
    cases hd : tag.dropWhile (· != 61) with
    | nil => exact absurd (List.dropWhile_eq_nil_iff.1 hd 61 h) (by decide)
    | cons c rest =>
      rw [head_equals tag c (by rw [hd]; rfl), tagValue, hd]
      rfl
  rw [hdrop] at hsplit
  exact hsplit.symm

theorem findIdx?_equals {tag : AnsiString} (h : 61 ∈ tag) (more : AnsiString) :
    (tag ++ more).findIdx? (· == 61) = some (tag.takeWhile (· != 61)).length := by
  have hname : ∀ c ∈ tag.takeWhile (· != 61), (c == 61) = false := by
    intro c hc
    simpa using List.mem_takeWhile_imp hc
  have hsplit : tag ++ more = tag.takeWhile (· != 61) ++ 61 :: (tagValue tag ++ more) := by
    calc tag ++ more = (tag.takeWhile (· != 61) ++ 61 :: tagValue tag) ++ more := by rw [← tag_eq h]
      _ = _ := by rw [List.append_assoc, List.cons_append]
  rw [hsplit]
  exact Scan.findIdx?_append hname (by decide)

theorem take_name (tag more : AnsiString) : (tag ++ more).take (tag.takeWhile (· != 61)).length = tag.takeWhile (· != 61) := by
  have hsplit : tag ++ more = tag.takeWhile (· != 61) ++ (tag.dropWhile (· != 61) ++ more) := by
    rw [← List.append_assoc, List.takeWhile_append_dropWhile]
  rw [hsplit, List.take_left]

theorem take_stem {tag : AnsiString} (h : 61 ∈ tag) (more : AnsiString) :
    (tag ++ more).take ((tag.takeWhile (· != 61)).length + 1) = tag.takeWhile (· != 61) ++ [61] := by
  have hsplit : tag ++ more = (tag.takeWhile (· != 61) ++ [61]) ++ (tagValue tag ++ more) := by
    calc tag ++ more = (tag.takeWhile (· != 61) ++ 61 :: tagValue tag) ++ more := by rw [← tag_eq h]
      _ = _ := by simp
  have hlen : (tag.takeWhile (· != 61)).length + 1 = (tag.takeWhile (· != 61) ++ [61]).length := by simp
  rw [hlen, hsplit, List.take_left]

theorem setSignature_of_isSignature {p : AnsiString} (h : isSignature p = true) (s : AnsiString) :
    setSignature s p = p.takeWhile (· != 61) ++ 61 :: s := if_pos h

theorem setSignature_of_not {p : AnsiString} (h : isSignature p = false) (s : AnsiString) : setSignature s p = p :=
  if_neg (by simp [h])

theorem mem_of_isSignature {p : AnsiString} (h : isSignature p = true) : 61 ∈ p := by
  rw [isSignature, Bool.and_eq_true, List.contains_iff_mem] at h
  exact h.1

/-! ## The parser finds the signature pieces -/

theorem parameter_isSignature (p : AnsiString) :
    ((DKIMParameters.parameter p).any fun a => a.1 == ansi "b") = isSignature p := by
  by_cases h : 61 ∈ p
  · have hfind := findIdx?_equals h []
    have hname := take_name p []
    rw [List.append_nil] at hfind hname
    simp only [DKIMParameters.parameter, hfind, hname, Option.any_some, isSignature]
    simp [h]
  · have hfind : p.findIdx? (· == 61) = none := Scan.findIdx?_none fun c hc => by
      simpa using fun heq : c = 61 => h (heq ▸ hc)
    simp [DKIMParameters.parameter, hfind, isSignature, h]

theorem takeWhile_name {tag : AnsiString} (h : 61 ∈ tag) (more : AnsiString) :
    (tag ++ more).takeWhile (· != 61) = tag.takeWhile (· != 61) := by
  have hname : ∀ c ∈ tag.takeWhile (· != 61), (c != 61) = true := by
    intro c hc
    exact List.mem_takeWhile_imp (p := (· != 61)) hc
  calc (tag ++ more).takeWhile (· != 61)
      = (tag.takeWhile (· != 61) ++ 61 :: (tagValue tag ++ more)).takeWhile (· != 61) := by
        rw [← List.cons_append, ← List.append_assoc, ← tag_eq h]
    _ = tag.takeWhile (· != 61) := Scan.takeWhile_append hname (Scan.stops_cons (by decide))

/-- What is cut off at the first NUL makes no signature and takes none away. -/
theorem isSignature_cstr (p : AnsiString) : isSignature (cstr p) = isSignature p := by
  have hsplit : cstr p ++ p.dropWhile (· != 0) = p := List.takeWhile_append_dropWhile
  by_cases h : 61 ∈ cstr p
  · have hp : 61 ∈ p := (List.takeWhile_prefix _).subset h
    have hname := takeWhile_name h (p.dropWhile (· != 0))
    rw [hsplit] at hname
    simp [isSignature, h, hp, hname]
  · have hleft : isSignature (cstr p) = false := by simp [isSignature, h]
    rw [hleft, eq_comm, isSignature, Bool.and_eq_false_iff, List.contains_eq_mem, decide_eq_false_iff_not]
    by_cases hp : 61 ∈ p
    · -- The NUL is in the name, which is then not `b`.
      right
      rw [beq_eq_false_iff_ne]
      intro hb
      have hnul : 0 ∈ p.takeWhile (· != 61) := by
        have hno : ∀ c ∈ cstr p, (c != 61) = true := by
          intro c hc
          rw [bne_iff_ne]
          rintro rfl
          exact h hc
        rw [← hsplit, List.takeWhile_append_of_pos hno, List.mem_append]
        right
        have hnot := List.head?_dropWhile_not (· != (0 : UInt8)) p
        cases hd : p.dropWhile (· != 0) with
        | nil =>
          rw [hd, List.append_nil] at hsplit
          rw [hsplit] at h
          exact absurd hp h
        | cons c rest =>
          rw [hd, List.head?_cons] at hnot
          have hc : c = 0 := by simpa using hnot
          rw [hc]
          simp
      have hmem := mem_trim hnul (by decide)
      rw [hb] at hmem
      revert hmem
      decide
    · exact .inl hp

theorem exists_splitOn (v : AnsiString) : ∃ p ps, v.splitOn 59 = p :: ps ∧ v = p ++ ps.flatMap (59 :: ·) ∧
    59 ∉ p ∧ ∀ q ∈ ps, 59 ∉ q := by
  obtain ⟨p, ps, hps⟩ := List.exists_cons_of_ne_nil (List.splitOn_ne_nil 59 v)
  have hno : ∀ q ∈ v.splitOn 59, 59 ∉ q := fun q hq => Separated.notMem_of_mem_splitOn hq
  have hv : [59].intercalate (v.splitOn 59) = v := List.intercalate_splitOn 59
  rw [hps] at hno hv
  rw [Separated.intercalate_cons] at hv
  exact ⟨p, ps, hps, hv.symm, hno p List.mem_cons_self, fun q hq => hno q (List.mem_cons_of_mem _ hq)⟩

/-- The parser's tags named `b` are the signature pieces. -/
theorem countP_load (v : AnsiString) :
    (DKIMParameters.load v).countP (fun a => a.1 == ansi "b") = (v.splitOn 59).countP isSignature := by
  have hcount : ∀ pieces : List AnsiString,
      (pieces.filterMap DKIMParameters.parameter).countP (fun a => a.1 == ansi "b") = pieces.countP isSignature := by
    intro pieces
    induction pieces with
    | nil => rfl
    | cons p pieces ih =>
      have hp := parameter_isSignature p
      rw [List.filterMap_cons, List.countP_cons, ← hp]
      cases hparam : DKIMParameters.parameter p with
      | none => simpa using ih
      | some a => simp [List.countP_cons, ih]
  have hempty : isSignature [] = false := rfl
  have hsplit : StringParser.splitPieces (ansi ";") 0 v = v.splitOn 59 := StringParser.splitPieces_singleton 59 v
  obtain ⟨p, ps, hps, hv, _⟩ := exists_splitOn v
  rw [DKIMParameters.load, hcount, StringParser.splitString, hsplit, hps]
  cases ps with
  | nil =>
    dsimp only
    have hvp : v = p := by simpa using hv
    rw [hvp]
    split
    · rename_i hnil
      rw [hnil]
      rfl
    · rfl
  | cons q ps =>
    dsimp only
    have hconverted : ((p :: q :: ps).map cstr).countP isSignature = (p :: q :: ps).countP isSignature := by
      rw [List.countP_map]
      apply List.countP_congr
      intro r _
      rw [Function.comp_apply, isSignature_cstr]
    split
    · rename_i hlast
      rw [← hconverted]
      obtain ⟨init, hinit⟩ := List.getLast?_eq_some_iff.1 hlast
      rw [hinit, List.dropLast_concat, List.countP_append, List.countP_singleton, hempty]
      rfl
    · exact hconverted

/-! ## GetDKIMWithoutSignature_ -/

theorem findSignature (p : AnsiString) :
    ((p.findIdx? (· == 61)).filter fun e => 0 < e && trim (p.take e) == ansi "b") =
      if isSignature p = true then some (p.takeWhile (· != 61)).length else none := by
  by_cases h : 61 ∈ p
  · have hfind := findIdx?_equals h []
    have hname := take_name p []
    rw [List.append_nil] at hfind hname
    have hsignature : isSignature p = (trim (p.takeWhile (· != 61)) == ansi "b") := by simp [isSignature, h]
    rw [hfind, Option.filter_some, hname, hsignature]
    cases hb : trim (p.takeWhile (· != 61)) == ansi "b" with
    | false => simp
    | true =>
      have hpos : 0 < (p.takeWhile (· != 61)).length := by
        rw [List.length_pos_iff]
        intro hnil
        rw [hnil] at hb
        exact absurd hb (by decide)
      simp only [hpos, decide_true, Bool.and_self]
  · have hfind : p.findIdx? (· == 61) = none := Scan.findIdx?_none fun c hc => by
      simpa using fun heq : c = 61 => h (heq ▸ hc)
    simp [hfind, isSignature, h]

theorem map_setSignature_of_none {pieces : List AnsiString} (h : pieces.countP isSignature = 0) (s : AnsiString) :
    pieces.map (setSignature s) = pieces := by
  rw [List.countP_eq_zero] at h
  conv_rhs => rw [← List.map_id pieces]
  apply List.map_congr_left
  intro p hp
  exact setSignature_of_not (by simpa using h p hp) s

theorem withoutSignatureFrom_eq {ps : List AnsiString} (hps : ∀ q ∈ ps, 59 ∉ q) {p : AnsiString} (hp : 59 ∉ p)
    {n : Nat} (hn : ps.length < n) (hone : (p :: ps).countP isSignature = 1) (before : AnsiString) :
    withoutSignatureFrom n before (p ++ ps.flatMap (59 :: ·)) =
      before ++ [59].intercalate ((p :: ps).map (setSignature [])) := by
  induction ps generalizing n p before with
  | nil =>
    obtain ⟨m, rfl⟩ := Nat.exists_eq_add_of_lt hn
    have hsignature : isSignature p = true := by
      by_contra hno
      rw [List.countP_singleton, if_neg hno] at hone
      cases hone
    have hne : p ≠ [] := by
      rintro rfl
      cases hsignature
    have htag : p.takeWhile (· != 59) = p := by
      rw [List.takeWhile_eq_self_iff]
      exact fun c hc => bne_iff_ne.2 fun heq => hp (heq ▸ hc)
    have hfollows : p.dropWhile (· != 59) = [] := by
      rw [List.dropWhile_eq_nil_iff]
      exact fun c hc => bne_iff_ne.2 fun heq => hp (heq ▸ hc)
    have hstem := take_stem (mem_of_isSignature hsignature) []
    rw [List.append_nil] at hstem
    rw [withoutSignatureFrom]
    simp only [List.flatMap_nil, List.append_nil, if_neg hne, htag, hfollows, findSignature, if_pos hsignature, hstem]
    simp [setSignature_of_isSignature hsignature]
  | cons q ps ih =>
    obtain ⟨m, rfl⟩ := Nat.exists_eq_add_of_lt hn
    have hne : p ++ (q :: ps).flatMap (59 :: ·) ≠ [] := by simp
    have hnot : ∀ c ∈ p, (c != 59) = true := fun c hc => bne_iff_ne.2 fun heq => hp (heq ▸ hc)
    have hstops := stops_semicolon (follows_semicolon (q :: ps))
    rw [withoutSignatureFrom, if_neg hne]
    simp only [Scan.takeWhile_append hnot hstops, Scan.dropWhile_append hnot hstops, findSignature]
    cases hsignature : isSignature p with
    | true =>
      have hrest : (q :: ps).countP isSignature = 0 := by
        rw [List.countP_cons, if_pos hsignature] at hone
        omega
      simp only [if_true, take_stem (mem_of_isSignature hsignature)]
      rw [List.map_cons, map_setSignature_of_none hrest, setSignature_of_isSignature hsignature,
        Separated.intercalate_cons, List.append_assoc]
    | false =>
      have hrest : (q :: ps).countP isSignature = 1 := by
        rw [List.countP_cons, hsignature, if_neg Bool.false_ne_true] at hone
        exact hone
      have hnext := ih (fun r hr => hps r (by simp [hr])) (hps q (by simp)) (n := (q :: ps).length + m)
        (by simp; omega) hrest (before ++ p ++ [59])
      simp only [Bool.false_eq_true, if_false, List.flatMap_cons, List.cons_append]
      rw [hnext]
      simp [setSignature_of_not hsignature, List.intercalate_cons_cons]

theorem length_le_flatMap (ps : List AnsiString) : ps.length ≤ (ps.flatMap ((59 : UInt8) :: ·)).length := by
  induction ps with
  | nil => exact Nat.le_refl 0
  | cons p ps ih =>
    rw [List.flatMap_cons, List.length_append, List.length_cons, List.length_cons]
    omega

/-- With exactly one tag `b` its text is deleted. -/
theorem getDKIMWithoutSignature_eq {v : AnsiString} (hone : (v.splitOn 59).countP isSignature = 1) :
    getDKIMWithoutSignature v = withSignature v [] := by
  obtain ⟨p, ps, hps, hv, hp, hno⟩ := exists_splitOn v
  rw [hps] at hone
  have hlen := length_le_flatMap ps
  have hn : ps.length < v.length + 1 := by
    rw [hv, List.length_append]
    omega
  have heq := withoutSignatureFrom_eq hno hp hn hone []
  rw [← hv] at heq
  rw [getDKIMWithoutSignature, heq, withSignature, hps, List.nil_append]

/-! ## StripSealSignatureValue_ -/

/-- The value of the tag goes if its name compares equal to `b`. -/
def stripTag (tag : AnsiString) : AnsiString :=
  if namedB tag then tag.takeWhile (· != 61) ++ [61] else tag

/-- The value of the tag goes if it is the signature. -/
def setTag (s tag : AnsiString) : AnsiString :=
  if endsInSignature tag then tag.takeWhile (· != 61) ++ 61 :: s else tag

/-- Pieces without an equal sign, each with its semicolon. -/
structure Open (before : AnsiString) : Prop where
  equals : 61 ∉ before
  ends : ∀ c, before.getLast? = some c → c = 59

theorem open_nil : Open [] := ⟨List.not_mem_nil, fun _ h => by cases h⟩

theorem Open.cons {before p : AnsiString} (hb : Open before) (hp : 61 ∉ p) : Open (before ++ p ++ [59]) where
  equals := by simp [hb.equals, hp]
  ends := fun c hc => by simpa using hc.symm

theorem Open.takeWhile {before : AnsiString} (hb : Open before) (p : AnsiString) :
    (before ++ p).takeWhile (· != 61) = before ++ p.takeWhile (· != 61) := by
  apply List.takeWhile_append_of_pos
  exact fun c hc => bne_iff_ne.2 fun heq => hb.equals (heq ▸ hc)

theorem Open.rtakeWhile {before : AnsiString} (hb : Open before) {p : AnsiString} (hp : 59 ∉ p) :
    (before ++ p).rtakeWhile (· != 59) = p := by
  rw [List.rtakeWhile, List.reverse_append, List.reverse_eq_iff]
  apply Scan.takeWhile_append
  · intro c hc
    rw [List.mem_reverse] at hc
    exact bne_iff_ne.2 fun heq => hp (heq ▸ hc)
  · intro c hc
    rw [List.head?_reverse] at hc
    simp [hb.ends c hc]

theorem Open.endsInSignature {before : AnsiString} (hb : Open before) {p : AnsiString} (hp : 59 ∉ p) :
    endsInSignature (before ++ p) = isSignature p := by
  have hname : 59 ∉ p.takeWhile (· != 61) := fun h => hp ((List.takeWhile_prefix _).subset h)
  simp [Dkim.endsInSignature, isSignature, hb.equals, hb.takeWhile, hb.rtakeWhile hname]

theorem Open.setTag {before : AnsiString} (hb : Open before) {p : AnsiString} (hp : 59 ∉ p) (s : AnsiString) :
    setTag s (before ++ p) = before ++ setSignature s p := by
  rw [Dkim.setTag, setSignature, hb.endsInSignature hp, hb.takeWhile]
  split
  · exact List.append_assoc ..
  · rfl

theorem mem_setSignature {p : AnsiString} (s : AnsiString) : 61 ∈ setSignature s p ↔ 61 ∈ p := by
  cases h : isSignature p with
  | false => rw [setSignature_of_not h]
  | true => simp [setSignature_of_isSignature h, mem_of_isSignature h]

/-- Setting the text of the signature does not change where the tags begin. -/
theorem joinedTags_set {ps : List AnsiString} (hps : ∀ q ∈ ps, 59 ∉ q) {before p : AnsiString} (hb : Open before)
    (hp : 59 ∉ p) (s : AnsiString) :
    joinedTags (before ++ setSignature s p) (ps.map (setSignature s)) =
      (joinedTags (before ++ p) ps).map (setTag s) := by
  induction ps generalizing before p with
  | nil => simp [joinedTags, hb.setTag hp]
  | cons q ps ih =>
    have hnext := fun r hr => hps r (List.mem_cons_of_mem _ hr)
    have hq := hps q List.mem_cons_self
    by_cases h : 61 ∈ p
    · have hrest := ih hnext open_nil hq
      rw [List.map_cons, joinedTags, if_pos (by simp [mem_setSignature, h]), joinedTags, if_pos (by simp [h]),
        List.map_cons, hb.setTag hp]
      exact congrArg _ hrest
    · have hset : setSignature s p = p := setSignature_of_not (by simp [isSignature, h]) s
      have hrest := ih hnext (hb.cons h) hq
      rw [hset, List.map_cons, joinedTags, if_neg (by simp [hb.equals, h]), joinedTags, if_neg (by simp [hb.equals, h])]
      simpa using hrest

theorem joinedTags_ne_nil (p : AnsiString) (ps : List AnsiString) : joinedTags p ps ≠ [] := by
  fun_induction joinedTags p ps with
  | case1 => exact List.cons_ne_nil _ _
  | case2 => exact List.cons_ne_nil _ _
  | case3 _ _ _ _ ih => exact ih

theorem intercalate_joinedTags (p : AnsiString) (ps : List AnsiString) :
    [59].intercalate (joinedTags p ps) = p ++ ps.flatMap (59 :: ·) := by
  fun_induction joinedTags p ps with
  | case1 => simp
  | case2 p next rest h ih =>
    rw [List.intercalate_cons_of_ne_nil (joinedTags_ne_nil _ _), ih]
    simp
  | case3 p next rest h ih =>
    rw [ih]
    simp

theorem drop_name {tag : AnsiString} (h : 61 ∈ tag) (more : AnsiString) :
    (tag ++ more).drop (tag.takeWhile (· != 61)).length = 61 :: tagValue tag ++ more := by
  have hsplit : tag ++ more = tag.takeWhile (· != 61) ++ (61 :: tagValue tag ++ more) := by
    calc tag ++ more = (tag.takeWhile (· != 61) ++ 61 :: tagValue tag) ++ more := by rw [← tag_eq h]
      _ = _ := by rw [List.append_assoc]
  rw [hsplit, List.drop_left]

theorem stripTag_eq {tag : AnsiString} (h : 61 ∈ tag) :
    stripTag tag = if equalsNoCase (trim (tag.takeWhile (· != 61))) (ansi "b") then tag.takeWhile (· != 61) ++ [61]
      else tag := by
  simp [stripTag, namedB, h]

theorem length_tag {tag : AnsiString} (h : 61 ∈ tag) :
    tag.length = (tag.takeWhile (· != 61)).length + ((tagValue tag).length + 1) := by
  have hlen := congrArg List.length (tag_eq h)
  rwa [List.length_append, List.length_cons] at hlen

theorem value_noSemicolon {tag : AnsiString} (hvalue : 59 ∉ tagValue tag) :
    ∀ c ∈ (61 :: tagValue tag : AnsiString), (c == 59) = false := by
  intro c hc
  rw [beq_eq_false_iff_ne]
  rintro rfl
  rcases List.mem_cons.1 hc with hc | hc
  · cases hc
  · exact hvalue hc

/-- A tag with a semicolon behind it. -/
theorem stripSealFrom_tag {tag : AnsiString} (h : 61 ∈ tag) (hvalue : 59 ∉ tagValue tag) (n : Nat) (rest : AnsiString) :
    stripSealFrom (n + 1) (tag ++ 59 :: rest) = stripTag tag ++ 59 :: stripSealFrom n rest := by
  have hno := value_noSemicolon hvalue
  have hfind : (61 :: tagValue tag ++ 59 :: rest).findIdx? (· == 59) = some (61 :: tagValue tag).length :=
    Scan.findIdx?_append hno (by decide)
  have hend : (tag.takeWhile (· != 61)).length + (61 :: tagValue tag : AnsiString).length + 1 = (tag ++ [59]).length := by
    rw [List.length_append, length_tag h, List.length_cons, List.length_singleton, Nat.add_assoc]
  have hsplit : tag ++ 59 :: rest = (tag ++ [59]) ++ rest := by simp
  rw [stripSealFrom, if_neg (by simp)]
  simp only [findIdx?_equals h, drop_name h, hfind, take_name, take_stem h, Option.map_some, Option.isSome_some, if_true,
    hend]
  rw [stripTag_eq h, hsplit, List.take_left, List.drop_left]
  split <;> simp

theorem stripSealFrom_nil (n : Nat) : stripSealFrom n [] = [] := by
  cases n <;> rfl

/-- The last tag. -/
theorem stripSealFrom_last {tag : AnsiString} (h : 61 ∈ tag) (hvalue : 59 ∉ tagValue tag) (n : Nat) :
    stripSealFrom (n + 1) tag = stripTag tag := by
  have hno := value_noSemicolon hvalue
  have hne : tag ≠ [] := List.ne_nil_of_mem h
  have hname := findIdx?_equals h []
  have htake := take_name tag []
  have hstem := take_stem h []
  have hdrop := drop_name h []
  rw [List.append_nil] at hname htake hstem
  rw [List.append_nil, List.append_nil] at hdrop
  rw [stripSealFrom, if_neg hne]
  simp only [hname, htake, hstem, hdrop, Scan.findIdx?_none hno, Option.map_none, Option.isSome_none, Bool.false_eq_true,
    if_false, List.append_nil, List.take_length, List.drop_length, stripSealFrom_nil]
  exact (stripTag_eq h).symm

theorem Open.tagValue {before : AnsiString} (hb : Open before) {p : AnsiString} (hp : 59 ∉ p) :
    59 ∉ tagValue (before ++ p) := by
  have hdrop : (before ++ p).dropWhile (· != 61) = p.dropWhile (· != 61) :=
    List.dropWhile_append_of_pos fun c hc => bne_iff_ne.2 fun heq => hb.equals (heq ▸ hc)
  rw [Dkim.tagValue, hdrop]
  exact fun hmem => hp ((List.dropWhile_suffix _).subset (List.mem_of_mem_tail hmem))

theorem stripTag_of_notMem {tag : AnsiString} (h : 61 ∉ tag) : stripTag tag = tag := by
  simp [stripTag, namedB, h]

theorem stripSealFrom_eq {ps : List AnsiString} (hps : ∀ q ∈ ps, 59 ∉ q) {before p : AnsiString} (hb : Open before)
    (hp : 59 ∉ p) {n : Nat} (hn : ps.length < n) :
    stripSealFrom n (before ++ p ++ ps.flatMap (59 :: ·)) =
      [59].intercalate ((joinedTags (before ++ p) ps).map stripTag) := by
  induction ps generalizing before p n with
  | nil =>
    obtain ⟨m, rfl⟩ := Nat.exists_eq_add_of_lt hn
    rw [List.flatMap_nil, List.append_nil, joinedTags, List.map_singleton, List.intercalate_singleton]
    by_cases h : 61 ∈ before ++ p
    · exact stripSealFrom_last h (hb.tagValue hp) _
    · rw [stripTag_of_notMem h, stripSealFrom]
      split
      · rename_i hnil
        exact hnil.symm
      · rw [Scan.findIdx?_none]
        intro c hc
        rw [beq_eq_false_iff_ne]
        rintro rfl
        exact h hc
  | cons q ps ih =>
    have hnext := fun r hr => hps r (List.mem_cons_of_mem _ hr)
    have hq := hps q List.mem_cons_self
    by_cases h : 61 ∈ p
    · obtain ⟨m, rfl⟩ := Nat.exists_eq_add_of_lt hn
      have hmem : 61 ∈ before ++ p := List.mem_append_right _ h
      have hrest := ih hnext open_nil hq (n := (q :: ps).length + m) (by simp; omega)
      rw [List.nil_append] at hrest
      rw [List.flatMap_cons, List.cons_append, stripSealFrom_tag hmem (hb.tagValue hp), hrest, joinedTags, if_pos hmem,
        List.map_cons, List.intercalate_cons_of_ne_nil (by simp [joinedTags_ne_nil])]
      simp
    · have hrest := ih hnext (hb.cons h) hq (Nat.lt_of_succ_lt hn)
      rw [joinedTags, if_neg (by simp [hb.equals, h])]
      simpa using hrest

/-! ## Whole tag lists -/

theorem stripSealSignatureValue_eq (v : AnsiString) :
    stripSealSignatureValue v = [59].intercalate ((sealTags v).map stripTag) := by
  obtain ⟨p, ps, hps, hv, hp, hno⟩ := exists_splitOn v
  have hlen := length_le_flatMap ps
  have hn : ps.length < v.length + 1 := by
    rw [hv, List.length_append]
    omega
  have heq := stripSealFrom_eq hno open_nil hp hn
  rw [List.nil_append, ← hv] at heq
  rw [stripSealSignatureValue, heq, sealTags, hps]

theorem notMem_setSignature {p s : AnsiString} (hp : 59 ∉ p) (hs : 59 ∉ s) : 59 ∉ setSignature s p := by
  rw [setSignature]
  split
  · rw [List.mem_append, List.mem_cons, not_or, not_or]
    exact ⟨fun h => hp ((List.takeWhile_prefix _).subset h), by decide, hs⟩
  · exact hp

theorem splitOn_withSignature (v : AnsiString) {s : AnsiString} (hs : 59 ∉ s) :
    (withSignature v s).splitOn 59 = (v.splitOn 59).map (setSignature s) := by
  apply List.splitOn_intercalate
  · intro l hl
    obtain ⟨p, hp, rfl⟩ := List.mem_map.1 hl
    exact notMem_setSignature (Separated.notMem_of_mem_splitOn hp) hs
  · simp

theorem sealTags_withSignature (v : AnsiString) {s : AnsiString} (hs : 59 ∉ s) :
    sealTags (withSignature v s) = (sealTags v).map (setTag s) := by
  obtain ⟨p, ps, hps, hv, hp, hno⟩ := exists_splitOn v
  have hset := joinedTags_set hno open_nil hp s
  rw [List.nil_append, List.nil_append] at hset
  rw [sealTags, splitOn_withSignature v hs, hps, sealTags, hps, List.map_cons]
  exact hset

theorem intercalate_sealTags (v : AnsiString) : [59].intercalate (sealTags v) = v := by
  obtain ⟨p, ps, hps, hv, _⟩ := exists_splitOn v
  rw [sealTags, hps]
  exact (intercalate_joinedTags p ps).trans hv.symm

theorem withSignature_eq (v : AnsiString) {s : AnsiString} (hs : 59 ∉ s) :
    withSignature v s = [59].intercalate ((sealTags v).map (setTag s)) := by
  rw [← sealTags_withSignature v hs, intercalate_sealTags]

theorem takeWhile_stem (tag s : AnsiString) :
    (tag.takeWhile (· != 61) ++ 61 :: s).takeWhile (· != 61) = tag.takeWhile (· != 61) := by
  apply Scan.takeWhile_append
  · intro c hc
    exact List.mem_takeWhile_imp (p := (· != 61)) hc
  · exact Scan.stops_cons (by decide)

theorem isSignature_setSignature (s p : AnsiString) : isSignature (setSignature s p) = isSignature p := by
  cases h : isSignature p with
  | false => rw [setSignature_of_not h, h]
  | true =>
    have hname := takeWhile_stem p s
    rw [isSignature, Bool.and_eq_true] at h
    rw [setSignature_of_isSignature (by rw [isSignature, h.1, h.2]; rfl), isSignature, hname, h.2]
    simp

theorem setSignature_setSignature (s t p : AnsiString) : setSignature t (setSignature s p) = setSignature t p := by
  cases h : isSignature p with
  | false => rw [setSignature_of_not h]
  | true =>
    have hset : isSignature (setSignature s p) = true := by rw [isSignature_setSignature, h]
    rw [setSignature_of_isSignature hset, setSignature_of_isSignature h, takeWhile_stem, setSignature_of_isSignature h]

theorem withSignature_withSignature (v : AnsiString) {s : AnsiString} (hs : 59 ∉ s) (t : AnsiString) :
    withSignature (withSignature v s) t = withSignature v t := by
  rw [withSignature, splitOn_withSignature v hs, List.map_map, withSignature]
  congr 1
  apply List.map_congr_left
  exact fun p _ => setSignature_setSignature s t p

/-- `GetDKIMWithoutSignature_` deletes the text of the signature, whatever it
    is. -/
theorem getDKIMWithoutSignature_withSignature {v : AnsiString} (hone : (v.splitOn 59).countP isSignature = 1)
    {s : AnsiString} (hs : 59 ∉ s) : getDKIMWithoutSignature (withSignature v s) = withSignature v [] := by
  have hcount : ((withSignature v s).splitOn 59).countP isSignature = 1 := by
    rw [splitOn_withSignature v hs, List.countP_map, ← hone]
    apply List.countP_congr
    intro p _
    rw [Function.comp_apply, isSignature_setSignature]
  rw [getDKIMWithoutSignature_eq hcount, withSignature_withSignature v hs]

/-! ## Deleting values -/

/-- `f` leaves a tag as it is or deletes its value. -/
def Deletes (f : AnsiString → AnsiString) (tag : AnsiString) : Prop :=
  f tag = tag ∨ 61 ∈ tag ∧ f tag = tag.takeWhile (· != 61) ++ [61]

theorem deletes_stripTag (tag : AnsiString) : Deletes stripTag tag := by
  rw [Deletes, stripTag]
  split
  · rename_i h
    simp only [namedB, Bool.and_eq_true, List.contains_iff_mem] at h
    exact .inr ⟨h.1, rfl⟩
  · exact .inl rfl

theorem deletes_setTag (tag : AnsiString) : Deletes (setTag []) tag := by
  rw [Deletes, setTag]
  split
  · rename_i h
    simp only [endsInSignature, Bool.and_eq_true, List.contains_iff_mem] at h
    exact .inr ⟨h.1, rfl⟩
  · exact .inl rfl

/-- Both forms of a tag are its name and a text without semicolon. -/
theorem Deletes.stem {f : AnsiString → AnsiString} {tag : AnsiString} (h : Deletes f tag) (hmem : 61 ∈ tag)
    (hvalue : 59 ∉ tagValue tag) : ∃ s : AnsiString, f tag = tag.takeWhile (· != 61) ++ 61 :: s ∧ 59 ∉ s := by
  rcases h with h | ⟨_, h⟩
  · exact ⟨tagValue tag, h.trans (tag_eq hmem), hvalue⟩
  · exact ⟨[], h, List.not_mem_nil⟩

theorem deletes_inj {f g : AnsiString → AnsiString} {tag : AnsiString} (hf : Deletes f tag) (hg : Deletes g tag)
    (hvalue : 59 ∉ tagValue tag) {u w : AnsiString} (hu : ∀ c, u.head? = some c → c = 59)
    (hw : ∀ c, w.head? = some c → c = 59) (h : f tag ++ u = g tag ++ w) : f tag = g tag ∧ u = w := by
  by_cases hmem : 61 ∈ tag
  · obtain ⟨a, ha, ha59⟩ := hf.stem hmem hvalue
    obtain ⟨b, hb, hb59⟩ := hg.stem hmem hvalue
    rw [ha, hb, List.append_assoc, List.append_assoc, List.append_cancel_left_eq, List.cons_append, List.cons_append,
      List.cons.injEq] at h
    obtain ⟨hab, huw⟩ := Separated.append_inj ha59 hb59 hu hw h.2
    exact ⟨by rw [ha, hb, hab], huw⟩
  · have hfg : ∀ {k : AnsiString → AnsiString}, Deletes k tag → k tag = tag :=
      fun hk => hk.resolve_right fun h => hmem h.1
    rw [hfg hf, hfg hg] at h
    exact ⟨by rw [hfg hf, hfg hg], List.append_cancel_left h⟩

/-- From the text one can tell of which tags the values are gone. -/
theorem deletes_intercalate {f g : AnsiString → AnsiString} {tags : List AnsiString}
    (hf : ∀ t ∈ tags, Deletes f t) (hg : ∀ t ∈ tags, Deletes g t) (hvalue : ∀ t ∈ tags, 59 ∉ tagValue t) :
    [59].intercalate (tags.map f) = [59].intercalate (tags.map g) ↔ ∀ t ∈ tags, f t = g t := by
  constructor
  · intro h
    cases tags with
    | nil => exact fun t ht => absurd ht List.not_mem_nil
    | cons t tags =>
      rw [List.map_cons, List.map_cons, Separated.intercalate_cons, Separated.intercalate_cons] at h
      induction tags generalizing t with
      | nil =>
        intro r hr
        rw [List.mem_singleton.1 hr]
        simpa using h
      | cons q tags ih =>
        obtain ⟨hfirst, hrest⟩ := deletes_inj (hf t (by simp)) (hg t (by simp)) (hvalue t (by simp))
          (follows_semicolon _) (follows_semicolon _) h
        rw [List.map_cons, List.map_cons, List.flatMap_cons, List.flatMap_cons, List.cons_append, List.cons_append,
          List.cons.injEq] at hrest
        have hothers := ih q (fun r hr => hf r (List.mem_cons_of_mem _ hr)) (fun r hr => hg r (List.mem_cons_of_mem _ hr))
          (fun r hr => hvalue r (List.mem_cons_of_mem _ hr)) hrest.2
        intro r hr
        rcases List.mem_cons.1 hr with rfl | hr
        · exact hfirst
        · exact hothers r hr
  · intro h
    rw [List.map_congr_left h]

theorem value_of_mem_joinedTags {ps : List AnsiString} (hps : ∀ q ∈ ps, 59 ∉ q) {before p : AnsiString} (hb : Open before)
    (hp : 59 ∉ p) {t : AnsiString} (ht : t ∈ joinedTags (before ++ p) ps) : 59 ∉ tagValue t := by
  induction ps generalizing before p with
  | nil =>
    rw [joinedTags, List.mem_singleton] at ht
    rw [ht]
    exact hb.tagValue hp
  | cons q ps ih =>
    have hnext := fun r hr => hps r (List.mem_cons_of_mem _ hr)
    have hq := hps q List.mem_cons_self
    by_cases h : 61 ∈ p
    · rw [joinedTags, if_pos (by simp [h]), List.mem_cons] at ht
      rcases ht with rfl | ht
      · exact hb.tagValue hp
      · exact ih hnext open_nil hq ht
    · rw [joinedTags, if_neg (by simp [hb.equals, h])] at ht
      apply ih hnext (hb.cons h) hq
      simpa using ht

theorem value_of_mem_sealTags {v t : AnsiString} (ht : t ∈ sealTags v) : 59 ∉ tagValue t := by
  obtain ⟨p, ps, hps, _, hp, hno⟩ := exists_splitOn v
  rw [sealTags, hps] at ht
  exact value_of_mem_joinedTags hno open_nil hp ht

theorem stem_eq_iff {tag : AnsiString} (h : 61 ∈ tag) : tag.takeWhile (· != 61) ++ [61] = tag ↔ tagValue tag = [] := by
  have hlen := length_tag h
  constructor
  · intro heq
    rw [← List.length_eq_zero_iff]
    have := congrArg List.length heq
    rw [List.length_append, List.length_singleton] at this
    omega
  · intro hnil
    have heq := tag_eq h
    rw [hnil] at heq
    exact heq.symm

theorem stripTag_eq_setTag_iff (tag : AnsiString) :
    stripTag tag = setTag [] tag ↔ (tagValue tag ≠ [] → (namedB tag = true ↔ endsInSignature tag = true)) := by
  by_cases h : 61 ∈ tag
  · have hstem := stem_eq_iff h
    have hstem' : tag = tag.takeWhile (· != 61) ++ [61] ↔ tagValue tag = [] := eq_comm.trans hstem
    rw [stripTag, setTag]
    cases hb : namedB tag <;> cases he : endsInSignature tag
    · simp
    · simpa using hstem'
    · simpa using hstem
    · simp
  · simp [stripTag, setTag, namedB, endsInSignature, h]

theorem mem_setTag {tag : AnsiString} (s : AnsiString) : 61 ∈ setTag s tag ↔ 61 ∈ tag := by
  rw [setTag]
  split
  · rename_i h
    simp only [endsInSignature, Bool.and_eq_true, List.contains_iff_mem] at h
    simp [h.1]
  · rfl

theorem takeWhile_setTag (s tag : AnsiString) : (setTag s tag).takeWhile (· != 61) = tag.takeWhile (· != 61) := by
  rw [setTag]
  split
  · exact takeWhile_stem tag s
  · rfl

theorem namedB_setTag (s tag : AnsiString) : namedB (setTag s tag) = namedB tag := by
  simp [namedB, takeWhile_setTag, mem_setTag]

theorem endsInSignature_setTag (s tag : AnsiString) : endsInSignature (setTag s tag) = endsInSignature tag := by
  simp [endsInSignature, takeWhile_setTag, mem_setTag]

theorem tagValue_setTag {tag : AnsiString} (h : endsInSignature tag = true) (s : AnsiString) : tagValue (setTag s tag) = s := by
  have hdrop : (tag.takeWhile (· != 61) ++ 61 :: s).dropWhile (· != 61) = 61 :: s := by
    apply Scan.dropWhile_append
    · intro c hc
      exact List.mem_takeWhile_imp (p := (· != 61)) hc
    · exact Scan.stops_cons (by decide)
  rw [setTag, if_pos h, tagValue, hdrop]
  rfl

/-- The seal stripper deletes what it should of one tag list. -/
theorem strips_iff (v : AnsiString) : stripSealSignatureValue v = withSignature v [] ↔
    ∀ tag ∈ sealTags v, tagValue tag ≠ [] → (namedB tag = true ↔ endsInSignature tag = true) := by
  rw [stripSealSignatureValue_eq, withSignature_eq v List.not_mem_nil,
    deletes_intercalate (fun t _ => deletes_stripTag t) (fun t _ => deletes_setTag t) fun t ht => value_of_mem_sealTags ht]
  exact forall₂_congr fun tag _ => stripTag_eq_setTag_iff tag

/-- With exactly one tag `b` both strippers do what they should exactly if the
    ARC scanner reads it as the parser does. -/
theorem signature_stripped_iff {v : AnsiString}
    (hone : (DKIMParameters.load v).countP (fun a => a.1 == ansi "b") = 1) :
    StripsSignature v ↔ SealReadsSignature v := by
  rw [countP_load] at hone
  constructor
  · intro h tag htag
    have hx : (59 : UInt8) ∉ ([120] : AnsiString) := by decide
    constructor
    · -- The text of the signature may have been empty, so it is replaced.
      intro hends
      have harc : stripSealSignatureValue (withSignature v [120]) = withSignature (withSignature v [120]) [] := by
        rw [(h.replaced [120] hx).2, h.arc, withSignature_withSignature v hx]
      have hmem : setTag [120] tag ∈ sealTags (withSignature v [120]) := by
        rw [sealTags_withSignature v hx]
        exact List.mem_map_of_mem htag
      have hiff := (strips_iff _).1 harc _ hmem (by rw [tagValue_setTag hends]; exact List.cons_ne_nil _ _)
      rw [namedB_setTag, endsInSignature_setTag] at hiff
      exact hiff.2 hends
    · intro hb
      by_cases hnil : tagValue tag = []
      · exact .inr hnil
      · exact .inl (((strips_iff v).1 h.arc tag htag hnil).1 hb)
  · intro h
    have harc : ∀ s : AnsiString, 59 ∉ s → stripSealSignatureValue (withSignature v s) = withSignature v [] := by
      intro s hs
      have hset := withSignature_withSignature v hs []
      rw [← hset, strips_iff]
      intro set hset hvalue
      rw [sealTags_withSignature v hs] at hset
      obtain ⟨tag, htag, rfl⟩ := List.mem_map.1 hset
      rw [namedB_setTag, endsInSignature_setTag]
      refine ⟨fun hb => ?_, (h tag htag).1⟩
      rcases (h tag htag).2 hb with hends | hnil
      · exact hends
      · by_contra hends
        rw [setTag, if_neg hends] at hvalue
        exact hvalue hnil
    have hv : stripSealSignatureValue v = withSignature v [] := by
      rw [strips_iff]
      intro tag htag hvalue
      exact ⟨fun hb => ((h tag htag).2 hb).resolve_right hvalue, (h tag htag).1⟩
    have hdkim := getDKIMWithoutSignature_eq hone
    refine ⟨hdkim, hv, fun s hs => ⟨?_, ?_⟩⟩
    · rw [getDKIMWithoutSignature_withSignature hone hs, hdkim]
    · rw [harc s hs, hv]

theorem signature_stripped_seal : StripsSignature (ansi "a=rsa; b=xyz; d=e") ↔ SealReadsSignature (ansi "a=rsa; b=xyz; d=e") :=
  signature_stripped_iff (by decide +kernel)

/-- A tag without an equal sign hides the signature behind it, and `B` loses
    its value. -/
theorem seal_signature_hidden : (DKIMParameters.load (ansi "x;b=abc")).countP (fun a => a.1 == ansi "b") = 1 ∧
    getDKIMWithoutSignature (ansi "x;b=abc") = ansi "x;b=" ∧
    stripSealSignatureValue (ansi "x;b=abc") = ansi "x;b=abc" ∧
    (DKIMParameters.load (ansi "B=q;b=abc")).countP (fun a => a.1 == ansi "b") = 1 ∧
    getDKIMWithoutSignature (ansi "B=q;b=abc") = ansi "B=q;b=" ∧
    stripSealSignatureValue (ansi "B=q;b=abc") = ansi "B=;b=" ∧
    ¬ StripsSignature (ansi "x;b=abc") ∧ ¬ StripsSignature (ansi "B=q;b=abc") := by
  refine ⟨by decide +kernel, by decide, by decide, by decide +kernel, by decide, by decide, ?_, ?_⟩
  · exact fun h => absurd h.arc (by decide)
  · exact fun h => absurd h.arc (by decide)

end HMailServer.Dkim
