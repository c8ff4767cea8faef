import HMailServer.Mime.Field
import HMailServer.Lib.Scan

/- A field value `type; a1=v1; ...; an=vn`, and what the two readers of
   `MimeField` make of its text: `GetParameter` reads every parameter whose base
   name is the attribute, the scan of `FindParameter` stops at the first one
   whose name begins with it. -/
namespace HMailServer.MimeField
open AnsiString

/-! ## The grammar -/

inductive ParameterValue where
  | token (s : AnsiString)
  | quoted (s : AnsiString)
  deriving DecidableEq

/-- A parameter, with the blanks in front of its name and on both sides of the
    equal sign. -/
structure Parameter where
  lead : Nat
  name : AnsiString
  before : Nat
  after : Nat
  value : ParameterValue
  deriving DecidableEq

structure FieldValue where
  type : AnsiString
  params : List Parameter

def blanks (n : Nat) : AnsiString := List.replicate n 32

def ParameterValue.text : ParameterValue → AnsiString
  | .token s => s
  | .quoted s => 34 :: s ++ [34]

/-- All of the parameter in front of its value. -/
def Parameter.head (p : Parameter) : AnsiString :=
  blanks p.lead ++ p.name ++ blanks p.before ++ 61 :: blanks p.after

def Parameter.piece (p : Parameter) : AnsiString := p.head ++ p.value.text
def Parameter.text (p : Parameter) : AnsiString := 59 :: p.piece

def paramsText (params : List Parameter) : AnsiString := params.flatMap Parameter.text

def FieldValue.text (f : FieldValue) : AnsiString := f.type ++ paramsText f.params

/-- A character of a name. -/
def IsNameChar (c : UInt8) : Prop := c ≠ 61 ∧ c ≠ 59 ∧ c ≠ 34 ∧ c ≠ 0 ∧ isSpace c = false

instance : DecidablePred IsNameChar := fun _ => inferInstanceAs (Decidable (_ ∧ _))

/-- A name, perhaps with the section or asterisk of RFC 2231 behind it. -/
structure IsName (name : AnsiString) : Prop where
  ne_nil : name ≠ []
  base : name.head? ≠ some 42
  chars : ∀ c ∈ name, IsNameChar c

def ParameterValue.WellFormed : ParameterValue → Prop
  | .token s => s ≠ [] ∧ (∀ c ∈ s, c ≠ 59 ∧ c ≠ 34 ∧ c ≠ 0) ∧ ∀ c, s.head? = some c → isSpace c = false
  | .quoted s => ∀ c ∈ s, c ≠ 34 ∧ c ≠ 0

structure Parameter.WellFormed (p : Parameter) : Prop where
  name : IsName p.name
  value : p.value.WellFormed

structure FieldValue.WellFormed (f : FieldValue) : Prop where
  type_chars : ∀ c ∈ f.type, c ≠ 59 ∧ c ≠ 34 ∧ c ≠ 0
  type_last : ∀ c, f.type.getLast? = some c → isSpace c = false
  params : ∀ p ∈ f.params, p.WellFormed

/-- An attribute name, which has no asterisk. -/
structure IsAttribute (attr : AnsiString) : Prop where
  ne_nil : attr ≠ []
  chars : ∀ c ∈ attr, IsNameChar c ∧ c ≠ 42

/-! ## What its text means -/

/-- The name less its section. -/
def Parameter.base (p : Parameter) : AnsiString := p.name.takeWhile (· != 42)

/-- The name ends in an asterisk right at the equal sign. -/
def Parameter.encoded (p : Parameter) : Bool := p.before == 0 && p.name.getLast? == some 42

def ParameterValue.content : ParameterValue → AnsiString
  | .token s => trimRight s
  | .quoted s => trimRight s

/-- The name begins with the attribute. -/
def Parameter.begins (attr : AnsiString) (p : Parameter) : Bool := (lower attr).isPrefixOf (lower p.name)

/-- The parameters that `GetParameter` reads together. -/
def named (attr : AnsiString) (params : List Parameter) : List Parameter :=
  params.filter fun p => equalsNoCase p.base attr

def contents (params : List Parameter) : AnsiString := params.flatMap fun p => p.value.content

def readParameter (attr : AnsiString) (params : List Parameter) : Option AnsiString :=
  if contents (named attr params) = [] then none
  else some (trimLeft (if (named attr params).any Parameter.encoded then decodeRFC2184 (contents (named attr params))
    else contents (named attr params)))

/-! ## GetParameter reads it -/

theorem eq_of_mem_blanks {n : Nat} {c : UInt8} (h : c ∈ blanks n) : c = 32 := List.eq_of_mem_replicate h

theorem Parameter.WellFormed.head_chars {p : Parameter} (h : p.WellFormed) :
    ∀ c ∈ p.head, c ≠ 59 ∧ c ≠ 34 ∧ c ≠ 0 := by
  intro c hc
  simp only [Parameter.head, List.mem_append, List.mem_cons] at hc
  rcases hc with ((hc | hc) | hc) | hc | hc
  · rw [eq_of_mem_blanks hc]
    decide
  · obtain ⟨_, h59, h34, h0, _⟩ := h.name.chars c hc
    exact ⟨h59, h34, h0⟩
  · rw [eq_of_mem_blanks hc]
    decide
  · rw [hc]
    decide
  · rw [eq_of_mem_blanks hc]
    decide

open QuotedSplit in
theorem ParameterValue.text_enclosed {v : ParameterValue} (h : v.WellFormed) :
    Enclosed 34 59 false v.text ∧ quotedAfter 34 false v.text = false := by
  cases v with
  | token s =>
    obtain ⟨_, hs, _⟩ := h
    have h59 : (59 : UInt8) ∉ s := fun hm => (hs 59 hm).1 rfl
    have h34 : (34 : UInt8) ∉ s := fun hm => (hs 34 hm).2.1 rfl
    exact ⟨enclosed_of_notMem false h59, quotedAfter_of_notMem false h34⟩
  | quoted s =>
    have h34 : (34 : UInt8) ∉ s := fun hm => (h 34 hm).1 rfl
    have hafter : quotedAfter (34 : UInt8) true s = true := quotedAfter_of_notMem true h34
    have hclose : quotedAfter (34 : UInt8) true (s ++ [34]) = false := by
      rw [quotedAfter_append, hafter]
      rfl
    refine ⟨⟨by decide, ?_⟩, hclose⟩
    change Enclosed 34 59 true (s ++ [34])
    rw [enclosed_append, hafter]
    exact ⟨enclosed_quoted h34, by decide, trivial⟩

open QuotedSplit in
/-- The semicolons of a piece are all inside its quotation marks. -/
theorem Parameter.WellFormed.piece_enclosed {p : Parameter} (h : p.WellFormed) :
    Enclosed 34 59 false p.piece ∧ quotedAfter 34 false p.piece = false := by
  have h34 : (34 : UInt8) ∉ p.head := fun hm => (h.head_chars 34 hm).2.1 rfl
  have h59 : (59 : UInt8) ∉ p.head := fun hm => (h.head_chars 59 hm).1 rfl
  have hafter : quotedAfter (34 : UInt8) false p.head = false := quotedAfter_of_notMem false h34
  obtain ⟨hvalue, hvalueAfter⟩ := ParameterValue.text_enclosed h.value
  rw [Parameter.piece, enclosed_append, quotedAfter_append, hafter]
  exact ⟨⟨enclosed_of_notMem false h59, hvalue⟩, hvalueAfter⟩

open QuotedSplit in
/-- `GetParameter` splits the text into its pieces. -/
theorem splitUnquoted_text {a : AnsiString} (ha : Enclosed 34 59 false a) (hafter : quotedAfter 34 false a = false)
    {params : List Parameter} (h : ∀ p ∈ params, p.WellFormed) :
    splitUnquoted 34 59 false (a ++ paramsText params) = a :: params.map Parameter.piece := by
  induction params generalizing a with
  | nil => simpa [paramsText] using splitUnquoted_enclosed ha
  | cons p params ih =>
    obtain ⟨hp, hpAfter⟩ := (h p (by simp)).piece_enclosed
    have hrest := ih hp hpAfter fun q hq => h q (by simp [hq])
    rw [paramsText, List.flatMap_cons, Parameter.text, List.cons_append, splitUnquoted_append (by decide) _ ha hafter]
    rw [paramsText] at hrest
    rw [hrest]
    rfl

/-- The name of a piece, up to where the reader stops. -/
theorem Parameter.WellFormed.base_ne_nil {p : Parameter} (h : p.WellFormed) : p.base ≠ [] := by
  have hhead := h.name.base
  unfold Parameter.base
  cases hname : p.name with
  | nil => exact absurd hname h.name.ne_nil
  | cons c rest =>
    rw [hname, List.head?_cons, ne_eq, Option.some.injEq] at hhead
    simp [hhead]

theorem trimLeft_piece {p : Parameter} (h : p.WellFormed) :
    trimLeft p.piece = p.name ++ (blanks p.before ++ 61 :: (blanks p.after ++ p.value.text)) := by
  have hname : Scan.Stops isSpace (p.name ++ (blanks p.before ++ 61 :: (blanks p.after ++ p.value.text))) := by
    apply Scan.Stops.append _ h.name.ne_nil
    intro c hc
    exact (h.name.chars c (List.mem_of_mem_head? hc)).2.2.2.2
  have hsplit : p.piece = blanks p.lead ++ (p.name ++ (blanks p.before ++ 61 :: (blanks p.after ++ p.value.text))) := by
    simp [Parameter.piece, Parameter.head]
  rw [hsplit, trimLeft]
  exact Scan.dropWhile_append (fun c hc => by rw [eq_of_mem_blanks hc]; rfl) hname

theorem name_takeWhile {p : Parameter} (h : p.WellFormed) (rest : AnsiString) :
    (p.name ++ (blanks p.before ++ 61 :: rest)).takeWhile (fun c => c != 32 && c != 42 && c != 61) = p.base := by
  have hchars : ∀ c ∈ p.name, c ≠ 32 ∧ c ≠ 61 := by
    intro c hc
    obtain ⟨h61, _, _, _, hspace⟩ := h.name.chars c hc
    refine ⟨fun h32 => ?_, h61⟩
    rw [h32] at hspace
    exact absurd hspace (by decide)
  have hstop : Scan.Stops (fun c => c != 32 && c != 42 && c != 61) (blanks p.before ++ 61 :: rest) := by
    unfold blanks
    cases p.before with
    | zero => exact Scan.stops_cons (by decide)
    | succ n => exact Scan.stops_cons (by decide)
  have hbase : ∀ c ∈ p.base, (c != 32 && c != 42 && c != 61) = true := by
    intro c hc
    obtain ⟨h32, h61⟩ := hchars c ((List.takeWhile_prefix _).subset hc)
    have h42 := List.mem_takeWhile_imp (p := (· != (42 : UInt8))) hc
    rw [bne_iff_ne.2 h32, bne_iff_ne.2 h61, h42]
    rfl
  have hsplit : p.name = p.base ++ p.name.dropWhile (· != 42) := List.takeWhile_append_dropWhile.symm
  have hsection : Scan.Stops (fun c => c != 32 && c != 42 && c != 61)
      (p.name.dropWhile (· != 42) ++ (blanks p.before ++ 61 :: rest)) := by
    cases hd : p.name.dropWhile (· != 42) with
    | nil => exact hstop
    | cons c t =>
      have hc := List.head?_dropWhile_not (· != (42 : UInt8)) p.name
      rw [hd, List.head?_cons] at hc
      have h42 : c = 42 := by simpa using hc
      rw [h42]
      exact Scan.stops_cons (by decide)
  conv_lhs => rw [hsplit, List.append_assoc]
  exact Scan.takeWhile_append hbase hsection

theorem beforeEquals {p : Parameter} (h : p.WellFormed) (rest : AnsiString) :
    (p.name ++ (blanks p.before ++ 61 :: rest)).takeWhile (· != 61) = p.name ++ blanks p.before := by
  rw [← List.append_assoc]
  apply Scan.takeWhile_append _ (Scan.stops_cons (by decide))
  intro c hc
  rcases List.mem_append.1 hc with hc | hc
  · simpa using (h.name.chars c hc).1
  · rw [eq_of_mem_blanks hc]
    decide

theorem encoded_eq {p : Parameter} : ((p.name ++ blanks p.before).getLast? == some 42) = p.encoded := by
  unfold Parameter.encoded blanks
  cases p.before with
  | zero => simp
  | succ n =>
    rw [List.replicate_succ', ← List.append_assoc, List.getLast?_concat]
    rfl

theorem pieceValue_text {p : Parameter} (h : p.WellFormed) : pieceValue (blanks p.after ++ p.value.text) = p.value.content := by
  have hvalue := h.value
  have hskip : (blanks p.after ++ p.value.text).dropWhile (· == 32) = p.value.text := by
    apply Scan.dropWhile_append (fun c hc => by rw [eq_of_mem_blanks hc]; rfl)
    cases hv : p.value with
    | token s =>
      rw [hv] at hvalue
      intro c hc
      have hspace := hvalue.2.2 c hc
      rw [beq_eq_false_iff_ne]
      rintro rfl
      exact absurd hspace (by decide)
    | quoted s => exact Scan.stops_cons (by decide)
  unfold pieceValue
  rw [hskip]
  cases hv : p.value with
  | token s =>
    rw [hv] at hvalue
    obtain ⟨hne, hchars, _⟩ := hvalue
    cases hs : s with
    | nil => exact absurd hs hne
    | cons c t =>
      have h34 : c ≠ 34 := (hchars c (by simp [hs])).2.1
      simp only [ParameterValue.text, ParameterValue.content]
      split
      · rename_i heq
        exact absurd (List.cons.inj heq).1 h34
      · rw [← hs, List.takeWhile_eq_self_iff.2]
        intro d hd
        obtain ⟨h59, h34, _⟩ := hchars d hd
        simp [h59, h34]
  | quoted s =>
    rw [hv] at hvalue
    have htake : (s ++ [34]).takeWhile (· != 34) = s :=
      Scan.takeWhile_append (fun c hc => by simpa using (hvalue c hc).1) (Scan.stops_cons (by decide))
    simp only [ParameterValue.text, ParameterValue.content, List.cons_append, htake]

theorem getParameterLoop_pieces (attr : AnsiString) {params : List Parameter} (h : ∀ p ∈ params, p.WellFormed)
    (strValue : AnsiString) (encoded : Bool) :
    getParameterLoop attr strValue encoded (params.map Parameter.piece) =
      some (strValue ++ contents (named attr params), encoded || (named attr params).any Parameter.encoded) := by
  induction params generalizing strValue encoded with
  | nil => simp [getParameterLoop, named, contents]
  | cons p params ih =>
    have hp := h p (by simp)
    have hrest := ih fun q hq => h q (by simp [hq])
    rw [List.map_cons, getParameterLoop]
    simp only [trimLeft_piece hp, name_takeWhile hp, beforeEquals hp, encoded_eq]
    rw [if_neg (fun hnil => hp.base_ne_nil hnil.1)]
    have hdrop : (p.name ++ (blanks p.before ++ 61 :: (blanks p.after ++ p.value.text))).drop
        ((p.name ++ blanks p.before).length + 1) = blanks p.after ++ p.value.text := by
      rw [← List.append_assoc, List.drop_append]
      simp
    rw [hdrop, pieceValue_text hp, hrest, hrest]
    unfold named contents
    cases heq : equalsNoCase p.base attr with
    | false => simp [heq]
    | true => simp [heq, Bool.or_assoc]

/-- `GetParameter` reads the parameters with that base name. -/
theorem getParameter_text {f : FieldValue} (h : f.WellFormed) (attr : AnsiString) :
    getParameter f.text attr = readParameter attr f.params := by
  have h59 : (59 : UInt8) ∉ f.type := fun hm => (h.type_chars 59 hm).1 rfl
  have h34 : (34 : UInt8) ∉ f.type := fun hm => (h.type_chars 34 hm).2.1 rfl
  rw [getParameter, FieldValue.text, splitUnquoted_text (QuotedSplit.enclosed_of_notMem false h59)
    (QuotedSplit.quotedAfter_of_notMem false h34) h.params, List.tail_cons, getParameterLoop_pieces attr h.params]
  simp only [List.nil_append, Bool.false_or]
  rfl

end HMailServer.MimeField
