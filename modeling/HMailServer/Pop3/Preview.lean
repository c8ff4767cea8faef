import Mathlib
import HMailServer.Pop3.Transfer

/- TOP is a preview of RETR: what it sends is the header block, the empty line
   and the first lines of the body of what RETR sends, as long as its line
   reader meets no NUL and no line longer than its buffer, and the last line of
   both has CRLF at its end, or no line break at all. -/
namespace HMailServer.Pop3
open AnsiString DotStuffing Lines

/-! ## The claim -/

/-- The header block, the empty line and the first `n` lines behind it. -/
def previewLines (n : Nat) : List AnsiString → List AnsiString
  | [] => []
  | line :: rest => if line = crlf then line :: rest.take n else line :: previewLines n rest

/-- What a client takes from a response: without the last line and the dots. -/
def received (response : AnsiString) : AnsiString := unstuff true (response.take (response.length - 3))

/-- One CRLF dot CRLF, at the end, and no earlier line that is a lone dot. -/
def Terminated (response : AnsiString) : Prop :=
  FirstTerminatorAt response (response.length - 3) ∧ NoLoneDot (response.take (response.length - 3))

/-- What TOP sends begins what RETR sends, behind their status lines. -/
def Preview (n : Nat) (retr top : AnsiString) : Prop :=
  lines LF (received top) = previewLines n (lines LF (received retr)) ∧ Terminated retr ∧ Terminated top

/-- The last line ends with a bare line feed. -/
def BareEnd (text : AnsiString) : Prop := text.getLast? = some LF ∧ ¬crlf <:+ text

/-! ## Stuffed responses -/

theorem take_response (text : AnsiString) : (text ++ lastLine).take ((text ++ lastLine).length - 3) = text := by
  rw [List.length_append, show lastLine.length = 3 from rfl, Nat.add_sub_cancel, List.take_left]

theorem received_stuffed (m : AnsiString) : received (stuff true m ++ lastLine) = m := by
  rw [received, take_response, unstuff_stuff]

/-- What stands in front of a last line that ends a response. -/
theorem closed_of_terminatorAt {response : AnsiString} (h : TerminatorAt response (response.length - 3)) :
    ∃ text, response = text ++ lastLine ∧ (text = [] ∨ crlf <:+ text) := by
  have hle := h.le_length
  obtain ⟨rest, hrest⟩ := h
  have hlength := congrArg List.length hrest
  rw [List.length_append, List.length_drop, List.length_cons, List.length_cons, show terminator.length = 5 from rfl] at hlength
  have hnil : rest = [] := List.length_eq_zero_iff.1 (by omega)
  rw [hnil, List.append_nil] at hrest
  have hwhole : CR :: LF :: response = (CR :: LF :: response).take (response.length - 3) ++ terminator := by
    rw [hrest, List.take_append_drop]
  generalize (CR :: LF :: response).take (response.length - 3) = front at hwhole
  match front, hwhole with
  | [], hwhole =>
    refine ⟨[], ?_, .inl rfl⟩
    exact (List.cons.inj (List.cons.inj hwhole).2).2
  | [_], hwhole => exact absurd (List.cons.inj (List.cons.inj hwhole).2).1 (by decide)
  | c :: d :: front, hwhole =>
    refine ⟨front ++ crlf, ?_, .inr ⟨front, rfl⟩⟩
    rw [List.append_assoc]
    exact (List.cons.inj (List.cons.inj hwhole).2).2

theorem crlf_suffix_unstuff {text : AnsiString} (h : crlf <:+ text) : crlf <:+ unstuff true text := by
  obtain ⟨front, rfl⟩ := h
  rw [unstuff_append]
  exact ⟨unstuff true front, rfl⟩

theorem terminated_stuffed_iff (m : AnsiString) : Terminated (stuff true m ++ lastLine) ↔ m = [] ∨ crlf <:+ m := by
  have hdot : NoLoneDot ((stuff true m ++ lastLine).take ((stuff true m ++ lastLine).length - 3)) := by
    rw [take_response]
    exact stuff_noLoneDot m
  rw [Terminated, and_iff_left hdot]
  constructor
  · intro h
    obtain ⟨text, htext, hend⟩ := closed_of_terminatorAt h.1
    have hsame := (List.append_inj' htext rfl).1
    rw [← hsame] at hend
    rcases hend with hnil | hend
    · apply Or.inl
      rw [← unstuff_stuff true m, hnil]
      rfl
    · apply Or.inr
      rw [← unstuff_stuff true m]
      exact crlf_suffix_unstuff hend
  · rintro (rfl | ⟨front, rfl⟩)
    · exact ⟨by decide, fun q hq => absurd hq (Nat.not_lt_zero q)⟩
    · have hfirst := stuff_firstTerminator front []
      have hstuffed : stuff true (front ++ crlf) ++ lastLine = stuff true front ++ terminator ++ [] := by
        have hcrlf : stuff (lineStart true front) crlf = crlf := stuff_of_not_mem (by decide) _
        rw [stuff_append, hcrlf, List.append_nil, List.append_assoc]
        rfl
      rw [hstuffed]
      convert hfirst using 1
      rw [List.append_nil, List.length_append]
      rfl

theorem closed_iff_not_bareEnd (file : AnsiString) : (closed file = [] ∨ crlf <:+ closed file) ↔ ¬BareEnd file := by
  rw [closed, BareEnd, not_and, not_not]
  split
  · rename_i h
    constructor
    · intro hclosed hlast
      apply hclosed.resolve_left
      rintro rfl
      cases hlast
    · intro hclosed
      exact h.imp id hclosed
  · rename_i h
    rw [not_or] at h
    exact iff_of_true (.inr (List.suffix_append _ _)) fun hlast => absurd hlast h.2

/-! ## The lines of a closed message -/

theorem closed_line (l s : AnsiString) : closed (l ++ LF :: s) = l ++ LF :: closed s := by
  rw [closed, closed]
  have hne : l ++ LF :: s ≠ [] := List.append_ne_nil_of_right_ne_nil _ (List.cons_ne_nil _ _)
  by_cases hs : s = []
  · subst hs
    rw [if_pos (.inr (List.getLast?_concat ..)), if_pos (.inl rfl)]
  · have hlast : (l ++ LF :: s).getLast? = s.getLast? := by
      rw [List.getLast?_append_of_ne_nil _ (List.cons_ne_nil LF s), List.getLast?_cons_of_ne_nil hs]
    rw [hlast]
    by_cases hend : s.getLast? = some LF
    · rw [if_pos (.inr hend), if_pos (.inr hend)]
    · rw [if_neg (not_or.2 ⟨hne, hend⟩), if_neg (not_or.2 ⟨hs, hend⟩), List.append_assoc]
      rfl

/-- A line break at the end of the message is one at the end of its lines. -/
theorem lines_closed (file : AnsiString) :
    (∀ n, previewLines n (lines LF (closed file)) = lines LF (closed (previewLines n (lines LF file)).flatten)) ∧
      ∀ n, (lines LF (closed file)).take n = lines LF (closed ((lines LF file).take n).flatten) := by
  induction file using lines_induction LF with
  | hnil => exact ⟨fun n => rfl, fun n => by cases n <;> rfl⟩
  | hlast l hne hl =>
    have hclosed : closed l = (l ++ [CR]) ++ LF :: [] := by
      rw [closed, if_neg, List.append_assoc]
      · rfl
      · rintro (hnil | hlast)
        · exact hne hnil
        · exact hl (List.mem_of_getLast? hlast)
    have hcr : LF ∉ l ++ [CR] := by
      rw [List.mem_append, not_or]
      exact ⟨hl, by decide⟩
    have hlines : lines LF (closed l) = [closed l] := by rw [hclosed, lines_append_sep hcr, lines_nil]
    have htop : ∀ n (x : AnsiString), previewLines n [x] = [x] := by
      intro n x
      rw [previewLines, List.take_nil, previewLines, ite_self]
    rw [hlines, lines_of_notMem hne hl]
    constructor
    · intro n
      rw [htop, htop, List.flatten_singleton, hlines]
    · intro n
      cases n with
      | zero => rfl
      | succ n => rw [List.take_succ_cons, List.take_succ_cons, List.take_nil, List.flatten_singleton, hlines]
  | hline l s hl ih =>
    have hcons : ∀ ls : List AnsiString, lines LF (closed ((l ++ [LF]) :: ls).flatten) =
        (l ++ [LF]) :: lines LF (closed ls.flatten) := by
      intro ls
      rw [List.flatten_cons, List.append_assoc]
      change lines LF (closed (l ++ LF :: ls.flatten)) = _
      rw [closed_line, lines_append_sep hl]
    rw [closed_line, lines_append_sep hl, lines_append_sep hl]
    constructor
    · intro n
      rw [previewLines, previewLines]
      split
      · rw [hcons, ih.2]
      · rw [hcons, ih.1]
    · intro n
      cases n with
      | zero => rfl
      | succ n => rw [List.take_succ_cons, List.take_succ_cons, hcons, ih.2]

/-! ## The line reader -/

theorem fgets_line {l : AnsiString} (hl : LF ∉ l) (s : AnsiString) {room : Nat} (hroom : l.length < room) :
    fgets room (l ++ LF :: s) = (l ++ [LF], s) := by
  induction l generalizing room with
  | nil =>
    obtain ⟨room, rfl⟩ := Nat.exists_eq_add_of_lt hroom
    rw [List.length_nil, Nat.zero_add, List.nil_append, fgets, if_pos rfl]
    rfl
  | cons c l ih =>
    rw [List.mem_cons, not_or] at hl
    rw [List.length_cons] at hroom
    cases room with
    | zero => exact absurd hroom (Nat.not_lt_zero _)
    | succ room =>
      rw [List.cons_append, fgets, if_neg (Ne.symm hl.1), ih hl.2 (Nat.lt_of_succ_lt_succ hroom)]
      rfl

theorem fgets_last {l : AnsiString} (hl : LF ∉ l) {room : Nat} (hroom : l.length ≤ room) : fgets room l = (l, []) := by
  induction l generalizing room with
  | nil =>
    cases room with
    | zero => rfl
    | succ room => rfl
  | cons c l ih =>
    rw [List.mem_cons, not_or] at hl
    rw [List.length_cons] at hroom
    cases room with
    | zero => exact absurd hroom (Nat.not_succ_le_zero _)
    | succ room => rw [fgets, if_neg (Ne.symm hl.1), ih hl.2 (Nat.le_of_succ_le_succ hroom)]

theorem cstr_of_notMem {s : AnsiString} (h : 0 ∉ s) : cstr s = s := by
  apply List.takeWhile_eq_self_iff.2
  intro c hc
  rw [bne_iff_ne]
  rintro rfl
  exact h hc

/-- A line that fits and holds no NUL is read whole. -/
theorem readLine_cons {file line : AnsiString} {ls : List AnsiString} (h : lines LF file = line :: ls)
    (hroom : line.length ≤ lineRoom) (hnul : 0 ∉ line) :
    ∃ rest, readLine file = some (line, rest) ∧ lines LF rest = ls ∧ rest.length < file.length ∧
      lines LF line = [line] ∧ (line.getLast? = some LF ∨ rest = []) := by
  have hline : lines LF line = [line] := lines_of_mem (s := file) (h ▸ List.mem_cons_self)
  induction file using lines_induction LF with
  | hnil => exact absurd h nofun
  | hlast l hne hl =>
    rw [lines_of_notMem hne hl] at h
    obtain ⟨rfl, rfl⟩ := List.cons.inj h
    refine ⟨[], ?_, rfl, List.length_pos_iff.2 hne, hline, .inr rfl⟩
    rw [readLine, if_neg hne, fgets_last hl hroom, cstr_of_notMem hnul]
  | hline l s hl _ =>
    rw [lines_append_sep hl] at h
    obtain ⟨rfl, rfl⟩ := List.cons.inj h
    rw [List.length_append, List.length_singleton] at hroom
    refine ⟨s, ?_, rfl, ?_, hline, .inl (List.getLast?_concat ..)⟩
    · rw [readLine, if_neg (List.append_ne_nil_of_right_ne_nil _ (List.cons_ne_nil _ _)), fgets_line hl s (by omega),
        cstr_of_notMem hnul]
    · rw [List.length_append, List.length_cons]
      omega

/-! ## The lines that are sent -/

/-- What was put out is the text, stuffed, and the flag says whether its last line
    has an end. -/
def Sent (s : SendFileHeader) (text : AnsiString) : Prop :=
  s.output = stuff true text ∧ s.endedWithNewline = lineStart true text

theorem stuff_false {l : AnsiString} (hl : LF ∉ l) : stuff false l = l := by
  induction l with
  | nil => rfl
  | cons c l ih =>
    rw [List.mem_cons, not_or] at hl
    have hc : (c == LF) = false := by
      rw [beq_eq_false_iff_ne]
      exact Ne.symm hl.1
    rw [stuff, Bool.and_false, if_neg Bool.false_ne_true, hc, ih hl.2]

/-- A line has its dot where a stuffed text has it. -/
theorem stuff_line {line : AnsiString} (h : lines LF line = [line]) : stuff true line = dotted line := by
  have hplain : ∀ l : AnsiString, LF ∉ l → stuff true l = dotted l := by
    intro l hl
    cases l with
    | nil => rfl
    | cons c l =>
      rw [List.mem_cons, not_or] at hl
      have hc : (c == LF) = false := by
        rw [beq_eq_false_iff_ne]
        exact Ne.symm hl.1
      rw [stuff, Bool.and_true, hc, stuff_false hl.2, dotted, List.head?_cons]
      by_cases hdot : c = DOT
      · rw [if_pos (by rw [hdot]; rfl), if_pos (by rw [hdot])]
      · rw [if_neg (by rwa [beq_iff_eq]), if_neg fun heq => hdot (Option.some.inj heq)]
  induction line using lines_induction LF with
  | hnil => cases h
  | hlast l hne hl => exact hplain l hl
  | hline l s hl _ =>
    rw [lines_append_sep hl] at h
    have hs : s = [] := lines_eq_nil_iff.1 (List.cons.inj h).2
    rw [hs, stuff_append, hplain l hl]
    cases l with
    | nil => rfl
    | cons c l =>
      rw [dotted, dotted, List.head?_cons, List.cons_append, List.head?_cons]
      split <;> rfl

theorem Sent.put {s : SendFileHeader} {text line : AnsiString} (h : Sent s text) (hstart : lineStart true text = true)
    (hline : lines LF line = [line]) : Sent (s.put (dotted line)) (text ++ line) := by
  have hne : line ≠ [] := by
    rintro rfl
    exact absurd hline nofun
  constructor
  · rw [stuff_append, hstart, stuff_line hline, ← h.1]
    rfl
  · have hlast : (dotted line).getLast? = line.getLast? := by
      rw [dotted]
      split
      · exact List.getLast?_cons_of_ne_nil hne
      · rfl
    rw [lineStart_append, hstart, lineStart_true_eq]
    change decide ((dotted line).getLast? = some LF) = _
    rw [hlast]
    simp only [hne, false_or]

/-- The lines that are still to be sent. -/
def toSend (n : Nat) (s : SendFileHeader) (ls : List AnsiString) : List AnsiString :=
  if s.headerSent then ls.take (n - s.currentBodyLineCount) else previewLines n ls

/-- The count is behind the header, and not yet full. -/
def Counting (n : Nat) (s : SendFileHeader) : Prop :=
  if s.headerSent then n = 0 ∨ s.currentBodyLineCount < n else s.currentBodyLineCount = 0

theorem dotted_eq_crlf_iff (line : AnsiString) : dotted line = crlf ↔ line = crlf := by
  rw [dotted]
  split
  · rename_i hdot
    refine iff_of_false (fun h => absurd (List.cons.inj h).1 (by decide)) fun h => ?_
    rw [h] at hdot
    exact absurd hdot (by decide)
  · exact Iff.rfl

theorem toSend_nil (n : Nat) (s : SendFileHeader) : toSend n s [] = [] := by
  rw [toSend]
  split
  · exact List.take_nil
  · rfl

/-- The loop sends the lines that are to be sent, when it reads them whole. -/
theorem sendFileHeaderFrom_sent (n fuel : Nat) :
    ∀ (s : SendFileHeader) (text file : AnsiString), file.length ≤ fuel → Sent s text → Counting n s →
      (lineStart true text = true ∨ file = []) →
      (∀ line ∈ toSend n s (lines LF file), line.length ≤ lineRoom ∧ 0 ∉ line) →
      Sent (sendFileHeaderFrom n fuel s file) (text ++ (toSend n s (lines LF file)).flatten) := by
  induction fuel with
  | zero =>
    intro s text file hfuel hsent _ _ _
    have hfile : file = [] := List.length_eq_zero_iff.1 (Nat.le_zero.1 hfuel)
    rw [hfile, lines_nil, toSend_nil, List.flatten_nil, List.append_nil]
    exact hsent
  | succ fuel ih =>
    intro s text file hfuel hsent hcounting hstart hfits
    cases hlines : lines LF file with
    | nil =>
      rw [lines_eq_nil_iff.1 hlines, toSend_nil, List.flatten_nil, List.append_nil]
      exact hsent
    | cons line ls =>
      have hne : file ≠ [] := by
        rintro rfl
        exact absurd hlines nofun
      have hbegin := hstart.resolve_right hne
      rw [hlines] at hfits
      rw [toSend] at hfits ⊢
      rw [Counting] at hcounting
      -- What a line that is read leaves to the rest of the loop.
      have hnext : ∀ t : SendFileHeader, Sent t (text ++ line) → Counting n t → line.length ≤ lineRoom ∧ 0 ∉ line →
          (∀ k ∈ toSend n t ls, k.length ≤ lineRoom ∧ 0 ∉ k) →
          ∃ rest, readLine file = some (line, rest) ∧
            Sent (sendFileHeaderFrom n fuel t rest) (text ++ (line ++ (toSend n t ls).flatten)) := by
        intro t ht hcount hfit hrest
        obtain ⟨rest, hread, hls, hless, hline, hend⟩ := readLine_cons hlines hfit.1 hfit.2
        refine ⟨rest, hread, ?_⟩
        rw [← List.append_assoc, ← hls]
        apply ih t _ rest (by omega) ht hcount
        · apply hend.imp_left
          intro hlast
          rw [lineStart_append, hbegin, lineStart_true_eq, hlast]
          exact decide_eq_true (.inr rfl)
        · rwa [hls]
      have hput : lines LF line = [line] := lines_of_mem (s := file) (hlines ▸ List.mem_cons_self)
      by_cases hheader : s.headerSent = true
      · rw [if_pos hheader] at hcounting hfits
        rw [if_pos hheader]
        by_cases hn : n = 0
        · have hread : readLine file = some _ := if_neg hne
          rw [sendFileHeaderFrom, hread, hn, Nat.zero_sub, List.take_zero, List.flatten_nil, List.append_nil]
          simp only
          rw [if_pos hheader, if_pos (by simp)]
          exact hsent
        · have hless := hcounting.resolve_left hn
          obtain ⟨k, hk⟩ := Nat.exists_eq_add_of_lt hless
          have htake : n - s.currentBodyLineCount = k + 1 := by omega
          rw [htake, List.take_succ_cons] at hfits
          rw [htake, List.take_succ_cons, List.flatten_cons]
          let t : SendFileHeader := { s.put (dotted line) with currentBodyLineCount := s.currentBodyLineCount + 1 }
          have hfit := hfits line List.mem_cons_self
          have ht : Sent t (text ++ line) := hsent.put hbegin hput
          by_cases hlast : s.currentBodyLineCount + 1 = n
          · -- The last line that was asked for.
            obtain ⟨rest, hread, -⟩ := readLine_cons hlines hfit.1 hfit.2
            have hk0 : k = 0 := by omega
            rw [sendFileHeaderFrom, hread]
            simp only
            rw [if_pos hheader, if_neg (by omega), if_pos (by exact_mod_cast hlast), hk0, List.take_zero, List.flatten_nil,
              List.append_nil]
            exact ht
          · have hsend : toSend n t ls = ls.take k := by
              have hcount : n - (s.currentBodyLineCount + 1) = k := by omega
              rw [toSend, if_pos (show t.headerSent = true from hheader)]
              exact congrArg (fun k => ls.take k) hcount
            have hcount : Counting n t := by
              rw [Counting, if_pos (show t.headerSent = true from hheader)]
              exact .inr (lt_of_le_of_ne hless hlast)
            obtain ⟨rest, hread, hrest⟩ := hnext t ht hcount hfit fun k hk =>
              hfits k (List.mem_cons_of_mem _ (hsend ▸ hk))
            rw [hsend] at hrest
            rw [sendFileHeaderFrom, hread]
            simp only
            rw [if_pos hheader, if_neg (by omega), if_neg (by exact_mod_cast hlast)]
            exact hrest
      · rw [if_neg hheader] at hcounting hfits
        rw [if_neg hheader]
        let t : SendFileHeader := { s.put (dotted line) with headerSent := dotted line = crlf }
        have ht : Sent t (text ++ line) := hsent.put hbegin hput
        have hflag : t.headerSent = decide (line = crlf) := decide_eq_decide.2 (dotted_eq_crlf_iff line)
        have hsend : previewLines n (line :: ls) = line :: toSend n t ls := by
          rw [previewLines, toSend, hflag]
          by_cases hempty : line = crlf
          · have hcount : t.currentBodyLineCount = 0 := hcounting
            rw [if_pos hempty, decide_eq_true hempty, if_pos rfl, hcount, Nat.sub_zero]
          · rw [if_neg hempty, decide_eq_false hempty, if_neg Bool.false_ne_true]
        have hcount : Counting n t := by
          rw [Counting]
          split
          · exact (Nat.eq_zero_or_pos n).imp id fun hpos => hcounting ▸ hpos
          · exact hcounting
        rw [hsend] at hfits
        obtain ⟨rest, hread, hrest⟩ := hnext t ht hcount (hfits line List.mem_cons_self) fun k hk =>
          hfits k (List.mem_cons_of_mem _ hk)
        rw [hsend, List.flatten_cons, sendFileHeaderFrom, hread]
        simp only
        rw [if_neg hheader]
        exact hrest

/-- The header block, the empty line and the first `n` lines of a message. -/
def preview (n : Nat) (file : AnsiString) : AnsiString := (previewLines n (lines LF file)).flatten

/-- When its reader gets its lines whole, TOP sends them stuffed, closed by a line
    break. -/
theorem topLinesSent_eq {n : Nat} {file : AnsiString}
    (hfits : ∀ line ∈ previewLines n (lines LF file), line.length ≤ lineRoom ∧ 0 ∉ line) :
    topLinesSent n file = stuff true (closed (preview n file)) ++ lastLine := by
  have hsent := sendFileHeaderFrom_sent n file.length {} [] file (Nat.le_refl _) ⟨rfl, rfl⟩ rfl (.inl rfl) hfits
  obtain ⟨houtput, hended⟩ := hsent
  rw [topLinesSent, sendFileHeader, houtput, hended, stuff_closed]
  rfl

/-! ## What TOP never sends -/

theorem cstr_notMem (s : AnsiString) : 0 ∉ cstr s := by
  intro h
  exact absurd (List.mem_takeWhile_imp h) (by decide)

theorem dotted_notMem {line : AnsiString} (h : 0 ∉ line) : 0 ∉ dotted line := by
  rw [dotted]
  split
  · rw [List.mem_cons, not_or]
    exact ⟨by decide, h⟩
  · exact h

theorem sendFileHeaderFrom_notMem (noOfLines : Int) (fuel : Nat) :
    ∀ (s : SendFileHeader) (file : AnsiString), 0 ∉ s.output → 0 ∉ (sendFileHeaderFrom noOfLines fuel s file).output := by
  induction fuel with
  | zero => exact fun s file h => h
  | succ fuel ih =>
    intro s file h
    rw [sendFileHeaderFrom]
    split
    · exact h
    · rename_i line rest hread
      have hline : 0 ∉ line := by
        rw [readLine] at hread
        split at hread
        · exact absurd hread nofun
        · cases hread
          exact cstr_notMem _
      have hput : 0 ∉ (s.put (dotted line)).output := by
        rw [SendFileHeader.put, List.mem_append, not_or]
        exact ⟨h, dotted_notMem hline⟩
      simp only
      split
      · split
        · exact h
        · split
          · exact hput
          · exact ih _ _ hput
      · exact ih _ _ hput

theorem topLinesSent_notMem (noOfLines : Int) (file : AnsiString) : 0 ∉ topLinesSent noOfLines file := by
  have houtput := sendFileHeaderFrom_notMem noOfLines file.length {} file List.not_mem_nil
  rw [topLinesSent, sendFileHeader, List.mem_append, List.mem_append, not_or, not_or]
  refine ⟨⟨houtput, ?_⟩, by decide⟩
  split
  · exact List.not_mem_nil
  · decide

theorem mem_of_mem_unstuff {c : Byte} {bol : Bool} {s : AnsiString} (h : c ∈ unstuff bol s) : c ∈ s := by
  induction s generalizing bol with
  | nil => exact h
  | cons d s ih =>
    rw [unstuff] at h
    split at h
    · exact List.mem_cons_of_mem _ (ih h)
    · rcases List.mem_cons.1 h with h | h
      · exact h ▸ List.mem_cons_self
      · exact List.mem_cons_of_mem _ (ih h)

theorem mem_closed {c : Byte} {file : AnsiString} (h : c ∈ file) : c ∈ closed file := by
  rw [closed]
  split
  · exact h
  · exact List.mem_append_left _ h

/-! ## Both -/

/-- The status line of RETR and TOP. -/
def statusLine (message : Message) : AnsiString := ansi "+OK " ++ formatNat message.size ++ ansi " octets"

theorem statusLine_notMem (message : Message) : DOT ∉ statusLine message := by
  have hdigits : DOT ∉ formatNat message.size := fun h => absurd (formatNat_isDigit _ _ h) (by decide)
  rw [statusLine, List.mem_append, List.mem_append, not_or, not_or]
  exact ⟨⟨by decide, hdigits⟩, by decide⟩

/-- What a preview demands of the message: no NUL, and no bare line feed at the
    end of the message or of the preview. -/
theorem Preview.needs {n : Nat} {file : AnsiString}
    (h : Preview n (stuff true (closed file) ++ lastLine) (topLinesSent n file)) :
    0 ∉ preview n file ∧ ¬BareEnd file ∧ ¬BareEnd (preview n file) := by
  obtain ⟨hlines, hretr, htop⟩ := h
  have hreceived : received (topLinesSent n file) = closed (preview n file) := by
    rw [received_stuffed, (lines_closed file).1 n] at hlines
    rw [← flatten_lines LF (received _), hlines, flatten_lines]
    rfl
  refine ⟨fun hnul => ?_, ?_, fun hbare => ?_⟩
  · have hmem := mem_closed hnul
    rw [← hreceived] at hmem
    exact topLinesSent_notMem n file (List.mem_of_mem_take (mem_of_mem_unstuff hmem))
  · rw [← closed_iff_not_bareEnd]
    exact (terminated_stuffed_iff _).1 hretr
  · have hclosed : closed (preview n file) = preview n file := if_pos (.inr hbare.1)
    obtain ⟨text, htext, hend⟩ := closed_of_terminatorAt htop.1.1
    rw [hclosed, received, htext, take_response] at hreceived
    rw [← hreceived] at hbare
    rcases hend with rfl | hend
    · exact absurd hbare.1 nofun
    · exact hbare.2 (crlf_suffix_unstuff hend)

end HMailServer.Pop3
