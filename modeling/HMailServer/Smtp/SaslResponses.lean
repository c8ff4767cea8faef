import HMailServer.Smtp.Connection.SaslState
import HMailServer.Util.SaslText

/- Which lines of a session are taken as SASL responses. `InternalParseData` looks
   at the first word of every line before it looks at the state, so a response
   that reads as HELP, EHLO, HELO, QUIT, NOOP or RSET in some letter case is
   executed as that command. -/
namespace HMailServer.Smtp
open RecipientParser

variable {W : Type} (srv : Server W)

/-- The server decodes SASL responses with these conversions. -/
structure Server.ReadsAscii (conv : Conversions) : Prop where
  keepAscii : conv.KeepAscii
  toWide : srv.toWide = conv.toWide
  base64Decode : srv.base64Decode = StringParser.base64Decode conv
  decodeSaslPlain : srv.decodeSaslPlain = StringParser.decodeSaslPlain conv
  upper : UpperAscii srv.loc

/-- The commands of the first switch of `InternalParseData`. -/
def CommandType.isCommon : CommandType → Bool
  | .help | .ehlo | .helo | .quit | .noop | .rset => true
  | _ => false

def commonVerbs : List String := ["HELP", "EHLO", "HELO", "QUIT", "NOOP", "RSET"]

/-- A line that reads as one of them. -/
def ReadsAsCommon (line : AnsiString) : Prop := AnsiString.makeUpper line ∈ commonVerbs.map ansi

/-- What `InternalParseData` does with a line. -/
inductive Execution where
  | tooLong
  /-- As a PROXY header nobody may send. -/
  | dropped
  | command (type : CommandType)
  | response
  deriving DecidableEq

/-! ## The dispatcher -/

def firstWord (line : AnsiString) : WString :=
  WString.makeUpper srv.loc (srv.toWide ((Cut.cut 32 line).elim line Prod.fst))

namespace SMTPConnection

def execution (s : SMTPConnection W) (line : AnsiString) : Execution :=
  if Connection.maxLineLength s.state line < line.length then .tooLong
  else if firstWord srv line = wide "PROXY" ∧ srv.proxyProtocolEnabled s.world = true then .dropped
  else if (getCommandType (firstWord srv line)).isCommon || !Connection.awaitsSasl s.state then
    .command (getCommandType (firstWord srv line))
  else .response

theorem dispatch_response {s : SMTPConnection W} {type : CommandType}
    (h : ¬(type.isCommon || !Connection.awaitsSasl s.state) = true) (request : WString) :
    s.dispatch srv type request = s.withConnection (s.saslResponse srv request) := by
  rw [Bool.or_eq_true, not_or, Bool.not_eq_true, Bool.not_eq_true, Bool.not_eq_false'] at h
  obtain ⟨hcommon, hawaits⟩ := h
  have hnone : s.commonCommand srv type request = none := by
    cases type <;> first | rfl | cases hcommon
  unfold dispatch
  rw [hnone]
  dsimp only
  split
  · rename_i hstate
    rw [hstate] at hawaits
    cases hawaits
  · rename_i hstate
    rw [hstate] at hawaits
    cases hawaits
  · rfl

/-- The line is handed to what its execution says. -/
theorem internalParseData_execution (s : SMTPConnection W) (line : AnsiString) :
    s.internalParseData srv line = match s.execution srv line with
      | .tooLong => s.withConnection (s.sendResponse 500 "5.5.2" (wide "Line too long."))
      | .dropped => s.withConnection s.disconnect
      | .command type => s.dispatch srv type (srv.toWide line)
      | .response => s.withConnection (s.saslResponse srv (srv.toWide line)) := by
  unfold internalParseData execution
  rw [← firstWord]
  by_cases hlong : Connection.maxLineLength s.state line < line.length
  · rw [if_pos hlong, if_pos hlong]
  · rw [if_neg hlong, if_neg hlong]
    by_cases hproxy : firstWord srv line = wide "PROXY" ∧ srv.proxyProtocolEnabled s.world = true
    · rw [if_pos hproxy, if_pos hproxy]
    · rw [if_neg hproxy, if_neg hproxy]
      generalize getCommandType (firstWord srv line) = type
      by_cases hcommand : (type.isCommon || !Connection.awaitsSasl s.state) = true
      · rw [if_pos hcommand]
      · rw [if_neg hcommand]
        exact dispatch_response srv hcommand (srv.toWide line)

theorem isCommon_getCommandType (word : WString) :
    (getCommandType word).isCommon = true ↔ word ∈ commonVerbs.map wide := by
  constructor
  · intro hcommon
    by_contra hword
    simp only [commonVerbs, List.map_cons, List.map_nil, List.mem_cons, List.not_mem_nil, or_false, not_or] at hword
    obtain ⟨hhelp, hehlo, hhelo, hquit, hnoop, hrset⟩ := hword
    simp only [getCommandType, if_neg hhelp, if_neg hehlo, if_neg hhelo, if_neg hquit, if_neg hnoop, if_neg hrset,
      apply_ite CommandType.isCommon] at hcommon
    simp only [CommandType.isCommon, ite_self, Bool.false_eq_true] at hcommon
  · have hverbs : ∀ verb ∈ commonVerbs.map wide, (getCommandType verb).isCommon = true := by decide
    exact hverbs word

end SMTPConnection

/-! ## Lines in ASCII -/

section
variable {srv} {conv : Conversions} (hsrv : srv.ReadsAscii conv)

include hsrv

theorem firstWord_eq {line : AnsiString} (hline : IsAscii line) :
    firstWord srv line = sameCharacters (AnsiString.makeUpper ((Cut.cut 32 line).elim line Prod.fst)) := by
  have hword : IsAscii ((Cut.cut 32 line).elim line Prod.fst) := by
    cases hcut : Cut.cut 32 line with
    | none => exact hline
    | some parts =>
      obtain ⟨hjoin, _⟩ := Cut.eq_of_cut hcut
      intro c hc
      exact hline c (by rw [hjoin]; exact List.mem_append_left _ hc)
  rw [firstWord, hsrv.toWide, hsrv.keepAscii.toWide _ hword, makeUpper_sameCharacters hsrv.upper hword]

theorem firstWord_whole {line : AnsiString} (hline : IsAscii line) (hspace : 32 ∉ line) :
    firstWord srv line = sameCharacters (AnsiString.makeUpper line) := by
  rw [firstWord_eq hsrv hline, Cut.cut_eq_none hspace]
  rfl

theorem isCommon_iff {line : AnsiString} (hline : IsAscii line) (hspace : 32 ∉ line) :
    (getCommandType (firstWord srv line)).isCommon = true ↔ ReadsAsCommon line := by
  have hverbs : commonVerbs.map wide = (commonVerbs.map ansi).map sameCharacters := by decide
  rw [SMTPConnection.isCommon_getCommandType, firstWord_whole hsrv hline hspace, hverbs, ReadsAsCommon,
    List.mem_map_of_injective sameCharacters_injective]

theorem isProxy_iff {line : AnsiString} (hline : IsAscii line) (hspace : 32 ∉ line) :
    firstWord srv line = wide "PROXY" ↔ AnsiString.makeUpper line = ansi "PROXY" := by
  have hproxy : wide "PROXY" = sameCharacters (ansi "PROXY") := by decide
  rw [firstWord_whole hsrv hline hspace, hproxy, sameCharacters_injective.eq_iff]

/-- What becomes of a line of base64 characters where a response is awaited. -/
theorem execution_base64 {s : SMTPConnection W} (hawaits : Connection.awaitsSasl s.state = true) {line : AnsiString}
    (hline : ∀ c ∈ line, MimeCodeBase64.isBase64 c = true) :
    s.execution srv line =
      if 12288 < line.length then .tooLong
      else if AnsiString.makeUpper line = ansi "PROXY" ∧ srv.proxyProtocolEnabled s.world = true then .dropped
      else if (getCommandType (firstWord srv line)).isCommon = true then .command (getCommandType (firstWord srv line))
      else .response := by
  have hascii := isAscii_of_isBase64 hline
  have hspace := notMem_of_isBase64 hline
  have hlimit : Connection.maxLineLength s.state line = 12288 := if_pos (by rw [hawaits]; rfl)
  rw [SMTPConnection.execution, hlimit, hawaits, Bool.not_true, Bool.or_false]
  simp only [isProxy_iff hsrv hascii hspace]

/-- No command is executed unless the line reads as one. -/
theorem base64_not_executed_iff {s : SMTPConnection W} (hawaits : Connection.awaitsSasl s.state = true) {line : AnsiString}
    (hline : ∀ c ∈ line, MimeCodeBase64.isBase64 c = true) :
    (s.execution srv line ≠ .dropped ∧ ∀ type, s.execution srv line ≠ .command type) ↔
      ¬ReadsAsCommon line ∧ ¬(AnsiString.makeUpper line = ansi "PROXY" ∧ srv.proxyProtocolEnabled s.world = true) := by
  have hlength : ∀ verb : String, 12288 < line.length → (ansi verb).length ≤ 12288 → AnsiString.makeUpper line ≠ ansi verb := by
    intro verb hlong hverb hsame
    have hlengths := congrArg List.length hsame
    rw [AnsiString.makeUpper, List.length_map] at hlengths
    omega
  have hcommon := isCommon_iff hsrv (isAscii_of_isBase64 hline) (notMem_of_isBase64 hline)
  rw [execution_base64 hsrv hawaits hline]
  split_ifs with hlong hproxy hverb
  · refine iff_of_true ⟨by simp, by simp⟩ ⟨?_, fun h => hlength "PROXY" hlong (by decide) h.1⟩
    intro hread
    obtain ⟨verb, hverb, hsame⟩ := List.mem_map.1 hread
    have hshort : ∀ verb ∈ commonVerbs, (ansi verb).length ≤ 12288 := by decide
    exact hlength verb hlong (hshort verb hverb) hsame.symm
  · exact iff_of_false (fun h => h.1 rfl) fun h => h.2 hproxy
  · exact iff_of_false (fun h => h.2 _ rfl) fun h => h.1 (hcommon.1 hverb)
  · exact iff_of_true ⟨by simp, by simp⟩ ⟨fun h => hverb (hcommon.2 h), hproxy⟩

/-- Base64 of a text is a whole number of groups, which PROXY is not. -/
theorem execution_encoded_iff {s : SMTPConnection W} (hawaits : Connection.awaitsSasl s.state = true)
    (text : AnsiString) :
    s.execution srv (MimeCodeBase64.encode false text) = .response ↔
      (MimeCodeBase64.encode false text).length ≤ 12288 ∧ ¬ReadsAsCommon (MimeCodeBase64.encode false text) := by
  have hline := MimeCodeBase64.isBase64_encode text
  have hcommon := isCommon_iff hsrv (isAscii_of_isBase64 hline) (notMem_of_isBase64 hline)
  have hproxy : AnsiString.makeUpper (MimeCodeBase64.encode false text) ≠ ansi "PROXY" := by
    intro hsame
    have hlengths := congrArg List.length hsame
    have hfive : (ansi "PROXY").length = 5 := by decide
    rw [AnsiString.makeUpper, List.length_map, MimeCodeBase64.length_encode, hfive] at hlengths
    omega
  rw [execution_base64 hsrv hawaits hline, if_neg (c := _ ∧ _) fun h => hproxy h.1]
  split_ifs with hlong hverb
  · exact iff_of_false (by simp) fun h => absurd h.1 (Nat.not_le.2 hlong)
  · exact iff_of_false (by simp) fun h => h.2 (hcommon.1 hverb)
  · exact iff_of_true rfl ⟨Nat.not_lt.1 hlong, fun h => hverb (hcommon.2 h)⟩

theorem execution_star {s : SMTPConnection W} (hawaits : Connection.awaitsSasl s.state = true) :
    s.execution srv (ansi "*") = .response := by
  have hstar : ansi "*" = [42] := by decide
  have hword : firstWord srv [42] = wide "*" := by
    rw [firstWord_whole hsrv isAscii_star (by decide), wide_star]
    rfl
  have hlimit : Connection.maxLineLength s.state [42] = 12288 := if_pos (by rw [hawaits]; rfl)
  have hother : wide "*" ≠ wide "PROXY" ∧ (getCommandType (wide "*")).isCommon = false := by decide
  rw [hstar, SMTPConnection.execution, hlimit, if_neg (by decide), hword, if_neg fun h => hother.1 h.1, hother.2, hawaits]
  rfl

end

/-! ## The line that cancels -/

namespace Connection

/-- The exchange is over, and nobody is logged on. -/
def Ended (c : Connection W) : Prop :=
  (awaitsSasl c.state = false ∨ c.reading = .closed) ∧ c.isAuthenticated = false

/-- Where a star ends the exchange: not where a name is awaited, which it is taken
    for, nor where it is taken for the empty password of an account that has it, nor
    as the empty response behind an exchange that has succeeded. -/
def StarHeeded (c : Connection W) : Prop :=
  match c.state with
  | .smtpUsername => c.requestedAuthenticationType ≠ .login
  | .smtpUpassword => (srv.logon c.remoteAddress c.username [] c.world).1 ≠ (true, false)
  | .smtpScramAck => (c.scramSession.map ScramSession.hasAccount).getD false = false
  | _ => True

variable {c c' : Connection W}

theorem Answered.isAuthenticated (h : Answered c c') : c'.isAuthenticated = c.isAuthenticated := by
  cases h <;> rfl

theorem Answered.ended (h : Answered c c') (hstate : awaitsSasl c.state = false) (hauth : c.isAuthenticated = false) :
    Ended c' := ⟨.inl (by rw [h.state, hstate]), h.isAuthenticated.trans hauth⟩

theorem ended_tooManyLogons (hauth : c.isAuthenticated = false) : Ended (c.tooManyLogons srv) :=
  ⟨.inr rfl, (answered_tooManyLogons srv c).isAuthenticated.trans hauth⟩

theorem ended_restartAuthentication (c : Connection W) : Ended (c.restartAuthentication srv) :=
  (answered_sendErrorResponse srv c.resetLoginCredentials _ _).ended rfl rfl

theorem ended_cancelled (c : Connection W) : Ended (c.cancelled srv) :=
  (answered_sendErrorResponse srv c.resetLoginCredentials _ _).ended rfl rfl

theorem ended_scramStopped (hauth : c.isAuthenticated = false) (text : String) : Ended (c.scramStopped srv text) :=
  ⟨.inl rfl, (answered_sendErrorResponse srv { c with scramSession := none } 501 (wide text)).isAuthenticated.trans hauth⟩

theorem ended_scramAuthFailed (hauth : c.isAuthenticated = false) : Ended (c.scramAuthFailed srv) := by
  unfold scramAuthFailed
  dsimp only
  split
  · exact ended_tooManyLogons srv hauth
  · exact ⟨.inl rfl, (answered_sendErrorResponse srv _ 535 (wide "Authentication failed.")).isAuthenticated.trans hauth⟩

theorem ended_logonRefused (hauth : c.isAuthenticated = false) (register : W → Bool × W) :
    Ended (c.logonRefused srv register) := by
  unfold logonRefused
  dsimp only
  split
  · exact ended_tooManyLogons srv hauth
  · exact ended_restartAuthentication srv _

/-- A logon ends the exchange, unless it succeeds. -/
theorem ended_authenticate_iff (hauth : c.isAuthenticated = false) :
    Ended (c.authenticate srv) ↔ (srv.logon c.remoteAddress c.username c.password c.world).1 ≠ (true, false) := by
  unfold authenticate
  dsimp only
  generalize srv.logon c.remoteAddress c.username c.password c.world = r
  obtain ⟨⟨accepted, disconnect⟩, w⟩ := r
  cases disconnect with
  | true => exact iff_of_true (ended_tooManyLogons srv hauth) nofun
  | false =>
    cases accepted with
    | true => exact iff_of_false (fun h => absurd (show true = false from h.2) (by decide)) fun h => h rfl
    | false => exact iff_of_true (ended_logonRefused srv rfl _) nofun

theorem ended_finishScramAuth_iff (hauth : c.isAuthenticated = false) :
    Ended (c.finishScramAuth srv) ↔ (c.scramSession.map ScramSession.hasAccount).getD false = false := by
  unfold finishScramAuth
  dsimp only
  generalize (c.scramSession.map ScramSession.hasAccount).getD false = hasAccount
  cases hasAccount with
  | true => exact iff_of_false (fun h => absurd (show true = false from h.2) (by decide)) (by decide)
  | false => exact iff_of_true (ended_scramAuthFailed srv hauth) rfl

theorem protocolPassword_login (h : c.requestedAuthenticationType = .login) (request : WString) :
    c.protocolPassword srv request = { c with password := srv.base64Decode request }.authenticate srv := by
  cases c
  dsimp only at h
  subst h
  rfl

theorem ended_star_iff {conv : Conversions} (hsrv : srv.ReadsAscii conv) (h : Pending c)
    (hawaits : awaitsSasl c.state = true) (hopen : c.reading ≠ .closed) :
    Ended (c.saslResponse srv (wide "*")) ↔ StarHeeded srv c := by
  have hauth := h.unauthenticated hawaits
  unfold saslResponse StarHeeded
  cases hstate : c.state with
  | smtpUsername =>
    dsimp only
    by_cases htype : c.requestedAuthenticationType = .login
    · rw [if_pos htype]
      refine iff_of_false (fun hended => ?_) fun hother => hother htype
      rcases hended.1 with hstate | hclosed
      · cases hstate
      · exact hopen hclosed
    · rw [if_neg htype]
      refine iff_of_true ?_ htype
      unfold authenticateUsingPLAIN
      dsimp only
      rw [hsrv.decodeSaslPlain, StringParser.decodeSaslPlain_star hsrv.keepAscii]
      exact ended_restartAuthentication srv c
  | smtpUpassword =>
    dsimp only
    rw [protocolPassword_login srv (h.login hstate), hsrv.base64Decode, StringParser.base64Decode_star hsrv.keepAscii]
    exact ended_authenticate_iff srv (c := { c with password := [] }) hauth
  | smtpScramFirst => exact iff_of_true (by rw [protocolScramClientFirst, if_pos rfl]; exact ended_scramStopped srv hauth _) trivial
  | smtpScramFinal => exact iff_of_true (by rw [protocolScramClientFinal, if_pos rfl]; exact ended_scramStopped srv hauth _) trivial
  | smtpScramAck => exact ended_finishScramAuth_iff srv hauth
  | smtpBearerResponse => exact iff_of_true (by rw [authenticateUsingBearer, if_pos rfl]; exact ended_cancelled srv c) trivial
  | smtpExternalResponse => exact iff_of_true (by rw [authenticateUsingExternal, if_pos rfl]; exact ended_cancelled srv c) trivial
  | smtpGssapiResponse => exact iff_of_true (by rw [protocolGssapiToken, if_pos rfl]; exact ended_cancelled srv _) trivial
  | initial => rw [hstate] at hawaits; cases hawaits
  | header => rw [hstate] at hawaits; cases hawaits
  | data => rw [hstate] at hawaits; cases hawaits
  | startTls => rw [hstate] at hawaits; cases hawaits
  | bdatData => rw [hstate] at hawaits; cases hawaits

end Connection
end HMailServer.Smtp
