import HMailServer.Smtp.SaslResponses
import HMailServer.Smtp.Connection.SubmissionServer

/- A whole AUTH LOGIN or AUTH PLAIN exchange, from its command to `Authenticate_`,
   with the rest of the server moving between its lines. -/
namespace HMailServer.Smtp
open RecipientParser

variable {W : Type} (srv : Server W)

/-- A base64 text, without line breaks. -/
def encoded (text : AnsiString) : AnsiString := MimeCodeBase64.encode false text

inductive PasswordMechanism where
  | login
  | plain (authzid : AnsiString)

namespace PasswordMechanism

def name : PasswordMechanism → String
  | .login => "LOGIN"
  | .plain _ => "PLAIN"

def type : PasswordMechanism → AuthenticationType
  | .login => .login
  | .plain _ => .plain

theorem name_mem (mechanism : PasswordMechanism) : mechanism.name ∈ ["LOGIN", "PLAIN"] := by
  cases mechanism <;> simp [name]

end PasswordMechanism

/-- What a client wants to log on with, and how it writes the command. -/
structure Exchange where
  mechanism : PasswordMechanism
  verb : AnsiString
  mechanismName : AnsiString
  initialResponse : Bool
  name : AnsiString
  password : AnsiString
  verb_upper : AnsiString.makeUpper verb = ansi "AUTH"
  mechanismName_upper : AnsiString.makeUpper mechanismName = ansi mechanism.name
  name_ascii : IsAscii name
  password_ascii : IsAscii password
  authzid_ascii : ∀ authzid, mechanism = .plain authzid → IsAscii authzid
  name_ne_nil : name ≠ []
  password_ne_nil : password ≠ []

namespace Exchange

def responses (x : Exchange) : List AnsiString :=
  match x.mechanism with
  | .login => [encoded x.name, encoded x.password]
  | .plain authzid => [encoded (authzid ++ 0 :: x.name ++ 0 :: x.password)]

/-- The lines the client sends. -/
def lines (x : Exchange) : List AnsiString :=
  match x.initialResponse, x.responses with
  | true, response :: rest => [32].intercalate [x.verb, x.mechanismName, response] :: rest
  | _, responses => [32].intercalate [x.verb, x.mechanismName] :: responses

/-- The name `Authenticate_` is to be given. -/
def loginName (x : Exchange) : WString :=
  match x.mechanism with
  | .login => sameCharacters x.name
  | .plain _ => (srv.saslPrep (sameCharacters x.name)).getD (sameCharacters x.name)

/-- No line is too long, and no response of its own line reads as a command. -/
structure Unmistaken (x : Exchange) : Prop where
  short : ∀ line ∈ x.lines, line.length ≤ 12288
  noCommand : ∀ line ∈ x.lines.tail, ¬ReadsAsCommon line

end Exchange

/-- The session takes the command of the exchange. -/
structure Admitted (s : SMTPConnection W) (w : W) (x : Exchange) : Prop where
  header : s.state = .header
  startTls : s.startTlsMissing srv = false
  enabled : srv.authIsEnabled w = true
  tls : (s.securityRange.requireTLSForAuth && !s.tls) = false
  unauthenticated : s.isAuthenticated = false
  plain : x.mechanism ≠ .login → srv.authAllowPlainText w = true

namespace SMTPConnection

/-- Lines one after another, each in the world it finds: what each was taken for,
    and the session behind them. -/
def parseLines (s : SMTPConnection W) : List (W × AnsiString) → List Execution × SMTPConnection W
  | [] => ([], s)
  | (w, line) :: rest =>
    let s := { s with world := w }
    let r := parseLines (s.internalParseData srv line) rest
    (s.execution srv line :: r.1, r.2)

/-- The exchange reaches `Authenticate_` with its name and its password, and every
    response was one. -/
def Reaches (s : SMTPConnection W) (x : Exchange) (input : List (W × AnsiString)) : Prop :=
  (s.parseLines srv input).1 = .command .auth :: List.replicate x.lines.tail.length .response ∧
    ∃ world state replies, (s.parseLines srv input).2 = s.withConnection
      ({ s.toConnection with
        world, state, replies
        requestedAuthenticationType := x.mechanism.type
        username := x.loginName srv
        password := sameCharacters x.password }.authenticate srv)

end SMTPConnection

/-! ## The command of the exchange -/

section
variable {srv}

theorem isAscii_of_upper {word : AnsiString} {text : String} (h : AnsiString.makeUpper word = ansi text)
    (htext : ∀ c ∈ ansi text, 65 ≤ c ∧ c ≤ 90) : IsAscii word ∧ 32 ∉ word := by
  have hchar : ∀ c : UInt8, 65 ≤ AnsiString.toUpper c ∧ AnsiString.toUpper c ≤ 90 → (0 < c ∧ c < 128) ∧ c ≠ 32 := by
    decide +kernel
  have hword : ∀ c ∈ word, (0 < c ∧ c < 128) ∧ c ≠ 32 := by
    intro c hc
    apply hchar
    apply htext
    rw [← h]
    exact List.mem_map_of_mem hc
  exact ⟨fun c hc => (hword c hc).1, fun hc => (hword 32 hc).2 rfl⟩

theorem Exchange.verb_ascii (x : Exchange) : IsAscii x.verb ∧ 32 ∉ x.verb :=
  isAscii_of_upper x.verb_upper (by decide +kernel)

theorem Exchange.mechanismName_ascii (x : Exchange) : IsAscii x.mechanismName ∧ 32 ∉ x.mechanismName := by
  have hnames : ∀ name ∈ ["LOGIN", "PLAIN"], ∀ c ∈ ansi name, 65 ≤ c ∧ c ≤ 90 := by
    simp only [List.forall_mem_cons]
    exact ⟨List.all_iff_forall_prop.1 (by decide), List.all_iff_forall_prop.1 (by decide),
      fun _ h => absurd h List.not_mem_nil⟩
  exact isAscii_of_upper x.mechanismName_upper (hnames _ x.mechanism.name_mem)

theorem sameCharacters_intercalate (words : List AnsiString) :
    sameCharacters ([32].intercalate words) = [32].intercalate (words.map sameCharacters) := by
  induction words with
  | nil => rfl
  | cons word words ih =>
    cases words with
    | nil => simp [sameCharacters]
    | cons next words =>
      simp only [List.map_cons, List.intercalate_cons_cons] at ih ⊢
      rw [← ih]
      simp [sameCharacters]

/-- A command line splits into the words it was put together from. -/
theorem splitString_words {words : List AnsiString} (hwords : ∀ word ∈ words, 32 ∉ word) (hne : words ≠ [])
    (hlast : words.getLast? ≠ some []) :
    WString.splitString (sameCharacters ([32].intercalate words)) 32 = words.map sameCharacters := by
  have hspace : ∀ word ∈ words.map sameCharacters, 32 ∉ word := by
    intro word hword hmem
    obtain ⟨narrow, hnarrow, rfl⟩ := List.mem_map.1 hword
    obtain ⟨c, hc, hc32⟩ := List.mem_map.1 hmem
    have h32 : c = 32 := UInt8.toNat_inj.1 hc32
    exact hwords narrow hnarrow (h32 ▸ hc)
  unfold WString.splitString
  rw [sameCharacters_intercalate, List.splitOn_intercalate _ hspace (by simpa using hne)]
  apply if_neg
  intro hnil
  rw [List.getLast?_map, Option.map_eq_some_iff] at hnil
  obtain ⟨last, hl, hempty⟩ := hnil
  rw [sameCharacters_eq_nil.1 hempty] at hl
  exact hlast hl

theorem isAscii_intercalate {words : List AnsiString} (h : ∀ word ∈ words, IsAscii word) :
    IsAscii ([32].intercalate words) := by
  induction words with
  | nil => exact fun c hc => absurd hc List.not_mem_nil
  | cons word words ih =>
    obtain ⟨hword, hwords⟩ := List.forall_mem_cons.1 h
    cases words with
    | nil => simpa using hword
    | cons next words =>
      rw [List.intercalate_cons_cons]
      exact (hword.append (IsAscii.cons (by decide) fun c hc => absurd hc List.not_mem_nil)).append (ih hwords)

theorem encoded_word {text : AnsiString} (hne : text ≠ []) : IsAscii (encoded text) ∧ 32 ∉ encoded text ∧ encoded text ≠ [] := by
  have hbase64 := MimeCodeBase64.isBase64_encode text
  refine ⟨isAscii_of_isBase64 hbase64, notMem_of_isBase64 hbase64, fun hnil => hne ?_⟩
  have hlength := MimeCodeBase64.length_encode text
  rw [← encoded, hnil, List.length_nil] at hlength
  have hempty : text.length = 0 := by omega
  exact List.length_eq_zero_iff.1 hempty

/-- The rest of the command line does not change whose command it is. -/
theorem Exchange.command_eq (x : Exchange) (words : List AnsiString) (hwords : words ≠ []) :
    [32].intercalate (x.verb :: words) = x.verb ++ 32 :: [32].intercalate words := by
  obtain ⟨word, words, rfl⟩ := List.exists_cons_of_ne_nil hwords
  simp [List.intercalate_cons_cons]

variable {conv : Conversions} (hsrv : srv.ReadsAscii conv)

include hsrv

theorem execution_auth (x : Exchange) {s : SMTPConnection W} (hstate : s.state = .header) {words : List AnsiString}
    (hwords : words ≠ []) (hascii : IsAscii ([32].intercalate (x.verb :: words))) :
    s.execution srv ([32].intercalate (x.verb :: words)) =
      if 12288 < ([32].intercalate (x.verb :: words)).length then .tooLong else .command .auth := by
  obtain ⟨_, hspace⟩ := x.verb_ascii
  have hfour : x.verb.length = 4 := by
    have hlength := congrArg List.length x.verb_upper
    have hauth : (ansi "AUTH").length = 4 := by decide
    rwa [AnsiString.makeUpper, List.length_map, hauth] at hlength
  rw [x.command_eq words hwords] at hascii ⊢
  generalize [32].intercalate words = rest at hascii ⊢
  have htake : (x.verb ++ 32 :: rest).take 5 = x.verb ++ [32] := by
    rw [List.take_append, hfour, List.take_of_length_le (by omega)]
    rfl
  have hupper : AnsiString.makeUpper (x.verb ++ [32]) = ansi "AUTH " := by
    have hspaced : ansi "AUTH " = ansi "AUTH" ++ [32] := by decide
    rw [hspaced, ← x.verb_upper]
    simp [AnsiString.makeUpper, AnsiString.toUpper]
  have hlimit : Connection.maxLineLength s.state (x.verb ++ 32 :: rest) = 12288 := by
    unfold Connection.maxLineLength
    rw [htake, hupper, beq_self_eq_true, Bool.or_true]
    rfl
  have hword : firstWord srv (x.verb ++ 32 :: rest) = wide "AUTH" := by
    have hauth : sameCharacters (ansi "AUTH") = wide "AUTH" := by decide
    rw [firstWord_eq hsrv hascii, Cut.cut_append hspace, Option.elim_some, x.verb_upper, hauth]
  have hother : wide "AUTH" ≠ wide "PROXY" ∧ getCommandType (wide "AUTH") = .auth := by decide
  rw [SMTPConnection.execution, hlimit, hword, if_neg (c := _ ∧ _) fun h => hother.1 h.1, hother.2, hstate]
  rfl

end

/-! ## One line of the exchange -/

namespace SMTPConnection

theorem dispatch_auth {s : SMTPConnection W} (hstate : s.state = .header) (request : WString) :
    s.dispatch srv .auth request = s.withConnection (s.protocolAUTH srv request) := by
  unfold dispatch
  dsimp only [Connection.commonCommand]
  split
  · rename_i hinitial
    rw [hstate] at hinitial
    cases hinitial
  · rfl
  · rename_i hother
    exact absurd hstate hother

/-- PLAIN, where it is allowed. -/
theorem selectMechanism_plain {c : Connection W} (hallowed : srv.authAllowPlainText c.world = true)
    (params : List WString) :
    c.selectMechanism srv (wide "PLAIN") params =
      if params.length = 3 then
        { c with requestedAuthenticationType := .plain }.authenticateUsingPLAIN srv ((params[2]?).getD [])
      else
        { ({ c with requestedAuthenticationType := .plain }.enqueueWrite 334 (wide "Log on")) with
          state := .smtpUsername } := by
  have hnames : wide "PLAIN" ≠ wide "LOGIN" := by decide
  unfold Connection.selectMechanism
  rw [if_neg hnames, if_pos ⟨rfl, hallowed⟩]

/-- The session between two lines of the exchange. -/
def awaiting (s : SMTPConnection W) (x : Exchange) (world : W) (state : ConnectionState) (username : WString)
    (replies : List Reply) : SMTPConnection W :=
  s.withConnection { s.toConnection with
    world, state, username, replies
    requestedAuthenticationType := x.mechanism.type }

/-- The session that has reached `Authenticate_`. -/
def reached (s : SMTPConnection W) (x : Exchange) (world : W) (state : ConnectionState) (replies : List Reply) :
    SMTPConnection W :=
  s.withConnection ({ s.toConnection with
    world, state, replies
    requestedAuthenticationType := x.mechanism.type
    username := x.loginName srv
    password := sameCharacters x.password }.authenticate srv)

end SMTPConnection

/-- The lines that are left are responses, and lead to `Authenticate_`. -/
def Completes (s : SMTPConnection W) (x : Exchange) (t : SMTPConnection W) (input : List (W × AnsiString)) : Prop :=
  (t.parseLines srv input).1 = List.replicate input.length .response ∧
    ∃ world state replies, (t.parseLines srv input).2 = s.reached srv x world state replies

section
variable {srv} {conv : Conversions} (hsrv : srv.ReadsAscii conv) {s : SMTPConnection W} {x : Exchange} {w : W}

include hsrv

theorem toWide_encoded (text : AnsiString) : srv.toWide (encoded text) = sameCharacters (encoded text) := by
  rw [hsrv.toWide]
  exact hsrv.keepAscii.toWide _ (isAscii_of_isBase64 (MimeCodeBase64.isBase64_encode text))

/-- The command, once it is taken as AUTH. -/
theorem command_parsed (hadmitted : Admitted srv s w x) (words : List AnsiString)
    (hwords : ∀ word ∈ words, IsAscii word ∧ 32 ∉ word ∧ word ≠ [])
    (hshort : ([32].intercalate (x.verb :: x.mechanismName :: words)).length ≤ 12288) :
    { s with world := w }.execution srv ([32].intercalate (x.verb :: x.mechanismName :: words)) = .command .auth ∧
      { s with world := w }.internalParseData srv ([32].intercalate (x.verb :: x.mechanismName :: words)) =
        s.withConnection ({ s.toConnection with world := w, requestedAuthenticationType := .none }.selectMechanism srv
          (wide x.mechanism.name) ((x.verb :: x.mechanismName :: words).map sameCharacters)) := by
  have hall : ∀ word ∈ x.verb :: x.mechanismName :: words, IsAscii word ∧ 32 ∉ word :=
    List.forall_mem_cons.2 ⟨x.verb_ascii, List.forall_mem_cons.2
      ⟨x.mechanismName_ascii, fun word hword => ⟨(hwords word hword).1, (hwords word hword).2.1⟩⟩⟩
  have hascii := isAscii_intercalate fun word hword => (hall word hword).1
  have hlast : (x.verb :: x.mechanismName :: words).getLast? ≠ some [] := by
    intro hnil
    rw [List.getLast?_cons_cons] at hnil
    rcases List.mem_cons.1 (List.mem_of_getLast? hnil) with hname | hword
    · have hnames : ∀ name ∈ ["LOGIN", "PLAIN"], AnsiString.makeUpper [] ≠ ansi name := by decide
      have hupper := x.mechanismName_upper
      rw [← hname] at hupper
      exact hnames _ x.mechanism.name_mem hupper
    · exact (hwords [] hword).2.2 rfl
  have hsplit := splitString_words (fun word hword => (hall word hword).2) (List.cons_ne_nil _ _) hlast
  have hname : WString.makeUpper srv.loc (sameCharacters x.mechanismName) = wide x.mechanism.name := by
    have hnames : ∀ name ∈ ["LOGIN", "PLAIN"], sameCharacters (ansi name) = wide name := by decide
    rw [makeUpper_sameCharacters hsrv.upper x.mechanismName_ascii.1, x.mechanismName_upper]
    exact hnames _ x.mechanism.name_mem
  have hexecution : { s with world := w }.execution srv ([32].intercalate (x.verb :: x.mechanismName :: words)) =
      .command .auth := by
    rw [execution_auth hsrv x (s := { s with world := w }) hadmitted.header (List.cons_ne_nil _ _) hascii,
      if_neg (Nat.not_lt.2 hshort)]
  refine ⟨hexecution, ?_⟩
  rw [SMTPConnection.internalParseData_execution, hexecution]
  dsimp only
  rw [SMTPConnection.dispatch_auth srv (s := { s with world := w }) hadmitted.header, hsrv.toWide, hsrv.keepAscii.toWide _ hascii]
  have hstartTls : ¬({ s.toConnection with world := w }.startTlsMissing srv) = true := by
    intro hmissing
    exact Bool.false_ne_true (hadmitted.startTls.symm.trans hmissing)
  have hdisabled : ¬(!srv.authIsEnabled w) = true := by rw [hadmitted.enabled]; decide
  have htls : ¬(s.securityRange.requireTLSForAuth && !s.tls) = true := by rw [hadmitted.tls]; decide
  have hauth : ¬s.isAuthenticated = true := by rw [hadmitted.unauthenticated]; decide
  unfold Connection.protocolAUTH
  rw [if_neg hstartTls, if_neg hdisabled, if_neg htls, if_neg hauth]
  dsimp only
  rw [hsplit, if_neg (by simp), List.map_cons, List.map_cons, List.getElem?_cons_succ, List.getElem?_cons_zero,
    Option.getD_some, hname]
  rfl

/-- A response that is taken as one. -/
theorem response_parsed {text : AnsiString} (h : s.execution srv (encoded text) = .response) :
    s.internalParseData srv (encoded text) = s.withConnection (s.saslResponse srv (sameCharacters (encoded text))) := by
  rw [SMTPConnection.internalParseData_execution, h, ← toWide_encoded hsrv]

theorem username_parsed (hlogin : x.mechanism = .login) {username : WString} {replies : List Reply}
    (h : (s.awaiting x w .smtpUsername username replies).execution srv (encoded x.name) = .response) :
    ∃ replies', (s.awaiting x w .smtpUsername username replies).internalParseData srv (encoded x.name) =
      s.awaiting x w .smtpUpassword (x.loginName srv) replies' := by
  have hname := StringParser.base64Decode_encode hsrv.keepAscii x.name_ascii
  have htype : x.mechanism.type = .login := by rw [hlogin]; rfl
  have hlogged : x.loginName srv = sameCharacters x.name := by rw [Exchange.loginName, hlogin]
  rw [response_parsed hsrv h, hlogged, ← hname, ← hsrv.base64Decode]
  have hresponse : (s.awaiting x w .smtpUsername username replies).saslResponse srv (sameCharacters (encoded x.name)) =
      (s.awaiting x w .smtpUsername username replies).protocolUsername srv (sameCharacters (encoded x.name)) :=
    if_pos htype
  rw [hresponse]
  exact ⟨_, rfl⟩

theorem password_parsed (hlogin : x.mechanism = .login) {replies : List Reply}
    (h : (s.awaiting x w .smtpUpassword (x.loginName srv) replies).execution srv (encoded x.password) = .response) :
    (s.awaiting x w .smtpUpassword (x.loginName srv) replies).internalParseData srv (encoded x.password) =
      s.reached srv x w .smtpUpassword replies := by
  have hpassword := StringParser.base64Decode_encode hsrv.keepAscii x.password_ascii
  have htype : x.mechanism.type = .login := by rw [hlogin]; rfl
  have hresponse : (s.awaiting x w .smtpUpassword (x.loginName srv) replies).saslResponse srv
      (sameCharacters (encoded x.password)) = _ :=
    Connection.protocolPassword_login srv htype (sameCharacters (encoded x.password))
  rw [response_parsed hsrv h, hresponse, hsrv.base64Decode, encoded, hpassword]
  rfl

theorem plain_authenticated {authzid : AnsiString} (hplain : x.mechanism = .plain authzid) (c : Connection W) :
    c.authenticateUsingPLAIN srv (sameCharacters (encoded (authzid ++ 0 :: x.name ++ 0 :: x.password))) =
      { c with username := x.loginName srv, password := sameCharacters x.password }.authenticate srv := by
  have hdecoded := StringParser.decodeSaslPlain_encode hsrv.keepAscii (x.authzid_ascii authzid hplain) x.name_ascii
    x.password_ascii
  have hlogged : x.loginName srv =
      (srv.saslPrep (sameCharacters x.name)).getD (sameCharacters x.name) := by rw [Exchange.loginName, hplain]
  unfold Connection.authenticateUsingPLAIN
  rw [hsrv.decodeSaslPlain, encoded, hdecoded, hlogged]
  rfl

theorem plain_parsed {authzid : AnsiString} (hplain : x.mechanism = .plain authzid) {username : WString}
    {replies : List Reply}
    (h : (s.awaiting x w .smtpUsername username replies).execution srv
      (encoded (authzid ++ 0 :: x.name ++ 0 :: x.password)) = .response) :
    (s.awaiting x w .smtpUsername username replies).internalParseData srv
        (encoded (authzid ++ 0 :: x.name ++ 0 :: x.password)) = s.reached srv x w .smtpUsername replies := by
  have htype : x.mechanism.type ≠ .login := by rw [hplain]; exact nofun
  have hresponse : (s.awaiting x w .smtpUsername username replies).saslResponse srv
        (sameCharacters (encoded (authzid ++ 0 :: x.name ++ 0 :: x.password))) =
      (s.awaiting x w .smtpUsername username replies).authenticateUsingPLAIN srv
        (sameCharacters (encoded (authzid ++ 0 :: x.name ++ 0 :: x.password))) := if_neg htype
  rw [response_parsed hsrv h, hresponse, plain_authenticated hsrv hplain]
  rfl

/-- The exchange whose command stands alone, once the command is taken. -/
theorem command_asked (hadmitted : Admitted srv s w x)
    (hshort : ([32].intercalate [x.verb, x.mechanismName]).length ≤ 12288) :
    ∃ replies, { s with world := w }.internalParseData srv ([32].intercalate [x.verb, x.mechanismName]) =
      s.awaiting x w .smtpUsername s.username replies := by
  rw [(command_parsed hsrv hadmitted [] (fun word hword => absurd hword List.not_mem_nil) hshort).2]
  cases hmechanism : x.mechanism with
  | login =>
    unfold SMTPConnection.awaiting
    rw [hmechanism]
    exact ⟨_, rfl⟩
  | plain authzid =>
    have hplain := hadmitted.plain (by rw [hmechanism]; exact nofun)
    unfold SMTPConnection.awaiting
    rw [hmechanism, PasswordMechanism.name, SMTPConnection.selectMechanism_plain srv hplain]
    exact ⟨_, rfl⟩

/-- AUTH LOGIN with the name in the command. -/
theorem login_asked (hlogin : x.mechanism = .login) (hadmitted : Admitted srv s w x)
    (hshort : ([32].intercalate [x.verb, x.mechanismName, encoded x.name]).length ≤ 12288) :
    ∃ replies, { s with world := w }.internalParseData srv ([32].intercalate [x.verb, x.mechanismName, encoded x.name]) =
      s.awaiting x w .smtpUpassword (x.loginName srv) replies := by
  have hname := StringParser.base64Decode_encode hsrv.keepAscii x.name_ascii
  have hlogged : x.loginName srv = sameCharacters x.name := by rw [Exchange.loginName, hlogin]
  rw [(command_parsed hsrv hadmitted [encoded x.name]
    (List.forall_mem_singleton.2 (encoded_word x.name_ne_nil)) hshort).2, hlogged, ← hname, ← hsrv.base64Decode]
  unfold SMTPConnection.awaiting
  rw [hlogin]
  exact ⟨_, rfl⟩

/-- AUTH PLAIN with its message in the command. -/
theorem plain_reached {authzid : AnsiString} (hplain : x.mechanism = .plain authzid) (hadmitted : Admitted srv s w x)
    (hshort : ([32].intercalate [x.verb, x.mechanismName, encoded (authzid ++ 0 :: x.name ++ 0 :: x.password)]).length ≤
      12288) :
    { s with world := w }.internalParseData srv
        ([32].intercalate [x.verb, x.mechanismName, encoded (authzid ++ 0 :: x.name ++ 0 :: x.password)]) =
      s.reached srv x w s.state s.replies := by
  have hallowed := hadmitted.plain (by rw [hplain]; exact nofun)
  have hne : authzid ++ 0 :: x.name ++ 0 :: x.password ≠ [] := by simp
  rw [(command_parsed hsrv hadmitted [encoded (authzid ++ 0 :: x.name ++ 0 :: x.password)]
    (List.forall_mem_singleton.2 (encoded_word hne)) hshort).2]
  unfold SMTPConnection.reached
  have hname : x.mechanism.name = "PLAIN" := by rw [hplain]; rfl
  have htype : x.mechanism.type = .plain := by rw [hplain]; rfl
  rw [hname, htype, SMTPConnection.selectMechanism_plain srv hallowed, if_pos (by simp)]
  exact congrArg s.withConnection (plain_authenticated hsrv hplain _)

/-- A response where one is awaited, in whatever world it arrives. -/
theorem execution_awaiting_iff {state : ConnectionState} (hawaits : Connection.awaitsSasl state = true) (text : AnsiString)
    (username : WString) (replies : List Reply) :
    (s.awaiting x w state username replies).execution srv (encoded text) = .response ↔
      (encoded text).length ≤ 12288 ∧ ¬ReadsAsCommon (encoded text) :=
  execution_encoded_iff hsrv (s := s.awaiting x w state username replies) hawaits text

theorem execution_command_iff (hadmitted : Admitted srv s w x) (words : List AnsiString)
    (hwords : ∀ word ∈ words, IsAscii word ∧ 32 ∉ word ∧ word ≠ []) :
    { s with world := w }.execution srv ([32].intercalate (x.verb :: x.mechanismName :: words)) = .command .auth ↔
      ([32].intercalate (x.verb :: x.mechanismName :: words)).length ≤ 12288 := by
  have hascii : IsAscii ([32].intercalate (x.verb :: x.mechanismName :: words)) := by
    apply isAscii_intercalate
    intro word hword
    rcases List.mem_cons.1 hword with rfl | hword
    · exact x.verb_ascii.1
    · rcases List.mem_cons.1 hword with rfl | hword
      · exact x.mechanismName_ascii.1
      · exact (hwords word hword).1
  rw [execution_auth hsrv x (s := { s with world := w }) hadmitted.header (List.cons_ne_nil _ _) hascii]
  split_ifs with hlong
  · exact iff_of_false nofun (Nat.not_le.2 hlong)
  · exact iff_of_true rfl (Nat.not_lt.1 hlong)

end

/-! ## The whole exchange -/

section
variable {srv} {s : SMTPConnection W} {x : Exchange}

theorem completes_nil (world : W) (state : ConnectionState) (replies : List Reply) :
    Completes srv s x (s.reached srv x world state replies) [] := ⟨rfl, world, state, replies, rfl⟩

theorem completes_cons {t : SMTPConnection W} {w : W} {line : AnsiString} {rest : List (W × AnsiString)} :
    Completes srv s x t ((w, line) :: rest) ↔
      { t with world := w }.execution srv line = .response ∧
        Completes srv s x ({ t with world := w }.internalParseData srv line) rest := by
  simp only [Completes, SMTPConnection.parseLines, List.length_cons, List.replicate_succ, List.cons.injEq, and_assoc]

theorem reaches_cons {w : W} {line : AnsiString} {rest : List (W × AnsiString)} (hrest : rest.length = x.lines.tail.length) :
    s.Reaches srv x ((w, line) :: rest) ↔
      { s with world := w }.execution srv line = .command .auth ∧
        Completes srv s x ({ s with world := w }.internalParseData srv line) rest := by
  simp only [SMTPConnection.Reaches, Completes, SMTPConnection.parseLines, List.cons.injEq, and_assoc, hrest]
  rfl

variable {conv : Conversions} (hsrv : srv.ReadsAscii conv)

include hsrv

/-- The response that gives the password. -/
theorem completes_password (hlogin : x.mechanism = .login) (w w' : W) (replies : List Reply) :
    Completes srv s x (s.awaiting x w .smtpUpassword (x.loginName srv) replies) [(w', encoded x.password)] ↔
      (encoded x.password).length ≤ 12288 ∧ ¬ReadsAsCommon (encoded x.password) := by
  have hawaits : Connection.awaitsSasl .smtpUpassword = true := rfl
  rw [completes_cons, ← execution_awaiting_iff hsrv (s := s) (x := x) (w := w') hawaits _ (x.loginName srv) replies]
  refine and_iff_left_of_imp fun hresponse => ?_
  have hparsed := password_parsed hsrv hlogin hresponse
  exact hparsed ▸ completes_nil w' _ _

/-- The responses that give the name and the password. -/
theorem completes_username (hlogin : x.mechanism = .login) (w w' w'' : W) (username : WString) (replies : List Reply) :
    Completes srv s x (s.awaiting x w .smtpUsername username replies)
        [(w', encoded x.name), (w'', encoded x.password)] ↔
      ((encoded x.name).length ≤ 12288 ∧ ¬ReadsAsCommon (encoded x.name)) ∧
        (encoded x.password).length ≤ 12288 ∧ ¬ReadsAsCommon (encoded x.password) := by
  have hawaits : Connection.awaitsSasl .smtpUsername = true := rfl
  rw [completes_cons, ← execution_awaiting_iff hsrv (s := s) (x := x) (w := w') hawaits _ username replies]
  refine and_congr_right fun hresponse => ?_
  obtain ⟨replies', hparsed⟩ := username_parsed hsrv hlogin hresponse
  exact hparsed ▸ completes_password hsrv hlogin w' w'' replies'

/-- The response that gives the message of PLAIN. -/
theorem completes_plain {authzid : AnsiString} (hplain : x.mechanism = .plain authzid) (w w' : W) (username : WString)
    (replies : List Reply) :
    Completes srv s x (s.awaiting x w .smtpUsername username replies)
        [(w', encoded (authzid ++ 0 :: x.name ++ 0 :: x.password))] ↔
      (encoded (authzid ++ 0 :: x.name ++ 0 :: x.password)).length ≤ 12288 ∧
        ¬ReadsAsCommon (encoded (authzid ++ 0 :: x.name ++ 0 :: x.password)) := by
  have hawaits : Connection.awaitsSasl .smtpUsername = true := rfl
  rw [completes_cons, ← execution_awaiting_iff hsrv (s := s) (x := x) (w := w') hawaits _ username replies]
  refine and_iff_left_of_imp fun hresponse => ?_
  have hparsed := plain_parsed hsrv hplain hresponse
  exact hparsed ▸ completes_nil w' _ _

theorem reaches_iff {w : W} {line : AnsiString} {rest : List (W × AnsiString)}
    (hlines : line :: rest.map Prod.snd = x.lines) (hadmitted : Admitted srv s w x) :
    s.Reaches srv x ((w, line) :: rest) ↔ x.Unmistaken := by
  have htail : rest.map Prod.snd = x.lines.tail := by rw [← hlines]; rfl
  have hlength : rest.length = x.lines.tail.length := by rw [← htail, List.length_map]
  have hunmistaken : x.Unmistaken ↔
      line.length ≤ 12288 ∧ ∀ response ∈ rest.map Prod.snd, response.length ≤ 12288 ∧ ¬ReadsAsCommon response := by
    constructor
    · intro h
      have hshort := h.short
      have hnone := h.noCommand
      rw [← hlines, List.forall_mem_cons] at hshort
      rw [← htail] at hnone
      exact ⟨hshort.1, fun response hresponse => ⟨hshort.2 response hresponse, hnone response hresponse⟩⟩
    · rintro ⟨hline, hrest⟩
      constructor
      · rw [← hlines]
        exact List.forall_mem_cons.2 ⟨hline, fun response hresponse => (hrest response hresponse).1⟩
      · rw [← htail]
        exact fun response hresponse => (hrest response hresponse).2
  rw [reaches_cons hlength, hunmistaken]
  cases hmechanism : x.mechanism with
  | login =>
    have hresponses : x.responses = [encoded x.name, encoded x.password] := by rw [Exchange.responses, hmechanism]
    cases hinitial : x.initialResponse with
    | true =>
      rw [Exchange.lines, hinitial, hresponses] at hlines
      obtain ⟨rfl, hrest⟩ := List.cons_eq_cons.1 hlines
      obtain ⟨⟨w', _⟩, rfl, rfl⟩ := List.map_eq_singleton_iff.1 hrest
      rw [execution_command_iff hsrv hadmitted [encoded x.name]
        (List.forall_mem_singleton.2 (encoded_word x.name_ne_nil)), List.map_singleton, List.forall_mem_singleton]
      refine and_congr_right fun hshort => ?_
      obtain ⟨replies, hparsed⟩ := login_asked hsrv hmechanism hadmitted hshort
      exact hparsed ▸ completes_password hsrv hmechanism w w' replies
    | false =>
      rw [Exchange.lines, hinitial, hresponses] at hlines
      obtain ⟨rfl, hrest⟩ := List.cons_eq_cons.1 hlines
      obtain ⟨⟨w', _⟩, last, rfl, rfl, hlast⟩ := List.map_eq_cons_iff.1 hrest
      obtain ⟨⟨w'', _⟩, rfl, rfl⟩ := List.map_eq_singleton_iff.1 hlast
      rw [execution_command_iff hsrv hadmitted [] fun word hword => absurd hword List.not_mem_nil, List.map_cons,
        List.map_singleton, List.forall_mem_cons, List.forall_mem_singleton]
      refine and_congr_right fun hshort => ?_
      obtain ⟨replies, hparsed⟩ := command_asked hsrv hadmitted hshort
      exact hparsed ▸ completes_username hsrv hmechanism w w' w'' s.username replies
  | plain authzid =>
    have hresponses : x.responses = [encoded (authzid ++ 0 :: x.name ++ 0 :: x.password)] := by
      rw [Exchange.responses, hmechanism]
    cases hinitial : x.initialResponse with
    | true =>
      rw [Exchange.lines, hinitial, hresponses] at hlines
      obtain ⟨rfl, hrest⟩ := List.cons_eq_cons.1 hlines
      have hnone : rest = [] := List.map_eq_nil_iff.1 hrest
      subst hnone
      have hne : authzid ++ 0 :: x.name ++ 0 :: x.password ≠ [] := by simp
      rw [execution_command_iff hsrv hadmitted [encoded (authzid ++ 0 :: x.name ++ 0 :: x.password)]
        (List.forall_mem_singleton.2 (encoded_word hne))]
      refine and_congr_right fun hshort => ?_
      have hparsed := plain_reached hsrv hmechanism hadmitted hshort
      exact iff_of_true (hparsed ▸ completes_nil w _ _) fun response hresponse => absurd hresponse List.not_mem_nil
    | false =>
      rw [Exchange.lines, hinitial, hresponses] at hlines
      obtain ⟨rfl, hrest⟩ := List.cons_eq_cons.1 hlines
      obtain ⟨⟨w', _⟩, rfl, rfl⟩ := List.map_eq_singleton_iff.1 hrest
      rw [execution_command_iff hsrv hadmitted [] fun word hword => absurd hword List.not_mem_nil,
        List.map_singleton, List.forall_mem_singleton]
      refine and_congr_right fun hshort => ?_
      obtain ⟨replies, hparsed⟩ := command_asked hsrv hadmitted hshort
      exact hparsed ▸ completes_plain hsrv hmechanism w w' s.username replies

end

/-- A response is taken as one exactly where it does not read as a command: in an
    exchange, in any state that awaits a response, and for the line that cancels. -/
theorem sasl_responses_kept_iff {conv : Conversions} (hsrv : srv.ReadsAscii conv) :
    (∀ (s : SMTPConnection W) (x : Exchange) (w : W) (line : AnsiString) (rest : List (W × AnsiString)),
      line :: rest.map Prod.snd = x.lines → Admitted srv s w x → (s.Reaches srv x ((w, line) :: rest) ↔ x.Unmistaken)) ∧
    (∀ (s : SMTPConnection W) (line : AnsiString), Connection.awaitsSasl s.state = true →
      (∀ c ∈ line, MimeCodeBase64.isBase64 c = true) →
      ((s.execution srv line ≠ .dropped ∧ ∀ type, s.execution srv line ≠ .command type) ↔
        ¬ReadsAsCommon line ∧ ¬(AnsiString.makeUpper line = ansi "PROXY" ∧ srv.proxyProtocolEnabled s.world = true))) ∧
    (∀ (address : IPAddress) (range : SecurityRange) (w : W) (events : List (Event W)) (s : Session W),
      s = Session.run srv (Session.connected srv address range w) events →
      Connection.awaitsSasl s.state = true → s.reading = .line →
      ((s.toSMTPConnection.internalParseData srv (ansi "*")).Ended ↔ Connection.StarHeeded srv s.toConnection)) := by
  refine ⟨fun s x w line rest hlines hadmitted => reaches_iff hsrv hlines hadmitted,
    fun s line hawaits hline => base64_not_executed_iff hsrv hawaits hline,
    fun address range w events s hs hawaits hreading => ?_⟩
  have hpending : s.Pending := hs ▸ Session.pending_run srv (Session.pending_connected srv address range w) events
  have hstar : srv.toWide (ansi "*") = wide "*" := by
    have hnarrow : ansi "*" = [42] := by decide +kernel
    rw [hnarrow, hsrv.toWide, hsrv.keepAscii.toWide [42] isAscii_star, wide_star]
  rw [SMTPConnection.internalParseData_execution, execution_star hsrv hawaits]
  dsimp only
  rw [hstar]
  exact Connection.ended_star_iff srv hsrv hpending hawaits (by rw [hreading]; exact nofun)

theorem submissionServer_readsAscii (knows : WString → WString → Bool) : (submissionServer knows).ReadsAscii latin1 where
  keepAscii := latin1_keepAscii
  toWide := rfl
  base64Decode := rfl
  decodeSaslPlain := rfl
  upper := upperAscii_classic

/-- `user` logs on with AUTH LOGIN. -/
def userLogin (password : AnsiString) (hascii : IsAscii password) (hne : password ≠ []) : Exchange where
  mechanism := .login
  verb := ansi "AUTH"
  mechanismName := ansi "LOGIN"
  initialResponse := false
  name := ansi "user"
  password := password
  verb_upper := by decide
  mechanismName_upper := by decide
  name_ascii := by unfold IsAscii; decide +kernel
  password_ascii := hascii
  authzid_ascii := nofun
  name_ne_nil := by decide
  password_ne_nil := hne

def greeted : SMTPConnection Unit :=
  { world := (), remoteAddress := [], securityRange := submissionRange, state := .header }

def secretLogin : Exchange := userLogin (ansi "secret") (by unfold IsAscii; decide +kernel) (by decide +kernel)

/-- Its base64 is `QUIt`. -/
def quittingLogin : Exchange := userLogin (ansi "AB-") (by unfold IsAscii; decide +kernel) (by decide +kernel)

theorem greeted_admitted (knows : WString → WString → Bool) (x : Exchange) :
    Admitted (submissionServer knows) greeted () x := ⟨rfl, rfl, rfl, rfl, rfl, fun _ => rfl⟩

theorem sasl_responses_kept_secret :
    greeted.Reaches (submissionServer fun _ _ => true) secretLogin
      [((), ansi "AUTH LOGIN"), ((), ansi "dXNlcg=="), ((), ansi "c2VjcmV0")] := by
  have hlines : ansi "AUTH LOGIN" :: [((), ansi "dXNlcg=="), ((), ansi "c2VjcmV0")].map Prod.snd = secretLogin.lines := by
    decide +kernel
  have hkept : (∀ line ∈ secretLogin.lines, line.length ≤ 12288) ∧
      ∀ line ∈ secretLogin.lines.tail, AnsiString.makeUpper line ∉ commonVerbs.map ansi := by decide +kernel
  exact ((sasl_responses_kept_iff _ (submissionServer_readsAscii _)).1 greeted secretLogin () _ _ hlines
    (greeted_admitted _ _)).2 ⟨hkept.1, hkept.2⟩

/-- The user whose password is `AB-` quits, and a star is taken for a name. -/
theorem sasl_response_quits :
    ¬greeted.Reaches (submissionServer fun _ _ => true) quittingLogin
        [((), ansi "AUTH LOGIN"), ((), ansi "dXNlcg=="), ((), ansi "QUIt")] ∧
      ({ greeted with state := .smtpUpassword }.execution (submissionServer fun _ _ => true) (ansi "QUIt")) = .command .quit ∧
      ¬({ greeted with state := .smtpUsername, requestedAuthenticationType := .login }.internalParseData
        (submissionServer fun _ _ => true) (ansi "*")).Ended := by
  have hlines : ansi "AUTH LOGIN" :: [((), ansi "dXNlcg=="), ((), ansi "QUIt")].map Prod.snd = quittingLogin.lines := by
    decide +kernel
  have hread : ansi "QUIt" ∈ quittingLogin.lines.tail ∧ AnsiString.makeUpper (ansi "QUIt") ∈ commonVerbs.map ansi := by
    decide +kernel
  refine ⟨?_, by decide +kernel, fun hended => ?_⟩
  · rw [reaches_iff (submissionServer_readsAscii _) hlines (greeted_admitted _ _)]
    exact fun h => h.noCommand _ hread.1 hread.2
  · have hawaits : ({ greeted with state := .smtpUsername, requestedAuthenticationType := .login }.internalParseData
        (submissionServer fun _ _ => true) (ansi "*")).state = .smtpUpassword ∧
      ({ greeted with state := .smtpUsername, requestedAuthenticationType := .login }.internalParseData
        (submissionServer fun _ _ => true) (ansi "*")).reading = .line := by decide +kernel
    rcases hended.1 with hrest | hclosed
    · rw [hawaits.1] at hrest
      cases hrest
    · rw [hawaits.2] at hclosed
      cases hclosed

end HMailServer.Smtp
