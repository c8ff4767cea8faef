import HMailServer.Smtp.Connection.Session
import HMailServer.Util.SaslText

/- A server for one's own users: it hosts no domain, takes mail from whoever logs
   on, and runs no script and no spam test. What it knows of its accounts is a
   parameter. -/
namespace HMailServer.Smtp
open RecipientParser

theorem noDomains_not_alias (id : Nat) (dom : Domain) (h : (none : Option Domain) = some dom) :
    64 ∉ dom.name ∧ ∀ al ∈ ([] : List DomainAlias), WString.equalsNoCase al.aliasName dom.name = false := by
  cases h

/-- No domain, no alias, no route. -/
def noDomains : Directory where
  signing := ⟨classicLocale, id, fun _ _ => []⟩
  now := 0
  srsEnabled := false
  srsSecret := []
  batvEnabled := false
  batvSecret := []
  rejectFullMailboxAtRcpt := false
  domainAliases := []
  domainByID _ := none
  domain _ := none
  account _ := none
  aliasOf _ := none
  list _ := none
  route _ := none
  domain_not_alias := noDomains_not_alias
  list_noCase _ _ _ := rfl

/-- The address between the angle brackets. -/
def bracketed (text : WString) : Option (WString × WString) :=
  match text with
  | 60 :: rest => (Cut.cut 62 rest).map fun p => (p.1, [])
  | _ => none

def submissionServer (knows : WString → WString → Bool) : Server Unit where
  loc := classicLocale
  toWide := latin1.toWide
  security := .startTlsOptional
  directory _ := noDomains
  applyDefaultDomain _ address := address
  bannerText _ := wide "ready"
  ehloKeywords _ _ := wide "AUTH LOGIN PLAIN SCRAM-SHA-256"
  releaseQueue _ w := (⟨250, "", wide "OK"⟩, w)
  authIsEnabled _ := true
  disconnectInvalidClients _ := false
  maximumIncorrectCommands _ := 0
  script _ _ _ w := (.accept, w)
  proxyProtocolEnabled _ := false
  xclientPermitted _ := false
  tryParseAddress _ := none
  matchingRange _ _ := none
  authAllowPlainText _ := true
  base64Decode := StringParser.base64Decode latin1
  base64Encode s := sameCharacters (MimeCodeBase64.encode false (latin1.toNarrow s))
  decodeSaslPlain := StringParser.decodeSaslPlain latin1
  saslPrep := some
  logon _ name password w := ((knows name password, false), w)
  validatePassword name password _ := knows name password
  oauth2 _ := (false, false)
  bearerLogon _ _ w := ((false, []), w)
  registerBearerFailure _ _ w := (false, w)
  certificateIdentities _ := false
  externalLogon _ _ w := (⟨false, [], false⟩, w)
  gssapiIsEnabled _ := false
  gssapiStep _ _ w := (.finished ⟨false, [], false⟩, w)
  tlsServerEndPoint _ := false
  scramUsername first _ := some first
  scramAccount _ _ := true
  scramClientFirst _ w := (some ([], []), w)
  scramClientFinal _ _ _ := some []
  registerScramFailure _ _ _ w := (false, w)
  recordSuccess _ w := w
  dataDirectoryHasRoomForMail _ := true
  parseAddressWithExtensions := bracketed
  isValidEmailAddress _ _ := true
  allowMailFromNull _ := true
  isIncomingRelay _ _ := false
  requireInboundTls _ _ := false
  authenticatedSenderCheck _ := false
  senderPermittedFor _ _ _ := true
  maxSubmissionsPerIPPerMinute _ := 0
  tryConsume _ _ w := (true, w)
  isValidXtext _ := true
  isWhiteListed _ _ _ := false
  dnsblChecksAfterMailFrom _ := false
  authenticationResultsEnabled _ := false
  runPreTransmissionTests _ _ _ _ results w := (([], results), w)
  runPostTransmissionTests _ _ _ _ results w := (([], results), w)
  spamDeleteThreshold _ := 0
  spamMarkThreshold _ := 0
  quarantine _ _ _ w := (false, w)
  maxMessageSize _ := 0
  domainMaxMessageSize _ _ := 0
  getAccountLimits _ _ := ({} : Transaction).quotaLimits
  tryConsumeAccountMessage _ _ w := (.quotaAllowed, w)
  tryConsumeAccountRecipients _ _ _ w := (.quotaAllowed, w)
  parseDsnNotify _ := none
  isValidOrcpt _ := true
  databaseUnavailable _ _ := false
  treatSenderAsLocalDomain _ _ := false
  outboundChunking _ := false
  performGreyListing _ _ _ _ w := (true, w)
  calloutRejects _ w := (false, w)
  fileOpens _ _ := true
  transmission _ := ⟨false, false, 0, fun _ data => data.length, true⟩
  smtpdMaxSizeDrop _ := 0
  createHeaders _ _ _ _ _ w := ([], w)
  asyncQueue _ := true
  deadlineExceeded _ := false
  originatingAddress _ _ := ([], [])
  modifyMessage _ stored _ _ _ _ w := (stored.content, w)
  archive _ _ w := w
  fileExists _ _ := true
  onAcceptMessage _ stored w := ((.accept, stored), w)
  saveObject _ w := (true, w)
  messageAccepted _ w := w
  queuedText _ := wide "Queued"

/-- Everybody may log on, and nobody may send without it. -/
def submissionRange : SecurityRange where
  allowSMTP := true
  spamProtection := false
  virusProtection := false
  requireTLSForAuth := false
  allowOption _ _ := true
  requireSMTPAuth _ _ := true

end HMailServer.Smtp
