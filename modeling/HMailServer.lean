import HMailServer.Smtp.DotTransparency
import HMailServer.Imap.FolderViewMirror
import HMailServer.Imap.SearchAgreement
import HMailServer.Imap.SearchComplement
import HMailServer.Imap.Sort
import HMailServer.Imap.ThreadRecursion
import HMailServer.Imap.SequenceSetMeaning
import HMailServer.Imap.BaseSubjectNormal
import HMailServer.Persistence.MessageIndexSound
import HMailServer.Persistence.SearchWhileIndexing
import HMailServer.Util.EnvelopeSenders
import HMailServer.Sieve.VacationRateLimit
import HMailServer.AntiSpam.OrganizationalDomain
import HMailServer.AntiSpam.PolicyDiscovery
import HMailServer.Mime.SetParameter
import HMailServer.Sieve.Include
import HMailServer.Sieve.CombinedActions
import HMailServer.Util.ICalendar.TextSurvives
import HMailServer.Util.SendingQuota
import HMailServer.Pop3.Maildrop
import HMailServer.Smtp.StsPolicyKept
import HMailServer.Sql.ParameterSubstitution
import HMailServer.Smtp.RecipientPromise
import HMailServer.Smtp.Connection.Aside
import HMailServer.Smtp.Connection.BdatSpool
import HMailServer.Smtp.Outbound.PipeliningAgrees
import HMailServer.Smtp.LenientEndOfData
import HMailServer.Tcp.Connection
import HMailServer.Tcp.HandedOver
import HMailServer.Persistence.Expunged
import HMailServer.Persistence.QResync
import HMailServer.Lib.Separated
import HMailServer.Util.StringParser
import HMailServer.AntiSpam.Dkim.SignatureStripping
import HMailServer.AntiSpam.Dkim.BodyCanonicalization
import HMailServer.AntiSpam.Dkim.HeaderCanonicalization
import HMailServer.AntiSpam.Dkim.HeaderAgreement
import HMailServer.AntiSpam.Dkim.HeaderValue
import HMailServer.AntiSpam.PublicSuffixList
import HMailServer.Mime.Base64
import HMailServer.Mime.EncodedWord
import HMailServer.Mime.EncodedWordRoundTrip
import HMailServer.Lib.Utf16
import HMailServer.Util.Utf7
import HMailServer.Util.ModifiedUTF7
import HMailServer.Lib.Glob
import HMailServer.Sieve.WildcardMatch
import HMailServer.Sieve.Lexer
import HMailServer.Sieve.Numbers
import HMailServer.Lib.SlidingLock
import HMailServer.Util.AccountLockout
import HMailServer.Util.LockoutRule
import HMailServer.Util.Decimal
import HMailServer.Util.UsageFile
import HMailServer.Util.UsageFileKept
import HMailServer.Util.UsageSaving
import HMailServer.Smtp.StsPolicyMeaning
import HMailServer.Sieve.DuplicateSeen
import HMailServer.AntiSpam.Dmarc.FromAddress
import HMailServer.AntiSpam.Dmarc.FromDomain
import HMailServer.Tcp.OperationQueue
import HMailServer.Lib.SmtpPath
import HMailServer.Smtp.AddressExtensions
import HMailServer.Util.HttpsClient
import HMailServer.Util.ScramName
import HMailServer.Lib.Json
import HMailServer.Util.JsonAcceptance
import HMailServer.Util.JsonExactness
import HMailServer.Lib.FoldedFields
import HMailServer.Smtp.BounceReport
import HMailServer.Lib.Incremental
import HMailServer.Tcp.ProxyHeader
import HMailServer.Util.HttpServer
import HMailServer.Smtp.Connection.SaslState
import HMailServer.Smtp.Connection.SubmissionServer
import HMailServer.Smtp.SaslExchanges
import HMailServer.Util.RequestFraming
import HMailServer.Lib.Lines
import HMailServer.Lib.LockLedger
import HMailServer.Lib.Occurrence
import HMailServer.Lib.Replacement
import HMailServer.Persistence.MessageFile
import HMailServer.Pop3.MaildropBalance
import HMailServer.Pop3.Preview
import HMailServer.Sql.Wildcard
import HMailServer.Tcp.Completions
import HMailServer.Tcp.RetiredOperations
import HMailServer.Imap.MessageFlags
import HMailServer.Imap.Store
import HMailServer.Imap.StoreRefused
import HMailServer.Imap.StoreArgument
import HMailServer.Imap.StoreMeaning
import HMailServer.Imap.ArgumentWords
import HMailServer.Imap.FetchParser
import HMailServer.Lib.Gregorian
import HMailServer.Lib.LoneSeparator
import HMailServer.Lib.LongestRun
import HMailServer.Smtp.SpfAddress
import HMailServer.Smtp.SpfReadableForm
import HMailServer.Util.ICalendar.Civil
import HMailServer.Lib.StateRun
import HMailServer.Lib.Delegation
import HMailServer.Smtp.SpfSyntax
import HMailServer.Smtp.SpfRecord
import HMailServer.Smtp.SpfMacro
import HMailServer.Smtp.SpfEvaluator
import HMailServer.Lib.Byte
import HMailServer.Smtp.SpfLimits
import HMailServer.Smtp.SpfMeaning
import HMailServer.Smtp.SpfRecordText
import HMailServer.Smtp.SpfNetworks
import HMailServer.Smtp.SpfTargets
