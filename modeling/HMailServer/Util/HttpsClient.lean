import HMailServer.Util.AnsiString
import HMailServer.Util.WideString
import HMailServer.Lib.Cut

/- The web client of the server, `Common/Util/HttpsClient.cpp`: URLs, and where
   the requests and the hops of a download connect to. What a server answers to a
   hop is a parameter; sockets, TLS, the file and the error texts are left out. -/
namespace HMailServer.HttpsClient
open AnsiString Cut

structure Target where
  https : Bool
  host : AnsiString
  port : AnsiString
  path : AnsiString
  deriving DecidableEq

def defaultPort (https : Bool) : AnsiString := if https then ansi "443" else ansi "80"

/-- The host and the port of an authority. -/
def splitAuthority (https : Bool) (authority : AnsiString) : Option (AnsiString × AnsiString) :=
  match authority with
  | 91 :: rest =>
    -- [IPv6]:port
    match cut 93 rest with
    | none => none
    | some (h, []) => some (h, defaultPort https)
    | some (h, 58 :: prt) => some (h, prt)
    | some (_, _ :: _) => none
  | h =>
    match cut 58 h with
    | none => some (h, defaultPort https)
    | some (h, prt) => some (h, prt)

/-- What follows the scheme. -/
def parseAuthority (https : Bool) (s : AnsiString) : Option Target :=
  let (authority, path) := match cut 47 s with
    | none => (s, ansi "/")
    | some (authority, p) => (authority, 47 :: p)
  if authority = [] ∨ 64 ∈ authority then none
  else match splitAuthority https authority with
    | none => none
    | some (host, port) =>
      if host = [] ∨ port = [] ∨ port.all isDigit = false then none else some ⟨https, host, port, path⟩

def parseUrl (url : AnsiString) : Option Target :=
  let s := cstr url
  if (ansi "https://").isPrefixOf s then parseAuthority true (s.drop 8)
  else if (ansi "http://").isPrefixOf s then parseAuthority false (s.drop 7)
  else none

def isLoopbackHost (host : AnsiString) : Bool :=
  let h := lower host
  h == ansi "localhost" || h == ansi "::1" || equalsNoCase (h.take 4) (ansi "127.")

/-! ## Requests -/

/-- A connection that is opened. -/
structure Opened where
  tls : Bool
  host : AnsiString
  port : AnsiString
  deriving DecidableEq

structure Environment where
  /-- `HttpProxy`: none where it is malformed, and nothing in it where it is not set. -/
  proxySetting : Option (Option (AnsiString × AnsiString))
  /-- Whether a name resolves to a public address. -/
  reachesPublic : AnsiString → AnsiString → Bool

variable (env : Environment)

/-- The check that all requests make of their URL. -/
def acceptedTarget (url : AnsiString) : Option Target :=
  match parseUrl url with
  | none => none
  | some target => if !target.https && !isLoopbackHost target.host then none else some target

/-- `Connect_`. -/
def connect (target : Target) (publicOnly : Bool) : Option Opened :=
  if publicOnly then
    if env.reachesPublic target.host target.port then some ⟨target.https, target.host, target.port⟩ else none
  else match env.proxySetting with
    | none => none
    | some none => some ⟨target.https, target.host, target.port⟩
    | some (some (proxyHost, proxyPort)) => some ⟨target.https, proxyHost, proxyPort⟩

/-- `Request_`: the connection that is opened for a URL. -/
def request_ (publicOnly : Bool) (url : AnsiString) : Option Opened :=
  match acceptedTarget url with
  | none => none
  | some target => if env.proxySetting = none then none else connect env target publicOnly

def request (url : AnsiString) : Option Opened := request_ env false url

def requestPublic (url : AnsiString) : Option Opened := request_ env true url

/-! ## Downloads -/

/-- The lines of a header block. -/
def headerLines : AnsiString → List AnsiString
  | [] => []
  | 13 :: 10 :: rest => [] :: headerLines rest
  | c :: rest =>
    match headerLines rest with
    | [] => [[c]]
    | line :: lines => (c :: line) :: lines

def isBlank (c : UInt8) : Bool := c == 32 || c == 9

/-- `HeaderValue_`; the comparison is one of C strings. -/
def headerValue (headerBlock name : AnsiString) : AnsiString :=
  match (headerLines headerBlock).find? fun line =>
    match cut 58 line with
    | none => false
    | some (field, _) => field.length == name.length && equalsNoCase field name with
  | none => []
  | some line =>
    let value := line.drop (name.length + 1)
    let rest := value.dropWhile isBlank
    let trimmed := rest.rdropWhile fun c => isBlank c || c == 13
    -- carriage returns and blanks alone, behind a blank, are taken as they are
    if trimmed = [] ∧ rest.length < value.length then rest else trimmed

/-- `atoi`. -/
def atoi (s : AnsiString) : Int := WString.ttoi 32 (s.map UInt8.toNat)

/-- The status of a response that begins with a status line. -/
def statusCode (headerBlock : AnsiString) : Option Int :=
  let statusLine := (headerLines headerBlock).headD []
  match cut 32 statusLine with
  | none => none
  | some (_, rest) => if (ansi "HTTP/").isPrefixOf statusLine then some (atoi rest) else none

/-- The URL of the next hop, where a response sends the client on. -/
def redirectTarget (target : Target) (headerBlock : AnsiString) : Option AnsiString :=
  match statusCode headerBlock with
  | none => none
  | some status =>
    if status ∈ [301, 302, 303, 307, 308] then
      match headerValue headerBlock (ansi "Location") with
      | [] => none
      | 47 :: rest =>
        -- the same scheme, host and port
        let origin := (if target.https then ansi "https://" else ansi "http://") ++ target.host ++
          (if target.port = defaultPort target.https then [] else 58 :: target.port)
        some (cstr (origin ++ 47 :: rest))
      | location => some (cstr location)
    else none

/-- The connections that a download opens in so many hops, when the servers
    answer with these header blocks. -/
def hops : Nat → AnsiString → List AnsiString → List Opened
  | 0, _, _ => []
  | n + 1, current, responses =>
    match acceptedTarget current with
    | none => []
    | some target =>
      match connect env target false with
      | none => []
      | some opened =>
        opened :: match responses with
          | [] => []
          | headerBlock :: responses =>
            match redirectTarget target headerBlock with
            | none => []
            | some next => hops n next responses

def download (url : AnsiString) (responses : List AnsiString) : List Opened := hops env 6 url responses

/-! ## Where plain connections go -/

/-- An IPv4 address of 127.0.0.0/8 in dotted decimal. -/
def LoopbackLiteral (host : AnsiString) : Prop :=
  ∃ b c d, b ≤ 255 ∧ c ≤ 255 ∧ d ≤ 255 ∧
    host = ansi "127." ++ formatNat b ++ 46 :: formatNat c ++ 46 :: formatNat d

/-- This machine, by its name or by an address. -/
def IsLocal (host : AnsiString) : Prop :=
  lower host = ansi "localhost" ∨ host = ansi "::1" ∨ LoopbackLiteral host

/-- A host that begins like an address of 127.0.0.0/8 and is none. -/
def Lookalike (host : AnsiString) : Prop := ansi "127." <+: host ∧ ¬LoopbackLiteral host

/-- A URL without TLS of such a host. -/
def PlainLookalike (url : AnsiString) : Prop :=
  ∃ target, parseUrl url = some target ∧ target.https = false ∧ Lookalike target.host

/-- The URLs of a chain of hops: the first, and what the answer to a URL that is
    asked for sends the client to. -/
inductive Visited (url : AnsiString) (responses : List AnsiString) : Nat → AnsiString → Prop
  | first : Visited url responses 0 url
  | next {k : Nat} {current headerBlock location : AnsiString} {target : Target} (h : Visited url responses k current)
      (htarget : acceptedTarget current = some target) (hresponse : responses[k]? = some headerBlock)
      (hlocation : redirectTarget target headerBlock = some location) : Visited url responses (k + 1) location

/-! ## Hosts -/

theorem map_toLower_eq {t : AnsiString} (ht : ∀ c ∈ t, c.toNat < 65) : lower t = t := by
  have hmap : t.map toLower = t.map id := by
    refine List.map_congr_left fun c hc => ?_
    have hlow := ht c hc
    unfold toLower
    rw [if_neg]
    · rfl
    · simp only [Bool.and_eq_true, decide_eq_true_eq, UInt8.le_iff_toNat_le, not_and, not_le]
      intro h65
      have h65' : (65 : UInt8).toNat = 65 := rfl
      omega
  rw [lower, hmap, List.map_id]

theorem lower_eq_iff {s t : AnsiString} (ht : ∀ c ∈ t, c.toNat < 65) : lower s = t ↔ s = t := by
  constructor
  · intro h
    subst h
    have hmap : s.map toLower = s.map id := by
      refine List.map_congr_left fun c hc => ?_
      exact (toLower_eq (ht (toLower c) (List.mem_map_of_mem hc)) rfl).symm
    rw [lower, hmap, List.map_id]
  · rintro rfl
    exact map_toLower_eq ht

theorem below_letters : (∀ c ∈ ansi "::1", c.toNat < 65) ∧ ∀ c ∈ ansi "127.", c.toNat < 65 := by
  constructor <;> decide +kernel

theorem isLoopbackHost_iff (host : AnsiString) :
    isLoopbackHost host = true ↔ lower host = ansi "localhost" ∨ host = ansi "::1" ∨ ansi "127." <+: host := by
  have hnumber : equalsNoCase ((lower host).take 4) (ansi "127.") = true ↔ ansi "127." <+: host := by
    have htake : (lower host).take 4 = lower (host.take 4) := (List.map_take).symm
    have hcstr : cstr (ansi "127.") = ansi "127." := by decide
    have hlower : lower (ansi "127.") = ansi "127." := map_toLower_eq below_letters.2
    rw [equalsNoCase_iff, hcstr, hlower, lower_eq_iff below_letters.2, htake]
    constructor
    · intro h
      -- nothing of the four characters is cut off
      have hstart : ansi "127." <+: lower (host.take 4) := h ▸ List.takeWhile_prefix _
      have hfour : lower (host.take 4) = ansi "127." :=
        (hstart.eq_of_length_le (by rw [lower, List.length_map, List.length_take]; exact Nat.min_le_left 4 _)).symm
      rw [← (lower_eq_iff below_letters.2).1 hfour]
      exact List.take_prefix 4 host
    · rintro ⟨rest, rfl⟩
      have htake : (ansi "127." ++ rest).take 4 = ansi "127." := List.take_left' rfl
      rw [htake, hlower, hcstr]
  unfold isLoopbackHost
  dsimp only
  rw [Bool.or_eq_true, Bool.or_eq_true, beq_iff_eq, beq_iff_eq, lower_eq_iff below_letters.1, hnumber, or_assoc]

/-- A host that passes for this machine is this machine, or it looks like it. -/
theorem isLocal_iff {host : AnsiString} (h : isLoopbackHost host = true) : IsLocal host ↔ ¬Lookalike host := by
  constructor
  · rintro hlocal ⟨hstart, hliteral⟩
    obtain hname | rfl | hlit := hlocal
    · obtain ⟨rest, rfl⟩ := hstart
      rw [lower_append] at hname
      exact absurd hname (by simp [ansi, lower, toLower])
    · exact absurd hstart (by decide)
    · exact hliteral hlit
  · intro hlook
    obtain hname | hone | hstart := (isLoopbackHost_iff host).1 h
    · exact .inl hname
    · exact .inr (.inl hone)
    · exact .inr (.inr (not_not.1 fun hliteral => hlook ⟨hstart, hliteral⟩))

theorem acceptedTarget_some {url : AnsiString} {target : Target} (h : acceptedTarget url = some target) :
    parseUrl url = some target ∧ (target.https = false → isLoopbackHost target.host = true) := by
  unfold acceptedTarget at h
  split at h
  · cases h
  · rename_i parsed hparse
    split at h
    · cases h
    · rename_i hcheck
      obtain rfl := Option.some.inj h
      refine ⟨hparse, fun hplain => ?_⟩
      simpa [hplain] using hcheck

/-! ## Chains of hops -/

theorem visited_nil {url current : AnsiString} {k : Nat} : ¬Visited url [] (k + 1) current := by
  rintro (_ | ⟨_, _, hresponse, _⟩)
  cases hresponse

/-- A chain is its first hop and the chain behind it. -/
theorem visited_cons_iff {url headerBlock current : AnsiString} {responses : List AnsiString} {k : Nat} :
    Visited url (headerBlock :: responses) (k + 1) current ↔
      ∃ target location, acceptedTarget url = some target ∧ redirectTarget target headerBlock = some location ∧
        Visited location responses k current := by
  constructor
  · intro h
    induction k generalizing current with
    | zero =>
      obtain _ | ⟨hfirst, htarget, hresponse, hlocation⟩ := h
      cases hfirst
      cases hresponse
      exact ⟨_, current, htarget, hlocation, .first⟩
    | succ k ih =>
      obtain _ | ⟨hvisited, htarget, hresponse, hlocation⟩ := h
      obtain ⟨first, location, hfirst, hredirect, hrest⟩ := ih hvisited
      exact ⟨first, location, hfirst, hredirect, .next hrest htarget hresponse hlocation⟩
  · rintro ⟨target, location, htarget, hlocation, h⟩
    induction h with
    | first => exact .next .first htarget rfl hlocation
    | next _ htarget' hresponse' hlocation' ih => exact .next ih htarget' hresponse' hlocation'

/-- What a URL is asked for with goes to this machine, unless it is a URL without TLS
    of a lookalike. -/
theorem acceptedTarget_local_iff {url : AnsiString} {target : Target} (h : acceptedTarget url = some target) :
    (target.https = false → IsLocal target.host) ↔ ¬PlainLookalike url := by
  obtain ⟨hparse, hloopback⟩ := acceptedTarget_some h
  constructor
  · rintro hlocal ⟨target', hparse', hplain, hlook⟩
    obtain rfl : target = target' := Option.some.inj (hparse.symm.trans hparse')
    exact (isLocal_iff (hloopback hplain)).1 (hlocal hplain) hlook
  · intro hnone hplain
    exact (isLocal_iff (hloopback hplain)).2 fun hlook => hnone ⟨target, hparse, hplain, hlook⟩

/-- A lookalike passes the check. -/
theorem acceptedTarget_lookalike {url : AnsiString} (h : PlainLookalike url) :
    ∃ target, acceptedTarget url = some target ∧ parseUrl url = some target := by
  obtain ⟨target, hparse, _, hstart, _⟩ := h
  have hloopback : isLoopbackHost target.host = true := (isLoopbackHost_iff _).2 (.inr (.inr hstart))
  refine ⟨target, ?_, hparse⟩
  unfold acceptedTarget
  rw [hparse]
  dsimp only
  rw [hloopback, Bool.not_true, Bool.and_false, if_neg Bool.false_ne_true]

section

variable {env : Environment} (hproxy : env.proxySetting = some none)
include hproxy

/-- Without a proxy a connection goes where the URL says. -/
theorem connect_eq (target : Target) (publicOnly : Bool) : connect env target publicOnly =
    if publicOnly = true ∧ env.reachesPublic target.host target.port = false then none
    else some ⟨target.https, target.host, target.port⟩ := by
  unfold connect
  cases publicOnly with
  | true => cases env.reachesPublic target.host target.port <;> rfl
  | false =>
    rw [if_neg Bool.false_ne_true, hproxy, if_neg (by simp)]

theorem request_eq (publicOnly : Bool) (url : AnsiString) :
    request_ env publicOnly url = (acceptedTarget url).bind fun target => connect env target publicOnly := by
  unfold request_
  cases acceptedTarget url with
  | none => rfl
  | some target =>
    dsimp only
    rw [hproxy, if_neg (by simp)]
    rfl

/-- The connections of a chain of hops are those that its URLs are asked for
    with. -/
theorem mem_hops_iff (n : Nat) (url : AnsiString) (responses : List AnsiString) (o : Opened) :
    o ∈ hops env n url responses ↔ ∃ k < n, ∃ current, Visited url responses k current ∧
      ∃ target, acceptedTarget current = some target ∧ o = ⟨target.https, target.host, target.port⟩ := by
  induction n generalizing url responses with
  | zero => simp [hops]
  | succ n ih =>
    rw [hops]
    cases htarget : acceptedTarget url with
    | none =>
      have hnone : ∀ k current, Visited url responses k current → k = 0 ∧ current = url := by
        intro k current h
        induction h with
        | first => exact ⟨rfl, rfl⟩
        | next _ haccepted _ _ ih =>
          rw [ih.2, htarget] at haccepted
          cases haccepted
      constructor
      · intro h
        cases h
      · rintro ⟨k, _, current, hvisited, target, haccepted, _⟩
        rw [(hnone k current hvisited).2, htarget] at haccepted
        cases haccepted
    | some target =>
      dsimp only
      rw [connect_eq hproxy, if_neg (by simp)]
      dsimp only
      rw [List.mem_cons]
      constructor
      · rintro (rfl | h)
        · exact ⟨0, Nat.succ_pos n, url, .first, target, htarget, rfl⟩
        · split at h
          · cases h
          · rename_i headerBlock responses
            split at h
            · cases h
            · rename_i next hnext
              obtain ⟨k, hk, current, hvisited, htail⟩ := (ih next responses).1 h
              exact ⟨k + 1, Nat.succ_lt_succ hk, current, visited_cons_iff.2 ⟨target, next, htarget, hnext, hvisited⟩, htail⟩
      · rintro ⟨k, hk, current, hvisited, htail⟩
        cases k with
        | zero =>
          cases hvisited
          obtain ⟨target', haccepted, rfl⟩ := htail
          rw [htarget] at haccepted
          cases haccepted
          exact .inl rfl
        | succ k =>
          refine .inr ?_
          cases responses with
          | nil => exact absurd hvisited visited_nil
          | cons headerBlock responses =>
            obtain ⟨target', next, haccepted, hnext, hvisited⟩ := visited_cons_iff.1 hvisited
            rw [htarget] at haccepted
            cases haccepted
            dsimp only
            rw [hnext]
            exact (ih next responses).2 ⟨k, Nat.lt_of_succ_lt_succ hk, current, hvisited, htail⟩

end

/-! ## URLs put together again -/

/-- A URL with this target: the brackets of the host, the default port and the
    path of the root may stand in it or not. -/
def Recombines (target : Target) (url : AnsiString) : Prop :=
  ∃ hostText portText pathText,
    url = (if target.https then ansi "https://" else ansi "http://") ++ hostText ++ portText ++ pathText ∧
    (hostText = target.host ∨ hostText = 91 :: target.host ++ [93]) ∧
    (portText = 58 :: target.port ∨ portText = [] ∧ target.port = defaultPort target.https) ∧
    (pathText = target.path ∨ pathText = [] ∧ target.path = ansi "/")

theorem splitAuthority_some {https : Bool} {authority host port : AnsiString}
    (h : splitAuthority https authority = some (host, port)) : ∃ hostText portText,
      authority = hostText ++ portText ∧ (hostText = host ∨ hostText = 91 :: host ++ [93]) ∧
      (portText = 58 :: port ∨ portText = [] ∧ port = defaultPort https) := by
  unfold splitAuthority at h
  split at h
  · rename_i rest
    split at h
    · cases h
    · rename_i inner hcut
      cases h
      refine ⟨91 :: host ++ [93], [], ?_, .inr rfl, .inr ⟨rfl, rfl⟩⟩
      rw [(eq_of_cut hcut).1, List.append_nil]
      rfl
    · rename_i inner number hcut
      cases h
      refine ⟨91 :: host ++ [93], 58 :: port, ?_, .inr rfl, .inl rfl⟩
      rw [(eq_of_cut hcut).1, List.append_assoc]
      rfl
    · cases h
  · split at h
    · cases h
      exact ⟨authority, [], (List.append_nil _).symm, .inl rfl, .inr ⟨rfl, rfl⟩⟩
    · rename_i inner number hcut
      cases h
      exact ⟨host, 58 :: port, (eq_of_cut hcut).1, .inl rfl, .inl rfl⟩

theorem parseAuthority_some {https : Bool} {s : AnsiString} {target : Target}
    (h : parseAuthority https s = some target) :
    target.https = https ∧ Recombines target ((if https then ansi "https://" else ansi "http://") ++ s) := by
  obtain ⟨authority, path, hs, hpath⟩ : ∃ authority path,
      (match cut 47 s with
        | none => (s, ansi "/")
        | some (authority, p) => (authority, 47 :: p)) = (authority, path) ∧
      ∃ pathText, s = authority ++ pathText ∧ (pathText = path ∨ pathText = [] ∧ path = ansi "/") := by
    cases hcut : cut 47 s with
    | none => exact ⟨s, ansi "/", rfl, [], (List.append_nil s).symm, .inr ⟨rfl, rfl⟩⟩
    | some pieces => exact ⟨pieces.1, 47 :: pieces.2, rfl, 47 :: pieces.2, (eq_of_cut hcut).1, .inl rfl⟩
  obtain ⟨pathText, rfl, hpath⟩ := hpath
  rw [parseAuthority, hs] at h
  dsimp only at h
  split at h
  · cases h
  split at h
  · cases h
  rename_i host port hsplit
  split at h
  · cases h
  obtain rfl := Option.some.inj h
  obtain ⟨hostText, portText, rfl, hhost, hport⟩ := splitAuthority_some hsplit
  exact ⟨rfl, hostText, portText, pathText, by simp, hhost, hport, hpath⟩

theorem recombines_cstr {url : AnsiString} {target : Target} (h : parseUrl url = some target) :
    Recombines target (cstr url) := by
  have hwhole : ∀ {text : AnsiString} {n : Nat}, text.length = n → text.isPrefixOf (cstr url) = true →
      text ++ (cstr url).drop n = cstr url := by
    rintro text n rfl hstart
    obtain ⟨rest, hrest⟩ := List.isPrefixOf_iff_prefix.1 hstart
    rw [← hrest, List.drop_left]
  unfold parseUrl at h
  dsimp only at h
  split at h
  · rename_i hstart
    have hsome := (parseAuthority_some h).2
    rwa [if_pos rfl, hwhole (by decide) hstart] at hsome
  · split at h
    · rename_i hstart
      have hsome := (parseAuthority_some h).2
      rwa [if_neg Bool.false_ne_true, hwhole (by decide) hstart] at hsome
    · cases h

/-- The parts of a target are parts of the text in front of the first NUL. -/
theorem Recombines.noNul {url url' : AnsiString} {target : Target} (h : Recombines target url) (hnul : 0 ∉ url)
    (h' : Recombines target url') : 0 ∉ url' := by
  obtain ⟨hostText, portText, pathText, rfl, hhost, hport, hpath⟩ := h
  obtain ⟨hostText', portText', pathText', rfl, hhost', hport', hpath'⟩ := h'
  simp only [List.mem_append, not_or] at hnul ⊢
  obtain ⟨⟨⟨hscheme, hh⟩, hp⟩, hpa⟩ := hnul
  have hhostNul : 0 ∉ target.host := by
    obtain rfl | rfl := hhost
    · exact hh
    · exact fun hmem => hh (by simp [hmem])
  have hportNul : 0 ∉ target.port := by
    obtain rfl | ⟨_, hdefault⟩ := hport
    · exact fun hmem => hp (List.mem_cons_of_mem _ hmem)
    · rw [hdefault]
      cases target.https <;> decide
  have hpathNul : 0 ∉ target.path := by
    obtain rfl | ⟨_, hroot⟩ := hpath
    · exact hpa
    · rw [hroot]
      decide
  refine ⟨⟨⟨hscheme, ?_⟩, ?_⟩, ?_⟩
  · obtain rfl | rfl := hhost'
    · exact hhostNul
    · simp [hhostNul]
  · obtain rfl | ⟨rfl, _⟩ := hport'
    · simp [hportNul]
    · simp
  · obtain rfl | ⟨rfl, _⟩ := hpath'
    · exact hpathNul
    · simp

/-- A URL is recombined from its target exactly where it holds no NUL. -/
theorem recombines_iff {url : AnsiString} {target : Target} (h : parseUrl url = some target) :
    Recombines target url ↔ 0 ∉ url := by
  have hcstr := recombines_cstr h
  have hnul : (0 : UInt8) ∉ cstr url := fun hmem => by
    have := List.mem_takeWhile_imp hmem
    simp at this
  constructor
  · exact fun hurl => hcstr.noNul hnul hurl
  · intro hurl
    rwa [cstr_eq fun c hc => ?_] at hcstr
    rintro rfl
    exact hurl hc

/-- Without a proxy the plain connections of a request go to this machine exactly
    where its URL is none of a lookalike that is connected to, and those of a download
    where no URL of the chain is one; and a URL is its parts exactly where it holds no
    NUL. -/
theorem plain_http_stays_iff (env : Environment) (hproxy : env.proxySetting = some none) (url : AnsiString) :
    ((∀ o ∈ request env url, o.tls = false → IsLocal o.host) ↔ ¬PlainLookalike url) ∧
    ((∀ o ∈ requestPublic env url, o.tls = false → IsLocal o.host) ↔
      ∀ target ∈ parseUrl url, env.reachesPublic target.host target.port = true → ¬PlainLookalike url) ∧
    (∀ responses, (∀ o ∈ download env url responses, o.tls = false → IsLocal o.host) ↔
      ∀ k < 6, ∀ current, Visited url responses k current → ¬PlainLookalike current) ∧
    ∀ target, parseUrl url = some target → (Recombines target url ↔ 0 ∉ url) := by
  refine ⟨?_, ?_, fun responses => ?_, fun target h => recombines_iff h⟩
  · rw [request, request_eq hproxy]
    cases htarget : acceptedTarget url with
    | none =>
      refine iff_of_true (fun o ho => by cases ho) fun hlook => ?_
      obtain ⟨target, haccepted, _⟩ := acceptedTarget_lookalike hlook
      rw [htarget] at haccepted
      cases haccepted
    | some target =>
      rw [Option.bind_some, connect_eq hproxy, if_neg (by simp), ← acceptedTarget_local_iff htarget]
      simp
  · rw [requestPublic, request_eq hproxy]
    cases htarget : acceptedTarget url with
    | none =>
      refine iff_of_true (fun o ho => by cases ho) fun _ _ _ hlook => ?_
      obtain ⟨target, haccepted, _⟩ := acceptedTarget_lookalike hlook
      rw [htarget] at haccepted
      cases haccepted
    | some target =>
      rw [Option.bind_some, connect_eq hproxy, (acceptedTarget_some htarget).1, ← acceptedTarget_local_iff htarget]
      by_cases hpublic : env.reachesPublic target.host target.port = true <;> simp [hpublic]
  · constructor
    · intro h k hk current hvisited hlook
      obtain ⟨target, haccepted, _⟩ := acceptedTarget_lookalike hlook
      refine (acceptedTarget_local_iff haccepted).1 ?_ hlook
      exact h _ ((mem_hops_iff hproxy 6 url responses _).2 ⟨k, hk, current, hvisited, target, haccepted, rfl⟩)
    · intro h o ho
      obtain ⟨k, hk, current, hvisited, target, haccepted, rfl⟩ := (mem_hops_iff hproxy 6 url responses o).1 ho
      exact (acceptedTarget_local_iff haccepted).2 (h k hk current hvisited)

/-- Requests straight to the net. -/
def direct : Environment := ⟨some none, fun _ _ => true⟩

theorem plain_http_stays_iff_localhost :
    request direct (ansi "http://localhost:8080/a") = some ⟨false, ansi "localhost", ansi "8080"⟩ ∧
      IsLocal (ansi "localhost") := by
  have htarget : parseUrl (ansi "http://localhost:8080/a") = some ⟨false, ansi "localhost", ansi "8080", ansi "/a"⟩ := by
    decide +kernel
  have hrequest : request direct (ansi "http://localhost:8080/a") = some ⟨false, ansi "localhost", ansi "8080"⟩ := by
    decide +kernel
  refine ⟨hrequest, (plain_http_stays_iff direct rfl (ansi "http://localhost:8080/a")).1.2 ?_ _ hrequest rfl⟩
  rintro ⟨target, hparse, _, hstart, _⟩
  rw [htarget] at hparse
  cases hparse
  exact absurd (List.isPrefixOf_iff_prefix.2 hstart) (by decide +kernel)

/-- A name of the net that begins with `127.` gets a plain connection, to a request
    and to a redirected download. -/
theorem lookalike_reached :
    request direct (ansi "http://127.example.com/a") = some ⟨false, ansi "127.example.com", ansi "80"⟩ ∧
    download direct (ansi "https://host/a") [ansi "HTTP/1.1 302 Found\r\nLocation: http://127.example.com/a"] =
      [⟨true, ansi "host", ansi "443"⟩, ⟨false, ansi "127.example.com", ansi "80"⟩] ∧
    ¬IsLocal (ansi "127.example.com") := by
  refine ⟨by decide +kernel, by decide +kernel, ?_⟩
  rintro (h | h | ⟨b, c, d, _, _, _, h⟩)
  · exact absurd h (by decide)
  · exact absurd h (by decide)
  · -- the letter behind the dot is no digit
    have hdrop : ansi "example.com" = formatNat b ++ 46 :: formatNat c ++ 46 :: formatNat d := by
      have hcancel : ansi "127." ++ ansi "example.com" =
          ansi "127." ++ (formatNat b ++ 46 :: formatNat c ++ 46 :: formatNat d) := by
        rw [← List.append_assoc, ← List.append_assoc]
        exact h
      exact List.append_cancel_left hcancel
    obtain ⟨e, digits, hb⟩ := List.exists_cons_of_ne_nil (formatNat_ne_nil b)
    have hdigit := formatNat_isDigit b e (by rw [hb]; exact List.mem_cons_self)
    rw [hb] at hdrop
    obtain ⟨rfl, _⟩ := List.cons_eq_cons.1 hdrop
    exact absurd hdigit (by decide)

end HMailServer.HttpsClient
