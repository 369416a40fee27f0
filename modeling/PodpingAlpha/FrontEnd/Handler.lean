import PodpingAlpha.Library.Bytes
import PodpingAlpha.Library.Like
import PodpingAlpha.Library.Outcome
import PodpingAlpha.FrontEnd.Queue

/-!
# The request handler

`handler::ping` with `check_auth` and `check_auth_hybrid` of `dbif`: which requests become rows of
the queue.

## The model

A request is what the handler reads of it: the decoded pairs of its query and three headers. SQLite
compares a stored token with a pattern by `LIKE`, here `Library.Like` with `%`, `_` and letters up
to ASCII case; it gives up on a pattern of more than 50000 bytes. The log lines are left out, and
with them the percent decoding whose result is only printed.

## What is proved

* `likeAuthorised_iff_of_literal` — for a header without `%` and `_` the two checks do what they
  are for.
* `ping_admission_iff` — when the queue changes only by requests with a token and a url with a
  scheme: whenever the header is not authorised as a pattern alone and the url does not go on after
  `http` with something else.
-/

namespace PodpingAlpha.FrontEnd

open Outcome

/-! ### Requests -/

/-- The value of a header. -/
abbrev HeaderValue := Bytes

/-- `HeaderValue::to_str`, which takes visible ASCII and tabs. -/
def HeaderValue.toStr (value : HeaderValue) : Option (List Char) :=
  if value.all fun b => (32 ≤ b && b < 127) || b == 9 then some (value.map fun b => Char.ofNat b.toNat)
  else none

/-- What the handler reads of a request. -/
structure Request where
  /-- The decoded pairs of the query string, if there is one. -/
  query : Option (List (String × String))
  /-- The header `cf-connecting-ip`. -/
  cfConnectingIp : Option HeaderValue
  /-- The header `authorization`. -/
  authorization : Option HeaderValue
  /-- The header `user-agent`. -/
  userAgent : Option HeaderValue

/-- A response. -/
structure Response where
  /-- The status code. -/
  status : ℕ
  /-- The body. -/
  body : String
  deriving DecidableEq

/-- The query parameters. -/
def Request.params (req : Request) : List (String × String) := req.query.getD []

/-- `params.get(key)`: the map was collected from the pairs, so the last one with a key counts. -/
def Request.get (req : Request) (key : String) : Option String := req.params.reverse.lookup key

/-- The text of the `authorization` header. -/
def Request.authstring (req : Request) : Option (List Char) :=
  req.authorization.bind HeaderValue.toStr

/-! ### Authorization -/

/-- A row of the publishers table, both of whose columns may be `NULL`. -/
structure PublisherRow where
  /-- The publisher. -/
  name : Option String
  /-- Its token. -/
  authval : Option String

/-- The same letter up to ASCII case. -/
def sameLetter (a b : Char) : Bool := a.toLower == b.toLower

/-- What a character of a pattern stands for. -/
def likeToken : Char → Like.Token Char
  | '%' => .any
  | '_' => .one
  | c => .lit c

/-- `text LIKE pattern`. -/
def like (pattern : List Char) (text : String) : Bool :=
  Like.accepts sameLetter (pattern.map likeToken) text.toList

/-- `SQLITE_MAX_LIKE_PATTERN_LENGTH`. -/
def maxLikePatternLength : ℕ := 50000

/-- The first row with `authval LIKE pattern`. -/
def firstLike (publishers : List PublisherRow) (pattern : List Char) : Option PublisherRow :=
  publishers.find? fun row => row.authval.any fun token => like pattern token

/-- `SELECT name FROM publishers WHERE authval LIKE pattern LIMIT 1`, with the rows unwrapped; the
pattern is ASCII, one byte a character. A name that is `NULL` is no `String`. -/
def selectLike (publishers : List PublisherRow) (pattern : List Char) : Rust (Option String) :=
  if publishers ≠ [] ∧ maxLikePatternLength < pattern.length then .error .unwrap
  else
    match firstLike publishers pattern with
    | none => .ok none
    | some row =>
      match row.name with
      | some name => .ok (some name)
      | none => .error .unwrap

/-- `check_auth`. -/
def checkAuth (publishers : List PublisherRow) (authstring : List Char) : Fallible HydraError String :=
  do
    match ← ofRust (selectLike publishers authstring) with
    | none => throw (.noPublisherMatch authstring)
    | some token => pure token

/-- `check_auth_hybrid`. -/
def checkAuthHybrid (publishers : List PublisherRow) (authstring : List Char) :
    Fallible HydraError String := do
  let authstringparm ← sliceTo 22 authstring
  match ← ofRust (selectLike publishers (authstringparm ++ ['%'])) with
  | none => throw (.noHybridPublisherMatch authstringparm)
  | some token => pure token

/-! ### The handler -/

/-- The real IP of the client is printed. -/
def checkRemoteIp (req : Request) : Fallible Response Unit :=
  match req.cfConnectingIp with
  | some remoteIp => do let _ ← unwrap remoteIp.toStr
  | none => pure ()

/-- Check for a valid authorization header in the request. -/
def checkAuthorization (publishers : List PublisherRow) (req : Request) : Fallible Response Unit :=
  match req.authorization with
  | some authHeader => do
    let authstring ← unwrap authHeader.toStr
    match ← attempt (checkAuth publishers authstring) with
    | .ok _ => pure ()
    | .error _ =>
      match ← attempt (checkAuthHybrid publishers authstring) with
      | .ok _ => pure ()
      | .error _ => throw ⟨401, "Bad Authorization header check"⟩
  | none => throw ⟨401, "Invalid Authorization header"⟩

/-- Check the user-agent. -/
def checkUserAgent (req : Request) : Fallible Response Unit :=
  match req.userAgent with
  | some uaString => do let _ ← unwrap uaString.toStr
  | none => throw ⟨401, "User-Agent header is required"⟩

/-- `s.to_lowercase()`, as far as the comparison with `http` can tell: no character outside ASCII
has one of these letters in its lower case. -/
def toLowercase (s : String) : List Char := s.toList.map Char.toLower

/-- `url.to_lowercase().find("http")`, in characters. -/
def protoSchemePos (url : String) : Option ℕ :=
  (toLowercase url).tails.findIdx? fun rest => "http".toList.isPrefixOf rest

/-- Check for a valid url parameter in the request. -/
def checkUrl (req : Request) : Fallible Response String :=
  match req.get "url" with
  | some urlIncoming => do
    bailIf (urlIncoming = "") ⟨400, "Url parameter is missing.  Call as /?url=<podcast_url>"⟩
    bailIf (protoSchemePos urlIncoming ≠ some 0)
      ⟨400, "Urls must contain a valid protocol schema prefix, like http:// or https://"⟩
    pure urlIncoming
  | none => throw ⟨400, "Url parameter is missing.  Call as /?url=<podcast_url>"⟩

/-- Check if a code exists, and parse it. -/
def checkCode {α : Type} (req : Request) (key : String) (fromStr : String → Option α) (default : α) :
    Fallible Response α :=
  match req.get key with
  | some incoming => unwrap (fromStr incoming)
  | none => pure default

/-- `handler::ping` up to the database write: the ping a request asks for, or the response that
refuses it. `landingPage` is the rendered `home.html`. -/
def admission (landingPage : Rust String) (publishers : List PublisherRow) (req : Request)
    (timestamp : ℕ) : Fallible Response Ping := do
  checkRemoteIp req
  if req.params = [] then
    let docRendered ← ofRust landingPage
    throw ⟨200, docRendered⟩
  else
    checkAuthorization publishers req
    checkUserAgent req
    let url ← checkUrl req
    let reason ← checkCode req "reason" Reason.fromStr .update
    let medium ← checkCode req "medium" Medium.fromStr .podcast
    pure { url, time := timestamp, reason, medium }

/-- `handler::ping`: what it returns and the queue it leaves. It answers `Success!` also when the
ping was not added. -/
def ping (landingPage : Rust String) (publishers : List PublisherRow) (req : Request)
    (timestamp : ℕ) (disk : Disk) (queue : Queue) : Rust Response × Queue :=
  match (admission landingPage publishers req timestamp).run with
  | .error panic => (.error panic, queue)
  | .ok (.error response) => (.ok response, queue)
  | .ok (.ok pingIn) => (.ok ⟨200, "Success!"⟩, (addPingToQueue disk pingIn queue).2)

/-! ### What the two checks let in -/

/-- A statement finds a publisher. -/
def Finds (publishers : List PublisherRow) (pattern : List Char) : Prop :=
  ∃ row, firstLike publishers pattern = some row ∧ row.name ≠ none

/-- The header is authorised by one of the two statements. -/
def LikeAuthorised (publishers : List PublisherRow) (authstring : List Char) : Prop :=
  authstring.length ≤ maxLikePatternLength ∧
    (Finds publishers authstring ∨
      firstLike publishers authstring = none ∧ 22 ≤ authstring.length ∧
        Finds publishers (authstring.take 22 ++ ['%']))

/-- The header is a stored token up to ASCII case, or its first 22 characters begin one. -/
def TokenAuthorised (publishers : List PublisherRow) (authstring : List Char) : Prop :=
  (∃ row ∈ publishers, ∃ token ∈ row.authval, authstring.map Char.toLower = toLowercase token) ∨
    22 ≤ authstring.length ∧ ∃ row ∈ publishers, ∃ token ∈ row.authval,
      (authstring.take 22).map Char.toLower <+: toLowercase token

/-- The columns of a row that a pattern selects. -/
theorem firstLike_eq_some {publishers : List PublisherRow} {pattern : List Char} {row : PublisherRow}
    (h : firstLike publishers pattern = some row) :
    row ∈ publishers ∧ ∃ token ∈ row.authval, like pattern token := by
  refine ⟨List.mem_of_find?_eq_some h, ?_⟩
  have hrow := List.find?_some h
  rwa [Option.any_eq_true] at hrow

theorem firstLike_eq_none {publishers : List PublisherRow} {pattern : List Char} :
    firstLike publishers pattern = none ↔
      ¬∃ row ∈ publishers, ∃ token ∈ row.authval, like pattern token := by
  simp only [firstLike, List.find?_eq_none, Option.any_eq_true, Option.mem_def, not_exists, not_and]

/-- What the statement returns, when it returns. -/
theorem selectLike_eq_ok {publishers : List PublisherRow} {pattern : List Char} {o : Option String} :
    selectLike publishers pattern = .ok o ↔
      (publishers ≠ [] → pattern.length ≤ maxLikePatternLength) ∧
        (firstLike publishers pattern).map PublisherRow.name = o.map some := by
  rw [selectLike]
  split_ifs with h
  · exact iff_of_false nofun fun ho => absurd (ho.1 h.1) (by omega)
  rw [and_iff_right fun hne => Nat.not_lt.1 fun hlt => h ⟨hne, hlt⟩]
  cases firstLike publishers pattern with
  | none => cases o <;> simp
  | some row =>
    cases hname : row.name with
    | none => cases o <;> simp [hname]
    | some name => cases o <;> simp [hname]

theorem selectLike_none {publishers : List PublisherRow} {pattern : List Char} :
    selectLike publishers pattern = .ok none ↔
      (publishers ≠ [] → pattern.length ≤ maxLikePatternLength) ∧
        firstLike publishers pattern = none := by
  rw [selectLike_eq_ok, Option.map_none, Option.map_eq_none_iff]

/-- A publisher is found exactly when the pattern is short enough and selects one. -/
theorem selectLike_some {publishers : List PublisherRow} {pattern : List Char} :
    (∃ name, selectLike publishers pattern = .ok (some name)) ↔
      pattern.length ≤ maxLikePatternLength ∧ Finds publishers pattern := by
  simp only [selectLike_eq_ok, exists_and_left, Option.map_some, Option.map_eq_some_iff, Finds,
    Option.ne_none_iff_exists']
  constructor
  · rintro ⟨hlen, name, row, hrow, hname⟩
    exact ⟨hlen (List.ne_nil_of_mem (firstLike_eq_some hrow).1), row, hrow, name, hname⟩
  · rintro ⟨hlen, row, hrow, name, hname⟩
    exact ⟨fun _ => hlen, name, row, hrow, hname⟩

theorem checkAuth_ok {publishers : List PublisherRow} {authstring : List Char} :
    (∃ name, (checkAuth publishers authstring).run = .ok (.ok name)) ↔
      authstring.length ≤ maxLikePatternLength ∧ Finds publishers authstring := by
  simp only [checkAuth, run_ofRust_bind, ← selectLike_some]
  constructor
  · rintro ⟨name, o, ho, h⟩
    cases o with
    | none => cases h
    | some name' => exact ⟨name', ho⟩
  · rintro ⟨name, ho⟩
    exact ⟨name, some name, ho, rfl⟩

theorem checkAuth_error {publishers : List PublisherRow} {authstring : List Char} :
    (∃ e, (checkAuth publishers authstring).run = .ok (.error e)) ↔
      (publishers ≠ [] → authstring.length ≤ maxLikePatternLength) ∧
        firstLike publishers authstring = none := by
  simp only [checkAuth, run_ofRust_bind, ← selectLike_none]
  constructor
  · rintro ⟨e, o, ho, h⟩
    cases o with
    | none => exact ho
    | some name => cases h
  · intro hnone
    exact ⟨_, none, hnone, rfl⟩

/-- The hybrid pattern is short enough. -/
theorem length_hybrid_le (authstring : List Char) :
    (authstring.take 22 ++ ['%']).length ≤ maxLikePatternLength := by
  simp only [List.length_append, List.length_take, List.length_singleton, maxLikePatternLength]
  omega

theorem checkAuthHybrid_ok {publishers : List PublisherRow} {authstring : List Char} :
    (∃ name, (checkAuthHybrid publishers authstring).run = .ok (.ok name)) ↔
      22 ≤ authstring.length ∧ Finds publishers (authstring.take 22 ++ ['%']) := by
  rw [← and_iff_right (a := _ ≤ _) (length_hybrid_le authstring) (b := Finds _ _),
    ← selectLike_some]
  show (∃ name, Yields (checkAuthHybrid publishers authstring) name) ↔ _
  simp only [checkAuthHybrid, yields_sliceTo_bind, exists_and_left]
  refine and_congr_right fun _ => ?_
  simp only [Yields, run_ofRust_bind]
  constructor
  · rintro ⟨name, o, ho, h⟩
    cases o with
    | none => cases h
    | some name' => exact ⟨name', ho⟩
  · rintro ⟨name, ho⟩
    exact ⟨name, some name, ho, rfl⟩

theorem yields_checkAuthorization {publishers : List PublisherRow} {req : Request} {u : Unit} :
    Yields (checkAuthorization publishers req) u ↔
      ∃ authstring, req.authstring = some authstring ∧ LikeAuthorised publishers authstring := by
  rw [checkAuthorization, Request.authstring]
  cases req.authorization with
  | none => exact iff_of_false yields_throw nofun
  | some authHeader =>
    simp only [Option.bind_some, yields_bind, yields_unwrap, yields_attempt]
    refine exists_congr fun authstring => and_congr_right fun _ => ?_
    constructor
    · rintro ⟨r, hr, h⟩
      cases r with
      | ok name =>
        obtain ⟨hlen, hfinds⟩ := checkAuth_ok.1 ⟨name, hr⟩
        exact ⟨hlen, .inl hfinds⟩
      | error e =>
        obtain ⟨hlen, hnone⟩ := checkAuth_error.1 ⟨e, hr⟩
        obtain ⟨r', hr', h⟩ := yields_bind.1 h
        cases r' with
        | ok name =>
          obtain ⟨h22, row, hrow, hname⟩ := checkAuthHybrid_ok.1 ⟨name, yields_attempt.1 hr'⟩
          have hne : publishers ≠ [] := List.ne_nil_of_mem (firstLike_eq_some hrow).1
          exact ⟨hlen hne, .inr ⟨hnone, h22, row, hrow, hname⟩⟩
        | error e' => exact absurd h yields_throw
    · rintro ⟨hlen, hfinds | ⟨hnone, hhybrid⟩⟩
      · obtain ⟨name, hname⟩ := checkAuth_ok.2 ⟨hlen, hfinds⟩
        exact ⟨.ok name, hname, yields_pure.2 rfl⟩
      · obtain ⟨e, he⟩ := checkAuth_error.2 ⟨fun _ => hlen, hnone⟩
        obtain ⟨name, hname⟩ := checkAuthHybrid_ok.2 hhybrid
        exact ⟨.error e, he, yields_bind.2 ⟨.ok name, yields_attempt.2 hname, yields_pure.2 rfl⟩⟩

/-- A pattern without wildcards. -/
def Literal (pattern : List Char) : Prop := ∀ c ∈ pattern, c ≠ '%' ∧ c ≠ '_'

theorem Literal.map_likeToken {pattern : List Char} (h : Literal pattern) :
    pattern.map likeToken = Like.lits pattern := by
  refine List.map_congr_left fun c hc => ?_
  obtain ⟨hany, hone⟩ := h c hc
  unfold likeToken
  split
  · exact absurd rfl hany
  · exact absurd rfl hone
  · rfl

theorem forall₂_sameLetter {l s : List Char} :
    List.Forall₂ (fun a b => sameLetter a b) l s ↔ l.map Char.toLower = s.map Char.toLower := by
  rw [← List.forall₂_eq_eq_eq, List.forall₂_map_left_iff, List.forall₂_map_right_iff]
  simp only [sameLetter, beq_iff_eq]

/-- Without wildcards, `LIKE` compares up to ASCII case. -/
theorem Literal.like_iff {pattern : List Char} (h : Literal pattern) {text : String} :
    like pattern text ↔ pattern.map Char.toLower = toLowercase text := by
  rw [like, h.map_likeToken, Like.accepts_iff, Like.mem_lang_lits, forall₂_sameLetter, toLowercase]

/-- With `%` appended, it compares the beginning. -/
theorem Literal.like_append_iff {pattern : List Char} (h : Literal pattern) {text : String} :
    like (pattern ++ ['%']) text ↔ pattern.map Char.toLower <+: toLowercase text := by
  rw [like, List.map_append, h.map_likeToken, Like.accepts_iff]
  show text.toList ∈ Like.lang sameLetter (Like.lits pattern ++ [.any]) ↔ _
  rw [Like.mem_lang_lits_any]
  simp only [forall₂_sameLetter]
  constructor
  · rintro ⟨u, ⟨v, huv⟩, hu⟩
    exact ⟨v.map Char.toLower, by rw [hu, ← List.map_append, huv, toLowercase]⟩
  · intro hp
    refine ⟨text.toList.take pattern.length, List.take_prefix _ _, ?_⟩
    rw [List.map_take, ← List.length_map Char.toLower]
    exact List.prefix_iff_eq_take.1 hp

/-- **For a header without wildcards the two statements look for a token**, if no name is `NULL`. -/
theorem likeAuthorised_iff_of_literal {publishers : List PublisherRow} {authstring : List Char}
    (h : Literal authstring) (hnames : ∀ row ∈ publishers, row.name ≠ none) :
    LikeAuthorised publishers authstring ↔
      authstring.length ≤ maxLikePatternLength ∧ TokenAuthorised publishers authstring := by
  have htake : Literal (authstring.take 22) := fun c hc => h c (List.mem_of_mem_take hc)
  have hfinds : ∀ pattern, Finds publishers pattern ↔
      ∃ row ∈ publishers, ∃ token ∈ row.authval, like pattern token := by
    intro pattern
    rw [← not_iff_not, ← firstLike_eq_none, Finds]
    cases hfirst : firstLike publishers pattern with
    | none => simp
    | some row => simpa using hnames row (firstLike_eq_some hfirst).1
  refine and_congr_right fun _ => ?_
  rw [firstLike_eq_none, ← hfinds]
  simp only [TokenAuthorised, ← h.like_iff, ← htake.like_append_iff, ← hfinds]
  tauto

/-- Such a header is authorised by a token only. -/
theorem LikeAuthorised.token {publishers : List PublisherRow} {authstring : List Char}
    (hlike : LikeAuthorised publishers authstring) (h : Literal authstring) :
    TokenAuthorised publishers authstring := by
  have htake : Literal (authstring.take 22) := fun c hc => h c (List.mem_of_mem_take hc)
  obtain ⟨-, ⟨row, hrow, -⟩ | ⟨-, h22, row, hrow, -⟩⟩ := hlike
  · obtain ⟨hmem, token, htoken, hmatch⟩ := firstLike_eq_some hrow
    exact .inl ⟨row, hmem, token, htoken, h.like_iff.1 hmatch⟩
  · obtain ⟨hmem, token, htoken, hmatch⟩ := firstLike_eq_some hrow
    exact .inr ⟨h22, row, hmem, token, htoken, htake.like_append_iff.1 hmatch⟩

/-! ### What the handler lets in -/

/-- The value of an optional code parameter is `code`. -/
def HasCode {α : Type} (req : Request) (key : String) (fromStr : String → Option α) (default code : α) :
    Prop :=
  match req.get key with
  | some incoming => fromStr incoming = some code
  | none => default = code

/-- The request passes every check but that of its authorization, and asks for `p`. -/
structure Asks (req : Request) (timestamp : ℕ) (p : Ping) : Prop where
  /-- It has parameters. -/
  params : req.params ≠ []
  /-- The IP header, if any, is text. -/
  remoteIp : ∀ ip, req.cfConnectingIp = some ip → ip.toStr ≠ none
  /-- There is a user agent, and it is text. -/
  userAgent : ∃ ua, req.userAgent = some ua ∧ ua.toStr ≠ none
  /-- The url. -/
  url : req.get "url" = some p.url
  /-- It is not empty. -/
  nonempty : p.url ≠ ""
  /-- It begins with `http`. -/
  http : "http".toList <+: toLowercase p.url
  /-- The time of the request. -/
  time : p.time = timestamp
  /-- The reason, an update by default. -/
  reason : HasCode req "reason" Reason.fromStr .update p.reason
  /-- The medium, a podcast by default. -/
  medium : HasCode req "medium" Medium.fromStr .podcast p.medium

theorem yields_checkCode {α : Type} {req : Request} {key : String} {fromStr : String → Option α}
    {default code : α} :
    Yields (checkCode req key fromStr default) code ↔ HasCode req key fromStr default code := by
  rw [checkCode, HasCode]
  cases req.get key with
  | none => exact yields_pure
  | some incoming => exact yields_unwrap

theorem yields_checkRemoteIp {req : Request} {u : Unit} :
    Yields (checkRemoteIp req) u ↔ ∀ ip, req.cfConnectingIp = some ip → ip.toStr ≠ none := by
  rw [checkRemoteIp]
  cases req.cfConnectingIp with
  | none => exact iff_of_true (yields_pure.2 rfl) nofun
  | some ip =>
    simp only [yields_bind, yields_unwrap, yields_pure, and_true, Option.some.injEq, forall_eq',
      Option.ne_none_iff_exists']

theorem yields_checkUserAgent {req : Request} {u : Unit} :
    Yields (checkUserAgent req) u ↔ ∃ ua, req.userAgent = some ua ∧ ua.toStr ≠ none := by
  rw [checkUserAgent]
  cases req.userAgent with
  | none => exact iff_of_false yields_throw nofun
  | some ua =>
    simp only [yields_bind, yields_unwrap, yields_pure, and_true, Option.some.injEq,
      exists_eq_left', Option.ne_none_iff_exists']

theorem protoSchemePos_eq_zero {url : String} :
    protoSchemePos url = some 0 ↔ "http".toList <+: toLowercase url := by
  rw [protoSchemePos]
  cases toLowercase url with
  | nil => simp
  | cons c rest => simp [List.findIdx?_cons]

theorem yields_checkUrl {req : Request} {url : String} :
    Yields (checkUrl req) url ↔
      req.get "url" = some url ∧ url ≠ "" ∧ "http".toList <+: toLowercase url := by
  rw [checkUrl]
  cases req.get "url" with
  | none => exact iff_of_false yields_throw nofun
  | some urlIncoming =>
    simp only [yields_bind, yields_bailIf, yields_pure, protoSchemePos_eq_zero, not_not]
    constructor
    · rintro ⟨-, hne, -, hhttp, rfl⟩
      exact ⟨rfl, hne, hhttp⟩
    · rintro ⟨h, hne, hhttp⟩
      cases h
      exact ⟨(), hne, (), hhttp, rfl⟩

theorem yields_admission {landingPage : Rust String} {publishers : List PublisherRow} {req : Request}
    {timestamp : ℕ} {p : Ping} :
    Yields (admission landingPage publishers req timestamp) p ↔
      (∃ authstring, req.authstring = some authstring ∧ LikeAuthorised publishers authstring) ∧
        Asks req timestamp p := by
  rw [admission]
  split_ifs with hparams
  · refine iff_of_false ?_ fun h => h.2.params hparams
    simp only [yields_bind, yields_throw, and_false, exists_false, not_false_eq_true]
  · simp only [yields_bind, yields_checkRemoteIp, yields_checkAuthorization, yields_checkUserAgent,
      yields_checkUrl, yields_checkCode, yields_pure]
    constructor
    · rintro ⟨-, hip, -, hauth, -, hua, url, hurl, reason, hreason, medium, hmedium, rfl⟩
      exact ⟨hauth, hparams, hip, hua, hurl.1, hurl.2.1, hurl.2.2, rfl, hreason, hmedium⟩
    · rintro ⟨hauth, h⟩
      refine ⟨(), h.remoteIp, (), hauth, (), h.userAgent, p.url, ⟨h.url, h.nonempty, h.http⟩,
        p.reason, h.reason, p.medium, h.medium, ?_⟩
      rw [← h.time]

/-- The url parameter begins with `http://` or `https://`, up to case. -/
def HttpUrl (req : Request) : Prop :=
  ∃ url, req.get "url" = some url ∧
    ("http://".toList <+: toLowercase url ∨ "https://".toList <+: toLowercase url)

/-- The authorization header is a stored token, or begins like one. -/
def TokenHeader (publishers : List PublisherRow) (req : Request) : Prop :=
  ∃ authstring, req.authstring = some authstring ∧ TokenAuthorised publishers authstring

/-- The request is let in by the header as a pattern alone, or with a url that goes on otherwise
after `http`. -/
def LetInWrongly (publishers : List PublisherRow) (req : Request) (p : Ping) : Prop :=
  ∃ authstring, req.authstring = some authstring ∧ LikeAuthorised publishers authstring ∧
    (TokenAuthorised publishers authstring →
      ¬("http://".toList <+: toLowercase p.url ∨ "https://".toList <+: toLowercase p.url))

/-- A request changes the queue by the ping it asks for. -/
theorem ping_changes_iff {landingPage : Rust String} {publishers : List PublisherRow} {req : Request}
    {timestamp : ℕ} {disk : Disk} {queue : Queue} :
    (ping landingPage publishers req timestamp disk queue).2 ≠ queue ↔
      ∃ p, Yields (admission landingPage publishers req timestamp) p ∧ Takes disk p queue := by
  simp only [ping, Yields]
  cases h : (admission landingPage publishers req timestamp).run with
  | error panic => simp
  | ok r =>
    cases r with
    | error response => simp
    | ok pingIn => simp [addPingToQueue_changes_iff]

/-- **Admission**: a request changes the queue only with a token and a url with a scheme, if and
only if it does not ask, in every other respect as it should, for a ping that changes the queue
while it is let in wrongly. -/
theorem ping_admission_iff (landingPage : Rust String) (publishers : List PublisherRow)
    (req : Request) (timestamp : ℕ) (disk : Disk) (queue : Queue) :
    ((ping landingPage publishers req timestamp disk queue).2 ≠ queue →
        TokenHeader publishers req ∧ HttpUrl req) ↔
      ¬∃ p, Asks req timestamp p ∧ Takes disk p queue ∧ LetInWrongly publishers req p := by
  rw [ping_changes_iff]
  simp only [yields_admission]
  constructor
  · rintro h ⟨p, hasks, htakes, authstring, hstr, hlike, hwrong⟩
    obtain ⟨⟨authstring', hstr', htoken⟩, url, hurl, hscheme⟩ :=
      h ⟨p, ⟨⟨authstring, hstr, hlike⟩, hasks⟩, htakes⟩
    cases hstr.symm.trans hstr'
    cases hasks.url.symm.trans hurl
    exact hwrong htoken hscheme
  · rintro h ⟨p, ⟨⟨authstring, hstr, hlike⟩, hasks⟩, htakes⟩
    by_contra hno
    refine h ⟨p, hasks, htakes, authstring, hstr, hlike, fun htoken hscheme => hno ?_⟩
    exact ⟨⟨authstring, hstr, htoken⟩, p.url, hasks.url, hscheme⟩

/-- The header `%` adds a feed without any token, and the token adds a url that is none. -/
theorem wildcard_header_adds :
    let publishers : List PublisherRow := [⟨"blah", "Blahblah^^12345678"⟩]
    let token : HeaderValue := [66, 108, 97, 104, 98, 108, 97, 104, 94, 94, 49, 50, 51, 52, 53, 54, 55, 56]
    let wild : Request := ⟨some [("url", "http://a")], none, some [37], some [97]⟩
    let bare : Request := ⟨some [("url", "httpa")], none, some token, some [97]⟩
    ((ping (.ok "") publishers wild 0 ⟨true, true⟩ .empty).2 ≠ .empty ∧ ¬TokenHeader publishers wild) ∧
      (ping (.ok "") publishers bare 0 ⟨true, true⟩ .empty).2 ≠ .empty ∧ ¬HttpUrl bare := by
  refine ⟨⟨by decide, ?_⟩, by decide, ?_⟩
  · rintro ⟨_, hstr, htoken⟩
    cases hstr
    revert htoken
    rw [TokenAuthorised]
    decide
  · rintro ⟨_, hurl, hscheme⟩
    cases hurl
    revert hscheme
    decide

end PodpingAlpha.FrontEnd
