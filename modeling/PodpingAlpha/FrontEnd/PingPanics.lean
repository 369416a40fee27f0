import PodpingAlpha.FrontEnd.Handler

/-!
# Requests that crash the front-end

A panic in `handler::ping` ends the whole process, by the hook that `main` installs. Headers are
printed with `to_str().unwrap()`, codes are parsed with `unwrap()`, the rows of the publishers table
are unwrapped, and `check_auth_hybrid` cuts the token at 22 bytes whatever its length.

## What is proved

* `returns_checkAuthorization` — when the check of the header, which anybody may send, goes through.
* `ping_returns_iff` — a request with parameters gets a response exactly when it is harmless: every
  header and code that the handler comes to is readable, and so is every row it selects.
-/

namespace PodpingAlpha.FrontEnd

open Outcome

/-- The header can be looked up. -/
structure SafeLookup (publishers : List PublisherRow) (authstring : List Char) : Prop where
  /-- SQLite takes it for a pattern. -/
  short : publishers ≠ [] → authstring.length ≤ maxLikePatternLength
  /-- The row it selects has a name. -/
  named : ∀ row, firstLike publishers authstring = some row → row.name ≠ none
  /-- If it selects none, it can be cut, and the row that the first part selects has a name. -/
  hybrid : firstLike publishers authstring = none → 22 ≤ authstring.length ∧
    ∀ row, firstLike publishers (authstring.take 22 ++ ['%']) = some row → row.name ≠ none

/-- The header is authorised. -/
def Authorised (publishers : List PublisherRow) (req : Request) : Prop :=
  ∃ authstring, req.authstring = some authstring ∧ LikeAuthorised publishers authstring

/-- The handler comes to the codes. -/
structure ReadsCodes (publishers : List PublisherRow) (req : Request) : Prop where
  /-- The header is authorised. -/
  authorised : Authorised publishers req
  /-- There is a user agent. -/
  userAgent : req.userAgent ≠ none
  /-- The url passes its check. -/
  url : ∃ url, req.get "url" = some url ∧ url ≠ "" ∧ "http".toList <+: toLowercase url

/-- The request does not make the handler panic. -/
structure Harmless (publishers : List PublisherRow) (req : Request) : Prop where
  /-- The IP header, if any, is text. -/
  remoteIp : ∀ ip, req.cfConnectingIp = some ip → ip.toStr ≠ none
  /-- The authorization header, if any, is text that can be looked up. -/
  authorization : ∀ header, req.authorization = some header →
    ∃ authstring, header.toStr = some authstring ∧ SafeLookup publishers authstring
  /-- The user agent, if the handler comes to it, is text. -/
  userAgent : Authorised publishers req → ∀ ua, req.userAgent = some ua → ua.toStr ≠ none
  /-- The reason, if the handler comes to it, is known. -/
  reason : ReadsCodes publishers req →
    ∀ incoming, req.get "reason" = some incoming → Reason.fromStr incoming ≠ none
  /-- So is the medium. -/
  medium : ReadsCodes publishers req →
    ∀ incoming, req.get "medium" = some incoming → Medium.fromStr incoming ≠ none

/-! ### The checks -/

section
variable {publishers : List PublisherRow} {req : Request}

/-- The statement goes through. -/
theorem selectLike_returns {pattern : List Char} : (∃ o, selectLike publishers pattern = .ok o) ↔
    (publishers ≠ [] → pattern.length ≤ maxLikePatternLength) ∧
      ∀ row, firstLike publishers pattern = some row → row.name ≠ none := by
  simp only [selectLike_eq_ok, exists_and_left]
  refine and_congr_right fun _ => ?_
  cases firstLike publishers pattern with
  | none => exact iff_of_true ⟨none, rfl⟩ nofun
  | some row =>
    simp only [Option.map_some, Option.some.injEq, forall_eq']
    constructor
    · rintro ⟨o, ho⟩ hname
      rw [hname] at ho
      cases o <;> cases ho
    · intro hname
      obtain ⟨name, hname⟩ := Option.ne_none_iff_exists'.1 hname
      exact ⟨some name, congrArg some hname⟩

theorem returns_checkAuth {authstring : List Char} : Returns (checkAuth publishers authstring) ↔
    (publishers ≠ [] → authstring.length ≤ maxLikePatternLength) ∧
      ∀ row, firstLike publishers authstring = some row → row.name ≠ none := by
  rw [checkAuth, returns_bind, returns_ofRust, selectLike_returns, and_iff_left]
  rintro (_ | name) -
  · exact returns_throw _
  · exact returns_pure _

theorem returns_checkAuthHybrid {authstring : List Char} :
    Returns (checkAuthHybrid publishers authstring) ↔ 22 ≤ authstring.length ∧
      ∀ row, firstLike publishers (authstring.take 22 ++ ['%']) = some row → row.name ≠ none := by
  rw [checkAuthHybrid, returns_sliceTo_bind]
  refine and_congr_right fun _ => ?_
  rw [returns_bind, returns_ofRust, selectLike_returns, and_iff_right fun _ => length_hybrid_le _,
    and_iff_left]
  rintro (_ | name) -
  · exact returns_throw _
  · exact returns_pure _

/-- The authorization goes through when the header is text and can be looked up. -/
theorem returns_checkAuthorization : Returns (checkAuthorization publishers req) ↔
    ∀ header, req.authorization = some header →
      ∃ authstring, header.toStr = some authstring ∧ SafeLookup publishers authstring := by
  rw [checkAuthorization]
  cases req.authorization with
  | none => exact iff_of_true (returns_throw _) fun _ h => by cases h
  | some header =>
    simp only [Option.some.injEq, forall_eq', returns_bind, returns_unwrap, yields_unwrap,
      returns_attempt, returns_checkAuth, yields_attempt]
    cases hstr : header.toStr with
    | none => simp
    | some authstring =>
      simp only [Option.some.injEq, forall_eq', exists_eq_left', ne_eq, not_false_eq_true, true_and,
        reduceCtorEq]
      constructor
      · rintro ⟨⟨hshort, hnamed⟩, hrest⟩
        refine ⟨hshort, hnamed, fun hnone => ?_⟩
        obtain ⟨e, he⟩ := checkAuth_error.2 ⟨hshort, hnone⟩
        exact returns_checkAuthHybrid.1 (returns_attempt.1 (returns_bind.1 (hrest _ he)).1)
      · intro h
        refine ⟨⟨h.short, h.named⟩, fun r hr => ?_⟩
        cases r with
        | ok name => exact returns_pure _
        | error e =>
          obtain ⟨-, hnone⟩ := checkAuth_error.1 ⟨e, hr⟩
          have hhybrid := returns_checkAuthHybrid.2 (h.hybrid hnone)
          refine returns_bind.2 ⟨returns_attempt.2 hhybrid, fun r' _ => ?_⟩
          cases r' with
          | ok name => exact returns_pure _
          | error e' => exact returns_throw _

theorem returns_checkRemoteIp : Returns (checkRemoteIp req) ↔
    ∀ ip, req.cfConnectingIp = some ip → ip.toStr ≠ none := by
  rw [checkRemoteIp]
  cases req.cfConnectingIp with
  | none => exact iff_of_true (returns_pure _) fun _ h => by cases h
  | some ip =>
    simp only [returns_bind, returns_unwrap, returns_pure, implies_true, and_true,
      Option.some.injEq, forall_eq']

theorem returns_checkUserAgent : Returns (checkUserAgent req) ↔
    ∀ ua, req.userAgent = some ua → ua.toStr ≠ none := by
  rw [checkUserAgent]
  cases req.userAgent with
  | none => exact iff_of_true (returns_throw _) fun _ h => by cases h
  | some ua =>
    simp only [returns_bind, returns_unwrap, returns_pure, implies_true, and_true,
      Option.some.injEq, forall_eq']

theorem returns_checkUrl : Returns (checkUrl req) := by
  rw [checkUrl]
  cases req.get "url" with
  | none => exact returns_throw _
  | some urlIncoming =>
    exact returns_bailIf_bind.2 fun _ => returns_bailIf_bind.2 fun _ => returns_pure _

theorem returns_checkCode {α : Type} {key : String} {fromStr : String → Option α} {default : α} :
    Returns (checkCode req key fromStr default) ↔
      ∀ incoming, req.get key = some incoming → fromStr incoming ≠ none := by
  rw [checkCode]
  cases req.get key with
  | none => exact iff_of_true (returns_pure _) fun _ h => by cases h
  | some incoming => simp

/-! ### The handler -/

/-- A code that is known where it is given is parsed. -/
theorem exists_hasCode {α : Type} {key : String} {fromStr : String → Option α} (default : α)
    (h : ∀ incoming, req.get key = some incoming → fromStr incoming ≠ none) :
    ∃ code, HasCode req key fromStr default code := by
  unfold HasCode
  cases hget : req.get key with
  | none => exact ⟨default, rfl⟩
  | some incoming => exact Option.ne_none_iff_exists'.1 (h incoming hget)

/-- The handler decides on a request with parameters exactly when it is harmless. -/
theorem returns_admission (landingPage : Rust String) (timestamp : ℕ) (hparams : req.params ≠ []) :
    Returns (admission landingPage publishers req timestamp) ↔ Harmless publishers req := by
  simp only [admission, if_neg hparams, returns_bind, returns_checkRemoteIp,
    returns_checkAuthorization, returns_checkUserAgent, returns_checkCode, returns_pure,
    yields_checkRemoteIp, yields_checkAuthorization, yields_checkUserAgent, yields_checkUrl,
    yields_checkCode, returns_checkUrl, true_and, implies_true, and_true]
  constructor
  · rintro ⟨hip, hafterIp⟩
    obtain ⟨hauth, hafterAuth⟩ := hafterIp () hip
    have hua (h : ReadsCodes publishers req) : ∃ ua, req.userAgent = some ua ∧ ua.toStr ≠ none := by
      obtain ⟨ua, hua⟩ := Option.ne_none_iff_exists'.1 h.userAgent
      exact ⟨ua, hua, (hafterAuth () h.authorised).1 ua hua⟩
    refine ⟨hip, hauth, fun ha => (hafterAuth () ha).1, fun h => ?_, fun h => ?_⟩
    · obtain ⟨url, hurl⟩ := h.url
      exact ((hafterAuth () h.authorised).2 () (hua h) url hurl).1
    · obtain ⟨url, hurl⟩ := h.url
      obtain ⟨hreason, hafterReason⟩ := (hafterAuth () h.authorised).2 () (hua h) url hurl
      obtain ⟨reason, hhas⟩ := exists_hasCode .update hreason
      exact hafterReason reason hhas
  · intro h
    refine ⟨h.remoteIp, fun _ _ => ⟨h.authorization, fun _ ha => ⟨h.userAgent ha, ?_⟩⟩⟩
    rintro - ⟨ua, hua, -⟩ url hurl
    have hreads : ReadsCodes publishers req := ⟨ha, by simp [hua], url, hurl⟩
    exact ⟨h.reason hreads, fun _ _ => h.medium hreads⟩

end

/-- **A request with parameters gets a response exactly when it is harmless**, whatever the
publishers table, the queue and the outcome of the statements. -/
theorem ping_returns_iff (landingPage : Rust String) (publishers : List PublisherRow)
    (req : Request) (timestamp : ℕ) (disk : Disk) (queue : Queue) (hparams : req.params ≠ []) :
    (∃ response, (ping landingPage publishers req timestamp disk queue).1 = .ok response) ↔
      Harmless publishers req := by
  rw [← returns_admission landingPage timestamp hparams, Returns, ping]
  cases (admission landingPage publishers req timestamp).run with
  | error panic =>
    refine iff_of_false ?_ ?_
    · rintro ⟨_, h⟩
      cases h
    · rintro ⟨_, h⟩
      cases h
  | ok r =>
    cases r with
    | error response => exact iff_of_true ⟨response, rfl⟩ ⟨_, rfl⟩
    | ok pingIn => exact iff_of_true ⟨_, rfl⟩ ⟨_, rfl⟩

/-- A publisher with a token. -/
def tokenPublishers : List PublisherRow := [⟨"blah", "Blahblah^^12345678"⟩]

/-- A request with its token that says what happened and to what. -/
def tokenRequest : Request where
  query := some [("url", "http://a"), ("reason", "live"), ("medium", "music")]
  cfConnectingIp := some ("127.0.0.1".toList.map fun c => UInt8.ofNat c.toNat)
  authorization := some ("Blahblah^^12345678".toList.map fun c => UInt8.ofNat c.toNat)
  userAgent := some ("curl".toList.map fun c => UInt8.ofNat c.toNat)

theorem ping_returns_iff_authorised :
    ∃ response, (ping (.ok "") tokenPublishers tokenRequest 0 ⟨true, true⟩ .empty).1 = .ok response := by
  have hrow : firstLike tokenPublishers "Blahblah^^12345678".toList = some ⟨"blah", "Blahblah^^12345678"⟩ :=
    rfl
  refine (ping_returns_iff _ _ _ _ _ _ (by decide)).2 ⟨fun ip h => ?_, fun header h => ?_, fun _ ua h => ?_,
    fun _ incoming h => ?_, fun _ incoming h => ?_⟩
  · cases h
    decide
  · cases h
    refine ⟨"Blahblah^^12345678".toList, by decide, fun _ => by decide, fun row h => ?_, fun h => ?_⟩
    · cases hrow.symm.trans h
      exact Option.some_ne_none _
    · cases hrow.symm.trans h
  · cases h
    decide
  · cases h
    decide
  · cases h
    decide

/-- The header `a`, which is no token. -/
def shortHeader : Request := ⟨some [("url", "http://a")], none, some [97], some [97]⟩

/-- A short header that is no token makes the handler panic. -/
theorem short_header_panics :
    ¬∃ response, (ping (.ok "") [⟨"blah", "Blahblah^^12345678"⟩] shortHeader 0 ⟨true, true⟩
      .empty).1 = .ok response := by
  rintro ⟨response, h⟩
  cases h

end PodpingAlpha.FrontEnd
