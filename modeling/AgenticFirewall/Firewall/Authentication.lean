import AgenticFirewall.Lib.Digest
import AgenticFirewall.Storage.Database

/-!
# Session identity

`app/firewall/authentication.py`. The digest function is a parameter of
the model; what is said about digests beyond their alphabet is a
hypothesis of the result that needs it.
-/

namespace AgenticFirewall

open Py

/-- `hashlib.sha256(·).hexdigest()`. -/
structure Sha256 where
  hexdigest : List UInt8 → Str
  hex : ∀ bs, (hexdigest bs).all isHexDigit = true

/-- `_sha256` -/
def Sha256.text (h : Sha256) (value : Str) : Str := h.hexdigest (encodeSurrogatepass value)

theorem Sha256.encodable_hexdigest (h : Sha256) (bs : List UInt8) :
    Encodable (h.hexdigest bs) := by
  refine encodable_of_class (fun c hc => ?_) (h.hex bs)
  have h9 : '9'.toNat = 0x39 := rfl
  have hf : 'f'.toNat = 0x66 := rfl
  simp only [isHexDigit, isDigit, inRange, Bool.or_eq_true, Bool.and_eq_true,
    decide_eq_true_eq] at hc
  omega

theorem Sha256.encodable_text (h : Sha256) (value : Str) : Encodable (h.text value) :=
  h.encodable_hexdigest _

/-- The digest of a text as it is stored. -/
def Sha256.digest (h : Sha256) (value : Str) : Text := ⟨h.text value, h.encodable_text value⟩

@[simp] theorem Sha256.bindText_text (h : Sha256) (value : Str) :
    bindText (h.text value) = .ok (h.digest value) :=
  bindText_encodable _

theorem Sha256.text_injective {h : Sha256} (hinj : Function.Injective h.hexdigest) :
    Function.Injective h.text :=
  hinj.comp encodeSurrogatepass_injective

/-- An injective digest that takes the given values. -/
def Sha256.agreeing (pairs : List (List UInt8 × List UInt8)) : Sha256 where
  hexdigest bs := hexText (exchange pairs bs)
  hex _ := hexText_all _

theorem Sha256.agreeing_injective (pairs : List (List UInt8 × List UInt8)) :
    Function.Injective (Sha256.agreeing pairs).hexdigest :=
  hexText_injective.comp (exchange_injective pairs)

/-- `USER_ID_RE.fullmatch` -/
def validUserId (userId : Str) : Bool :=
  decide (1 ≤ userId.length) && decide (userId.length ≤ 64) &&
    userId.all fun c => isAsciiAlnum c || oneOf "_.@-" c

theorem encodable_of_validUserId {userId : Str} (h : validUserId userId = true) :
    Encodable userId := by
  simp only [validUserId, Bool.and_eq_true] at h
  exact encodable_of_alnum h.2

def minApiKeyLen : Nat := 16

def maxSessionIdLen : Nat := 256

def dummyCredential : Str := str "dummy-credential-used-for-constant-time-comparison"

namespace Authenticator

variable (h : Sha256)

def registerUser (userId role apiKey : Str) (db : Database) : Except Exc Database :=
  if !validUserId userId then
    .error (.valueError (str "user_id must be 1-64 chars of letters, digits, _ . @ -"))
  else if apiKey.length < minApiKeyLen then
    .error (.valueError (str "api_key must be at least 16 characters"))
  else if role = [] then .error (.valueError (str "role must not be empty"))
  else db.addUser userId role (h.text apiKey)

/-- `token` is the fresh `secrets.token_urlsafe(32)`, `now` the clock after
the key was checked. -/
def login (ttl : Nat) (now : ℚ) (token userId apiKey : Str) (db : Database) :
    Except Exc ((Str × UserSession) × Database) := do
  let row ← if validUserId userId then db.getUser userId else pure none
  let supplied := h.text apiKey
  match row with
  | none =>
      -- the dummy hash is compared so that both cases take the same path
      let _ := supplied == h.text dummyCredential
      throw (.authError (str "invalid credentials"))
  | some (uid, user) =>
      if supplied = user.apiKeyHash.val then
        let sessionHash := h.text token
        let db ← db.createSession sessionHash uid.val now (now + ttl)
        return ((token,
          { userId := uid.val, role := user.role.val, sessionRef := sessionHash.take 12,
            createdAt := now, expiresAt := now + ttl }), db)
      else throw (.authError (str "invalid credentials"))

def validate (now : ℚ) (sessionId : Str) (db : Database) : Except Exc UserSession := do
  if sessionId = [] then throw (.authError (str "missing session"))
  if maxSessionIdLen < sessionId.length then throw (.authError (str "invalid session"))
  let sessionHash := h.text sessionId
  match ← db.getSession sessionHash with
  | none => throw (.authError (str "invalid session"))
  | some (row, role) =>
      if row.revoked then throw (.authError (str "session revoked"))
      if row.expiresAt ≤ now then throw (.authError (str "session expired"))
      return { userId := row.userId.val, role := role.val, sessionRef := sessionHash.take 12,
               createdAt := row.createdAt, expiresAt := row.expiresAt }

def revoke (sessionId : Str) (db : Database) : Except Exc (Bool × Database) :=
  db.revokeSession (h.text sessionId)

/-! ## What a validated session is -/

/-- The session that stands under a session id at `now`: a row that is not
revoked and has not expired, with its user's current role. -/
structure Live (now : ℚ) (sessionId : Str) (db : Database) (session : UserSession) : Prop where
  nonempty : sessionId ≠ []
  short : sessionId.length ≤ maxSessionIdLen
  stored : ∃ row user, db.sessions.get ⟨h.text sessionId, h.encodable_text sessionId⟩ = some row ∧
    db.users.get row.userId = some user ∧ row.revoked = false ∧ now < row.expiresAt ∧
    session =
      { userId := row.userId.val, role := user.role.val
        sessionRef := (h.text sessionId).take 12
        createdAt := row.createdAt, expiresAt := row.expiresAt }

section Validate

variable {h} {now : ℚ} {sessionId : Str} {db : Database} {session : UserSession}

theorem getSession_eq : db.getSession (h.text sessionId) =
    .ok (do
      let row ← db.sessions.get ⟨h.text sessionId, h.encodable_text sessionId⟩
      let user ← db.users.get row.userId
      some (row, user.role)) := by
  simp [Database.getSession, bindText_encodable (h.encodable_text sessionId), bind, Except.bind,
    pure, Except.pure]

/-- `validate` returns a live session or raises `AuthError` with a fixed
message. -/
theorem validate_cases (h : Sha256) (now : ℚ) (sessionId : Str) (db : Database) :
    (∃ session, validate h now sessionId db = .ok session ∧ Live h now sessionId db session) ∨
      ∃ msg : String, validate h now sessionId db = .error (.authError (str msg)) := by
  have hthrow : ∀ {α : Type} (e : Exc), (throw e : Except Exc α) = .error e := fun _ => rfl
  unfold validate
  by_cases hempty : sessionId = []
  · exact .inr ⟨"missing session", by simp [hempty, hthrow, bind, Except.bind]⟩
  by_cases hlong : maxSessionIdLen < sessionId.length
  · exact .inr ⟨"invalid session", by simp [hempty, hlong, hthrow, bind, Except.bind]⟩
  simp only [hempty, hlong, if_false, getSession_eq]
  cases hrow : db.sessions.get ⟨h.text sessionId, h.encodable_text sessionId⟩ with
  | none => exact .inr ⟨"invalid session", rfl⟩
  | some row =>
      cases huser : db.users.get row.userId with
      | none => exact .inr ⟨"invalid session", by simp [huser, hthrow, bind, Except.bind]⟩
      | some user =>
          by_cases hrevoked : row.revoked = true
          · exact .inr ⟨"session revoked", by simp [huser, hrevoked, hthrow, bind, Except.bind]⟩
          by_cases hexpired : row.expiresAt ≤ now
          · exact .inr ⟨"session expired",
              by simp [huser, hrevoked, hexpired, hthrow, bind, Except.bind]⟩
          left
          refine ⟨_, ?_, hempty, by omega, row, user, hrow, huser, by simpa using hrevoked,
            lt_of_not_ge hexpired, rfl⟩
          simp [huser, hrevoked, hexpired, bind, Except.bind, pure, Except.pure]

theorem live_of_validate (hv : validate h now sessionId db = .ok session) :
    Live h now sessionId db session := by
  rcases validate_cases h now sessionId db with ⟨session', hv', hl⟩ | ⟨msg, hv'⟩
  · obtain rfl := Except.ok.inj (hv.symm.trans hv')
    exact hl
  · cases hv.symm.trans hv'

theorem validate_of_live (hl : Live h now sessionId db session) :
    validate h now sessionId db = .ok session := by
  obtain ⟨row, user, hrow, huser, hrevoked, hexpires, rfl⟩ := hl.stored
  simp [validate, hl.nonempty, Nat.not_lt.mpr hl.short, getSession_eq, hrow, huser, hrevoked,
    not_le.mpr hexpires, bind, Except.bind, pure, Except.pure]

/-- Everything a live session says can be stored. -/
theorem Live.encodable (hl : Live h now sessionId db session) :
    Encodable session.userId ∧ Encodable session.role ∧ Encodable session.sessionRef := by
  obtain ⟨row, user, -, -, -, -, rfl⟩ := hl.stored
  refine ⟨row.userId.encodable, user.role.encodable, ?_⟩
  exact (h.encodable_text sessionId).mono fun c hc => List.mem_of_mem_take hc

end Validate

/-! ## What the other methods do -/

/-- What `register_user` accepts, if the user id is not taken. -/
structure Acceptable (userId role apiKey : Str) : Prop where
  name : validUserId userId = true
  key : minApiKeyLen ≤ apiKey.length
  nonempty : role ≠ []
  stored : Encodable role

section Spec

variable {h} {userId role apiKey token sessionId : Str} {ttl : Nat} {now : ℚ} {db db' : Database}

theorem registerUser_eq_ok : registerUser h userId role apiKey db = .ok db' ↔
    Acceptable userId role apiKey ∧ ∃ uid role' : Text, uid.val = userId ∧ role'.val = role ∧
      db.users.get uid = none ∧
      db' = { db with
        users := db.users.set uid { role := role', apiKeyHash := h.digest apiKey } } := by
  unfold registerUser
  constructor
  · intro hok
    split at hok
    · cases hok
    · rename_i hname
      split at hok
      · cases hok
      · rename_i hkey
        split at hok
        · cases hok
        · rename_i hrole
          unfold Database.addUser at hok
          obtain ⟨uid, huid, hok⟩ := except_bind_eq_ok.mp hok
          obtain ⟨role', hrole', hok⟩ := except_bind_eq_ok.mp hok
          obtain ⟨hash, hhash, hok⟩ := except_bind_eq_ok.mp hok
          rw [bindText_eq_ok] at huid hrole' hhash
          obtain rfl : hash = h.digest apiKey := Text.ext hhash
          split at hok
          · cases hok
          · rename_i hfree
            cases hok
            exact ⟨⟨by simpa using hname, Nat.not_lt.mp hkey, hrole, hrole' ▸ role'.encodable⟩,
              uid, role', huid, hrole', hfree, rfl⟩
  · rintro ⟨hacc, uid, role', huid, hrole', hfree, hdb⟩
    subst huid hrole' hdb
    simp only [hacc.name, Nat.not_lt.mpr hacc.key, hacc.nonempty, Bool.not_true,
      Bool.false_eq_true, if_false]
    unfold Database.addUser
    simp only [bindText_val, Sha256.bindText_text, bind, Except.bind, hfree]
    rfl

/-- A login that returns has found the user under its key and stores a new
session. -/
theorem login_eq_ok {p : Str × UserSession} :
    login h ttl now token userId apiKey db = .ok (p, db') ↔
      validUserId userId = true ∧ ∃ uid user, uid.val = userId ∧ db.users.get uid = some user ∧
        user.apiKeyHash.val = h.text apiKey ∧ db.sessions.get (h.digest token) = none ∧
        p = (token,
          { userId, role := user.role.val, sessionRef := (h.text token).take 12,
            createdAt := now, expiresAt := now + ttl }) ∧
        db' = { db with
          sessions := db.sessions.set (h.digest token)
            { userId := uid, createdAt := now, expiresAt := now + ttl } } := by
  unfold login
  constructor
  · intro hok
    by_cases hname : validUserId userId = true
    · simp only [hname, if_true] at hok
      obtain ⟨row, hget, hfound⟩ := except_bind_eq_ok.mp hok
      unfold Database.getUser at hget
      obtain ⟨uid, huid, hrow⟩ := except_bind_eq_ok.mp hget
      obtain rfl := bindText_eq_ok.mp huid
      cases row with
      | none => cases hfound
      | some found =>
          obtain ⟨user, huser, rfl⟩ := Option.map_eq_some_iff.mp (Except.ok.inj hrow)
          simp only at hfound
          split at hfound
          · rename_i hkey
            obtain ⟨db₁, hcreate, hdb⟩ := except_bind_eq_ok.mp hfound
            cases hdb
            unfold Database.createSession at hcreate
            simp only [Sha256.bindText_text, bindText_val, bind, Except.bind] at hcreate
            split at hcreate
            · rename_i hfree _
              cases hcreate
              exact ⟨hname, uid, user, rfl, huser, hkey.symm, hfree, rfl, rfl⟩
            · cases hcreate
          · cases hfound
    · simp only [hname] at hok
      cases hok
  · rintro ⟨hname, uid, user, huid, huser, hkey, hfree, hp, hdb⟩
    subst huid hp hdb
    simp only [hname, if_true, Database.getUser, bindText_val, huser, hkey, bind, Except.bind,
      pure, Except.pure, Option.map_some, Database.createSession,
      Sha256.bindText_text, hfree]

theorem revoke_eq : revoke h sessionId db = .ok
    (match db.sessions.get (h.digest sessionId) with
      | none => (false, db)
      | some row => (true, { db with
          sessions := db.sessions.set (h.digest sessionId) { row with revoked := true } })) := by
  unfold revoke Database.revokeSession
  simp only [Sha256.bindText_text, bind, Except.bind]
  cases db.sessions.get (h.digest sessionId) with
  | none => rfl
  | some row => rfl

end Spec

theorem sameRecords_registerUser {userId role apiKey : Str} {db db' : Database}
    (hr : registerUser h userId role apiKey db = .ok db') : SameRecords db db' := by
  obtain ⟨-, uid, role', -, -, -, rfl⟩ := registerUser_eq_ok.mp hr
  exact ⟨rfl, rfl⟩

theorem sameRecords_login {ttl : Nat} {now : ℚ} {token userId apiKey : Str}
    {p : Str × UserSession} {db db' : Database}
    (hl : login h ttl now token userId apiKey db = .ok (p, db')) : SameRecords db db' := by
  obtain ⟨-, uid, user, -, -, -, -, -, rfl⟩ := login_eq_ok.mp hl
  exact ⟨rfl, rfl⟩

end Authenticator

end AgenticFirewall
