import AgenticFirewall.Firewall.Authentication
import AgenticFirewall.Lib.Machine

/-!
# The life of a session

Two tables joined by digests answer for whole histories of `register_user`,
`login`, `revoke` and `validate`: who is registered, and which session ids
stand.
-/

namespace AgenticFirewall

open Py Transition

/-- A call of the authenticator, with the clock it reads and the token it
draws, or a change of a role in the users table. -/
inductive AuthCall where
  | registerUser (userId role apiKey : Str)
  | login (now : ℚ) (token userId apiKey : Str)
  | revoke (sessionId : Str)
  | validate (now : ℚ) (sessionId : Str)
  | setRole (userId role : Text)

/-- How a call ends. -/
inductive AuthReply where
  | done
  | loggedIn (sessionId : Str) (session : UserSession)
  | revoked (found : Bool)
  | valid (session : UserSession)
  | raised (e : Exc)

/-- The call raised or, for a revocation, found nothing. -/
def AuthReply.failed : AuthReply → Bool
  | .raised _ => true
  | .revoked found => !found
  | _ => false

namespace AuthCall

/-- What `secrets.token_urlsafe` returns to the call. -/
def token : AuthCall → Option Str
  | .login _ token _ _ => some token
  | _ => none

variable (h : Sha256) (ttl : Nat)

/-- One call on the tables. -/
def perform (db : Database) : AuthCall → AuthReply × Database
  | .registerUser userId role apiKey =>
      match Authenticator.registerUser h userId role apiKey db with
      | .ok db' => (.done, db')
      | .error e => (.raised e, db)
  | .login now token userId apiKey =>
      match Authenticator.login h ttl now token userId apiKey db with
      | .ok ((sessionId, session), db') => (.loggedIn sessionId session, db')
      | .error e => (.raised e, db)
  | .revoke sessionId =>
      match Authenticator.revoke h sessionId db with
      | .ok (found, db') => (.revoked found, db')
      | .error e => (.raised e, db)
  | .validate now sessionId =>
      match Authenticator.validate h now sessionId db with
      | .ok session => (.valid session, db)
      | .error e => (.raised e, db)
  | .setRole userId role => (.done, db.setRole userId role)

/-- The tables after a history of calls, from no users and no sessions. -/
def after (calls : List AuthCall) : Database :=
  calls.foldl (fun db call => (perform h ttl db call).2) {}

/-- What a call answers after a history. -/
def reply (calls : List AuthCall) (call : AuthCall) : AuthReply :=
  (perform h ttl (after h ttl calls) call).1

/-- The user was registered with the key. -/
def Registered (calls : List AuthCall) (userId apiKey : Str) : Prop :=
  ∃ pre role post, calls = pre ++ .registerUser userId role apiKey :: post ∧
    reply h ttl pre (.registerUser userId role apiKey) = .done

/-- A login at `now` returned the session id and the session; `since` is
what was called after it. -/
def LoggedIn (calls : List AuthCall) (sessionId : Str) (now : ℚ) (session : UserSession)
    (since : List AuthCall) : Prop :=
  ∃ pre userId apiKey, calls = pre ++ .login now sessionId userId apiKey :: since ∧
    reply h ttl pre (.login now sessionId userId apiKey) = .loggedIn sessionId session

variable {h ttl} {calls since : List AuthCall} {call : AuthCall} {db : Database}
  {userId apiKey sessionId : Str} {now : ℚ} {session : UserSession}

/-! ## What one call can do -/

inductive Effect (h : Sha256) (ttl : Nat) (db : Database) :
    AuthCall → AuthReply → Database → Prop where
  | registered {userId role apiKey : Str} {uid role' : Text}
      (hacc : Authenticator.Acceptable userId role apiKey) (huid : uid.val = userId)
      (hfree : db.users.get uid = none) :
      Effect h ttl db (.registerUser userId role apiKey) .done
        { db with users := db.users.set uid { role := role', apiKeyHash := h.digest apiKey } }
  | loggedIn {now : ℚ} {token userId apiKey : Str} {uid : Text} {user : UserRow}
      (huid : uid.val = userId) (huser : db.users.get uid = some user)
      (hkey : user.apiKeyHash.val = h.text apiKey)
      (hfree : db.sessions.get (h.digest token) = none) :
      Effect h ttl db (.login now token userId apiKey)
        (.loggedIn token
          { userId, role := user.role.val, sessionRef := (h.text token).take 12,
            createdAt := now, expiresAt := now + ttl })
        { db with
          sessions := db.sessions.set (h.digest token)
            { userId := uid, createdAt := now, expiresAt := now + ttl } }
  | revoked {sessionId : Str} {row : SessionRow}
      (hrow : db.sessions.get (h.digest sessionId) = some row) :
      Effect h ttl db (.revoke sessionId) (.revoked true)
        { db with
          sessions := db.sessions.set (h.digest sessionId) { row with revoked := true } }
  | valid {now : ℚ} {sessionId : Str} {session : UserSession} :
      Effect h ttl db (.validate now sessionId) (.valid session) db
  | roleSet {userId role : Text} :
      Effect h ttl db (.setRole userId role) .done (db.setRole userId role)
  | notFound {sessionId : Str} (hrow : db.sessions.get (h.digest sessionId) = none) :
      Effect h ttl db (.revoke sessionId) (.revoked false) db
  | raised {call : AuthCall} {e : Exc} (hcall : ∀ sessionId, call ≠ .revoke sessionId) :
      Effect h ttl db call (.raised e) db

theorem perform_effect (h : Sha256) (ttl : Nat) (db : Database) (call : AuthCall) :
    Effect h ttl db call (perform h ttl db call).1 (perform h ttl db call).2 := by
  cases call with
  | registerUser userId role apiKey =>
      simp only [perform]
      split
      · rename_i db' hok
        obtain ⟨hacc, uid, role', huid, -, hfree, rfl⟩ := Authenticator.registerUser_eq_ok.mp hok
        exact .registered hacc huid hfree
      · exact .raised (by simp)
  | login now token userId apiKey =>
      simp only [perform]
      split
      · rename_i sessionId session db' hok
        obtain ⟨-, uid, user, huid, huser, hkey, hfree, hp, rfl⟩ :=
          Authenticator.login_eq_ok.mp hok
        cases hp
        exact .loggedIn huid huser hkey hfree
      · exact .raised (by simp)
  | revoke sessionId =>
      simp only [perform, Authenticator.revoke_eq]
      cases hrow : db.sessions.get (h.digest sessionId) with
      | none => exact .notFound hrow
      | some row => exact .revoked hrow
  | validate now sessionId =>
      simp only [perform]
      split
      · exact .valid
      · exact .raised (by simp)
  | setRole userId role => exact .roleSet

/-! ## One more call -/

theorem after_concat (calls : List AuthCall) (call : AuthCall) :
    after h ttl (calls ++ [call]) = (perform h ttl (after h ttl calls) call).2 := by
  simp [after]

theorem registered_concat : Registered h ttl (calls ++ [call]) userId apiKey ↔
    Registered h ttl calls userId apiKey ∨
      ∃ role, call = .registerUser userId role apiKey ∧ reply h ttl calls call = .done := by
  constructor
  · intro ⟨pre, role, post, heq, hdone⟩
    rcases split_concat heq with ⟨rfl, rfl, -⟩ | ⟨post', -, rfl⟩
    · exact .inr ⟨role, rfl, hdone⟩
    · exact .inl ⟨pre, role, post', rfl, hdone⟩
  · intro hr
    rcases hr with ⟨pre, role, post, rfl, hdone⟩ | ⟨role, rfl, hdone⟩
    · exact ⟨pre, role, post ++ [call], by simp, hdone⟩
    · exact ⟨calls, role, [], rfl, hdone⟩

theorem loggedIn_concat : LoggedIn h ttl (calls ++ [call]) sessionId now session since ↔
    (∃ since', since = since' ++ [call] ∧ LoggedIn h ttl calls sessionId now session since') ∨
      since = [] ∧ (∃ userId apiKey, call = .login now sessionId userId apiKey) ∧
        reply h ttl calls call = .loggedIn sessionId session := by
  constructor
  · intro ⟨pre, userId, apiKey, heq, hin⟩
    rcases split_concat heq with ⟨rfl, rfl, rfl⟩ | ⟨since', rfl, rfl⟩
    · exact .inr ⟨rfl, ⟨userId, apiKey, rfl⟩, hin⟩
    · exact .inl ⟨since', rfl, pre, userId, apiKey, rfl, hin⟩
  · intro hl
    rcases hl with ⟨since', rfl, pre, userId, apiKey, rfl, hin⟩ | ⟨rfl, ⟨userId, apiKey, rfl⟩, hin⟩
    · exact ⟨pre, userId, apiKey, by simp, hin⟩
    · exact ⟨calls, userId, apiKey, rfl, hin⟩

/-- A session id that was returned was drawn as a token. -/
theorem LoggedIn.token_mem (hl : LoggedIn h ttl calls sessionId now session since) :
    sessionId ∈ calls.filterMap AuthCall.token := by
  obtain ⟨pre, userId, apiKey, rfl, -⟩ := hl
  simp [AuthCall.token]

/-! ## Who is registered -/

/-- The digest of the key that is stored for a user. -/
def keyHash (db : Database) (uid : Text) : Option Text :=
  (db.users.get uid).map fun user => user.apiKeyHash

/-- Only a registration stores a key, under a user id that was free. -/
theorem keyHash_effect {reply : AuthReply} {db' : Database} (he : Effect h ttl db call reply db')
    (uid hash : Text) : keyHash db' uid = some hash ↔
      keyHash db uid = some hash ∨ reply = .done ∧ keyHash db uid = none ∧
        ∃ role apiKey, call = .registerUser uid.val role apiKey ∧ hash = h.digest apiKey := by
  cases he with
  | registered hacc huid hfree =>
      rename_i userId role apiKey uid' role'
      subst huid
      simp only [keyHash, Dict.get_set]
      by_cases hsame : uid' = uid
      · subst hsame
        simp [hfree, eq_comm]
      · have hval : uid'.val ≠ uid.val := fun hval => hsame (Text.ext hval)
        simp [hsame, hval]
  | roleSet =>
      rename_i userId role
      have hkeep : keyHash (db.setRole userId role) uid = keyHash db uid := by
        unfold keyHash Database.setRole
        cases huser : db.users.get userId with
        | none => rfl
        | some user =>
            simp only [Dict.get_set]
            by_cases hsame : userId = uid
            · subst hsame
              simp [huser]
            · simp [hsame]
      rw [hkeep]
      simp
  | loggedIn huid huser hkey hfree => simp [keyHash]
  | revoked hrow => simp [keyHash]
  | valid => simp
  | notFound hrow => simp
  | raised hcall => simp

theorem keyHash_free {uid : Text} {role apiKey : Str}
    (hdone : reply h ttl calls (.registerUser uid.val role apiKey) = .done) :
    keyHash (after h ttl calls) uid = none := by
  have heffect := perform_effect h ttl (after h ttl calls) (.registerUser uid.val role apiKey)
  unfold reply at hdone
  rw [hdone] at heffect
  generalize (perform h ttl (after h ttl calls) (.registerUser uid.val role apiKey)).2 = db'
    at heffect
  cases heffect with
  | registered hacc huid hfree =>
      obtain rfl := Text.ext huid
      simp [keyHash, hfree]

/-- **The users table is the history of registrations.** -/
theorem keyHash_after (calls : List AuthCall) (uid hash : Text) :
    keyHash (after h ttl calls) uid = some hash ↔
      ∃ apiKey, Registered h ttl calls uid.val apiKey ∧ hash = h.digest apiKey := by
  -- on the history; a registration that is done found no key stored before it
  induction calls using List.reverseRecOn generalizing hash with
  | nil => simp [after, keyHash, Registered]
  | append_singleton calls call ih =>
      have heffect := perform_effect h ttl (after h ttl calls) call
      rw [after_concat, keyHash_effect heffect, ih]
      simp only [registered_concat, or_and_right, exists_or]
      refine or_congr_right ?_
      constructor
      · rintro ⟨hdone, _, role, apiKey, hcall, hhash⟩
        exact ⟨apiKey, ⟨role, hcall, hdone⟩, hhash⟩
      · rintro ⟨apiKey, ⟨role, hcall, hdone⟩, hhash⟩
        exact ⟨hdone, keyHash_free (hcall ▸ hdone), role, apiKey, hcall, hhash⟩

/-! ## Which sessions stand -/

/-- The row is that of a session id some login returned, revoked if the
session id was revoked since. -/
def Stands (h : Sha256) (ttl : Nat) (calls : List AuthCall) (sessionId : Str) (row : SessionRow) :
    Prop :=
  ∃ now session since, LoggedIn h ttl calls sessionId now session since ∧
    row.userId.val = session.userId ∧ row.createdAt = now ∧ row.expiresAt = now + ttl ∧
    (row.revoked = true ↔ .revoke sessionId ∈ since)

/-- A call that neither returns the session id nor revokes it. -/
theorem stands_concat_other {row : SessionRow}
    (hin : ∀ session, reply h ttl calls call ≠ .loggedIn sessionId session)
    (hrevoke : call ≠ .revoke sessionId) :
    Stands h ttl (calls ++ [call]) sessionId row ↔ Stands h ttl calls sessionId row := by
  unfold Stands
  constructor
  · intro ⟨now, session, since, hl, huser, hcreated, hexpires, hrevoked⟩
    rcases loggedIn_concat.mp hl with ⟨since', rfl, hl'⟩ | ⟨-, -, hreply⟩
    · refine ⟨now, session, since', hl', huser, hcreated, hexpires, ?_⟩
      simpa [hrevoke.symm] using hrevoked
    · exact absurd hreply (hin session)
  · intro ⟨now, session, since, hl, huser, hcreated, hexpires, hrevoked⟩
    refine ⟨now, session, since ++ [call], loggedIn_concat.mpr (.inl ⟨since, rfl, hl⟩), huser,
      hcreated, hexpires, ?_⟩
    simpa [hrevoke.symm] using hrevoked

theorem stands_concat_revoke {row : SessionRow} :
    Stands h ttl (calls ++ [.revoke sessionId]) sessionId row ↔
      ∃ old, Stands h ttl calls sessionId old ∧ row = { old with revoked := true } := by
  constructor
  · intro ⟨now, session, since, hl, huser, hcreated, hexpires, hrevoked⟩
    rcases loggedIn_concat.mp hl with ⟨since', rfl, hl'⟩ | ⟨-, ⟨_, _, hcall⟩, -⟩
    · have hrow : row = { row with revoked := true } := by
        rw [← hrevoked.mpr (by simp)]
      by_cases hmem : .revoke sessionId ∈ since'
      · exact ⟨{ row with revoked := true },
          ⟨now, session, since', hl', huser, hcreated, hexpires, by simp [hmem]⟩, hrow⟩
      · exact ⟨{ row with revoked := false },
          ⟨now, session, since', hl', huser, hcreated, hexpires, by simp [hmem]⟩, hrow⟩
    · cases hcall
  · intro ⟨old, ⟨now, session, since, hl, huser, hcreated, hexpires, _⟩, hrow⟩
    subst hrow
    exact ⟨now, session, since ++ [.revoke sessionId],
      loggedIn_concat.mpr (.inl ⟨since, rfl, hl⟩), huser, hcreated, hexpires, by simp⟩

/-- A login that returns the session id, which was not drawn before. -/
theorem stands_concat_login {row : SessionRow} {uid : Text}
    (hfresh : sessionId ∉ calls.filterMap AuthCall.token)
    (hcall : call = .login now sessionId userId apiKey)
    (hin : reply h ttl calls call = .loggedIn sessionId session) (huid : uid.val = session.userId) :
    Stands h ttl (calls ++ [call]) sessionId row ↔
      row = { userId := uid, createdAt := now, expiresAt := now + ttl } := by
  constructor
  · intro ⟨t, session', since, hl, huser, hcreated, hexpires, hrevoked⟩
    rcases loggedIn_concat.mp hl with ⟨since', -, hl'⟩ | ⟨rfl, ⟨_, _, hcall'⟩, hin'⟩
    · exact absurd hl'.token_mem hfresh
    · cases hcall.symm.trans hcall'
      cases hin.symm.trans hin'
      have hnot : row.revoked = false := by simpa using hrevoked
      obtain ⟨ruid, rcreated, rexpires, rrevoked⟩ := row
      simp only at huser hcreated hexpires hnot
      obtain rfl : ruid = uid := Text.ext (huser.trans huid.symm)
      rw [hcreated, hexpires, hnot]
  · intro hrow
    subst hrow
    exact ⟨now, session, [], loggedIn_concat.mpr (.inr ⟨rfl, ⟨userId, apiKey, hcall⟩, hin⟩), huid,
      rfl, rfl, by simp⟩

/-- **The sessions table is the history of logins and revocations.** -/
theorem sessions_after (hinj : Function.Injective h.text)
    (hfresh : (calls.filterMap AuthCall.token).Nodup) (sessionId : Str) (row : SessionRow) :
    (after h ttl calls).sessions.get (h.digest sessionId) = some row ↔
      Stands h ttl calls sessionId row := by
  -- on the history, for any row: a revocation asks for the row before it
  induction calls using List.reverseRecOn generalizing row with
  | nil => simp [after, Stands, LoggedIn]
  | append_singleton calls call ih =>
      rw [List.filterMap_append] at hfresh
      obtain ⟨hbefore, -, hnew⟩ := List.nodup_append.mp hfresh
      have ih := ih hbefore
      have heffect := perform_effect h ttl (after h ttl calls) call
      rw [after_concat]
      generalize hreply : (perform h ttl (after h ttl calls) call).1 = answer at heffect
      generalize (perform h ttl (after h ttl calls) call).2 = db at heffect ⊢
      have hother : ∀ s : Str, s ≠ sessionId → h.digest s ≠ h.digest sessionId := by
        intro s hne heq
        exact hne (hinj (congrArg Text.val heq))
      have hkeep : (∀ session, answer ≠ .loggedIn sessionId session) →
          call ≠ .revoke sessionId →
            ((after h ttl calls).sessions.get (h.digest sessionId) = some row ↔
              Stands h ttl (calls ++ [call]) sessionId row) := by
        intro hin hrevoke
        rw [stands_concat_other (fun session heq => hin session (hreply.symm.trans heq)) hrevoke]
        exact ih row
      cases heffect with
      | registered hacc huid hfree => exact hkeep (by simp) (by simp)
      | loggedIn huid huser hkey hfree =>
          rename_i t token userId apiKey uid user
          by_cases hsame : token = sessionId
          · subst hsame
            -- a fresh token leaves no earlier login of this session id
            have htoken : token ∉ calls.filterMap AuthCall.token := by
              intro hmem
              exact hnew token hmem token (by simp [AuthCall.token]) rfl
            rw [stands_concat_login htoken rfl hreply huid, Dict.get_set_self, Option.some.injEq,
              eq_comm]
          · rw [Dict.get_set_ne _ _ (hother token hsame)]
            exact hkeep (by simp [hsame]) (by simp)
      | revoked hrow =>
          rename_i s old
          by_cases hsame : s = sessionId
          · subst hsame
            rw [stands_concat_revoke, Dict.get_set_self, Option.some.injEq]
            constructor
            · intro heq
              exact ⟨old, (ih old).mp hrow, heq.symm⟩
            · rintro ⟨old', hstands, heq⟩
              obtain rfl := Option.some.inj (hrow.symm.trans ((ih old').mpr hstands))
              exact heq.symm
          · rw [Dict.get_set_ne _ _ (hother s hsame)]
            exact hkeep (by simp) (by simpa using hsame)
      | notFound hrow =>
          rename_i s
          by_cases hsame : s = sessionId
          · subst hsame
            rw [stands_concat_revoke, hrow]
            refine iff_of_false (by simp) ?_
            rintro ⟨old, hstands, _⟩
            cases hrow.symm.trans ((ih old).mpr hstands)
          · exact hkeep (by simp) (by simpa using hsame)
      | valid => exact hkeep (by simp) (by simp)
      | roleSet =>
          rename_i userId role
          have hsessions : ((after h ttl calls).setRole userId role).sessions =
              (after h ttl calls).sessions := by
            unfold Database.setRole
            split
            · rfl
            · rfl
          rw [hsessions]
          exact hkeep (by simp) (by simp)
      | raised hcall => exact hkeep (by simp) (hcall sessionId)

/-! ## Exactness -/

/-- The tokens of a history are as `token_urlsafe(32)` draws them, none
twice. -/
structure Fresh (calls : List AuthCall) : Prop where
  nodup : (calls.filterMap AuthCall.token).Nodup
  length : ∀ token ∈ calls.filterMap AuthCall.token, token.length = 43

theorem Fresh.init (hf : Fresh (calls ++ [call])) : Fresh calls := by
  obtain ⟨hnodup, hlength⟩ := hf
  rw [List.filterMap_append] at hnodup hlength
  exact ⟨(List.nodup_append.mp hnodup).1, fun token hmem =>
    hlength token (List.mem_append_left _ hmem)⟩

/-- The reply to a registration. -/
theorem registered_reply {role : Str} :
    reply h ttl calls (.registerUser userId role apiKey) = .done ↔
      ∃ db', Authenticator.registerUser h userId role apiKey (after h ttl calls) = .ok db' := by
  simp only [reply, perform]
  split
  · rename_i db' hok
    simp [hok]
  · rename_i e hfail
    simp [hfail]

theorem registerUser_iff {role : Str} :
    reply h ttl calls (.registerUser userId role apiKey) = .done ↔
      Authenticator.Acceptable userId role apiKey ∧ ∀ k, ¬ Registered h ttl calls userId k := by
  rw [registered_reply]
  constructor
  · rintro ⟨db', hok⟩
    obtain ⟨hacc, uid, role', huid, -, hfree, -⟩ := Authenticator.registerUser_eq_ok.mp hok
    refine ⟨hacc, ?_⟩
    intro k hr
    subst huid
    have hstored := (keyHash_after calls uid (h.digest k)).mpr ⟨k, hr, rfl⟩
    simp [keyHash, hfree] at hstored
  · rintro ⟨hacc, hnone⟩
    have hfree : (after h ttl calls).users.get
        ⟨userId, encodable_of_validUserId hacc.name⟩ = none := by
      cases huser : (after h ttl calls).users.get ⟨userId, encodable_of_validUserId hacc.name⟩ with
      | none => rfl
      | some user =>
          have hstored : keyHash (after h ttl calls) ⟨userId, encodable_of_validUserId hacc.name⟩ =
              some user.apiKeyHash := by
            simp [keyHash, huser]
          obtain ⟨k, hr, -⟩ := (keyHash_after calls _ _).mp hstored
          exact absurd hr (hnone k)
    exact ⟨_, Authenticator.registerUser_eq_ok.mpr
      ⟨hacc, ⟨userId, encodable_of_validUserId hacc.name⟩, ⟨role, hacc.stored⟩, rfl, rfl, hfree,
        rfl⟩⟩

theorem login_reply {token : Str} :
    (∃ session, reply h ttl calls (.login now token userId apiKey) = .loggedIn token session) ↔
      ∃ p, Authenticator.login h ttl now token userId apiKey (after h ttl calls) = .ok p := by
  simp only [reply, perform]
  split
  · rename_i sessionId session db' hok
    obtain ⟨-, _, _, -, -, -, -, hp, -⟩ := Authenticator.login_eq_ok.mp hok
    cases hp
    simp [hok]
  · rename_i e hfail
    simp [hfail]

theorem login_iff (hinj : Function.Injective h.text) {token : Str}
    (hf : Fresh (calls ++ [.login now token userId apiKey])) :
    (∃ session, reply h ttl calls (.login now token userId apiKey) = .loggedIn token session) ↔
      Registered h ttl calls userId apiKey := by
  rw [login_reply]
  constructor
  · intro ⟨p, hok⟩
    obtain ⟨-, uid, user, rfl, huser, hkey, -⟩ := Authenticator.login_eq_ok.mp hok
    have hstored : keyHash (after h ttl calls) uid = some user.apiKeyHash := by
      simp [keyHash, huser]
    obtain ⟨k, hr, hhash⟩ := (keyHash_after calls uid _).mp hstored
    have hsame : h.text k = h.text apiKey := by
      rw [← hkey, hhash]
      rfl
    rw [← hinj hsame]
    exact hr
  · intro hr
    obtain ⟨pre, role, post, -, hdone⟩ := id hr
    have hname := (registerUser_iff.mp hdone).1.name
    have hstored := (keyHash_after (h := h) calls ⟨userId, encodable_of_validUserId hname⟩
      (h.digest apiKey)).mpr ⟨apiKey, hr, rfl⟩
    obtain ⟨user, huser, hhash⟩ := Option.map_eq_some_iff.mp hstored
    have hfree : (after h ttl calls).sessions.get (h.digest token) = none := by
      cases hrow : (after h ttl calls).sessions.get (h.digest token) with
      | none => rfl
      | some row =>
          obtain ⟨t, session, since, hl, -⟩ :=
            (sessions_after hinj hf.init.nodup token row).mp hrow
          have hnodup := hf.nodup
          rw [List.filterMap_append] at hnodup
          exact absurd rfl ((List.nodup_append.mp hnodup).2.2 token hl.token_mem token
            (by simp [AuthCall.token]))
    exact ⟨_, Authenticator.login_eq_ok.mpr ⟨hname, _, user, rfl, huser, by rw [hhash]; rfl,
      hfree, rfl, rfl⟩⟩

/-- What a login returned. -/
theorem LoggedIn.returned (hl : LoggedIn h ttl calls sessionId now session since) :
    session.sessionRef = (h.text sessionId).take 12 ∧ session.createdAt = now ∧
      session.expiresAt = now + ttl := by
  obtain ⟨pre, userId, apiKey, -, hin⟩ := hl
  have heffect := perform_effect h ttl (after h ttl pre) (.login now sessionId userId apiKey)
  unfold reply at hin
  rw [hin] at heffect
  generalize (perform h ttl (after h ttl pre) (.login now sessionId userId apiKey)).2 = db
    at heffect
  cases heffect with
  | loggedIn huid huser hkey hfree => exact ⟨rfl, rfl, rfl⟩

theorem validate_reply : reply h ttl calls (.validate now sessionId) = .valid session ↔
    Authenticator.validate h now sessionId (after h ttl calls) = .ok session := by
  simp only [reply, perform]
  split
  · rename_i session' hok
    simp [hok]
  · rename_i e hfail
    simp [hfail]

theorem validate_iff (hinj : Function.Injective h.text) (hf : Fresh calls) :
    reply h ttl calls (.validate now sessionId) = .valid session ↔
      ∃ t returned since, LoggedIn h ttl calls sessionId t returned since ∧
        .revoke sessionId ∉ since ∧ now < t + ttl ∧
        ∃ uid user, uid.val = returned.userId ∧ (after h ttl calls).users.get uid = some user ∧
          session = { returned with role := user.role.val } := by
  rw [validate_reply]
  constructor
  · intro hvalid
    obtain ⟨row, user, hrow, huser, hrevoked, hexpires, rfl⟩ :=
      (Authenticator.live_of_validate hvalid).stored
    obtain ⟨t, returned, since, hl, huid, hcreated, hends, hiff⟩ :=
      (sessions_after hinj hf.nodup sessionId row).mp hrow
    obtain ⟨href, hcreated', hends'⟩ := hl.returned
    refine ⟨t, returned, since, hl, ?_, hends ▸ hexpires, row.userId, user, huid, huser, ?_⟩
    · intro hmem
      rw [hiff.mpr hmem] at hrevoked
      cases hrevoked
    · simp only [hcreated, hends, huid, hcreated', hends', href]
  · intro ⟨t, returned, since, hl, hnot, hlt, uid, user, huid, huser, hsession⟩
    obtain ⟨href, hcreated, hends⟩ := hl.returned
    have hrow := (sessions_after hinj hf.nodup sessionId
      { userId := uid, createdAt := t, expiresAt := t + ttl }).mpr
        ⟨t, returned, since, hl, huid, rfl, rfl, by simp [hnot]⟩
    have hlength := hf.length sessionId hl.token_mem
    refine Authenticator.validate_of_live ⟨?_, ?_, _, user, hrow, huser, rfl, hlt, ?_⟩
    · intro hempty
      simp [hempty] at hlength
    · rw [hlength]
      decide
    · rw [hsession, huid, ← href, ← hends, ← hcreated]

/-- The tables answer for the history exactly. -/
structure Exact (h : Sha256) (ttl : Nat) (calls : List AuthCall) : Prop where
  registers : ∀ userId role apiKey, reply h ttl calls (.registerUser userId role apiKey) = .done ↔
    Authenticator.Acceptable userId role apiKey ∧ ∀ k, ¬ Registered h ttl calls userId k
  logsIn : ∀ now token userId apiKey, Fresh (calls ++ [.login now token userId apiKey]) →
    ((∃ session, reply h ttl calls (.login now token userId apiKey) = .loggedIn token session) ↔
      Registered h ttl calls userId apiKey)
  validates : ∀ now sessionId session,
    reply h ttl calls (.validate now sessionId) = .valid session ↔
      ∃ t returned since, LoggedIn h ttl calls sessionId t returned since ∧
        .revoke sessionId ∉ since ∧ now < t + ttl ∧
        ∃ uid user, uid.val = returned.userId ∧ (after h ttl calls).users.get uid = some user ∧
          session = { returned with role := user.role.val }
  returned : ∀ sessionId t session since, LoggedIn h ttl calls sessionId t session since →
    session.createdAt = t ∧ session.expiresAt = t + ttl
  unchanged : ∀ call, (reply h ttl calls call).failed = true →
    (perform h ttl (after h ttl calls) call).2 = after h ttl calls

/-- **The session lifecycle is exact.** With an injective digest and tokens
that never repeat, after any history a registration, a login and a
validation succeed exactly when the history says so, and an operation that
fails changes nothing. -/
theorem lifecycle_exact (hinj : Function.Injective h.hexdigest) (hf : Fresh calls) :
    Exact h ttl calls where
  registers _ _ _ := registerUser_iff
  logsIn _ _ _ _ := login_iff (Sha256.text_injective hinj)
  validates _ _ _ := validate_iff (Sha256.text_injective hinj) hf
  returned _ _ _ _ hl := hl.returned.2
  unchanged call hfailed := by
    have heffect := perform_effect h ttl (after h ttl calls) call
    unfold reply at hfailed
    generalize (perform h ttl (after h ttl calls) call).1 = answer at heffect hfailed
    generalize hdb : (perform h ttl (after h ttl calls) call).2 = db at heffect ⊢
    cases heffect with
    | notFound hrow => rfl
    | raised hcall => rfl
    | _ => cases hfailed

end AuthCall

/-! ## A session that is revoked -/

/-- A session id as `token_urlsafe(32)` returns it. -/
def adaToken : Str := str "Zm9yLXRoZS1zZXNzaW9uLWxpZmVjeWNsZS1leGFtcGw"

def adaKey : Str := str "correct horse battery"

/-- SHA-256 on the api key and the session id below. -/
def adaSha256 : Sha256 := .agreeing
  [(encodeSurrogatepass adaKey,
      [0x90, 0x28, 0xea, 0x0d, 0x15, 0xde, 0xca, 0xa3, 0x5b, 0x2d, 0xa2, 0x1c, 0x02, 0x90, 0xaf,
        0x3b, 0x1a, 0x5b, 0xa0, 0xa3, 0x0a, 0x59, 0x19, 0x06, 0xf8, 0x9b, 0x50, 0x74, 0xe2, 0x09,
        0xea, 0x72]),
    (encodeSurrogatepass adaToken,
      [0x02, 0xb1, 0xc2, 0xf2, 0x00, 0xe7, 0x64, 0x1a, 0xbf, 0x18, 0x59, 0xc4, 0xe2, 0xb6, 0x8c,
        0x5b, 0x76, 0x1d, 0x2e, 0xda, 0x3d, 0xd3, 0x29, 0x8b, 0x1b, 0xb4, 0x4a, 0x46, 0x1e, 0xbc,
        0x6c, 0x18])]

/-- A user is registered, logs in and logs out. -/
def adaCalls : List AuthCall :=
  [.registerUser (str "ada") (str "analyst") adaKey, .login 100 adaToken (str "ada") adaKey,
    .revoke adaToken]

/-- The session stands from the login on for an hour, or to its revocation. -/
theorem lifecycle_exact_ada : AuthCall.Exact adaSha256 3600 adaCalls ∧
    AuthCall.Exact adaSha256 3600 (adaCalls.take 2) ∧
    (AuthCall.reply adaSha256 3600 (adaCalls.take 2) (.validate 200 adaToken)).failed = false ∧
    (AuthCall.reply adaSha256 3600 (adaCalls.take 2) (.validate 3700 adaToken)).failed = true ∧
    (AuthCall.reply adaSha256 3600 adaCalls (.validate 200 adaToken)).failed = true :=
  ⟨AuthCall.lifecycle_exact (Sha256.agreeing_injective _) ⟨by decide, by decide⟩,
    AuthCall.lifecycle_exact (Sha256.agreeing_injective _) ⟨by decide, by decide⟩,
    by decide +kernel, by decide +kernel, by decide +kernel⟩

end AgenticFirewall
