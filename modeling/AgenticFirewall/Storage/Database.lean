import AgenticFirewall.Lib.Dict
import AgenticFirewall.Lib.Raising
import AgenticFirewall.Models.Requests

/-!
# Storage

`app/storage/database.py`: the tables as SQLite holds them. A statement
binds its parameters first; binding a `str` that UTF-8 cannot encode
raises, so what a `TEXT` column holds is encodable. A statement that
raises changes nothing.
-/

namespace AgenticFirewall

open Py

/-- A value of a `TEXT` column. -/
structure Text where
  val : Str
  encodable : Encodable val
  deriving DecidableEq

@[ext] theorem Text.ext {s t : Text} (h : s.val = t.val) : s = t := by
  cases s
  cases t
  cases h
  rfl

/-- Binding a parameter. -/
def bindText (s : Str) : Except Exc Text :=
  if h : Encodable s then .ok ⟨s, h⟩ else .error .other

/-- Binding a parameter that may be `None`. -/
def bindOptText : Option Str → Except Exc (Option Text)
  | none => .ok none
  | some s => (bindText s).map some

structure UserRow where
  role : Text
  apiKeyHash : Text

structure SessionRow where
  userId : Text
  createdAt : ℚ
  expiresAt : ℚ
  revoked : Bool := false

structure AuditRow where
  id : Nat
  ts : ℚ
  userId : Option Text
  sessionRef : Option Text
  role : Option Text
  tool : Option Text
  risk : Option Text
  decision : Text
  stage : Text
  reason : Text
  latencyMs : ℚ

structure FingerprintRow where
  fingerprint : Text
  approvedAt : ℚ
  approvedBy : Option Text

/-- The tables, by primary key; `auditLogs` in the order of its ids. -/
structure Database where
  users : Dict Text UserRow := .empty
  sessions : Dict Text SessionRow := .empty
  auditLogs : List AuditRow := []
  toolFingerprints : Dict Text FingerprintRow := .empty

namespace Database

/-! ## Users and sessions -/

/-- A user id that is taken raises `ValueError`. Ids reach this in the form
`register_user` accepts, so `!r` adds quotes and nothing else. -/
def addUser (userId role apiKeyHash : Str) (db : Database) : Except Exc Database := do
  let uid ← bindText userId
  let role ← bindText role
  let apiKeyHash ← bindText apiKeyHash
  match db.users.get uid with
  | some _ => throw (.valueError (str "user '" ++ userId ++ str "' already exists"))
  | none => return { db with users := db.users.set uid { role, apiKeyHash } }

/-- The row of a user, its id included. -/
def getUser (userId : Str) (db : Database) : Except Exc (Option (Text × UserRow)) := do
  let uid ← bindText userId
  return (db.users.get uid).map fun row => (uid, row)

/-- A hash that is taken, or a user that does not exist, breaks a
constraint of the table. -/
def createSession (sessionHash userId : Str) (createdAt expiresAt : ℚ) (db : Database) :
    Except Exc Database := do
  let sessionHash ← bindText sessionHash
  let userId ← bindText userId
  match db.sessions.get sessionHash, db.users.get userId with
  | none, some _ =>
      return { db with sessions := db.sessions.set sessionHash { userId, createdAt, expiresAt } }
  | _, _ => throw .other

/-- The session row joined with its user's current role. -/
def getSession (sessionHash : Str) (db : Database) :
    Except Exc (Option (SessionRow × Text)) := do
  let sessionHash ← bindText sessionHash
  return do
    let row ← db.sessions.get sessionHash
    let user ← db.users.get row.userId
    some (row, user.role)

/-- Whether there was such a session, and the database after. -/
def revokeSession (sessionHash : Str) (db : Database) : Except Exc (Bool × Database) := do
  let sessionHash ← bindText sessionHash
  match db.sessions.get sessionHash with
  | none => return (false, db)
  | some row =>
      return (true,
        { db with sessions := db.sessions.set sessionHash { row with revoked := true } })

/-- An operator's change of a user's role. The code has no such statement;
it reads the role back at every request because the table can change. -/
def setRole (userId role : Text) (db : Database) : Database :=
  match db.users.get userId with
  | none => db
  | some row => { db with users := db.users.set userId { row with role } }

/-! ## Audit -/

/-- The id of the new row, and the database with it. -/
def addAudit (ts : ℚ) (userId sessionRef role tool risk : Option Str)
    (decision stage reason : Str) (latencyMs : ℚ) (db : Database) :
    Except Exc (Nat × Database) := do
  let userId ← bindOptText userId
  let sessionRef ← bindOptText sessionRef
  let role ← bindOptText role
  let tool ← bindOptText tool
  let risk ← bindOptText risk
  let decision ← bindText decision
  let stage ← bindText stage
  let reason ← bindText reason
  let id := db.auditLogs.length + 1
  let row : AuditRow :=
    { id, ts, userId, sessionRef, role, tool, risk, decision, stage, reason, latencyMs }
  return (id, { db with auditLogs := db.auditLogs ++ [row] })

/-- `SELECT * FROM audit_logs ORDER BY id DESC LIMIT ?`: a negative limit
is no limit. -/
def recentAudit (limit : Int) (db : Database) : List AuditRow :=
  let rows := db.auditLogs.mergeSort fun a b => b.id ≤ a.id
  if limit < 0 then rows else rows.take limit.toNat

/-! ## Tool fingerprints -/

def getFingerprint (toolName : Str) (db : Database) : Except Exc (Option FingerprintRow) := do
  let toolName ← bindText toolName
  return db.toolFingerprints.get toolName

def upsertFingerprint (toolName fingerprint : Str) (approvedAt : ℚ) (approvedBy : Option Str)
    (db : Database) : Except Exc Database := do
  let toolName ← bindText toolName
  let fingerprint ← bindText fingerprint
  let approvedBy ← bindOptText approvedBy
  let row : FingerprintRow := { fingerprint, approvedAt, approvedBy }
  return { db with toolFingerprints := db.toolFingerprints.set toolName row }

end Database

/-! ## Binding -/

section Bind

variable {s : Str} {t : Text} {os : Option Str} {ot : Option Text}

theorem bindText_encodable (h : Encodable s) : bindText s = .ok ⟨s, h⟩ := by
  simp [bindText, h]

@[simp] theorem bindText_val (t : Text) : bindText t.val = .ok t :=
  bindText_encodable t.encodable

theorem bindText_not_encodable (h : ¬ Encodable s) : bindText s = .error .other := by
  simp [bindText, h]

theorem bindText_eq_ok : bindText s = .ok t ↔ t.val = s := by
  constructor
  · intro h
    unfold bindText at h
    split at h
    · cases h
      rfl
    · cases h
  · rintro rfl
    exact bindText_encodable t.encodable

theorem bindOptText_eq_ok : bindOptText os = .ok ot ↔ ot.map Text.val = os := by
  cases os with
  | none =>
      cases ot with
      | none => simp [bindOptText]
      | some t => simp [bindOptText]
  | some s =>
      simp only [bindOptText]
      by_cases h : Encodable s
      · rw [bindText_encodable h]
        cases ot with
        | none => simp [Except.map]
        | some t =>
            simp only [Except.map, Except.ok.injEq, Option.some.injEq, Option.map_some]
            constructor
            · rintro rfl
              rfl
            · rintro rfl
              rfl
      · rw [bindText_not_encodable h]
        cases ot with
        | none => simp [Except.map]
        | some t =>
            simp only [Except.map, Option.map_some, Option.some.injEq, reduceCtorEq, false_iff]
            rintro rfl
            exact h t.encodable

theorem bindOptText_returns : (∃ ot, bindOptText os = .ok ot) ↔ ∀ s ∈ os, Encodable s := by
  constructor
  · rintro ⟨ot, h⟩ s hs
    rw [bindOptText_eq_ok.mp h |>.symm] at hs
    obtain ⟨t, -, rfl⟩ := Option.map_eq_some_iff.mp hs
    exact t.encodable
  · intro h
    cases os with
    | none => exact ⟨none, rfl⟩
    | some s => exact ⟨some ⟨s, h s rfl⟩, bindOptText_eq_ok.mpr rfl⟩

end Bind

/-! ## Users and sessions leave the log and the pins alone -/

/-- Neither the log nor the pins have changed. -/
def SameRecords (db db' : Database) : Prop :=
  db'.auditLogs = db.auditLogs ∧ db'.toolFingerprints = db.toolFingerprints

section Records

variable {db db' : Database}

theorem SameRecords.of_eq (h : db' = db) : SameRecords db db' := by simp [SameRecords, h]

theorem sameRecords_revokeSession {sessionHash : Str} {found : Bool}
    (h : db.revokeSession sessionHash = .ok (found, db')) : SameRecords db db' := by
  unfold Database.revokeSession at h
  simp only [except_bind_eq_ok] at h
  obtain ⟨_, -, h⟩ := h
  split at h
  · cases h
    exact ⟨rfl, rfl⟩
  · cases h
    exact ⟨rfl, rfl⟩

theorem sameRecords_setRole (userId role : Text) : SameRecords db (db.setRole userId role) := by
  unfold Database.setRole
  split
  · exact ⟨rfl, rfl⟩
  · exact ⟨rfl, rfl⟩

end Records

end AgenticFirewall
