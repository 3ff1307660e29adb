import AgenticFirewall.Firewall.Authentication
import AgenticFirewall.Lib.CanonicalJson

/-!
# Tool integrity

`app/firewall/integrity.py`: each approved definition is pinned by the
digest of its canonical bytes.
-/

namespace AgenticFirewall

open Py

/-- What `canonical_bytes` serialises. -/
def canonicalPayload (d : ToolDefinition) : Value :=
  .dict [(str "name", .str d.name), (str "description", .str d.description),
    (str "input_schema", d.inputSchema.toValue), (str "annotations", d.annotations.toValue),
    (str "extras", d.extras.toValue)]

def canonicalBytes (d : ToolDefinition) : List UInt8 := encodeAscii (dumps (canonicalPayload d))

def fingerprint (h : Sha256) (d : ToolDefinition) : Str := h.hexdigest (canonicalBytes d)

structure IntegrityResult where
  status : IntegrityStatus
  fingerprint : Str

namespace IntegrityResult

def ok (r : IntegrityResult) : Bool := r.status = .ok

def reason (r : IntegrityResult) : Str :=
  match r.status with
  | .changed => str "tool definition changed since it was approved"
  | .unapproved => str "tool has not been approved"
  | .ok => str "tool definition matches approved fingerprint"

theorem encodable_reason (r : IntegrityResult) : Encodable r.reason := by
  unfold reason
  split <;> exact encodable_str _

end IntegrityResult

namespace IntegrityChecker

variable (h : Sha256)

/-- The fingerprint, and the database with it pinned. -/
def approve (now : ℚ) (d : ToolDefinition) (approvedBy : Option Str) (db : Database) :
    Except Exc (Str × Database) := do
  let fp := fingerprint h d
  let db ← db.upsertFingerprint d.name fp now approvedBy
  return (fp, db)

def approvedFingerprint (toolName : Str) (db : Database) : Except Exc (Option Str) := do
  let row ← db.getFingerprint toolName
  return row.map fun r => r.fingerprint.val

def verify (d : ToolDefinition) (db : Database) : Except Exc IntegrityResult := do
  let current := fingerprint h d
  match ← approvedFingerprint d.name db with
  | none => return ⟨.unapproved, current⟩
  | some stored => if stored = current then return ⟨.ok, current⟩ else return ⟨.changed, current⟩

end IntegrityChecker

theorem encodable_fingerprint (h : Sha256) (d : ToolDefinition) : Encodable (fingerprint h d) :=
  h.encodable_hexdigest _

/-! ## What a pin says -/

/-- The fingerprint stored for a name. -/
def Database.pinned (db : Database) (name : Str) : Option Str :=
  if h : Encodable name then (db.toolFingerprints.get ⟨name, h⟩).map fun r => r.fingerprint.val
  else none

section Pins

variable {h : Sha256} {d : ToolDefinition} {db db' : Database} {now : ℚ} {approver : Option Str}
  {fp name : Str}

theorem approvedFingerprint_eq (hn : Encodable name) :
    IntegrityChecker.approvedFingerprint name db = .ok (db.pinned name) := by
  simp [IntegrityChecker.approvedFingerprint, Database.getFingerprint, Database.pinned,
    bindText_encodable hn, hn, bind, Except.bind, pure, Except.pure]

/-- `verify` compares the live fingerprint with the pin. -/
theorem verify_eq (hn : Encodable d.name) :
    IntegrityChecker.verify h d db = .ok
      (match db.pinned d.name with
        | none => ⟨.unapproved, fingerprint h d⟩
        | some stored =>
            if stored = fingerprint h d then ⟨.ok, fingerprint h d⟩
            else ⟨.changed, fingerprint h d⟩) := by
  unfold IntegrityChecker.verify
  rw [approvedFingerprint_eq hn]
  cases db.pinned d.name with
  | none => rfl
  | some stored =>
      simp only [bind, Except.bind, pure, Except.pure]
      split <;> rfl

/-- A name that cannot be bound makes the check raise. -/
theorem encodable_of_verify {r : IntegrityResult} (hv : IntegrityChecker.verify h d db = .ok r) :
    Encodable d.name := by
  by_contra hn
  have herr : IntegrityChecker.verify h d db = .error .other := by
    simp [IntegrityChecker.verify, IntegrityChecker.approvedFingerprint,
      Database.getFingerprint, bindText_not_encodable hn, bind, Except.bind]
  cases herr.symm.trans hv

/-- A definition that passes is the one that is pinned. -/
theorem pinned_of_verify {r : IntegrityResult} (hv : IntegrityChecker.verify h d db = .ok r)
    (hr : r.ok = true) : db.pinned d.name = some (fingerprint h d) := by
  have hn := encodable_of_verify hv
  rw [verify_eq hn] at hv
  obtain rfl := Except.ok.inj hv
  cases hp : db.pinned d.name with
  | none => simp [hp, IntegrityResult.ok] at hr
  | some stored =>
      by_cases heq : stored = fingerprint h d
      · rw [heq]
      · simp [hp, heq, IntegrityResult.ok] at hr

/-- What an approval that returns has done: the name is pinned, everything
else is as before. -/
theorem approve_eq_ok (hok : IntegrityChecker.approve h now d approver db = .ok (fp, db')) :
    fp = fingerprint h d ∧ Encodable d.name ∧
      (∀ n, db'.pinned n = if n = d.name then some (fingerprint h d) else db.pinned n) ∧
      db'.users = db.users ∧ db'.sessions = db.sessions ∧ db'.auditLogs = db.auditLogs := by
  unfold IntegrityChecker.approve Database.upsertFingerprint at hok
  simp only [except_bind_eq_ok, bindText_eq_ok, pure, Except.pure, Except.ok.injEq,
    Prod.mk.injEq] at hok
  obtain ⟨_, ⟨key, hkey, stored, hstored, who, -, rfl⟩, rfl, rfl⟩ := hok
  have hname : Encodable d.name := hkey ▸ key.encodable
  refine ⟨rfl, hname, fun n => ?_, rfl, rfl, rfl⟩
  unfold Database.pinned
  by_cases hn : n = d.name
  · subst hn
    have hk : key = ⟨d.name, hname⟩ := by
      cases key
      cases hkey
      rfl
    simp [hname, hk, hstored]
  · by_cases he : Encodable n
    · have hk : key ≠ ⟨n, he⟩ := by
        rintro rfl
        exact hn hkey
      simp [he, hn, Dict.get_set_ne _ _ hk]
    · simp [he, hn]

/-- An approver whose id cannot be bound makes the approval raise. -/
theorem approve_bound (hok : IntegrityChecker.approve h now d approver db = .ok (fp, db')) :
    ∀ s ∈ approver, Encodable s := by
  unfold IntegrityChecker.approve Database.upsertFingerprint at hok
  simp only [except_bind_eq_ok] at hok
  obtain ⟨_, ⟨_, -, _, -, who, hwho, -⟩, -⟩ := hok
  exact bindOptText_returns.mp ⟨who, hwho⟩

/-- An approval returns unless a text cannot be bound. -/
theorem approve_returns (hname : Encodable d.name) (happ : ∀ s ∈ approver, Encodable s) :
    ∃ db', IntegrityChecker.approve h now d approver db = .ok (fingerprint h d, db') := by
  obtain ⟨who, hwho⟩ := bindOptText_returns.mpr happ
  simp [IntegrityChecker.approve, Database.upsertFingerprint, bindText_encodable hname,
    bindText_encodable (encodable_fingerprint h d), hwho, bind, Except.bind, pure, Except.pure]

end Pins

end AgenticFirewall
