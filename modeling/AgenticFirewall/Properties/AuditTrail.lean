import AgenticFirewall.Firewall.Audit
import AgenticFirewall.Properties.LogLines

/-!
# The audit trail

What `record` returned is what `recent` reads back: the rows hold the
sanitised texts, sanitising them again changes nothing, and ids grow in the
order of recording.
-/

namespace AgenticFirewall

open Py

/-! ## Reading rows back -/

section Rows

variable {row : AuditRow} {rows : List AuditRow} {event : SecurityEvent}
  {events : List SecurityEvent}

theorem ofRow_of_holds (h : row.Holds event) (hclean : event.build = event) :
    AuditLog.ofRow row = .ok event := by
  have hdecision : Decision.ofValue row.decision.val = some event.decision := by
    rw [h.decision, Decision.ofValue_value]
  simp only [AuditLog.ofRow, hdecision, h.ts, h.userId, h.sessionRef, h.role, h.tool, h.risk,
    h.stage, h.reason, h.latencyMs, ← h.id]
  exact congrArg Except.ok hclean

theorem mapM_ofRow (h : List.Forall₂ AuditRow.Holds rows events)
    (hclean : ∀ e ∈ events, e.build = e) : rows.mapM AuditLog.ofRow = .ok events := by
  induction h with
  | nil => rfl
  | cons hrow _ ih =>
      rw [List.forall_mem_cons] at hclean
      rw [List.mapM_cons, ofRow_of_holds hrow hclean.1, ih hclean.2]
      rfl

/-- Rows in the order of their ids are read newest first. -/
theorem recentAudit_eq {db : Database} (h : db.auditLogs.Pairwise fun a b => a.id < b.id)
    (limit : Nat) : db.recentAudit limit = db.auditLogs.reverse.take limit := by
  have hdesc : db.auditLogs.reverse.Pairwise fun a b => b.id < a.id := List.pairwise_reverse.mpr h
  -- rows with the same id are the same row
  have hinj : ∀ a ∈ db.auditLogs, ∀ b ∈ db.auditLogs, a.id = b.id → a = b := by
    have hnodup : (db.auditLogs.map AuditRow.id).Nodup := by
      rw [List.Nodup, List.pairwise_map]
      exact h.imp Nat.ne_of_lt
    exact fun a ha b hb => List.inj_on_of_nodup_map hnodup ha hb
  have hsorted : db.auditLogs.mergeSort (fun a b => decide (b.id ≤ a.id)) =
      db.auditLogs.reverse := by
    refine List.Perm.eq_of_pairwise (fun a b ha hb hab hba => ?_) (List.pairwise_mergeSort ?_ ?_ _)
      (hdesc.imp fun hlt => ?_) ((List.mergeSort_perm _ _).trans (List.reverse_perm _).symm)
    · simp only [decide_eq_true_eq] at hab hba
      exact hinj a (List.mem_mergeSort.mp ha) b (List.mem_reverse.mp hb) (Nat.le_antisymm hba hab)
    · intro a b c hab hbc
      simp only [decide_eq_true_eq] at hab hbc ⊢
      exact Nat.le_trans hbc hab
    · intro a b
      simp only [Bool.or_eq_true, decide_eq_true_eq]
      exact Nat.le_total b.id a.id
    · simpa using Nat.le_of_lt hlt
  simp [Database.recentAudit, hsorted]

end Rows

/-! ## Runs -/

/-- `record` called with these arguments, at these clock readings. -/
def AuditLog.recordAll : List (ℚ × SecurityEvent) → Database →
    Except Exc (List SecurityEvent × Database)
  | [], db => .ok ([], db)
  | (now, e) :: calls, db => do
      let (event, db) ← AuditLog.record now e db
      let (events, db) ← recordAll calls db
      return (event :: events, db)

/-- The event a call writes as the `id`-th row: sanitised, with the reading of
the clock. -/
def AuditLog.recorded (id : Nat) (call : ℚ × SecurityEvent) : SecurityEvent :=
  { { call.2 with ts := call.1 }.build with id := some id }

/-- The rows hold the events, under ids that count them. -/
structure Trail (db : Database) (events : List SecurityEvent) : Prop where
  rows : List.Forall₂ AuditRow.Holds db.auditLogs events
  ids : db.auditLogs.map AuditRow.id = (List.range db.auditLogs.length).map (· + 1)
  clean : ∀ e ∈ events, e.build = e

section Trail

variable {now : ℚ} {e event : SecurityEvent} {db db' : Database} {events : List SecurityEvent}

theorem trail_nil (h : db.auditLogs = []) : Trail db [] := by
  refine ⟨?_, ?_, nofun⟩
  · rw [h]
    exact .nil
  · rw [h]
    rfl

theorem id_of_record (h : AuditLog.record now e db = .ok (event, db')) :
    event.id = some (db.auditLogs.length + 1) := by
  unfold AuditLog.record Database.addAudit at h
  simp only [except_bind_eq_ok, pure, Except.pure, Except.ok.injEq, Prod.mk.injEq] at h
  obtain ⟨_, ⟨_, _, _, _, _, _, _, _, _, _, _, _, _, _, _, _, rfl⟩, rfl, rfl⟩ := h
  rfl

theorem eq_recorded (h : AuditLog.record now e db = .ok (event, db')) :
    event = AuditLog.recorded (db.auditLogs.length + 1) (now, e) := by
  rw [AuditLog.recorded, ← id_of_record h]
  exact (record_eq_ok h).1

theorem build_withId (e : SecurityEvent) (id : Option Nat) :
    ({ e.build with id } : SecurityEvent).build = { e.build with id } := by
  show ({ e.build.build with id } : SecurityEvent) = { e.build with id }
  rw [SecurityEvent.build_build]

theorem Trail.record (ht : Trail db events) (h : AuditLog.record now e db = .ok (event, db')) :
    Trail db' (events ++ [event]) := by
  have hid := id_of_record h
  obtain ⟨hevent, row, hrow, rfl⟩ := record_eq_ok h
  refine ⟨List.rel_append ht.rows (.cons hrow .nil), ?_, fun x hx => ?_⟩
  · have hrowid : row.id = db.auditLogs.length + 1 := by
      rw [hrow.id] at hid
      exact Option.some.inj hid
    simp [ht.ids, List.range_succ, hrowid]
  · rcases List.mem_append.mp hx with hx | hx
    · exact ht.clean x hx
    · obtain rfl := List.mem_singleton.mp hx
      rw [hevent]
      exact build_withId _ _

/-- **Reading back**: the newest events first, as they were returned. -/
theorem Trail.recent (ht : Trail db events) (limit : Nat) :
    AuditLog.recent limit db = .ok (events.reverse.take limit) := by
  have hpairs : db.auditLogs.Pairwise fun a b => a.id < b.id := by
    rw [← List.pairwise_map (f := AuditRow.id) (R := (· < ·)), ht.ids, List.pairwise_map]
    exact List.pairwise_lt_range.imp fun hlt => Nat.add_lt_add_right hlt 1
  rw [AuditLog.recent, recentAudit_eq hpairs]
  refine mapM_ofRow ?_ fun x hx => ht.clean x ?_
  · exact List.forall₂_take limit (List.rel_reverse ht.rows)
  · exact List.mem_reverse.mp (List.mem_of_mem_take hx)

/-- Encodable texts are recorded, and the log line of the event printed. -/
theorem record_returns (db : Database) (htexts : e.Bindable) {moment : DateTime}
    (hclock : fromTimestamp now = some moment) : ∃ event db',
      AuditLog.record now e db = .ok (event, db') ∧ ∃ line, event.toLogLine = .ok line := by
  have hbuild : e.build.Bindable := by
    rw [SecurityEvent.bindable_iff] at htexts ⊢
    have hopt : ∀ {o : Option Str}, (∀ s ∈ o, Encodable s) → ∀ s ∈ o.map sanitize, Encodable s := by
      intro o ho s hs
      obtain ⟨t, ht, rfl⟩ := Option.map_eq_some_iff.mp hs
      exact encodable_sanitize (ho t ht)
    obtain ⟨hu, hs, hr, ht, hk, hg, hm⟩ := htexts
    exact ⟨hopt hu, hopt hs, hopt hr, hopt ht, hopt hk, encodable_sanitize hg,
      encodable_sanitize hm⟩
  obtain ⟨event, db', h⟩ : ∃ event db', AuditLog.record now e db = .ok (event, db') :=
    record_returns_iff.mpr hbuild
  have hts : event.ts = now := congrArg SecurityEvent.ts (record_eq_ok h).1
  exact ⟨event, db', h, toLogLine_returns (hts ▸ hclock)⟩

/-- A run of encodable texts records every call, each under the next id. -/
theorem recordAll_returns (ht : Trail db events) {calls : List (ℚ × SecurityEvent)}
    (hcalls : ∀ call ∈ calls, call.2.Bindable ∧ ∃ moment, fromTimestamp call.1 = some moment) :
    ∃ new db', AuditLog.recordAll calls db = .ok (new, db') ∧
      new = (calls.mapIdx fun i call => AuditLog.recorded (db.auditLogs.length + i + 1) call) ∧
      Trail db' (events ++ new) ∧ ∀ event ∈ new, ∃ line, event.toLogLine = .ok line := by
  induction calls generalizing db events with
  | nil => exact ⟨[], db, rfl, rfl, by simpa using ht, nofun⟩
  | cons call calls ih =>
      obtain ⟨now, e⟩ := call
      obtain ⟨⟨htexts, moment, hclock⟩, hrest⟩ := List.forall_mem_cons.mp hcalls
      obtain ⟨event, db₁, hrecord, hline⟩ := record_returns db htexts hclock
      obtain ⟨new, db₂, hall, hnew, htrail, hlines⟩ := ih (ht.record hrecord) hrest
      refine ⟨event :: new, db₂, ?_, ?_, ?_, List.forall_mem_cons.mpr ⟨hline, hlines⟩⟩
      · rw [AuditLog.recordAll, hrecord]
        simp only [bind, Except.bind]
        rw [hall]
        rfl
      · -- the calls after it are counted from one more row
        obtain ⟨-, row, -, hdb⟩ := record_eq_ok hrecord
        have hlen : db₁.auditLogs.length = db.auditLogs.length + 1 := by
          simp [hdb]
        rw [List.mapIdx_cons, hnew, hlen, eq_recorded hrecord]
        simp only [Nat.add_zero, Nat.add_assoc, Nat.add_comm 1]
      · simpa using htrail

theorem sanitized_texts (e : SecurityEvent) : ∀ s ∈ e.build.texts, Sanitized s := by
  have hopt : ∀ o : Option Str, ∀ s ∈ o.map sanitize, Sanitized s := by
    intro o s hs
    obtain ⟨t, -, rfl⟩ := Option.map_eq_some_iff.mp hs
    exact sanitized_sanitize t
  have hdecision : sanitize e.decision.value = e.decision.value := by
    cases e.decision <;> decide
  rw [SecurityEvent.forall_texts]
  exact ⟨hopt _, hopt _, hopt _, hopt _, hopt _, hdecision ▸ sanitized_sanitize _,
    sanitized_sanitize _, sanitized_sanitize _⟩

end Trail

/-- **The audit trail reads back what was recorded**: every call records
its event, sanitised, under the next id, `recent` returns the newest of these
events, newest first, and their texts are short and free of unsafe
characters. -/
theorem recent_reads_back (calls : List (ℚ × SecurityEvent)) (db : Database)
    (hdb : db.auditLogs = [])
    (hcalls : ∀ call ∈ calls, call.2.Bindable ∧ ∃ moment, fromTimestamp call.1 = some moment)
    (limit : Nat) :
    ∃ events db', AuditLog.recordAll calls db = .ok (events, db') ∧
      (events = calls.mapIdx fun i call => AuditLog.recorded (i + 1) call) ∧
      (∀ event ∈ events, ∃ line, event.toLogLine = .ok line) ∧
      AuditLog.recent limit db' = .ok (events.reverse.take limit) ∧
      ∀ event ∈ events, ∀ s ∈ event.texts,
        s.length ≤ maxLen ∧ ∀ c ∈ s, unsafeLogChar c = false := by
  obtain ⟨events, db', hall, hevents, htrail, hlines⟩ := recordAll_returns (trail_nil hdb) hcalls
  rw [List.nil_append] at htrail
  refine ⟨events, db', hall, ?_, hlines, htrail.recent limit, fun event hevent s hs => ?_⟩
  · simpa [hdb] using hevents
  · rw [← htrail.clean event hevent] at hs
    have hclean := sanitized_texts event s hs
    exact ⟨hclean.length, hclean.safe⟩

/-- Three failed logins, one of a very long name. -/
def failedLogins : List (ℚ × SecurityEvent) :=
  [(0, failedLogin "alice"),
    (1, { failedLogin "bob" with userId := some (List.replicate 400 (ofChar 'x')) }),
    (2, failedLogin "carol")]

/-- The last two are read back. -/
theorem recent_reads_back_login : ∃ events db',
    AuditLog.recordAll failedLogins {} = .ok (events, db') ∧
      AuditLog.recent 2 db' = .ok (events.drop 1).reverse ∧
      events.map (fun e => (e.ts, e.id, e.userId.map List.length)) =
        [(0, some 1, some 5), (1, some 2, some maxLen), (2, some 3, some 5)] := by
  have hcalls : ∀ call ∈ failedLogins,
      call.2.Bindable ∧ ∃ moment, fromTimestamp call.1 = some moment := by
    intro call hcall
    have hall : ∀ call ∈ failedLogins,
        call.2.Bindable ∧ (fromTimestamp call.1).isSome = true := by
      decide +kernel
    obtain ⟨htexts, hclock⟩ := hall call hcall
    exact ⟨htexts, Option.isSome_iff_exists.mp hclock⟩
  obtain ⟨events, db', hall, hevents, -, hrecent, -⟩ :=
    recent_reads_back failedLogins {} rfl hcalls 2
  have hfields : (failedLogins.mapIdx fun i call => AuditLog.recorded (i + 1) call).map
      (fun e => (e.ts, e.id, e.userId.map List.length)) =
        [(0, some 1, some 5), (1, some 2, some maxLen), (2, some 3, some 5)] := by
    decide +kernel
  refine ⟨events, db', hall, ?_, hevents ▸ hfields⟩
  refine hrecent.trans ?_
  rw [hevents]
  rfl

end AgenticFirewall
