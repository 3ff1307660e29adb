import Mathlib.Data.List.Induction
import AgenticFirewall.Firewall.Integrity

/-!
# Pinning detects every change and nothing else

Canonical bytes identify a definition up to the order of object keys, so a
pin made of an injective digest does too. `verify` then compares a live
definition with the one approved last under its name.
-/

namespace AgenticFirewall

open Py

/-! ## Canonical bytes -/

namespace ToolDefinition

variable {d e : ToolDefinition}

/-- The field names of the payload. -/
theorem nodup_payload_keys :
    [str "name", str "description", str "input_schema", str "annotations",
      str "extras"].Nodup := by
  decide

theorem isJson_payload (h : d.IsJson) : (canonicalPayload d).IsJson := by
  obtain ⟨hname, hdesc, hschema, hann, hextras⟩ := h
  refine Value.isJson_dict.mpr ⟨nodup_payload_keys, ?_⟩
  simp only [List.mem_cons, List.not_mem_nil, or_false, forall_eq_or_imp, forall_eq]
  exact ⟨⟨encodable_str _, hname⟩, ⟨encodable_str _, hdesc⟩, ⟨encodable_str _, hschema⟩,
    ⟨encodable_str _, hann⟩, ⟨encodable_str _, hextras⟩⟩

/-- Two entry lists with the same distinct keys in the same order, one a
permutation of the other, are equal. -/
theorem eq_of_perm_of_keys {a b : List (Str × Value)} (hp : a.Perm b)
    (hk : a.map Prod.fst = b.map Prod.fst) (hn : (b.map Prod.fst).Nodup) : a = b := by
  refine List.ext_getElem hp.length_eq fun i hi hi' => ?_
  have hkey : a[i].1 = b[i].1 := by
    have := congrArg (fun l : List Str => l[i]?) hk
    simpa [hi, hi'] using this
  have hmem : a[i] ∈ b := hp.mem_iff.mp (List.getElem_mem hi)
  exact List.inj_on_of_nodup_map hn hmem (List.getElem_mem hi') hkey

theorem jsonEq_payload : (canonicalPayload d).JsonEq (canonicalPayload e) ↔ d.JsonEq e := by
  rw [canonicalPayload, canonicalPayload, Value.jsonEq_dict]
  constructor
  · intro h
    obtain ⟨aligned, hperm, hall⟩ := h
    have hkeys : aligned.map Prod.fst = _ :=
      (map_eq_of_forall₂ (hall.imp fun _ _ h => h.1)).symm
    rw [eq_of_perm_of_keys hperm (hkeys.trans rfl) nodup_payload_keys] at hall
    simp only [List.forall₂_cons, List.Forall₂.nil, and_true, true_and, Value.JsonEq] at hall
    exact hall
  · intro h
    obtain ⟨hname, hdesc, hschema, hann, hextras⟩ := h
    refine ⟨_, .refl _, ?_⟩
    simp only [List.forall₂_cons, true_and, Value.JsonEq]
    exact ⟨hname, hdesc, hschema, hann, hextras, .nil⟩

/-- Canonical bytes are the same exactly for definitions equal as JSON. -/
theorem canonicalBytes_eq_iff (hd : d.IsJson) (he : e.IsJson) :
    canonicalBytes d = canonicalBytes e ↔ d.JsonEq e := by
  rw [← jsonEq_payload]
  constructor
  · intro h
    have htext := encodeAscii_inj (dumps_ascii _) (dumps_ascii _) h
    exact dumps_inj (isJson_payload hd) (isJson_payload he) htext
  · intro h
    rw [canonicalBytes, canonicalBytes,
      dumps_congr (isJson_payload hd) (isJson_payload he) h]

theorem fingerprint_eq_iff {h : Sha256} (hinj : Function.Injective h.hexdigest) (hd : d.IsJson)
    (he : e.IsJson) : fingerprint h d = fingerprint h e ↔ d.JsonEq e := by
  rw [← canonicalBytes_eq_iff hd he]
  exact hinj.eq_iff

end ToolDefinition

/-! ## Sequences of approvals -/

/-- One call of `approve`. -/
structure Approval where
  defn : ToolDefinition
  now : ℚ
  approvedBy : Option Str

namespace Approval

/-- Whether the call returns: the approver's id can be stored. -/
def Returns (a : Approval) : Prop := ∀ s ∈ a.approvedBy, Encodable s

instance (a : Approval) : Decidable a.Returns := by
  unfold Returns
  infer_instance

/-- The database after one call; a call that raises changes nothing. -/
def apply (h : Sha256) (db : Database) (a : Approval) : Database :=
  match IntegrityChecker.approve h a.now a.defn a.approvedBy db with
  | .ok (_, db') => db'
  | .error _ => db

/-- The database after a sequence of calls on an empty store. -/
def applyAll (h : Sha256) (approvals : List Approval) : Database :=
  approvals.foldl (apply h) {}

/-- The definition approved last under a name. -/
def last (approvals : List Approval) (name : Str) : Option ToolDefinition :=
  ((approvals.filter fun a => a.Returns ∧ a.defn.name = name).map Approval.defn).getLast?

theorem last_concat (approvals : List Approval) (a : Approval) (name : Str) :
    last (approvals ++ [a]) name =
      if a.Returns ∧ a.defn.name = name then some a.defn else last approvals name := by
  unfold last
  by_cases h : a.Returns ∧ a.defn.name = name
  · rw [if_pos h, List.filter_append, List.filter_cons_of_pos (by simpa using h)]
    simp
  · rw [if_neg h, List.filter_append, List.filter_cons_of_neg (by simpa using h)]
    simp

theorem last_mem {approvals : List Approval} {name : Str} {e : ToolDefinition}
    (h : last approvals name = some e) : ∃ a ∈ approvals, a.defn = e ∧ e.name = name := by
  have hmem := List.mem_of_getLast? h
  obtain ⟨a, ha, rfl⟩ := List.mem_map.mp hmem
  have hfil := List.mem_filter.mp ha
  exact ⟨a, hfil.1, rfl, (by simpa using hfil.2 : a.Returns ∧ a.defn.name = name).2⟩

/-- The pin of a name after one call. -/
theorem pinned_apply {h : Sha256} {a : Approval} (ha : a.defn.IsJson) (db : Database)
    (name : Str) :
    (apply h db a).pinned name =
      if a.Returns ∧ a.defn.name = name then some (fingerprint h a.defn)
      else db.pinned name := by
  unfold apply
  by_cases hr : a.Returns
  · have hret : ∃ db', IntegrityChecker.approve h a.now a.defn a.approvedBy db =
        .ok (fingerprint h a.defn, db') := approve_returns ha.1 hr
    obtain ⟨db', hdb⟩ := hret
    rw [hdb]
    rw [(approve_eq_ok hdb).2.2.1 name]
    simp only [hr, true_and, eq_comm]
  · rw [if_neg (fun hc => hr hc.1)]
    cases hdb : IntegrityChecker.approve h a.now a.defn a.approvedBy db with
    | error err => rfl
    | ok p => exact absurd (approve_bound hdb) hr

/-- **The store** pins, under each name, the definition approved last. -/
theorem pinned_applyAll {h : Sha256} {approvals : List Approval}
    (hjson : ∀ a ∈ approvals, a.defn.IsJson) (name : Str) :
    (applyAll h approvals).pinned name = (last approvals name).map (fingerprint h) := by
  induction approvals using List.reverseRecOn with
  | nil =>
      unfold applyAll Database.pinned
      split <;> rfl
  | append_singleton as a ih =>
      have hrest := ih fun b hb => hjson b (by simp [hb])
      rw [applyAll, List.foldl_append, List.foldl_cons, List.foldl_nil,
        pinned_apply (hjson a (by simp)), last_concat]
      split
      · rfl
      · exact hrest

end Approval

/-- **Pinning**: with an injective digest, after any approvals on an empty
store, `verify` says `ok` exactly when the last approval under the name was
of a definition equal as JSON, `unapproved` exactly when there was none and
`changed` otherwise; and canonical bytes tell definitions apart up to the
order of their keys. -/
theorem verify_detects_change {h : Sha256} (hinj : Function.Injective h.hexdigest)
    {approvals : List Approval} (hjson : ∀ a ∈ approvals, a.defn.IsJson) :
    (∀ d : ToolDefinition, d.IsJson →
      ∃ r, IntegrityChecker.verify h d (Approval.applyAll h approvals) = .ok r ∧
        (r.status = .ok ↔ ∃ e, Approval.last approvals d.name = some e ∧ e.JsonEq d) ∧
        (r.status = .unapproved ↔ Approval.last approvals d.name = none) ∧
        (r.status = .changed ↔ ∃ e, Approval.last approvals d.name = some e ∧ ¬ e.JsonEq d)) ∧
    (∀ d e : ToolDefinition, d.IsJson → e.IsJson →
      (canonicalBytes d = canonicalBytes e ↔ d.JsonEq e)) := by
  refine ⟨fun d hd => ?_, fun d e hd he => ToolDefinition.canonicalBytes_eq_iff hd he⟩
  refine ⟨_, verify_eq hd.1, ?_⟩
  rw [Approval.pinned_applyAll hjson]
  cases hlast : Approval.last approvals d.name with
  | none => simp
  | some e =>
      obtain ⟨a, ha, rfl, -⟩ := Approval.last_mem hlast
      have hiff := ToolDefinition.fingerprint_eq_iff hinj (hjson a ha) hd
      by_cases heq : a.defn.JsonEq d
      · simp [hiff.mpr heq, heq]
      · simp [mt hiff.mp heq, heq]

/-! ## One approval, checked -/

/-- A tool with two parameters, in the order given. -/
def echoTool (description : String) (first second : String) (h : str first ≠ str second) :
    ToolDefinition where
  name := str "echo"
  description := str description
  inputSchema := ⟨[(str first, .null), (str second, .null)], by simpa using h⟩

theorem str_b_ne_str_a : str "b" ≠ str "a" := by decide

def echo : ToolDefinition := echoTool "Echo." "b" "a" str_b_ne_str_a

def echoReordered : ToolDefinition := echoTool "Echo." "a" "b" (by decide)

def echoEdited : ToolDefinition := echoTool "Echo!" "a" "b" (by decide)

example : canonicalBytes echo = encodeAscii (str
    "\x7b\"annotations\":\x7b\x7d,\"description\":\"Echo.\",\"extras\":\x7b\x7d,\"input_schema\":\x7b\"a\":null,\"b\":null\x7d,\"name\":\"echo\"\x7d") := by
  decide +kernel

/-- SHA-256 on the canonical bytes of the two descriptions. -/
def echoDigest : Sha256 := .agreeing
  [(canonicalBytes echo,
      [0xa0, 0xb7, 0x51, 0x06, 0xfb, 0x16, 0x66, 0xe1, 0x87, 0x6f, 0x39, 0xd4, 0x02, 0x09, 0x0d,
        0xdf, 0xbc, 0xf2, 0xf7, 0x84, 0xcf, 0x41, 0xc7, 0x92, 0xb9, 0x27, 0x88, 0x21, 0x46, 0xd2,
        0x6a, 0x31]),
    (canonicalBytes echoEdited,
      [0x56, 0x2f, 0x43, 0x55, 0xa7, 0xab, 0x25, 0x3c, 0xea, 0x35, 0x80, 0x8f, 0xd1, 0x72, 0x38,
        0xe3, 0xce, 0xa9, 0x1a, 0xf8, 0xd4, 0x3b, 0xbd, 0xc6, 0xad, 0x4a, 0xe8, 0x2d, 0x4f, 0xf9,
        0x85, 0xd9])]

theorem isJson_echoTool {description first second : String} (h : str first ≠ str second) :
    (echoTool description first second h).IsJson := by
  have hempty : Obj.empty.toValue.IsJson := by
    simp [Obj.empty, Obj.toValue, Value.isJson_dict]
  refine ⟨encodable_str _, encodable_str _, ?_, hempty, hempty⟩
  refine Value.isJson_dict.mpr ⟨by simpa [echoTool] using h, ?_⟩
  simp [echoTool, Value.IsJson]

theorem echo_jsonEq_echoReordered : echo.JsonEq echoReordered := by
  have hempty : Obj.empty.toValue.JsonEq Obj.empty.toValue := ⟨[], .refl _, trivial⟩
  refine ⟨rfl, rfl, ?_, hempty, hempty⟩
  refine Value.jsonEq_dict.mpr ⟨[(str "b", .null), (str "a", .null)], .swap _ _ _, ?_⟩
  exact .cons ⟨rfl, trivial⟩ (.cons ⟨rfl, trivial⟩ .nil)

/-- After `echo` is approved, the tool with its parameters in the other
order passes and the one with an edited description does not. -/
theorem verify_detects_change_echo :
    (∃ r, IntegrityChecker.verify echoDigest echoReordered
        (Approval.applyAll echoDigest [⟨echo, 0, some (str "root")⟩]) = .ok r ∧ r.status = .ok) ∧
      ∃ r, IntegrityChecker.verify echoDigest echoEdited
        (Approval.applyAll echoDigest [⟨echo, 0, some (str "root")⟩]) = .ok r ∧
          r.status = .changed := by
  have hjson : ∀ a ∈ [(⟨echo, 0, some (str "root")⟩ : Approval)], a.defn.IsJson := by
    intro a ha
    rw [List.mem_singleton.mp ha]
    exact isJson_echoTool (by decide)
  obtain ⟨hverify, -⟩ := verify_detects_change (Sha256.agreeing_injective _) hjson
  constructor
  · obtain ⟨r, hr, hok, -, -⟩ := hverify echoReordered (isJson_echoTool _)
    exact ⟨r, hr, hok.mpr ⟨echo, rfl, echo_jsonEq_echoReordered⟩⟩
  · obtain ⟨r, hr, -, -, hchanged⟩ := hverify echoEdited (isJson_echoTool _)
    refine ⟨r, hr, hchanged.mpr ⟨echo, rfl, fun heq => ?_⟩⟩
    exact absurd heq.2.1 (by decide)

end AgenticFirewall
