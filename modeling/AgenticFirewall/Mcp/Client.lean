import AgenticFirewall.Models.Requests

/-!
# Upstream connectors

`app/mcp/client.py`: how a tool that an MCP server declares becomes a
`ToolDefinition`. Keys are rewritten to snake_case first, so that every
SDK version yields the same definition.
-/

namespace AgenticFirewall

open Py

/-! ## Keys -/

/-- `[a-z0-9]`. -/
def isLowerDigit (c : CodePoint) : Bool := isLower c || isDigit c

/-- `_CAMEL.sub`: an uppercase letter after `[a-z0-9]` becomes an underscore
and its lowercase letter. The lookbehind sees the text as it was, so `prev`
is the character before, not what became of it. -/
def snakeFrom (prev : Option CodePoint) : Str → Str
  | [] => []
  | c :: cs =>
      if prev.any isLowerDigit && isUpper c then
        ofChar '_' :: lowerAscii c :: snakeFrom (some c) cs
      else c :: snakeFrom (some c) cs

/-- `_snake` -/
def snake (key : Str) : Str := snakeFrom none key

/-- `_snake_keys` -/
def snakeKeys (d : Obj) : Dict Str Value := .ofList (d.items.map fun kv => (snake kv.1, kv.2))

/-- A rewritten key has an underscore. -/
theorem snakeFrom_of_not_mem {prev : Option CodePoint} {cs : Str}
    (h : ofChar '_' ∉ snakeFrom prev cs) : snakeFrom prev cs = cs := by
  induction cs generalizing prev with
  | nil => rfl
  | cons c cs ih =>
      unfold snakeFrom at h ⊢
      split
      · rename_i hc
        rw [if_pos hc] at h
        simp at h
      · rename_i hc
        rw [if_neg hc] at h
        rw [ih fun hmem => h (List.mem_cons_of_mem c hmem)]

/-- Only a key itself is spelled like a key without underscore. -/
theorem eq_of_snake_eq {k key : Str} (hkey : ofChar '_' ∉ key) (h : snake k = key) : k = key := by
  rw [← h] at hkey ⊢
  exact (snakeFrom_of_not_mem hkey).symm

/-! ## Tools -/

/-- Python's truth value. -/
def truthy : Value → Bool
  | .null => false
  | .bool b => b
  | .num n => n.text ≠ str "0" && n.text ≠ str "0.0" && n.text ≠ str "-0.0"
  | .str s => !s.isEmpty
  | .list xs => !xs.isEmpty
  | .tuple xs => !xs.isEmpty
  | .dict items => !items.isEmpty

/-- `v or default`. -/
def orDefault (v : Option Value) (default : Value) : Value :=
  match v with
  | none => default
  | some v => if truthy v then v else default

/-- A `str` field of the model; anything else fails its validation. -/
def asStr : Value → Except Exc Str
  | .str s => .ok s
  | _ => .error .other

/-- A mapping; anything else fails the validation of the model, or has no
`items`. -/
def asObj : Value → Except Exc Obj
  | .dict items => if h : (items.map Prod.fst).Nodup then .ok ⟨items, h⟩ else .error .other
  | _ => .error .other

/-- What `d.pop(k)` returns; a missing key is a `KeyError`. -/
def popped (k : Str) (d : Dict Str Value) : Except Exc Value :=
  match d.get k with
  | none => .error .other
  | some v => .ok v

/-- What `d.pop(k)` leaves. -/
def without (k : Str) (d : Dict Str Value) : Dict Str Value := d.filter fun kv => kv.1 ≠ k

/-- `tool_to_definition` on `tool.model_dump(mode="json", exclude_none=True)`. -/
def toolToDefinition (dump : Obj) : Except Exc ToolDefinition := do
  let data := snakeKeys dump
  let name ← popped (str "name") data
  let data := without (str "name") data
  let description := orDefault (data.get (str "description")) (.str [])
  let data := without (str "description") data
  let inputSchema := orDefault (data.get (str "input_schema")) (.dict [])
  let data := without (str "input_schema") data
  let annotations ← asObj (orDefault (data.get (str "annotations")) (.dict []))
  let data := without (str "annotations") data
  let annotations := snakeKeys annotations
  return {
    name := ← asStr name
    description := ← asStr description
    inputSchema := ← asObj inputSchema
    annotations := ⟨annotations.items, annotations.nodup⟩
    extras := ⟨data.items, data.nodup⟩ }

end AgenticFirewall
