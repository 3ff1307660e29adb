import AgenticFirewall.Lib.PlainJson
import AgenticFirewall.Lib.Raising
import AgenticFirewall.Models.Requests

/-!
# Upstream results

`app/mcp/client.py`: how the result of an SDK `call_tool` becomes a
`ToolResponse`. The objects of the SDK are given by the attributes the code
reads; what `getattr` may find missing is optional.
-/

namespace AgenticFirewall

open Py

/-- `block.resource`; its `text` may be missing, `None` or no string. -/
structure Resource where
  text : Option Value := none

/-- A content block. -/
structure Block where
  type : Option Str := none
  text : Option Str := none
  resource : Option Resource := none

/-- What `call_tool` of the SDK returns. A result of another type has no
`content`; `content` itself may be `None`. SDK 1.x spells the other
attributes in camelCase, SDK 2.x in snake_case. -/
structure SdkResult where
  content : Option (Option (List Block)) := none
  isError : Option Bool := none
  is_error : Option Bool := none
  structuredContent : Option (Option Value) := none
  structured_content : Option (Option Value) := none

/-- An attribute that is accessed without a default. -/
def getAttr {α : Type} : Option α → Except Exc α
  | none => .error .other
  | some a => .ok a

/-- `f"[{btype} content omitted by firewall]"` -/
def omitted (btype : Str) : Str := str "[" ++ btype ++ str " content omitted by firewall]"

/-- What one content block adds to the text. -/
def blockPart (block : Block) : Except Exc Str :=
  let btype := block.type.getD (str "unknown")
  if btype = str "text" then getAttr block.text
  else if btype = str "resource" then do
    let resource ← getAttr block.resource
    match resource.text with
    | some (.str text) => return text
    | _ => return str "[binary resource omitted by firewall]"
  else return omitted btype

/-- The texts of the blocks, in order; an exception ends the loop. -/
def blockParts : List Block → Except Exc (List Str)
  | [] => .ok []
  | block :: rest => do
      let part ← blockPart block
      let parts ← blockParts rest
      return part :: parts

/-- `getattr(result, "structuredContent", getattr(result, "structured_content", None))` -/
def structured (result : SdkResult) : Option Value :=
  (result.structuredContent.getD (result.structured_content.getD none))

/-- `result_to_response` -/
def resultToResponse (result : SdkResult) : Except Exc ToolResponse :=
  match result.content with
  | none => .ok { text := str "[unsupported upstream result type]", isError := true }
  | some content => do
      let isError := result.isError.getD (result.is_error.getD false)
      let parts ← blockParts (content.getD [])
      let parts :=
        match parts, structured result with
        | [], some v => [dumpsPlain v]
        | parts, _ => parts
      return { text := join (str "\n") parts, isError }

/-! ## What it keeps -/

/-- The text of the server in a block: of a text block, or of a text
resource. -/
def Block.serverText (block : Block) : Option Str :=
  if block.type = some (str "text") then block.text
  else if block.type = some (str "resource") then
    match block.resource with
    | some { text := some (.str text) } => some text
    | _ => none
  else none

/-- Each part comes from one block. -/
theorem blockParts_eq_ok {blocks : List Block} {parts : List Str}
    (h : blockParts blocks = .ok parts) :
    List.Forall₂ (fun block part => blockPart block = .ok part) blocks parts := by
  induction blocks generalizing parts with
  | nil =>
      cases h
      exact .nil
  | cons block rest ih =>
      unfold blockParts at h
      obtain ⟨part, hpart, h⟩ := except_bind_eq_ok.mp h
      obtain ⟨parts', hrest, h⟩ := except_bind_eq_ok.mp h
      cases h
      exact .cons hpart (ih hrest)

/-- The text of a block is its part. -/
theorem blockPart_serverText {block : Block} {text : Str} (h : block.serverText = some text) :
    blockPart block = .ok text := by
  unfold Block.serverText at h
  unfold blockPart
  split at h
  · rename_i htype
    simp [htype, getAttr, h]
  · split at h
    · rename_i htext htype
      split at h
      · rename_i resource t hres
        obtain rfl := Option.some.inj h
        have hne : str "resource" ≠ str "text" := by decide
        simp [htype, hne, hres, getAttr]
        rfl
      · cases h
    · cases h

end AgenticFirewall
