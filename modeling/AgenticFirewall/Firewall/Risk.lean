import AgenticFirewall.Models.Policies

/-!
# Tool risk from tool names

`app/firewall/risk.py`. A name is split into words, the words are looked
up in verb lists and the most dangerous list wins.
-/

namespace AgenticFirewall

open Py

def criticalWords : List Str :=
  ["shell", "bash", "sudo", "eval", "exec", "cmd", "powershell", "subprocess",
    "terminal"].map str

def launchVerbs : List Str := ["execute", "run", "invoke", "launch"].map str

def codeObjects : List Str :=
  ["command", "commands", "cmd", "script", "code", "program", "binary", "process"].map str

def highWords : List Str :=
  ["delete", "remove", "drop", "truncate", "destroy", "erase", "wipe", "purge", "kill",
    "terminate", "revoke", "format", "reset", "shutdown", "execute", "trade", "buy", "sell",
    "transfer", "withdraw", "pay", "payment", "grant"].map str

def mediumWords : List Str :=
  ["write", "create", "update", "set", "save", "send", "post", "put", "add", "edit", "modify",
    "upload", "insert", "append", "move", "rename", "copy", "install", "deploy", "run",
    "submit", "email", "publish", "patch", "invoke"].map str

def lowWords : List Str :=
  ["get", "read", "search", "list", "fetch", "query", "describe", "show", "find", "lookup",
    "view", "check", "count", "stat", "status", "summarize", "info"].map str

namespace RiskClassifier

/-- `_CAMEL_RE.sub(r"\1_\2", name)`: an underscore between a lowercase
letter or digit and the uppercase letter after it. Matches cannot overlap,
since the second character of one never starts another. -/
def camelSub : Str → Str
  | a :: b :: rest =>
      if (isLower a || isDigit a) && isUpper b then a :: ofChar '_' :: camelSub (b :: rest)
      else a :: camelSub (b :: rest)
  | s => s

/-- The words of a name, lowercased. -/
def words (name : Str) : List Str :=
  (((camelSub name).splitOnP fun c => !isAsciiAlnum c).filter (· ≠ [])).map (·.map lowerAscii)

/-- The two sets have a word in common. -/
def meets (words list : List Str) : Bool := words.any list.contains

def classify (overrides : Dict Str RiskLevel) (toolName : Str) : RiskLevel :=
  match overrides.get toolName with
  | some level => level
  | none =>
      let ws := words toolName
      if meets ws criticalWords || (meets ws launchVerbs && meets ws codeObjects) then .critical
      else if meets ws highWords then .high
      else if meets ws mediumWords then .medium
      else if meets ws lowWords then .low
      else .medium

example : classify .empty (str "runShell-command") = .critical := by decide

end RiskClassifier

end AgenticFirewall
