import AgenticFirewall.Lib.Pattern

/-!
# Scanner rules

The rule table of `app/firewall/scanner.py` and `scan_text`, which
normalises a text and matches it against the rules of one direction. All
patterns ignore case.
-/

namespace AgenticFirewall

open Py

inductive Direction where
  | input
  | output
  | description
  deriving DecidableEq, Repr

inductive Category where
  | promptInjection
  | exfiltration
  | secretAccess
  | secretMaterial
  | commandInjection
  | pathTraversal
  | obfuscation
  | resourceAbuse
  deriving DecidableEq, Repr

def Category.text : Category → Str
  | .promptInjection => str "prompt_injection"
  | .exfiltration => str "exfiltration"
  | .secretAccess => str "secret_access"
  | .secretMaterial => str "secret_material"
  | .commandInjection => str "command_injection"
  | .pathTraversal => str "path_traversal"
  | .obfuscation => str "obfuscation"
  | .resourceAbuse => str "resource_abuse"

inductive RuleName where
  | ignoreInstructions
  | revealSystemPrompt
  | roleOverride
  | hiddenDirectiveTag
  | chatTemplateToken
  | concealFromUser
  | preUseDirective
  | sendSecretTo
  | exfiltrateWord
  | sensitivePath
  | awsAccessKey
  | privateKeyBlock
  | serviceToken
  | credentialAssignment
  | shellChaining
  | commandSubstitution
  | destructiveRm
  | downloadAndExecute
  | reverseShell
  | pathTraversal
  | hiddenCharacters
  | excessiveNesting
  | oversizedPayload
  deriving DecidableEq, Repr

def RuleName.text : RuleName → Str
  | .ignoreInstructions => str "ignore_instructions"
  | .revealSystemPrompt => str "reveal_system_prompt"
  | .roleOverride => str "role_override"
  | .hiddenDirectiveTag => str "hidden_directive_tag"
  | .chatTemplateToken => str "chat_template_token"
  | .concealFromUser => str "conceal_from_user"
  | .preUseDirective => str "pre_use_directive"
  | .sendSecretTo => str "send_secret_to"
  | .exfiltrateWord => str "exfiltrate_word"
  | .sensitivePath => str "sensitive_path"
  | .awsAccessKey => str "aws_access_key"
  | .privateKeyBlock => str "private_key_block"
  | .serviceToken => str "service_token"
  | .credentialAssignment => str "credential_assignment"
  | .shellChaining => str "shell_chaining"
  | .commandSubstitution => str "command_substitution"
  | .destructiveRm => str "destructive_rm"
  | .downloadAndExecute => str "download_and_execute"
  | .reverseShell => str "reverse_shell"
  | .pathTraversal => str "path_traversal"
  | .hiddenCharacters => str "hidden_characters"
  | .excessiveNesting => str "excessive_nesting"
  | .oversizedPayload => str "oversized_payload"

theorem Category.encodable_text (c : Category) : Encodable c.text := by
  cases c <;> exact encodable_str _

theorem RuleName.encodable_text (r : RuleName) : Encodable r.text := by
  cases r <;> exact encodable_str _

/-! ## The table -/

structure Rule where
  name : RuleName
  category : Category
  pattern : Pattern
  directions : List Direction := [.input, .output, .description]

section Table

open Pattern

/-- `s?` after a literal. -/
def plural (s : String) : Pattern := .seq (lit s) (opt (lit "s"))

/-- One character of `s`, case ignored. -/
def anyOf (s : String) : Pattern := .set fun c => oneOf s (foldCase c)

/-- `[^s]{0,n}` -/
def upToN (s : String) (n : Nat) : Pattern := .rep (.set (noneOf s)) 0 (some n)

/-- `[A-Za-z0-9…]{n,}` -/
def atLeast (n : Nat) (extra : String) : Pattern := .rep (.set (alnumOr extra)) n none

/-- `[a-z]*` -/
def letters : Pattern := star (.set fun c => isLower (foldCase c))

/-- `(?:an?\s+)?` -/
def article : Pattern := opt (seqs [lit "a", opt (lit "n"), ws1])

def secretWords : Pattern :=
  alts [plural "secret", plural "password", plural "credential", plural "token",
    seqs [lit "api", ws0, plural "key"], seqs [lit "private", ws0, plural "key"],
    seqs [lit "ssh", ws0, plural "key"]]

def substitutedCommands : Pattern :=
  words ["rm", "curl", "wget", "nc", "bash", "sh", "cat", "ls", "id", "whoami", "env",
    "printenv", "echo", "uname"]

def ignoreInstructionsPattern : Pattern :=
  seqs [.boundary, words ["ignore", "disregard", "forget", "override", "bypass"], ws1,
    star (seqs [words ["all", "any", "the", "your", "my", "these", "those", "of"], ws1]),
    star (seqs [words ["previous", "prior", "above", "earlier", "preceding", "system", "safety",
      "original", "initial", "other"], ws1]),
    alts [plural "instruction", plural "prompt", plural "rule", plural "guideline",
      plural "direction", .seq (lit "polic") (words ["y", "ies"]), plural "constraint",
      plural "restriction"],
    .boundary]

def revealSystemPromptPattern : Pattern :=
  let what := alts [plural "instruction", lit "prompt"]
  seqs [.boundary, words ["reveal", "show", "print", "output", "repeat", "leak", "display",
      "disclose"], .boundary, upToN "." 30, .boundary,
    alts [seqs [lit "system", ws1, lit "prompt"], seqs [lit "hidden", ws1, what],
      seqs [lit "initial", ws1, what]],
    .boundary]

def roleOverridePattern : Pattern :=
  alts [
    seqs [.boundary, lit "you", ws1, lit "are", ws1, lit "now", ws1, article,
      alts [lit "unrestricted", lit "unfiltered", lit "jailbroken", lit "evil",
        .seq (lit "dan") .boundary, seqs [lit "free", ws1, lit "of"],
        seqs [lit "no", ws1, lit "longer", ws1, lit "bound"]]],
    seqs [.boundary, lit "new", ws1, plural "instruction", ws0, lit ":"],
    seqs [.boundary, lit "from", ws1, lit "now", ws1, lit "on", opt (lit ","), ws1, lit "you", ws1,
      words ["must", "will", "should", "are", "shall"], .boundary],
    seqs [.boundary, lit "act", ws1, lit "as", ws1, article,
      words ["unrestricted", "unfiltered", "jailbroken", "dan"], .boundary]]

def hiddenDirectiveTagPattern : Pattern :=
  seqs [lit "<", ws0, opt (lit "/"), ws0,
    alts [lit "important", lit "system", plural "instruction", lit "admin", lit "secret",
      lit "override"],
    ws0, lit ">"]

def chatTemplateTokenPattern : Pattern :=
  alts [
    seqs [lit "<|", words ["im_start", "im_end", "system", "assistant", "user", "endoftext"],
      lit "|>"],
    seqs [lit "[", opt (lit "/"), lit "INST]"]]

def concealFromUserPattern : Pattern :=
  seqs [.boundary,
    alts [seqs [lit "do", ws1, lit "not"], seqs [lit "don", opt (anyOf "'’"), lit "t"],
      lit "never"],
    ws1, words ["tell", "inform", "mention", "reveal", "show", "notify", "alert"], .boundary,
    upToN "." 30, .boundary, words ["user", "human", "operator"], .boundary]

def preUseDirectivePattern : Pattern :=
  seqs [.boundary, lit "before", ws1, words ["using", "calling", "invoking", "running"], ws1,
    words ["this", "the"], ws1, lit "tool", .boundary, upToN "." 100, .boundary,
    words ["read", "send", "include", "pass", "open", "access", "attach", "append"], .boundary]

def sendSecretToPattern (u : Unicode) : Pattern :=
  seqs [.boundary,
    alts [lit "send", lit "post", lit "upload", .seq (lit "exfiltrat") (star (.set u.isWord)),
      lit "forward", lit "transmit", lit "leak", lit "email"],
    .boundary, upToN "." 40, .boundary, secretWords, .boundary, upToN "." 40, .boundary,
    words ["to", "at", "via"], .boundary]

def exfiltrateWordPattern : Pattern :=
  seqs [.boundary, lit "exfiltrat", words ["e", "es", "ed", "ing", "ion"], .boundary]

def sensitivePathPattern (u : Unicode) : Pattern :=
  let wordOrDash : CodePoint → Bool := fun c => u.isWord c || oneOf "-" c
  alts [
    seqs [.notBehind u.isWord,
      alts [.seq (lit ".env") (opt (.seq (lit ".") (plus (.set wordOrDash)))), lit ".ssh",
        lit ".aws", lit ".gnupg", lit ".kube", lit ".netrc", lit ".npmrc", lit ".pypirc",
        lit ".git-credentials"],
      .notAhead (.set wordOrDash)],
    seqs [.boundary, lit "id_", words ["rsa", "dsa", "ecdsa", "ed25519"], .boundary,
      .notAhead (lit ".pub")],
    seqs [lit "/etc/", words ["passwd", "shadow", "sudoers"], .boundary],
    seqs [lit "/proc/self/environ", .boundary],
    seqs [.boundary, lit "credentials.json", .boundary],
    seqs [.boundary, plural "secret", lit ".",
      alts [seqs [lit "y", opt (lit "a"), lit "ml"], lit "json"], .boundary]]

def awsAccessKeyPattern : Pattern :=
  seqs [.boundary, words ["AKIA", "ASIA"], .rep (.set (alnumOr "")) 16 (some 16), .boundary]

def privateKeyBlockPattern : Pattern :=
  seqs [lit "-----BEGIN ", star (.seq (plus (.set (alnumOr ""))) (lit " ")), lit "PRIVATE KEY",
    opt (lit " BLOCK"), lit "-----"]

def serviceTokenPattern : Pattern :=
  alts [
    seqs [.boundary, lit "gh", anyOf "pousr", lit "_", atLeast 36 "", .boundary],
    seqs [.boundary, lit "github_pat_", atLeast 22 "_", .boundary],
    seqs [.boundary, lit "xox", anyOf "abprs", lit "-", atLeast 10 "-"],
    seqs [.boundary, lit "sk-", opt (words ["ant-", "proj-"]), atLeast 20 "_-"],
    seqs [.boundary, lit "eyJ", atLeast 8 "_-", lit ".eyJ", atLeast 8 "_-", lit ".",
      atLeast 8 "_-"]]

def credentialAssignmentPattern : Pattern :=
  let sep := opt (anyOf "_-")
  seqs [.boundary,
    alts [seqs [lit "api", sep, lit "key"], seqs [lit "secret", sep, lit "key"],
      seqs [lit "access", sep, lit "token"], seqs [lit "auth", sep, lit "token"],
      seqs [lit "client", sep, lit "secret"], lit "password", lit "passwd"],
    .boundary, ws0, anyOf ":=", ws0, opt (anyOf "'\""), atLeast 12 "/+_-"]

def shellChainingPattern : Pattern :=
  seqs [words [";", "&&", "||", "|"], ws0,
    words ["rm", "curl", "wget", "nc", "ncat", "netcat", "bash", "sh", "zsh", "powershell", "cmd",
      "chmod", "chown", "dd", "mkfs", "sudo", "scp"],
    .boundary]

def commandSubstitutionPattern : Pattern :=
  alts [
    seqs [lit "$(", ws0, substitutedCommands, .boundary, upToN ")" 200, lit ")"],
    seqs [lit "`", ws0, substitutedCommands, .boundary, upToN "`" 200, lit "`"]]

def destructiveRmPattern : Pattern :=
  seqs [.boundary, lit "rm", ws1, lit "-", letters, anyOf "rf", letters, .boundary]

def downloadAndExecutePattern : Pattern :=
  seqs [.boundary, words ["curl", "wget"], .boundary, upToN "|;&" 200, lit "|", ws0,
    opt (.seq (lit "sudo") ws1), opt (words ["ba", "z"]), lit "sh", .boundary]

def reverseShellPattern : Pattern :=
  alts [
    lit "/dev/tcp/",
    seqs [.boundary, lit "bash", ws1, lit "-i", .boundary],
    seqs [.boundary, words ["nc", "ncat", "netcat"], .boundary, upToN "|;&" 40, .set isSpace,
      lit "-", letters, lit "e", .boundary]]

def pathTraversalPattern : Pattern := .seq (lit "..") (anyOf "/\\")

/-- `RULES`, in order. -/
def rules (u : Unicode) : List Rule :=
  [⟨.ignoreInstructions, .promptInjection, ignoreInstructionsPattern,
      [.input, .output, .description]⟩,
    ⟨.revealSystemPrompt, .promptInjection, revealSystemPromptPattern,
      [.input, .output, .description]⟩,
    ⟨.roleOverride, .promptInjection, roleOverridePattern, [.input, .output, .description]⟩,
    ⟨.hiddenDirectiveTag, .promptInjection, hiddenDirectiveTagPattern,
      [.input, .output, .description]⟩,
    ⟨.chatTemplateToken, .promptInjection, chatTemplateTokenPattern,
      [.input, .output, .description]⟩,
    ⟨.concealFromUser, .promptInjection, concealFromUserPattern,
      [.input, .output, .description]⟩,
    ⟨.preUseDirective, .promptInjection, preUseDirectivePattern, [.description, .output]⟩,
    ⟨.sendSecretTo, .exfiltration, sendSecretToPattern u, [.input, .output, .description]⟩,
    ⟨.exfiltrateWord, .exfiltration, exfiltrateWordPattern, [.input, .description]⟩,
    ⟨.sensitivePath, .secretAccess, sensitivePathPattern u, [.input, .output, .description]⟩,
    ⟨.awsAccessKey, .secretMaterial, awsAccessKeyPattern, [.input, .output, .description]⟩,
    ⟨.privateKeyBlock, .secretMaterial, privateKeyBlockPattern,
      [.input, .output, .description]⟩,
    ⟨.serviceToken, .secretMaterial, serviceTokenPattern, [.input, .output, .description]⟩,
    ⟨.credentialAssignment, .secretMaterial, credentialAssignmentPattern,
      [.input, .output, .description]⟩,
    ⟨.shellChaining, .commandInjection, shellChainingPattern, [.input]⟩,
    ⟨.commandSubstitution, .commandInjection, commandSubstitutionPattern, [.input]⟩,
    ⟨.destructiveRm, .commandInjection, destructiveRmPattern, [.input]⟩,
    ⟨.downloadAndExecute, .commandInjection, downloadAndExecutePattern, [.input]⟩,
    ⟨.reverseShell, .commandInjection, reverseShellPattern, [.input]⟩,
    ⟨.pathTraversal, .pathTraversal, pathTraversalPattern, [.input]⟩]

end Table

/-! ## One text -/

def between (a b : Nat) (c : CodePoint) : Bool := decide (a ≤ c.val) && decide (c.val ≤ b)

/-- `_FLAG_RE`: characters that are suspicious on their own. -/
def flagged (c : CodePoint) : Bool :=
  c.val == 0x200B || between 0x2060 0x2064 c || between 0x202A 0x202E c ||
    between 0x2066 0x2069 c || c.val == 0xFEFF || between 0xE0000 0xE007F c

/-- `_STRIP_RE`: characters dropped before matching. -/
def stripped (c : CodePoint) : Bool :=
  between 0x200B 0x200F c || between 0x2060 0x2064 c || between 0x202A 0x202E c ||
    between 0x2066 0x2069 c || c.val == 0xFEFF || c.val == 0xAD || between 0xE0000 0xE007F c

/-- `_WS_RE.sub(" ", ·)`; the flag says that the text before ended in
white space. -/
def collapseSpace : Bool → Str → Str
  | _, [] => []
  | inRun, c :: rest =>
      if isSpace c then
        if inRun then collapseSpace true rest else ofChar ' ' :: collapseSpace true rest
      else c :: collapseSpace false rest

/-- The text the rules are matched against. -/
def normalizeText (u : Unicode) (text : Str) : Str :=
  collapseSpace false ((u.nfkc text).filter fun c => !stripped c)

/-- A rule that matched and its category: a finding without its location. -/
structure Hit where
  rule : RuleName
  category : Category
  deriving DecidableEq, Repr

/-- `scan_text`; the caller adds the location. -/
def scanText (u : Unicode) (direction : Direction) (text : Str) : List Hit :=
  let norm := normalizeText u text
  (if text.any flagged then [⟨.hiddenCharacters, .obfuscation⟩] else []) ++
    ((rules u).filter fun r => direction ∈ r.directions ∧ r.pattern.search u norm = true).map
      fun r => ⟨r.name, r.category⟩

end AgenticFirewall
