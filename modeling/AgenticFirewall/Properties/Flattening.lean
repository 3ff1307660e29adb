import AgenticFirewall.Answers
import AgenticFirewall.Lib.PatternContext
import AgenticFirewall.Mcp.Response
import AgenticFirewall.Properties.ScannerVerdict
import AgenticFirewall.Properties.UpstreamTrace

/-!
# Texts inside a flattened response

`result_to_response` joins the texts of an upstream result, and prints
structured content as JSON, before the scanner sees it. What the rules find
in one of the texts they find in the whole: normalising keeps the text
apart at a line break and at a quote, and every rule survives there.
-/

namespace AgenticFirewall

open Py

/-! ## Normalising a longer text -/

/-- The characters texts are put together with. -/
def edge (c : CodePoint) : Bool := c == ofChar '\n' || c == ofChar '"'

/-- What becomes of them: a line break collapses into a space. -/
def edgeNormal (c : CodePoint) : Bool := c == ofChar ' ' || c == ofChar '"'

/-- NFKC leaves line breaks and quotes where they are and neither reorders
nor composes anything across them. -/
def InertEdges (u : Unicode) : Prop :=
  ∀ e, edge e = true → ∀ x y, u.nfkc (x ++ e :: y) = u.nfkc x ++ e :: u.nfkc y

theorem edge_cases {e : CodePoint} (h : edge e = true) : e = ofChar '\n' ∨ e = ofChar '"' := by
  simpa [edge] using h

theorem edgeNormal_cases {s : CodePoint} (h : edgeNormal s = true) :
    s = ofChar ' ' ∨ s = ofChar '"' := by
  simpa [edgeNormal] using h

theorem stripped_edge {e : CodePoint} (h : edge e = true) : stripped e = false := by
  rcases edge_cases h with rfl | rfl <;> rfl

/-- Whether what was read last is white space. -/
def runAfter : Bool → Str → Bool
  | inRun, [] => inRun
  | _, c :: rest => runAfter (isSpace c) rest

theorem collapseSpace_append (inRun : Bool) (x y : Str) :
    collapseSpace inRun (x ++ y) = collapseSpace inRun x ++ collapseSpace (runAfter inRun x) y := by
  induction x generalizing inRun with
  | nil => rfl
  | cons c x ih =>
      simp only [List.cons_append, collapseSpace, runAfter]
      cases hc : isSpace c with
      | false => simp [ih]
      | true => cases inRun <;> simp [ih]

/-- A text that ends in white space ends in a space once it is collapsed. -/
theorem collapseSpace_trailing {x : Str} (h : runAfter false x = true) :
    ∃ q, collapseSpace false x = q ++ [ofChar ' '] := by
  have hgen : ∀ (x : Str) (inRun : Bool), runAfter inRun x = true →
      (collapseSpace inRun x = [] ∧ inRun = true) ∨
        ∃ q, collapseSpace inRun x = q ++ [ofChar ' '] := by
    intro x
    induction x with
    | nil => exact fun inRun h => .inl ⟨rfl, h⟩
    | cons c x ih =>
        intro inRun h
        simp only [collapseSpace]
        rcases ih _ h with ⟨hnil, hc⟩ | ⟨q, hq⟩
        · rw [hc] at hnil ⊢
          cases inRun with
          | false => exact .inr ⟨[], by simp [hnil]⟩
          | true => exact .inl ⟨by simp [hnil], rfl⟩
        · cases hc : isSpace c with
          | false =>
              rw [hc] at hq
              exact .inr ⟨c :: q, by simp [hq]⟩
          | true =>
              rw [hc] at hq
              cases inRun with
              | false => exact .inr ⟨ofChar ' ' :: q, by simp [hq]⟩
              | true => exact .inr ⟨q, by simp [hq]⟩
  rcases hgen x false h with ⟨-, hfalse⟩ | hq
  · cases hfalse
  · exact hq

/-- White space behind white space is dropped; anything else is kept. -/
theorem collapseSpace_behind_space (x : Str) :
    (∃ rest, collapseSpace false x = ofChar ' ' :: rest ∧ collapseSpace true x = rest) ∨
      collapseSpace true x = collapseSpace false x := by
  cases x with
  | nil => exact .inr rfl
  | cons c x =>
      cases hc : isSpace c with
      | false => exact .inr (by simp [collapseSpace, hc])
      | true => exact .inl ⟨collapseSpace true x, by simp [collapseSpace, hc]⟩

/-- What is kept of `_STRIP_RE.sub("", NFKC(text))`. -/
def kept (u : Unicode) (text : Str) : Str := (u.nfkc text).filter fun c => !stripped c

theorem kept_split {u : Unicode} (hinert : InertEdges u) {e : CodePoint} (he : edge e = true)
    (x y : Str) : kept u (x ++ e :: y) = kept u x ++ e :: kept u y := by
  simp [kept, hinert e he, stripped_edge he]

/-- Before a text that stands behind an edge, the rest normalises to a text
that ends in an edge, or the text itself starts with one. -/
theorem normal_behind {e : CodePoint} (he : edge e = true) (a x : Str) :
    ∃ p, collapseSpace false (a ++ e :: x) = p ++ collapseSpace false x ∧
      ∀ d ∈ p.getLast?, edgeNormal d = true ∨
        ∃ s, (collapseSpace false x).head? = some s ∧ edgeNormal s = true := by
  rw [collapseSpace_append]
  rcases edge_cases he with rfl | rfl
  · -- a line break: one space, wherever it comes from
    have hspace : ∃ q, collapseSpace false a ++
        collapseSpace (runAfter false a) (ofChar '\n' :: x) =
          q ++ ofChar ' ' :: collapseSpace true x := by
      have hnl : isSpace (ofChar '\n') = true := rfl
      cases hrun : runAfter false a with
      | false => exact ⟨collapseSpace false a, by simp [collapseSpace, hnl]⟩
      | true =>
          obtain ⟨q, hq⟩ := collapseSpace_trailing hrun
          exact ⟨q, by simp [collapseSpace, hnl, hq]⟩
    obtain ⟨q, hq⟩ := hspace
    rcases collapseSpace_behind_space x with ⟨rest, hfalse, htrue⟩ | hsame
    · refine ⟨q, by rw [hq, hfalse, htrue], fun d _ => .inr ⟨ofChar ' ', ?_, rfl⟩⟩
      rw [hfalse]
      rfl
    · refine ⟨q ++ [ofChar ' '], by rw [hq, hsame]; simp, fun d hd => .inl ?_⟩
      simp only [List.getLast?_concat, Option.mem_some_iff] at hd
      rw [← hd]
      rfl
  · -- a quote: it stays, and no white space reaches across it
    have hquote : isSpace (ofChar '"') = false := rfl
    refine ⟨collapseSpace false a ++ [ofChar '"'], by simp [collapseSpace, hquote],
      fun d hd => .inl ?_⟩
    simp only [List.getLast?_concat, Option.mem_some_iff] at hd
    rw [← hd]
    rfl

/-- Behind a text before an edge, the rest normalises to a text that starts
with an edge, or the text itself ends in one. -/
theorem normal_before {e : CodePoint} (he : edge e = true) (x b : Str) :
    ∃ q, collapseSpace false (x ++ e :: b) = collapseSpace false x ++ q ∧
      ∀ d ∈ q.head?, edgeNormal d = true ∨
        ∃ s, (collapseSpace false x).getLast? = some s ∧ edgeNormal s = true := by
  refine ⟨_, collapseSpace_append false x (e :: b), fun d hd => ?_⟩
  rcases edge_cases he with rfl | rfl
  · have hnl : isSpace (ofChar '\n') = true := rfl
    cases hrun : runAfter false x with
    | false =>
        rw [hrun] at hd
        simp only [collapseSpace, hnl, if_true, Bool.false_eq_true, if_false, List.head?_cons,
          Option.mem_some_iff] at hd
        exact .inl (hd ▸ rfl)
    | true =>
        obtain ⟨q, hq⟩ := collapseSpace_trailing hrun
        refine .inr ⟨ofChar ' ', ?_, rfl⟩
        rw [hq]
        exact List.getLast?_concat
  · have hquote : isSpace (ofChar '"') = false := rfl
    simp only [collapseSpace, hquote, Bool.false_eq_true, if_false, List.head?_cons,
      Option.mem_some_iff] at hd
    exact .inl (hd ▸ rfl)

/-- `t` stands in `text` between edges, or at its ends. -/
def Framed (t text : Str) : Prop :=
  ∃ pre post, text = pre ++ t ++ post ∧
    (pre = [] ∨ ∃ a e, edge e = true ∧ pre = a ++ [e]) ∧
    (post = [] ∨ ∃ e b, edge e = true ∧ post = e :: b)

/-- **Normalising keeps a framed text together**, with separators at its
seams. -/
theorem Framed.normalize {u : Unicode} (hinert : InertEdges u) {t text : Str} (h : Framed t text)
    (hne : normalizeText u t ≠ []) :
    ∃ p q, normalizeText u text = p ++ normalizeText u t ++ q ∧
      Pattern.Seamed edgeNormal p (normalizeText u t) q := by
  obtain ⟨pre, post, rfl, hpre, hpost⟩ := h
  -- what stands behind the text
  obtain ⟨y, hy, hright⟩ : ∃ y, kept u (t ++ post) = y ∧ ∃ q, collapseSpace false y =
      collapseSpace false (kept u t) ++ q ∧ ∀ d ∈ q.head?, edgeNormal d = true ∨
        ∃ s, (collapseSpace false (kept u t)).getLast? = some s ∧ edgeNormal s = true := by
    refine ⟨_, rfl, ?_⟩
    rcases hpost with rfl | ⟨e, b, he, rfl⟩
    · exact ⟨[], by simp, by simp⟩
    · rw [kept_split hinert he]
      exact normal_before he (kept u t) (kept u b)
  obtain ⟨q, hq, hq'⟩ := hright
  have hne' : collapseSpace false (kept u t) ≠ [] := hne
  -- what stands before it
  obtain ⟨p, hp, hp'⟩ : ∃ p, collapseSpace false (kept u (pre ++ (t ++ post))) =
      p ++ collapseSpace false y ∧ ∀ d ∈ p.getLast?, edgeNormal d = true ∨
        ∃ s, (collapseSpace false y).head? = some s ∧ edgeNormal s = true := by
    rcases hpre with rfl | ⟨a, e, he, rfl⟩
    · exact ⟨[], by simp [hy], by simp⟩
    · rw [List.append_assoc, List.singleton_append, kept_split hinert he, hy]
      exact normal_behind he (kept u a) y
  refine ⟨p, q, ?_, fun d hd => ?_, hq'⟩
  · show collapseSpace false (kept u (pre ++ t ++ post)) = _
    rw [List.append_assoc, hp, hq, ← List.append_assoc]
    rfl
  · have hhead : (collapseSpace false y).head? = (collapseSpace false (kept u t)).head? := by
      rw [hq]
      obtain ⟨c, rest, hc⟩ := List.exists_cons_of_ne_nil hne'
      rw [hc]
      rfl
    rw [hhead] at hp'
    exact hp' d hd

/-! ## The rules -/

section Rules

open Pattern

variable {u : Unicode}

theorem isWord_edgeNormal {s : CodePoint} (h : edgeNormal s = true) : u.isWord s = false := by
  have hascii : s.val < 0x80 := by
    rcases edgeNormal_cases h with rfl | rfl
    · decide
    · decide
  rw [Unicode.isWord, u.isAlnum_ascii s hascii]
  rcases edgeNormal_cases h with rfl | rfl
  · rfl
  · rfl

/-- A character of a literal is no separator, whatever its case. -/
theorem lit_edgeNormal {s : String} (h : (str s).all (fun c => !edgeNormal (foldCase c)) = true) :
    ∀ c ∈ str s, ∀ d, edgeNormal d = true → (foldCase d == foldCase c) = false := by
  intro c hc d hd
  have hc' : edgeNormal (foldCase c) = false := by
    simpa using List.all_eq_true.mp h c hc
  -- a separator is its own case folding
  have hfold : foldCase d = d := by
    rcases edgeNormal_cases hd with rfl | rfl
    · rfl
    · rfl
  rw [beq_eq_false_iff_ne, hfold]
  intro heq
  rw [← heq, hd] at hc'
  cases hc'

theorem splices_plain {r : Pattern} (h : plain r = true) : Splices u edgeNormal r :=
  .of_plain (fun _ => isWord_edgeNormal) h

/-- The one rule that looks around: before a dot file it wants no word
character, behind it no word character or dash. -/
theorem splices_sensitivePath : Splices u edgeNormal (sensitivePathPattern u) := by
  have hdash : ∀ s, edgeNormal s = true → (u.isWord s || oneOf "-" s) = false := by
    intro s hs
    rw [isWord_edgeNormal hs]
    rcases edgeNormal_cases hs with rfl | rfl
    · rfl
    · rfl
  have henv : Leads u edgeNormal (lit ".env") ∧ Closes u edgeNormal (lit ".env") :=
    leads_closes_lit (lit_edgeNormal rfl) (by simp [str])
  have hdot : Closes u edgeNormal (lit ".") :=
    (leads_closes_lit (lit_edgeNormal rfl) (by simp [str])).2
  have hfiles : ∀ r ∈ [".ssh", ".aws", ".gnupg", ".kube", ".netrc", ".npmrc", ".pypirc",
      ".git-credentials"].map lit, Leads u edgeNormal r ∧ Closes u edgeNormal r := by
    intro r hr
    obtain ⟨s, hs, rfl⟩ := List.mem_map.mp hr
    have hall : [".ssh", ".aws", ".gnupg", ".kube", ".netrc", ".npmrc", ".pypirc",
        ".git-credentials"].all (fun s => (str s).all (fun c => !edgeNormal (foldCase c)) &&
          !(str s).isEmpty) = true := rfl
    obtain ⟨hchars, hne⟩ := (Bool.and_eq_true _ _).mp (List.all_eq_true.mp hall s hs)
    exact leads_closes_lit (lit_edgeNormal hchars) (by simpa using hne)
  have hfile : Splices u edgeNormal (.seq (.notBehind u.isWord)
      (.seq (alts (.seq (lit ".env") (opt (.seq (lit ".")
        (plus (.set fun c => u.isWord c || oneOf "-" c)))) ::
          [".ssh", ".aws", ".gnupg", ".kube", ".netrc", ".npmrc", ".pypirc",
            ".git-credentials"].map lit))
        (.notAhead (.set fun c => u.isWord c || oneOf "-" c)))) := by
    refine .behind (fun _ => isWord_edgeNormal) (.seq (.alts ?_))
      (.ahead (splices_plain rfl) (.alts ?_) hdash)
    · exact List.forall_mem_cons.mpr ⟨.seq henv.1, fun r hr => (hfiles r hr).1⟩
    · refine List.forall_mem_cons.mpr ⟨.seq_rep henv.2 ?_ 0 (some 1), fun r hr => (hfiles r hr).2⟩
      exact .seq_rep hdot (.set hdash) 1 none
  have hkey : Splices u edgeNormal (.seq .boundary (.notAhead (lit ".pub"))) :=
    .ahead (splices_plain rfl) (.boundary fun _ => isWord_edgeNormal) (.lit (lit_edgeNormal rfl))
  refine .alts ?_
  simp only [List.forall_mem_cons, List.not_mem_nil, false_implies, implies_true, and_true]
  exact ⟨hfile, .seq (splices_plain rfl) (.seq (splices_plain rfl) (.seq (splices_plain rfl) hkey)),
    splices_plain rfl, splices_plain rfl, splices_plain rfl, splices_plain rfl⟩

/-- Every rule survives between line breaks and quotes. -/
theorem splices_rules {r : Rule} (h : r ∈ rules u) : Splices u edgeNormal r.pattern := by
  have hplain : ((rules u).all fun r => plain r.pattern || r.name = .sensitivePath) = true := rfl
  rcases (Bool.or_eq_true _ _).mp (List.all_eq_true.mp hplain r h) with hr | hr
  · exact splices_plain hr
  · have honly : ∀ r ∈ rules u, r.name = .sensitivePath → r.pattern = sensitivePathPattern u := by
      simp [rules]
    rw [honly r h (of_decide_eq_true hr)]
    exact splices_sensitivePath

/-- No rule finds anything in the empty text. -/
theorem search_nil {r : Rule} (h : r ∈ rules u) : r.pattern.search u [] = false := by
  have hall : ((rules u).all fun r => !r.pattern.search u []) = true := rfl
  simpa using List.all_eq_true.mp hall r h

/-- **A framed text keeps its findings**, in every direction. -/
theorem Framed.scanText (hinert : InertEdges u) {t text : Str} (h : Framed t text)
    {direction : Direction} {hit : Hit} (hhit : hit ∈ AgenticFirewall.scanText u direction t) :
    hit ∈ AgenticFirewall.scanText u direction text := by
  unfold AgenticFirewall.scanText at hhit ⊢
  simp only [List.mem_append, List.mem_map, List.mem_filter, decide_eq_true_eq] at hhit ⊢
  rcases hhit with hflag | ⟨r, ⟨hr, hdir, hfound⟩, rfl⟩
  · -- a hidden character of the text is one of the whole
    obtain ⟨pre, post, rfl, -, -⟩ := h
    split at hflag
    · rename_i hany
      have hany' : (pre ++ t ++ post).any flagged = true := by simp [hany]
      rw [if_pos hany']
      exact .inl hflag
    · cases hflag
  · refine .inr ⟨r, ⟨hr, hdir, ?_⟩, rfl⟩
    have hne : normalizeText u t ≠ [] := by
      intro hnil
      rw [hnil, search_nil hr] at hfound
      cases hfound
    obtain ⟨p, q, heq, hseam⟩ := h.normalize hinert hne
    rw [heq]
    exact (splices_rules hr).search hseam hfound

end Rules

/-! ## Upstream results -/

/-- The texts of the server that a result shows: those of its blocks, or of
a result without blocks the keys and strings of the structured content, as
far as they print as themselves. -/
def SdkResult.shown (result : SdkResult) : List Str :=
  match result.content with
  | none => []
  | some content =>
      match content.getD [] with
      | [] =>
          match structured result with
          | none => []
          | some v => v.texts.filter fun s => s.all printsAsIs
      | blocks => blocks.filterMap Block.serverText

theorem framed_join {t : Str} {parts : List Str} (h : t ∈ parts) :
    Framed t (join (str "\n") parts) := by
  obtain ⟨pre, post, heq, hpre, hpost⟩ := @mem_join (str "\n") t parts h
  refine ⟨pre, post, heq, ?_, ?_⟩
  · rcases hpre with rfl | ⟨a, rfl⟩
    · exact .inl rfl
    · exact .inr ⟨a, ofChar '\n', rfl, rfl⟩
  · rcases hpost with rfl | ⟨b, rfl⟩
    · exact .inl rfl
    · exact .inr ⟨ofChar '\n', b, rfl, rfl⟩

theorem framed_structured {v : Value} {t : Str} (h : t ∈ v.texts)
    (hprints : ∀ c ∈ t, printsAsIs c = true) : Framed t (dumpsPlain v) := by
  obtain ⟨pre, post, heq⟩ := quoted_mem_texts t h
  rw [quotePlain_eq hprints] at heq
  refine ⟨pre ++ str "\"", str "\"" ++ post, by simp [heq], .inr ⟨pre, ofChar '"', rfl, rfl⟩,
    .inr ⟨ofChar '"', post, rfl, rfl⟩⟩

/-- Every text that is shown stands framed in the response. -/
theorem framed_shown {result : SdkResult} {response : ToolResponse}
    (h : resultToResponse result = .ok response) {t : Str} (ht : t ∈ result.shown) :
    Framed t response.text := by
  unfold resultToResponse at h
  unfold SdkResult.shown at ht
  cases hcontent : result.content with
  | none =>
      rw [hcontent] at ht
      cases ht
  | some content =>
      rw [hcontent] at h ht
      obtain ⟨parts, hparts, h⟩ := except_bind_eq_ok.mp h
      have heach := blockParts_eq_ok hparts
      simp only at ht
      cases hblocks : content.getD [] with
      | nil =>
          rw [hblocks] at ht heach
          obtain rfl := List.forall₂_nil_left_iff.mp heach
          cases hv : structured result with
          | none =>
              rw [hv] at ht
              cases ht
          | some v =>
              rw [hv] at h ht
              cases h
              obtain ⟨hmem, hall⟩ := List.mem_filter.mp ht
              exact framed_structured hmem (List.all_eq_true.mp hall)
      | cons block rest =>
          rw [hblocks] at ht heach
          obtain ⟨b, hb, htext⟩ := List.mem_filterMap.mp ht
          obtain ⟨part, hpart, hb'⟩ := exists_of_forall₂ heach hb
          obtain rfl : t = part := by
            rw [blockPart_serverText htext] at hb'
            exact Except.ok.inj hb'
          cases heach with
          | cons hfirst hrest =>
              cases h
              exact framed_join hpart

/-- What the scanner blocks alone, it blocks inside a longer text. -/
theorem Framed.blocked {cfg : Config} (hinert : InertEdges cfg.unicode) {t : Str}
    {response : ToolResponse} (h : Framed t response.text)
    (hb : (Firewall.scanOutput cfg { text := t }).blocked = true) :
    (Firewall.scanOutput cfg response).blocked = true := by
  have htexts : ∀ s : Str, (Value.str s).texts = [s] := fun s => by simp [Value.texts]
  have hheight : ∀ s : Str, (Value.str s).height = 0 := fun s => by simp [Value.height]
  unfold Firewall.scanOutput at hb ⊢
  rw [Scanner.scanValue_blocked_iff, htexts, hheight] at hb ⊢
  rcases hb with ⟨s, hs, hhits⟩ | hcost | hdeep
  · obtain rfl := List.mem_singleton.mp hs
    obtain ⟨hit, hhit⟩ := List.exists_mem_of_ne_nil _ hhits
    exact .inl ⟨response.text, List.mem_singleton_self _,
      List.ne_nil_of_mem (h.scanText hinert hhit)⟩
  · obtain ⟨pre, post, heq, -, -⟩ := h
    refine .inr (.inl ?_)
    simp only [Scanner.cost, List.map_cons, List.map_nil, List.sum_cons, List.sum_nil, heq,
      List.length_append] at hcost ⊢
    omega
  · exact .inr (.inr hdeep)

/-- **Flattening hides nothing.** In every run, what an allowed request
answers is the response of an upstream call; and if that response was made
from an SDK result, each text of the server it shows passes the output scan
alone too: no text can be hidden among others. -/
theorem System.flattening_hides_nothing {cfg : Config} (hinert : InertEdges cfg.unicode)
    {s s' : System} {as : List Act} {o : List Event} {r : Nat} {result : GatewayResult}
    (h : (System.machine cfg).run s as = some (s', o)) (he : .returned r result ∈ o)
    (hallow : result.decision = .allow) :
    ∃ env resp, .handleReply r env (.response resp) ∈ as ∧ result.response = some resp ∧
      ∀ sdk, resultToResponse sdk = .ok resp → ∀ t ∈ sdk.shown,
        (Firewall.scanOutput cfg { text := t }).findings = [] := by
  obtain ⟨env, resp, hmem, hresp, hclean⟩ := System.run_allow_scanned h he hallow
  refine ⟨env, resp, hmem, hresp, fun sdk hsdk t ht => ?_⟩
  by_contra hfound
  have hb : (Firewall.scanOutput cfg { text := t }).blocked = true := by
    simpa [ScanResult.blocked] using hfound
  rw [(framed_shown hsdk ht).blocked hinert hb] at hclean
  cases hclean

theorem inertEdges_ascii : InertEdges Unicode.ascii := fun _ _ _ _ => rfl

/-- A result of two text blocks. -/
def twoBlocks : SdkResult where
  content := some (some [{ type := some (str "text"), text := some (str "hi") },
    { type := some (str "text"), text := some (str "ok") }])

/-- The event is an `ALLOW` of request `id`. -/
def Event.allows (id : Nat) : Event → Bool
  | .returned r result => r == id && result.decision == .allow
  | _ => false

theorem flattening_hides_nothing_echo : ∃ s o result,
    resultToResponse twoBlocks = .ok { text := str "hi\nok" } ∧
      echoReplied (.response { text := str "hi\nok" }) = some (s, o) ∧ .returned 2 result ∈ o ∧
      ∃ env resp, .handleReply 2 env (.response resp) ∈
          echoCall ++ [.handleReply 2 {} (.response { text := str "hi\nok" })] ∧
        result.response = some resp ∧ ∀ sdk, resultToResponse sdk = .ok resp → ∀ t ∈ sdk.shown,
          (Firewall.scanOutput echoConfig { text := t }).findings = [] := by
  have hrun : (echoReplied (.response { text := str "hi\nok" })).any
      (fun p => p.2.any (Event.allows 2)) = true := by
    decide +kernel
  obtain ⟨⟨s, o⟩, hrun, hany⟩ := (Option.any_eq_true _ _).mp hrun
  obtain ⟨e, he, hallows⟩ := List.any_eq_true.mp hany
  cases e with
  | returned r result =>
      simp only [Event.allows, Bool.and_eq_true, beq_iff_eq] at hallows
      obtain ⟨rfl, hallow⟩ := hallows
      exact ⟨s, o, result, rfl, hrun, he,
        System.flattening_hides_nothing inertEdges_ascii hrun he hallow⟩
  | _ => cases hallows

end AgenticFirewall
