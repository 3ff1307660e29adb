import AgenticFirewall.Firewall.Segments
import AgenticFirewall.Mcp.Stdio
import AgenticFirewall.Properties.Mediation

/-!
# The listing of a server that pages

Whatever the server answers, the firewall sees the tools of the pages it
was served, in order, at most one hundred of them; a server that holds one
list and cuts it into pages is seen as if it had not.
-/

namespace AgenticFirewall

open Py

namespace StdioMCPUpstream

variable {σ : Type} {session : Session σ} {s s' : σ}

/-- A page with its tools converted, and the next cursor. -/
def fetch (session : Session σ) : Paging.Server σ Str ToolDefinition Exc := fun cursor s =>
  match listPage session cursor s with
  | (.error e, s) => (.error e, s)
  | (.ok page, s) => ((convert page.tools).map fun defns => (defns, page.next), s)

/-- The loop reads page by page. -/
theorem listLoop_eq_collect (n : Nat) (cursor : Option Str) (tools : List ToolDefinition) (s : σ) :
    listLoop session n cursor tools s = Paging.collect (fetch session) n cursor tools s := by
  induction n generalizing cursor tools s with
  | zero => rfl
  | succ n ih =>
      simp only [listLoop, Paging.collect, fetch]
      cases hpage : listPage session cursor s with
      | mk r s₁ =>
          cases r with
          | error e => rfl
          | ok page =>
              simp only
              cases hconvert : convert page.tools with
              | error e => rfl
              | ok defns =>
                  simp only [Except.map]
                  cases hnext : page.next with
                  | none => rfl
                  | some c => exact ih (some c) (tools ++ defns) s₁

/-- Each tool of the pages is converted. -/
theorem convert_ok_iff {dumps : List Obj} {defns : List ToolDefinition} :
    convert dumps = .ok defns ↔
      List.Forall₂ (fun dump defn => toolToDefinition dump = .ok defn) dumps defns := by
  induction dumps generalizing defns with
  | nil =>
      constructor
      · intro h
        cases h
        exact .nil
      · intro h
        cases h
        rfl
  | cons dump rest ih =>
      simp only [convert, except_bind_eq_ok]
      constructor
      · rintro ⟨defn, hdefn, defns', hrest, h⟩
        cases h
        exact .cons hdefn (ih.mp hrest)
      · intro h
        cases h with
        | cons hdefn hrest => exact ⟨_, hdefn, _, ih.mpr hrest, rfl⟩

/-- The first page costs one call of the SDK, each other page two at most. -/
theorem fetch_cost {cost : σ → Nat}
    (h : ∀ call s, cost (session.listTools call s).2 ≤ cost s + 1) (cursor : Option Str) (s : σ) :
    cost (fetch session cursor s).2 ≤ cost s + if cursor.isSome then 2 else 1 := by
  have hunhandled : ∀ r : ListReply × σ, (unhandled r).2 = r.2 := by
    rintro ⟨r, s⟩
    cases r <;> rfl
  have hsame : (fetch session cursor s).2 = (listPage session cursor s).2 := by
    unfold fetch
    cases listPage session cursor s with
    | mk r s₁ => cases r <;> rfl
  rw [hsame]
  unfold listPage
  cases cursor with
  | none =>
      simp only [hunhandled]
      exact h .first s
  | some c =>
      have hone := h (.params c) s
      simp only [Option.isSome_some, if_true]
      split
      · rename_i s₁ heq
        rw [heq] at hone
        simp only at hone
        rw [hunhandled]
        have htwo := h (.cursor c) s₁
        omega
      · rw [hunhandled]
        omega

/-- The pages the session serves one after the other, their tools
converted. -/
abbrev Served (session : Session σ) (s : σ) (pages : List (List ToolDefinition))
    (next : Option Str) (s' : σ) : Prop :=
  Paging.Served (fetch session) none s pages next s'

/-- **The listing is what was served.** Whatever the server answers, and
however it changes with each request: `list_tools` returns the tools of the
pages it was served, in order, up to the page without a cursor or the
hundredth; it makes at most 199 requests; and a call is issued on such a
listing only if the tool is declared once on all those pages and matches its
pin. -/
theorem listing_exact (session : Session σ) (s : σ) :
    (∀ tools s', listTools session s = (.ok tools, s') ↔
      ∃ pages next, Served session s pages next s' ∧ tools = pages.flatten ∧
        (next = none ∧ pages.length ≤ 100 ∨ pages.length = 100)) ∧
    (∀ cost : σ → Nat, (∀ call s, cost (session.listTools call s).2 ≤ cost s + 1) →
      cost (listTools session s).2 ≤ cost s + 199) ∧
    ∀ cfg env req ctx fw, (Firewall.pipelineTools cfg env req ctx
        (toolsReply (listTools session s).1) fw).1 = .ok none →
      ∃ pages next s' defn, Served session s pages next s' ∧ pages.length ≤ 100 ∧
        pages.flatten.filter (fun t => t.name = req.tool) = [defn] ∧
        fw.db.pinned req.tool = some (fingerprint cfg.sha256 defn) := by
  have hcollect : listTools session s =
      Paging.collect (fetch session) (99 + 1) none [] s := listLoop_eq_collect 100 none [] s
  have hexact : ∀ tools s', listTools session s = (.ok tools, s') ↔
      ∃ pages next, Served session s pages next s' ∧ tools = pages.flatten ∧
        (next = none ∧ pages.length ≤ 100 ∨ pages.length = 100) := by
    intro tools s'
    rw [hcollect, Paging.collect_ok_iff]
    simp
  refine ⟨hexact, ?_, ?_⟩
  · intro cost hcost
    rw [hcollect]
    show cost (Paging.collect (fetch session) (99 + 1) none [] s).2 ≤ cost s + (1 + 2 * 99)
    refine Paging.collect_cost_first ?_ fun cursor s => ?_
    · exact fetch_cost hcost none s
    · refine (fetch_cost hcost cursor s).trans ?_
      split <;> omega
  · intro cfg env req ctx fw hissued
    obtain ⟨tools, hreply, hfwd⟩ := Firewall.forwarded_of_tools cfg env req fw
      (Prod.ext hissued rfl)
    cases hlist : listTools session s with
    | mk r s' =>
        rw [hlist] at hreply
        cases r with
        | error e => cases hreply
        | ok tools' =>
            cases hreply
            obtain ⟨pages, next, hserved, rfl, hlen⟩ := (hexact tools s').mp hlist
            obtain ⟨defn, hunique, hpinned⟩ := hfwd.defn
            exact ⟨pages, next, s', defn, hserved, by omega, hunique, hpinned⟩

def echoDump : Obj where
  items := [(str "name", .str (str "echo")), (str "description", .str (str "Echo.")),
    (str "inputSchema", echo.inputSchema.toValue)]
  nodup := by decide

/-- A server with one tool on one page, which counts its requests. -/
def echoSession : Session Nat where
  listTools _ n := (.page { tools := [echoDump] }, n + 1)
  callTool _ _ n := (none, n)

theorem listing_exact_echo : (listTools echoSession 0).2 ≤ 0 + 199 ∧
    (∃ pages next, Served echoSession 0 pages next 1 ∧ [echo] = pages.flatten ∧
      (next = none ∧ pages.length ≤ 100 ∨ pages.length = 100)) ∧
    ∃ fw req ctx, (Firewall.pipelineTools echoConfig {} req ctx
        (toolsReply (listTools echoSession 0).1) fw).1 = .ok none ∧
      ∃ pages next s' defn, Served echoSession 0 pages next s' ∧ pages.length ≤ 100 ∧
        pages.flatten.filter (fun t => t.name = req.tool) = [defn] ∧
        fw.db.pinned req.tool = some (fingerprint echoConfig.sha256 defn) := by
  have hlist : listTools echoSession 0 = (.ok [echo], 1) := rfl
  obtain ⟨hexact, hcost, hissued⟩ := listing_exact echoSession 0
  refine ⟨hcost (fun n => n) fun _ s => Nat.le_refl (s + 1), (hexact _ _).mp hlist, ?_⟩
  obtain ⟨s, o, req, ctx, hrun, htask⟩ := echoCall_awaits
  have hsplit : echoCall =
      (echoSetup ++ [.handle {} echoRequest]) ++ [.handleTools 2 {} (.listing [echo])] := by
    simp [echoCall]
  rw [hsplit] at hrun
  obtain ⟨s₁, o₁, o₂, -, hstep, -⟩ := ((System.machine echoConfig).run_concat_eq_some).mp hrun
  obtain ⟨fw, req, ctx, hawaits⟩ : ∃ fw req ctx, (Firewall.pipelineTools echoConfig {} req ctx
      (.listing [echo]) fw).1 = .ok none := by
    simp only [System.machine, System.step] at hstep
    split at hstep
    · rename_i req' ctx' hrun'
      split at hstep
      · rename_i hended
        exact ⟨s₁.fw, req', ctx', System.ended_eq_none hended⟩
      · cases hstep
        rw [List.getElem?_set_self (List.getElem?_eq_some_iff.mp hrun').1] at htask
        cases htask
    · cases hstep
  have hawaits' : (Firewall.pipelineTools echoConfig {} req ctx
      (toolsReply (listTools echoSession 0).1) fw).1 = .ok none := by
    rw [hlist]
    exact hawaits
  exact ⟨fw, req, ctx, hawaits', hissued _ _ _ _ _ hawaits'⟩

/-! ## A server that holds one list -/

/-- The session serves the pages, in either spelling of the cursor, and
takes it as `params` or only as `cursor`. -/
structure Serves (session : Session σ) (s : σ) (p : Paging.Pages Str Obj) : Prop where
  first : ∃ page, session.listTools .first s = (.page page, s) ∧ page.tools = p.first ∧
    page.next = p.rest.head?.map Prod.fst
  rest : ∀ pre c dumps post, p.rest = pre ++ (c, dumps) :: post → ∃ page,
    (session.listTools (.params c) s = (.page page, s) ∨
      session.listTools (.params c) s = (.typeError, s) ∧
        session.listTools (.cursor c) s = (.page page, s)) ∧
    page.tools = dumps ∧ page.next = post.head?.map Prod.fst

theorem convert_map {conv : Obj → ToolDefinition} {dumps : List Obj}
    (h : ∀ dump ∈ dumps, toolToDefinition dump = .ok (conv dump)) :
    convert dumps = .ok (dumps.map conv) := by
  refine convert_ok_iff.mpr ?_
  induction dumps with
  | nil => exact .nil
  | cons dump rest ih =>
      exact .cons (h dump List.mem_cons_self) (ih fun d hd => h d (List.mem_cons_of_mem dump hd))

/-- The pages with their tools converted are served by `fetch`. -/
theorem Serves.fetch {p : Paging.Pages Str Obj} (h : Serves session s p)
    {conv : Obj → ToolDefinition} (hconv : ∀ dump ∈ p.all, toolToDefinition dump = .ok (conv dump)) :
    (p.map conv).ServedBy (StdioMCPUpstream.fetch session) s := by
  have hhead : ∀ l : List (Str × List Obj),
      (l.map fun q => (q.1, q.2.map conv)).head?.map Prod.fst = l.head?.map Prod.fst := by
    intro l
    cases l <;> rfl
  constructor
  · obtain ⟨page, hpage, htools, hnext⟩ := h.first
    have hdefns : convert page.tools = .ok (p.first.map conv) := by
      rw [htools]
      exact convert_map fun dump hdump => hconv dump (List.mem_append_left _ hdump)
    simp only [StdioMCPUpstream.fetch, listPage, unhandled, hpage, hdefns, Except.map, hnext,
      Paging.Pages.map, hhead]
  · intro pre c defns post heq
    obtain ⟨pre', q, post', hrest, rfl, hq, rfl⟩ : ∃ pre' q post', p.rest = pre' ++ q :: post' ∧
        pre = pre'.map (fun q => (q.1, q.2.map conv)) ∧ (q.1, q.2.map conv) = (c, defns) ∧
        post = post'.map fun q => (q.1, q.2.map conv) := by
      obtain ⟨l₁, l₂, hl, h₁, h₂⟩ := List.map_eq_append_iff.mp heq
      obtain ⟨q, l₃, rfl, hq, h₃⟩ := List.map_eq_cons_iff.mp h₂
      exact ⟨l₁, q, l₃, hl, h₁.symm, hq, h₃.symm⟩
    obtain ⟨rfl, rfl⟩ := Prod.mk.inj hq
    obtain ⟨page, hpage, htools, hnext⟩ := h.rest pre' q.1 q.2 post' hrest
    have hdefns : convert page.tools = .ok (q.2.map conv) := by
      rw [htools]
      refine convert_map fun dump hdump => hconv dump (List.mem_append_right _ ?_)
      rw [hrest]
      exact List.mem_flatMap.mpr ⟨q, by simp, hdump⟩
    have hlist : listPage session (some q.1) s = (.ok page, s) := by
      rcases hpage with hpage | ⟨hparams, hpage⟩
      · simp [listPage, unhandled, hpage]
      · simp [listPage, unhandled, hparams, hpage]
    simp only [StdioMCPUpstream.fetch, hlist, hdefns, Except.map, hnext, hhead]

/-- **Paging is invisible.** A server that holds one list of tools is seen
as that list, however it cuts it into at most a hundred pages, whichever
spelling of the cursor it uses and whichever way the SDK takes it; of a
longer one the tools of the first hundred pages are seen. -/
theorem paging_invisible {p : Paging.Pages Str Obj} (h : Serves session s p)
    {conv : Obj → ToolDefinition}
    (hconv : ∀ dump ∈ p.all, toolToDefinition dump = .ok (conv dump)) :
    listTools session s = (.ok ((p.upTo 100).all.map conv), s) ∧
      (p.length ≤ 100 → listTools session s = (.ok (p.all.map conv), s)) := by
  have hcollect : listTools session s =
      Paging.collect (StdioMCPUpstream.fetch session) (99 + 1) none [] s :=
    listLoop_eq_collect 100 none [] s
  have hlist : listTools session s = (.ok ((p.upTo 100).all.map conv), s) := by
    rw [hcollect, Paging.collect_pages (h.fetch hconv), Paging.Pages.upTo_map,
      Paging.Pages.all_map]
  refine ⟨hlist, fun hle => ?_⟩
  rw [hlist, Paging.Pages.upTo_of_le hle]

/-- A server with two tools on two pages, behind an SDK that takes no
`params`. -/
def pagedSession : Session Unit where
  listTools call _ :=
    match call with
    | .first => (.page { tools := [echoDump], next_cursor := some (some (str "2")) }, ())
    | .params _ => (.typeError, ())
    | .cursor _ => (.page { tools := [⟨[(str "name", .str (str "ping"))], by simp⟩] }, ())
  callTool _ _ _ := (none, ())

/-- What it holds. -/
def heldTools : Paging.Pages Str Obj where
  first := [echoDump]
  rest := [(str "2", [⟨[(str "name", .str (str "ping"))], by simp⟩])]

theorem paging_invisible_two :
    listTools pagedSession () = (.ok [echo, { name := str "ping" }], ()) := by
  have hserves : Serves pagedSession () heldTools := by
    refine ⟨⟨_, rfl, rfl, rfl⟩, ?_⟩
    intro pre c dumps post heq
    cases pre with
    | nil =>
        obtain ⟨hpage, rfl⟩ := List.cons.inj heq
        obtain ⟨rfl, rfl⟩ := Prod.mk.inj hpage
        exact ⟨_, .inr ⟨rfl, rfl⟩, rfl, rfl⟩
    | cons q pre =>
        obtain ⟨-, hnil⟩ := List.cons.inj heq
        simp at hnil
  let conv : Obj → ToolDefinition := fun dump =>
    match toolToDefinition dump with
    | .ok defn => defn
    | .error _ => { name := [] }
  have hconv : ∀ dump ∈ heldTools.all, toolToDefinition dump = .ok (conv dump) := by
    intro dump hdump
    simp only [heldTools, Paging.Pages.all, List.flatMap_cons, List.flatMap_nil, List.append_nil,
      List.cons_append, List.nil_append, List.mem_cons, List.not_mem_nil, or_false] at hdump
    rcases hdump with rfl | rfl
    · rfl
    · rfl
  have hlist := (paging_invisible hserves hconv).2 (by decide)
  rw [hlist]
  rfl

end StdioMCPUpstream

end AgenticFirewall
