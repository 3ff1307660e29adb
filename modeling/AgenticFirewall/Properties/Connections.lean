import AgenticFirewall.Handlers
import AgenticFirewall.Properties.Mediation

/-!
# The life of one connection

A request is answered once, by the gateway call it made, or is dropped with
it; until then that call is running. Nothing is lost when handlers take
turns.
-/

namespace AgenticFirewall

open Py Transition

namespace Http

variable {app : App} {s s' : Server} {a : Action} {o : List Output} {req : Request}
  {events : List Event} {env env' : Env} {token : Str} {conn task : Nat}

/-! ## Connections that wait -/

/-- The running call a request waits for is its own. -/
inductive Awaits : Request → Task → Prop where
  | handleTools {body : RequestBody} {x : Option Str} {ctx : Ctx} :
      Awaits (.toolRequest body x) (.handleTools
        { sessionId := sessionId x, tool := body.tool, arguments := body.arguments } ctx)
  | handleCall {body : RequestBody} {x : Option Str} {ctx : Ctx} :
      Awaits (.toolRequest body x) (.handleCall
        { sessionId := sessionId x, tool := body.tool, arguments := body.arguments } ctx)
  | approveTools {body : ApproveBody} {x : Option Str} {session : UserSession} :
      Awaits (.approveTools body x) (.approveTools session body.tools)
  | listTools {x : Option Str} {session : UserSession} {manager : Bool} :
      Awaits (.listTools x) (.listTools session manager)

section Waiting

variable {cfg : Config} {sys sys' : System} {act : Act} {e : Event} {t : Task} {fw : Firewall}

/-- A handler that has heard the end of its call does not wait. -/
theorem verdict_ne_awaits (hlast : events.getLast? = some e) (hfinal : e.final = true)
    (hhears : req.hears e = true) (hnext : req.next env e = none) :
    req.verdict cfg fw token events ≠ .awaits := by
  unfold Request.verdict
  rw [hlast]
  cases e with
  | session id session =>
      cases req with
      | createSession body client => exact nofun
      | approveTools body x => cases hnext
      | getPolicies x => exact nofun
      | getLogs limit x =>
          simp only
          split <;> exact nofun
      | _ => cases hhears
  | issued id name args => cases hfinal
  | audit id stored => cases hfinal
  | _ => exact nofun

theorem call_opens (h : req.call env token = some act) : act.opens = true := by
  cases req <;> cases h <;> rfl

theorem next_opens (h : req.next env e = some act) : act.opens = true := by
  cases req with
  | approveTools body x =>
      cases e with
      | session id session =>
          cases h
          rfl
      | _ => cases h
  | _ => cases h

/-- A request that is not done with its first call waits for it. -/
theorem started_awaits {sys : System} (h : req.call env token = some act)
    (ht : System.Started cfg sys.fw act t) : Awaits req t := by
  cases req <;> cases h <;> cases ht
  · exact .listTools
  · exact .handleTools

theorem next_awaits {sys : System} (h : req.next env e = some act)
    (ht : System.Started cfg sys.fw act t) : Awaits req t := by
  cases req with
  | approveTools body x =>
      cases e with
      | session id session =>
          cases h
          cases ht
          exact .approveTools
      | _ => cases h
  | _ => cases h

/-- No further call follows on what the last one says. -/
theorem next_last (h : req.next env e = some act) {e' : Event} (he : act.emits e' = true) :
    req.next env e' = none := by
  cases req with
  | approveTools body x =>
      cases e with
      | session id session =>
          cases h
          cases e' <;> first | rfl | cases he
      | _ => cases h
  | _ => cases h

theorem Resumed.next_last (h : Resumed a conn task req act) (he : act.emits e = true) :
    req.next env e = none := by
  cases h with
  | listed h => cases req <;> cases h <;> cases e <;> first | rfl | cases he
  | replied h =>
      cases req <;> cases h
      rfl
  | cancelled =>
      cases e with
      | cancelled id => cases req <;> rfl
      | _ => cases he

theorem Resumed.target (h : Resumed a conn task req act) :
    act.opens = false ∧ act.target = some task := by
  cases h with
  | listed h => cases req <;> cases h <;> exact ⟨rfl, rfl⟩
  | replied h =>
      cases req <;> cases h
      exact ⟨rfl, rfl⟩
  | cancelled => exact ⟨rfl, rfl⟩

/-- A step that opens a call either ends it at once or leaves it running,
after the calls there were. -/
theorem open_cases (h : System.step cfg sys act = some (sys', events)) (ha : act.opens = true) :
    (∃ e, events.getLast? = some e ∧ e.final = true) ∨
      ∃ t, System.Started cfg sys.fw act t ∧ sys'.tasks = sys.tasks ++ [t] := by
  cases System.step_shape h with
  | opened t ha' ht hnew =>
      rcases hnew with ⟨-, hend⟩ | ⟨hstart, -, -⟩
      · exact .inl hend.last
      · exact .inr ⟨t, hstart, ht⟩
  | moved id t t' ha' hid hrun hleft ht hnew => cases ha.symm.trans ha'
  | outside ha' hid ht hdb ho => cases ha.symm.trans ha'

/-- A request that waits on arrival waits for a new call of its own. -/
theorem Begun.waits (h : Begun cfg env env' token req sys sys' events)
    (hv : req.verdict cfg fw token events = .awaits) :
    ∃ before t, sys'.tasks = before ++ [t] ∧ sys.tasks.length ≤ before.length ∧ Awaits req t := by
  have hhears := h.hears
  cases h with
  | idle hcall =>
      cases req with
      | health => cases hv
      | _ => cases hcall
  | once hcall h hnext =>
      rcases open_cases h (call_opens hcall) with ⟨e, hlast, hfinal⟩ | ⟨t, hstart, ht⟩
      · have hmem := List.mem_of_getLast? hlast
        exact absurd hv (verdict_ne_awaits hlast hfinal (hhears e hmem)
          (List.findSome?_eq_none_iff.mp hnext e hmem))
      · exact ⟨_, t, ht, Nat.le_refl _, started_awaits hcall hstart⟩
  | twice hcall h hnext h' =>
      rename_i act act' s₁ events₁ events₂
      obtain ⟨e₀, -, hnext⟩ := List.exists_of_findSome?_eq_some hnext
      rcases open_cases h' (next_opens hnext) with ⟨e, hlast, hfinal⟩ | ⟨t, hstart, ht⟩
      · have hmem := List.mem_of_getLast? hlast
        have hlast' : (events₁ ++ events₂).getLast? = some e := by simp [hlast]
        exact absurd hv (verdict_ne_awaits hlast' hfinal
          (hhears e (List.mem_append_right _ hmem))
          (next_last hnext (System.step_emits h' hmem)))
      · refine ⟨_, t, ht, ?_, next_awaits hnext hstart⟩
        have hlen := System.step_length h
        omega

/-- The calls there were are not touched on arrival. -/
theorem Begun.frame (h : Begun cfg env env' token req sys sys' events) {r : Nat}
    (hr : r < sys.tasks.length) :
    sys'.tasks[r]? = sys.tasks[r]? ∧ sys.tasks.length ≤ sys'.tasks.length := by
  have hopen : ∀ {act : Act} {s₁ s₂ : System} {events : List Event}, act.opens = true →
      System.step cfg s₁ act = some (s₂, events) → r < s₁.tasks.length →
      s₂.tasks[r]? = s₁.tasks[r]? ∧ s₁.tasks.length ≤ s₂.tasks.length := by
    intro act s₁ s₂ events ha hstep hlt
    have hcall : System.callOf s₁ act ≠ some r := by
      simp only [System.callOf, ha, if_true, ne_eq, Option.some.injEq]
      omega
    have hlen := System.step_length hstep
    exact ⟨(System.step_frame hstep hcall).1, by omega⟩
  cases h with
  | idle hcall => exact ⟨rfl, Nat.le_refl _⟩
  | once hcall h hnext => exact hopen (call_opens hcall) h hr
  | twice hcall h hnext h' =>
      obtain ⟨e₀, -, hnext⟩ := List.exists_of_findSome?_eq_some hnext
      obtain ⟨hsame, hle⟩ := hopen (call_opens hcall) h hr
      obtain ⟨hsame', hle'⟩ := hopen (next_opens hnext) h' (by omega)
      exact ⟨hsame'.trans hsame, by omega⟩

/-- A request that goes on waiting waits for the same call, still running. -/
theorem Resumed.waits (hact : Resumed a conn task req act)
    (hrun : sys.tasks[task]? = some t) (hawaits : Awaits req t)
    (h : System.step cfg sys act = some (sys', events))
    (hv : req.verdict cfg fw token events = .awaits) :
    ∃ t', sys'.tasks[task]? = some t' ∧ Awaits req t' := by
  obtain ⟨hopens, htarget⟩ := hact.target
  cases System.step_shape h with
  | opened t' ha ht hnew => cases hopens.symm.trans ha
  | moved id t₁ t' ha hid hrun₁ hleft ht hnew =>
      obtain rfl : id = task := Option.some.inj (hid.symm.trans htarget)
      obtain rfl : t₁ = t := Option.some.inj (hrun₁.symm.trans hrun)
      rcases hnew with ⟨-, hend⟩ | ⟨env₁, tools, treq, ctx, -, -, rfl, rfl, -⟩
      · obtain ⟨e, hlast, hfinal⟩ := hend.last
        have hemits := System.step_emits h (List.mem_of_getLast? hlast)
        have hnext : req.next {} e = none := hact.next_last hemits
        exact absurd hv (verdict_ne_awaits hlast hfinal (hact.hears hemits) hnext)
      · refine ⟨_, by rw [ht, List.getElem?_set_self (List.getElem?_eq_some_iff.mp hrun).1], ?_⟩
        cases hawaits
        exact .handleCall
  | outside ha hid ht hdb ho => cases hid.symm.trans htarget

end Waiting

/-! ## Runs -/

/-- The request an action brings. -/
def Action.request? : Action → Option Request
  | .arrive req _ _ _ => some req
  | _ => none

/-- The requests of a run; connection `c` carries the `c`-th. -/
def arrivals (as : List Action) : List Request := as.filterMap Action.request?

/-- How often the outputs end a connection. -/
def endings (c : Nat) (o : List Output) : Nat := (o.filterMap Output.ends).count c

/-- Where a request stands: it has been concluded once, or it waits for a
running call of its own. -/
inductive Standing (s : Server) (o : List Output) (c : Nat) (req : Request) : Prop where
  | concluded (hconn : s.conns[c]? = some .closed) (hone : endings c o = 1)
  | waiting (task : Nat) (t : Task) (hconn : s.conns[c]? = some (.waiting task req))
      (hrun : s.sys.tasks[task]? = some t) (hawaits : Awaits req t) (hnone : endings c o = 0)

/-- The server's books are in order. -/
structure Orderly (as : List Action) (s : Server) (o : List Output) : Prop where
  length : s.conns.length = (arrivals as).length
  standing : ∀ c req, (arrivals as)[c]? = some req → Standing s o c req
  /-- no two connections wait for the same call -/
  own : ∀ (c c' task : Nat) (req req' : Request), s.conns[c]? = some (.waiting task req) →
    s.conns[c']? = some (.waiting task req') → c = c'
  silent : ∀ c, s.conns.length ≤ c → endings c o = 0

section Runs

variable {as : List Action} {fw : Firewall} {c : Nat} {r : Response}

theorem endings_append (c : Nat) (o o' : List Output) :
    endings c (o ++ o') = endings c o + endings c o' := by
  simp [endings]

theorem endings_map_gateway (c : Nat) (events : List Event) :
    endings c (events.map .gateway) = 0 := by
  have hnone : (events.map Output.gateway).filterMap Output.ends = [] := by
    rw [List.filterMap_map]
    exact List.filterMap_eq_nil_iff.mpr fun _ _ => rfl
  simp [endings, hnone]

/-- A verdict ends its own connection or none. -/
theorem Settled.endings {fw : Firewall} {conn' : Conn} {out : List Output}
    (h : Settled app conn task token req fw events (conn', out)) (c : Nat) :
    (conn' = .closed ∧ Http.endings c out = if c = conn then 1 else 0) ∨
      (conn' = .waiting task req ∧ Http.endings c out = 0 ∧
        req.verdict app.cfg fw token events = .awaits) := by
  have hone : ∀ last : Output, last.ends = some conn →
      Http.endings c (events.map .gateway ++ [last]) = if c = conn then 1 else 0 := by
    intro last hlast
    rw [endings_append, endings_map_gateway]
    by_cases hc : c = conn
    · simp [Http.endings, hlast, hc]
    · simp [Http.endings, hlast, hc, Ne.symm hc]
  cases h with
  | awaits h => exact .inr ⟨rfl, endings_map_gateway c events, h⟩
  | answers h => exact .inl ⟨rfl, hone _ rfl⟩
  | drops h => exact .inl ⟨rfl, hone _ rfl⟩

/-- A connection that waits has a running call. -/
theorem Orderly.running (h : Orderly as s o) {req : Request}
    (hconn : s.conns[c]? = some (.waiting task req)) :
    (arrivals as)[c]? = some req ∧ endings c o = 0 ∧
      ∃ t, s.sys.tasks[task]? = some t ∧ Awaits req t := by
  have hlt : c < (arrivals as).length := by
    rw [← h.length]
    exact (List.getElem?_eq_some_iff.mp hconn).1
  have harr : (arrivals as)[c]? = some (arrivals as)[c] := List.getElem?_eq_getElem hlt
  cases h.standing c _ harr with
  | concluded hclosed hone => cases hconn.symm.trans hclosed
  | waiting task' t hconn' hrun hawaits hnone =>
      obtain ⟨rfl, hreq⟩ := Conn.waiting.inj (Option.some.inj (hconn.symm.trans hconn'))
      rw [hreq]
      exact ⟨harr, hnone, t, hrun, hawaits⟩

/-- A new connection that waits has a call that none had before. -/
theorem Settled.waits_new {sys : System} {conn' : Conn} {out : List Output} {req' : Request}
    (hbegun : Begun app.cfg env env' token req s.sys sys events)
    (hsettled : Settled app conn (sys.tasks.length - 1) token req sys.fw events (conn', out))
    (hopen : conn' = .waiting task req') :
    req' = req ∧ Http.endings conn out = 0 ∧ s.sys.tasks.length ≤ task ∧
      ∃ t, sys.tasks[task]? = some t ∧ Awaits req t := by
  rcases hsettled.endings conn with ⟨hclosed, -⟩ | ⟨hwaiting, hnone, hv⟩
  · cases hopen.symm.trans hclosed
  · obtain ⟨rfl, rfl⟩ := Conn.waiting.inj (hopen.symm.trans hwaiting)
    obtain ⟨before, t, ht, hle, hawaits⟩ := hbegun.waits hv
    have hlast : sys.tasks.length - 1 = before.length := by simp [ht]
    exact ⟨rfl, hnone, by omega, t, by rw [hlast, ht, List.getElem?_concat_length], hawaits⟩

theorem orderly_arrived {sys : System} {conn' : Conn} {out : List Output}
    (hi : Orderly as s o) (hbegun : Begun app.cfg env env' token req s.sys sys events)
    (hsettled : Settled app s.conns.length (sys.tasks.length - 1) token req sys.fw events
      (conn', out)) :
    Orderly (as ++ [.arrive req env env' token]) { sys, conns := s.conns ++ [conn'] }
      (o ++ out) := by
  have harrivals : arrivals (as ++ [.arrive req env env' token]) = arrivals as ++ [req] := by
    simp [arrivals, Action.request?]
  have hnew : ∀ {c}, c ≠ s.conns.length → endings c out = 0 := by
    intro c hc
    rcases hsettled.endings c with ⟨-, h⟩ | ⟨-, h, -⟩
    · rw [h, if_neg hc]
    · exact h
  have hold : ∀ {task : Nat} {t : Task}, s.sys.tasks[task]? = some t → sys.tasks[task]? = some t := by
    intro task t ht
    exact (hbegun.frame (List.getElem?_eq_some_iff.mp ht).1).1.trans ht
  have hat : ∀ c, c ≠ s.conns.length → (s.conns ++ [conn'])[c]? = s.conns[c]? := by
    intro c hc
    rcases Nat.lt_or_ge c s.conns.length with hlt | hge
    · exact List.getElem?_append_left hlt
    · rw [List.getElem?_eq_none hge, List.getElem?_eq_none (by simp; omega)]
  have hend : (s.conns ++ [conn'])[s.conns.length]? = some conn' := List.getElem?_concat_length
  refine ⟨by simp [harrivals, hi.length], ?_, ?_, ?_⟩
  · intro c req' hreq'
    rw [harrivals] at hreq'
    by_cases hc : c = s.conns.length
    · subst hc
      obtain rfl : req = req' := by
        rw [hi.length, List.getElem?_concat_length] at hreq'
        exact Option.some.inj hreq'
      have hsilent := hi.silent _ (Nat.le_refl _)
      cases hconn : conn' with
      | closed =>
          rcases hsettled.endings s.conns.length with ⟨-, hone⟩ | ⟨hwaiting, -, -⟩
          · exact .concluded (hconn ▸ hend) (by rw [endings_append, hsilent, hone]; simp)
          · cases hconn.symm.trans hwaiting
      | waiting task req' =>
          obtain ⟨rfl, hnone, -, t, ht, hawaits⟩ := hsettled.waits_new hbegun hconn
          exact .waiting task t (hconn ▸ hend) ht hawaits
            (by rw [endings_append, hsilent, hnone])
    · have hlt : c < (arrivals as).length := by
        have hlt := (List.getElem?_eq_some_iff.mp hreq').1
        rw [List.length_append, List.length_singleton] at hlt
        have hlen := hi.length
        omega
      rw [List.getElem?_append_left hlt] at hreq'
      cases hi.standing c req' hreq' with
      | concluded hconn hone =>
          exact .concluded ((hat c hc).trans hconn) (by rw [endings_append, hone, hnew hc])
      | waiting task t hconn hrun hawaits hnone =>
          exact .waiting task t ((hat c hc).trans hconn) (hold hrun) hawaits
            (by rw [endings_append, hnone, hnew hc])
  · intro c c' task req₁ req₂ h₁ h₂
    have hfresh : ∀ {c req'}, c ≠ s.conns.length →
        (s.conns ++ [conn'])[c]? = some (.waiting task req') → task < s.sys.tasks.length := by
      intro c req' hc h
      obtain ⟨-, -, t, ht, -⟩ := hi.running ((hat c hc).symm.trans h)
      exact (List.getElem?_eq_some_iff.mp ht).1
    have hlast : ∀ {req'}, (s.conns ++ [conn'])[s.conns.length]? = some (.waiting task req') →
        s.sys.tasks.length ≤ task := by
      intro req' h
      obtain ⟨-, -, hle, -⟩ := hsettled.waits_new hbegun (Option.some.inj (hend.symm.trans h))
      exact hle
    by_cases hc : c = s.conns.length
    · subst hc
      by_contra hne
      have hlt := hfresh (Ne.symm hne) h₂
      have hle := hlast h₁
      omega
    · by_cases hc' : c' = s.conns.length
      · subst hc'
        have hlt := hfresh hc h₁
        have hle := hlast h₂
        omega
      · exact hi.own c c' task req₁ req₂ ((hat c hc).symm.trans h₁) ((hat c' hc').symm.trans h₂)
  · intro c hc
    have hc' : s.conns.length + 1 ≤ c := by simpa using hc
    rw [endings_append, hi.silent c (by omega), hnew (by omega)]

theorem orderly_resumed {sys : System} {act : Act} {conn' : Conn} {out : List Output}
    (hi : Orderly as s o) (hconn : s.conns[conn]? = some (.waiting task req))
    (hact : Resumed a conn task req act)
    (h : System.step app.cfg s.sys act = some (sys, events))
    (hsettled : Settled app conn task [] req sys.fw events (conn', out)) :
    Orderly (as ++ [a]) { sys, conns := s.conns.set conn conn' } (o ++ out) := by
  obtain ⟨hreq, hnone, t, hrun, hawaits⟩ := hi.running hconn
  have harrivals : arrivals (as ++ [a]) = arrivals as := by
    cases hact <;> simp [arrivals, Action.request?]
  have hlt : conn < s.conns.length := (List.getElem?_eq_some_iff.mp hconn).1
  have hself : (s.conns.set conn conn')[conn]? = some conn' := List.getElem?_set_self hlt
  have hother : ∀ {c}, c ≠ conn → (s.conns.set conn conn')[c]? = s.conns[c]? :=
    fun hc => List.getElem?_set_ne (Ne.symm hc)
  have hnew : ∀ {c}, c ≠ conn → endings c out = 0 := by
    intro c hc
    rcases hsettled.endings c with ⟨-, h⟩ | ⟨-, h, -⟩
    · rw [h, if_neg hc]
    · exact h
  have hcall : System.callOf s.sys act = some task := by
    simp [System.callOf, hact.target]
  refine ⟨by simp [harrivals, hi.length], ?_, ?_, ?_⟩
  · intro c req' hreq'
    rw [harrivals] at hreq'
    by_cases hc : c = conn
    · subst hc
      obtain rfl : req = req' := Option.some.inj (hreq.symm.trans hreq')
      rcases hsettled.endings c with ⟨rfl, hone⟩ | ⟨rfl, hzero, hv⟩
      · exact .concluded hself (by rw [endings_append, hnone, hone]; simp)
      · obtain ⟨t', hrun', hawaits'⟩ := hact.waits hrun hawaits h hv
        exact .waiting task t' hself hrun' hawaits' (by rw [endings_append, hnone, hzero])
    · cases hi.standing c req' hreq' with
      | concluded hconn' hone =>
          exact .concluded ((hother hc).trans hconn') (by rw [endings_append, hone, hnew hc])
      | waiting task' t' hconn' hrun' hawaits' hnone' =>
          -- the step belongs to the call of `conn` alone
          have hne : System.callOf s.sys act ≠ some task' := by
            rw [hcall]
            rintro heq
            obtain rfl := Option.some.inj heq
            exact hc (hi.own c conn task req' req hconn' hconn)
          exact .waiting task' t' ((hother hc).trans hconn')
            ((System.step_frame h hne).1.trans hrun') hawaits'
            (by rw [endings_append, hnone', hnew hc])
  · intro c c' task' req₁ req₂ h₁ h₂
    -- a connection that goes on waiting waits for the call it had
    have hold : ∀ {c : Nat} {req' : Request}, (s.conns.set conn conn')[c]? = some (.waiting task' req') →
        ∃ req'', s.conns[c]? = some (.waiting task' req'') := by
      intro c req' h
      by_cases hc : c = conn
      · subst hc
        rcases hsettled.endings c with ⟨rfl, -⟩ | ⟨rfl, -, -⟩
        · cases Option.some.inj (hself.symm.trans h)
        · cases Option.some.inj (hself.symm.trans h)
          exact ⟨req, hconn⟩
      · exact ⟨req', (hother hc).symm.trans h⟩
    obtain ⟨req₃, h₁⟩ := hold h₁
    obtain ⟨req₄, h₂⟩ := hold h₂
    exact hi.own c c' task' req₃ req₄ h₁ h₂
  · intro c hc
    have hle : s.conns.length ≤ c := by simpa using hc
    rw [endings_append, hi.silent c hle, hnew (by omega)]

theorem orderly_step (hi : Orderly as s o) {out : List Output}
    (h : Step app s a s' out) : Orderly (as ++ [a]) s' (o ++ out) := by
  cases h with
  | arrived hbegun hsettled => exact orderly_arrived hi hbegun hsettled
  | resumed hconn hact h hsettled => exact orderly_resumed hi hconn hact h hsettled
  | outside h =>
      rename_i change hout sys events
      have harrivals : arrivals (as ++ [.outside change hout]) = arrivals as := by
        simp [arrivals, Action.request?]
      have htasks : sys.tasks = s.sys.tasks := by
        cases System.step_shape h with
        | opened t ha ht hnew => cases hout.1.symm.trans ha
        | moved id t t' ha hid hrun hleft ht hnew => cases hout.2.symm.trans hid
        | outside ha hid ht hdb ho => exact ht
      refine ⟨by simp [harrivals, hi.length], ?_, hi.own, ?_⟩
      · intro c req hreq
        rw [harrivals] at hreq
        cases hi.standing c req hreq with
        | concluded hconn hone =>
            exact .concluded hconn (by rw [endings_append, endings_map_gateway, hone])
        | waiting task t hconn hrun hawaits hnone =>
            exact .waiting task t hconn (htasks ▸ hrun) hawaits
              (by rw [endings_append, endings_map_gateway, hnone])
      · intro c hc
        rw [endings_append, endings_map_gateway, hi.silent c hc]

theorem run_orderly (h : app.machine.run { sys := { fw } } as = some (s, o)) :
    Orderly as s o := by
  refine app.machine.run_history (motive := Orderly) ⟨rfl, by simp [arrivals], by simp,
    fun _ _ => rfl⟩ ?_ h
  intro _ _ _ _ _ _ _ hi hstep
  exact orderly_step hi (step_step hstep)

end Runs

/-! ## Ada at work -/

/-- The server of the runs below; it can render everything. -/
def echoApp : App := { cfg := echoConfig, renders := fun _ => true }

/-- Ada logs in, approves the tool while she calls it, and reads the log. -/
def echoServed : List Action :=
  [.outside (.registerUser ada.userId ada.role (str "correct horse battery")) ⟨rfl, rfl⟩,
    .arrive (.createSession { userId := ada.userId, apiKey := str "correct horse battery" } none)
      {} {} (str "tok"),
    .arrive (.approveTools {} (some (str "tok"))) {} {} [],
    .arrive (.toolRequest { tool := str "echo" } (some (str "tok"))) {} {} [],
    .listed 1 (fun _ => {}) (.listing [echo]),
    .listed 2 (fun _ => {}) (.listing [echo]),
    .replied 2 {} (.response { text := str "hi" }),
    .arrive (.getLogs {} (some (str "tok"))) {} {} []]

/-- Whether a run sends a response of this status on the connection. -/
def sends (conn status : Nat) (o : List Output) : Bool :=
  o.any fun out => match out with
    | .sent c r => decide (c = conn ∧ r.status = status)
    | _ => false

theorem of_sends {conn status : Nat} {o : List Output} (h : sends conn status o = true) :
    ∃ r, .sent conn r ∈ o ∧ r.status = status := by
  obtain ⟨out, hmem, hout⟩ := List.any_eq_true.mp h
  cases out with
  | sent c r =>
      obtain ⟨rfl, hstatus⟩ := of_decide_eq_true hout
      exact ⟨r, hmem, hstatus⟩
  | _ => cases hout

theorem echoServed_sends : ∃ s o r,
    echoApp.machine.run { sys := { fw := .init echoConfig {} } } echoServed = some (s, o) ∧
      .sent 2 r ∈ o ∧ r.status = 200 := by
  have hrun : (echoApp.machine.run { sys := { fw := .init echoConfig {} } } echoServed).any
      (fun p => sends 2 200 p.2) = true := by
    decide +kernel
  obtain ⟨⟨s, o⟩, hrun, hsends⟩ := (Option.any_eq_true _ _).mp hrun
  obtain ⟨r, hmem, hstatus⟩ := of_sends hsends
  exact ⟨s, o, r, hrun, hmem, hstatus⟩

end Http

end AgenticFirewall
