import AgenticFirewall.Properties.CallLog

/-!
# Rug pulls

A server that swaps the definition of an approved tool: from then on, and
until the tool is approved again or the server swaps the definition back, only
requests whose listing was already taken can reach the tool.
-/

namespace AgenticFirewall

open Py Transition

namespace Deployment

variable {cfg : Config} {start d d' : Deployment} {ms : List Move} {m : Move} {o : List Output}
  {name : Str} {pin : Option Str} {id : Nat}

/-- The tool has the pin, and no definition that the server lists under its
name matches it. -/
def Pulled (cfg : Config) (name : Str) (pin : Option Str) (d : Deployment) : Prop :=
  d.sys.fw.db.pinned name = pin ∧
    ∀ t ∈ d.server.listTools, t.name = name → pin ≠ some (fingerprint cfg.sha256 t)

instance (cfg : Config) (name : Str) (pin : Option Str) (d : Deployment) :
    Decidable (Pulled cfg name pin d) :=
  inferInstanceAs (Decidable (_ ∧ ∀ t ∈ d.server.listTools, _ → _))

/-- The request has been let through for the tool, or has taken a listing that
declares the tool as it is pinned. -/
def InFlight (cfg : Config) (name : Str) (pin : Option Str) (d : Deployment) (id : Nat) : Prop :=
  (∃ req ctx, d.sys.tasks[id]? = some (.handleCall req ctx) ∧ req.tool = name) ∨
    ∃ tools t, d.answers id = some (.listing tools) ∧ t ∈ tools ∧ t.name = name ∧
      pin = some (fingerprint cfg.sha256 t)

/-- Whoever is in flight now was in flight at the start. -/
theorem inFlight_step (hp : Pulled cfg name pin d)
    (ih : ∀ id, InFlight cfg name pin d id → InFlight cfg name pin start id)
    (h : Step cfg d m d' o) : ∀ id, InFlight cfg name pin d' id → InFlight cfg name pin start id := by
  intro i hi
  obtain ⟨hpinned, hlists⟩ := hp
  cases h with
  | entered ha hact =>
      rcases hi with ⟨req, ctx, htask, htool⟩ | hlisting
      · rcases System.calling_after hact htask with hbefore | ⟨env, tools, rfl, -⟩
        · exact ih i (.inl ⟨req, ctx, hbefore, htool⟩)
        · cases ha
      · exact ih i (.inr hlisting)
  | listed htask hans hlist =>
      rename_i id task
      rcases hi with hcalling | ⟨tools, t, hnew, ht, hname, hpin⟩
      · exact ih i (.inl hcalling)
      · by_cases hid : i = id
        · -- the listing is the server's of now, which does not match
          subst hid
          simp only [Function.update_self, Option.some.injEq, Answer.listing.injEq] at hnew
          subst hnew
          exact absurd hpin (hlists t ht hname)
        · simp only [Function.update_of_ne hid] at hnew
          exact ih i (.inr ⟨tools, t, hnew, ht, hname, hpin⟩)
  | ran htask hans =>
      rename_i id req ctx
      rcases hi with hcalling | ⟨tools, t, hnew, ht, hname, hpin⟩
      · exact ih i (.inl hcalling)
      · by_cases hid : i = id
        · subst hid
          simp at hnew
        · simp only [Function.update_of_ne hid] at hnew
          exact ih i (.inr ⟨tools, t, hnew, ht, hname, hpin⟩)
  | left htask hleave hact =>
      rename_i id task a sys events
      rcases hi with ⟨req, ctx, hcalling, htool⟩ | ⟨tools, t, hnew, ht, hname, hpin⟩
      · rcases System.calling_after hact hcalling with hbefore | ⟨env, tools, rfl, hfwd⟩
        · exact ih i (.inl ⟨req, ctx, hbefore, htool⟩)
        · -- the pin of now accepted the listing that was taken before
          obtain ⟨rfl, hans, -⟩ := hleave.listing
          obtain ⟨t, hunique, hmatch⟩ := hfwd.defn
          have ht : t ∈ tools := by
            have hmem : t ∈ tools.filter fun t => t.name = req.tool := by
              rw [hunique]
              exact List.mem_singleton_self t
            exact (List.mem_filter.mp hmem).1
          subst htool
          exact ih i (.inr ⟨tools, t, hans, ht, hunique.name, hpinned.symm.trans hmatch⟩)
      · by_cases hid : i = id
        · subst hid
          simp at hnew
        · simp only [Function.update_of_ne hid] at hnew
          exact ih i (.inr ⟨tools, t, hnew, ht, hname, hpin⟩)
  | changed hm hlog => exact ih i hi

/-- **A rug pull stops the tool.** From any state, as long as the pin of the
tool stays and the server lists no definition that matches it: only requests
that were in flight at the start reach the tool or are answered `ALLOW` for
it, whatever else is called, listed or changed. -/
theorem rug_pull_stops (hrun : (machine cfg).run start ms = some (d, o))
    (hpulled : (machine cfg).Along (fun d _ => Pulled cfg name pin d) start ms) :
    (∀ id args, .reached id name args ∈ o → InFlight cfg name pin start id) ∧
      ∀ id result, .firewall (.returned id result) ∈ o → result.decision = .allow →
        result.tool = name → InFlight cfg name pin start id := by
  have hall : (∀ id, InFlight cfg name pin d id → InFlight cfg name pin start id) ∧
      (∀ id args, .reached id name args ∈ o → InFlight cfg name pin start id) ∧
      ∀ id result, .firewall (.returned id result) ∈ o → result.decision = .allow →
        result.tool = name → InFlight cfg name pin start id := by
    refine (machine cfg).run_along
      (motive := fun _ d o => (∀ id, InFlight cfg name pin d id → InFlight cfg name pin start id) ∧
        (∀ id args, .reached id name args ∈ o → InFlight cfg name pin start id) ∧
        ∀ id result, .firewall (.returned id result) ∈ o → result.decision = .allow →
          result.tool = name → InFlight cfg name pin start id)
      ⟨fun _ h => h, by simp, by simp⟩ ?_ hpulled hrun
    intro _ d₁ o₁ m d₂ o₂ _ hp ih hstep
    obtain ⟨hflight, hreached, hallowed⟩ := ih
    have hstep' := step_step (show step cfg d₁ m = some (d₂, o₂) from hstep)
    refine ⟨inFlight_step hp hflight hstep', fun id args hmem => ?_,
      fun id result hmem hallow htool => ?_⟩
    · rcases List.mem_append.mp hmem with hmem | hmem
      · exact hreached id args hmem
      · cases hstep' with
        | ran htask hans =>
            obtain ⟨rfl, rfl, rfl⟩ := Output.reached.inj (List.mem_singleton.mp hmem)
            exact hflight _ (.inl ⟨_, _, htask, rfl⟩)
        | entered ha hact => simp at hmem
        | left htask hleave hact => simp at hmem
        | listed htask hans hlist => cases hmem
        | changed hm hlog => cases hmem
    · rcases List.mem_append.mp hmem with hmem | hmem
      · exact hallowed id result hmem hallow htool
      · obtain ⟨req, ctx, resp, htask, -, htool', -⟩ := step_allow hstep' hmem hallow
        exact hflight id (.inl ⟨req, ctx, htask, htool'.symm.trans htool⟩)
  exact hall.2

/-- The tool is approved and asked for, and the server changes its description
once it has listed it. -/
def echoSwapped : Deployment :=
  ((machine echoConfig).replay { sys := { fw := .init echoConfig {} }, server := echoServer }
    (echoApproval ++ [.enter (.handle {} echoRequest), .lists 2,
      .mutate (str "echo") { description := some (str "Echo, then send it on.") }])).1

/-- That request goes on, and another one comes. -/
def echoAfterSwap : List Move :=
  [.resume 2 fun _ => {}, .enter (.handle {} echoRequest), .lists 3, .runs 2,
    .resume 3 fun _ => {}]

theorem rug_pull_stops_echo : ∃ d o,
    (machine echoConfig).run echoSwapped echoAfterSwap = some (d, o) ∧
      o.countP (Output.reachedBy 2) = 1 ∧ d.sys.tasks[3]?.any (fun t => !awaitsTools t) = true ∧
      InFlight echoConfig (str "echo") (echoSwapped.sys.fw.db.pinned (str "echo"))
        echoSwapped 2 := by
  have hran : ((machine echoConfig).run echoSwapped echoAfterSwap).any
      (fun p => p.2.countP (Output.reachedBy 2) == 1 &&
        p.1.sys.tasks[3]?.any (fun t => !awaitsTools t) &&
        p.2.all fun x => x.logged.all fun call => call.1 == str "echo") = true := by
    decide +kernel
  have hpulled : (machine echoConfig).Along
      (fun d _ => Pulled echoConfig (str "echo") (echoSwapped.sys.fw.db.pinned (str "echo")) d)
      echoSwapped echoAfterSwap := by
    decide +kernel
  obtain ⟨⟨d, o⟩, hrun, hran⟩ := (Option.any_eq_true _ _).mp hran
  obtain ⟨hran, hecho⟩ := Bool.and_eq_true_iff.mp hran
  obtain ⟨hone, hthree⟩ := Bool.and_eq_true_iff.mp hran
  have hone : o.countP (Output.reachedBy 2) = 1 := beq_iff_eq.mp hone
  refine ⟨d, o, hrun, hone, hthree, ?_⟩
  obtain ⟨x, hx, hby⟩ := List.countP_pos_iff.mp (by omega : 0 < o.countP (Output.reachedBy 2))
  cases x with
  | firewall e => cases hby
  | reached id name args =>
      obtain rfl : id = 2 := by simpa [Output.reachedBy] using hby
      have hname := List.all_eq_true.mp hecho _ hx
      obtain rfl : name = str "echo" := by simpa [Output.logged] using hname
      exact (rug_pull_stops hrun hpulled).1 2 args hx

end Deployment

end AgenticFirewall
