import ReactiveScript.Proofs.EventLogs

/-!
# Tracing

A host can have programs traced. Tracing is for observation only: a traced run comes to the same as
one that is not traced, in the same state but for the log, and its log has the events of a trace in
addition. The reason is that no evaluation reads the log or the flag for any other purpose than to
log an event of a trace.
-/

namespace ReactiveScript

/-- The logs of two runs that started with the same log. What the second one has added to it is what
the first one has, less some events of a trace. -/
def TraceOnly (start log log' : Array Event) : Prop :=
  ∃ emitted emitted' : List Event,
    log.toList = start.toList ++ emitted ∧ log'.toList = start.toList ++ emitted' ∧
    emitted'.Sublist emitted ∧ emitted.filter (!·.ofTrace) = emitted'.filter (!·.ofTrace)

namespace TraceOnly

variable {start log log' : Array Event}

protected theorem refl (start : Array Event) : TraceOnly start start start :=
  ⟨[], [], (List.append_nil _).symm, (List.append_nil _).symm, .slnil, rfl⟩

/-- Both runs log an event. -/
theorem push (event : Event) (h : TraceOnly start log log') :
    TraceOnly start (log.push event) (log'.push event) := by
  obtain ⟨emitted, emitted', hlog, hlog', hsub, hfilter⟩ := h
  refine ⟨emitted ++ [event], emitted' ++ [event], ?_, ?_, hsub.append (.refl _), ?_⟩
  · rw [Array.toList_push, hlog, List.append_assoc]
  · rw [Array.toList_push, hlog', List.append_assoc]
  · rw [List.filter_append, List.filter_append, hfilter]

/-- Only the first run logs an event, of a trace. -/
theorem pushTrace {event : Event} (hevent : event.ofTrace) (h : TraceOnly start log log') :
    TraceOnly start (log.push event) log' := by
  obtain ⟨emitted, emitted', hlog, hlog', hsub, hfilter⟩ := h
  refine ⟨emitted ++ [event], emitted', ?_, hlog', ?_, ?_⟩
  · rw [Array.toList_push, hlog, List.append_assoc]
  · exact hsub.trans (List.sublist_append_left _ _)
  · rw [List.filter_append, hfilter]
    simp [hevent]

/-- The first run traces and the second one does not. -/
theorem logRelation (start : Array Event) : LogRelation true false (TraceOnly start) where
  push := .push
  pushIf _ hevent h := h.pushTrace hevent

end TraceOnly

/-! ## Observation only -/

/-- Outcomes that differ at most in the events of a trace that the first one has logged. -/
abbrev Outcome.SameButTrace {ε α : Type} (start : Array Event) (o o' : Outcome State ε α) : Prop :=
  o.SameBut Eq (TraceOnly start) Eq o'

namespace Interpreter

/-- Tracing is observation only. Whatever is run in whatever state and with whatever host, with
and without tracing: both runs come to the same value or failure in the same state but for the log,
and the log of the untraced run lacks nothing but events of the trace. The same holds of sessions of
any length. -/
theorem tracing_is_observation_only (ctx : Context) (fuel : Nat) (s : State) :
    (∀ program, (execute (ctx.tracing true) fuel program s).SameButTrace s.events
      (execute (ctx.tracing false) fuel program s)) ∧
    (∀ program, (run (ctx.tracing true) fuel program s).SameButTrace s.events
      (run (ctx.tracing false) fuel program s)) ∧
    (runPending (ctx.tracing true) fuel s).SameButTrace s.events
      (runPending (ctx.tracing false) fuel s) ∧
    (∀ f args receiver, (callValue (ctx.tracing true) fuel f args receiver s).SameButTrace s.events
      (callValue (ctx.tracing false) fuel f args receiver s)) ∧
    (∀ e, (evalExpr (ctx.tracing true) fuel e s).SameButTrace s.events
      (evalExpr (ctx.tracing false) fuel e s)) ∧
    (∀ st, (execStmt (ctx.tracing true) fuel st s).SameButTrace s.events
      (execStmt (ctx.tracing false) fuel st s)) ∧
    (∀ body, (execStmts (ctx.tracing true) fuel body s).SameButTrace s.events
      (execStmts (ctx.tracing false) fuel body s)) ∧
    (∀ body, (execBlock (ctx.tracing true) fuel body s).SameButTrace s.events
      (execBlock (ctx.tracing false) fuel body s)) ∧
    ∀ visits : List Visit, Option.Rel (State.SameBut Eq (TraceOnly s.events))
      (serve? Evaluator.level (visits.map (·.tracing true)) s)
      (serve? Evaluator.level (visits.map (·.tracing false)) s) := by
  have hK := (TraceOnly.logRelation s.events).outputRelation
  have hR : SessionCongruence (ctx.tracing true).trace false _ := hK.sessionCongruence delivering_eq
  have hlevel := hR.toCongruence.level fuel
  have hstart : s.SameBut Eq (TraceOnly s.events) s := .intro rfl (.refl s.events)
  refine ⟨fun program => ?_, fun program => ?_, ?_, fun f args receiver => ?_, fun e => ?_,
    fun st => ?_, fun body => ?_, fun body => ?_, fun visits => ?_⟩
  · exact hR.toCongruence.executeWith hlevel program s s hstart
  · exact hR.run hlevel fuel program s s hstart
  · exact hR.runPending hlevel fuel s s hstart
  · exact hlevel.call f args receiver s s hstart
  · exact hlevel.expr e s s hstart
  · exact hlevel.stmt st s s hstart
  · exact hR.toCongruence.stmts hlevel body s s hstart
  · exact hlevel.block body s s hstart
  · have htraced : ∀ visit ∈ visits.map (·.tracing true),
        OutputRelation visit.ctx.trace false Eq (TraceOnly s.events) := by
      intro visit hvisit
      obtain ⟨visit, -, rfl⟩ := List.mem_map.1 hvisit
      exact hK
    have hserve := hstart.serve? (fun _ => false) htraced fun _ _ _ => delivering_eq
    rw [List.map_map] at hserve
    exact hserve

end Interpreter

end ReactiveScript
