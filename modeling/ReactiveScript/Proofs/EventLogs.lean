import Mathlib.Logic.Relation
import ReactiveScript.Proofs.Outputs

/-!
# Logs

Runs that start in the same state but for the log, the queue included, come to the same but for the
log.
-/

namespace ReactiveScript

/-- The same outcome but for related results and logs. -/
inductive Outcome.SameButLog {ε α : Type} (L : Array Event → Array Event → Prop)
    (V : α → α → Prop) : Outcome State ε α → Outcome State ε α → Prop where
  | ok {a a' : α} {s : State} {log : Array Event} (hv : V a a') (h : L s.events log) :
    SameButLog L V (.ok a s) (.ok a' { s with events := log })
  | error {e : ε} {s : State} {log : Array Event} (h : L s.events log) :
    SameButLog L V (.error e s) (.error e { s with events := log })
  | exhausted : SameButLog L V .exhausted .exhausted

namespace Outcome.SameButLog

variable {ε α : Type} {L : Array Event → Array Event → Prop} {V : α → α → Prop}
  {o o' : Outcome State ε α}

theorem imp {W : α → α → Prop} (h : o.SameButLog L V o') (hVW : ∀ a a', V a a' → W a a') :
    o.SameButLog L W o' := by
  cases h with
  | ok hv h => exact .ok (hVW _ _ hv) h
  | error h => exact .error h
  | exhausted => exact .exhausted

/-- The same log is a related log. -/
theorem of_eq {a a' : α} (hv : V a a') (s : State) :
    (Outcome.ok a s : Outcome State ε α).SameButLog Eq V (.ok a' s) :=
  .ok hv rfl

theorem refl (hV : ∀ a, V a a) (o : Outcome State ε α) : o.SameButLog Eq V o := by
  cases o with
  | ok a s => exact of_eq (hV a) s
  | error e s => exact .error (s := s) rfl
  | exhausted => exact .exhausted

theorem trans {W : α → α → Prop} {o'' : Outcome State ε α} (h : o.SameButLog L V o')
    (h' : o'.SameButLog Eq W o'') : o.SameButLog L (Relation.Comp V W) o'' := by
  cases h with
  | ok hv h =>
    cases h' with
    | ok hw h' =>
      subst h'
      exact .ok ⟨_, hv, hw⟩ h
  | error h =>
    cases h' with
    | error h' =>
      subst h'
      exact .error h
  | exhausted =>
    cases h'
    exact .exhausted

end Outcome.SameButLog

/-- Evaluations that come to the same but for the log. -/
def Eval.SameButLog {α : Type} (L : Array Event → Array Event → Prop) (m m' : Eval α) : Prop :=
  ∀ (s : State) (log : Array Event), L s.events log →
    (m s).SameButLog L Eq (m' { s with events := log })

section SameBut

variable {α : Type} {L : Array Event → Array Event → Prop}

/-- Outcomes with equal queues. -/
theorem Outcome.sameButLog_iff {ε : Type} {V : α → α → Prop} {o o' : Outcome State ε α} :
    o.SameButLog L V o' ↔ o.SameBut Eq L V o' := by
  constructor
  · intro h
    cases h with
    | ok hv h => exact .ok hv (.intro rfl h)
    | error h => exact .error (.intro rfl h)
    | exhausted => exact .exhausted
  · intro h
    cases h with
    | ok hv hs =>
      obtain ⟨rfl, h⟩ := hs
      exact .ok hv h
    | error hs =>
      obtain ⟨rfl, h⟩ := hs
      exact .error h
    | exhausted => exact .exhausted

theorem Eval.sameButLog_iff {m m' : Eval α} : m.SameButLog L m' ↔ m.SameBut Eq L m' := by
  constructor
  · rintro h s _ ⟨rfl, hlog⟩
    exact Outcome.sameButLog_iff.1 (h s _ hlog)
  · intro h s log hlog
    exact Outcome.sameButLog_iff.2 (h s _ (.intro rfl hlog))

end SameBut

/-- Equal queues hold the same notifications. -/
theorem delivering_eq : Delivering Eq := by
  rintro queue _ rfl
  cases queue.next? with
  | none => exact .none
  | some next => exact .some ⟨rfl, rfl⟩

namespace LogRelation

variable {trace trace' : Bool} {L : Array Event → Array Event → Prop}

theorem outputRelation (hL : LogRelation trace trace' L) : OutputRelation trace trace' Eq L where
  toLogRelation := hL
  schedule _ h := by rw [h]

/-- All evaluations come to the same but for the log. -/
theorem congruence (hL : LogRelation trace trace' L) :
    SessionCongruence trace trace' fun _ _ m m' => Eval.SameButLog L m m' := by
  simp only [Eval.sameButLog_iff]
  exact hL.outputRelation.sessionCongruence delivering_eq

end LogRelation

end ReactiveScript
