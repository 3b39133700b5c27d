import ReplicaCluster.Proofs.Interleaving.Scene

/-!
# Properties that every party keeps

A process keeps a property of topologies if it stores nothing without the property, as long as it is
shown nothing without it.  The parties may then rely on each other: if every duty keeps the property,
it holds throughout every run (`holds_of_keeps`).
-/

namespace ReplicaCluster

namespace Process

variable {α β : Type} {P : Topology → Prop}

def Keeps (P : Topology → Prop) : Process α → Prop
  | .done _ | .fail _ => True
  | .read next => ∀ t, P t → (next t).Keeps P
  | .update revise next => ∀ t t', P t → revise t = .ok t' → P t' ∧ (next t').Keeps P
  | .call _ next => next.Keeps P

theorem Keeps.map {p : Process α} (h : p.Keeps P) (f : α → β) : (p.map f).Keeps P := by
  induction p with
  | done result => trivial
  | fail failure => trivial
  | read next ih =>
      intro t ht
      exact ih t (h t ht)
  | update revise next ih =>
      intro t t' ht revised
      rcases h t t' ht revised with ⟨ht', hnext⟩
      exact ⟨ht', ih t' hnext⟩
  | call c next ih => exact ih h

end Process

namespace Interleaving

variable {duties : Party → Task → Prop} {P : Topology → Prop} {t₀ : Topology} {s s' : Scene}
  {e : Event} {events : List Event}

/-- The store holds what has the property, and all that is left to do keeps it. -/
structure Kept (P : Topology → Prop) (s : Scene) : Prop where
  stored : P s.stored
  rest : ∀ i c, s.busy i = some c → c.rest.Keeps P

theorem Kept.step (keeps : ∀ i task now, duties i task → (task.process now).Keeps P)
    (h : Kept P s) (step : Step duties s e s') : Kept P s' := by
  -- Who writes now has been shown nothing without the property so far.
  have hstored : P s'.stored := by
    cases step with
    | @wrote i c revise next t busy rest revised =>
        have hkeeps := h.rest i c busy
        rw [rest] at hkeeps
        exact (hkeeps s.stored t h.stored revised).1
    | _ => exact h.stored
  refine ⟨hstored, ?_⟩
  refine step.busy_induction (p := fun _ c => c.rest.Keeps P) h.rest ?_ ?_ ?_ ?_ ?_
  · intro i c hc _
    exact hc
  · intro i task now _ duty
    exact keeps i task now duty
  · intro i c next _ hc hrest
    rw [hrest] at hc
    exact hc s.stored h.stored
  · intro i c revise next t _ hc hrest revised
    rw [hrest] at hc
    exact (hc s.stored t h.stored revised).2
  · intro i c call next _ hc hrest
    rw [hrest] at hc
    exact hc

theorem holds_of_keeps (keeps : ∀ i task now, duties i task → (task.process now).Keeps P)
    (init : P t₀) (run : Run (Step duties) (.start t₀) events s) : P s.stored := by
  have hkept : Kept P s :=
    run.invariant ⟨init, by simp⟩ fun _ _ _ hkept step => hkept.step keeps step
  exact hkept.stored

end Interleaving

end ReplicaCluster
