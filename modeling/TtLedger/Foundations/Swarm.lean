import Mathlib.Data.List.Basic
import Mathlib.Order.Lattice

/-!
# Agents that share a server

A swarm is the state of a server and the agents that have joined, each with the events of its trace
so far. `may k tr` says that an agent of kind `k` can have done `tr`, `sees g ev g'` what an event
of an agent does to the server, and `env g g'` what others do to it. Agents act in any order, one
event at a time, and an agent that crashes takes no more steps.

An invariant of the server and of what has happened anywhere holds of every reachable swarm when
each event keeps it (`Reachable.invariant`).
-/

namespace TtLedger

/-- The state of a server, and the agents with their traces. -/
structure Swarm (G κ Ev : Type) where
  state : G
  agents : List (κ × List Ev)

namespace Swarm

variable {G κ Ev : Type} (env : G → G → Prop) (sees : G → Ev → G → Prop)
  (may : κ → List Ev → Prop) (init : G)

/-- The swarms that a server in the state `init` can become. -/
inductive Reachable : Swarm G κ Ev → Prop
  | init : Reachable ⟨init, []⟩
  | environment {w : Swarm G κ Ev} {g : G} (h : Reachable w) (henv : env w.state g) :
      Reachable ⟨g, w.agents⟩
  | join {w : Swarm G κ Ev} (h : Reachable w) (k : κ) : Reachable ⟨w.state, w.agents ++ [(k, [])]⟩
  | act {w : Swarm G κ Ev} {before after : List (κ × List Ev)} {k : κ} {tr : List Ev} {ev : Ev}
      {g : G} (h : Reachable w) (hagent : w.agents = before ++ (k, tr) :: after)
      (hmay : may k (tr ++ [ev])) (hsees : sees w.state ev g) :
      Reachable ⟨g, before ++ (k, tr ++ [ev]) :: after⟩

/-- An event has happened: it is in the trace of an agent. -/
def Happened (w : Swarm G κ Ev) (ev : Ev) : Prop := ∃ a ∈ w.agents, ev ∈ a.2

/-- What a sequence of events does to the server. -/
inductive Sees : G → List Ev → G → Prop
  | nil (g : G) : Sees g [] g
  | cons {g g' g'' : G} {ev : Ev} {tr : List Ev} (hsees : sees g ev g') (h : Sees g' tr g'') :
      Sees g (ev :: tr) g''

variable {env sees may init} {w : Swarm G κ Ev}

namespace Reachable

/-- Every agent has done what its kind can do. -/
theorem agent_may (h : Reachable env sees may init w) {a : κ × List Ev} (ha : a ∈ w.agents) :
    a.2 = [] ∨ may a.1 a.2 := by
  induction h with
  | init => cases ha
  | environment _ _ ih => exact ih ha
  | join _ k ih =>
    rcases List.mem_append.mp ha with ha | ha
    · exact ih ha
    · obtain rfl := List.mem_singleton.mp ha
      exact .inl rfl
  | act _ hagent hmay _ ih =>
    rw [hagent] at ih
    rcases List.mem_append.mp ha with ha | ha
    · exact ih (List.mem_append_left _ ha)
    · rcases List.mem_cons.mp ha with rfl | ha
      · exact .inr hmay
      · exact ih (List.mem_append_right _ (.tail _ ha))

/-- An agent may take several steps in a row. -/
theorem runs (h : Reachable env sees may init w) {before after : List (κ × List Ev)} {k : κ}
    {tr : List Ev} (hagent : w.agents = before ++ (k, tr) :: after) {seg : List Ev} {g : G}
    (hmay : ∀ n, may k (tr ++ seg.take (n + 1))) (hsees : Sees sees w.state seg g) :
    Reachable env sees may init ⟨g, before ++ (k, tr ++ seg) :: after⟩ := by
  generalize hstate : w.state = g₀ at hsees
  induction hsees generalizing w tr with
  | nil g₀ =>
    rw [List.append_nil, ← hagent, ← hstate]
    exact h
  | @cons g₀ g₁ g ev seg hev hrest ih =>
    have hone := h.act hagent (hmay 0) (hstate ▸ hev)
    rw [List.append_cons tr ev seg]
    refine ih hone rfl (fun n => ?_) rfl
    rw [List.append_assoc]
    exact hmay (n + 1)

/-- **What holds of the server and of everything that has happened**: it holds at the start, what
others do keeps it, and an event keeps it once it has happened. -/
theorem invariant {I : G → (Ev → Prop) → Prop} (hinit : I init fun _ => False)
    (hmono : ∀ {g P Q}, I g P → (∀ ev, P ev → Q ev) → I g Q)
    (henv : ∀ {g P g'}, I g P → env g g' → I g' P)
    (hsees : ∀ {g P ev g'}, I g P → sees g ev g' → I g' fun ev' => P ev' ∨ ev' = ev)
    (h : Reachable env sees may init w) : I w.state w.Happened := by
  induction h with
  | init => exact hmono hinit fun _ hev => hev.elim
  | environment _ he ih => exact hmono (henv ih he) fun _ hev => hev
  | join _ k ih =>
    refine hmono ih ?_
    rintro ev ⟨a, ha, hev⟩
    exact ⟨a, List.mem_append_left _ ha, hev⟩
  | @act w before after k tr ev g _ hagent _ hev ih =>
    refine hmono (hsees ih hev) ?_
    rintro ev' (⟨a, ha, hin⟩ | rfl)
    · rw [hagent] at ha
      rcases List.mem_append.mp ha with ha | ha
      · exact ⟨a, List.mem_append_left _ ha, hin⟩
      · rcases List.mem_cons.mp ha with rfl | ha
        · exact ⟨_, List.mem_append_right _ (.head _), List.mem_append_left _ hin⟩
        · exact ⟨a, List.mem_append_right _ (.tail _ ha), hin⟩
    · exact ⟨_, List.mem_append_right _ (.head _),
        List.mem_append_right _ (List.mem_singleton.mpr rfl)⟩

end Reachable

end Swarm

end TtLedger
