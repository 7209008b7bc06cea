import Mathlib.Order.Bounds.Basic
import Mathlib.Order.MinMax

/-!
# Runs

The table and the checker are used one operation at a time, and some operations
are permitted in some states only: their caller has promised something.  A run is
any finite sequence of permitted operations.
-/

namespace RegionGuard

universe u v

/-- Something that is used one operation at a time. -/
structure System (State : Type u) (Op : Type v) where
  /-- What the callers promise about an operation in a state. -/
  permits : State → Op → Prop
  /-- The state after an operation. -/
  next : State → Op → State

namespace System

variable {State : Type u} {Op : Type v} {sys : System State Op}

/-- A sequence of operations, each permitted in the state in which it is used. -/
inductive Run (sys : System State Op) : State → List Op → State → Prop
  | nil (s : State) : Run sys s [] s
  | cons {s after : State} {op : Op} {ops : List Op}
      (permitted : sys.permits s op)
      (tail : Run sys (sys.next s op) ops after) :
      Run sys s (op :: ops) after

theorem Run.append {s middle after : State} {ops more : List Op}
    (h : sys.Run s ops middle) (h' : sys.Run middle more after) :
    sys.Run s (ops ++ more) after := by
  induction h with
  | nil s => exact h'
  | cons permitted tail ih => exact .cons permitted (ih h')

/-- A run goes on with any operation that is permitted where it ends. -/
theorem Run.snoc {s after : State} {ops : List Op} (h : sys.Run s ops after) {op : Op}
    (permitted : sys.permits after op) : sys.Run s (ops ++ [op]) (sys.next after op) :=
  h.append (.cons permitted (.nil _))

/-- What every permitted operation keeps holds at the end of a run if it holds at
the beginning. -/
theorem Run.invariant (Inv : State → Prop)
    (hstep : ∀ s op, sys.permits s op → Inv s → Inv (sys.next s op))
    {s after : State} {ops : List Op} (h : sys.Run s ops after) (hs : Inv s) : Inv after := by
  induction h with
  | nil s => exact hs
  | cons permitted tail ih => exact ih (hstep _ _ permitted hs)

/-- A value that differs after a run has been changed by one of its operations. -/
theorem Run.exists_change {α : Type u} (value : State → α) {s after : State} {ops : List Op}
    (h : sys.Run s ops after) (hne : value after ≠ value s) :
    ∃ before op rest middle, ops = before ++ op :: rest ∧ sys.Run s before middle ∧
      sys.permits middle op ∧ value (sys.next middle op) ≠ value middle := by
  induction h with
  | nil s => exact absurd rfl hne
  | @cons s after op ops permitted tail ih =>
      by_cases hsame : value (sys.next s op) = value s
      · rw [← hsame] at hne
        obtain ⟨before, other, rest, middle, rfl, hrun, hpermitted, hchange⟩ := ih hne
        exact ⟨op :: before, other, rest, middle, rfl, .cons permitted hrun, hpermitted, hchange⟩
      · exact ⟨[], op, ops, s, rfl, .nil s, permitted, hsame⟩

/-- The states that a sequence of operations leads through, from the first to the
last one. -/
def states (sys : System State Op) (s : State) : List Op → List State
  | [] => [s]
  | op :: ops => s :: sys.states (sys.next s op) ops

theorem mem_states_self (s : State) (ops : List Op) : s ∈ sys.states s ops := by
  cases ops <;> exact List.mem_cons_self

/-- A run leads through its end, also when it goes on behind it. -/
theorem Run.mem_states_append {s after : State} {ops : List Op} (h : sys.Run s ops after)
    (more : List Op) : after ∈ sys.states s (ops ++ more) := by
  induction h with
  | nil s => exact mem_states_self s more
  | cons permitted tail ih => exact List.mem_cons_of_mem _ ih

theorem Run.mem_states {s after : State} {ops : List Op} (h : sys.Run s ops after) :
    after ∈ sys.states s ops := by
  have hmem := h.mem_states_append []
  rwa [List.append_nil] at hmem

/-- What every permitted operation keeps holds in all states of a run if it holds in
the first one. -/
theorem Run.forall_states (Inv : State → Prop)
    (hstep : ∀ s op, sys.permits s op → Inv s → Inv (sys.next s op))
    {s after : State} {ops : List Op} (h : sys.Run s ops after) (hs : Inv s) :
    ∀ state ∈ sys.states s ops, Inv state := by
  induction h with
  | nil s =>
      intro state hmem
      obtain rfl := List.mem_singleton.mp hmem
      exact hs
  | cons permitted tail ih =>
      intro state hmem
      rcases List.mem_cons.mp hmem with rfl | hlater
      · exact hs
      · exact ih (hstep _ _ permitted hs) state hlater

/-- A number that no permitted operation lowers is never lower in a later state of a
run than in an earlier one. -/
theorem Run.pairwise_states (Inv : State → Prop)
    (hstep : ∀ s op, sys.permits s op → Inv s → Inv (sys.next s op)) (value : State → Nat)
    (hvalue : ∀ s op, sys.permits s op → Inv s → value s ≤ value (sys.next s op))
    {s after : State} {ops : List Op} (h : sys.Run s ops after) (hs : Inv s) :
    ((sys.states s ops).map value).Pairwise (· ≤ ·) := by
  induction h with
  | nil s => exact List.pairwise_singleton _ _
  | @cons s after op ops permitted tail ih =>
      have hrest := ih (hstep _ _ permitted hs)
      have hfirst := hvalue _ _ permitted hs
      refine List.pairwise_cons.mpr ⟨?_, hrest⟩
      intro later hlater
      cases ops with
      | nil =>
          obtain rfl := List.mem_singleton.mp hlater
          exact hfirst
      | cons next ops =>
          rcases List.mem_cons.mp hlater with rfl | hlater
          · exact hfirst
          · exact Nat.le_trans hfirst (List.rel_of_pairwise_cons hrest hlater)

/-- A number that every permitted operation raises to the value of its result, if that is
larger, is in the end the greatest value of all states of a run. -/
theorem Run.isGreatest_states (Inv : State → Prop)
    (hstep : ∀ s op, sys.permits s op → Inv s → Inv (sys.next s op)) (peak value : State → Nat)
    (hpeak : ∀ s op, sys.permits s op → Inv s →
      peak (sys.next s op) = max (peak s) (value (sys.next s op)))
    {s after : State} {ops : List Op} (h : sys.Run s ops after) (hs : Inv s)
    (hstart : peak s = value s) :
    IsGreatest {n | ∃ state ∈ sys.states s ops, value state = n} (peak after) := by
  -- a later part of the run may start below the number, which then stems from before
  have hpart : value s ≤ peak s →
      (peak after = peak s ∨ ∃ state ∈ sys.states s ops, value state = peak after) ∧
        peak s ≤ peak after ∧ ∀ state ∈ sys.states s ops, value state ≤ peak after := by
    clear hstart
    induction h with
    | nil s =>
        intro hle
        refine ⟨.inl rfl, Nat.le_refl _, fun state hmem => ?_⟩
        obtain rfl := List.mem_singleton.mp hmem
        exact hle
    | @cons s after op ops permitted tail ih =>
        intro hle
        have hmax := hpeak s op permitted hs
        have hnext : value (sys.next s op) ≤ peak (sys.next s op) := by
          rw [hmax]
          exact le_max_right _ _
        have hgrown : peak s ≤ peak (sys.next s op) := by
          rw [hmax]
          exact le_max_left _ _
        obtain ⟨hreached, hlater, hall⟩ := ih (hstep s op permitted hs) hnext
        have hfirst := Nat.le_trans hgrown hlater
        refine ⟨?_, hfirst, fun state hmem => ?_⟩
        · rcases hreached with hsame | ⟨state, hmem, hvalue⟩
          · rw [hmax] at hsame
            rcases max_choice (peak s) (value (sys.next s op)) with hold | hnew
            · exact .inl (hsame.trans hold)
            · refine .inr ⟨_, List.mem_cons_of_mem _ (mem_states_self _ ops), ?_⟩
              exact (hsame.trans hnew).symm
          · exact .inr ⟨state, List.mem_cons_of_mem _ hmem, hvalue⟩
        · rcases List.mem_cons.mp hmem with rfl | hmem
          · exact Nat.le_trans hle hfirst
          · exact hall state hmem
  obtain ⟨hreached, -, hall⟩ := hpart (Nat.le_of_eq hstart.symm)
  constructor
  · rcases hreached with hsame | hpeak
    · exact ⟨s, mem_states_self s ops, hstart.symm.trans hsame.symm⟩
    · exact hpeak
  · rintro n ⟨state, hmem, rfl⟩
    exact hall state hmem

/-- The same system, when more is promised about its operations. -/
def within (sys : System State Op) (holds : State → Op → Prop) : System State Op where
  permits s op := sys.permits s op ∧ holds s op
  next := sys.next

/-- A run with more promises is a run with fewer. -/
theorem Run.of_within {holds : State → Op → Prop} {s after : State} {ops : List Op}
    (h : (sys.within holds).Run s ops after) : sys.Run s ops after := by
  induction h with
  | nil s => exact .nil s
  | cons permitted tail ih => exact .cons permitted.1 ih

end System

end RegionGuard
