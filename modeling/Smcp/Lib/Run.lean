import Mathlib.Data.List.Infix
import Mathlib.Logic.Function.Iterate
import Mathlib.Tactic.Tauto

/-!
# Runs

Runs of a deterministic machine given by a list of operations, and runs of a machine whose
operations call back into the program that drives it.

* `AllStates` and `AllSteps` speak about the states of a run and the steps it takes;
  `allStates_iff_allSteps` reduces "the property holds in every state exactly when every step
  meets the condition" to one step.
* `Reaches` is the reachability relation of a re-entrant machine: an operation is executed with
  hooks, which in turn act by executing operations. `Reaches.rel` is its induction rule: a
  reflexive and transitive relation that one operation keeps, provided the hooks do, relates
  every state to the states it reaches. `ReachesIf` is for runs whose operations meet a condition.
* `Along` is for histories: every event is fine, given what came before it.
* `Halts` is for a deterministic machine without input: `halts_iff_never_stuck` reduces "it halts
  exactly when it never gets stuck" to one step.
-/

namespace Run

/-! ## Lists of operations -/

section
variable {σ ο : Type*} (exec : ο → σ → σ)

/-- The property holds in every state of the run, the first and the last included. -/
def AllStates (P : σ → Prop) : σ → List ο → Prop
  | s, [] => P s
  | s, op :: ops => P s ∧ AllStates P (exec op s) ops

/-- Every step of the run meets the condition, which is about the state before it. -/
def AllSteps (C : ο → σ → Prop) : σ → List ο → Prop
  | _, [] => True
  | s, op :: ops => C op s ∧ AllSteps C (exec op s) ops

variable {exec}

/-- If the condition makes a step keep an invariant that implies the property, and no step without
it keeps the property, then the property holds throughout exactly under the condition. -/
theorem allStates_iff_allSteps (Inv : σ → Prop) {P : σ → Prop} {C : ο → σ → Prop}
    (hP : ∀ s, Inv s → P s) (hkeep : ∀ s op, Inv s → C op s → Inv (exec op s))
    (hneeds : ∀ s op, Inv s → P (exec op s) → C op s) {s : σ} (h : Inv s) (ops : List ο) :
    AllStates exec P s ops ↔ AllSteps exec C s ops := by
  induction ops generalizing s with
  | nil => exact ⟨fun _ => trivial, fun _ => hP s h⟩
  | cons op ops ih =>
    constructor
    · rintro ⟨-, hrest⟩
      have hnext : P (exec op s) := by
        cases ops with
        | nil => exact hrest
        | cons op' ops => exact hrest.1
      have hc : C op s := hneeds s op h hnext
      exact ⟨hc, (ih (hkeep s op h hc)).1 hrest⟩
    · rintro ⟨hc, hrest⟩
      exact ⟨hP s h, (ih (hkeep s op h hc)).2 hrest⟩

/-- A property of single steps holds in a run whose steps all meet a condition that it follows
from. -/
theorem AllSteps.imp {C P : ο → σ → Prop} (himp : ∀ op s, C op s → P op s) {s : σ} {ops : List ο}
    (h : AllSteps exec C s ops) : AllSteps exec P s ops := by
  induction ops generalizing s with
  | nil => trivial
  | cons op ops ih => exact ⟨himp op s h.1, ih h.2⟩

end

/-! ## Re-entrant machines -/

section
variable {σ ο κ ρ : Type*} (exec : (κ → σ → σ × ρ) → ο → σ → σ)

/-- `Reaches s t`: from `s` the machine gets to `t` by operations whose hooks do nothing but
operations. -/
inductive Reaches : σ → σ → Prop
  | refl (s : σ) : Reaches s s
  | step {s t : σ} (h : Reaches s t) (hooks : κ → σ → σ × ρ)
      (hhooks : ∀ c u, Reaches u (hooks c u).1) (op : ο) : Reaches s (exec hooks op t)

variable {exec}

/-- The induction rule. -/
theorem Reaches.rel {R : σ → σ → Prop} (hrefl : ∀ s, R s s)
    (htrans : ∀ s t u, R s t → R t u → R s u)
    (hstep : ∀ hooks op s, (∀ c u, R u (hooks c u).1) → R s (exec hooks op s)) {s t : σ}
    (h : Reaches exec s t) : R s t := by
  induction h with
  | refl s => exact hrefl s
  | step _ hooks _ op ih ihhooks => exact htrans _ _ _ ih (hstep hooks op _ ihhooks)

theorem Reaches.trans {s t u : σ} (h : Reaches exec s t) (h' : Reaches exec t u) :
    Reaches exec s u := by
  induction h' with
  | refl t => exact h
  | step _ hooks hhooks op ih => exact (ih h).step hooks hhooks op

variable (exec) in
/-- The same, by operations that meet a condition on the state they start in. -/
inductive ReachesIf (C : ο → σ → Prop) : σ → σ → Prop
  | refl (s : σ) : ReachesIf C s s
  | step {s t : σ} (h : ReachesIf C s t) (hooks : κ → σ → σ × ρ)
      (hhooks : ∀ c u, ReachesIf C u (hooks c u).1) (op : ο) (hop : C op t) :
      ReachesIf C s (exec hooks op t)

theorem ReachesIf.rel {C : ο → σ → Prop} {R : σ → σ → Prop} (hrefl : ∀ s, R s s)
    (htrans : ∀ s t u, R s t → R t u → R s u)
    (hstep : ∀ hooks op s, (∀ c u, R u (hooks c u).1) → C op s → R s (exec hooks op s)) {s t : σ}
    (h : ReachesIf exec C s t) : R s t := by
  induction h with
  | refl s => exact hrefl s
  | step _ hooks _ op hop ih ihhooks => exact htrans _ _ _ ih (hstep hooks op _ ihhooks hop)

variable (exec) in
/-- Do a list of operations, always with the same hooks. -/
def execAll (hooks : κ → σ → σ × ρ) (ops : List ο) (s : σ) : σ :=
  ops.foldl (fun s op => exec hooks op s) s

theorem Reaches.execAll {hooks : κ → σ → σ × ρ} (hhooks : ∀ c u, Reaches exec u (hooks c u).1)
    {s t : σ} (h : Reaches exec s t) (ops : List ο) :
    Reaches exec s (execAll exec hooks ops t) := by
  induction ops generalizing t with
  | nil => exact h
  | cons op ops ih => exact ih (h.step hooks hhooks op)

theorem ReachesIf.execAll {C : ο → σ → Prop} {hooks : κ → σ → σ × ρ}
    (hhooks : ∀ c u, ReachesIf exec C u (hooks c u).1) {s t : σ} (h : ReachesIf exec C s t)
    {ops : List ο} (hops : AllSteps (exec hooks) C t ops) :
    ReachesIf exec C s (execAll exec hooks ops t) := by
  induction ops generalizing t with
  | nil => exact h
  | cons op ops ih => exact ih (h.step hooks hhooks op hops.1) hops.2

end

/-! ## Histories -/

section
variable {ε : Type*} {P Q : ε → List ε → Prop}

/-- Every event of the history, newest first, satisfies `P` with what came before it. -/
def Along (P : ε → List ε → Prop) : List ε → Prop
  | [] => True
  | e :: earlier => P e earlier ∧ Along P earlier

theorem along_iff (l : List ε) : Along P l ↔ ∀ e earlier, e :: earlier <:+ l → P e earlier := by
  induction l with
  | nil =>
    simp only [Along, true_iff]
    intro e earlier hsuffix
    exact absurd (List.suffix_nil.1 hsuffix) (List.cons_ne_nil e earlier)
  | cons e l ih =>
    rw [Along, ih]
    constructor
    · intro h e' earlier hsuffix
      rcases List.suffix_cons_iff.1 hsuffix with heq | hbefore
      · obtain ⟨rfl, rfl⟩ := List.cons.inj heq
        exact h.1
      · exact h.2 e' earlier hbefore
    · intro h
      exact ⟨h e l (List.suffix_refl _), fun e' earlier hbefore =>
        h e' earlier (hbefore.trans (List.suffix_cons e l))⟩

/-- New events that satisfy `P` whatever came before them. -/
theorem along_append {es : List ε} (hes : ∀ e ∈ es, ∀ earlier, P e earlier) (l : List ε) :
    Along P (es ++ l) ↔ Along P l := by
  induction es with
  | nil => rfl
  | cons e es ih =>
    rw [List.cons_append, Along, ih fun e' he' => hes e' (List.mem_cons_of_mem e he')]
    exact and_iff_right (hes e List.mem_cons_self _)

/-- What the newest event says that says something, or the default if none does. -/
def lastSaid {α : Type*} (say : ε → Option α) (default : α) (events : List ε) : α :=
  (events.findSome? say).getD default

/-- New events count first, the older ones where they say nothing. -/
theorem lastSaid_append {α : Type*} (say : ε → Option α) (default : α) (es events : List ε) :
    lastSaid say default (es ++ events) = lastSaid say (lastSaid say default events) es := by
  unfold lastSaid
  rw [List.findSome?_append]
  cases es.findSome? say with
  | none => rfl
  | some a => rfl

/-- Events that say nothing. -/
theorem lastSaid_of_none {α : Type*} {say : ε → Option α} {es : List ε}
    (hes : ∀ e ∈ es, say e = none) (default : α) : lastSaid say default es = default := by
  unfold lastSaid
  rw [List.findSome?_eq_none_iff.2 hes]
  rfl

end

/-! ## Machines without input -/

section
variable {σ : Type*} {step : σ → σ} {Done Stuck : σ → Prop}

/-- The machine comes to an end. -/
def Halts (step : σ → σ) (Done : σ → Prop) (s : σ) : Prop := ∃ n, Done (step^[n] s)

theorem stuck_iterate (hstuck : ∀ s, Stuck s → Stuck (step s)) {s : σ} (h : Stuck s) (n : ℕ) :
    Stuck (step^[n] s) := by
  induction n with
  | zero => exact h
  | succ n ih =>
    rw [Function.iterate_succ_apply']
    exact hstuck _ ih

theorem done_iterate (hdone : ∀ s, Done s → step s = s) {s : σ} (h : Done s) (n : ℕ) :
    step^[n] s = s := by
  induction n with
  | zero => rfl
  | succ n ih => rw [Function.iterate_succ_apply, hdone s h, ih]

/-- A machine that gets on with each step comes to an end, within as many steps as the measure
says. -/
theorem halts_within (measure : σ → ℕ)
    (hless : ∀ s, ¬Done s → ¬Stuck s → measure (step s) < measure s) {s : σ}
    (h : ∀ n, ¬Stuck (step^[n] s)) : ∃ n ≤ measure s, Done (step^[n] s) := by
  induction hm : measure s using Nat.strong_induction_on generalizing s with
  | _ m ih =>
    by_cases hfirst : Done s
    · exact ⟨0, Nat.zero_le m, hfirst⟩
    · have hlt : measure (step s) < m := hm ▸ hless s hfirst (h 0)
      have hnext (n : ℕ) : ¬Stuck (step^[n] (step s)) := by
        rw [← Function.iterate_succ_apply]
        exact h (n + 1)
      obtain ⟨n, hn, hend⟩ := ih _ hlt hnext rfl
      exact ⟨n + 1, by omega, by rwa [Function.iterate_succ_apply]⟩

/-- A machine that stays stuck once it is does not halt then. -/
theorem Halts.never_stuck (hdone : ∀ s, Done s → step s = s)
    (hstuck : ∀ s, Stuck s → Stuck (step s)) (hnot : ∀ s, Stuck s → ¬Done s) {s : σ}
    (h : Halts step Done s) (k : ℕ) : ¬Stuck (step^[k] s) := by
  intro hk
  obtain ⟨n, hend⟩ := h
  -- after `n + k` steps it is both
  have hlate : Stuck (step^[n] (step^[k] s)) := stuck_iterate hstuck hk n
  rw [← Function.iterate_add_apply, Nat.add_comm, Function.iterate_add_apply,
    done_iterate hdone hend] at hlate
  exact hnot _ hlate hend

/-- If it also gets on with each other step, then it halts exactly when it never gets stuck. -/
theorem halts_iff_never_stuck (measure : σ → ℕ) (hdone : ∀ s, Done s → step s = s)
    (hstuck : ∀ s, Stuck s → Stuck (step s)) (hnot : ∀ s, Stuck s → ¬Done s)
    (hless : ∀ s, ¬Done s → ¬Stuck s → measure (step s) < measure s) (s : σ) :
    Halts step Done s ↔ ∀ n, ¬Stuck (step^[n] s) := by
  constructor
  · exact fun h => h.never_stuck hdone hstuck hnot
  · intro h
    obtain ⟨n, -, hend⟩ := halts_within measure hless h
    exact ⟨n, hend⟩

end

end Run
