import Smcp.Lib.IndexList
import Smcp.Transaction.Runs

/-!
# The observer table in every run

The lists of the observables in the observer table, against the history of registrations.

`reachable_observerTable`: the lists hold the registered observers, and the other entries are free,
in every run in which an observer is released only while it is the only one of its observable, and
in which every request that registers an observer can be kept.
-/

namespace Smcp

open IndexList Run

/-- The observers that are registered with the observable, in the order of their registration. -/
def registeredWith (context : ℕ) : List ObserverEvent → List ℕ
  | [] => []
  | .registered context' i _ :: earlier =>
    if context' = context then registeredWith context earlier ++ [i]
    else registeredWith context earlier
  | .renewed _ _ :: earlier => registeredWith context earlier
  | .released context' i _ _ :: earlier =>
    if context' = context then (registeredWith context earlier).filter fun j => j ≠ i
    else registeredWith context earlier

/-- The event leaves the table in order: the request of an observer is kept, and an observer that is
released was the only one. -/
def ObserverEvent.KeepsTable : ObserverEvent → Prop
  | .registered _ _ requestLen => 0 < requestLen ∧ requestLen ≤ asyncRequestSize
  | .renewed _ requestLen => 0 < requestLen
  | .released _ i first last => first = i + 1 ∧ last = i + 1

/-- The transaction of an observer that ends takes no other one out of the store. -/
def Event.EndsOwn : Event → Prop
  | .ended (.observer i) (some x) => x = .observer i
  | _ => True

/-! ## One step -/

/-- The lists of the observables hold the registered observers, and the other entries are free. -/
structure ObserverState.Ok (o : ObserverState) (active : ℕ → Bool) : Prop where
  chain : ∀ context,
    Chain (fun i => (o.link i).next) (o.first context) (registeredWith context o.events)
  last_eq : ∀ context, o.last context = lastIndex (registeredWith context o.events)
  nodup : ∀ context, (registeredWith context o.events).Nodup
  lt_max : ∀ context, ∀ i ∈ registeredWith context o.events, i < smcpMaxObservers
  disjoint : ∀ context context', context ≠ context' →
    ∀ i ∈ registeredWith context o.events, i ∉ registeredWith context' o.events
  linked : ∀ context, ∀ i ∈ registeredWith context o.events,
    (o.link i).requestLen ≠ 0 ∧ (o.link i).observable ≠ none
  free : ∀ i, i < smcpMaxObservers → (∀ context, i ∉ registeredWith context o.events) →
    o.unused active i

namespace ObserverState.Ok

variable {o : ObserverState} {active : ℕ → Bool} {c : Core}

/-- An entry that an index leads to is registered. -/
theorem mem_of_pointsTo (h : o.Ok active) {i : ℕ} (hpoints : o.PointsTo i) :
    ∃ context, i ∈ registeredWith context o.events := by
  rcases hpoints with ⟨context, hfirst⟩ | ⟨j, hj, hnext⟩
  · have hchain := h.chain context
    rw [hfirst] at hchain
    obtain ⟨rest, hrest⟩ := hchain.eq_cons
    exact ⟨context, by rw [hrest]; exact List.mem_cons_self⟩
  · by_cases hmem : ∃ context, j ∈ registeredWith context o.events
    · obtain ⟨context, hmem⟩ := hmem
      exact ⟨context, (h.chain context).next_mem hmem hnext⟩
    · have hzero := (h.free j hj (not_exists.1 hmem)).2.1
      omega

/-- An unused entry is not registered. -/
theorem notMem_of_unused (h : o.Ok active) {i : ℕ} (hunused : o.unused active i) (context : ℕ) :
    i ∉ registeredWith context o.events :=
  fun hmem => (h.linked context i hmem).1 hunused.1

theorem last_mem (h : o.Ok active) {context : ℕ} (hlast : o.last context ≠ 0) :
    (o.last context - 1).toNat ∈ registeredWith context o.events := by
  rw [h.last_eq] at hlast ⊢
  generalize registeredWith context o.events = l at hlast ⊢
  cases l using List.reverseRecOn with
  | nil => exact absurd lastIndex_nil hlast
  | append_singleton init j => simp

/-- Only a registered observer can become active. -/
theorem activate (h : o.Ok active) {active' : ℕ → Bool}
    (hactive : ∀ i, active' i = true → active i = true ∨ o.PointsTo i) : o.Ok active' where
  chain := h.chain
  last_eq := h.last_eq
  nodup := h.nodup
  lt_max := h.lt_max
  disjoint := h.disjoint
  linked := h.linked
  free i hi hnot := by
    obtain ⟨hlen, hnext, hinactive⟩ := h.free i hi hnot
    refine ⟨hlen, hnext, ?_⟩
    rw [← Bool.not_eq_true]
    intro htrue
    rcases hactive i htrue with hbefore | hpoints
    · rw [hinactive] at hbefore
      exact Bool.false_ne_true hbefore
    · obtain ⟨context, hmem⟩ := h.mem_of_pointsTo hpoints
      exact hnot context hmem

end ObserverState.Ok

namespace ObserverState

variable (o : ObserverState) (context i requestLen : ℕ)

/-- The links after a registration. -/
theorem next_register :
    (fun j => ((o.register context i requestLen).link j).next) =
      if o.last context = 0 then fun j => (o.link j).next
      else Function.update (fun j => (o.link j).next) (o.last context - 1).toNat (i + 1) := by
  funext j
  unfold register
  dsimp only
  split_ifs with hlast
  · by_cases hj : j = i
    · rw [hj, Function.update_self]
    · rw [Function.update_of_ne hj]
  · by_cases hj : j = i
    · rw [hj, Function.update_self]
      by_cases hi : i = (o.last context - 1).toNat
      · rw [← hi, Function.update_self, Function.update_self]
      · rw [Function.update_of_ne hi, Function.update_of_ne hi]
    · rw [Function.update_of_ne hj]
      by_cases hlink : j = (o.last context - 1).toNat
      · rw [← hlink, Function.update_self, Function.update_self]
      · rw [Function.update_of_ne hlink, Function.update_of_ne hlink]

/-- The rest of an entry after a registration. -/
theorem link_register (j : ℕ) :
    ((o.register context i requestLen).link j).observable =
        (if j = i then some context else (o.link j).observable) ∧
      ((o.register context i requestLen).link j).requestLen =
        if j = i then startedLen requestLen (o.link i).requestLen else (o.link j).requestLen := by
  -- the link behind the last entry is the one that changes, beside the entry itself
  have hlink (k : ℕ) :
      ((if o.last context = 0 then o.link
        else Function.update o.link (o.last context - 1).toNat
          { o.link (o.last context - 1).toNat with next := i + 1 }) k).observable =
          (o.link k).observable ∧
        ((if o.last context = 0 then o.link
        else Function.update o.link (o.last context - 1).toNat
          { o.link (o.last context - 1).toNat with next := i + 1 }) k).requestLen =
          (o.link k).requestLen := by
    split_ifs
    · exact ⟨rfl, rfl⟩
    · by_cases hk : k = (o.last context - 1).toNat
      · rw [← hk, Function.update_self]
        exact ⟨rfl, rfl⟩
      · rw [Function.update_of_ne hk]
        exact ⟨rfl, rfl⟩
  unfold register
  dsimp only
  -- the entry itself is written last
  by_cases hj : j = i
  · rw [hj, Function.update_self, if_pos rfl, if_pos rfl, (hlink i).2]
    exact ⟨rfl, rfl⟩
  · rw [Function.update_of_ne hj, if_neg hj, if_neg hj]
    exact hlink j

theorem registeredWith_register (context' : ℕ) :
    registeredWith context' (o.register context i requestLen).events =
      if context = context' then registeredWith context' o.events ++ [i]
      else registeredWith context' o.events := rfl

theorem mem_registeredWith_register (context' j : ℕ) :
    j ∈ registeredWith context' (o.register context i requestLen).events ↔
      j ∈ registeredWith context' o.events ∨ context = context' ∧ j = i := by
  rw [registeredWith_register]
  by_cases hc : context = context' <;> simp [hc]

end ObserverState

section
variable {o o' : ObserverState} {active : ℕ → Bool} {c : Core} {i context requestLen : ℕ}

/-- The list of the observable after a registration. -/
theorem ObserverState.Ok.chain_register (h : o.Ok active) (hunused : o.unused active i) :
    Chain (fun j => ((o.register context i requestLen).link j).next)
      ((o.register context i requestLen).first context)
      (registeredWith context o.events ++ [i]) := by
  have hfirst : (o.register context i requestLen).first context =
      if o.last context = 0 then (i : ℤ) + 1 else o.first context := Function.update_self _ _ _
  have hchain := h.chain context
  have hnodup := h.nodup context
  have hnot := h.notMem_of_unused hunused context
  have hlast := h.last_eq context
  rw [ObserverState.next_register, hfirst]
  generalize registeredWith context o.events = l at hchain hnodup hnot hlast ⊢
  -- an empty list gets its first entry, another one gets an entry behind the last
  cases l using List.reverseRecOn with
  | nil =>
    rw [lastIndex_nil] at hlast
    rw [if_pos hlast, if_pos hlast]
    exact ⟨rfl, hunused.2.1⟩
  | append_singleton init j =>
    rw [lastIndex_snoc] at hlast
    have hne : ¬o.last context = 0 := by omega
    have hindex : (o.last context - 1).toNat = j := by omega
    rw [if_neg hne, if_neg hne, hindex, List.append_assoc]
    refine hchain.snoc ?_ ?_ hunused.2.1
    · intro hmem
      exact (List.nodup_append.1 hnodup).2.2 j hmem j (List.mem_singleton_self j) rfl
    · rintro rfl
      exact hnot (by simp)

/-- The other lists after a registration. -/
theorem ObserverState.Ok.chain_register_of_ne (h : o.Ok active) {context' : ℕ}
    (hne : context ≠ context') :
    Chain (fun j => ((o.register context i requestLen).link j).next)
      ((o.register context i requestLen).first context') (registeredWith context' o.events) := by
  have hfirst : (o.register context i requestLen).first context' = o.first context' :=
    Function.update_of_ne (Ne.symm hne) _ _
  rw [ObserverState.next_register, hfirst]
  refine (h.chain context').congr fun j hj => ?_
  split_ifs with hlast
  · rfl
  · -- the last one of the other list is not in this one
    refine Function.update_of_ne ?_ _ _
    rintro rfl
    exact h.disjoint context context' hne _ (h.last_mem hlast) hj

theorem ObserverState.Ok.register (h : o.Ok active) (hi : i < smcpMaxObservers)
    (hunused : o.unused active i) (hlen : 0 < requestLen ∧ requestLen ≤ asyncRequestSize) :
    (o.register context i requestLen).Ok active := by
  have hnot := h.notMem_of_unused hunused
  have hstarted : startedLen requestLen (o.link i).requestLen = requestLen := by
    unfold startedLen
    rw [if_neg (by omega)]
  refine ⟨fun context' => ?_, fun context' => ?_, fun context' => ?_, fun context' j hj => ?_, ?_,
    fun context' j hj => ?_, fun j hj hfree => ?_⟩
  -- the chain, the last entry, the numbers of the entries, and the lists of the others
  · rw [ObserverState.registeredWith_register]
    split_ifs with hc
    · subst hc
      exact h.chain_register hunused
    · exact h.chain_register_of_ne hc
  · rw [ObserverState.registeredWith_register]
    split_ifs with hc
    · subst hc
      rw [lastIndex_snoc]
      exact Function.update_self _ _ _
    · rw [← h.last_eq context']
      exact Function.update_of_ne (Ne.symm hc) _ _
  · rw [ObserverState.registeredWith_register]
    split_ifs
    · rw [List.nodup_append]
      refine ⟨h.nodup context', List.nodup_singleton i, ?_⟩
      intro j hj k hk heq
      rw [heq, List.mem_singleton.1 hk] at hj
      exact hnot context' hj
    · exact h.nodup context'
  · rcases (o.mem_registeredWith_register context i requestLen context' j).1 hj with hj | ⟨-, rfl⟩
    · exact h.lt_max context' j hj
    · exact hi
  · intro context' context'' hne j hj hj'
    rw [ObserverState.mem_registeredWith_register] at hj hj'
    rcases hj with hj | ⟨rfl, rfl⟩
    · rcases hj' with hj' | ⟨-, rfl⟩
      · exact h.disjoint context' context'' hne j hj hj'
      · exact hnot context' hj
    · rcases hj' with hj' | ⟨heq, -⟩
      · exact hnot context'' hj'
      · exact hne heq
  · obtain ⟨hobservable, hrequest⟩ := o.link_register context i requestLen j
    rw [hobservable, hrequest, hstarted]
    by_cases heq : j = i
    · rw [if_pos heq, if_pos heq]
      exact ⟨by omega, Option.some_ne_none _⟩
    · rw [if_neg heq, if_neg heq]
      rcases (o.mem_registeredWith_register context i requestLen context' j).1 hj with hj | ⟨-, hj⟩
      · exact h.linked context' j hj
      · exact absurd hj heq
  · have hne : j ≠ i := fun heq =>
      hfree context ((o.mem_registeredWith_register context i requestLen context j).2 (.inr ⟨rfl, heq⟩))
    have hbefore : ∀ context', j ∉ registeredWith context' o.events := fun context' hmem =>
      hfree context' ((o.mem_registeredWith_register context i requestLen context' j).2 (.inl hmem))
    obtain ⟨hlen, hnext, hinactive⟩ := h.free j hj hbefore
    refine ⟨?_, ?_, hinactive⟩
    · rw [(o.link_register context i requestLen j).2, if_neg hne]
      exact hlen
    · have heq := congrFun (o.next_register context i requestLen) j
      rw [heq]
      split_ifs with hlast
      · exact hnext
      · -- a free entry is not the last one of a list
        rw [Function.update_of_ne]
        · exact hnext
        · rintro rfl
          exact hbefore context (h.last_mem hlast)

/-- The request of an entry is set to another length. -/
theorem ObserverState.Ok.setRequestLen (h : o.Ok active) (n : ℕ) {o' : ObserverState}
    (hlink : o'.link = Function.update o.link i { o.link i with requestLen := n })
    (hfirst : o'.first = o.first) (hlast : o'.last = o.last)
    (hevents : ∀ context, registeredWith context o'.events = registeredWith context o.events)
    (hlinked : ∀ context, i ∈ registeredWith context o.events → n ≠ 0)
    (hfree : (∀ context, i ∉ registeredWith context o.events) → n = 0) : o'.Ok active := by
  -- neither the links nor the lists depend on the length of a request
  have hnext (j : ℕ) : (o'.link j).next = (o.link j).next := by
    rw [hlink]
    by_cases hj : j = i
    · rw [hj, Function.update_self]
    · rw [Function.update_of_ne hj]
  refine ⟨fun context => ?_, fun context => ?_, fun context => ?_, fun context => ?_, ?_,
    fun context j hj => ?_, fun j hj hnot => ?_⟩
  · rw [hevents, hfirst]
    exact (h.chain context).congr fun j _ => hnext j
  · rw [hevents, hlast]
    exact h.last_eq context
  · rw [hevents]
    exact h.nodup context
  · rw [hevents]
    exact h.lt_max context
  · intro context context' hne
    rw [hevents, hevents]
    exact h.disjoint context context' hne
  · rw [hevents] at hj
    obtain ⟨hlen, hobservable⟩ := h.linked context j hj
    rw [hlink]
    by_cases hji : j = i
    · subst hji
      rw [Function.update_self]
      exact ⟨hlinked context hj, hobservable⟩
    · rw [Function.update_of_ne hji]
      exact ⟨hlen, hobservable⟩
  · have hbefore (context : ℕ) : j ∉ registeredWith context o.events := by
      rw [← hevents]
      exact hnot context
    obtain ⟨hlen, hzero, hinactive⟩ := h.free j hj hbefore
    refine ⟨?_, (hnext j).trans hzero, hinactive⟩
    rw [hlink]
    by_cases hji : j = i
    · subst hji
      rw [Function.update_self]
      exact hfree hbefore
    · rw [Function.update_of_ne hji]
      exact hlen

theorem ObserverState.Ok.renew (h : o.Ok active) (hpoints : o.PointsTo i) (hlen : 0 < requestLen) :
    (o.renew i requestLen).Ok active := by
  obtain ⟨context, hmem⟩ := h.mem_of_pointsTo hpoints
  refine h.setRequestLen (startedLen requestLen (o.link i).requestLen) rfl rfl rfl (fun _ => rfl)
    (fun context' hmem' => ?_) fun hnot => absurd hmem (hnot context)
  unfold startedLen
  split_ifs
  · exact (h.linked context' i hmem').1
  · omega

theorem ObserverState.Ok.forget (h : o.Ok active) (hnone : (o.link i).observable = none) :
    (o.forget i).Ok active :=
  h.setRequestLen 0 rfl rfl rfl (fun _ => rfl)
    (fun context hmem => absurd hnone (h.linked context i hmem).2) fun _ => rfl

/-- The only observer of an observable is released. -/
theorem ObserverState.Ok.release (h : o.Ok active) (hinactive : active i = false)
    (hfirst : o.first context = i + 1) (hlast : o.last context = i + 1) :
    ({ (o.releaseOnly context).forget i with
      events := .released context i (o.first context) (o.last context) :: o.events } :
        ObserverState).Ok active := by
  -- the list has one entry
  have honly : registeredWith context o.events = [i] := by
    have hchain := h.chain context
    have hnodup := h.nodup context
    have hlist := h.last_eq context
    rw [hfirst] at hchain
    rw [hlast] at hlist
    obtain ⟨rest, hrest⟩ := hchain.eq_cons
    rw [hrest] at hnodup hlist ⊢
    cases rest using List.reverseRecOn with
    | nil => rfl
    | append_singleton init j =>
      rw [← List.cons_append, lastIndex_snoc] at hlist
      have hj : j = i := by omega
      rw [hj, List.nodup_cons] at hnodup
      exact absurd (by simp) hnodup.1
  have hzero : (o.link i).next = 0 := by
    have hchain := h.chain context
    rw [honly] at hchain
    exact hchain.2
  have hnext (j : ℕ) : (((o.releaseOnly context).forget i).link j).next = (o.link j).next := by
    unfold ObserverState.forget ObserverState.releaseOnly
    dsimp only
    by_cases hj : j = i
    · rw [hj, Function.update_self]
    · rw [Function.update_of_ne hj]
  have hevents (context' : ℕ) :
      registeredWith context'
        (.released context i (o.first context) (o.last context) :: o.events) =
        if context = context' then [] else registeredWith context' o.events := by
    rw [registeredWith]
    split_ifs with hc
    · rw [← hc, honly]
      simp
    · rfl
  refine ⟨fun context' => ?_, fun context' => ?_, fun context' => ?_, fun context' => ?_, ?_,
    fun context' j hj => ?_, fun j hj hnot => ?_⟩
  · rw [hevents]
    split_ifs with hc
    · subst hc
      exact Function.update_self _ _ _
    · have hsame : ((o.releaseOnly context).forget i).first context' = o.first context' :=
        Function.update_of_ne (Ne.symm hc) _ _
      dsimp only
      rw [hsame]
      exact (h.chain context').congr fun j _ => hnext j
  · rw [hevents]
    split_ifs with hc
    · subst hc
      exact Function.update_self _ _ _
    · rw [← h.last_eq context']
      exact Function.update_of_ne (Ne.symm hc) _ _
  · rw [hevents]
    split_ifs
    · exact List.nodup_nil
    · exact h.nodup context'
  · rw [hevents]
    split_ifs
    · exact fun j hj => absurd hj List.not_mem_nil
    · exact h.lt_max context'
  · intro context' context'' hne j
    rw [hevents, hevents]
    split_ifs
    · exact fun hj => absurd hj List.not_mem_nil
    · exact fun hj => absurd hj List.not_mem_nil
    · exact fun _ => List.not_mem_nil
    · exact h.disjoint context' context'' hne j
  · rw [hevents] at hj
    split_ifs at hj with hc
    · exact absurd hj List.not_mem_nil
    · have hne : j ≠ i := by
        rintro rfl
        exact h.disjoint context context' hc j (by rw [honly]; exact List.mem_singleton_self j) hj
      have hlink : ((o.releaseOnly context).forget i).link j = o.link j := Function.update_of_ne hne _ _
      dsimp only
      rw [hlink]
      exact h.linked context' j hj
  · by_cases hji : j = i
    · subst hji
      have hlen : (((o.releaseOnly context).forget j).link j).requestLen = 0 := by
        unfold ObserverState.forget
        dsimp only
        rw [Function.update_self]
      exact ⟨hlen, (hnext j).trans hzero, hinactive⟩
    · have hbefore (context' : ℕ) : j ∉ registeredWith context' o.events := by
        have hnot := hnot context'
        rw [hevents] at hnot
        split_ifs at hnot with hc
        · rw [← hc, honly, List.mem_singleton]
          exact hji
        · exact hnot
      have hlink : ((o.releaseOnly context).forget i).link j = o.link j := Function.update_of_ne hji _ _
      obtain ⟨hlen, hnextj, hinactivej⟩ := h.free j hj hbefore
      exact ⟨(congrArg ObserverLink.requestLen hlink).trans hlen, (hnext j).trans hnextj, hinactivej⟩

theorem ObserverStep.ok (hstep : ObserverStep c o o') (h : o.Ok c.activeObservers)
    (hkeeps : ∀ e ∈ o'.events, e.KeepsTable) (hends : ∀ e ∈ c.events, e.EndsOwn) :
    o'.Ok c.activeObservers := by
  cases hstep with
  | register context i requestLen hi hunused =>
    exact h.register hi hunused (hkeeps (.registered context i requestLen) List.mem_cons_self)
  | renew i requestLen hi hpoints =>
    exact h.renew hpoints (hkeeps (.renewed i requestLen) List.mem_cons_self)
  | forget i hfree => exact h.forget hfree
  | release _ context i hended hevents honly =>
    have hsole : o.first context = i + 1 ∧ o.last context = i + 1 := by
      refine hkeeps (.released context i (o.first context) (o.last context)) ?_
      rw [hevents]
      exact List.mem_cons_self
    have hinactive : c.activeObservers i = false := by
      rcases hended with hinactive | ⟨x, hx, hevent⟩
      · exact hinactive
      · exact absurd (hends _ hevent) hx
    rw [honly hsole.1 hsole.2, hevents]
    exact h.release hinactive hsole.1 hsole.2

end

/-! ## Runs -/

/-- The observer table is in order. -/
def World.TableOk (w : World) : Prop := w.observers.Ok w.core.activeObservers

theorem ObserverStep.events_suffix {c : Core} {o o' : ObserverState} (h : ObserverStep c o o') :
    o.events <:+ o'.events := by
  cases h with
  | forget i hfree => exact List.suffix_refl _
  | release _ context i hended hevents honly =>
    rw [hevents]
    exact List.suffix_cons _ _
  | _ => exact List.suffix_cons _ o.events

theorem Act.tableOk {w w' : World} (hact : Act w w') (h : w.TableOk)
    (hkeeps : ∀ e ∈ w'.observers.events, e.KeepsTable) (hends : ∀ e ∈ w'.core.events, e.EndsOwn) :
    w'.TableOk := by
  cases hact with
  | core c hstep hactive => exact h.activate hactive
  | timers l hstep => exact h
  | dupes d hstep => exact h
  | observers o hstep => exact hstep.ok h hkeeps hends

theorem Act.events_suffix {w w' : World} (h : Act w w') :
    w.observers.events <:+ w'.observers.events ∧ w.core.events <:+ w'.core.events := by
  cases h with
  | core c hstep hactive => exact ⟨List.suffix_refl _, hstep.events_suffix⟩
  | timers l hstep => exact ⟨List.suffix_refl _, List.suffix_refl _⟩
  | dupes d hstep => exact ⟨List.suffix_refl _, List.suffix_refl _⟩
  | observers o hstep => exact ⟨hstep.events_suffix, List.suffix_refl _⟩

theorem Acts.tableOk {w w' : World} (hacts : Acts w w') (h : w.TableOk)
    (hkeeps : ∀ e ∈ w'.observers.events, e.KeepsTable) (hends : ∀ e ∈ w'.core.events, e.EndsOwn) :
    w'.TableOk := by
  induction hacts with
  | refl => exact h
  | tail _ hlast ih =>
    obtain ⟨hobservers, hcore⟩ := hlast.events_suffix
    exact hlast.tableOk (ih (fun e he => hkeeps e (hobservers.subset he))
      fun e he => hends e (hcore.subset he)) hkeeps hends

/-- The table of an instance: every list of an observable is finite, inside the table and without
repetitions, holds the registered observers and ends at `last_observer`; no entry is in two lists;
and `get_unused_observer_index` gives an entry that is in no list, whenever there is one. -/
structure ObserverTableOk (s : Instance) : Prop where
  chain : ∀ context, Chain (fun i => (s.observerTable i).next) (s.observables context).firstObserver
    (registeredWith context s.observerEvents)
  last_eq : ∀ context,
    (s.observables context).lastObserver = lastIndex (registeredWith context s.observerEvents)
  nodup : ∀ context, (registeredWith context s.observerEvents).Nodup
  lt_max : ∀ context, ∀ i ∈ registeredWith context s.observerEvents, i < smcpMaxObservers
  disjoint : ∀ context context', context ≠ context' →
    ∀ i ∈ registeredWith context s.observerEvents, i ∉ registeredWith context' s.observerEvents
  unused : ∀ i : ℕ, getUnusedObserverIndex s = i →
    i < smcpMaxObservers ∧ ∀ context, i ∉ registeredWith context s.observerEvents
  found : ∀ i, i < smcpMaxObservers → (∀ context, i ∉ registeredWith context s.observerEvents) →
    ∃ j : ℕ, j ≤ i ∧ getUnusedObserverIndex s = j

/-- The first entry that may be taken is the one that is taken. -/
theorem getUnusedObserverIndex_of_unused {s : Instance} {i : ℕ} (hi : i < smcpMaxObservers)
    (hunused : s.observerState.unused s.core.activeObservers i) :
    ∃ j : ℕ, j ≤ i ∧ getUnusedObserverIndex s = j := by
  unfold getUnusedObserverIndex
  cases hfind : (List.range smcpMaxObservers).find? fun i =>
      (s.observerTable i).asyncResponse.requestLen = 0 ∧ (s.observerTable i).next = 0 ∧
        s.store.active (.observer i) = false with
  | none =>
    rw [List.find?_eq_none] at hfind
    have hnot := hfind i (List.mem_range.2 hi)
    rw [decide_eq_true_eq] at hnot
    exact absurd hunused hnot
  | some j =>
    refine ⟨j, ?_, rfl⟩
    rw [List.find?_range_eq_some] at hfind
    by_contra hlt
    have hnot := hfind.2.2 i (by omega)
    simp only [Bool.not_eq_true', decide_eq_false_iff_not] at hnot
    exact hnot hunused

/-- The observer table in every run. -/
theorem reachable_observerTable {s : Instance} (hreach : Reachable s)
    (hkeeps : ∀ e ∈ s.observerEvents, e.KeepsTable) (hends : ∀ e ∈ s.events, e.EndsOwn) :
    ObserverTableOk s := by
  obtain ⟨now, random, sendResult, hacts⟩ := hreach.acts
  have hinit : (smcpCreate now random sendResult).world.TableOk := by
    refine ⟨fun _ => rfl, fun _ => rfl, fun _ => List.nodup_nil, ?_, ?_, ?_, ?_⟩
    · exact fun _ i hi => absurd hi List.not_mem_nil
    · exact fun _ _ _ i hi => absurd hi List.not_mem_nil
    · exact fun _ i hi => absurd hi List.not_mem_nil
    · exact fun _ _ _ => ⟨rfl, rfl, rfl⟩
  have hok : s.world.TableOk := hacts.tableOk hinit hkeeps hends
  refine ⟨hok.chain, hok.last_eq, hok.nodup, hok.lt_max, hok.disjoint, fun i hi => ?_,
    fun i hi hnot => getUnusedObserverIndex_of_unused hi (hok.free i hi hnot)⟩
  rcases getUnusedObserverIndex_spec s with hnone | ⟨j, hj, hlt, hunused⟩
  · omega
  · obtain rfl : j = i := by omega
    exact ⟨hlt, hok.notMem_of_unused hunused⟩

/-- An application whose resource is observable. -/
def observableHooks : Hooks
  | .request _, s => (execAll Op.exec idleHooks
      [.outbound (.beginResponse (httpToCoapCode 205)), .observableUpdate 0 0, .outbound .send] s,
      smcpStatusOk)
  | _, s => (s, smcpStatusOk)

/-- The requests arrive at the application, one after the other, each from its own port. -/
def observedRun (requests : List (List UInt8 × ℕ)) : Instance :=
  execAll Op.exec observableHooks
    (.setDefaultRequestHandler (some 0) ::
      requests.map fun r => .process (some ⟨r.1, peerAt 1 r.2, none⟩) fun _ => 0)
    (smcpCreate default (fun _ => 5) fun _ => 1)

theorem reachable_observedRun (requests : List (List UInt8 × ℕ)) : Reachable (observedRun requests) := by
  refine ⟨default, fun _ => 5, fun _ => 1, (Reaches.refl _).execAll (fun c u => ?_) _⟩
  cases c with
  | request handler => exact (Reaches.refl _).execAll (fun _ u => .refl u) _
  | _ => exact .refl u

instance : DecidablePred ObserverEvent.KeepsTable
  | .registered _ _ requestLen =>
    inferInstanceAs (Decidable (0 < requestLen ∧ requestLen ≤ asyncRequestSize))
  | .renewed _ requestLen => inferInstanceAs (Decidable (0 < requestLen))
  | .released _ i first last => inferInstanceAs (Decidable (first = i + 1 ∧ last = i + 1))

/-- Two peers send a GET with an Observe option. -/
def registrations : List (List UInt8 × ℕ) :=
  [([0x42, 0x01, 0, 1, 0xA, 0xA, 0x60], 5683), ([0x42, 0x01, 0, 2, 0xB, 0xB, 0x60], 5684)]

theorem observerTable_registered :
    let s := observedRun registrations
    ObserverTableOk s ∧ registeredWith 0 s.observerEvents = [0, 1] := by
  refine ⟨reachable_observerTable (reachable_observedRun _) ?_ ?_, ?_⟩
  · decide +kernel
  · have hevents : (observedRun registrations).events.length = 0 := by decide +kernel
    rw [List.eq_nil_of_length_eq_zero hevents]
    exact List.forall_mem_nil _
  · decide +kernel

/-- The entry of the first observer is lost when it sends a GET without the option. -/
theorem observerTable_lost : ¬∀ s, Reachable s → ObserverTableOk s := by
  intro hall
  set s := observedRun (registrations ++ [([0x42, 0x01, 0, 3, 0xA, 0xA], 5683)]) with hs
  have hevents : s.observerEvents =
      [.released 0 0 1 2, .registered 0 1 7, .registered 0 0 7] := by decide +kernel
  have hunused : getUnusedObserverIndex s = 2 := by decide +kernel
  have hfree (context : ℕ) : 0 ∉ registeredWith context s.observerEvents := by
    rw [hevents]
    by_cases hc : 0 = context <;> simp [registeredWith, hc]
  obtain ⟨j, hj, hindex⟩ := (hall s (reachable_observedRun _)).found 0 (by decide) hfree
  omega

end Smcp
