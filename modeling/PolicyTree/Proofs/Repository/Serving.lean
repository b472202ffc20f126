import Mathlib.Tactic.Common
import PolicyTree.Proofs.Repository.Providing

namespace PolicyTree

namespace Evaluator

variable {e e' : Evaluator}

def isClosed : Evaluator → Bool
  | .everything isClosed => isClosed
  | .readOnly isClosed => isClosed
  | .acl e => e.isClosed

theorem isClosed_bare : e.bare.isClosed = e.isClosed := by
  cases e <;> rfl

theorem isClosed_of_bare (h : e'.bare = e.bare) : e'.isClosed = e.isClosed := by
  rw [← isClosed_bare, h, isClosed_bare]

theorem acl_of_bare {a : AclEvaluator} (h : e.bare = (acl a).bare) : ∃ a', e = .acl a' ∧
    a'.collector = a.collector ∧ a'.listener = a.listener ∧ a'.isClosed = a.isClosed := by
  cases e
  case acl a' =>
    obtain ⟨_, collector, listener, _, _, isClosed⟩ := AclEvaluator.mk.inj (acl.inj h)
    exact ⟨a', rfl, collector, listener, isClosed⟩
  all_goals exact nomatch h

end Evaluator

namespace Repository

variable {s s' : Repository} {c n : Nat} {compiled heard : List Nat} {collector : Collector}

def HasClosed (s : Repository) (n : Nat) : Prop :=
  ∃ e, s.evaluators.get? n = some e ∧ e.isClosed

theorem HasClosed.still (h : s.HasClosed n) (hs : Still s s') : s'.HasClosed n := by
  obtain ⟨e, he, closed⟩ := h
  have ⟨e', he', same⟩ := hs.evaluator he
  exact ⟨e', he', (Evaluator.isClosed_of_bare same).trans closed⟩

-- The listeners of a collector are these evaluators, of which the latest comes first, and each of
-- them knows what it is registered as.
structure Registered (s : Repository) (c : Nat) (heard : List Nat) (collector : Collector) :
    Prop where
  listeners : collector.listeners.map (·.2) = heard.reverse.map .evaluator
  distinct  : (collector.listeners.map (·.1)).Nodup
  below     : ∀ l ∈ collector.listeners, l.1 < collector.nextListener
  own       : ∀ {id n : Nat}, (id, .evaluator n) ∈ collector.listeners →
    ∃ e, s.evaluators.get? n = some (.acl e) ∧ e.collector = c ∧ e.listener = some id ∧
      e.isClosed = false

namespace Registered

variable (h : s.Registered c heard collector)

include h

theorem mem_iff : n ∈ heard ↔ ∃ id, (id, .evaluator n) ∈ collector.listeners := by
  have mem : .evaluator n ∈ collector.listeners.map (·.2) ↔ n ∈ heard := by
    rw [h.listeners]
    simp
  rw [← mem]
  simp

theorem evaluator {l : Nat × ChangeListener} (hl : l ∈ collector.listeners) :
    ∃ n ∈ heard, l = (l.1, .evaluator n) := by
  have mem : l.2 ∈ heard.reverse.map .evaluator := h.listeners ▸ List.mem_map_of_mem hl
  obtain ⟨n, hn, heq⟩ := List.mem_map.1 mem
  exact ⟨n, List.mem_reverse.1 hn, Prod.ext rfl heq.symm⟩

theorem attended : s.Attended collector.listeners := by
  intro l hl
  have ⟨n, _, heq⟩ := h.evaluator hl
  have ⟨e, he, _⟩ := h.own (heq ▸ hl)
  exact ⟨n, congrArg Prod.snd heq, by rw [Table.contains_iff, he]; rfl⟩

theorem length : collector.listeners.length = heard.length := by
  rw [← List.length_map (·.2), h.listeners, List.length_map, List.length_reverse]

-- The evaluators may change in whatever their standing does not depend on.
theorem follow {collector' : Collector} (listeners : collector'.listeners = collector.listeners)
    (next : collector'.nextListener = collector.nextListener)
    (own : ∀ {n : Nat} {e : AclEvaluator}, n ∈ heard → s.evaluators.get? n = some (.acl e) →
      ∃ e', s'.evaluators.get? n = some (.acl e') ∧ e'.collector = e.collector ∧
        e'.listener = e.listener ∧ e'.isClosed = e.isClosed) :
    s'.Registered c heard collector' where
  listeners := listeners ▸ h.listeners
  distinct  := listeners ▸ h.distinct
  below     := by
    rw [listeners, next]
    exact h.below
  own hm    := by
    rw [listeners] at hm
    have ⟨e, he, hc, hl, ho⟩ := h.own hm
    have ⟨e', he', hc', hl', ho'⟩ := own (h.mem_iff.2 ⟨_, hm⟩) he
    exact ⟨e', he', hc'.trans hc, hl'.trans hl, ho'.trans ho⟩

-- One more evaluator.
theorem add {e : AclEvaluator} (new : ∀ m ∈ heard, m ≠ n) (here : e.collector = c)
    (hs : ∀ m ≠ n, s'.evaluators.get? m = s.evaluators.get? m) (isOpen : e.isClosed = false)
    (hn : s'.evaluators.get? n = some (.acl { e with listener := some collector.nextListener })) :
    s'.Registered c (n :: heard) (collector.addListener (.evaluator n)).2 where
  listeners := by simp [Collector.addListener, h.listeners]
  distinct  := by
    have fresh : collector.nextListener ∉ collector.listeners.map (·.1) := fun hm => by
      obtain ⟨l, hl, heq⟩ := List.mem_map.1 hm
      exact Nat.ne_of_lt (h.below l hl) heq
    simp only [Collector.addListener, List.map_append, List.map_cons, List.map_nil]
    exact List.nodup_append.2 ⟨h.distinct, List.nodup_singleton _, fun _ hm _ hm' heq =>
      fresh (List.mem_singleton.1 hm' ▸ heq ▸ hm)⟩
  below l hl := by
    rcases List.mem_append.1 hl with hl | hl
    · exact Nat.lt_succ_of_lt (h.below l hl)
    · exact List.mem_singleton.1 hl ▸ Nat.lt_succ_self _
  own {id m} hm := by
    rcases List.mem_append.1 hm with hm | hm
    · have ⟨e', he', rest⟩ := h.own hm
      exact ⟨e', (hs m (new m (h.mem_iff.2 ⟨id, hm⟩))).trans he', rest⟩
    · obtain ⟨rfl, heq⟩ := Prod.mk.inj (List.mem_singleton.1 hm)
      obtain rfl := ChangeListener.evaluator.inj heq
      exact ⟨_, hn, here, rfl, isOpen⟩

-- One evaluator less.
theorem remove {e : AclEvaluator} {id : Nat} (he : s.evaluators.get? n = some (.acl e))
    (hid : e.listener = some id) (hn : n ∈ heard)
    (hs : ∀ m ≠ n, s'.evaluators.get? m = s.evaluators.get? m) :
    s'.Registered c (heard.filter (· ≠ n)) (collector.removeListener id).2 := by
  have knows {id' : Nat} (hm : (id', .evaluator n) ∈ collector.listeners) : id' = id := by
    have ⟨e', he', _, hid', _⟩ := h.own hm
    obtain rfl := Evaluator.acl.inj (Option.some_inj.1 (he.symm.trans he'))
    exact Option.some_inj.1 (hid'.symm.trans hid)
  -- It is the one that is registered as that.
  have only {l : Nat × ChangeListener} (hl : l ∈ collector.listeners) :
      l.1 = id ↔ l.2 = .evaluator n := by
    obtain ⟨id', hm⟩ := h.mem_iff.1 hn
    obtain rfl := knows hm
    constructor
    · intro heq
      exact congrArg Prod.snd (List.inj_on_of_nodup_map h.distinct hl hm heq)
    · intro heq
      have pair : l = (l.1, .evaluator n) := Prod.ext rfl heq
      exact knows (pair ▸ hl)
  refine ⟨?_, h.distinct.sublist (List.filter_sublist.map _), fun l hl => ?_, fun {id' m} hm => ?_⟩
  · have filtered : collector.listeners.filter (·.1 ≠ id) =
        collector.listeners.filter ((· ≠ .evaluator n) ∘ (·.2)) :=
      List.filter_congr fun l hl => by simp [only hl]
    have others : (fun m => decide (m ≠ n)) =
        (fun l => decide (l ≠ .evaluator n)) ∘ ChangeListener.evaluator := by
      funext m
      simp
    show (collector.listeners.filter (·.1 ≠ id)).map (·.2) = _
    rw [filtered, ← List.filter_map, h.listeners, others, ← List.filter_reverse, List.filter_map]
  · exact h.below l (List.mem_filter.1 hl).1
  · obtain ⟨hm, hne⟩ := List.mem_filter.1 hm
    have ⟨e', he', rest⟩ := h.own hm
    refine ⟨e', (hs m ?_).trans he', rest⟩
    rintro rfl
    simp [knows hm] at hne

end Registered

-- The collector is open, and has for listeners the evaluators that are to hear of changes. None of
-- the others that were compiled could be its listener.
structure Serves (s : Repository) (c : Nat) (compiled heard : List Nat) : Prop where
  known     : ∀ n ∈ heard, n ∈ compiled
  idle      : ∀ {n : Nat} {e : AclEvaluator}, n ∈ compiled → n ∉ heard →
    s.evaluators.get? n = some (.acl e) → e.isClosed
  collector : ∃ collector, s.collectors.get? c = some collector ∧ collector.isClosed = false ∧
    s.Registered c heard collector

namespace Serves

variable (h : s.Serves c compiled heard)

include h

theorem still (there : ∀ n ∈ compiled, s.evaluators.contains n) (hs : Still s s') :
    s'.Serves c compiled heard where
  known := h.known
  idle {n e'} hn hm he' := by
    have ⟨e, he⟩ := Option.isSome_iff_exists.1 (Table.contains_iff ▸ there n hn)
    have ⟨e'', he'', same⟩ := hs.evaluator he
    obtain rfl := Option.some_inj.1 (he'.symm.trans he'')
    obtain ⟨a, rfl, _, _, closed⟩ := Evaluator.acl_of_bare same.symm
    exact closed.symm.trans (h.idle hn hm he)
  collector := by
    have ⟨collector, hc, isOpen, registered⟩ := h.collector
    have ⟨collector', hc', kept⟩ := hs.collector hc
    refine ⟨collector', hc', ?_, ?_⟩
    · unfold Collector.isClosed
      rw [kept.subscription]
      exact isOpen
    · refine registered.follow (kept.listeners registered.attended) kept.nextListener
        fun _ he => ?_
      have ⟨e', he', same⟩ := hs.evaluator he
      obtain ⟨a, rfl, standing⟩ := Evaluator.acl_of_bare same
      exact ⟨a, he', standing⟩

-- An evaluator that weighs no entries hears of nothing.
theorem add {e : Evaluator} (below : ∀ n ∈ compiled, n < s.evaluators.next) (he : ∀ a, e ≠ .acl a) :
    Serves { s with evaluators := (s.evaluators.add e).2 } c (s.evaluators.next :: compiled)
      heard where
  known n hn := List.mem_cons_of_mem _ (h.known n hn)
  idle {n e'} hn hm he' := by
    rw [Table.get?_add] at he'
    split at he'
    case isTrue      => exact absurd (Option.some_inj.1 he') (he e')
    case isFalse hne => exact h.idle ((List.mem_cons.1 hn).resolve_left hne) hm he'
  collector := by
    have ⟨collector, hc, isOpen, registered⟩ := h.collector
    refine ⟨collector, hc, isOpen, registered.follow rfl rfl fun {n e'} hn he' => ?_⟩
    refine ⟨e', ?_, rfl, rfl, rfl⟩
    rw [Table.get?_add, if_neg (Nat.ne_of_lt (below n (h.known n hn)))]
    exact he'

theorem listened {e : AclEvaluator} (below : ∀ n ∈ compiled, n < s.evaluators.next)
    (here : e.collector = c) (isOpen : e.isClosed = false) :
    (s.listened e).Serves c (s.evaluators.next :: compiled) (s.evaluators.next :: heard) := by
  have ⟨collector, hc, open', registered⟩ := h.collector
  have found : (s.collectors.get? e.collector).getD .absent = collector := by
    rw [here, hc]
    rfl
  have others {m : Nat} (hm : m ≠ s.evaluators.next) :
      (s.listened e).evaluators.get? m = s.evaluators.get? m := by
    rw [Repository.listened, Table.get?_add, if_neg hm]
  refine ⟨fun n hn => ?_, fun {n e'} hn hm he' => ?_, ?_⟩
  · exact List.mem_cons.2 ((List.mem_cons.1 hn).imp_right (h.known n))
  · have ⟨hne, hm⟩ := not_or.1 (hm ∘ List.mem_cons.2)
    exact h.idle ((List.mem_cons.1 hn).resolve_left hne) hm (others hne ▸ he')
  · refine ⟨(collector.addListener (.evaluator s.evaluators.next)).2, ?_, open', ?_⟩
    · rw [Repository.listened, found, Table.get?_set, here, if_pos rfl, hc]
      rfl
    · refine registered.add (fun m hm => Nat.ne_of_lt (below m (h.known m hm))) here
        (fun m hm => others hm) isOpen ?_
      rw [Repository.listened, Table.get?_add, if_pos rfl, found]

end Serves

structure Grows (s s' : Repository) : Prop where
  providers  : s'.providers = s.providers
  faults     : s'.observationFaults = s.observationFaults
  collectors : s'.collectors.next = s.collectors.next
  evaluators : s'.evaluators.next = s.evaluators.next + 1
  subscribed : Subscribed s.dispatcher s.recorders.named s.collectors →
    Subscribed s'.dispatcher s'.recorders.named s'.collectors
  others     : ∀ n ≠ s.evaluators.next, s'.evaluators.get? n = s.evaluators.get? n
  new        : s'.evaluators.contains s.evaluators.next

theorem grows_add {e : Evaluator} :
    Grows s { s with evaluators := (s.evaluators.add e).2 } where
  providers   := rfl
  faults      := rfl
  collectors  := rfl
  evaluators  := rfl
  subscribed  := id
  others n hn := by rw [Table.get?_add, if_neg hn]
  new         := by
    rw [Table.contains_iff, Table.get?_add, if_pos rfl]
    rfl

theorem grows_listened {e : AclEvaluator} : Grows s (s.listened e) := by
  refine { grows_add (e := .acl _) with
    subscribed := fun h => h.follow fun {c collector'} hc => ?_ }
  rw [listened, Table.get?_set] at hc
  split at hc
  case isFalse   => exact ⟨collector', hc, fun _ hs => hs⟩
  case isTrue hn =>
    obtain ⟨old, hold, rfl⟩ := Option.map_eq_some_iff.1 hc
    refine ⟨old, hold, fun _ hs => ?_⟩
    rw [← hn, hold] at hs
    exact hs

structure Shuts (n : Nat) (s s' : Repository) : Prop where
  providers  : s'.providers = s.providers
  faults     : s'.observationFaults = s.observationFaults
  dispatcher : s'.dispatcher = s.dispatcher
  recorders  : s'.recorders = s.recorders
  collectors : s'.collectors.next = s.collectors.next
  evaluators : s'.evaluators.next = s.evaluators.next
  subscribed : Subscribed s.dispatcher s.recorders.named s.collectors →
    Subscribed s'.dispatcher s'.recorders.named s'.collectors
  others     : ∀ m ≠ n, s'.evaluators.get? m = s.evaluators.get? m
  closed     : s'.HasClosed n

theorem shuts_set {e : Evaluator} (there : s.evaluators.contains n) (closed : e.isClosed) :
    Shuts n s { s with evaluators := s.evaluators.set n e } where
  providers   := rfl
  faults      := rfl
  dispatcher  := rfl
  recorders   := rfl
  collectors  := rfl
  evaluators  := rfl
  subscribed  := id
  others m hm := by rw [Table.get?_set, if_neg hm]
  closed      := by
    have ⟨old, hold⟩ := Option.isSome_iff_exists.1 (Table.contains_iff ▸ there)
    refine ⟨e, ?_, closed⟩
    rw [Table.get?_set, if_pos rfl, hold]
    rfl

theorem shuts_closeEvaluator (there : s.evaluators.contains n) :
    Shuts n s ((closeEvaluator n).run s).2 := by
  have ⟨e, he⟩ := Option.isSome_iff_exists.1 (Table.contains_iff ▸ there)
  rw [run_closeEvaluator, he]
  rcases e with _ | _ | e
  case everything => exact shuts_set there rfl
  case readOnly   => exact shuts_set there rfl
  case acl =>
    dsimp only
    split
    case isTrue closed =>
      exact ⟨rfl, rfl, rfl, rfl, rfl, rfl, id, fun _ _ => rfl, _, he, closed⟩
    case isFalse =>
      have closed : (Evaluator.acl e.close).isClosed := rfl
      unfold unregistered
      split
      case h_1 => exact shuts_set there closed
      case h_2 id _ =>
        let collector := (s.collectors.get? e.collector).getD .absent
        let removed := s.collectors.set e.collector (collector.removeListener id).2
        refine { shuts_set (s := { s with collectors := removed }) there closed with
          subscribed := fun hs => hs.follow fun {c collector'} hc => ?_ }
        rw [Table.get?_set] at hc
        split at hc
        case isFalse   => exact ⟨collector', hc, fun _ hs => hs⟩
        case isTrue hn =>
          obtain ⟨old, hold, rfl⟩ := Option.map_eq_some_iff.1 hc
          have found : collector = old := congrArg (Option.getD · .absent) (hn ▸ hold)
          exact ⟨old, hold, fun _ hs => found ▸ hs⟩

-- An evaluator that is closed is not heard of any more, and the others go on.
theorem Serves.closeEvaluator (h : s.Serves c compiled heard) (hn : n ∈ compiled)
    (there : s.evaluators.contains n) :
    ((closeEvaluator n).run s).2.Serves c compiled (heard.filter (· ≠ n)) := by
  have shuts := shuts_closeEvaluator there
  have ⟨collector, hc, isOpen, registered⟩ := h.collector
  refine ⟨fun m hm => h.known m (List.mem_filter.1 hm).1, fun {m a} hm hout ha => ?_, ?_⟩
  · by_cases hmn : m = n
    · obtain ⟨e, he, closed⟩ := shuts.closed
      subst hmn
      obtain rfl := Option.some_inj.1 (he.symm.trans ha)
      exact closed
    · rw [shuts.others m hmn] at ha
      exact h.idle hm (fun hin => hout (List.mem_filter.2 ⟨hin, by simpa using hmn⟩)) ha
  · by_cases hin : n ∈ heard
    · obtain ⟨id, hm⟩ := registered.mem_iff.1 hin
      have ⟨e, he, here, hid, ho⟩ := registered.own hm
      have run : ((Repository.closeEvaluator n).run s).2.collectors =
          s.collectors.set c (collector.removeListener id).2 := by
        simp only [run_closeEvaluator, he, ho, unregistered, hid, here, hc]
        rfl
      refine ⟨(collector.removeListener id).2, ?_, isOpen,
        registered.remove he hid hin shuts.others⟩
      rw [run, Table.get?_set, if_pos rfl, hc]
      rfl
    · -- It was not heard of before.
      have run : ((Repository.closeEvaluator n).run s).2.collectors = s.collectors := by
        have ⟨e, he⟩ := Option.isSome_iff_exists.1 (Table.contains_iff ▸ there)
        rw [run_closeEvaluator, he]
        rcases e with _ | _ | e
        case acl => simp only [h.idle hn hin he, if_true]
        all_goals rfl
      have same : heard.filter (· ≠ n) = heard :=
        List.filter_eq_self.2 fun m hm => decide_eq_true fun heq => hin (heq ▸ hm)
      rw [same]
      refine ⟨collector, run ▸ hc, isOpen, registered.follow rfl rfl fun {m e} hm he => ?_⟩
      exact ⟨e, (shuts.others m fun heq => hin (heq ▸ hm)).trans he, rfl, rfl, rfl⟩

end Repository

end PolicyTree
