import Mathlib.Tactic.Common
import PolicyTree.Proofs.Repository.Subscribing
import PolicyTree.Proofs.Repository.Using

namespace PolicyTree

-- What is said of the caches: of those of collectors, and of those of each evaluator.
structure Truths where
  entries   : EntryKey → List Entry → Prop
  decisions : Nat → PrincipalSet → String → Decision → Prop
  reads     : PrincipalSet → NodeId → Bool → Prop

def Truths.Sustained (t : Truths) (tree : TreeView) (r : Registry) : Prop :=
  ∀ n ps, Sustains tree r ps t.entries (t.decisions n ps) (t.reads ps)

structure AclEvaluator.Holds (t : Truths) (n : Nat) (e : AclEvaluator) : Prop where
  decisions : e.decisions.Holds (t.decisions n e.principals)
  reads     : e.reads.Holds (t.reads e.principals)

namespace AclEvaluator.Holds

variable {t : Truths} {n : Nat} {e : AclEvaluator} {ps : PrincipalSet} {k k' k'' : Nat}

theorem forget : e.forget.Holds t n := ⟨Cache.holds_clear, Cache.holds_clear⟩

theorem close : e.close.Holds t n := ⟨Cache.holds_clear, Cache.holds_clear⟩

theorem detached {listener : Option Nat} :
    { detached ps k k' k'' with listener }.Holds t n :=
  ⟨Cache.holds_empty, Cache.holds_empty⟩

end AclEvaluator.Holds

-- A collector has become another by finding things out, forgetting, closing, losing listeners or
-- gaining evaluators as such of which something is known.
structure Collector.Follows (E : EntryKey → List Entry → Prop) (known : Nat → Prop)
    (c c' : Collector) : Prop where
  subscription : ∀ id, c'.subscription = some id → c.subscription = some id
  cache        : c.cache.Holds E → c'.cache.Holds E
  listeners    : ∀ id n, (id, .evaluator n) ∈ c'.listeners →
    (∃ id, (id, .evaluator n) ∈ c.listeners) ∨ known n

theorem Collector.Follows.of_same {E : EntryKey → List Entry → Prop} {known : Nat → Prop}
    {c c' : Collector} (subscription : ∀ id, c'.subscription = some id → c.subscription = some id)
    (cache : c'.cache = c.cache) (listeners : c'.listeners = c.listeners) : c.Follows E known c' :=
  ⟨subscription, fun h => cache ▸ h, fun id _ hm => .inl ⟨id, listeners ▸ hm⟩⟩

theorem Collector.Follows.isClosed_eq_false {E : EntryKey → List Entry → Prop} {known : Nat → Prop}
    {c c' : Collector} (h : c.Follows E known c') (ho : c'.isClosed = false) :
    c.isClosed = false := by
  have ⟨id, hid⟩ := isClosed_eq_false_iff.1 ho
  exact isClosed_eq_false_iff.2 ⟨id, h.subscription id hid⟩

-- Questions to evaluators.

section

variable {tree : TreeView} {r : Registry} {ps : PrincipalSet} {E : EntryKey → List Entry → Prop}
  {D : String → Decision → Prop} {R : NodeId → Bool → Prop}

-- Of decisions and read checks nothing need be said.
theorem Sustains.entries_only (h : Sustains tree r ps E D R) :
    Sustains tree r ps E (fun _ _ => True) (fun _ _ => True) :=
  ⟨h.entries, fun _ _ => trivial, fun _ _ => trivial⟩

theorem Sustains.nothing :
    Sustains tree r ps (fun _ _ => True) (fun _ _ => True) (fun _ _ => True) :=
  ⟨fun _ _ => trivial, fun _ _ => trivial, fun _ _ => trivial⟩

namespace EvaluatorM.Question

variable {α : Type} {work : EvaluatorM α} {b : Bench} (h : work.Question tree r)

include h

theorem run_closed (closed : b.evaluator.isClosed) : (work.run.run b).2 = b := by
  induction h
  case decision => rw [run_decision, if_pos closed]
  case canRead  => rw [run_canRead, if_pos closed]
  case map hi   => rw [run_map]; exact hi

theorem answers (hs : Sustains tree r ps E D R) : ∃ Q F, Answers ps E D R work Q F := by
  induction h
  case decision   => exact ⟨_, _, answers_decision hs⟩
  case canRead    => exact ⟨_, _, answers_canRead hs⟩
  case map hi     =>
    have ⟨_, _, hw⟩ := hi
    exact ⟨_, _, hw.map⟩

theorem holds (hs : Sustains tree r b.evaluator.principals E D R) (hb : b.Holds E D R) :
    (work.run.run b).2.Holds E D R := by
  cases closed : b.evaluator.isClosed
  case true  => rwa [h.run_closed closed]
  case false =>
    have ⟨_, _, hw⟩ := h.answers hs
    exact (hw b rfl closed hb _ _ rfl).2.1

theorem like : b.Like (work.run.run b).2 := by
  cases closed : b.evaluator.isClosed
  case true  =>
    rw [h.run_closed closed]
    exact .refl
  case false =>
    have nothing : Sustains tree r b.evaluator.principals _ _ _ := .nothing
    have ⟨_, _, hw⟩ := h.answers nothing
    exact (hw b rfl closed ⟨fun _ _ _ => trivial, fun _ _ _ => trivial, fun _ _ _ => trivial⟩ _ _
      rfl).2.2

theorem follows {known : Nat → Prop} (hs : Sustains tree r b.evaluator.principals E D R) :
    b.collector.Follows E known (work.run.run b).2.collector := by
  have ⟨_, hc⟩ := (h.like (b := b)).collector
  refine ⟨fun id => ?_, fun hE => ?_, fun id n hm => .inl ⟨id, ?_⟩⟩
  · simp [hc]
  · exact (h.holds hs.entries_only ⟨hE, fun _ _ _ => trivial, fun _ _ _ => trivial⟩).entries
  · rwa [hc] at hm

end EvaluatorM.Question

-- So do questions to a collector.
theorem Collector.follows_entries {c : Collector} {node : NodeHandle} {known : Nat → Prop}
    (hE : ∀ es, collect tree r ps node = .ok es → E (.of ps node) es) :
    c.Follows E known ((Collector.entries tree r ps node).run.run c).2 := by
  rcases hr : (Collector.entries tree r ps node).run.run c with ⟨answer, c'⟩
  obtain ⟨-, -, _, rfl⟩ :=
    answers_entries (E := fun _ _ => True) (fun _ _ _ => trivial) (fun _ _ => trivial) hr
  exact ⟨fun _ => id, fun h => (answers_entries h hE hr).2.1, fun id n hm => .inl ⟨id, hm⟩⟩

end

namespace Repository

variable {α ε : Type} {s s' : Repository} {t t' : Truths} {late unheard : Nat → Prop} {n : Nat}
  {e : AclEvaluator}

-- The evaluator is a listener of its collector, and this is open.
def Hears (s : Repository) (n : Nat) (e : AclEvaluator) : Prop :=
  ∃ collector id, s.collectors.get? e.collector = some collector ∧ collector.isClosed = false ∧
    (id, .evaluator n) ∈ collector.listeners

-- What open collectors hold is as said, and so is what evaluators hold that hear of changes, except
-- that the news may be late at some collectors and not heard yet by some evaluators.
structure Holds (t : Truths) (late unheard : Nat → Prop) (s : Repository) : Prop where
  subscribed : Subscribed s.dispatcher s.recorders.named s.collectors
  entries    : ∀ {c : Nat} {collector : Collector}, s.collectors.get? c = some collector →
    collector.isClosed = false → ¬late c → collector.cache.Holds t.entries
  answers    : ∀ {n : Nat} {e : AclEvaluator}, s.evaluators.get? n = some (.acl e) →
    s.Hears n e → ¬late e.collector → ¬unheard n → e.Holds t n

def Answered (s : Repository) (t : Truths) (n : Nat) : Prop :=
  ∀ e, s.evaluators.get? n = some (.acl e) → e.Holds t n

theorem bench_collector {collector : Collector}
    (hc : s.collectors.get? e.collector = some collector) : (s.bench e).collector = collector :=
  congrArg (Option.getD · _) hc

namespace Holds

theorem mono (h : s.Holds t late unheard)
    (entries : ∀ {k es}, t.entries k es → t'.entries k es)
    (decisions : ∀ {n ps path d}, t.decisions n ps path d → t'.decisions n ps path d)
    (reads : ∀ {ps id granted}, t.reads ps id granted → t'.reads ps id granted) :
    s.Holds t' late unheard where
  subscribed              := h.subscribed
  entries hc ho hlate     := fun k es hm => entries (h.entries hc ho hlate k es hm)
  answers he hh hlate hun :=
    have holds := h.answers he hh hlate hun
    ⟨fun k d hm => decisions (holds.decisions k d hm), fun k b hm => reads (holds.reads k b hm)⟩

-- Less may be said.
theorem weaken {late' unheard' : Nat → Prop} (h : s.Holds t late unheard)
    (hl : ∀ c, late c → late' c) (hu : ∀ n, unheard n → unheard' n) :
    s.Holds t late' unheard' where
  subscribed                 := h.subscribed
  entries hc ho hlate        := h.entries hc ho (hlate ∘ hl _)
  answers he hh hlate hheard := h.answers he hh (hlate ∘ hl _) (hheard ∘ hu _)

-- Whatever has nothing to do with the caches may change.
theorem elsewhere (h : s.Holds t late unheard) (collectors : s'.collectors = s.collectors)
    (evaluators : s'.evaluators = s.evaluators)
    (subscribed : Subscribed s'.dispatcher s'.recorders.named s.collectors) :
    s'.Holds t late unheard := by
  refine ⟨collectors ▸ subscribed, fun hc => h.entries (collectors ▸ hc), fun he hh => ?_⟩
  rw [evaluators] at he
  rw [Hears, collectors] at hh
  exact h.answers he hh

theorem set_collectors {collectors : Table Collector} (h : s.Holds t late unheard)
    (hc : ∀ {c collector'}, collectors.get? c = some collector' →
      ∃ collector, s.collectors.get? c = some collector ∧
        collector.Follows t.entries (s.Answered t) collector')
    (next : collectors.next = s.collectors.next := by rfl) :
    Holds t late unheard { s with collectors } := by
  constructor
  case subscribed =>
    exact h.subscribed.follow (fun hc' => (hc hc').imp fun _ hc => ⟨hc.1, hc.2.subscription⟩) next
  case entries =>
    intro c collector' hc' ho hlate
    have ⟨collector, hc, follows⟩ := hc hc'
    exact follows.cache (h.entries hc (follows.isClosed_eq_false ho) hlate)
  case answers =>
    rintro n e he ⟨collector', id, hc', ho, hm⟩
    have ⟨collector, hc, follows⟩ := hc hc'
    rcases follows.listeners id n hm with ⟨id, hm⟩ | answered
    · exact h.answers he ⟨collector, id, hc, follows.isClosed_eq_false ho, hm⟩
    · exact fun _ _ => answered e he

theorem set_collector {c : Nat} {collector' : Collector} (h : s.Holds t late unheard)
    (follows : ∀ collector, s.collectors.get? c = some collector →
      collector.Follows t.entries (s.Answered t) collector') :
    Holds t late unheard { s with collectors := s.collectors.set c collector' } := by
  refine h.set_collectors fun {m collector} hm => ?_
  rw [Table.get?_set] at hm
  split at hm
  case isFalse => exact ⟨collector, hm, .of_same (fun _ hs => hs) rfl rfl⟩
  case isTrue hc =>
    obtain ⟨old, hold, rfl⟩ := Option.map_eq_some_iff.1 hm
    exact ⟨old, hold, follows old (hc ▸ hold)⟩

theorem set_evaluator (n : Nat) (e' : Evaluator) (h : s.Holds t late unheard)
    (he : ∀ e, e' = .acl e → s.Hears n e → ¬late e.collector → ¬unheard n → e.Holds t n) :
    Holds t late unheard { s with evaluators := s.evaluators.set n e' } := by
  refine ⟨h.subscribed, h.entries, fun {m e} hm hh => ?_⟩
  rw [Table.get?_set] at hm
  split at hm
  case isFalse => exact h.answers hm hh
  case isTrue hmn =>
    obtain ⟨_, _, heq⟩ := Option.map_eq_some_iff.1 hm
    subst hmn
    exact he e heq hh

theorem add_evaluator (e' : Evaluator) (h : s.Holds t late unheard)
    (he : ∀ e, e' = .acl e → e.Holds t s.evaluators.next) :
    Holds t late unheard { s with evaluators := (s.evaluators.add e').2 } := by
  refine ⟨h.subscribed, h.entries, fun {m e} hm hh => ?_⟩
  rw [Table.get?_add] at hm
  split at hm
  case isFalse => exact h.answers hm hh
  case isTrue hmn =>
    subst hmn
    exact fun _ _ => he e (Option.some_inj.1 hm)

theorem sweep (h : s.Holds t late unheard) : s.sweep.Holds t late unheard := by
  have erased {n : Nat} {gone : List Nat} {evaluators : Table Evaluator} {e' : Evaluator}
      (hm : (gone.foldl .erase evaluators).get? n = some e') : evaluators.get? n = some e' := by
    induction gone generalizing evaluators
    case nil          => exact hm
    case cons m _ hi  => exact Table.get?_of_erase (hi hm)
  exact ⟨h.subscribed, h.entries, fun he hh => h.answers (erased he) hh⟩

-- What questions leave.

theorem bench (h : s.Holds t late unheard) (he : s.evaluators.get? n = some (.acl e))
    (hears : s.Hears n e) (hlate : ¬late e.collector) (hun : ¬unheard n) :
    (s.bench e).Holds t.entries (t.decisions n e.principals) (t.reads e.principals) := by
  have holds := h.answers he hears hlate hun
  have ⟨collector, _, hc, ho, _⟩ := hears
  refine ⟨?_, holds.decisions, holds.reads⟩
  rw [bench_collector hc]
  exact h.entries hc ho hlate

theorem ask {everything : α} {readOnly : Except AccessError α} {work : EvaluatorM α}
    (h : s.Holds t late unheard) (sus : t.Sustained s.view s.registry)
    (hw : work.Question s.view s.registry) :
    (s.after (query n everything readOnly work)).Holds t late unheard := by
  rw [after, run_query]
  split
  case h_4 e he =>
    obtain ⟨⟨decisions, reads, heq⟩, _⟩ := hw.like (b := s.bench e)
    have asked := h.set_evaluator n (.acl (work.run.run (s.bench e)).2.evaluator) <| by
      rintro e' he' hears hlate hun
      obtain rfl : (work.run.run (s.bench e)).2.evaluator = e' := Evaluator.acl.inj he'
      rw [heq] at hears hlate
      have kept := hw.holds (sus n e.principals) (h.bench he hears hlate hun)
      have principals : (work.run.run (s.bench e)).2.evaluator.principals = e.principals :=
        heq ▸ rfl
      exact ⟨principals ▸ kept.decisions, principals ▸ kept.reads⟩
    refine asked.set_collector fun collector hc => ?_
    rw [← bench_collector hc]
    exact hw.follows (sus n e.principals)
  all_goals exact h

-- The other things that are done with collectors and evaluators.

theorem openCollector {capacity : Nat} (h : s.Holds t late unheard) :
    (s.after (openCollector capacity)).Holds t late unheard := by
  rw [after, run_openCollector]
  split
  case h_1 => exact h
  case h_2 =>
    refine ⟨h.subscribed.opened, fun {c collector} hc => ?_, fun {m e} he hh => ?_⟩
    · rw [Table.get?_add] at hc
      split at hc
      case isTrue  => exact fun _ _ => Option.some_inj.1 hc ▸ Cache.holds_empty
      case isFalse => exact h.entries hc
    · obtain ⟨collector, id, hc, ho, hm⟩ := hh
      rw [Table.get?_add] at hc
      split at hc
      case isFalse => exact h.answers he ⟨collector, id, hc, ho, hm⟩
      case isTrue  =>
        obtain rfl := Option.some_inj.1 hc
        exact absurd hm List.not_mem_nil

theorem closeCollector (h : s.Holds t late unheard) :
    (s.after (closeCollector n)).Holds t late unheard := by
  rw [after, run_closeCollector]
  split
  case h_1 => exact h
  case h_2 id hid =>
    have closed : Holds t late unheard { s with
        collectors := s.collectors.modify n ({ · with subscription := none }) } := by
      refine h.set_collectors fun {m collector} hm => ?_
      rw [Table.get?_modify] at hm
      split at hm
      case isFalse => exact ⟨collector, hm, .of_same (fun _ hs => hs) rfl rfl⟩
      case isTrue hc =>
        obtain ⟨old, hold, rfl⟩ := Option.map_eq_some_iff.1 hm
        exact ⟨old, hold, .of_same (by simp) rfl rfl⟩
    dsimp only
    split
    case h_1 => exact closed
    case h_2 =>
      rw [run_unsubscribe]
      split
      case h_1 => exact closed
      case h_2 hu =>
        refine closed.elsewhere rfl rfl
          (closed.subscribed.unsubscribe hu fun {c collector} hc => ?_)
        -- The subscription was that of the closed collector, and no other one has it.
        intro hs
        obtain ⟨closing, hclosing, hid⟩ := Option.bind_eq_some_iff.1 hid
        rw [Table.get?_modify] at hc
        split at hc
        case isTrue =>
          obtain ⟨_, _, rfl⟩ := Option.map_eq_some_iff.1 hc
          cases hs
        case isFalse hne =>
          have same := h.subscribed.unique _ (h.subscribed.mem hc hs) _
            (h.subscribed.mem hclosing hid) rfl
          exact hne (Listener.collector.inj (congrArg Subscription.listener same))

theorem set_listeners {c : Nat} {f : Collector → Collector} (h : s.Holds t late unheard)
    (subscription : ∀ collector, (f collector).subscription = collector.subscription)
    (cache : ∀ collector, (f collector).cache = collector.cache)
    (listeners : ∀ collector id n, (id, .evaluator n) ∈ (f collector).listeners →
      (∃ id, (id, .evaluator n) ∈ collector.listeners) ∨ s.Answered t n) :
    Holds t late unheard
      { s with collectors := s.collectors.set c (f ((s.collectors.get? c).getD .absent)) } := by
  refine h.set_collector fun collector hc => ?_
  rw [hc, Option.getD_some]
  exact ⟨fun _ => by simp [subscription], fun hE => by rwa [cache], listeners collector⟩

theorem removeListener {c id : Nat} (h : s.Holds t late unheard) :
    ((removeListener c id).run s).2.Holds t late unheard :=
  h.set_listeners (f := fun c => (c.removeListener id).2) (fun _ => rfl) (fun _ => rfl)
    fun _ id _ hm => .inl ⟨id, (List.mem_filter.1 hm).1⟩

theorem closeEvaluator (h : s.Holds t late unheard) :
    ((closeEvaluator n).run s).2.Holds t late unheard := by
  rw [run_closeEvaluator]
  split
  case h_1 => exact h
  case h_2 => exact h.set_evaluator _ _ fun _ he => nomatch he
  case h_3 => exact h.set_evaluator _ _ fun _ he => nomatch he
  case h_4 e _ =>
    split
    case isTrue  => exact h
    case isFalse =>
      refine set_evaluator _ _ ?_ fun _ he _ _ _ => Evaluator.acl.inj he ▸ .close
      unfold unregistered
      split
      case h_1 => exact h
      case h_2 => exact h.removeListener

theorem checks (h : s.Holds t late unheard) (sus : t.Sustained s.view s.registry)
    (collected : ∀ {ps node es}, (∀ o, s.saved.store.handle? node.id = some o → o = node) →
      collect s.view s.registry ps node = .ok es → t.entries (.of ps node) es)
    (hc : Checks s s') : s'.Holds t late unheard := by
  cases hc
  case openCollector => exact h.openCollector
  case closeCollector => exact h.closeCollector
  case collectedEntries n ps node genuine =>
    rw [after, run_collectedEntries]
    refine h.set_collector fun collector hc => ?_
    rw [hc]
    exact Collector.follows_entries fun es => collected genuine
  case openEvaluator ps collector resultCapacity readCapacity =>
    -- The evaluator is there before its collector has it as a listener.
    have added := h.add_evaluator (.acl
      { AclEvaluator.detached ps collector resultCapacity readCapacity with
        listener := some ((s.collectors.get? collector).getD .absent).nextListener })
      fun e he => Evaluator.acl.inj he ▸ .detached
    refine added.set_listeners (f := fun c => (c.addListener (.evaluator s.evaluators.next)).2)
      (fun _ => rfl) (fun _ => rfl) fun c id n hm => ?_
    refine (List.mem_append.1 hm).imp (fun hm => ⟨id, hm⟩) fun hm e he => ?_
    obtain ⟨-, heq⟩ := Prod.mk.inj (List.mem_singleton.1 hm)
    obtain rfl := ChangeListener.evaluator.inj heq
    rw [Table.get?_add, if_pos rfl] at he
    exact Evaluator.acl.inj (Option.some_inj.1 he) ▸ .detached
  case addEvaluator => exact h.add_evaluator _ fun e he => Evaluator.acl.inj he ▸ .detached
  case closeEvaluator => exact h.closeEvaluator
  case dropEvaluator => exact sweep ⟨h.subscribed, h.entries, h.answers⟩
  case ask hw => exact h.ask sus hw
  case askOnce _ ps collector resultCapacity readCapacity _ hw =>
    refine h.set_collector fun c hc => ?_
    rw [← bench_collector (e := .detached ps collector resultCapacity readCapacity) hc]
    exact hw.follows (sus 0 ps)
  case listen n probe =>
    refine set_listeners (s := { s with changeRecorders := _ })
      ⟨h.subscribed, h.entries, h.answers⟩
      (f := fun c => (c.addListener (.recorder s.changeRecorders.next)).2) (fun _ => rfl)
      (fun _ => rfl) fun c id n hm => .inl ⟨id, (List.mem_append.1 hm).resolve_right fun hm => ?_⟩
    cases (Prod.mk.inj (List.mem_singleton.1 hm)).2
  case removeListener n id => exact h.removeListener
  case dropChangeRecorder => exact sweep ⟨h.subscribed, h.entries, h.answers⟩

end Holds

end Repository

end PolicyTree
