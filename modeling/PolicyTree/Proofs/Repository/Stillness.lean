import Mathlib.Tactic.Common
import PolicyTree.Proofs.Repository.Hearing

namespace PolicyTree

def Evaluator.bare : Evaluator → Evaluator
  | .acl e => .acl { e with decisions := .empty 1, reads := .empty 1 }
  | e => e

namespace Repository

variable {α β ε : Type} {s s₀ s' s'' : Repository} {n : Nat}

def Attended (s : Repository) (listeners : List (Nat × ChangeListener)) : Prop :=
  ∀ l ∈ listeners, ∃ n, l.2 = .evaluator n ∧ s.evaluators.contains n

-- A collector has become another by finding things out or by passing on changes.
structure Retains (s : Repository) (c c' : Collector) : Prop where
  subscription : c'.subscription = c.subscription
  nextListener : c'.nextListener = c.nextListener
  listeners    : s.Attended c.listeners → c'.listeners = c.listeners

structure Still (s s' : Repository) : Prop where
  providers     : s'.providers = s.providers
  faults        : s'.observationFaults = s.observationFaults
  collectors    : s'.collectors.next = s.collectors.next
  evaluators    : s'.evaluators.next = s.evaluators.next
  subscribed    : Subscribed s.dispatcher s.recorders.named s.collectors →
    Subscribed s'.dispatcher s'.recorders.named s'.collectors
  subscriptions : ∀ sub ∈ s'.dispatcher.subscriptions, sub ∈ s.dispatcher.subscriptions
  collector     : ∀ {c : Nat} {collector : Collector}, s.collectors.get? c = some collector →
    ∃ collector', s'.collectors.get? c = some collector' ∧ s.Retains collector collector'
  evaluator     : ∀ {n : Nat} {e : Evaluator}, s.evaluators.get? n = some e →
    ∃ e', s'.evaluators.get? n = some e' ∧ e'.bare = e.bare

theorem Retains.refl {c : Collector} : s.Retains c c := ⟨rfl, rfl, fun _ => rfl⟩

namespace Still

theorem refl : Still s s where
  providers         := rfl
  faults            := rfl
  collectors        := rfl
  evaluators        := rfl
  subscribed        := id
  subscriptions _   := id
  collector hc      := ⟨_, hc, .refl⟩
  evaluator he      := ⟨_, he, rfl⟩

theorem contains (h : Still s s') (hn : s.evaluators.contains n) : s'.evaluators.contains n := by
  rw [Table.contains_iff, Option.isSome_iff_exists] at hn ⊢
  obtain ⟨e, he⟩ := hn
  exact (h.evaluator he).imp fun _ => And.left

theorem attended {listeners : List (Nat × ChangeListener)} (h : Still s s')
    (hl : s.Attended listeners) : s'.Attended listeners :=
  fun l hm => have ⟨n, hn, there⟩ := hl l hm; ⟨n, hn, h.contains there⟩

theorem trans (h : Still s s') (h' : Still s' s'') : Still s s'' where
  providers            := h'.providers.trans h.providers
  faults               := h'.faults.trans h.faults
  collectors           := h'.collectors.trans h.collectors
  evaluators           := h'.evaluators.trans h.evaluators
  subscribed           := h'.subscribed ∘ h.subscribed
  subscriptions sub hm := h.subscriptions sub (h'.subscriptions sub hm)
  collector hc         := by
    have ⟨c', hc', r⟩ := h.collector hc
    have ⟨c'', hc'', r'⟩ := h'.collector hc'
    refine ⟨c'', hc'', r'.subscription.trans r.subscription, r'.nextListener.trans r.nextListener,
      fun there => ?_⟩
    have same := r.listeners there
    exact (r'.listeners (h.attended (same ▸ there))).trans same
  evaluator he         := by
    have ⟨e', he', same⟩ := h.evaluator he
    have ⟨e'', he'', same'⟩ := h'.evaluator he'
    exact ⟨e'', he'', same'.trans same⟩

-- Whatever providers do not go by may change.
theorem elsewhere (providers : s'.providers = s.providers)
    (faults : s'.observationFaults = s.observationFaults)
    (collectors : s'.collectors = s.collectors) (evaluators : s'.evaluators = s.evaluators)
    (dispatcher : s'.dispatcher = s.dispatcher)
    (named : s'.recorders.named = s.recorders.named) : Still s s' where
  providers         := providers
  faults            := faults
  collectors        := congrArg _ collectors
  evaluators        := congrArg _ evaluators
  subscribed h      := by rwa [dispatcher, named, collectors]
  subscriptions _   := by rw [dispatcher]; exact id
  collector hc      := ⟨_, collectors ▸ hc, .refl⟩
  evaluator he      := ⟨_, evaluators ▸ he, rfl⟩

theorem set_collector {c' : Collector} (h : ∀ c, s.collectors.get? n = some c → s.Retains c c') :
    Still s { s with collectors := s.collectors.set n c' } := by
  refine { refl (s := s) with subscribed := fun hs => ?_, collector := fun {m c} hc => ?_ }
  · refine hs.follow fun {m collector} hm => ?_
    rw [Table.get?_set] at hm
    split at hm
    case isFalse   => exact ⟨collector, hm, fun _ => id⟩
    case isTrue hn =>
      obtain ⟨old, hold, rfl⟩ := Option.map_eq_some_iff.1 hm
      exact ⟨old, hold, fun _ => (h old (hn ▸ hold)).subscription ▸ id⟩
  · rw [Table.get?_set]
    split
    case isFalse   => exact ⟨c, hc, .refl⟩
    case isTrue hn => exact ⟨c', by rw [hc]; rfl, h c (hn ▸ hc)⟩

theorem modify_evaluator {f : Evaluator → Evaluator}
    (h : ∀ e, s.evaluators.get? n = some e → (f e).bare = e.bare) :
    Still s { s with evaluators := s.evaluators.modify n f } := by
  refine { refl (s := s) with evaluator := fun {m e} he => ?_ }
  rw [Table.get?_modify]
  split
  case isFalse   => exact ⟨e, he, rfl⟩
  case isTrue hn => exact ⟨f e, by rw [he]; rfl, h e (hn ▸ he)⟩

-- A subscription that goes by a name is nobody's but a recorder's.
theorem unsubscribe {name : String} {recorder : Nat} {id : SubscriptionId}
    {dispatcher : Dispatcher Listener} (named : (name, recorder, id) ∈ s.recorders.named)
    (hd : s.dispatcher.unsubscribe id = .ok dispatcher) : Still s { s with dispatcher } := by
  obtain ⟨-, hd'⟩ := Dispatcher.unsubscribe_eq_ok_iff.1 hd
  refine { refl (s := s) with subscribed := fun hs => ?_, subscriptions := fun sub hm => ?_ }
  · exact hs.unsubscribe hd (hs.not_named named)
  · subst hd'
    exact (List.mem_filter.1 hm).1

end Still

-- Asking.

-- The collector of whoever is asked keeps what it finds out, and no more comes of it.
theorem still_bench {e : AclEvaluator} {work : EvaluatorM α}
    (hw : work.Question s.view s.registry) : Still s { s with
      collectors := s.collectors.set e.collector (work.run.run (s.bench e)).2.collector } := by
  refine Still.set_collector fun c hc => ?_
  obtain ⟨-, _, collector⟩ := hw.like (b := s.bench e)
  rw [collector, bench_collector hc]
  exact ⟨rfl, rfl, fun _ => rfl⟩

theorem still_query {everything : α} {readOnly : Except AccessError α} {work : EvaluatorM α}
    (hw : work.Question s.view s.registry) :
    Still s (s.after (query n everything readOnly work)) := by
  rw [after, run_query]
  split
  case h_4 e he =>
    refine (still_bench hw).trans (Still.modify_evaluator fun e' he' => ?_)
    obtain ⟨⟨_, _, evaluator⟩, -⟩ := hw.like (b := s.bench e)
    obtain rfl := Option.some_inj.1 (he.symm.trans he')
    rw [evaluator]
    rfl
  all_goals exact .refl

-- Passing on changes.

theorem leads_still_ask {p : Probe} : Leads (Still s₀) (Probe.ask p) (Still s₀) := by
  refine .bind (Q := Still s₀) (fun s h => ?_) fun result => ?_
  · refine h.trans ?_
    rw [run_grants]
    exact still_query (EvaluatorM.grants_eq ▸ .map _ (.decision p.path))
  · cases result <;> exact .pure

theorem leads_still_notify {change : PolicyChange} {l : ChangeListener} :
    Leads (Still s₀) (notify change l) (Still s₀) := by
  cases l
  case evaluator n =>
    refine .modify fun s h => h.trans (.modify_evaluator fun e _ => ?_)
    cases e <;> rfl
  case recorder n =>
    refine .bind .get fun s => ?_
    split
    case h_2 => exact .pure
    case h_1 r _ =>
      have keep (probe : Option (Option Bool)) : Leads (Still s₀)
          (modify fun s : Repository => { s with
            changeRecorders := s.changeRecorders.modify n fun r =>
              { r with unread := r.unread ++ [⟨change, probe⟩] } }) (Still s₀) :=
        .modify fun s h => h.trans (.elsewhere rfl rfl rfl rfl rfl rfl)
      cases r.probe
      case none   => exact .bind .pure keep
      case some p => exact .bind (.bind leads_still_ask fun _ => .pure) keep

theorem Leads.forM {P : Repository → Prop} {f : β → StateM Repository PUnit} {l : List β}
    (h : ∀ b, Leads P (f b) P) : Leads P (l.forM f) P := by
  induction l
  case nil         => exact .pure
  case cons b l hi => exact (h b).bind fun _ => hi

-- A collector drops nobody that is there.
theorem still_hear {events : List Event} : Still s ((hear n events).run s).2 := by
  rw [run_hear]
  split
  case isTrue => exact .refl
  case isFalse =>
    split
    case h_1 => exact .refl
    case h_2 c hc =>
      refine Leads.forM (fun _ => leads_still_notify) _ (Still.set_collector fun c' hc' => ?_)
      obtain rfl := Option.some_inj.1 (hc.symm.trans hc')
      refine ⟨rfl, rfl, fun there => List.filter_eq_self.2 fun l hl => ?_⟩
      have ⟨m, hm, there⟩ := there l hl
      rw [hm]
      exact there

theorem leads_still_deliver {d : Listener × List Event} :
    Leads (Still s₀) (deliver d) (Still s₀) := by
  rcases d with ⟨n | n, batch⟩
  case collector => exact fun _ h => h.trans still_hear
  case recorder =>
    refine .bind .get fun s => ?_
    split
    case h_2 => exact .pure
    case h_1 r _ =>
      refine .bind (Q := Still s₀)
        (.modify fun s h => h.trans (.elsewhere rfl rfl rfl rfl rfl rfl)) fun _ => ?_
      refine .bind_get fun s h => ?_
      split
      case h_2 => exact fun _ hs => hs ▸ h
      case h_1 recorder id hid =>
        have ⟨_, _, hname⟩ := Option.bind_eq_some_iff.1 hid
        refine .bind_get fun _ hs => hs ▸ ?_
        split
        case h_2 => exact fun _ hs => hs ▸ h
        case h_1 dispatcher hd =>
          rintro _ rfl
          exact h.trans (.unsubscribe (Recorders.mem_of_find hname) hd)

theorem still_dispatch {events : List Event} : Still s ((dispatch events).run s).2 :=
  Leads.forM (fun _ => leads_still_deliver) _ .refl

-- Writing and saving.

theorem still_inSession {work : SessionM ε α} : Still s (s.after (inSession n work)) := by
  rw [after, run_inSession]
  exact .elsewhere rfl rfl rfl rfl rfl rfl

theorem still_refresh {keepChanges : Bool} : Still s (s.after (refresh n keepChanges)) := by
  rw [after, run_refresh]
  split
  case h_1 => exact .refl
  case h_2 => exact .elsewhere rfl rfl rfl rfl rfl rfl

theorem still_save : Still s (s.after (save n)) := by
  rcases after_save_cases (s := s) (n := n) with same | ⟨_, saved, _, told⟩
  case inl =>
    rw [same]
    exact .refl
  case inr =>
    have committed : Still s (s.committed n saved) := .elsewhere rfl rfl rfl rfl rfl rfl
    exact told ▸ committed.trans still_dispatch

end Repository

end PolicyTree
