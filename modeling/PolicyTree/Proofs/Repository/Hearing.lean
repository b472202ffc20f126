import Mathlib.Tactic.Common
import PolicyTree.Proofs.Repository.Caches

namespace PolicyTree.Repository

variable {α β : Type} {s s' : Repository} {t : Truths} {late unheard : Nat → Prop} {n : Nat}

-- Work that makes of states of one kind states of another.
def Leads (P : Repository → Prop) (work : StateM Repository α) (Q : Repository → Prop) : Prop :=
  ∀ s, P s → Q (work.run s).2

namespace Leads

variable {P Q R : Repository → Prop}

theorem pure {a : α} : Leads P (pure a) P := fun _ => id

theorem bind {x : StateM Repository β} {f : β → StateM Repository α} (hx : Leads P x Q)
    (hf : ∀ b, Leads Q (f b) R) : Leads P (x >>= f) R :=
  fun s hs => hf _ _ (hx s hs)

theorem get : Leads P (get : StateM Repository Repository) P := fun _ => id

-- The state that is got is the one to go on from.
theorem bind_get {f : Repository → StateM Repository α} (h : ∀ s, P s → Leads (· = s) (f s) Q) :
    Leads P (MonadState.get >>= f) Q :=
  fun s hs => h s hs s rfl

theorem modify {f : Repository → Repository} (h : ∀ s, P s → Q (f s)) : Leads P (modify f) Q := h

end Leads

-- Besides, what is found out now is as said.
structure Current (t : Truths) (late unheard : Nat → Prop) (s : Repository) : Prop where
  holds     : s.Holds t late unheard
  sustained : t.Sustained s.view s.registry

theorem Current.weaken {late' unheard' : Nat → Prop} (h : s.Current t late unheard)
    (hl : ∀ c, late c → late' c) (hu : ∀ n, unheard n → unheard' n) : s.Current t late' unheard' :=
  ⟨h.holds.weaken hl hu, h.sustained⟩

theorem Calm.view_eq (h : Calm s s') : s'.view = s.view := by
  rw [view, view, h.saved, h.faults]

theorem Calm.sustained (h : Calm s s') (sus : t.Sustained s.view s.registry) :
    t.Sustained s'.view s'.registry := by
  rwa [h.view_eq, h.registry]

theorem leads_ask {p : Probe} :
    Leads (Current t late unheard) (Probe.ask p) (Current t late unheard) := by
  refine .bind (Q := Current t late unheard) (fun s h => ?_) fun result => ?_
  · refine ⟨?_, (discreet_grants s).toCalm.sustained h.sustained⟩
    rw [run_grants]
    exact h.holds.ask h.sustained (EvaluatorM.grants_eq ▸ .map _ (.decision p.path))
  · cases result <;> exact .pure

-- Recorders only ask.
theorem leads_notify_recorder {change : PolicyChange} :
    Leads (Current t late unheard) (notify change (.recorder n)) (Current t late unheard) := by
  refine .bind .get fun s => ?_
  split
  case h_2 => exact .pure
  case h_1 r _ =>
    have keep (probe : Option (Option Bool)) : Leads (Current t late unheard)
        (modify fun s : Repository => { s with
          changeRecorders := s.changeRecorders.modify n fun r =>
            { r with unread := r.unread ++ [⟨change, probe⟩] } }) (Current t late unheard) :=
      .modify fun s h => ⟨⟨h.holds.subscribed, h.holds.entries, h.holds.answers⟩, h.sustained⟩
    cases r.probe
    case none   => exact .bind .pure keep
    case some p => exact .bind (.bind leads_ask fun _ => .pure) keep

-- An evaluator that is told of a change has nothing left.
theorem leads_notify {change : PolicyChange} {l : ChangeListener} :
    Leads (Current t late unheard) (notify change l)
      (Current t late fun n => unheard n ∧ l ≠ .evaluator n) := by
  cases l
  case recorder n =>
    intro s h
    exact (leads_notify_recorder s h).weaken (fun _ => id) fun _ hm => ⟨hm, nofun⟩
  case evaluator n =>
    refine .modify fun s ⟨holds, sustained⟩ =>
      ⟨⟨holds.subscribed, holds.entries, fun {m e} he hh hl hu => ?_⟩, sustained⟩
    simp only [Table.get?_modify] at he
    split at he
    case isFalse hm =>
      exact holds.answers he hh hl fun hun =>
        hu ⟨hun, fun heq => hm (ChangeListener.evaluator.inj heq).symm⟩
    case isTrue =>
      obtain ⟨old, -, he⟩ := Option.map_eq_some_iff.1 he
      split at he
      case h_1 e' => exact Evaluator.acl.inj he ▸ .forget
      case h_2 other => exact (other _ he).elim

theorem leads_notify_all {change : PolicyChange} {listeners : List (Nat × ChangeListener)} :
    Leads (Current t late unheard) (listeners.forM fun l => notify change l.2)
      (Current t late fun n => unheard n ∧ ∀ l ∈ listeners, l.2 ≠ .evaluator n) := by
  induction listeners generalizing unheard
  case nil =>
    exact fun _ h => h.weaken (fun _ => id) fun _ hm => ⟨hm, nofun⟩
  case cons l listeners hi =>
    refine .bind leads_notify fun _ s h => (hi s h).weaken (fun _ => id) fun _ hm => ?_
    exact ⟨hm.1.1, List.forall_mem_cons.2 ⟨hm.1.2, hm.2⟩⟩

-- The collector is to find a change in one of the batches.
def Due (s : Repository) (deliveries : List (Listener × List Event)) (c : Nat) : Prop :=
  ∃ batch, (.collector c, batch) ∈ deliveries ∧ ¬(PolicyChange.ofEvents s.view batch).isEmpty

-- A collector that finds a change forgets, and then tells all its listeners.
theorem Current.hear {late' : Nat → Prop} {events : List Event}
    (h : s.Current t late fun _ => False)
    (hl : ∀ c, late c → late' c ∨ c = n ∧ ¬(PolicyChange.ofEvents s.view events).isEmpty) :
    ((hear n events).run s).2.Current t late' fun _ => False := by
  have other {c : Nat} (hn : c ≠ n) : ¬late' c → ¬late c :=
    fun hlate hc => hn ((hl c hc).resolve_left hlate).1
  rw [run_hear]
  split
  case isTrue silent =>
    exact h.weaken (fun c hc => (hl c hc).resolve_right (·.2 silent)) fun _ => id
  case isFalse =>
    split
    case h_1 none =>
      refine ⟨⟨h.holds.subscribed, fun {c _} hc ho hlate => ?_, fun he hh hlate => ?_⟩, h.sustained⟩
      · refine h.holds.entries hc ho (other ?_ hlate)
        rintro rfl
        simp [none] at hc
      · refine h.holds.answers he hh (other ?_ hlate)
        rintro rfl
        obtain ⟨_, _, hc, _⟩ := hh
        simp [none] at hc
    case h_2 collector hcollector =>
      set cleared := collector.invalidate s.isAlive
      have found {c : Nat} {collector' : Collector}
          (hc : (s.collectors.set n cleared).get? c = some collector') :
          c = n ∧ collector' = cleared ∨ c ≠ n ∧ s.collectors.get? c = some collector' := by
        rw [Table.get?_set] at hc
        split at hc
        case isFalse hn => exact .inr ⟨hn, hc⟩
        case isTrue hn  =>
          obtain ⟨_, _, rfl⟩ := Option.map_eq_some_iff.1 hc
          exact .inl ⟨hn, rfl⟩
      -- Its listeners have yet to hear of it.
      have forgotten : Current t late' (fun m => ∃ id, (id, .evaluator m) ∈ cleared.listeners)
          { s with collectors := s.collectors.set n cleared } := by
        refine ⟨⟨?_, fun {c collector'} hc ho hlate => ?_, fun {m e} he hh hlate hu => ?_⟩,
          h.sustained⟩
        · refine h.holds.subscribed.follow fun {c collector'} hc => ?_
          rcases found hc with ⟨rfl, rfl⟩ | ⟨_, hc⟩
          · exact ⟨collector, hcollector, fun _ hs => hs⟩
          · exact ⟨collector', hc, fun _ hs => hs⟩
        · rcases found hc with ⟨_, rfl⟩ | ⟨hn, hc⟩
          · exact Cache.holds_clear
          · exact h.holds.entries hc ho (other hn hlate)
        · obtain ⟨collector', id, hc, ho, hm⟩ := hh
          rcases found hc with ⟨_, rfl⟩ | ⟨hn, hc⟩
          · exact absurd ⟨id, hm⟩ hu
          · exact h.holds.answers he ⟨collector', id, hc, ho, hm⟩ (other hn hlate) not_false
      exact (leads_notify_all _ forgotten).weaken (fun _ => id)
        fun m ⟨⟨id, hid⟩, hm⟩ => hm _ hid rfl

theorem leads_deliver_recorder {batch : List Event} :
    Leads (Current t late unheard) (deliver (.recorder n, batch)) (Current t late unheard) := by
  refine .bind .get fun s => ?_
  split
  case h_2 => exact .pure
  case h_1 r _ =>
    refine .bind (Q := Current t late unheard)
      (.modify fun s h => ⟨⟨h.holds.subscribed, h.holds.entries, h.holds.answers⟩, h.sustained⟩)
      fun _ => ?_
    refine .bind_get fun s h => ?_
    split
    case h_2 => exact fun _ hs => hs ▸ h
    case h_1 recorder id hid =>
      have ⟨_, _, hname⟩ := Option.bind_eq_some_iff.1 hid
      refine .bind_get fun _ hs => hs ▸ ?_
      split
      case h_2 => exact fun _ hs => hs ▸ h
      case h_1 dispatcher hd =>
        rintro _ rfl
        refine ⟨h.holds.elsewhere rfl rfl (h.holds.subscribed.unsubscribe hd ?_), h.sustained⟩
        exact h.holds.subscribed.not_named (Recorders.mem_of_find hname)

-- Whoever is to find a change does, in the course of the deliveries.
theorem Current.deliver_all {late' : Nat → Prop} {deliveries : List (Listener × List Event)}
    (h : s.Current t (fun c => late' c ∨ s.Due deliveries c) fun _ => False) :
    ((deliveries.forM deliver).run s).2.Current t late' fun _ => False := by
  induction deliveries generalizing s
  case nil =>
    exact h.weaken (fun _ hl => hl.resolve_right fun ⟨_, hm, _⟩ => nomatch hm) fun _ => id
  case cons d deliveries hi =>
    have next : ((deliver d).run s).2.Current t (fun c => late' c ∨ s.Due deliveries c)
        fun _ => False := by
      obtain ⟨⟨n⟩ | ⟨n⟩, batch⟩ := d
      case recorder =>
        refine (leads_deliver_recorder s h).weaken (fun c hl => ?_) fun _ => id
        refine hl.imp_right fun ⟨b, hm, loud⟩ => ⟨b, ?_, loud⟩
        exact (List.mem_cons.1 hm).resolve_left fun heq => nomatch (Prod.mk.inj heq).1
      case collector =>
        refine h.hear fun c hl => ?_
        rcases hl with hl | ⟨b, hm, loud⟩
        · exact .inl (.inl hl)
        rcases List.mem_cons.1 hm with heq | hm
        · obtain ⟨hc, rfl⟩ := Prod.mk.inj heq
          exact .inr ⟨Listener.collector.inj hc, loud⟩
        · exact .inl (.inr ⟨b, hm, loud⟩)
    have due : ((deliver d).run s).2.Due deliveries = s.Due deliveries := by
      unfold Due
      rw [Calm.view_eq (keepsCalm_deliver s)]
    exact hi (due ▸ next)

theorem Listens.due {c : Nat} {events : List Event} (hl : s.Listens c)
    (loud : ¬(PolicyChange.ofEvents s.view (events.filter PolicyChange.filter.accepts)).isEmpty) :
    s.Due (s.dispatcher.deliveries events) c :=
  ⟨_, hl.mem_deliveries _ fun hb => by simp [hb, PolicyChange.ofEvents] at loud, loud⟩

-- After a dispatch the news is late only where it may be, if every other open collector for which
-- it was finds it.
theorem Current.dispatch {late' : Nat → Prop} (events : List Event)
    (h : s.Current t late fun _ => False)
    (due : ∀ c, s.Listens c → late c → late' c ∨ s.Due (s.dispatcher.deliveries events) c) :
    ((dispatch events).run s).2.Current t late' fun _ => False := by
  have listens {c : Nat} (ho : s.IsOpen c) : s.Listens c := listens_of_open h.holds.subscribed ho
  have start : s.Current t (fun c => late' c ∨ s.Due (s.dispatcher.deliveries events) c)
      fun _ => False := by
    refine ⟨⟨h.holds.subscribed, fun hc ho hd => ?_, fun he hh hd => ?_⟩, h.sustained⟩
    · exact h.holds.entries hc ho (hd ∘ due _ (listens ⟨_, hc, ho⟩))
    · have ⟨collector, _, hc, ho, _⟩ := hh
      exact h.holds.answers he hh (hd ∘ due _ (listens ⟨_, hc, ho⟩))
  exact start.deliver_all

end PolicyTree.Repository
