import Mathlib.Tactic.Common
import PolicyTree.Proofs.Policy.Naming
import PolicyTree.Proofs.Repository.Runs

namespace PolicyTree.Repository

variable {s s' : Repository} {n c : Nat}

-- The collector is open, and subscribed to changes of policies.
def Listens (s : Repository) (c : Nat) : Prop :=
  ∃ collector id, s.collectors.get? c = some collector ∧ collector.subscription = some id ∧
    ⟨id, PolicyChange.filter, .collector c⟩ ∈ s.dispatcher.subscriptions

instance : Decidable (s.Listens c) :=
  decidable_of_iff (((s.collectors.get? c).bind (·.subscription)).any fun id =>
      s.dispatcher.subscriptions.any fun sub =>
        sub.id = id ∧ sub.filter = PolicyChange.filter ∧ sub.listener = .collector c) <| by
    constructor
    case mp =>
      intro h
      have ⟨id, hid, h⟩ := (Option.any_eq_true _ _).1 h
      have ⟨collector, hc, hs⟩ := Option.bind_eq_some_iff.1 hid
      obtain ⟨sub, hm, hsub⟩ := List.any_eq_true.1 h
      obtain ⟨rfl, hf, hl⟩ := of_decide_eq_true hsub
      exact ⟨collector, sub.id, hc, hs, hf ▸ hl ▸ hm⟩
    case mpr =>
      rintro ⟨collector, id, hc, hs, hm⟩
      refine (Option.any_eq_true _ _).2 ⟨id, Option.bind_eq_some_iff.2 ⟨_, hc, hs⟩, ?_⟩
      exact List.any_eq_true.2 ⟨_, hm, by simp⟩

-- In the course of the deliveries the collector finds the change in its batch, forgets its entries,
-- and passes the change on to those of its listeners that are alive.
def Broadcasts (s : Repository) (deliveries : List (Listener × List Event)) (c : Nat)
    (change : PolicyChange) (s' : Repository) : Prop :=
  ∃ earlier batch later collector, deliveries = earlier ++ (.collector c, batch) :: later ∧
    let mid := ((earlier.forM deliver).run s).2
    let cleared := collector.invalidate mid.isAlive
    change = PolicyChange.ofEvents mid.view batch ∧ mid.collectors.get? c = some collector ∧
    s' = ((do
      cleared.listeners.forM fun l => notify change l.2
      later.forM deliver).run { mid with collectors := mid.collectors.set c cleared }).2

theorem run_forM_append {α : Type} {l l' : List α} {f : α → StateM Repository PUnit} :
    ((l ++ l').forM f).run s = (l'.forM f).run ((l.forM f).run s).2 := by
  induction l generalizing s
  case nil => rfl
  case cons a l hi => exact hi (s := ((f a).run s).2)

-- The collector gets the events that its filter accepts, if there are any.
theorem Listens.mem_deliveries (events : List Event) (hl : s.Listens c)
    (some : events.filter PolicyChange.filter.accepts ≠ []) :
    (.collector c, events.filter PolicyChange.filter.accepts) ∈ s.dispatcher.deliveries events := by
  have ⟨_, _, _, _, hsub⟩ := hl
  refine List.mem_filterMap.2 ⟨_, hsub, ?_⟩
  split
  case h_1 hb => exact absurd hb some
  case h_2    => rfl

theorem broadcasts_of_dispatch {events : List Event} {change : PolicyChange} (hl : s.Listens c)
    (hchange : PolicyChange.ofEvents s.view (events.filter PolicyChange.filter.accepts) = change)
    (hne : ¬change.isEmpty) :
    Broadcasts s (s.dispatcher.deliveries events) c change ((dispatch events).run s).2 := by
  have ⟨collector, id, hc, _, hsub⟩ := hl
  have mem := hl.mem_deliveries events fun hb => by
    simp [← hchange, hb, PolicyChange.ofEvents] at hne
  have ⟨earlier, later, hd⟩ := List.append_of_mem mem
  have calm := Relates.forM (l := earlier) (f := deliver) (fun _ => keepsCalm_deliver) s
  set mid := ((earlier.forM deliver).run s).2 with hmid
  have hview : mid.view = s.view := by rw [view, view, calm.saved, calm.faults]
  have ⟨collector', hc'⟩ : ∃ collector, mid.collectors.get? c = some collector := by
    have := calm.collectors c
    simp only [Table.contains_iff, hc, Option.isSome_some] at this
    exact Option.isSome_iff_exists.1 this
  refine ⟨earlier, _, later, collector', hd, by rw [hview, hchange], hc', ?_⟩
  have run : (dispatch events).run s = (later.forM deliver).run
      ((hear c (events.filter PolicyChange.filter.accepts)).run mid).2 := by
    show ((s.dispatcher.deliveries events).forM deliver).run s = _
    rw [hd, run_forM_append]
    rfl
  rw [run, run_hear, hview, hchange, if_neg hne, hc']
  rfl

theorem exists_batch_of_broadcasts {deliveries : List (Listener × List Event)}
    {change : PolicyChange} (h : Broadcasts s deliveries c change s') :
    ∃ d ∈ deliveries, change = PolicyChange.ofEvents s.view d.2 := by
  obtain ⟨earlier, batch, later, _, rfl, hchange, _⟩ := h
  have calm := Relates.forM (l := earlier) (f := deliver) (fun _ => keepsCalm_deliver) s
  refine ⟨(.collector c, batch), by simp, ?_⟩
  rw [hchange, view, view, calm.saved, calm.faults]

variable {id : NodeId} {o o' : NodeHandle}

-- A save that changes what is read as the policy of a node, which is there before and after, makes
-- a collector that is open forget its entries and name the node to its listeners, or, where the
-- policy has lost an entry with the name of a policy, the node of the policy. Only a policy that is
-- made by mixins of nodes that were there before may come unnoticed.
theorem save_broadcasts_policy_changes (hs : Reached s) (hsave : (save n).run.run s = (.ok (), s'))
    (hc : s.Listens c) (ho : s.saved.store.handle? id = some o)
    (ho' : s'.saved.store.handle? id = some o')
    (ne : Policy.load s.view s.registry o ≠ Policy.load s'.view s'.registry o')
    (hnew : ¬s.saved.store.OldNodeTurnsPolicy s'.saved.store id) :
    ∃ change, Broadcasts (s.committed n s'.saved)
        (s.dispatcher.deliveries (s.saved.store.changes s'.saved.store s.saved.types)) c change s' ∧
      (o.path ∈ change ∨ s.saved.store.NamesakeGoes s'.saved.store id ∧
        Path.join o.path Policy.nodeName ∈ change) := by
  have sound := Sound.reached hs
  rw [run_save] at hsave
  split at hsave
  case h_1 => exact nomatch (Prod.mk.inj hsave).1
  case h_2 =>
    split at hsave
    case h_1 => exact nomatch (Prod.mk.inj hsave).1
    case h_2 events saved hcommit =>
      obtain ⟨-, rfl⟩ := Prod.mk.inj hsave
      have calm : Calm (s.committed n saved) ((dispatch events).run _).2 := keepsCalm_dispatch _ _
      rw [calm.saved] at ho' hnew ⊢
      rw [view, view, calm.saved, calm.registry, calm.faults] at ne
      change Policy.load ((s.saved.store.view _).withFaults s.faults) s.registry o ≠
        Policy.load ((saved.store.view _).withFaults s.faults) s.registry o' at ne
      rw [sound.faults, TreeView.withFaults_empty, TreeView.withFaults_empty] at ne
      unfold Session.commit at hcommit
      split at hcommit
      case h_1 =>
        obtain ⟨-, rfl⟩ := Prod.mk.inj (Except.ok.inj hcommit)
        have ho' : s.saved.store.handle? id = some o' := ho'
        obtain rfl := Option.some_inj.1 (ho.symm.trans ho')
        exact absurd rfl ne
      case h_2 copy hw =>
        split at hcommit
        case isTrue => exact nomatch hcommit
        case isFalse hb =>
          obtain ⟨rfl, rfl⟩ := Prod.mk.inj (Except.ok.inj hcommit)
          have hcopy := sound.session hw
          have hb : copy.base = s.saved.revision := (not_not.1 hb).symm
          rw [sound.tree.types] at ne
          have named := Store.names_of_load_ne sound.tree.wellFormed (hcopy.wellFormed hb)
            (hcopy.follows hb) ho ho' ne hnew
          refine ⟨PolicyChange.ofEvents (copy.store.view .initial)
            ((s.saved.store.changes copy.store .initial).filter PolicyChange.filter.accepts),
            broadcasts_of_dispatch hc ?_ ?_, named⟩
          · show PolicyChange.ofEvents ((copy.store.view s.saved.types).withFaults s.faults)
              ((s.saved.store.changes copy.store s.saved.types).filter
                PolicyChange.filter.accepts) = _
            rw [sound.faults, TreeView.withFaults_empty, sound.tree.types]
          · have ⟨path, hpath⟩ : ∃ path, s.saved.store.Names copy.store path :=
              named.elim (fun h => ⟨_, h⟩) fun h => ⟨_, h.2⟩
            intro he
            rw [Store.Names, Std.ExtTreeMap.isEmpty_iff.1 he] at hpath
            exact Std.ExtTreeMap.not_mem_empty hpath

-- A node that may have a policy is given one.
def newPolicy : Repository :=
  initial .initial |>.after (ε := TreeError) (login .empty)
    |>.after (openCollector 10)
    |>.after (inSession 0 (SessionM.addNode ⟨⟨0⟩, "/"⟩ "a" "nt:unstructured"))
    |>.after (inSession 0 (SessionM.addMixin ⟨⟨1⟩, "/a"⟩ Policy.mixin))
    |>.after (save 0)
    |>.after (inSession 0 (SessionM.addNode ⟨⟨1⟩, "/a"⟩ Policy.nodeName Policy.listType))

theorem reached_newPolicy : Reached newPolicy :=
  .tail (.tail (.tail (.tail (.tail (.tail .refl (.login .empty)) moves_openCollector)
    (.work 0 (.addNode ..))) (.work 0 (.addMixin ..))) (.save 0)) (.work 0 (.addNode ..))

theorem new_policy_is_broadcast :
    let s' := newPolicy.after (save 0)
    ∃ change, Broadcasts (newPolicy.committed 0 s'.saved)
        (newPolicy.dispatcher.deliveries
          (newPolicy.saved.store.changes s'.saved.store newPolicy.saved.types)) 0 change s' ∧
      ("/a" ∈ change ∨ newPolicy.saved.store.NamesakeGoes s'.saved.store ⟨1⟩ ∧
        Path.join "/a" Policy.nodeName ∈ change) := by
  intro s'
  have ⟨saves, listens, before, after, ne, policy, fresh⟩ :
      ((save 0).run.run newPolicy).1.isOk ∧ newPolicy.Listens 0 ∧
      newPolicy.saved.store.handle? ⟨1⟩ = some ⟨⟨1⟩, "/a"⟩ ∧
      s'.saved.store.handle? ⟨1⟩ = some ⟨⟨1⟩, "/a"⟩ ∧
      (Policy.load newPolicy.view newPolicy.registry ⟨⟨1⟩, "/a"⟩).toOption ≠
        (Policy.load s'.view s'.registry ⟨⟨1⟩, "/a"⟩).toOption ∧
      s'.saved.store.policyOf? .initial ⟨1⟩ = some ⟨2⟩ ∧
      ⟨2⟩ ∉ newPolicy.saved.store.nodes := by decide +kernel
  have hsave : (save 0).run.run newPolicy = (.ok (), s') := by
    rcases hr : (save 0).run.run newPolicy with ⟨_ | _, _⟩
    · simp [hr, Except.isOk, Except.toBool] at saves
    · simp [s', Repository.after, hr]
  refine @save_broadcasts_policy_changes _ _ 0 0 ⟨1⟩ ⟨⟨1⟩, "/a"⟩ ⟨⟨1⟩, "/a"⟩
    reached_newPolicy hsave listens before after
    (fun h => ne (congrArg Except.toOption h)) ?_
  rintro ⟨_, q, hq, hp, _⟩
  obtain rfl := Option.some_inj.1 (policy.symm.trans hp)
  exact fresh hq

-- A node that has what would be a policy is allowed to have one only now.
def lateMixin : Repository :=
  initial .initial |>.after (ε := TreeError) (login .empty)
    |>.after (inSession 0 (SessionM.addNode ⟨⟨0⟩, "/"⟩ "a" "nt:unstructured"))
    |>.after (inSession 0 (SessionM.addNode ⟨⟨1⟩, "/a"⟩ Policy.nodeName Policy.listType))
    |>.after (save 0)
    |>.after (openCollector 10)
    |>.after (inSession 0 (SessionM.addMixin ⟨⟨1⟩, "/a"⟩ Policy.mixin))

theorem reached_lateMixin : Reached lateMixin :=
  .tail (.tail (.tail (.tail (.tail (.tail .refl (.login .empty)) (.work 0 (.addNode ..)))
    (.work 0 (.addNode ..))) (.save 0)) moves_openCollector) (.work 0 (.addMixin ..))

-- A policy loses an entry whose node has the name of a policy.
def lostNamesake : Repository :=
  initial .initial |>.after (ε := TreeError) (login .empty)
    |>.after (inSession 0 (SessionM.addNode ⟨⟨0⟩, "/"⟩ "a" "nt:unstructured"))
    |>.after (inSession 0 (SessionM.addMixin ⟨⟨1⟩, "/a"⟩ Policy.mixin))
    |>.after (inSession 0 (SessionM.addNode ⟨⟨1⟩, "/a"⟩ Policy.nodeName Policy.listType))
    |>.after (inSession 0 (SessionM.addNode ⟨⟨2⟩, "/a/rep:policy"⟩ Policy.nodeName
      Policy.allowType))
    |>.after (save 0)
    |>.after (openCollector 10)
    |>.after (inSession 0 (SessionM.removeNode ⟨⟨3⟩, "/a/rep:policy/rep:policy"⟩))

theorem reached_lostNamesake : Reached lostNamesake :=
  .tail (.tail (.tail (.tail (.tail (.tail (.tail (.tail .refl (.login .empty))
    (.work 0 (.addNode ..))) (.work 0 (.addMixin ..))) (.work 0 (.addNode ..)))
    (.work 0 (.addNode ..))) (.save 0)) moves_openCollector) (.work 0 (.removeNode _))

-- A save changes what is read as the policy of the first node, and the collector does not say so.
def Missed (s : Repository) : Prop :=
  let s' := s.after (save 0)
  Reached s ∧ ((save 0).run.run s).1.isOk ∧ s.Listens 0 ∧
  s.saved.store.handle? ⟨1⟩ = some ⟨⟨1⟩, "/a"⟩ ∧ s'.saved.store.handle? ⟨1⟩ = some ⟨⟨1⟩, "/a"⟩ ∧
  Policy.load s.view s.registry ⟨⟨1⟩, "/a"⟩ ≠ Policy.load s'.view s'.registry ⟨⟨1⟩, "/a"⟩ ∧
  ¬∃ change, Broadcasts (s.committed 0 s'.saved) (s.dispatcher.deliveries
    (s.saved.store.changes s'.saved.store s.saved.types)) 0 change s' ∧ "/a" ∈ change

-- No batch of the save tells of the node.
theorem Missed.of_silent (reached : Reached s)
    (silent : let s' := s.after (save 0)
      ((save 0).run.run s).1.isOk ∧ s.Listens 0 ∧
      s.saved.store.handle? ⟨1⟩ = some ⟨⟨1⟩, "/a"⟩ ∧
      s'.saved.store.handle? ⟨1⟩ = some ⟨⟨1⟩, "/a"⟩ ∧
      (Policy.load s.view s.registry ⟨⟨1⟩, "/a"⟩).toOption ≠
        (Policy.load s'.view s'.registry ⟨⟨1⟩, "/a"⟩).toOption ∧
      ∀ d ∈ s.dispatcher.deliveries (s.saved.store.changes s'.saved.store s.saved.types),
        "/a" ∉ PolicyChange.ofEvents (s.committed 0 s'.saved).view d.2) : Missed s := by
  obtain ⟨saves, listens, before, after, ne, silent⟩ := silent
  refine ⟨reached, saves, listens, before, after, fun he => ne (congrArg Except.toOption he), ?_⟩
  rintro ⟨change, hb, hm⟩
  have ⟨d, hd, hchange⟩ := exists_batch_of_broadcasts hb
  exact silent d hd (hchange ▸ hm)

theorem some_policy_changes_are_not_broadcast : Missed lateMixin ∧ Missed lostNamesake :=
  ⟨.of_silent reached_lateMixin (by decide +kernel),
    .of_silent reached_lostNamesake (by decide +kernel)⟩

end PolicyTree.Repository
