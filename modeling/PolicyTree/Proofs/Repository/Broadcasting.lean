import Mathlib.Tactic.Common
import PolicyTree.Proofs.Repository.Hosting

namespace PolicyTree

def Subscription.batch? (sub : Subscription Listener) (events : List Event) :
    Option (Listener × List Event) :=
  match events.filter sub.filter.accepts with
  | []    => none
  | batch => some (sub.listener, batch)

theorem Dispatcher.deliveries_eq {d : Dispatcher Listener} {events : List Event} :
    d.deliveries events = d.subscriptions.filterMap (·.batch? events) := rfl

namespace Repository

variable {s s' : Repository} {c n : Nat} {change : PolicyChange} {events : List Event}
  {deliveries later : List (Listener × List Event)}

-- What a collector passes on of a delivery: the change that it finds, if there is any.
def passedOn? (s : Repository) (c : Nat) : Listener × List Event → Option PolicyChange
  | (.recorder _, _) => none
  | (.collector n, batch) =>
    let change := PolicyChange.ofEvents s.view batch
    if n = c ∧ s.collectors.contains c ∧ ¬change.isEmpty then some change else none

def broadcasts (c : Nat) : List (Listener × List Event) → Repository → List PolicyChange
  | [], _ => []
  | d :: later, s => (s.passedOn? c d).toList ++ broadcasts c later ((deliver d).run s).2

theorem passedOn_eq_some_iff {d : Listener × List Event} : s.passedOn? c d = some change ↔
    ∃ batch, d = (.collector c, batch) ∧ PolicyChange.ofEvents s.view batch = change ∧
      ¬change.isEmpty ∧ s.collectors.contains c := by
  obtain ⟨⟨m⟩ | ⟨m⟩, batch⟩ := d
  case recorder => simp [passedOn?]
  case collector =>
    rw [passedOn?]
    constructor
    case mp =>
      intro h
      split at h
      case isFalse => exact nomatch h
      case isTrue hm =>
        obtain ⟨rfl, there, some⟩ := hm
        obtain rfl := Option.some_inj.1 h
        exact ⟨batch, rfl, rfl, some, there⟩
    case mpr =>
      rintro ⟨_, heq, rfl, some, there⟩
      obtain ⟨hm, rfl⟩ := Prod.mk.inj heq
      exact if_pos ⟨Listener.collector.inj hm, there, some⟩

theorem broadcasts_append {l l' : List (Listener × List Event)} :
    broadcasts c (l ++ l') s = broadcasts c l s ++ broadcasts c l' ((l.forM deliver).run s).2 := by
  induction l generalizing s
  case nil          => rfl
  case cons d l hi  =>
    rw [List.cons_append, broadcasts, broadcasts, hi, List.append_assoc]
    rfl

theorem bind_batch {sub : Subscription Listener} :
    let change := PolicyChange.ofEvents s.view (events.filter sub.filter.accepts)
    (sub.batch? events).bind (s.passedOn? c) =
      if sub.listener = .collector c ∧ s.collectors.contains c ∧ ¬change.isEmpty then some change
      else none := by
  intro change
  unfold Subscription.batch?
  split
  case h_1 hb =>
    have : change = ∅ := by simp [change, hb, PolicyChange.ofEvents]
    simp [this]
  case h_2 =>
    cases hl : sub.listener
    case recorder   => simp [passedOn?]
    case collector  => simp [passedOn?, change]

-- What is passed on is what the collector finds in one of its batches before it forgets its entries
-- and tells its listeners.
theorem mem_broadcasts_iff : change ∈ broadcasts c deliveries s ↔ ¬change.isEmpty ∧
    Broadcasts s deliveries c change ((deliveries.forM deliver).run s).2 := by
  constructor
  case mp =>
    intro h
    induction deliveries generalizing s
    case nil            => exact nomatch h
    case cons d later hi =>
      rcases List.mem_append.1 h with h | h
      · obtain ⟨batch, rfl, rfl, some, there⟩ := passedOn_eq_some_iff.1 (Option.mem_toList.1 h)
        have ⟨collector, hc⟩ := Option.isSome_iff_exists.1 (Table.contains_iff ▸ there)
        refine ⟨some, [], batch, later, collector, rfl, rfl, hc, ?_⟩
        have heard : ((deliver (.collector c, batch)).run s).2 = _ := congrArg Prod.snd run_hear
        rw [if_neg some, hc] at heard
        show ((later.forM deliver).run ((deliver (.collector c, batch)).run s).2).2 = _
        rw [heard]
        rfl
      · obtain ⟨some, earlier, batch, later, collector, rfl, hb⟩ := hi h
        exact ⟨some, d :: earlier, batch, later, collector, rfl, hb⟩
  case mpr =>
    rintro ⟨some, earlier, batch, later, collector, rfl, rfl, hc, -⟩
    rw [broadcasts_append, broadcasts]
    refine List.mem_append_right _ (List.mem_append_left _ (Option.mem_toList.2 ?_))
    exact passedOn_eq_some_iff.2 ⟨batch, rfl, rfl, some, by rw [Table.contains_iff, hc]; rfl⟩

-- Deliveries change nothing about what is passed on of later ones.
theorem broadcasts_eq : broadcasts c deliveries s = deliveries.filterMap (s.passedOn? c) := by
  induction deliveries generalizing s
  case nil              => rfl
  case cons d later hi  =>
    have calm : Calm s ((deliver d).run s).2 := keepsCalm_deliver s
    have same : ((deliver d).run s).2.passedOn? c = s.passedOn? c := by
      funext ⟨l, batch⟩
      cases l <;> simp [passedOn?, calm.view_eq, calm.collectors]
    rw [broadcasts, hi, same, List.filterMap_cons]
    cases s.passedOn? c d <;> rfl

-- An open collector has one subscription, and so gets one batch at most.
theorem broadcasts_of_open (h : Subscribed s.dispatcher s.recorders.named s.collectors)
    (hc : s.IsOpen c) :
    let change := PolicyChange.ofEvents s.view (events.filter PolicyChange.filter.accepts)
    broadcasts c (s.dispatcher.deliveries events) s = if change.isEmpty then [] else [change] := by
  intro change
  obtain ⟨collector, id, hcollector, _, mem⟩ := listens_of_open h hc
  obtain ⟨earlier, later, hsubs⟩ := List.append_of_mem mem
  have ⟨_, after, before⟩ := List.pairwise_append.1 (hsubs ▸ h.alone)
  have others {subs : List (Subscription Listener)}
      (hs : ∀ sub ∈ subs, sub.listener ≠ .collector c) :
      subs.filterMap (fun sub => (sub.batch? events).bind (s.passedOn? c)) = [] := by
    refine List.filterMap_eq_nil_iff.2 fun sub hsub => ?_
    rw [bind_batch, if_neg fun hl => hs sub hsub hl.1]
  have there : s.collectors.contains c := by rw [Table.contains_iff, hcollector]; rfl
  rw [broadcasts_eq, Dispatcher.deliveries_eq, List.filterMap_filterMap, hsubs,
    List.filterMap_append, List.filterMap_cons, others, others, bind_batch, List.nil_append]
  · by_cases empty : change.isEmpty <;> simp [change, empty, there]
  · exact fun sub hsub hl => (List.pairwise_cons.1 after).1 sub hsub c rfl hl
  · exact fun sub hsub hl => before sub hsub _ List.mem_cons_self c hl rfl

-- What a curating session saves is told of by every open collector: at most once, if and only if a
-- policy has come or gone, and then exactly what has become of policies.
theorem save_broadcasts_exactly {curates : Nat → Prop} (h : Hosted curates s) (hn : curates n)
    (hsave : (save n).run.run s = (.ok (), s')) (hc : s.IsOpen c) :
    let start := s.committed n s'.saved
    let deliveries := s.dispatcher.deliveries
      (s.saved.store.changes s'.saved.store s.saved.types)
    let changes := broadcasts c deliveries start
    changes.length ≤ 1 ∧
    (changes = [] ↔ ∀ path, ¬PolicyChange.Comes s.view s'.view path ∧
      ¬PolicyChange.Goes s.view s'.view path) ∧
    ∀ change ∈ changes, Broadcasts start deliveries c change s' ∧
      change.Exact s.view s'.view := by
  intro start deliveries changes
  have curated := Curated.hosted h
  have ⟨events, hcommit, run⟩ := commit_of_save hsave
  have told : events = s.saved.store.changes s'.saved.store s.saved.types := by
    rcases Session.commit_cases hcommit with ⟨_, rfl, same⟩ | ⟨c, _, _, rfl, saved⟩
    case inl => exact same ▸ Store.changes_self.symm
    case inr => exact saved ▸ rfl
  have run : ((deliveries.forM deliver).run start).2 = s' := by rwa [told] at run
  have ⟨replaced, types⟩ := curated.replaced hn hcommit
  have view : start.view = s'.saved.store.view .initial := by
    show (s'.saved.store.view s'.saved.types).withFaults s.faults = _
    rw [types, curated.sound.faults, TreeView.withFaults_empty]
  have view' : s'.view = start.view := by
    rw [← run]
    exact (Relates.forM (fun _ => keepsCalm_deliver) start).view_eq
  have exact := replaced.exact
  rw [← view, ← curated.sound.view_eq, ← curated.sound.tree.types, ← view'] at exact
  have subscribed : Subscribed start.dispatcher start.recorders.named start.collectors :=
    curated.holds.subscribed
  have passed : changes = _ := broadcasts_of_open subscribed hc
  rw [← view'] at passed
  have heard : ∀ change ∈ changes, Broadcasts start deliveries c change s' := fun change hm =>
    run ▸ (mem_broadcasts_iff.1 hm).2
  rw [← exact.isEmpty_iff]
  split at passed
  case isTrue empty =>
    rw [passed]
    exact ⟨Nat.zero_le _, iff_of_true rfl empty, nofun⟩
  case isFalse some =>
    rw [passed] at heard ⊢
    refine ⟨Nat.le_refl _, iff_of_false (List.cons_ne_nil _ _) some, fun change hm => ?_⟩
    exact ⟨heard change hm, List.mem_singleton.1 hm ▸ exact⟩

-- Two nodes have policies. One is given another, the other goes, and the root gets one.

def readers (owner : NodeHandle) : Policy :=
  ⟨owner, [⟨"alice", [Privilege.concrete Privilege.readName .read], true, ∅, owner⟩]⟩

def twoPolicies : Repository :=
  initial .initial |>.after (ε := TreeError) (login .empty)
    |>.after (openCollector 10)
    |>.after (inSession 0 (SessionM.addNode ⟨⟨0⟩, "/"⟩ "a" "nt:unstructured"))
    |>.after (inSession 0 (SessionM.addNode ⟨⟨0⟩, "/"⟩ "b" "nt:unstructured"))
    |>.after (inSession 0 (Editor.setPolicy "/a" (readers ⟨⟨1⟩, "/a"⟩)))
    |>.after (inSession 0 (Editor.setPolicy "/b" ⟨⟨⟨2⟩, "/b"⟩, []⟩))
    |>.after (save 0)

def otherPolicies : Repository :=
  twoPolicies |>.after (inSession 0 (Editor.setPolicy "/a" ⟨⟨⟨1⟩, "/a"⟩, []⟩))
    |>.after (inSession 0 (SessionM.removeNode ⟨⟨2⟩, "/b"⟩))
    |>.after (inSession 0 (Editor.setPolicy "/" ⟨⟨⟨0⟩, "/"⟩, []⟩))

def toldOfOthers : List (String × Modifications) :=
  [("/", .added), ("/a", .added ∪ .modified ∪ .removed), ("/b", .removed)]

theorem Hosts.curated {α ε : Type} {work : SessionM ε α}
    (h : work.Curates ((s.session n).store s.saved)) :
    Hosts (fun _ => True) s (s.after (inSession n work)) := .work n h.composed fun _ => h

theorem hosted_otherPolicies : Hosted (fun _ => True) otherPolicies := by
  have add {s : Repository} {name : String} (named : name ≠ Policy.nodeName)
      (outside : ¬((s.session 0).store s.saved).IsContent ⟨0⟩) : Hosts (fun _ => True) s
        (s.after (inSession 0 (SessionM.addNode ⟨⟨0⟩, "/"⟩ name "nt:unstructured"))) :=
    .curated (.addNode outside named (by decide))
  have set {s : Repository} {p : Policy}
      (genuine : ((s.session 0).store s.saved).handle? p.owner.id = some p.owner) :
      Hosts (fun _ => True) s (s.after (inSession 0 (Editor.setPolicy p.owner.path p))) :=
    .curated (.setPolicy _ fun _ ho => Option.some_inj.1 (ho.symm.trans genuine))
  have save {s : Repository} : Hosts (fun _ => True) s (s.after (save 0)) :=
    .save 0 (absurd trivial)
  have login : Hosts (fun _ => True) (.initial .initial) _ := .use (.login .empty) .login
  have collects {s : Repository} : Hosts (fun _ => True) s (s.after (openCollector 10)) :=
    .use (.check (.openCollector 10)) (Checks.openCollector 10).rests.idles
  refine .tail (.tail (.tail (.tail (.tail (.tail (.tail (.tail (.tail (.tail .refl login) collects)
    (add (by decide) ?_)) (add (by decide) ?_)) (set (p := readers ⟨⟨1⟩, "/a"⟩) ?_))
    (set (p := ⟨⟨⟨2⟩, "/b"⟩, []⟩) ?_)) save) (set (p := ⟨⟨⟨1⟩, "/a"⟩, []⟩) ?_))
    (.curated (.removeNode ?_))) (set (p := ⟨⟨⟨0⟩, "/"⟩, []⟩) ?_)
  all_goals decide +kernel

theorem other_policies_are_broadcast :
    let s' := otherPolicies.after (save 0)
    let start := otherPolicies.committed 0 s'.saved
    let deliveries := otherPolicies.dispatcher.deliveries
      (otherPolicies.saved.store.changes s'.saved.store otherPolicies.saved.types)
    let changes := broadcasts 0 deliveries start
    ((save 0).run.run otherPolicies).1.isOk ∧ otherPolicies.IsOpen 0 ∧
    changes.map (·.toList) = [toldOfOthers] ∧
    ∀ change ∈ changes, Broadcasts start deliveries 0 change s' ∧
      change.Exact otherPolicies.view s'.view := by
  intro s' start deliveries changes
  obtain ⟨saves, isOpen, told⟩ : ((save 0).run.run otherPolicies).1.isOk ∧ otherPolicies.IsOpen 0 ∧
      changes.map (·.toList) = [toldOfOthers] := by decide +kernel
  have hsave : (save 0).run.run otherPolicies = (.ok (), s') := by
    rcases hr : (save 0).run.run otherPolicies with ⟨_ | _, _⟩
    · simp [hr, Except.isOk, Except.toBool] at saves
    · simp [s', Repository.after, hr]
  obtain ⟨_, _, exact⟩ := save_broadcasts_exactly hosted_otherPolicies trivial hsave isOpen
  exact ⟨saves, isOpen, told, exact⟩

end Repository

end PolicyTree
