import Mathlib.Tactic.Common
import PolicyTree.Proofs.Repository.Hearing

namespace PolicyTree

-- A node has to be there for its entries to be collected.
theorem Store.mem_of_collect {s : Store} {t : NodeTypes} {r : Registry} {ps : PrincipalSet}
    {o : NodeHandle} {es : List Entry} (h : collect (s.view t) r ps o = .ok es) :
    o.id ∈ s.nodes := by
  by_contra hm
  have none : s.get o.id = .error (.noNode o.id) := by
    rw [Store.get, Std.ExtTreeMap.getElem?_eq_none hm]
  have isType : (s.view t).isType o Policy.mixin = .error (.noNode o.id) := by
    show (s.get o.id >>= _) = _
    rw [none]
    rfl
  have load : Policy.load (s.view t) r o = .error (.tree (.noNode o.id)) := by
    rw [Policy.load, Policy.node?, isType]
    rfl
  have collected : collect (s.view t) r ps o = .error (.tree (.noNode o.id)) := by
    rw [collect, Collection.levels, show (s.view t).height = s.nodes.size + 1 from rfl,
      Collection.levels.go, Collection.level, load]
    rfl
  cases collected.symm.trans h

namespace Repository

open Relation (ReflTransGen)

variable {s s' : Repository} {n : Nat} {path : String}

-- What may be kept of a state.
def truths (s : Repository) : Truths where
  entries        := KeptEntries s.saved.store s.registry s.Retired
  decisions _ ps := KeptDecision s.saved.store s.registry ps fun _ => False
  reads          := KeptRead s.saved.store s.registry s.Retired

-- Nothing is kept that is not right now, but for the removal of nodes.
def Coherent (s : Repository) : Prop := s.Holds s.truths (fun _ => False) fun _ => False

theorem Tended.view_eq (h : s.Tended) : s.view = s.saved.store.view .initial := h.sound.view_eq

theorem Tended.sustained (h : s.Tended) : s.truths.Sustained s.view s.registry := by
  rw [h.view_eq]
  exact fun n ps => sustains h.sound.tree.wellFormed fun _ hm hr => hr.saved hm

-- Whatever is said of the caches stays true of them, unless something is saved.
theorem Holds.uses {t : Truths} {late unheard : Nat → Prop} (h : s.Holds t late unheard)
    (sus : t.Sustained s.view s.registry)
    (collected : ∀ {ps node es}, (∀ o, s.saved.store.handle? node.id = some o → o = node) →
      collect s.view s.registry ps node = .ok es → t.entries (.of ps node) es)
    (hu : Uses s s') : s'.Holds t late unheard ∧ s'.saved = s.saved ∧ s'.registry = s.registry ∨
      ∃ n, s' = s.after (Repository.save n) := by
  cases hu
  case save n   => exact .inr ⟨n, rfl⟩
  case check hc =>
    exact .inl ⟨h.checks sus collected hc, hc.rests.saved, hc.rests.registry⟩
  case observe =>
    refine .inl ⟨?_, Rests.observe.saved, Rests.observe.registry⟩
    rw [after, run_observe]
    split
    case h_1 => exact h
    case h_2 hs =>
      obtain ⟨rfl, rfl⟩ := Dispatcher.subscribe_eq_ok hs
      exact Holds.elsewhere h rfl rfl (h.subscribed.observed fun _ hm => (List.mem_filter.1 hm).1)
  case unobserve hname =>
    refine .inl ⟨?_, Rests.unsubscribe.saved, Rests.unsubscribe.registry⟩
    rw [after, run_unsubscribe]
    split
    case h_1 => exact h
    case h_2 hd =>
      refine Holds.elsewhere h rfl rfl (h.subscribed.unsubscribe hd ?_)
      exact h.subscribed.not_named (Recorders.mem_of_find hname)
  case elsewhere saved registry _ _ _ collectors evaluators dispatcher named =>
    refine .inl ⟨Holds.elsewhere h collectors evaluators ?_, saved, registry⟩
    rw [dispatcher, named]
    exact h.subscribed
  case login => exact .inl ⟨⟨h.subscribed, h.entries, h.answers⟩, rfl, rfl⟩
  case edit  =>
    rw [after, run_inSession]
    exact .inl ⟨⟨h.subscribed, h.entries, h.answers⟩, rfl, rfl⟩
  case refresh n keepChanges =>
    rw [after, run_refresh]
    split
    case h_1 => exact .inl ⟨h, rfl, rfl⟩
    case h_2 => exact .inl ⟨⟨h.subscribed, h.entries, h.answers⟩, rfl, rfl⟩

-- The same may be kept as long as nothing is saved.
theorem Holds.still {late unheard : Nat → Prop} {s'' : Repository}
    (h : s''.Holds s.truths late unheard) (saved : s'.saved = s.saved)
    (registry : s'.registry = s.registry) (retired : ∀ x, s.Retired x → s'.Retired x) :
    s''.Holds s'.truths late unheard := by
  refine h.mono (fun hk => ?_) (fun hk => ?_) fun hk => ?_
  · rw [truths, saved, registry]
    exact hk.imp_left (retired _)
  · rwa [truths, saved, registry]
  · rw [truths, saved, registry]
    exact hk.imp_left (retired _)

-- What is said of the caches is true after a save if it is in case the save names nobody's policy,
-- since after one that names a policy nothing that was kept is left.
theorem Holds.saved {t : Truths} {late : Nat → Prop} {c : WorkingCopy} (tended : s.Tended)
    (subscribed : Subscribed s.dispatcher s.recorders.named s.collectors)
    (hc : Commits s n c (s.after (save n)))
    (heq : s.after (save n) = ((dispatch (s.saved.store.changes c.store s.saved.types)).run
      (s.committed n ⟨c.store, s.saved.revision + 1, s.saved.types⟩)).2)
    (sus : t.Sustained (s.after (save n)).view (s.after (save n)).registry)
    (quiet : s.saved.store.Quiet (s.after (save n)).saved.store → s.Holds t late fun _ => False) :
    (s.after (save n)).Holds t late fun _ => False := by
  have hu : Uses s (s.after (save n)) := .save n
  have tended' := tended.uses hu
  generalize s.after (save n) = s' at *
  set start := s.committed n ⟨c.store, s.saved.revision + 1, s.saved.types⟩
  have calm : Calm start s' := heq ▸ keepsCalm_dispatch _ start
  have sustained : t.Sustained start.view start.registry := by
    rwa [← calm.view_eq, ← calm.registry]
  have stored : s'.saved.store = c.store := by rw [hc.saved]
  by_cases silent : ∀ path, ¬s.saved.store.Names s'.saved.store path
  case pos =>
    have kept := quiet (tended.quiet hu hc silent)
    have keeps : start.Current t late fun _ => False :=
      ⟨⟨kept.subscribed, kept.entries, kept.answers⟩, sustained⟩
    have held : Current t late (fun _ => False) _ :=
      keeps.dispatch (s.saved.store.changes c.store s.saved.types) fun _ _ => .inl
    rw [← heq] at held
    exact held.holds
  case neg =>
    have keeps : start.Current t (fun _ => True) fun _ => False :=
      ⟨⟨subscribed, fun _ _ hl => absurd trivial hl, fun _ _ hl => absurd trivial hl⟩, sustained⟩
    have loud : ¬(PolicyChange.ofEvents start.view ((s.saved.store.changes c.store
        s.saved.types).filter PolicyChange.filter.accepts)).isEmpty := by
      rw [← calm.view_eq, tended'.view_eq, stored, tended.sound.tree.types]
      intro he
      refine silent fun path hp => ?_
      rw [stored, Store.Names, Std.ExtTreeMap.isEmpty_iff.1 he] at hp
      exact Std.ExtTreeMap.not_mem_empty hp
    have held : Current t late (fun _ => False) _ :=
      keeps.dispatch _ fun _ hl _ => .inr (hl.due loud)
    rw [← heq] at held
    exact held.holds

-- What is kept stays right through a save that names nobody's policy.
theorem Commits.keptEntries {r : Registry} {c : WorkingCopy} {k : EntryKey} {es : List Entry}
    (hc : Commits s n c s') (hu : Uses s s') (tended : s.Tended)
    (quiet : s.saved.store.Quiet s'.saved.store) (hk : KeptEntries s.saved.store r s.Retired k es) :
    KeptEntries s'.saved.store r s'.Retired k es :=
  hk.quiet quiet (fun _ hx => hx.uses tended.sound hu) fun _ => hc.retired tended.sound

theorem Commits.keptRead {r : Registry} {c : WorkingCopy} {ps : PrincipalSet} {id : NodeId}
    {granted : Bool} (hc : Commits s n c s') (hu : Uses s s') (tended : s.Tended)
    (quiet : s.saved.store.Quiet s'.saved.store)
    (hk : KeptRead s.saved.store r s.Retired ps id granted) :
    KeptRead s'.saved.store r s'.Retired ps id granted :=
  hk.quiet quiet (fun _ hx => hx.uses tended.sound hu) fun _ => hc.retired tended.sound

theorem Coherent.saved {c : WorkingCopy} (h : s.Coherent) (tended : s.Tended)
    (hc : Commits s n c (s.after (save n)))
    (heq : s.after (save n) = ((dispatch (s.saved.store.changes c.store s.saved.types)).run
      (s.committed n ⟨c.store, s.saved.revision + 1, s.saved.types⟩)).2) :
    (s.after (save n)).Coherent := by
  have hu : Uses s (s.after (save n)) := .save n
  have tended' := tended.uses hu
  have registry : (s.after (save n)).registry = s.registry :=
    heq ▸ (keepsCalm_dispatch _ _).registry
  refine Holds.saved tended h.subscribed hc heq tended'.sustained fun quiet => ?_
  generalize s.after (save n) = s' at *
  refine h.mono (fun hk => ?_) (fun hk => ?_) fun hk => ?_
  · rw [truths, registry]
    exact hc.keptEntries hu tended quiet hk
  · rw [truths, registry]
    have hk : KeptDecision _ _ _ (fun _ => False) _ _ := hk
    exact hk.quiet quiet False.elim
  · rw [truths, registry]
    exact hc.keptRead hu tended quiet hk

-- What is collected may be kept.
theorem Tended.keptEntries {gone : NodeId → Prop} {ps : PrincipalSet} {node : NodeHandle}
    {es : List Entry} (tended : s.Tended)
    (genuine : ∀ o, s.saved.store.handle? node.id = some o → o = node)
    (hes : collect s.view s.registry ps node = .ok es) :
    KeptEntries s.saved.store s.registry gone (.of ps node) es := by
  rw [tended.view_eq] at hes
  have wf := tended.sound.tree.wellFormed
  have ⟨_, hn⟩ := Store.mem_nodes_iff.1 (Store.mem_of_collect hes)
  have ⟨_, hs⟩ := wf.stands hn
  have ho := wf.handle_eq hs
  rw [genuine _ ho] at ho
  exact keptEntries_of_collect ho hes

theorem Coherent.uses (h : s.Coherent) (tended : s.Tended) (hu : Uses s s') : s'.Coherent := by
  have retired : ∀ x, s.Retired x → s'.Retired x := fun x hx => hx.uses tended.sound hu
  rcases Holds.uses h tended.sustained tended.keptEntries hu with
    ⟨held, saved, registry⟩ | ⟨n, rfl⟩
  · exact held.still saved registry retired
  · rcases save_cases (s := s) (n := n) with heq | heq | ⟨c, commits, heq⟩
    · rwa [heq]
    · rw [heq] at retired ⊢
      exact Holds.still ⟨h.subscribed, h.entries, h.answers⟩ rfl rfl retired
    · exact h.saved tended commits heq

theorem Coherent.used (h : Used s) : s.Coherent := by
  suffices s.Tended ∧ s.Coherent from this.2
  obtain ⟨_, h⟩ := h
  induction h
  case refl =>
    refine ⟨.initial, .initial, fun hc => ?_, fun he => ?_⟩
    · simp [initial, Table.empty, Table.get?] at hc
    · simp [initial, Table.empty, Table.get?] at he
  case tail hu h => exact ⟨h.1.uses hu, h.2.uses h.1 hu⟩

-- What is answered.

theorem answer_query {α : Type} {everything : α} {readOnly : Except AccessError α}
    {work : EvaluatorM α} {e : AclEvaluator} (he : s.evaluators.get? n = some (.acl e)) :
    ((query n everything readOnly work).run.run s).1 = (work.run.run (s.bench e)).1 := by
  rw [run_query, he]

section

variable {ps : PrincipalSet} {e : AclEvaluator} {b : Bench}

theorem Coherent.collectedEntries {c : Nat} {o : NodeHandle} (h : s.Coherent)
    (tended : s.Tended) (hc : s.IsOpen c) (ho : s.saved.store.handle? o.id = some o) :
    ((collectedEntries c ps o).run.run s).1 = collect s.view s.registry ps o := by
  have wf := tended.sound.tree.wellFormed
  have ⟨collector, hc, isOpen⟩ := hc
  rw [run_collectedEntries, hc, Option.getD_some, tended.view_eq]
  rcases hr : (Collector.entries (s.saved.store.view .initial) s.registry ps o).run.run collector
    with ⟨answer, collector'⟩
  have ⟨fulfilled, _⟩ := Collector.answers_entries (h.entries hc isOpen not_false)
    (fun _ hes => keptEntries_of_collect ho hes) hr
  cases answer
  case error => exact fulfilled.symm
  case ok es =>
    have kept : KeptEntries _ _ _ _ es := fulfilled
    exact (kept.collect_eq wf ho fun _ hm hr => hr.saved hm).symm

-- The privileges that an evaluator decides on are those that are decided on afresh.
theorem Coherent.decision (h : s.Coherent) (tended : s.Tended)
    (he : s.evaluators.get? n = some (.acl e)) (isOpen : e.isClosed = false) (hears : s.Hears n e) :
    (·.allowPrivileges) <$>
        ((EvaluatorM.decision s.view s.registry path).run.run (s.bench e)).1 =
      (·.allowPrivileges) <$> decideAfresh s.view s.registry e.principals path := by
  rcases hr : (EvaluatorM.decision s.view s.registry path).run.run (s.bench e) with ⟨answer, b⟩
  have answered := EvaluatorM.answers_decision (tended.sustained n e.principals)
    (s.bench e) rfl isOpen (h.bench he hears not_false not_false) _ _ hr
  cases answer
  case error err =>
    have failed : decideAfresh _ _ _ path = .error err := answered.1
    simp [failed]
  case ok d =>
    have kept : KeptDecision _ _ _ (fun _ => False) path d := answered.1
    have ⟨d', afresh, same, _⟩ := kept.decideAfresh_eq
    rw [tended.view_eq, afresh]
    exact congrArg Except.ok same

-- Whether an item may be read is what is decided afresh for its node.
theorem Coherent.canRead {item : Option NodeId} (h : s.Coherent) (tended : s.Tended)
    (he : s.evaluators.get? n = some (.acl e)) (isOpen : e.isClosed = false) (hears : s.Hears n e) :
    ((EvaluatorM.canRead s.view s.registry path item).run.run (s.bench e)).1 =
      EvaluatorM.readTarget s.view path item >>= fun node =>
        (·.grants .read) <$> decideAfresh s.view s.registry e.principals node.path := by
  rcases hr : (EvaluatorM.canRead s.view s.registry path item).run.run (s.bench e) with ⟨answer, b⟩
  have answered := EvaluatorM.answers_canRead (tended.sustained n e.principals)
    (s.bench e) rfl isOpen (h.bench he hears not_false not_false) _ _ hr
  cases answer
  case error err =>
    have failed : (EvaluatorM.readTarget s.view path item >>= fun node =>
      decideAfresh s.view s.registry e.principals node.path) = .error err := answered.1
    simp_rw [← map_bind, failed]
    rfl
  case ok granted =>
    obtain ⟨⟨node, target, kept⟩, -⟩ := answered
    have kept : KeptRead _ _ _ _ node.id granted := kept
    have wf := tended.sound.tree.wellFormed
    have ho := wf.handle_of_readTarget (tended.view_eq ▸ target)
    have ⟨d, afresh, granted⟩ := kept.decideAfresh_eq wf ho fun _ hm hr => hr.saved hm
    rw [target, granted]
    show _ = (·.grants .read) <$> decideAfresh s.view s.registry e.principals node.path
    rw [tended.view_eq, afresh]
    rfl

end

-- As long as a repository is used so, a collector that is open gives the entries that would be
-- collected now, and evaluators that hear from it give the privileges, and tell what may be read,
-- as ones would that are made now.
theorem answers_stay_current (h : Used s) :
    (∀ c, s.IsOpen c → ∀ ps o, s.saved.store.handle? o.id = some o →
      ((collectedEntries c ps o).run.run s).1 = collect s.view s.registry ps o) ∧
    ∀ n e, s.evaluators.get? n = some (.acl e) → e.isClosed = false → s.Hears n e →
      ∀ b : Bench, b.Fresh e.principals →
        (∀ path, ((privileges n path).run.run s).1 =
          ((EvaluatorM.privileges s.view s.registry path).run.run b).1) ∧
        ∀ path item, ((canRead n path item).run.run s).1 =
          EvaluatorM.readTarget s.view path item >>= fun node =>
            ((EvaluatorM.grants s.view s.registry node.path .read).run.run b).1 := by
  have tended := Tended.used h
  have coherent := Coherent.used h
  refine ⟨fun c hc ps o ho => coherent.collectedEntries tended hc ho,
    fun n e he isOpen hears b hb => ⟨fun path => ?_, fun path item => ?_⟩⟩
  · rw [run_privileges, answer_query he, EvaluatorM.privileges_eq, EvaluatorM.run_map,
      ← EvaluatorM.privileges_eq, hb.privileges]
    exact coherent.decision tended he isOpen hears
  · rw [run_canRead, answer_query he, coherent.canRead tended he isOpen hears]
    simp_rw [hb.grants]

-- Alice may remove whatever is below a node. She asks about a child of it before there is one.
def removalPolicy : Policy :=
  ⟨⟨⟨1⟩, "/a"⟩, [⟨"alice", [.concrete "jcr:removeChildNodes" .removeChildNodes,
    .concrete "jcr:removeNode" .removeNode], true, ∅, ⟨⟨1⟩, "/a"⟩⟩]⟩

def alice : PrincipalSet := .ofList [.named "alice"]

-- An evaluator for her and a collector that are made only now.
def newcomer : Bench := ⟨.detached alice 0 10 10, .new 10 ⟨0⟩⟩

def watched : Repository :=
  initial .initial |>.after (ε := TreeError) (login .empty)
    |>.after (inSession 0 (SessionM.addNode ⟨⟨0⟩, "/"⟩ "a" "nt:unstructured"))
    |>.after (inSession 0 (Editor.setPolicy "/a" removalPolicy))
    |>.after (save 0)
    |>.after (openCollector 10)
    |>.after (ε := TreeError) (openEvaluator (.detached alice 0 10 10))

def asked : Repository := watched.after (grants 0 "/a/b" .removeNode)

def drafted : Repository :=
  asked.after (inSession 0 (SessionM.addNode ⟨⟨1⟩, "/a"⟩ "b" "nt:unstructured"))

def grown : Repository := drafted.after (save 0)

-- Whether an evaluator weighs entries and is as asked for.
def Evaluator.isAclWith (p : AclEvaluator → Bool) : Evaluator → Bool
  | .acl e => p e
  | .everything _ | .readOnly _ => false

theorem exists_hearing {c id : Nat} {p : AclEvaluator → Bool}
    (collector : (s.collectors.get? c).any fun k =>
      !k.isClosed && k.listeners.contains (id, .evaluator n))
    (evaluator : (s.evaluators.get? n).any (Evaluator.isAclWith fun e =>
      !e.isClosed && decide (e.collector = c) && p e)) :
    s.IsOpen c ∧ ∃ e, s.evaluators.get? n = some (.acl e) ∧ e.isClosed = false ∧ s.Hears n e ∧
      e.collector = c ∧ p e := by
  obtain ⟨k, hk, isOpen⟩ := Option.any_eq_true .. |>.1 collector
  obtain ⟨e, he, as⟩ := Option.any_eq_true .. |>.1 evaluator
  cases e
  case acl e =>
    simp only [Evaluator.isAclWith, Bool.and_eq_true, Bool.not_eq_true', decide_eq_true_eq,
      List.contains_iff_mem] at *
    obtain ⟨⟨eopen, rfl⟩, as⟩ := as
    exact ⟨⟨k, hk, isOpen.1⟩, e, he, eopen, ⟨k, id, hk, isOpen⟩, rfl, as⟩
  all_goals simp [Evaluator.isAclWith] at as

-- Her questions are put to an evaluator that hears from an open collector.
theorem hears_grown : grown.saved.store.handle? ⟨4⟩ = some ⟨⟨4⟩, "/a/b"⟩ ∧ grown.IsOpen 0 ∧
    ∃ e, grown.evaluators.get? 0 = some (.acl e) ∧ e.isClosed = false ∧ grown.Hears 0 e ∧
      e.principals = alice := by
  obtain ⟨handle, collector, evaluator⟩ : grown.saved.store.handle? ⟨4⟩ = some ⟨⟨4⟩, "/a/b"⟩ ∧
      ((grown.collectors.get? 0).any fun c =>
        !c.isClosed && c.listeners.contains (0, .evaluator 0)) ∧
      (grown.evaluators.get? 0).any (Evaluator.isAclWith fun e => !e.isClosed &&
        decide (e.collector = 0) && decide (e.principals = alice)) := by decide +kernel
  obtain ⟨isOpen, e, he, eopen, hears, -, as⟩ := exists_hearing collector evaluator
  exact ⟨handle, isOpen, e, he, eopen, hears, of_decide_eq_true as⟩

theorem Uses.openEvaluator {ps : PrincipalSet} {collector resultCapacity readCapacity : Nat} :
    Uses s (s.after (ε := TreeError)
      (openEvaluator (.detached ps collector resultCapacity readCapacity))) :=
  .check (.openEvaluator ..)

theorem Uses.grants {permissions : Permissions} : Uses s (s.after (grants n path permissions)) := by
  rw [after, run_grants, EvaluatorM.grants_eq]
  exact .check (.ask n _ _ (.map _ (.decision _)))

-- A question leaves the tree alone.
theorem store_after_grants {permissions : Permissions} {m : Nat} :
    ((s.after (grants n path permissions)).session m).store
      (s.after (grants n path permissions)).saved = (s.session m).store s.saved := by
  have calm : Calm s (s.after (grants n path permissions)) := (discreet_grants s).toCalm
  rw [session, session, calm.sessions, calm.saved]

theorem run_watched : ReflTransGen Uses (.initial .initial) watched := by
  have loggedIn : ReflTransGen Uses (.initial .initial) _ := .single (.login .empty)
  have grown := loggedIn.tail <|
    .edit 0 (.addNode ⟨⟨0⟩, "/"⟩ "a" "nt:unstructured" (by decide +kernel) (by decide))
  have written := grown.tail (.edit 0 (.setPolicy "/a" removalPolicy))
  have saved := written.tail (.save 0)
  have opened := saved.tail (.check (.openCollector 10))
  exact opened.tail .openEvaluator

theorem uses_drafted : Uses asked drafted := by
  have plain : ¬((watched.session 0).store watched.saved).IsContent ⟨1⟩ := by decide +kernel
  have plain : ¬((asked.session 0).store asked.saved).IsContent ⟨1⟩ :=
    store_after_grants.symm ▸ plain
  exact .edit 0 (.addNode ⟨⟨1⟩, "/a"⟩ "b" "nt:unstructured" plain (by decide))

theorem used_grown : Used grown :=
  ⟨.initial, run_watched.tail .grants |>.tail uses_drafted |>.tail (.save 0)⟩

theorem answers_about_new_node : Used grown ∧ grown.IsOpen 0 ∧
    ((collectedEntries 0 alice ⟨⟨4⟩, "/a/b"⟩).run.run grown).1 =
      collect grown.view grown.registry alice ⟨⟨4⟩, "/a/b"⟩ ∧
    ∃ e, grown.evaluators.get? 0 = some (.acl e) ∧ e.isClosed = false ∧ grown.Hears 0 e ∧
      newcomer.Fresh e.principals ∧
      ((privileges 0 "/a/b").run.run grown).1 =
        ((EvaluatorM.privileges grown.view grown.registry "/a/b").run.run newcomer).1 ∧
      ((canRead 0 "/a/b" (some ⟨4⟩)).run.run grown).1 =
        EvaluatorM.readTarget grown.view "/a/b" (some ⟨4⟩) >>= fun node =>
          ((EvaluatorM.grants grown.view grown.registry node.path .read).run.run newcomer).1 := by
  have ⟨entries, answers⟩ := answers_stay_current used_grown
  have ⟨handle, isOpen, e, he, eopen, hears, principals⟩ := hears_grown
  have fresh : newcomer.Fresh e.principals := principals ▸ .detached
  have ⟨privileges, canRead⟩ := answers 0 e he eopen hears newcomer fresh
  exact ⟨used_grown, isOpen, entries 0 isOpen alice _ handle, e, he, eopen, hears, fresh,
    privileges _, canRead _ _⟩

end Repository

end PolicyTree
