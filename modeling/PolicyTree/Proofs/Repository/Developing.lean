import PolicyTree.Proofs.Access.Outgrowing
import PolicyTree.Proofs.Repository.Hosting

namespace PolicyTree.Repository

open Relation (ReflTransGen)

variable {s₁ s s' : Repository} {n c : Nat} {ps : PrincipalSet} {path : String} {r : Registry}
  {customs : List Privilege} {steady : Prop}

-- What a call to register a privilege leaves, whether it is refused or not.
def enrolled (s : Repository) (call : Registration) : Repository :=
  { s with registry := (call.run.run s.registry).2 }

-- One step of a repository that is used so, or a call to register a privilege.
inductive Develops (s : Repository) : Repository → Prop
  | use {s' : Repository} (h : Uses s s') : Develops s s'
  | register (call : Registration) : Develops s (s.enrolled call)

def Developed : Repository → Prop := ReflTransGen Develops (.initial .initial)

-- What a step leaves of the registry.

theorem Uses.registry (h : Uses s s') : s'.registry = s.registry := by
  cases h
  case login                                 => rfl
  case edit                                  => rw [after, run_inSession]
  case refresh                               =>
    rw [after, run_refresh]
    split <;> rfl
  case save                                  =>
    rcases save_cases with heq | heq | ⟨_, _, heq⟩ <;> rw [heq]
    · rfl
    · exact (keepsCalm_dispatch _ _).registry
  case check h                               => exact h.rests.registry
  case observe                               => exact Rests.observe.registry
  case unobserve                             => exact Rests.unsubscribe.registry
  case elsewhere registry _ _ _ _ _ _ _      => exact registry

theorem Develops.ledger (h : Develops s s') (ledger : s.registry.Ledger customs) :
    ∃ later, s'.registry.Ledger (customs ++ later) := by
  cases h
  case use hu        => exact ⟨[], by rwa [hu.registry, List.append_nil]⟩
  case register call => exact ⟨_, ledger.run call⟩

theorem exists_ledger_of_run (h : ReflTransGen Develops s s') (ledger : s.registry.Ledger customs) :
    ∃ later, s'.registry.Ledger (customs ++ later) := by
  induction h
  case refl => exact ⟨[], by rwa [List.append_nil]⟩
  case tail hd hi =>
    have ⟨later, ledger⟩ := hi
    have ⟨last, ledger⟩ := hd.ledger ledger
    exact ⟨later ++ last, List.append_assoc .. ▸ ledger⟩

theorem Developed.ledger (h : Developed s) : ∃ customs, s.registry.Ledger customs := by
  have start : (initial .initial).registry.Ledger [] := .initial
  exact exists_ledger_of_run h start

theorem Tended.develops (h : s.Tended) (hd : Develops s s') : s'.Tended := by
  cases hd
  case use hu   => exact h.uses hu
  case register =>
    exact ⟨h.sound.moves (.elsewhere rfl rfl rfl (Nat.le_refl _)), h.tree, h.copy⟩

theorem Retired.develops {x : NodeId} (h : s.Retired x) (sound : s.Sound) (hd : Develops s s') :
    s'.Retired x := by
  cases hd
  case use hu   => exact h.uses sound hu
  case register => exact ⟨h.given, h.saved, h.copy⟩

-- What evaluators go by.

def Between (s₁ s : Repository) (r : Registry) : Prop :=
  ∃ s₀, ReflTransGen Develops s₁ s₀ ∧ ReflTransGen Develops s₀ s ∧ s₀.registry = r

theorem Between.now (run : ReflTransGen Develops s₁ s) : Between s₁ s s.registry :=
  ⟨s, run, .refl, rfl⟩

theorem Between.develops (h : Between s₁ s r) (hd : Develops s s') : Between s₁ s' r :=
  have ⟨s₀, before, after, hr⟩ := h
  ⟨s₀, before, after.tail hd, hr⟩

-- What may be kept of a run: what is found out with the registry of one of its moments. It is said
-- of the decisions that one evaluator makes on one path, and of the entries for its principals. The
-- path may be steady.
def since (s₁ s : Repository) (n : Nat) (ps : PrincipalSet) (path : String) (steady : Prop) :
    Truths where
  entries k es       := k.principals = ps.signature →
    ∃ r, Between s₁ s r ∧ KeptEntries s.saved.store r s.Retired k es
  decisions m qs p d := m = n → qs = ps → p = path →
    ∃ r, Between s₁ s r ∧ KeptDecision s.saved.store r ps (fun _ => steady) path d
  reads _ _ _        := True

-- The evaluator and its collector hold nothing else.
def Dates (s₁ : Repository) (n c : Nat) (ps : PrincipalSet) (path : String) (steady : Prop)
    (s : Repository) : Prop :=
  s.Holds (since s₁ s n ps path steady) (· ≠ c) fun _ => False

theorem Tended.sustained_since (h : s.Tended) (run : ReflTransGen Develops s₁ s) :
    (since s₁ s n ps path steady).Sustained s.view s.registry := by
  have wf := h.sound.tree.wellFormed
  have here : ∀ id ∈ s.saved.store.nodes, ¬s.Retired id := fun _ hm hr => hr.saved hm
  rw [h.view_eq]
  refine fun m qs => ⟨fun hg hc _ => ?_, fun hg hE hm hq hp => ?_, fun _ _ => trivial⟩
  · exact ⟨_, .now run, keptEntries_of_collect (wf.handle_of_governor hg) hc⟩
  · obtain ⟨r, between, kept⟩ := hE (congrArg PrincipalSet.signature hq)
    subst hq hp
    exact ⟨r, between, (sustains wf here).decisions hg kept⟩

namespace Dates

-- The same may be kept as long as nothing is saved.
theorem still {s'' : Repository}
    (h : s''.Holds (since s₁ s n ps path steady) (· ≠ c) fun _ => False)
    (hd : Develops s s') (saved : s'.saved = s.saved) (sound : s.Sound) :
    s''.Holds (since s₁ s' n ps path steady) (· ≠ c) fun _ => False := by
  refine h.mono (fun hk hp => ?_) (fun hk hm hq hp => ?_) id
  · obtain ⟨r, between, kept⟩ := hk hp
    refine ⟨r, between.develops hd, ?_⟩
    rw [saved]
    exact kept.imp_left (·.develops sound hd)
  · obtain ⟨r, between, kept⟩ := hk hm hq hp
    exact ⟨r, between.develops hd, saved ▸ kept⟩

theorem saved {m : Nat} {copy : WorkingCopy} (h : Dates s₁ n c ps path steady s) (tended : s.Tended)
    (run : ReflTransGen Develops s₁ s) (hc : Commits s m copy (s.after (save m)))
    (heq : s.after (save m) = ((dispatch (s.saved.store.changes copy.store s.saved.types)).run
      (s.committed m ⟨copy.store, s.saved.revision + 1, s.saved.types⟩)).2)
    (leads : steady → governor s.view path = governor (s.after (save m)).view path) :
    Dates s₁ n c ps path steady (s.after (save m)) := by
  have hu : Uses s (s.after (save m)) := .save m
  have hd : Develops s (s.after (save m)) := .use hu
  refine Holds.saved tended h.subscribed hc heq
    ((tended.uses hu).sustained_since (run.tail hd)) fun quiet => ?_
  refine h.mono (fun hk hp => ?_) (fun hk hm hq hp => ?_) id
  · obtain ⟨r, between, kept⟩ := hk hp
    exact ⟨r, between.develops hd, hc.keptEntries hu tended quiet kept⟩
  · obtain ⟨r, between, kept⟩ := hk hm hq hp
    rw [tended.view_eq, (tended.uses hu).view_eq] at leads
    exact ⟨r, between.develops hd, kept.quiet quiet leads⟩

theorem develops (h : Dates s₁ n c ps path steady s) (tended : s.Tended)
    (run : ReflTransGen Develops s₁ s) (hd : Develops s s')
    (leads : steady → governor s.view path = governor s'.view path) :
    Dates s₁ n c ps path steady s' := by
  have ⟨subscribed, entries, answers⟩ := h
  cases hd
  case register call =>
    exact Dates.still ⟨subscribed, entries, answers⟩ (.register call) rfl tended.sound
  case use hu =>
    rcases Holds.uses h (tended.sustained_since run)
      (fun genuine hes _ => ⟨_, .now run, tended.keptEntries genuine hes⟩) hu with
      ⟨held, saved, _⟩ | ⟨m, rfl⟩
    · exact Dates.still held (.use hu) saved tended.sound
    · rcases save_cases (s := s) (n := m) with heq | heq | ⟨copy, commits, heq⟩
      · rwa [heq]
      · rw [heq] at hu ⊢
        exact Dates.still ⟨subscribed, entries, answers⟩ (.use hu) rfl tended.sound
      · exact h.saved tended run commits heq leads

end Dates

theorem Developed.tended (h : Developed s) : s.Tended := by
  induction h
  case refl       => exact .initial
  case tail hd hi => exact hi.develops hd

theorem Developed.subscribed (h : Developed s) :
    Subscribed s.dispatcher s.recorders.named s.collectors := by
  suffices s.Holds .none (fun _ => False) fun _ => False from this.subscribed
  induction h
  case refl =>
    have start : Curated (fun _ => False) (.initial .initial) := .initial
    exact start.holds
  case tail hd hi =>
    cases hd
    case use hu   => exact hi.none_uses hu
    case register => exact ⟨hi.subscribed, hi.entries, hi.answers⟩

-- Neither a decision on the path is held nor entries for the principals.
structure Blank (n c : Nat) (ps : PrincipalSet) (path : String) (s : Repository) : Prop where
  entries   : ∀ collector, s.collectors.get? c = some collector →
    ∀ k es, (k, es) ∈ collector.cache.entries → k.principals ≠ ps.signature
  decisions : ∀ e, s.evaluators.get? n = some (.acl e) → e.decisions.contains path = false

-- States that evaluators start anew from. Nothing is held, or a policy has just been saved.
inductive Anew (n c : Nat) (ps : PrincipalSet) (path : String) : Repository → Prop
  | blank {s : Repository} (h : Blank n c ps path s) : Anew n c ps path s
  | saved {s : Repository} {m : Nat} (h : Developed s)
    (named : ∃ p, s.saved.store.Names (s.after (save m)).saved.store p) :
    Anew n c ps path (s.after (save m))

theorem Anew.dates (h : Anew n c ps path s) (developed : Developed s) :
    Dates s n c ps path False s := by
  cases h
  case blank blank =>
    refine ⟨developed.subscribed, fun hc _ hlate k es hm hp => ?_,
      fun he _ _ _ => ⟨fun p d hm hn _ hp => ?_, fun _ _ _ => trivial⟩⟩
    · obtain rfl := not_not.1 hlate
      exact absurd hp (blank.entries _ hc k es hm)
    · subst hn hp
      exact absurd hm (RecencyMap.not_mem_of_contains (blank.decisions _ he))
  case saved s m before named =>
    have ⟨p, named⟩ := named
    have changed : (s.after (save m)).saved.store ≠ s.saved.store := by
      intro same
      rw [same, Store.Names, Store.changes_self] at named
      exact Std.ExtTreeMap.not_mem_empty named
    rcases save_cases (s := s) (n := m) with heq | heq | ⟨copy, commits, heq⟩
    · exact absurd (by rw [heq]) changed
    · exact absurd (by rw [heq]; rfl) changed
    · exact Holds.saved before.tended before.subscribed commits heq
        (developed.tended.sustained_since .refl) fun quiet => absurd named (quiet.silent p)

theorem Anew.dates_of_run (h : Anew n c ps path s₁) (begun : Developed s₁)
    (run : ReflTransGen Develops s₁ s) : Dates s₁ n c ps path False s := by
  induction run
  case refl           => exact h.dates begun
  case tail run hd hi => exact hi.develops (Developed.tended (begun.trans run)) run hd False.elim

-- What is answered.

theorem run_hasPrivileges {required : List Privilege} :
    ((hasPrivileges n path required).run.run s).1 =
      (fun held => decide (Privilege.bitsOf required ⊆ held)) <$>
        ((privileges n path).run.run s).1 := by
  rw [hasPrivileges, bind_pure_comp, ExceptT.run_map, StateT.run_map]
  rfl

-- What an evaluator decides is what is decided afresh: privileges as far as they were registered at
-- some moment of the run, and permissions but for the removal of nodes unless the path is steady.
theorem Dates.decision {e : AclEvaluator} (h : Dates s₁ n e.collector e.principals path steady s)
    (begun : Developed s₁) (run : ReflTransGen Develops s₁ s)
    (he : s.evaluators.get? n = some (.acl e)) (isOpen : e.isClosed = false) (hears : s.Hears n e) :
    let found := ((EvaluatorM.decision s.view s.registry path).run.run (s.bench e)).1
    let afresh := decideAfresh s.view s.registry e.principals path
    (∃ s₀, ReflTransGen Develops s₁ s₀ ∧ ReflTransGen Develops s₀ s ∧
      (·.allowPrivileges) <$> found = (·.allowPrivileges ∩ s₀.registry.allBits) <$> afresh) ∧
    ∀ permissions : Permissions, permissions.meets Permissions.removeNode = false ∨ steady →
      (·.grants permissions) <$> found = (·.grants permissions) <$> afresh := by
  dsimp only
  have tended : s.Tended := Developed.tended (begun.trans run)
  have current {s₀ : Repository} (begun : Developed s₀) (run : ReflTransGen Develops s₀ s) :
      MatchedBy (fun d d' => d.allowPrivileges = d'.allowPrivileges ∩ s₀.registry.allBits ∧
          d.allows = d'.allows)
        (decideAfresh s.view s₀.registry e.principals path)
        (decideAfresh s.view s.registry e.principals path) := by
    have ⟨customs, ledger⟩ := begun.ledger
    have ⟨later, ledger'⟩ := exists_ledger_of_run run ledger
    exact Registry.Ledger.matched_decideAfresh ledger ledger'
  rcases hr : (EvaluatorM.decision s.view s.registry path).run.run (s.bench e) with ⟨answer, b⟩
  have answered := EvaluatorM.answers_decision (tended.sustained_since run n e.principals)
    (s.bench e) rfl isOpen (h.bench he hears (not_not.2 rfl) not_false) _ _ hr
  cases answer
  case error err =>
    have failed : decideAfresh _ _ _ path = .error err := answered.1
    rw [failed]
    exact ⟨⟨s, run, .refl, rfl⟩, fun _ _ => rfl⟩
  case ok d =>
    have ⟨_, ⟨s₀, before, after, rfl⟩, kept⟩ := answered.1 rfl rfl rfl
    have ⟨d', afresh, privileges, grants⟩ := KeptDecision.decideAfresh_eq kept
    rw [← tended.view_eq] at afresh
    have ⟨d'', now, bits, allows⟩ := current (begun.trans before) after d' afresh
    rw [now]
    refine ⟨⟨s₀, before, after, congrArg Except.ok (privileges.trans bits)⟩, ?_⟩
    intro permissions hp
    have same : d'.grants permissions = d''.grants permissions := by
      rw [Decision.grants, Decision.grants, allows]
    exact congrArg Except.ok ((grants permissions hp).trans same)

-- However a repository is used while privileges are registered, an evaluator that hears from an
-- open collector fails as one does that is made now, and otherwise tells the privileges that this
-- one tells, but for some that have been registered since it started anew. If no bit has been given
-- out since, it tells the same.
theorem evaluators_go_by_registered {e : AclEvaluator} {b : Bench} (begun : Developed s₁)
    (anew : Anew n e.collector e.principals path s₁) (run : ReflTransGen Develops s₁ s)
    (he : s.evaluators.get? n = some (.acl e)) (isOpen : e.isClosed = false) (hears : s.Hears n e)
    (hb : b.Fresh e.principals) :
    let told := ((privileges n path).run.run s).1
    let now := ((EvaluatorM.privileges s.view s.registry path).run.run b).1
    let has (required : List Privilege) := ((hasPrivileges n path required).run.run s).1
    (∃ s₀, ReflTransGen Develops s₁ s₀ ∧ ReflTransGen Develops s₀ s ∧
      told = (· ∩ s₀.registry.allBits) <$> now ∧
      ∀ required, has required =
        (fun held => decide (Privilege.bitsOf required ⊆ held ∩ s₀.registry.allBits)) <$> now) ∧
    (s₁.registry.nextBit = s.registry.nextBit → told = now ∧ ∀ required, has required =
      (fun held => decide (Privilege.bitsOf required ⊆ held)) <$> now) := by
  intro told now has
  have ⟨⟨s₀, before, after, decided⟩, _⟩ :=
    (anew.dates_of_run begun run).decision begun run he isOpen hears
  have now_eq : now = (·.allowPrivileges) <$> decideAfresh s.view s.registry e.principals path :=
    hb.privileges
  have told_eq : told = (· ∩ s₀.registry.allBits) <$> now := by
    show ((privileges n path).run.run s).1 = _
    rw [run_privileges, answer_query he, EvaluatorM.privileges_eq, EvaluatorM.run_map, decided,
      now_eq, Functor.map_map]
  have has_eq (required : List Privilege) : has required =
      (fun held => decide (Privilege.bitsOf required ⊆ held)) <$> told := run_hasPrivileges
  refine ⟨⟨s₀, before, after, told_eq, fun required => ?_⟩, fun same => ?_⟩
  · rw [has_eq, told_eq, Functor.map_map]
  · have known : (· ∩ s₀.registry.allBits) <$> now = now := by
      have ⟨customs, ledger₁⟩ := begun.ledger
      have ⟨sooner, ledger₀⟩ := exists_ledger_of_run before ledger₁
      have ⟨later, ledger⟩ := exists_ledger_of_run after ledger₀
      have grows := ledger₁.nextBit_eq ledger₀
      have grows' := ledger₀.nextBit_eq ledger
      rw [ledger₀.allBits_eq_of_nextBit ledger (by omega), now_eq]
      cases hd : decideAfresh s.view s.registry e.principals path
      case error => rfl
      case ok d  => exact congrArg Except.ok (ledger.allowPrivileges_known hd)
    have told_now : told = now := told_eq.trans known
    exact ⟨told_now, fun required => told_now ▸ has_eq required⟩

-- Alice may do everything below a node. She asks what that is before a privilege is registered.
def everythingPolicy : Policy := ⟨⟨⟨1⟩, "/a"⟩, [⟨"alice", [.all], true, ∅, ⟨⟨1⟩, "/a"⟩⟩]⟩

def unlimited : Repository :=
  initial .initial |>.after (ε := TreeError) (login .empty)
    |>.after (inSession 0 (SessionM.addNode ⟨⟨0⟩, "/"⟩ "a" "nt:unstructured"))
    |>.after (inSession 0 (Editor.setPolicy "/a" everythingPolicy))
    |>.after (save 0)
    |>.after (openCollector 10)
    |>.after (ε := TreeError) (openEvaluator (.detached alice 0 10 10))

def publish : Privilege := .concrete "app:publish" (.single 16)

def briefed : Repository := unlimited.after (privileges 0 "/a")

def widened : Repository := briefed.enrolled ⟨publish.name, false, []⟩

theorem Developed.uses (h : Developed s) (hu : Uses s s') : Developed s' := h.tail (.use hu)

theorem developed_unlimited : Developed unlimited := by
  have loggedIn : Developed _ := Developed.uses .refl (.login .empty)
  have grown := loggedIn.uses <|
    .edit 0 (.addNode ⟨⟨0⟩, "/"⟩ "a" "nt:unstructured" (by decide +kernel) (by decide))
  have written := grown.uses (.edit 0 (.setPolicy "/a" everythingPolicy))
  have saved := written.uses (.save 0)
  have opened := saved.uses (.check (.openCollector 10))
  exact opened.uses .openEvaluator

theorem develops_privileges : Develops s (s.after (privileges n path)) := by
  rw [after, run_privileges, EvaluatorM.privileges_eq]
  exact .use (.check (.ask n _ _ (.map _ (.decision _))))

theorem run_briefed : ReflTransGen Develops unlimited briefed := .single develops_privileges

theorem run_widened : ReflTransGen Develops unlimited widened := run_briefed.tail (.register _)

-- Her questions are put to an evaluator that hears from an open collector.
theorem hears_alice : ∃ e, briefed.evaluators.get? 0 = some (.acl e) ∧
    widened.evaluators.get? 0 = some (.acl e) ∧ e.isClosed = false ∧ briefed.Hears 0 e ∧
    widened.Hears 0 e ∧ e.collector = 0 ∧ e.principals = alice := by
  obtain ⟨collector, evaluator⟩ :
      ((briefed.collectors.get? 0).any fun c =>
        !c.isClosed && c.listeners.contains (0, .evaluator 0)) ∧
      (briefed.evaluators.get? 0).any (Evaluator.isAclWith fun e => !e.isClosed &&
        decide (e.collector = 0) && decide (e.principals = alice)) := by decide +kernel
  obtain ⟨-, e, he, isOpen, hears, hc, as⟩ := exists_hearing collector evaluator
  have evaluators : widened.evaluators = briefed.evaluators := by rw [widened, enrolled]
  have collectors : widened.collectors = briefed.collectors := by rw [widened, enrolled]
  refine ⟨e, he, ?_, isOpen, hears, ?_, hc, of_decide_eq_true as⟩
  · rwa [evaluators]
  · rwa [Hears, collectors]

-- Nothing had been asked when the evaluator was opened.
theorem blank_unlimited : unlimited.Blank 0 0 alice "/a" := by
  obtain ⟨collector, evaluator⟩ :
      ((unlimited.collectors.get? 0).all fun k => k.cache.entries.isEmpty) ∧
      (unlimited.evaluators.get? 0).all (Evaluator.isAclWith fun e =>
        !e.decisions.contains "/a") := by decide +kernel
  refine ⟨fun k hk key es hm => ?_, fun e he => ?_⟩
  · rw [hk, Option.all_some, List.isEmpty_iff] at collector
    rw [collector] at hm
    exact absurd hm List.not_mem_nil
  · rw [he, Option.all_some] at evaluator
    simpa [Evaluator.isAclWith] using evaluator

theorem alice_is_told_what_was_registered : Developed unlimited ∧
    ReflTransGen Develops unlimited briefed ∧ ReflTransGen Develops unlimited widened ∧
    briefed.registry.nextBit = unlimited.registry.nextBit ∧
    ∃ e, briefed.evaluators.get? 0 = some (.acl e) ∧ widened.evaluators.get? 0 = some (.acl e) ∧
      e.isClosed = false ∧ briefed.Hears 0 e ∧ widened.Hears 0 e ∧
      Anew 0 e.collector e.principals "/a" unlimited ∧ newcomer.Fresh e.principals ∧
      ((privileges 0 "/a").run.run briefed).1 =
        ((EvaluatorM.privileges briefed.view briefed.registry "/a").run.run newcomer).1 ∧
      ∃ s₀, ReflTransGen Develops unlimited s₀ ∧ ReflTransGen Develops s₀ widened ∧
        ((privileges 0 "/a").run.run widened).1 = (· ∩ s₀.registry.allBits) <$>
          ((EvaluatorM.privileges widened.view widened.registry "/a").run.run newcomer).1 := by
  have ⟨e, he, he', isOpen, hears, hears', collector, principals⟩ := hears_alice
  have anew : Anew 0 e.collector e.principals "/a" unlimited := by
    rw [collector, principals]
    exact .blank blank_unlimited
  have same : briefed.registry.nextBit = unlimited.registry.nextBit := by decide +kernel
  have fresh : newcomer.Fresh e.principals := principals ▸ .detached
  refine ⟨developed_unlimited, run_briefed, run_widened, same, e, he, he', isOpen, hears, hears',
    anew, fresh, ?briefed, ?widened⟩
  case briefed =>
    have ⟨_, current⟩ :=
      evaluators_go_by_registered developed_unlimited anew run_briefed he isOpen hears fresh
    exact (current same.symm).1
  case widened =>
    have ⟨⟨s₀, before, after, told, _⟩, _⟩ :=
      evaluators_go_by_registered developed_unlimited anew run_widened he' isOpen hears' fresh
    exact ⟨s₀, before, after, told⟩

theorem new_privilege_is_missed : Developed widened ∧
    ∃ e, widened.evaluators.get? 0 = some (.acl e) ∧ e.isClosed = false ∧ widened.Hears 0 e ∧
      newcomer.Fresh e.principals ∧
      ((privileges 0 "/a").run.run widened).1.toOption = some .builtin ∧
      ((EvaluatorM.privileges widened.view widened.registry "/a").run.run newcomer).1.toOption =
        some (.builtin ∪ publish.bits) ∧
      ((hasPrivileges 0 "/a" [publish]).run.run widened).1.toOption = some false := by
  have ⟨e, _, he, isOpen, _, hears, _, principals⟩ := hears_alice
  exact ⟨developed_unlimited.trans run_widened, e, he, isOpen, hears, principals ▸ .detached,
    by decide +kernel⟩

end PolicyTree.Repository
