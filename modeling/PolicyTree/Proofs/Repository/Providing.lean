import Mathlib.Tactic.Common
import PolicyTree.Proofs.Repository.Stillness
import PolicyTree.Repository.Providing

namespace PolicyTree

def ProviderState.collector : ProviderState → Except AccessError Nat
  | .created => .error (.notInitialized .providerNotInitialized)
  | .initialized collector => .ok collector
  | .closed => .error (.notInitialized .providerClosed)

namespace Repository

variable {α β ε : Type} {s s₀ : Repository} {p n session : Nat} {settings : Settings}
  {known : List String} {principals : PrincipalSet} {state : ProviderState}

-- Making the root's first policy.

namespace Leads

variable {P : Repository → Prop} {x : RepositoryM ε β}

theorem error {e : ε} : Leads P (throw e : RepositoryM ε α).run P := .pure

theorem bind_run {f : β → RepositoryM ε α} (hx : Leads P x.run P)
    (hf : ∀ b, Leads P (f b).run P) : Leads P (x >>= f).run P := by
  rw [ExceptT.run_bind]
  refine .bind hx fun result => ?_
  cases result
  case error => exact .pure
  case ok b  => exact hf b

theorem rescued {rescue : ε → RepositoryM ε β} (hx : Leads P x.run P)
    (hr : ∀ e, Leads P (rescue e).run P) : Leads P (tryCatch x rescue).run P := by
  rw [ExceptT.run_tryCatch]
  refine .bind hx fun result => ?_
  cases result
  case error e => exact hr e
  case ok      => exact .pure

theorem except {x : Except ε α} : Leads P (liftM x : RepositoryM ε α).run P := by
  cases x <;> exact .pure

theorem tree {x : RepositoryM TreeError α} (hx : Leads P x.run P) :
    Leads P (liftM x : RepositoryM AccessError α).run P := hx

end Leads

theorem leads_still_allowAtRoot {policy : Policy} {principal privilege : String} :
    Leads (Still s₀) (allowAtRoot policy principal privilege).run (Still s₀) :=
  .bind_run .get fun _ => .bind_run .except fun _ => .bind_run .except fun _ => .pure

theorem leads_still_installPolicy :
    Leads (Still s₀) (installPolicy settings session known).run (Still s₀) := by
  have inSession {α : Type} {work : SessionM AccessError α} :
      Leads (Still s₀) (Repository.inSession session work).run (Still s₀) :=
    fun _ h => h.trans still_inSession
  refine .bind_run inSession fun found => ?_
  cases found
  case none => exact .error
  case some policy =>
    have rest (policy : Policy) : Leads (Still s₀) (do
        let policy ← allowAtRoot policy settings.everyone Privilege.readName
        Repository.inSession session (Editor.setPolicy Path.root policy)
        save session : RepositoryM AccessError Unit).run (Still s₀) :=
      .bind_run leads_still_allowAtRoot fun _ => .bind_run inSession fun _ =>
        .tree fun _ h => h.trans still_save
    dsimp only
    split
    · exact .bind_run leads_still_allowAtRoot fun _ => rest _
    · exact .bind_run .pure fun _ => rest _

theorem leads_still_ensureRootPolicy :
    Leads (Still s₀) (ensureRootPolicy settings session known).run (Still s₀) := by
  refine .bind_run .get fun s => .bind_run .except fun root => .bind_run .except fun policy => ?_
  split
  case isFalse => exact .pure
  case isTrue =>
    exact .rescued leads_still_installPolicy fun _ =>
      .rescued (.tree fun _ h => h.trans still_refresh) fun _ => .pure

-- What the operations do.

theorem provider_eq (h : s.providers.get? p = some ⟨settings, state⟩) :
    s.provider p = ⟨settings, state⟩ := by
  rw [provider, h]
  rfl

theorem run_providerCollector :
    (providerCollector p).run.run s = ((s.provider p).state.collector, s) := by
  refine run_get_bind.trans ?_
  cases (s.provider p).state <;> rfl

-- Whatever begins with the collector of a provider needs a provider that is ready.
theorem run_providerCollector_bind {f : Nat → RepositoryM AccessError α} :
    (providerCollector p >>= f).run.run s = match (s.provider p).state.collector with
      | .error e => (.error e, s)
      | .ok collector => (f collector).run.run s := by
  have run : (providerCollector p >>= f).run.run s =
      match (providerCollector p).run.run s with
        | (.error e, s) => (.error e, s)
        | (.ok collector, s) => (f collector).run.run s := by
    rw [ExceptT.run_bind, StateT.run_bind]
    rcases (providerCollector p).run.run s with ⟨_ | _, s⟩ <;> rfl
  rw [run, run_providerCollector]
  cases (s.provider p).state.collector <;> rfl

-- An error of the tree is passed on as one of access control.
theorem run_tree {work : RepositoryM TreeError α} :
    (liftM work : RepositoryM AccessError α).run.run s =
      ((work.run.run s).1.mapError .tree, (work.run.run s).2) := rfl

def listened (s : Repository) (e : AclEvaluator) : Repository :=
  let collector := (s.collectors.get? e.collector).getD .absent
  let (_, heard) := collector.addListener (.evaluator s.evaluators.next)
  { s with
    collectors := s.collectors.set e.collector heard
    evaluators := (s.evaluators.add (.acl { e with listener := some collector.nextListener })).2 }

theorem run_compile : (compile p principals).run.run s =
    match (s.provider p).state.collector with
    | .error e => (.error e, s)
    | .ok collector =>
      let settings := (s.provider p).settings
      (.ok s.evaluators.next,
        if principals.isPrivileged then
          { s with evaluators := (s.evaluators.add (.everything false)).2 }
        else if principals.isEveryone settings.everyone then
          { s with evaluators := (s.evaluators.add (.readOnly false)).2 }
        else
          s.listened
            (.detached principals collector settings.resultCapacity settings.readCapacity)) := by
  rw [compile, run_providerCollector_bind]
  cases (s.provider p).state.collector
  case error => rfl
  case ok collector =>
    refine run_get_bind.trans ?_
    dsimp only
    cases principals.isPrivileged
    case true  => rfl
    case false => cases principals.isEveryone (s.provider p).settings.everyone <;> rfl

theorem run_canAccessRoot : (canAccessRoot p principals).run.run s =
    match (s.provider p).state.collector with
    | .error e => (.error e, s)
    | .ok collector =>
      if principals.isPrivileged then (.ok true, s)
      else
        let work := EvaluatorM.grants s.view s.registry Path.root .read
        let out := work.run.run (s.bench (.detached principals collector 1 1))
        (out.1, { s with collectors := s.collectors.set collector out.2.collector }) := by
  rw [canAccessRoot, run_providerCollector_bind]
  cases (s.provider p).state.collector
  case error => rfl
  case ok collector =>
    dsimp only
    cases principals.isPrivileged
    case true  => rfl
    case false =>
      show (liftM ((EvaluatorM.grants s.view s.registry Path.root .read).run.run
        (s.bench (.detached principals collector 1 1))).1 : RepositoryM AccessError Bool).run.run _
          = _
      dsimp only
      cases ((EvaluatorM.grants s.view s.registry Path.root .read).run.run
        (s.bench (.detached principals collector 1 1))).1 <;> rfl

-- With a collector that is told of all that happens to policies.
def opened (s : Repository) (capacity : Nat) : Repository :=
  { s with
    dispatcher := ⟨s.dispatcher.subscriptions ++
      [⟨⟨s.dispatcher.nextId⟩, PolicyChange.filter, .collector s.collectors.next⟩],
      s.dispatcher.nextId + 1⟩
    collectors := (s.collectors.add (.new capacity ⟨s.dispatcher.nextId⟩)).2 }

def equip (p : Nat) (settings : Settings) : RepositoryM AccessError Unit := do
  let collector ← openCollector settings.entriesCapacity
  modify fun s => { s with providers := s.providers.set p ⟨settings, .initialized collector⟩ }

def equipped (s : Repository) (p : Nat) (settings : Settings) : Repository :=
  { s.opened settings.entriesCapacity with
    providers := s.providers.set p ⟨settings, .initialized s.collectors.next⟩ }

theorem run_equip : (equip p settings).run.run s =
    match s.observationFaults.check .subscribe with
    | .error e => (.error (.tree e), s)
    | .ok () => (.ok (), s.equipped p settings) := by
  have run : (equip p settings).run.run s =
      match (openCollector settings.entriesCapacity).run.run s with
        | (.error e, s) => (.error (.tree e), s)
        | (.ok collector, s) => (.ok (), { s with
            providers := s.providers.set p ⟨settings, .initialized collector⟩ }) := by
    rw [equip, ExceptT.run_bind, StateT.run_bind, run_tree]
    rcases (openCollector settings.entriesCapacity).run.run s with ⟨_ | _, s⟩ <;> rfl
  rw [run, run_openCollector]
  cases s.observationFaults.check .subscribe <;> rfl

theorem run_initProvider_again {collector : Nat}
    (h : s.provider p = ⟨settings, .initialized collector⟩) :
    (initProvider p session known).run.run s = (.error (.policy .alreadyInitialized), s) := by
  refine run_get_bind.trans ?_
  rw [h]
  rfl

theorem run_initProvider_late (h : s.provider p = ⟨settings, .closed⟩) :
    (initProvider p session known).run.run s = (.error (.notInitialized .providerClosed), s) := by
  refine run_get_bind.trans ?_
  rw [h]
  rfl

theorem run_initProvider_first (h : s.provider p = ⟨settings, .created⟩) :
    (initProvider p session known).run.run s = (
      if !settings.omitDefaultPolicy then
        ensureRootPolicy settings session known >>= fun _ => equip p settings
      else equip p settings).run.run s := by
  refine run_get_bind.trans ?_
  rw [h]
  rfl

-- A provider gets a collector when it is made ready, unless that fails.
theorem run_initProvider (session : Nat) (known : List String)
    (h : s.provider p = ⟨settings, .created⟩) :
    ∃ s', Still s s' ∧ ((∃ e, (initProvider p session known).run.run s = (.error e, s')) ∨
      (initProvider p session known).run.run s = (.ok (), s'.equipped p settings)) := by
  have equips {s' : Repository} :
      (∃ e, (equip p settings).run.run s' = (.error e, s')) ∨
        (equip p settings).run.run s' = (.ok (), s'.equipped p settings) := by
    rw [run_equip]
    cases s'.observationFaults.check .subscribe
    case error e => exact .inl ⟨_, rfl⟩
    case ok      => exact .inr rfl
  rw [run_initProvider_first h]
  split
  case isFalse => exact ⟨s, .refl, equips⟩
  case isTrue =>
    have still : Still s (s.after (ensureRootPolicy settings session known)) :=
      leads_still_ensureRootPolicy s .refl
    unfold after at still
    rw [ExceptT.run_bind, StateT.run_bind]
    generalize (ensureRootPolicy settings session known).run.run s = out at still ⊢
    obtain ⟨e | _, s'⟩ := out
    · exact ⟨s', still, .inl ⟨e, rfl⟩⟩
    · exact ⟨s', still, equips⟩

-- Closing collectors.

theorem subscribed_closeCollector (h : Subscribed s.dispatcher s.recorders.named s.collectors) :
    Subscribed (s.after (closeCollector n)).dispatcher
      (s.after (closeCollector n)).recorders.named (s.after (closeCollector n)).collectors := by
  -- Nothing need be said of what is held.
  have holds : s.Holds ⟨fun _ _ => True, fun _ _ _ _ => True, fun _ _ _ => True⟩ (fun _ => True)
      fun _ => True := ⟨h, fun _ _ late => absurd trivial late, fun _ _ late => absurd trivial late⟩
  exact holds.closeCollector.subscribed

-- A collector that is closed cancels its subscription, if that does not fail.
theorem after_closeCollector {id : SubscriptionId}
    (hid : (s.collectors.get? n).bind (·.subscription) = some id)
    (listed : s.dispatcher.subscriptions.any (·.id = id)) :
    ∃ collectors dispatcher, s.after (closeCollector n) = { s with collectors, dispatcher } ∧
      (s.observationFaults.check .unsubscribe = .ok () →
        dispatcher.subscriptions = s.dispatcher.subscriptions.filter (·.id ≠ id)) := by
  unfold after
  rw [run_closeCollector, hid]
  dsimp only
  cases s.observationFaults.check .unsubscribe
  case error e => exact ⟨_, _, rfl, nofun⟩
  case ok =>
    have cancelled := Dispatcher.unsubscribe_eq_ok_iff.2 ⟨listed, rfl⟩
    simp only [run_unsubscribe, cancelled]
    exact ⟨_, _, rfl, fun _ => rfl⟩

-- What closing a provider does to it, before its collector is closed.
def retired (s : Repository) (p : Nat) : Repository :=
  { s with providers := s.providers.set p { s.provider p with state := .closed } }

theorem run_closeProvider : (closeProvider p).run.run s =
    match (s.provider p).state with
    | .initialized collector =>
      let out := (closeCollector collector).run.run (s.retired p)
      (out.1.mapError .tree, out.2)
    | _ => (.ok (), s.retired p) := by
  refine run_get_bind.trans ?_
  dsimp only
  cases (s.provider p).state
  case initialized collector => exact run_tree
  all_goals rfl

end Repository

end PolicyTree
