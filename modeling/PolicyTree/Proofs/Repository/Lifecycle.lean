import Mathlib.Tactic.Common
import PolicyTree.Proofs.Repository.Phases

namespace PolicyTree

variable {α β : Type}

namespace EvaluatorM.Question

variable {tree : TreeView} {r : Registry} {work : EvaluatorM α} {b : Bench}

-- A closed evaluator refuses whatever it is asked.
theorem refused (h : work.Question tree r) (closed : b.evaluator.isClosed) :
    (work.run.run b).1 = .error (.notInitialized .evaluatorClosed) := by
  induction h
  case decision    => rw [run_decision, if_pos closed]
  case canRead     => rw [run_canRead, if_pos closed]
  case map h hi    => rw [run_map, hi]; rfl

end EvaluatorM.Question

namespace Repository

variable {s s₀ : Repository} {p n : Nat} {log : List Exchange} {settings : Settings}

-- Evaluators that are closed.

def Refuses (s : Repository) (work : RepositoryM AccessError α) : Prop :=
  (work.run.run s).1 = .error (.notInitialized .evaluatorClosed)

theorem Refuses.bind {work : RepositoryM AccessError β} {f : β → RepositoryM AccessError α}
    (h : s.Refuses work) : s.Refuses (work >>= f) := by
  unfold Refuses at h ⊢
  rw [ExceptT.run_bind, StateT.run_bind]
  rcases hr : work.run.run s with ⟨answer, s'⟩
  obtain rfl : answer = _ := (congrArg Prod.fst hr).symm.trans h
  rfl

theorem Refuses.foldlM {f : β → α → RepositoryM AccessError β} {b : β} {l : List α} (hl : l ≠ [])
    (h : ∀ b a, s.Refuses (f b a)) : s.Refuses (l.foldlM f b) := by
  cases l
  case nil => exact absurd rfl hl
  case cons =>
    rw [List.foldlM_cons]
    exact (h _ _).bind

structure Shut (s : Repository) (n : Nat) : Prop where
  grants             : ∀ path permissions, s.Refuses (grants n path permissions)
  grantedPermissions : ∀ path, s.Refuses (grantedPermissions n path)
  privileges         : ∀ path, s.Refuses (privileges n path)
  privilegeSet       : ∀ path, s.Refuses (privilegeSet n path)
  hasPrivileges      : ∀ path required, s.Refuses (hasPrivileges n path required)
  canRead            : ∀ path item, s.Refuses (canRead n path item)
  decision           : ∀ path, s.Refuses (decision n path)

theorem HasClosed.refuses {everything : α} {readOnly : Except AccessError α} {work : EvaluatorM α}
    (h : s.HasClosed n) (hw : work.Question s.view s.registry) :
    s.Refuses (query n everything readOnly work) := by
  obtain ⟨e, he, closed⟩ := h
  rw [Refuses, run_query, he]
  rcases e with isClosed | isClosed | e
  case acl => exact hw.refused closed
  all_goals
    obtain rfl : isClosed = true := closed
    rfl

theorem HasClosed.shut (h : s.HasClosed n) : s.Shut n := by
  have decision {γ : Type} (f : Decision → γ) (path : String) :
      (f <$> EvaluatorM.decision s.view s.registry path).Question s.view s.registry :=
    .map f (.decision path)
  have grants (path : String) (permissions : Permissions) :
      s.Refuses (grants n path permissions) := by
    rw [Refuses, run_grants]
    exact h.refuses (EvaluatorM.grants_eq ▸ decision _ path)
  have privileges (path : String) : s.Refuses (privileges n path) := by
    rw [Refuses, run_privileges]
    exact h.refuses (EvaluatorM.privileges_eq ▸ decision _ path)
  refine ⟨grants, fun path => ?_, privileges, fun path => ?_, fun path _ => ?_, fun path item => ?_,
    fun path => ?_⟩
  · have some : Permissions.singles ≠ [] := by simp [Permissions.singles]
    exact .foldlM some fun _ ⟨_, permission⟩ => (grants path permission).bind
  · rw [privilegeSet]
    exact (privileges path).bind
  · rw [hasPrivileges]
    exact (privileges path).bind
  · rw [Refuses, run_canRead]
    exact h.refuses (.canRead path item)
  · rw [Refuses, run_decision]
    exact h.refuses (decision some path)

namespace Life

variable (created : s₀.providers.get? p = some ⟨settings, .created⟩)
  (subscribed : Subscribed s₀.dispatcher s₀.recorders.named s₀.collectors) (h : Life p s₀ log s)

include created subscribed h

theorem lives : Lives p settings s₀ log s := by
  induction h
  case start             => exact .start created subscribed
  case call hc hi        => exact (hi.call hc).2
  case meanwhile hm hi   => exact hi.still hm.still

theorem fits : ∀ later x earlier, log = later ++ x :: earlier → x.Fits earlier := by
  induction h
  case start           => exact fun later _ _ heq => absurd heq.symm (by simp)
  case meanwhile hi    => exact hi
  case call h hc hi    =>
    intro later x earlier heq
    cases later
    case nil =>
      obtain ⟨rfl, rfl⟩ := List.cons.inj heq
      exact ((h.lives created subscribed).call hc).1
    case cons y later => exact hi later x earlier (List.cons.inj heq).2

end Life

-- A provider is made ready once at most, and serves from then until it is closed. As long as it
-- does, it has one subscription, that of its collector, and this has as many listeners as there are
-- evaluators that weigh entries, were compiled and are not closed. Before and after there is no
-- subscription, unless it could not be cancelled. An evaluator that is closed refuses every
-- question from then on.
theorem provider_serves_until_closed (created : s₀.providers.get? p = some ⟨settings, .created⟩)
    (subscribed : Subscribed s₀.dispatcher s₀.recorders.named s₀.collectors)
    (h : Life p s₀ log s) :
    log.countP (·.initiates) ≤ 1 ∧
    (∀ later x earlier, log = later ++ x :: earlier → x.Fits earlier) ∧
    (Exchange.Ready log → ∃ c collector id, (s.provider p).state = .initialized c ∧
      s.collectors.get? c = some collector ∧
      s₀.subscriptionsSince s = [⟨id, PolicyChange.filter, .collector c⟩] ∧
      collector.listeners.length = (Exchange.heard settings.everyone log).length) ∧
    (¬Exchange.Ready log →
      ((∃ x ∈ log, x.closes) → s₀.observationFaults.check .unsubscribe = .ok ()) →
      s₀.subscriptionsSince s = []) ∧
    ∀ n, .closeEvaluator n ∈ log → s.Shut n := by
  have lives := h.lives created subscribed
  have fits := h.fits created subscribed
  refine ⟨Exchange.initiates_once fits, fits, fun ready => ?_, fun idle cancels => ?_,
    fun n hn => (lives.closed n hn).2.shut⟩
  · have ⟨provider, next, serves⟩ := lives.phase.of_ready ready
    have ⟨collector, hc, isOpen, registered⟩ := serves.collector
    have ⟨id, hid⟩ := Collector.isClosed_eq_false_iff.1 isOpen
    exact ⟨_, collector, id, congrArg Provider.state (provider_eq provider), hc,
      subscriptionsSince_eq_singleton lives.subscribed hc hid rfl next, registered.length⟩
  · cases lives.phase
    case serving ready _ _ _        => exact absurd ready idle
    case closed late _ cancelled    => exact cancelled (cancels late)
    case created next =>
      exact subscriptionsSince_eq_nil fun sub hm c hc =>
        next ▸ lives.subscribed.number sub hm c hc

def hired : Repository :=
  ((Repository.initial .initial).after (ε := TreeError) (login .empty)).after (ε := TreeError)
    (addProvider .initial)

def serving : Repository :=
  (hired.after (initProvider 0 0 ["administrators"])).after
    (compile 0 (.ofList [.named "alice"]))

def dismissed : Repository := ((closeEvaluator 0).run serving).2.after (closeProvider 0)

theorem provider_serves_alice :
    let served : List Exchange := [.compile (.ofList [.named "alice"]) (.ok 0), .init (.ok ())]
    let log := .close (.ok ()) :: .closeEvaluator 0 :: served
    hired.providers.get? 0 = some ⟨.initial, .created⟩ ∧
    Subscribed hired.dispatcher hired.recorders.named hired.collectors ∧
    Life 0 hired served serving ∧ Life 0 hired log dismissed ∧
    (∃ c collector id, (serving.provider 0).state = .initialized c ∧
      serving.collectors.get? c = some collector ∧
      hired.subscriptionsSince serving = [⟨id, PolicyChange.filter, .collector c⟩] ∧
      collector.listeners.length = 1) ∧
    hired.subscriptionsSince dismissed = [] ∧ dismissed.Shut 0 := by
  intro served log
  have created : hired.providers.get? 0 = some ⟨.initial, .created⟩ := rfl
  have subscribed : Subscribed hired.dispatcher hired.recorders.named hired.collectors := .initial
  have made : ((initProvider 0 0 ["administrators"]).run.run hired).1 = .ok () := by decide +kernel
  have compiled : ((compile 0 (.ofList [.named "alice"])).run.run
      (hired.after (initProvider 0 0 ["administrators"]))).1 = .ok 0 := by decide +kernel
  have closed : ((closeProvider 0).run.run ((closeEvaluator 0).run serving).2).1 = .ok () := by
    decide +kernel
  have init : Life 0 hired [_] _ := Life.start.call (.init 0 ["administrators"])
  rw [made] at init
  have compile := init.call (.compile (.ofList [.named "alice"]))
  rw [compiled] at compile
  have now : Life 0 hired served serving := compile
  have close := (now.call (.closeEvaluator (n := 0) (by decide))).call .close
  rw [closed] at close
  have later : Life 0 hired log dismissed := close
  have ⟨_, _, ready, _⟩ := provider_serves_until_closed created subscribed now
  have ⟨_, _, _, late, shut⟩ := provider_serves_until_closed created subscribed later
  exact ⟨created, subscribed, now, later, ready (by decide), late (by decide) fun _ => rfl,
    shut 0 (by simp [log])⟩

end Repository

end PolicyTree
