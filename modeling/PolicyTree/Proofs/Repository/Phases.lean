import Mathlib.Tactic.Common
import PolicyTree.Proofs.Access.Readiness
import PolicyTree.Proofs.Repository.Exchanges
import PolicyTree.Proofs.Repository.Serving

namespace PolicyTree.Repository

variable {α : Type} {s s₀ s' : Repository} {p n : Nat} {log : List Exchange} {x : Exchange}
  {settings : Settings} {principals : PrincipalSet}

-- What happens in the course of a life.

-- A call of a provider that has some exchanges behind it.
inductive Calls (p : Nat) (log : List Exchange) (s : Repository) : Exchange → Repository → Prop
  | init (session : Nat) (known : List String) :
    Calls p log s (.init ((initProvider p session known).run.run s).1)
      (s.after (initProvider p session known))
  | close : Calls p log s (.close ((closeProvider p).run.run s).1) (s.after (closeProvider p))
  -- All that an editor needs from its provider is that this is ready.
  | editor :
    Calls p log s (.editor (discard ((providerCollector p).run.run s).1))
      (s.after (providerCollector p))
  | collector :
    Calls p log s (.collector ((providerCollector p).run.run s).1) (s.after (providerCollector p))
  | compile (principals : PrincipalSet) :
    Calls p log s (.compile principals ((compile p principals).run.run s).1)
      (s.after (compile p principals))
  | canAccessRoot (principals : PrincipalSet) :
    Calls p log s (.canAccessRoot ((canAccessRoot p principals).run.run s).1)
      (s.after (canAccessRoot p principals))
  | closeEvaluator {n : Nat} (compiled : n ∈ Exchange.compiled log) :
    Calls p log s (.closeEvaluator n) ((closeEvaluator n).run s).2

-- What goes on meanwhile: evaluators are asked, sessions save, and whatever has nothing to do with
-- providers, collectors and evaluators may change.
inductive Meanwhile (s : Repository) : Repository → Prop
  | ask {α : Type} (n : Nat) (everything : α) (readOnly : Except AccessError α)
    {work : EvaluatorM α} (h : work.Question s.view s.registry) :
    Meanwhile s (s.after (query n everything readOnly work))
  | save (n : Nat) : Meanwhile s (s.after (save n))
  | elsewhere {s' : Repository} (providers : s'.providers = s.providers)
    (faults : s'.observationFaults = s.observationFaults)
    (collectors : s'.collectors = s.collectors) (evaluators : s'.evaluators = s.evaluators)
    (dispatcher : s'.dispatcher = s.dispatcher)
    (named : s'.recorders.named = s.recorders.named) : Meanwhile s s'

-- A provider's life from its creation on, with all the exchanges that there were.
inductive Life (p : Nat) (s₀ : Repository) : List Exchange → Repository → Prop
  | start : Life p s₀ [] s₀
  | call {log : List Exchange} {s s' : Repository} {x : Exchange} (h : Life p s₀ log s)
    (hc : Calls p log s x s') : Life p s₀ (x :: log) s'
  | meanwhile {log : List Exchange} {s s' : Repository} (h : Life p s₀ log s)
    (hm : Meanwhile s s') : Life p s₀ log s'

theorem Meanwhile.still (h : Meanwhile s s') : Still s s' := by
  cases h
  case ask hw    => exact still_query hw
  case save      => exact still_save
  case elsewhere => exact .elsewhere ‹_› ‹_› ‹_› ‹_› ‹_› ‹_›

-- The subscriptions of collectors that were not there at the start.
def subscriptionsSince (s₀ s : Repository) : List (Subscription Listener) :=
  s.dispatcher.subscriptions.filter fun sub => match sub.listener with
    | .collector c => s₀.collectors.next ≤ c
    | .recorder _ => false

-- Where a provider is in its life, by what has been exchanged. The collector that it gets is the
-- first that is opened.
inductive Phase (p : Nat) (settings : Settings) (s₀ : Repository) (log : List Exchange)
    (s : Repository) : Prop
  | created (early : ∀ x ∈ log, ¬x.initiates ∧ ¬x.closes) (idle : Exchange.compiled log = [])
    (provider : s.providers.get? p = some ⟨settings, .created⟩)
    (next : s.collectors.next = s₀.collectors.next)
  | serving (ready : Exchange.Ready log)
    (provider : s.providers.get? p = some ⟨settings, .initialized s₀.collectors.next⟩)
    (next : s.collectors.next = s₀.collectors.next + 1)
    (serves : s.Serves s₀.collectors.next (Exchange.compiled log)
      (Exchange.heard settings.everyone log))
  | closed (late : ∃ x ∈ log, x.closes)
    (provider : s.providers.get? p = some ⟨settings, .closed⟩)
    (cancelled : s₀.observationFaults.check .unsubscribe = .ok () → s₀.subscriptionsSince s = [])

structure Lives (p : Nat) (settings : Settings) (s₀ : Repository) (log : List Exchange)
    (s : Repository) : Prop where
  subscribed : Subscribed s.dispatcher s.recorders.named s.collectors
  faults     : s.observationFaults = s₀.observationFaults
  there      : ∀ n ∈ Exchange.compiled log, n < s.evaluators.next ∧ s.evaluators.contains n
  closed     : ∀ n, .closeEvaluator n ∈ log → n ∈ Exchange.compiled log ∧ s.HasClosed n
  phase      : Phase p settings s₀ log s

theorem subscriptionsSince_eq_nil (h : ∀ sub ∈ s'.dispatcher.subscriptions, ∀ c,
    sub.listener = .collector c → c < s.collectors.next) : s.subscriptionsSince s' = [] := by
  refine List.filter_eq_nil_iff.2 fun sub hm => ?_
  split
  case h_1 c hc => simpa using h sub hm c hc
  case h_2      => exact Bool.false_ne_true

-- If one collector was opened since and is open, its subscription is the only one.
theorem subscriptionsSince_eq_singleton {c : Nat} {collector : Collector} {id : SubscriptionId}
    (subscribed : Subscribed s.dispatcher s.recorders.named s.collectors)
    (hc : s.collectors.get? c = some collector) (hid : collector.subscription = some id)
    (first : c = s₀.collectors.next) (next : s.collectors.next = c + 1) :
    s₀.subscriptionsSince s = [⟨id, PolicyChange.filter, .collector c⟩] := by
  have own : ∀ sub ∈ s₀.subscriptionsSince s, sub.listener = .collector c := by
    intro sub hm
    obtain ⟨hm, since⟩ := List.mem_filter.1 hm
    split at since
    case h_2      => exact nomatch since
    case h_1 c' hc =>
      have := subscribed.number sub hm c' hc
      have := of_decide_eq_true since
      rw [hc, show c' = c by omega]
  have there : ⟨id, PolicyChange.filter, .collector c⟩ ∈ s₀.subscriptionsSince s :=
    List.mem_filter.2 ⟨subscribed.mem hc hid, by simp [first]⟩
  have alone : (s₀.subscriptionsSince s).Pairwise _ := subscribed.alone.filter _
  match s₀.subscriptionsSince s, own, there, alone with
  | [_], _, there, _ => rw [List.mem_singleton.1 there]
  | sub :: sub' :: _, own, _, alone =>
    exact absurd (own sub' (by simp)) (List.rel_of_pairwise_cons alone List.mem_cons_self c
      (own sub List.mem_cons_self))

theorem Phase.of_ready (h : Phase p settings s₀ log s) (ready : Exchange.Ready log) :
    s.providers.get? p = some ⟨settings, .initialized s₀.collectors.next⟩ ∧
      s.collectors.next = s₀.collectors.next + 1 ∧
      s.Serves s₀.collectors.next (Exchange.compiled log)
        (Exchange.heard settings.everyone log) := by
  cases h
  case serving provider next serves => exact ⟨provider, next, serves⟩
  case created early _ _ _ =>
    obtain ⟨x, hx, initiates⟩ := ready.1
    exact absurd initiates (early x hx).1
  case closed late _ _ =>
    obtain ⟨x, hx, closes⟩ := late
    exact absurd closes (ready.2 x hx)

theorem Phase.ready_iff (h : Phase p settings s₀ log s) :
    Exchange.Ready log ↔ ∃ c, (s.provider p).state = .initialized c := by
  refine ⟨fun ready => ?_, fun ⟨c, hc⟩ => ?_⟩
  · exact ⟨_, congrArg Provider.state (provider_eq (h.of_ready ready).1)⟩
  cases h
  case serving ready _ _ _ => exact ready
  case created provider _ => exact nomatch provider_eq provider ▸ hc
  case closed provider _ => exact nomatch provider_eq provider ▸ hc

theorem Phase.unready_iff (h : Phase p settings s₀ log s) :
    Unready (s.provider p).state.collector ↔ ¬Exchange.Ready log := by
  rw [h.ready_iff]
  cases (s.provider p).state
  case initialized => exact ⟨nofun, fun h => absurd ⟨_, rfl⟩ h⟩
  all_goals exact ⟨nofun, fun _ => ⟨_, rfl⟩⟩

namespace Lives

-- Whatever leaves the provider alone leaves it where it is in its life.
theorem still (h : Lives p settings s₀ log s) (hs : Still s s') :
    Lives p settings s₀ log s' where
  subscribed := hs.subscribed h.subscribed
  faults     := hs.faults.trans h.faults
  there n hn := ⟨hs.evaluators ▸ (h.there n hn).1, hs.contains (h.there n hn).2⟩
  closed n hn := ⟨(h.closed n hn).1, (h.closed n hn).2.still hs⟩
  phase      := by
    cases h.phase
    case created early idle provider next =>
      exact .created early idle (hs.providers ▸ provider) (hs.collectors.trans next)
    case serving ready provider next serves =>
      exact .serving ready (hs.providers ▸ provider) (hs.collectors.trans next)
        (serves.still (fun n hn => (h.there n hn).2) hs)
    case closed late provider cancelled =>
      refine .closed late (hs.providers ▸ provider) fun cancels => ?_
      refine List.filter_eq_nil_iff.2 fun sub hm => ?_
      exact List.filter_eq_nil_iff.1 (cancelled cancels) sub (hs.subscriptions sub hm)

theorem passive (h : Lives p settings s₀ log s) (hx : x.Passive) :
    Lives p settings s₀ (x :: log) s where
  subscribed := h.subscribed
  faults     := h.faults
  there      := hx.compiled log ▸ h.there
  closed n hn := by
    rw [hx.compiled]
    exact h.closed n ((List.mem_cons.1 hn).resolve_left (hx.keeps n).symm)
  phase      := by
    cases h.phase
    case created early idle provider next =>
      refine .created (List.forall_mem_cons.2 ⟨?_, early⟩) (hx.compiled log ▸ idle) provider next
      simp [hx.initiates, hx.closes]
    case serving ready provider next serves =>
      refine .serving ((Exchange.ready_cons hx.initiates hx.closes).2 ready) provider next ?_
      rwa [hx.compiled, hx.heard]
    case closed late provider cancelled =>
      exact .closed (late.imp fun _ => .imp_left (List.mem_cons_of_mem _)) provider cancelled

-- It is made ready.
theorem equipped (h : Lives p settings s₀ log s) (early : ∀ x ∈ log, ¬x.initiates ∧ ¬x.closes)
    (idle : Exchange.compiled log = []) (there : s.providers.get? p = some ⟨settings, .created⟩)
    (next : s.collectors.next = s₀.collectors.next) :
    Lives p settings s₀ (.init (.ok ()) :: log) (s.equipped p settings) where
  subscribed := h.subscribed.opened
  faults     := h.faults
  there      := h.there
  closed n hn := h.closed n ((List.mem_cons.1 hn).resolve_left nofun)
  phase      := by
    have nobody : Exchange.heard settings.everyone log = [] :=
      List.eq_nil_iff_forall_not_mem.2 fun n hn =>
        List.not_mem_nil (idle ▸ Exchange.mem_compiled_of_heard hn)
    refine .serving ⟨⟨_, List.mem_cons_self, rfl⟩, fun x hx => ?_⟩ ?_ (congrArg (· + 1) next) ?_
    · rcases List.mem_cons.1 hx with rfl | hx
      · exact Bool.false_ne_true
      · exact (early x hx).2
    · show (s.providers.set p _).get? p = _
      rw [Table.get?_set, if_pos rfl, there, next]
      rfl
    · show Serves _ _ (Exchange.compiled log) (Exchange.heard settings.everyone log)
      rw [idle, nobody]
      refine ⟨nofun, nofun, .new settings.entriesCapacity ⟨s.dispatcher.nextId⟩, ?_, rfl, ?_⟩
      · show (s.collectors.add _).2.get? _ = _
        rw [Table.get?_add, if_pos next.symm]
      · exact ⟨rfl, .nil, nofun, nofun⟩

-- It compiles an evaluator.
theorem grows (h : Lives p settings s₀ log s) (ready : Exchange.Ready log) (g : Grows s s')
    (serves : s.Serves s₀.collectors.next (Exchange.compiled log)
        (Exchange.heard settings.everyone log) →
      s'.Serves s₀.collectors.next (s.evaluators.next :: Exchange.compiled log)
        (Exchange.heard settings.everyone (.compile principals (.ok s.evaluators.next) :: log))) :
    Lives p settings s₀ (.compile principals (.ok s.evaluators.next) :: log) s' where
  subscribed := g.subscribed h.subscribed
  faults     := g.faults.trans h.faults
  there n hn := by
    rcases List.mem_cons.1 hn with rfl | hn
    · exact ⟨g.evaluators ▸ Nat.lt_succ_self _, g.new⟩
    · have ⟨below, there⟩ := h.there n hn
      refine ⟨g.evaluators ▸ Nat.lt_succ_of_lt below, ?_⟩
      rwa [Table.contains_iff, g.others n (Nat.ne_of_lt below), ← Table.contains_iff]
  closed n hn := by
    have ⟨compiled, e, he, closed⟩ := h.closed n ((List.mem_cons.1 hn).resolve_left nofun)
    have older : n ≠ s.evaluators.next := Nat.ne_of_lt (h.there n compiled).1
    exact ⟨List.mem_cons_of_mem _ compiled, e, (g.others n older).trans he, closed⟩
  phase      := by
    have ⟨provider, next, here⟩ := h.phase.of_ready ready
    exact .serving ((Exchange.ready_cons rfl rfl).2 ready) (g.providers ▸ provider)
      (g.collectors.trans next) (serves here)

-- One of its evaluators is closed.
theorem closeEvaluator (h : Lives p settings s₀ log s) (hn : n ∈ Exchange.compiled log) :
    Lives p settings s₀ (.closeEvaluator n :: log) ((closeEvaluator n).run s).2 := by
  have shuts := shuts_closeEvaluator (h.there n hn).2
  have persists {m : Nat} (hm : s.HasClosed m) :
      ((Repository.closeEvaluator n).run s).2.HasClosed m := by
    by_cases heq : m = n
    · exact heq ▸ shuts.closed
    · obtain ⟨e, he, closed⟩ := hm
      exact ⟨e, (shuts.others m heq).trans he, closed⟩
  refine ⟨shuts.subscribed h.subscribed, shuts.faults.trans h.faults, fun m hm => ?_,
    fun m hm => ?_, ?_⟩
  · have ⟨below, there⟩ := h.there m hm
    refine ⟨shuts.evaluators ▸ below, ?_⟩
    rw [Table.contains_iff]
    by_cases heq : m = n
    · obtain ⟨e, he, _⟩ := shuts.closed
      rw [heq, he]
      rfl
    · rwa [shuts.others m heq, ← Table.contains_iff]
  · rcases List.mem_cons.1 hm with heq | hm
    · obtain rfl := Exchange.closeEvaluator.inj heq
      exact ⟨hn, shuts.closed⟩
    · exact ⟨(h.closed m hm).1, persists (h.closed m hm).2⟩
  · cases h.phase
    case created idle _ _ => exact nomatch (idle ▸ hn : n ∈ [])
    case serving ready provider next serves =>
      exact .serving ((Exchange.ready_cons rfl rfl).2 ready) (shuts.providers ▸ provider)
        (shuts.collectors.trans next) (serves.closeEvaluator hn (h.there n hn).2)
    case closed late provider cancelled =>
      refine .closed (late.imp fun _ => .imp_left (List.mem_cons_of_mem _))
        (shuts.providers ▸ provider) ?_
      rwa [subscriptionsSince, shuts.dispatcher]

-- It is closed.
theorem closed_for_good (h : Lives p settings s₀ log s) {answer : Except AccessError Unit}
    (evaluators : s'.evaluators = s.evaluators)
    (faults : s'.observationFaults = s.observationFaults)
    (provider : s'.providers.get? p = some ⟨settings, .closed⟩)
    (subscribed : Subscribed s'.dispatcher s'.recorders.named s'.collectors)
    (cancelled : s₀.observationFaults.check .unsubscribe = .ok () → s₀.subscriptionsSince s' = []) :
    Lives p settings s₀ (.close answer :: log) s' where
  subscribed  := subscribed
  faults      := faults.trans h.faults
  there       := evaluators ▸ h.there
  closed n hn := by
    rw [HasClosed, evaluators]
    exact h.closed n ((List.mem_cons.1 hn).resolve_left nofun)
  phase       := .closed ⟨_, List.mem_cons_self, rfl⟩ provider cancelled

theorem close (h : Lives p settings s₀ log s) :
    Lives p settings s₀ (.close ((closeProvider p).run.run s).1 :: log)
      (s.after (closeProvider p)) := by
  have retires {state : ProviderState} (hp : s.providers.get? p = some ⟨settings, state⟩) :
      (s.retired p).providers.get? p = some ⟨settings, .closed⟩ := by
    unfold retired
    rw [Table.get?_set, if_pos rfl, hp, provider_eq hp]
    rfl
  unfold after
  rw [run_closeProvider]
  cases h.phase
  case created _ _ provider next =>
    rw [provider_eq provider]
    refine h.closed_for_good rfl rfl (retires provider) h.subscribed fun _ => ?_
    exact subscriptionsSince_eq_nil fun sub hm c hc => next ▸ h.subscribed.number sub hm c hc
  case closed _ provider cancelled =>
    rw [provider_eq provider]
    exact h.closed_for_good rfl rfl (retires provider) h.subscribed cancelled
  case serving _ provider next serves =>
    obtain ⟨collector, hc, isOpen, _⟩ := serves.collector
    have ⟨id, hid⟩ := Collector.isClosed_eq_false_iff.1 isOpen
    have mem := h.subscribed.mem hc hid
    have found : ((s.retired p).collectors.get? s₀.collectors.next).bind (·.subscription) =
        some id := Option.bind_eq_some_iff.2 ⟨collector, hc, hid⟩
    have listed : (s.retired p).dispatcher.subscriptions.any (·.id = id) :=
      List.any_eq_true.2 ⟨_, mem, decide_eq_true rfl⟩
    have subscribed : Subscribed (s.retired p).dispatcher (s.retired p).recorders.named
        (s.retired p).collectors := h.subscribed
    have ⟨collectors, dispatcher, run, filtered⟩ := after_closeCollector found listed
    have closed := subscribed_closeCollector (n := s₀.collectors.next) subscribed
    rw [run] at closed
    rw [provider_eq provider]
    show Lives p settings s₀ _ ((s.retired p).after (closeCollector s₀.collectors.next))
    rw [run]
    refine h.closed_for_good rfl rfl (retires provider) closed fun cancels => ?_
    refine subscriptionsSince_eq_nil fun sub hm c hl => ?_
    -- No other subscription is for a collector that was opened since.
    rw [filtered (h.faults ▸ cancels : s.observationFaults.check _ = _)] at hm
    obtain ⟨hm, hne⟩ := List.mem_filter.1 hm
    have below := h.subscribed.number sub hm c hl
    rw [next] at below
    refine Nat.lt_of_le_of_ne (Nat.lt_succ_iff.1 below) ?_
    rintro rfl
    have same := h.subscribed.only hm mem hl rfl
    exact absurd (congrArg Subscription.id same) (of_decide_eq_true hne)

theorem init (h : Lives p settings s₀ log s) {session : Nat} {known : List String} :
    Exchange.Fits log (.init ((initProvider p session known).run.run s).1) ∧
      Lives p settings s₀ (.init ((initProvider p session known).run.run s).1 :: log)
        (s.after (initProvider p session known)) := by
  have failed {e : AccessError} : Exchange.Passive (.init (.error e)) :=
    ⟨rfl, rfl, fun _ => rfl, fun _ _ => rfl, nofun⟩
  cases h.phase
  case created early idle provider next =>
    have ⟨s', still, run⟩ := run_initProvider session known (provider_eq provider)
    refine ⟨⟨fun ready => ?_, fun ⟨x, hx, closes⟩ => absurd closes (early x hx).2⟩, ?_⟩
    · obtain ⟨x, hx, initiates⟩ := ready.1
      exact absurd initiates (early x hx).1
    · have there := h.still still
      unfold after
      rcases run with ⟨e, run⟩ | run <;> rw [run]
      · exact there.passive failed
      · exact there.equipped early idle (still.providers ▸ provider)
          (still.collectors.trans next)
  case serving ready provider _ _ =>
    unfold after
    rw [run_initProvider_again (provider_eq provider)]
    exact ⟨⟨fun _ => rfl, fun ⟨x, hx, closes⟩ => absurd closes (ready.2 x hx)⟩, h.passive failed⟩
  case closed late provider _ =>
    unfold after
    rw [run_initProvider_late (provider_eq provider)]
    refine ⟨⟨fun ready => ?_, fun _ => rfl⟩, h.passive failed⟩
    obtain ⟨x, hx, closes⟩ := late
    exact absurd closes (ready.2 x hx)

theorem compile (h : Lives p settings s₀ log s) :
    Exchange.Fits log (.compile principals ((compile p principals).run.run s).1) ∧
      Lives p settings s₀ (.compile principals ((compile p principals).run.run s).1 :: log)
        (s.after (compile p principals)) := by
  have unready := h.phase.unready_iff
  unfold after
  rw [run_compile]
  cases hc : (s.provider p).state.collector <;> rw [hc] at unready <;> dsimp only
  case error e =>
    exact ⟨unready, h.passive ⟨rfl, rfl, fun _ => rfl, fun _ _ => rfl, nofun⟩⟩
  case ok c =>
    have ready : Exchange.Ready log := by
      by_contra late
      exact nomatch unready.2 late
    have provider := provider_eq (h.phase.of_ready ready).1
    obtain rfl : s₀.collectors.next = c := by
      rw [provider] at hc
      exact Except.ok.inj hc
    have below (n : Nat) (hn : n ∈ Exchange.compiled log) := (h.there n hn).1
    refine ⟨⟨nofun, absurd ready⟩, ?_⟩
    rw [provider]
    dsimp only
    split
    case isTrue privileged =>
      refine h.grows ready grows_add fun serves => ?_
      rw [Exchange.heard, if_pos (by simp [privileged])]
      exact serves.add below nofun
    case isFalse subject =>
      split
      case isTrue everyone =>
        refine h.grows ready grows_add fun serves => ?_
        rw [Exchange.heard, if_pos (by simp [everyone])]
        exact serves.add below nofun
      case isFalse others =>
        refine h.grows ready grows_listened fun serves => ?_
        rw [Exchange.heard, if_neg (by simp [subject, others])]
        exact serves.listened below rfl rfl

theorem canAccessRoot (h : Lives p settings s₀ log s) :
    Exchange.Fits log (.canAccessRoot ((canAccessRoot p principals).run.run s).1) ∧
      Lives p settings s₀ (.canAccessRoot ((canAccessRoot p principals).run.run s).1 :: log)
        (s.after (canAccessRoot p principals)) := by
  have passive {answer : Except AccessError Bool} : Exchange.Passive (.canAccessRoot answer) :=
    ⟨rfl, rfl, fun _ => rfl, fun _ _ => rfl, nofun⟩
  have unready := h.phase.unready_iff
  unfold after
  rw [run_canAccessRoot]
  cases hc : (s.provider p).state.collector <;> rw [hc] at unready <;> dsimp only
  case error e => exact ⟨(unready_error.trans unready_error.symm).trans unready, h.passive passive⟩
  case ok c =>
    have ready : Exchange.Ready log := by
      by_contra late
      exact nomatch unready.2 late
    split
    case isTrue => exact ⟨⟨nofun, absurd ready⟩, h.passive passive⟩
    case isFalse =>
      refine ⟨⟨fun ⟨cause, failed⟩ => ?_, absurd ready⟩, ?_⟩
      · exact absurd failed (neverUnready_grants rfl cause)
      · refine (h.still (still_bench (e := .detached principals c 1 1) ?_)).passive passive
        exact EvaluatorM.grants_eq ▸ .map _ (.decision _)

-- Whatever is asked of it is answered as it should be, and it goes on with its life.
theorem call (h : Lives p settings s₀ log s) (hc : Calls p log s x s') :
    x.Fits log ∧ Lives p settings s₀ (x :: log) s' := by
  cases hc
  case init session known => exact h.init
  case close => exact ⟨trivial, h.close⟩
  case closeEvaluator n hn => exact ⟨trivial, h.closeEvaluator hn⟩
  case compile => exact h.compile
  case collector =>
    unfold after
    rw [run_providerCollector]
    exact ⟨h.phase.unready_iff, h.passive ⟨rfl, rfl, fun _ => rfl, fun _ _ => rfl, nofun⟩⟩
  case editor =>
    unfold after
    rw [run_providerCollector]
    refine ⟨unready_discard.trans h.phase.unready_iff, h.passive ?_⟩
    exact ⟨rfl, rfl, fun _ => rfl, fun _ _ => rfl, nofun⟩
  case canAccessRoot => exact h.canAccessRoot

theorem start (created : s₀.providers.get? p = some ⟨settings, .created⟩)
    (subscribed : Subscribed s₀.dispatcher s₀.recorders.named s₀.collectors) :
    Lives p settings s₀ [] s₀ where
  subscribed := subscribed
  faults     := rfl
  there      := nofun
  closed     := nofun
  phase      := .created nofun rfl created rfl

end Lives

end PolicyTree.Repository
