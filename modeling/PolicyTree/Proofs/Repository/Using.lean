import Mathlib.Logic.Relation
import Mathlib.Tactic.Common
import PolicyTree.Proofs.Access.Keeping
import PolicyTree.Proofs.Policy.Editing
import PolicyTree.Proofs.Repository.Runs
import PolicyTree.Proofs.Tree.Succeeding

namespace PolicyTree

-- What may be done in a session that works on a tree: policies are edited, and other nodes are
-- written that are no access control content and do not become any.
inductive SessionM.Edits (tree : Store) : {α ε : Type} → SessionM ε α → Prop
  | setPolicy (path : String) (p : Policy) : Edits tree (Editor.setPolicy path p)
  | removePolicy (path : String) : Edits tree (Editor.removePolicy path)
  | addNode (parent : NodeHandle) (name type : String) (outside : ¬tree.IsContent parent.id)
    (plain : type ∉ Policy.contentTypes) : Edits tree (SessionM.addNode parent name type)
  | addMixin (node : NodeHandle) (mixin : String) (plain : mixin ∉ Policy.contentTypes) :
    Edits tree (SessionM.addMixin node mixin)
  | setProperty (node : NodeHandle) (name : String) (value : Value) :
    Edits tree (SessionM.setProperty node name value)
  | removeProperty (node : NodeHandle) (name : String) :
    Edits tree (SessionM.removeProperty node name)
  | removeNode (node : NodeHandle) : Edits tree (SessionM.removeNode node)
  | ask {α ε : Type} (question : TreeView → Except ε α) : Edits tree (SessionM.ask question)

inductive EvaluatorM.Question (tree : TreeView) (r : Registry) : {α : Type} → EvaluatorM α → Prop
  | decision (path : String) : Question tree r (EvaluatorM.decision tree r path)
  | canRead (path : String) (item : Option NodeId) :
    Question tree r (EvaluatorM.canRead tree r path item)
  | map {α β : Type} {work : EvaluatorM α} (f : α → β) (h : Question tree r work) :
    Question tree r (f <$> work)

namespace Repository

variable {α ε : Type} {s s' : Repository} {n : Nat}

-- What may be done with collectors, evaluators and their listeners.
inductive Checks (s : Repository) : Repository → Prop
  | openCollector (capacity : Nat) : Checks s (s.after (openCollector capacity))
  | closeCollector (n : Nat) : Checks s (s.after (closeCollector n))
  -- Handles come from the tree, so one for a node that is saved has the path where it stands.
  | collectedEntries (n : Nat) (principals : PrincipalSet) {node : NodeHandle}
    (genuine : ∀ o, s.saved.store.handle? node.id = some o → o = node) :
    Checks s (s.after (collectedEntries n principals node))
  | openEvaluator (principals : PrincipalSet) (collector resultCapacity readCapacity : Nat) :
    Checks s ((openEvaluator (.detached principals collector resultCapacity readCapacity)).run s).2
  | addEvaluator (principals : PrincipalSet) (collector resultCapacity readCapacity : Nat) :
    Checks s
      ((addEvaluator (.acl (.detached principals collector resultCapacity readCapacity))).run s).2
  | closeEvaluator (n : Nat) : Checks s ((closeEvaluator n).run s).2
  | dropEvaluator (n : Nat) : Checks s ((dropEvaluator n).run s).2
  | ask {α : Type} (n : Nat) (everything : α) (readOnly : Except AccessError α)
    {work : EvaluatorM α} (h : work.Question s.view s.registry) :
    Checks s (s.after (query n everything readOnly work))
  | askOnce {α : Type} (principals : PrincipalSet) (collector resultCapacity readCapacity : Nat)
    {work : EvaluatorM α} (h : work.Question s.view s.registry) :
    Checks s ((atWork (.detached principals collector resultCapacity readCapacity) work).run s).2
  | listen (n : Nat) (probe : Option Probe) : Checks s ((listen n probe).run s).2
  | removeListener (n id : Nat) : Checks s ((removeListener n id).run s).2
  | dropChangeRecorder (n : Nat) : Checks s ((dropChangeRecorder n).run s).2

-- One step of a repository whose policies are written with the editor.
inductive Uses (s : Repository) : Repository → Prop
  | login (faults : Faults) : Uses s ((login faults).run s).2
  | edit {α ε : Type} (n : Nat) {work : SessionM ε α}
    (h : work.Edits ((s.session n).store s.saved)) : Uses s (s.after (inSession n work))
  | refresh (n : Nat) (keepChanges : Bool) : Uses s (s.after (refresh n keepChanges))
  | save (n : Nat) : Uses s (s.after (save n))
  | check {s' : Repository} (h : Checks s s') : Uses s s'
  | observe (name : String) (filter : EventFilter) (cancels : Option String) :
    Uses s (s.after (observe name filter cancels))
  | unobserve {name : String} {recorder : Nat} {id : SubscriptionId}
    (h : s.recorders.find? name = some (recorder, id)) : Uses s (s.after (unsubscribe id))
  -- Recorders are drained, providers are set up, and ids are taken that no node gets.
  | elsewhere {s' : Repository} (saved : s'.saved = s.saved) (registry : s'.registry = s.registry)
    (sessions : s'.sessions = s.sessions) (faults : s'.faults = s.faults)
    (nextId : s.nextId.value ≤ s'.nextId.value) (collectors : s'.collectors = s.collectors)
    (evaluators : s'.evaluators = s.evaluators) (dispatcher : s'.dispatcher = s.dispatcher)
    (named : s'.recorders.named = s.recorders.named) : Uses s s'

-- What can become of a new repository that is used so, whatever privileges are registered.
def Used (s : Repository) : Prop :=
  ∃ r, Relation.ReflTransGen Uses { initial .initial with registry := r } s

-- Checking and observing leave alone the tree and those who write it.

structure Rests (s s' : Repository) : Prop where
  saved    : s'.saved = s.saved
  registry : s'.registry = s.registry
  sessions : s'.sessions = s.sessions
  faults   : s'.faults = s.faults
  nextId   : s.nextId.value ≤ s'.nextId.value

namespace Rests

theorem of_calm (h : Calm s s') : Rests s s' :=
  ⟨h.saved, h.registry, h.sessions, h.faults, Nat.le_of_eq (h.nextId ▸ rfl)⟩

theorem moves (h : Rests s s') : Moves s s' := .elsewhere h.saved h.sessions h.faults h.nextId

theorem unsubscribe {id : SubscriptionId} : Rests s (s.after (unsubscribe id)) := by
  rw [after, run_unsubscribe]
  split <;> exact ⟨rfl, rfl, rfl, rfl, Nat.le_refl _⟩

theorem observe {name : String} {filter : EventFilter} {cancels : Option String} :
    Rests s (s.after (observe name filter cancels)) := by
  rw [after, run_observe]
  split <;> exact ⟨rfl, rfl, rfl, rfl, Nat.le_refl _⟩

end Rests

theorem Checks.rests (h : Checks s s') : Rests s s' := by
  have same {s s' : Repository} (saved : s'.saved = s.saved := by rfl)
      (registry : s'.registry = s.registry := by rfl)
      (sessions : s'.sessions = s.sessions := by rfl) (faults : s'.faults = s.faults := by rfl)
      (nextId : s'.nextId = s.nextId := by rfl) :
      Rests s s' := ⟨saved, registry, sessions, faults, Nat.le_of_eq (nextId ▸ rfl)⟩
  cases h
  case ask => exact .of_calm (discreet_query s).toCalm
  case openCollector =>
    rw [after, run_openCollector]
    split <;> exact same
  case closeCollector =>
    rw [after, run_closeCollector]
    split
    case h_1 => exact same
    case h_2 =>
      dsimp only
      split
      case h_1 => exact same
      case h_2 =>
        rw [run_unsubscribe]
        split <;> exact same
  case collectedEntries =>
    rw [after, run_collectedEntries]
    exact same
  case closeEvaluator =>
    rw [run_closeEvaluator]
    split
    case h_4 e _ =>
      split
      case isTrue => exact same
      case isFalse =>
        unfold unregistered
        split <;> exact same
    all_goals exact same
  all_goals exact same

end Repository

-- What is done in a session leaves policies in their places.

namespace SessionM.Edits

variable {α ε : Type} {work : SessionM ε α} {saved : Saved} {desk : Desk}

theorem composed {tree : Store} (h : work.Edits tree) : work.Composed := by
  cases h
  case setPolicy      => exact composed_setPolicy
  case removePolicy   => exact composed_removePolicy
  case addNode        => exact .addNode ..
  case addMixin       => exact .addMixin ..
  case setProperty    => exact .setProperty ..
  case removeProperty => exact .removeProperty ..
  case removeNode     => exact .removeNode _
  case ask            => exact .ask _

theorem inPlace (h : work.Edits (desk.session.store saved)) (hd : desk.InPlace saved) :
    (work.run' saved desk).2.InPlace saved := by
  cases h
  case setPolicy      => exact Ensures.inPlace_setPolicy.always hd
  case removePolicy   => exact Ensures.inPlace_removePolicy.always hd
  case addMixin _ plain => exact (Ensures.inPlace_addMixin plain).always hd
  case setProperty    => exact Ensures.inPlace_setProperty.always hd
  case removeProperty => exact Ensures.inPlace_removeProperty.always hd
  case removeNode     => exact Ensures.inPlace_removeNode.always hd
  case ask            => rwa [run'_ask]
  case addNode parent name type outside plain =>
    refine (Ensures.inPlace_addNode (P := (· = desk)) (fun _ hd' => hd' ▸ hd) ?_).always rfl
    rintro _ rfl c rfl _ _
    rw [Desk.store_eq] at outside
    exact .of_plain outside plain

end SessionM.Edits

namespace Repository

variable {s s' : Repository} {n : Nat} {x : NodeId}

theorem Uses.moves (h : Uses s s') : Moves s s' := by
  cases h
  case login faults                                 => exact .login faults
  case edit n _ hw                                  => exact .work n hw.composed
  case refresh n keepChanges                        => exact .refresh n keepChanges
  case save n                                       => exact .save n
  case check h                                      => exact h.rests.moves
  case observe                                      => exact Rests.observe.moves
  case unobserve                                    => exact Rests.unsubscribe.moves
  case elsewhere saved _ sessions faults nextId _ _ _ _ =>
    exact .elsewhere saved sessions faults nextId

-- What a step does to working copies.

structure Idles (s s' : Repository) : Prop where
  saved  : s'.saved = s.saved
  nextId : s.nextId.value ≤ s'.nextId.value
  copy   : ∀ {n : Nat} {c : WorkingCopy}, (s'.session n).working = some c →
    (s.session n).working = some c

structure Commits (s : Repository) (n : Nat) (c : WorkingCopy) (s' : Repository) : Prop where
  working : (s.session n).working = some c
  base    : c.base = s.saved.revision
  saved   : s'.saved = ⟨c.store, s.saved.revision + 1, s.saved.types⟩
  nextId  : s'.nextId = s.nextId
  copy    : ∀ {n : Nat} {c : WorkingCopy}, (s'.session n).working = some c →
    (s.session n).working = some c

theorem Rests.idles (h : Rests s s') : Idles s s' :=
  ⟨h.saved, h.nextId, fun {m c} hc => by rwa [session, h.sessions] at hc⟩

theorem Idles.refl : Idles s s := ⟨rfl, Nat.le_refl _, id⟩

theorem Idles.login {faults : Faults} : Idles s ((Repository.login faults).run s).2 := by
  refine ⟨rfl, Nat.le_refl _, fun {m c} hc => ?_⟩
  simp only [session, run_login, Table.get?_add] at hc
  split at hc
  case isTrue  => exact nomatch hc
  case isFalse => exact hc

theorem Idles.refresh {keepChanges : Bool} : Idles s (s.after (refresh n keepChanges)) := by
  rw [after, run_refresh]
  split
  case h_1 => exact .refl
  case h_2 =>
    refine ⟨rfl, Nat.le_refl _, fun {m c} hc => ?_⟩
    simp only [session, Table.get?_modify] at hc
    split at hc
    case isFalse => exact hc
    case isTrue =>
      unfold session
      cases ho : s.sessions.get? m <;> rw [ho] at hc
      case none   => cases hc
      case some _ =>
        cases keepChanges
        case true  => exact hc
        case false => cases hc

theorem session_set {session : Session} {c : WorkingCopy} {m : Nat}
    (h : (((s.sessions.set n session).get? m).getD .new).working = some c) :
    m = n ∧ session.working = some c ∨ (s.session m).working = some c := by
  rw [Table.get?_set] at h
  split at h
  case isFalse => exact .inr h
  case isTrue hm =>
    cases ho : s.sessions.get? m <;> rw [ho] at h
    case none   => exact nomatch h
    case some _ => exact .inl ⟨hm, h⟩

theorem committed_working {saved : Saved} {c : WorkingCopy} {m : Nat}
    (h : ((s.committed n saved).session m).working = some c) : (s.session m).working = some c :=
  (session_set h).resolve_left fun h => nomatch h.2

-- A save fails, has nothing to save, or puts the working copy in place and tells of the changes.
theorem save_cases : s.after (save n) = s ∨ s.after (save n) = s.committed n s.saved ∨
    ∃ c, Commits s n c (s.after (save n)) ∧ s.after (save n) =
      ((dispatch (s.saved.store.changes c.store s.saved.types)).run
        (s.committed n ⟨c.store, s.saved.revision + 1, s.saved.types⟩)).2 := by
  rcases after_save_cases (s := s) (n := n) with same | ⟨events, saved, hc, told⟩
  case inl => exact .inl same
  case inr =>
    rw [told]
    rcases Session.commit_cases hc with ⟨_, rfl, rfl⟩ | ⟨c, hw, hb, rfl, rfl⟩
    case inl => exact .inr (.inl (congrArg Prod.snd run_dispatch_nil))
    case inr =>
      have calm := keepsCalm_dispatch (s.saved.store.changes c.store s.saved.types)
        (s.committed n ⟨c.store, s.saved.revision + 1, s.saved.types⟩)
      refine .inr (.inr ⟨c, ⟨hw, hb, calm.saved, calm.nextId, ?_⟩, rfl⟩)
      intro m c' hw'
      rw [session, calm.sessions] at hw'
      exact committed_working hw'

-- Everything but an edit leaves working copies as they are, drops them or saves one.
theorem Uses.cases (h : Uses s s') :
    (∃ (α ε : Type) (n : Nat) (work : SessionM ε α), work.Edits ((s.session n).store s.saved) ∧
      s' = s.after (inSession n work)) ∨
    Idles s s' ∨ ∃ n c, Commits s n c s' := by
  cases h
  case edit n work he => exact .inl ⟨_, _, n, work, he, rfl⟩
  case check hc  => exact .inr (.inl hc.rests.idles)
  case observe   => exact .inr (.inl Rests.observe.idles)
  case unobserve => exact .inr (.inl Rests.unsubscribe.idles)
  case elsewhere saved registry sessions faults nextId _ _ _ _ =>
    exact .inr (.inl (Rests.idles ⟨saved, registry, sessions, faults, nextId⟩))
  case login     => exact .inr (.inl .login)
  case refresh   => exact .inr (.inl .refresh)
  case save n =>
    rcases save_cases (s := s) (n := n) with heq | heq | ⟨c, commits, -⟩
    · rw [heq]
      exact .inr (.inl .refl)
    · rw [heq]
      exact .inr (.inl ⟨rfl, Nat.le_refl _, committed_working⟩)
    · exact .inr (.inr ⟨n, c, commits⟩)

-- Whoever has not saved yet cannot any more.
theorem Commits.outdated {c c' : WorkingCopy} {m : Nat} (h : Commits s n c s') (sound : s.Sound)
    (hc : (s'.session m).working = some c') : c'.base ≠ s'.saved.revision := by
  have old := (sound.session (h.copy hc)).base_le
  rw [h.saved]
  exact Nat.ne_of_lt (Nat.lt_succ_of_le old)

-- Policies stand in their places in the saved tree, and in every tree that may be saved.
structure Tended (s : Repository) : Prop where
  sound : s.Sound
  tree  : s.saved.store.InPlace
  copy  : ∀ {n : Nat} {c : WorkingCopy}, (s.session n).working = some c → c.InPlace s.saved

namespace Tended

theorem initial {r : Registry} : Tended { initial .initial with registry := r } where
  sound   := ⟨Sound.initial.tree, rfl, Sound.initial.copy⟩
  tree    := .initial (by decide)
  copy hc := nomatch hc

theorem desk (h : s.Tended) : Desk.InPlace s.saved ⟨s.session n, s.nextId⟩ :=
  ⟨h.sound.desk, h.tree, fun _ => h.copy⟩

theorem uses (h : s.Tended) (hu : Uses s s') : s'.Tended := by
  have sound := h.sound.moves hu.moves
  rcases hu.cases with ⟨_, _, n, work, he, rfl⟩ | idles | ⟨n, c, commits⟩
  · have hd := SessionM.Edits.inPlace he (h.desk (n := n))
    rw [after, run_inSession] at *
    exact ⟨sound, h.tree, fun hc => (session_set hc).elim (fun hc => hd.copy _ hc.2) h.copy⟩
  · refine ⟨sound, idles.saved ▸ h.tree, fun hc => ?_⟩
    rw [idles.saved]
    exact h.copy (idles.copy hc)
  · refine ⟨sound, ?_, fun hc => ?_⟩
    · rw [commits.saved]
      exact (h.copy commits.working).placed commits.base
    · have late := commits.outdated h.sound hc
      exact ⟨(absurd · late), (absurd · late)⟩

theorem used (h : Used s) : s.Tended := by
  obtain ⟨_, h⟩ := h
  induction h
  case refl        => exact initial
  case tail hu h   => exact h.uses hu

-- A save that names nobody's policy changes nothing about policies.
theorem quiet {c : WorkingCopy} (h : s.Tended) (hu : Uses s s') (hc : Commits s n c s')
    (silent : ∀ path, ¬s.saved.store.Names s'.saved.store path) :
    s.saved.store.Quiet s'.saved.store := by
  have after := h.uses hu
  have copy := h.sound.session hc.working
  have stored : s'.saved.store = c.store := by rw [hc.saved]
  refine ⟨h.sound.tree.wellFormed, after.sound.tree.wellFormed, ?_, ?_, h.tree, after.tree, silent⟩
  · exact stored ▸ copy.follows hc.base
  · exact stored ▸ (h.copy hc.working).kinds hc.base

end Tended

-- Nodes that are gone for good.

-- The id has been given to a node, and that node is not in any tree that may be read or saved.
structure Retired (s : Repository) (x : NodeId) : Prop where
  given : x.value < s.nextId.value
  saved : x ∉ s.saved.store.nodes
  copy  : ∀ {n : Nat} {c : WorkingCopy}, (s.session n).working = some c →
    c.base = s.saved.revision → x ∉ c.store.nodes

theorem Retired.uses (h : s.Retired x) (sound : s.Sound) (hu : Uses s s') : s'.Retired x := by
  rcases hu.cases with ⟨_, _, n, work, he, rfl⟩ | idles | ⟨n, c, commits⟩
  · have turns : Desk.Turns s.saved ⟨s.session n, s.nextId⟩ _ := he.composed.turns
    -- The copy never has the node, neither when it is taken nor after a turn.
    have start : Desk.Bears s.saved x (fun _ => False) ⟨s.session n, s.nextId⟩ := by
      refine fun hb => ⟨h.given, fun hx => ?_⟩
      unfold SessionM.copy at hb hx
      cases hw : (s.session n).working <;> simp only [hw, Option.getD] at hb hx
      case none   => exact h.saved hx
      case some c => exact h.copy hw hb hx
    have bears := start.turns (fun _ _ _ _ => id) sound.desk turns
    rw [after, run_inSession]
    refine ⟨Nat.lt_of_lt_of_le h.given turns.nextId_le, h.saved, fun {m c} hc hb hx => ?_⟩
    rcases session_set hc with ⟨_, hc⟩ | hc
    · have copy : SessionM.copy s.saved _ = c := congrArg (Option.getD · _) hc
      rw [Desk.Bears, copy] at bears
      exact (bears hb).2 hx
    · exact h.copy hc hb hx
  · refine ⟨Nat.lt_of_lt_of_le h.given idles.nextId, idles.saved ▸ h.saved, fun hc hb => ?_⟩
    exact h.copy (idles.copy hc) (idles.saved ▸ hb)
  · refine ⟨commits.nextId ▸ h.given, ?_, fun hc hb => absurd hb (commits.outdated sound hc)⟩
    rw [commits.saved]
    exact h.copy commits.working commits.base

-- A node that a save removes is gone for good.
theorem Commits.retired {c : WorkingCopy} (h : Commits s n c s') (sound : s.Sound)
    (hx : x ∈ s.saved.store.nodes) (gone : x ∉ s'.saved.store.nodes) : s'.Retired x :=
  ⟨h.nextId ▸ sound.tree.below x hx, gone, fun hc hb => absurd hb (h.outdated sound hc)⟩

end Repository

end PolicyTree
