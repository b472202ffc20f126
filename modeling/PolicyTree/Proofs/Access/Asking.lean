import Mathlib.Tactic.Common
import PolicyTree.Evaluator
import PolicyTree.Proofs.Success

namespace PolicyTree

namespace Cache

variable {κ ν : Type} [DecidableEq κ] {c : Cache κ ν} {k : κ} {v : ν} {Q : κ → ν → Prop}

def Holds (c : Cache κ ν) (Q : κ → ν → Prop) : Prop := ∀ k v, (k, v) ∈ c.entries → Q k v

omit [DecidableEq κ] in
theorem holds_empty {capacity : Nat} : (empty capacity : Cache κ ν).Holds Q := by
  simp [Holds, empty, RecencyMap.empty]

omit [DecidableEq κ] in
theorem holds_clear : c.clear.Holds Q := by
  simp [Holds, clear, RecencyMap.clear]

namespace Holds

variable (h : c.Holds Q)

include h

theorem found (hv : (c.get k).1 = some v) : Q k v :=
  h k v (RecencyMap.mem_of_peek (get_fst.symm.trans hv))

theorem get : (c.get k).2.Holds Q := by
  intro l w hm
  rw [toRecencyMap_get] at hm
  exact h l w (RecencyMap.mem_of_mem_get hm)

theorem put (hv : Q k v) : (c.put k v).Holds Q := by
  intro l w hm
  rw [toRecencyMap_put] at hm
  rcases RecencyMap.mem_of_mem_push hm with hm | hm
  · obtain ⟨rfl, rfl⟩ := Prod.mk.inj hm
    exact hv
  · exact h l w hm

end Holds

end Cache

variable {tree : TreeView} {r : Registry} {ps : PrincipalSet} {node : NodeHandle} {path : String}

-- What the questions come to.

-- What a collector goes on to do with what it found in its cache, and what is collected else.
def Collector.entriesFrom (ps : PrincipalSet) (node : NodeHandle)
    (found : Option (List Entry) × Cache EntryKey (List Entry))
    (collected : Except AccessError (List Entry)) :
    ExceptT AccessError (StateM Collector) (List Entry) := do
  modify fun c => { c with cache := found.2 }
  if let some entries := found.1 then return entries
  match collected with
  | .ok entries =>
    modify fun c => { c with cache := c.cache.put (.of ps node) entries }
    return entries
  | .error e => throw e

theorem Collector.run_entries {c : Collector} : (Collector.entries tree r ps node).run.run c =
    match c.cache.get (.of ps node) with
    | (some es, cache) => (.ok es, { c with cache })
    | (none, cache) => match collect tree r ps node with
      | .ok es => (.ok es, { c with cache := cache.put (.of ps node) es })
      | .error e => (.error e, { c with cache }) := by
  show (entriesFrom ps node (c.cache.get (.of ps node)) (collect tree r ps node)).run.run c = _
  rcases c.cache.get (.of ps node) with ⟨_ | _, cache⟩
  · cases collect tree r ps node <;> rfl
  · rfl

-- A decision that is worked out from the tree alone.
def decideAfresh (tree : TreeView) (r : Registry) (ps : PrincipalSet) (path : String) :
    Except AccessError Decision := do
  let (node, isPolicyItem) ← governing tree (← locate tree path)
  return evaluate (← collect tree r ps node) ⟨path, node.id, isPolicyItem⟩

theorem decideAfresh_eq : decideAfresh tree r ps path = (do
    let (node, isPolicyItem) ← locate tree path >>= governing tree
    return evaluate (← collect tree r ps node) ⟨path, node.id, isPolicyItem⟩) := by
  rw [decideAfresh, bind_assoc]

namespace EvaluatorM

variable {b : Bench}

theorem run_entries : (entries tree r node).run.run b =
    let out := (Collector.entries tree r b.evaluator.principals node).run.run b.collector
    (out.1, { b with collector := out.2 }) := by
  let out := (Collector.entries tree r b.evaluator.principals node).run.run b.collector
  show (liftM out.1 : EvaluatorM (List Entry)).run.run { b with collector := out.2 } = _
  dsimp only
  cases out.1 <;> rfl

-- Work that goes on after work that may fail.
theorem run_bind {α β : Type} {x : EvaluatorM β} {f : β → EvaluatorM α} :
    (x >>= f).run.run b = match x.run.run b with
      | (.ok a, b) => (f a).run.run b
      | (.error e, b) => (.error e, b) := by
  simp only [ExceptT.run_bind, StateT.run_bind]
  rcases x.run.run b with ⟨_ | _, b⟩ <;> rfl

theorem run_lift {α : Type} {x : Except AccessError α} :
    (liftM x : EvaluatorM α).run.run b = (x, b) := by
  cases x <;> rfl

theorem run_pure {α : Type} {a : α} : (pure a : EvaluatorM α).run.run b = (.ok a, b) := rfl

theorem run_get : (get : EvaluatorM Bench).run.run b = (.ok b, b) := rfl

theorem run_modify {f : Bench → Bench} :
    (modify f : EvaluatorM PUnit).run.run b = (.ok ⟨⟩, f b) := rfl

theorem run_decide : (decide tree r path).run.run b =
    match locate tree path >>= governing tree with
    | .error e => (.error e, b)
    | .ok (node, isPolicyItem) =>
      let out := (entries tree r node).run.run b
      ((evaluate · ⟨path, node.id, isPolicyItem⟩) <$> out.1, out.2) := by
  simp only [decide, run_bind, run_lift, run_pure]
  cases locate tree path
  case error e => rfl
  case ok located =>
    show _ = match governing tree located with
      | .error e => _
      | .ok (node, isPolicyItem) => _
    dsimp only
    cases governing tree located
    case error e => rfl
    case ok governed =>
      dsimp only
      rcases (entries tree r governed.1).run.run b with ⟨_ | _, b⟩ <;> rfl

theorem run_decision : (decision tree r path).run.run b =
    if b.evaluator.isClosed then (.error (.notInitialized .evaluatorClosed), b)
    else
      let asked : Bench := { b with
        evaluator := { b.evaluator with decisions := (b.evaluator.decisions.get path).2 } }
      match (b.evaluator.decisions.get path).1 with
      | some d => (.ok d, asked)
      | none => match (decide tree r path).run.run asked with
        | (.ok d, b) => (.ok d, { b with
            evaluator := { b.evaluator with decisions := b.evaluator.decisions.put path d } })
        | (.error e, b) => (.error e, b) := by
  simp only [decision, run_bind, run_lift, run_get, run_modify]
  rcases b with ⟨⟨_, _, _, decisions, _, _ | _⟩, _⟩
  case true => rfl
  case false =>
    simp only [requireOpen, Bool.false_eq_true, if_false]
    rcases decisions.get path with ⟨_ | _, decisions⟩
    · simp only [run_bind, run_modify, run_pure]
      generalize (decide tree r path).run.run _ = out
      rcases out with ⟨_ | _, b⟩ <;> rfl
    · rfl

theorem run_map {α β : Type} {f : α → β} {x : EvaluatorM α} : (f <$> x).run.run b =
    (f <$> (x.run.run b).1, (x.run.run b).2) := by
  rw [← bind_pure_comp, run_bind]
  rcases x.run.run b with ⟨_ | _, b⟩ <;> rfl

theorem grants_eq {permissions : Permissions} :
    grants tree r path permissions = (·.grants permissions) <$> decision tree r path :=
  bind_pure_comp ..

theorem privileges_eq : privileges tree r path = (·.allowPrivileges) <$> decision tree r path :=
  bind_pure_comp ..

theorem run_canRead {item : Option NodeId} : (canRead tree r path item).run.run b =
    if b.evaluator.isClosed then (.error (.notInitialized .evaluatorClosed), b)
    else match readTarget tree path item with
      | .error e => (.error e, b)
      | .ok node =>
        let asked : Bench := { b with
          evaluator := { b.evaluator with reads := (b.evaluator.reads.get node.id).2 } }
        match (b.evaluator.reads.get node.id).1 with
        | some granted => (.ok granted, asked)
        | none => match (grants tree r node.path .read).run.run asked with
          | (.ok granted, b) => (.ok granted, { b with
              evaluator := { b.evaluator with reads := b.evaluator.reads.put node.id granted } })
          | (.error e, b) => (.error e, b) := by
  simp only [canRead, run_bind, run_lift, run_get, run_modify]
  rcases b with ⟨⟨_, _, _, _, reads, _ | _⟩, _⟩
  case true => rfl
  case false =>
    simp only [requireOpen, Bool.false_eq_true, if_false]
    cases readTarget tree path item
    case error e => rfl
    case ok node =>
      dsimp only
      rcases reads.get node.id with ⟨_ | _, reads⟩
      · simp only [run_bind, run_modify, run_pure]
        generalize (grants tree r node.path .read).run.run _ = out
        rcases out with ⟨_ | _, b⟩ <;> rfl
      · rfl

end EvaluatorM

-- What is kept, and what is answered from it.

variable {E : EntryKey → List Entry → Prop} {D : String → Decision → Prop}
  {R : NodeId → Bool → Prop}

-- What is said of the caches of an evaluator and of its collector.
structure Bench.Holds (E : EntryKey → List Entry → Prop) (D : String → Decision → Prop)
    (R : NodeId → Bool → Prop) (b : Bench) : Prop where
  entries   : b.collector.cache.Holds E
  decisions : b.evaluator.decisions.Holds D
  reads     : b.evaluator.reads.Holds R

-- Two benches differ in what is cached alone.
structure Bench.Like (b b' : Bench) : Prop where
  evaluator : ∃ decisions reads, b'.evaluator = { b.evaluator with decisions, reads }
  collector : ∃ cache, b'.collector = { b.collector with cache }

theorem Bench.Like.refl {b : Bench} : b.Like b := ⟨⟨_, _, rfl⟩, ⟨_, rfl⟩⟩

theorem Bench.Like.trans {b b' b'' : Bench} (h : b.Like b') (h' : b'.Like b'') : b.Like b'' := by
  obtain ⟨⟨_, _, he⟩, ⟨_, hc⟩⟩ := h
  obtain ⟨⟨_, _, he'⟩, ⟨_, hc'⟩⟩ := h'
  exact ⟨⟨_, _, by rw [he', he]⟩, ⟨_, by rw [hc', hc]⟩⟩

-- What is found out from a tree may be said of the caches.
structure Sustains (tree : TreeView) (r : Registry) (ps : PrincipalSet)
    (E : EntryKey → List Entry → Prop) (D : String → Decision → Prop) (R : NodeId → Bool → Prop) :
    Prop where
  entries   : ∀ {path : String} {node : NodeHandle} {isPolicyItem : Bool} {es : List Entry},
    (locate tree path >>= governing tree) = .ok (node, isPolicyItem) →
    collect tree r ps node = .ok es → E (.of ps node) es
  decisions : ∀ {path : String} {node : NodeHandle} {isPolicyItem : Bool} {es : List Entry},
    (locate tree path >>= governing tree) = .ok (node, isPolicyItem) →
    E (.of ps node) es → D path (evaluate es ⟨path, node.id, isPolicyItem⟩)
  reads     : ∀ {path : String} {item : Option NodeId} {node : NodeHandle} {d : Decision},
    EvaluatorM.readTarget tree path item = .ok node → D node.path d → R node.id (d.grants .read)

-- An answer is as said, and so is an error.
def Fulfils {α : Type} (answer : Except AccessError α) (Q : α → Prop) (F : AccessError → Prop) :
    Prop :=
  match answer with
  | .ok a => Q a
  | .error e => F e

-- Work of an open evaluator keeps what is said of the caches, and its answer is as said.
def EvaluatorM.Answers {α : Type} (ps : PrincipalSet) (E : EntryKey → List Entry → Prop)
    (D : String → Decision → Prop) (R : NodeId → Bool → Prop) (work : EvaluatorM α)
    (Q : α → Prop) (F : AccessError → Prop) : Prop :=
  ∀ b : Bench, b.evaluator.principals = ps → b.evaluator.isClosed = false → b.Holds E D R →
    ∀ answer b', work.run.run b = (answer, b') → Fulfils answer Q F ∧ b'.Holds E D R ∧ b.Like b'

theorem EvaluatorM.Answers.map {α β : Type} {work : EvaluatorM α} {Q : α → Prop}
    {F : AccessError → Prop} {f : α → β} (h : Answers ps E D R work Q F) :
    Answers ps E D R (f <$> work) (fun b => ∃ a, Q a ∧ b = f a) F := by
  intro b hp ho hb answer b' hr
  rw [run_map] at hr
  rcases hw : work.run.run b with ⟨answered, b''⟩
  have ⟨hq, hb'', like⟩ := h b hp ho hb _ _ hw
  rw [hw] at hr
  obtain ⟨rfl, rfl⟩ := Prod.mk.inj hr
  refine ⟨?_, hb'', like⟩
  cases answered
  case error e => exact hq
  case ok a    => exact ⟨a, hq, rfl⟩

theorem Collector.answers_entries {c c' : Collector} {answer : Except AccessError (List Entry)}
    (h : c.cache.Holds E) (hE : ∀ es, collect tree r ps node = .ok es → E (.of ps node) es)
    (hr : (Collector.entries tree r ps node).run.run c = (answer, c')) :
    Fulfils answer (E (.of ps node)) (fun e => collect tree r ps node = .error e) ∧
      c'.cache.Holds E ∧ ∃ cache, c' = { c with cache } := by
  have found {es : List Entry} := h.found (k := .of ps node) (v := es)
  have kept := h.get (k := .of ps node)
  rw [run_entries] at hr
  rcases hg : c.cache.get (.of ps node) with ⟨_ | es, cache⟩ <;> rw [hg] at hr found kept
  case some =>
    obtain ⟨rfl, rfl⟩ := Prod.mk.inj hr
    exact ⟨found rfl, kept, cache, rfl⟩
  case none =>
    rcases hc : collect tree r ps node with e | es <;> rw [hc] at hr <;>
      obtain ⟨rfl, rfl⟩ := Prod.mk.inj hr
    · exact ⟨rfl, kept, cache, rfl⟩
    · exact ⟨hE es hc, kept.put (hE es hc), _, rfl⟩

namespace EvaluatorM

variable (h : Sustains tree r ps E D R)

include h

theorem answers_decide : Answers ps E D R (decide tree r path) (D path)
    fun e => decideAfresh tree r ps path = .error e := by
  rintro b rfl ho hb answer b' hr
  rw [run_decide] at hr
  rw [decideAfresh_eq]
  rcases hl : locate tree path >>= governing tree with e | ⟨node, isPolicyItem⟩ <;> rw [hl] at hr
  case error =>
    obtain ⟨rfl, rfl⟩ := Prod.mk.inj hr
    exact ⟨rfl, hb, .refl⟩
  case ok =>
    simp only [run_entries] at hr
    obtain ⟨rfl, rfl⟩ := Prod.mk.inj hr
    rcases hc : (Collector.entries tree r b.evaluator.principals node).run.run b.collector with
      ⟨answer, c⟩
    have ⟨hes, hcache, cache, heq⟩ :=
      Collector.answers_entries hb.entries (fun _ => h.entries hl) hc
    refine ⟨?_, ⟨hcache, hb.decisions, hb.reads⟩, ⟨_, _, rfl⟩, cache, heq⟩
    cases answer
    case ok es => exact h.decisions hl hes
    case error e =>
      show (collect tree r b.evaluator.principals node >>= _) = _
      rw [show collect tree r b.evaluator.principals node = .error e from hes]
      rfl

theorem answers_decision : Answers ps E D R (decision tree r path) (D path)
    fun e => decideAfresh tree r ps path = .error e := by
  rintro b rfl ho hb answer b' hr
  rw [run_decision, if_neg (by simp [ho])] at hr
  dsimp only at hr
  set asked : Bench := { b with
    evaluator := { b.evaluator with decisions := (b.evaluator.decisions.get path).2 } }
  have like : b.Like asked := ⟨⟨_, _, rfl⟩, _, rfl⟩
  have kept : asked.Holds E D R := ⟨hb.entries, hb.decisions.get, hb.reads⟩
  cases hg : (b.evaluator.decisions.get path).1 <;> rw [hg] at hr
  case some d =>
    obtain ⟨rfl, rfl⟩ := Prod.mk.inj hr
    exact ⟨hb.decisions.found hg, kept, like⟩
  case none =>
    rcases hd : (decide tree r path).run.run asked with ⟨decided, b''⟩
    have ⟨hq, hb'', like'⟩ := answers_decide h asked rfl ho kept _ _ hd
    rw [hd] at hr
    cases decided <;> obtain ⟨rfl, rfl⟩ := Prod.mk.inj hr
    case error e => exact ⟨hq, hb'', like.trans like'⟩
    case ok d =>
      exact ⟨hq, ⟨hb''.entries, hb''.decisions.put hq, hb''.reads⟩,
        (like.trans like').trans ⟨⟨_, _, rfl⟩, _, rfl⟩⟩

theorem answers_canRead {item : Option NodeId} : Answers ps E D R (canRead tree r path item)
    (fun granted => ∃ node, readTarget tree path item = .ok node ∧ R node.id granted)
    fun e => (readTarget tree path item >>= fun node => decideAfresh tree r ps node.path) =
      .error e := by
  rintro b rfl ho hb answer b' hr
  rw [run_canRead, if_neg (by simp [ho])] at hr
  rcases ht : readTarget tree path item with e | node <;> rw [ht] at hr
  case error =>
    obtain ⟨rfl, rfl⟩ := Prod.mk.inj hr
    exact ⟨rfl, hb, .refl⟩
  case ok =>
    dsimp only at hr
    set asked : Bench := { b with
      evaluator := { b.evaluator with reads := (b.evaluator.reads.get node.id).2 } }
    have like : b.Like asked := ⟨⟨_, _, rfl⟩, _, rfl⟩
    have kept : asked.Holds E D R := ⟨hb.entries, hb.decisions, hb.reads.get⟩
    cases hg : (b.evaluator.reads.get node.id).1 <;> rw [hg] at hr
    case some granted =>
      obtain ⟨rfl, rfl⟩ := Prod.mk.inj hr
      exact ⟨⟨node, rfl, hb.reads.found hg⟩, kept, like⟩
    case none =>
      rcases hd : (grants tree r node.path .read).run.run asked with ⟨found, b''⟩
      have decided : Answers _ E D R (decision tree r node.path) _ _ := answers_decision h
      have ⟨hq, hb'', like'⟩ := decided.map asked rfl ho kept _ _ (grants_eq ▸ hd)
      rw [hd] at hr
      cases found <;> obtain ⟨rfl, rfl⟩ := Prod.mk.inj hr
      case error e => exact ⟨hq, hb'', like.trans like'⟩
      case ok granted =>
        obtain ⟨d, hdec, rfl⟩ := hq
        have hread := h.reads ht hdec
        exact ⟨⟨node, rfl, hread⟩, ⟨hb''.entries, hb''.decisions, hb''.reads.put hread⟩,
          (like.trans like').trans ⟨⟨_, _, rfl⟩, _, rfl⟩⟩

end EvaluatorM

-- Evaluators that are made for a question.

-- An open evaluator for some principals, which like its collector has found nothing out yet.
structure Bench.Fresh (ps : PrincipalSet) (b : Bench) : Prop where
  principals : b.evaluator.principals = ps
  isOpen     : b.evaluator.isClosed = false
  entries    : b.collector.cache.entries = []
  decisions  : b.evaluator.decisions.entries = []
  reads      : b.evaluator.reads.entries = []

theorem Cache.get_of_empty {κ ν : Type} [DecidableEq κ] {c : Cache κ ν} {k : κ}
    (h : c.entries = []) : c.get k = (none, { c with misses := c.misses + 1 }) :=
  get_of_not_contains (by rw [RecencyMap.contains, RecencyMap.peek, h]; rfl)

namespace Bench.Fresh

variable {b : Bench}

theorem detached {collector resultCapacity readCapacity capacity : Nat} {id : SubscriptionId} :
    Fresh ps ⟨.detached ps collector resultCapacity readCapacity, .new capacity id⟩ :=
  ⟨rfl, rfl, rfl, rfl, rfl⟩

variable (h : b.Fresh ps)

include h

theorem decide : ((EvaluatorM.decide tree r path).run.run b).1 = decideAfresh tree r ps path := by
  rw [EvaluatorM.run_decide, decideAfresh_eq]
  rcases locate tree path >>= governing tree with e | ⟨node, isPolicyItem⟩
  case error => rfl
  case ok =>
    dsimp only
    rw [EvaluatorM.run_entries, h.principals, Collector.run_entries, Cache.get_of_empty h.entries]
    show _ = (collect tree r ps node >>= _)
    cases collect tree r ps node <;> rfl

theorem decision :
    ((EvaluatorM.decision tree r path).run.run b).1 = decideAfresh tree r ps path := by
  have asked : Fresh ps { b with evaluator := { b.evaluator with
      decisions := (b.evaluator.decisions.get path).2 } } := by
    refine ⟨h.principals, h.isOpen, h.entries, ?_, h.reads⟩
    rw [Cache.get_of_empty h.decisions]
    exact h.decisions
  have decided : _ = decideAfresh tree r ps path := asked.decide
  rw [EvaluatorM.run_decision, if_neg (by simp [h.isOpen]), Cache.get_of_empty h.decisions] at *
  dsimp only at decided ⊢
  rw [← decided]
  generalize (EvaluatorM.decide tree r path).run.run _ = out
  rcases out with ⟨_ | _, _⟩ <;> rfl

theorem grants {permissions : Permissions} :
    ((EvaluatorM.grants tree r path permissions).run.run b).1 =
      (·.grants permissions) <$> decideAfresh tree r ps path := by
  rw [EvaluatorM.grants_eq, EvaluatorM.run_map, h.decision]

theorem privileges : ((EvaluatorM.privileges tree r path).run.run b).1 =
    (·.allowPrivileges) <$> decideAfresh tree r ps path := by
  rw [EvaluatorM.privileges_eq, EvaluatorM.run_map, h.decision]

end Bench.Fresh

end PolicyTree
